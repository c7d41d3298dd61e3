/-
  ToolGateway.Policy.Evaluate

  When the evaluation of an accepted policy answers.  `_Cond.holds` catches the
  TypeError and ValueError of its operator; `float()` of an integer past the
  binary64 range raises OverflowError, which leaves `grant_for`.

  `Compiled.answer` is what `grant_for` is for: every condition that cannot be
  evaluated counts as not holding.  The loops compute it unless they get to a
  condition that escapes.
-/

import ToolGateway.Policy.FailClosed
import ToolGateway.Python.Binary64

namespace ToolGateway.Policy

open Py

-- ============================================================================
-- The meaning of a policy
-- ============================================================================

/-- The condition holds; one that cannot be evaluated does not. -/
def Cond.decides (c : Cond) (arguments : Json) : Bool :=
  match arguments with
  | .dict fs =>
      match fs.lookup c.arg with
      | some a => (c.op.apply a c.value).toOption.getD false
      | none => false
  | _ => false

/-- The rule is about this call, and all its conditions hold. -/
def Rule.applies (r : Rule) (call : ToolCall) (trusted : Bool) : Bool :=
  r.targets call trusted && r.conds.all fun c => c.decides call.arguments

/-- The grant of the first rule that applies, else the default. -/
def Compiled.answer (p : Compiled) (call : ToolCall) : Option Grant :=
  match p.rules.find? fun r => r.applies call (p.trusts call.upstreamId) with
  | some r => r.verdict
  | none => p.default

-- ============================================================================
-- Where an exception escapes
-- ============================================================================

/-- `float()` of the value raises OverflowError. -/
def Overflows (v : Json) : Prop := ∃ n, v = .int n ∧ PastBinary64 n

/-- `float()` of the value returns. -/
def Converts (v : Json) : Prop := ∃ f, v.toFloat = .ok f

/-- The condition raises what `holds` does not catch: an ordering operator meets
    an integer past the binary64 range, or the arguments are no container. -/
def Cond.Escapes (c : Cond) (arguments : Json) : Prop :=
  match arguments with
  | .dict fs =>
      c.op.ordering = true ∧
        ∃ a, fs.lookup c.arg = some a ∧ (Overflows a ∨ Converts a ∧ Overflows c.value)
  | .list _ | .str _ => False
  | _ => True

/-- The search for a rule gets to this condition. -/
def Compiled.Consults (p : Compiled) (call : ToolCall) (c : Cond) : Prop :=
  ∃ r, Reaches (fun r => r.applies call (p.trusts call.upstreamId) = false) p.rules r ∧
    r.targets call (p.trusts call.upstreamId) = true ∧
    Reaches (fun c => c.decides call.arguments = true) r.conds c

theorem toFloat_eq_overflowError {v : Json} : v.toFloat = .error .overflowError ↔ Overflows v := by
  unfold Overflows
  cases v with
  | int n =>
      simp only [Json.toFloat, floatOfInt_eq_error_iff, and_true, Json.int.injEq, exists_eq_left']
  | str s =>
      constructor
      · intro h
        cases floatOfStr_error h
      · rintro ⟨n, hn, -⟩
        cases hn
  | null | bool | float | list | dict => simp [Json.toFloat]

theorem compareNum_eq_overflowError {cmp : Float64 → Float64 → Bool} {a b : Json} :
    Op.compareNum cmp a b = .error .overflowError ↔
      Overflows a ∨ Converts a ∧ Overflows b := by
  rw [← toFloat_eq_overflowError, ← toFloat_eq_overflowError]
  unfold Op.compareNum Converts
  cases ha : a.toFloat with
  | error e => simp
  | ok x =>
      cases hb : b.toFloat with
      | error e => simp
      | ok y => simp

theorem Op.apply_eq_overflowError {op : Op} {a b : Json} :
    op.apply a b = .error .overflowError ↔
      op.ordering = true ∧ (Overflows a ∨ Converts a ∧ Overflows b) := by
  cases op with
  | gt | ge | lt | le => simp only [Op.apply, compareNum_eq_overflowError, Op.ordering, true_and]
  | eq | ne => simp [Op.apply, Op.ordering]
  | isIn =>
      have hno : a.isIn b ≠ .error .overflowError := fun h => by cases isIn_error h
      simp [Op.apply, Op.ordering, hno]

theorem Cond.holds_of_escapes {c : Cond} {arguments : Json} (h : c.Escapes arguments) :
    ∃ e, c.holds arguments = .error e := by
  cases arguments with
  | dict fs =>
      obtain ⟨hord, a, hlookup, hover⟩ := h
      have happly := Op.apply_eq_overflowError.mpr ⟨hord, hover⟩
      exact ⟨.overflowError, by simp only [Cond.holds, hlookup, happly, failClosed]⟩
  | list | str => exact h.elim
  | null | bool | int | float => exact ⟨_, rfl⟩

theorem Cond.holds_of_not_escapes {c : Cond} {arguments : Json} (h : ¬ c.Escapes arguments) :
    c.holds arguments = .ok (c.decides arguments) := by
  cases arguments with
  | dict fs =>
      cases hlookup : fs.lookup c.arg with
      | none => simp only [Cond.holds, Cond.decides, hlookup]
      | some a =>
          have hno : c.op.apply a c.value ≠ .error .overflowError := by
            intro happly
            obtain ⟨hord, hover⟩ := Op.apply_eq_overflowError.mp happly
            exact h ⟨hord, a, hlookup, hover⟩
          cases happly : c.op.apply a c.value with
          | ok b => simp only [Cond.holds, Cond.decides, hlookup, happly]; rfl
          | error e =>
              rcases Op.apply_error happly with rfl | rfl | rfl
              · simp only [Cond.holds, Cond.decides, hlookup, happly]; rfl
              · simp only [Cond.holds, Cond.decides, hlookup, happly]; rfl
              · exact absurd happly hno
  | list | str => rfl
  | null | bool | int | float => exact absurd trivial h

-- ============================================================================
-- The two loops
-- ============================================================================

theorem allHold_eq_iff {arguments : Json} {conds : List Cond} :
    allHold arguments conds = .ok (conds.all fun c => c.decides arguments) ↔
      ∀ c, Reaches (fun c => c.decides arguments = true) conds c → ¬ c.Escapes arguments := by
  induction conds with
  | nil => exact iff_of_true rfl fun c hc => absurd hc not_reaches_nil
  | cons c cs ih =>
      rw [forall_reaches_cons, List.all_cons]
      unfold allHold
      by_cases hesc : c.Escapes arguments
      · obtain ⟨e, he⟩ := Cond.holds_of_escapes hesc
        rw [he]
        exact iff_of_false (fun h => by cases h) fun h => h.1 hesc
      · rw [Cond.holds_of_not_escapes hesc]
        cases hdec : c.decides arguments with
        | true =>
            simp only [Bool.true_and, ih]
            exact ⟨fun h => ⟨hesc, fun _ => h⟩, fun h => h.2 trivial⟩
        | false => exact iff_of_true rfl ⟨hesc, fun h => by cases h⟩

/-- A condition list that returns returns what it means. -/
theorem allHold_ok {arguments : Json} {conds : List Cond} {b : Bool}
    (h : allHold arguments conds = .ok b) : b = conds.all fun c => c.decides arguments := by
  induction conds with
  | nil => exact (Except.ok.inj h).symm
  | cons c cs ih =>
      unfold allHold at h
      rw [List.all_cons]
      by_cases hesc : c.Escapes arguments
      · obtain ⟨e, he⟩ := Cond.holds_of_escapes hesc
        rw [he] at h
        cases h
      · rw [Cond.holds_of_not_escapes hesc] at h
        cases hdec : c.decides arguments with
        | true =>
            rw [hdec] at h
            exact ih h
        | false =>
            rw [hdec] at h
            exact (Except.ok.inj h).symm

section
variable {call : ToolCall} {trusted : Bool}

theorem Rule.matches_eq_iff {r : Rule} :
    r.matches call trusted = .ok (r.applies call trusted) ↔
      (r.targets call trusted = true →
        ∀ c, Reaches (fun c => c.decides call.arguments = true) r.conds c →
          ¬ c.Escapes call.arguments) := by
  unfold Rule.matches Rule.applies
  by_cases ht : r.targets call trusted = true
  · rw [if_pos ht, ht, Bool.true_and, allHold_eq_iff]
    exact ⟨fun h _ => h, fun h => h rfl⟩
  · rw [if_neg ht, Bool.eq_false_of_not_eq_true ht]
    exact iff_of_true rfl fun h => by cases h

theorem Rule.matches_ok {r : Rule} {b : Bool} (h : r.matches call trusted = .ok b) :
    b = r.applies call trusted := by
  unfold Rule.matches at h
  unfold Rule.applies
  by_cases ht : r.targets call trusted = true
  · rw [if_pos ht] at h
    rw [ht, Bool.true_and]
    exact allHold_ok h
  · rw [if_neg ht] at h
    rw [Bool.eq_false_of_not_eq_true ht]
    exact (Except.ok.inj h).symm

namespace Compiled

theorem firstMatching_eq_iff {rules : List Rule} :
    firstMatching call trusted rules = .ok (rules.find? fun r => r.applies call trusted) ↔
      ∀ r, Reaches (fun r => r.applies call trusted = false) rules r →
        r.matches call trusted = .ok (r.applies call trusted) := by
  induction rules with
  | nil => exact iff_of_true rfl fun r hr => absurd hr not_reaches_nil
  | cons r rs ih =>
      rw [forall_reaches_cons, List.find?_cons]
      unfold firstMatching
      cases hm : r.matches call trusted with
      | error e => exact iff_of_false (fun h => by cases h) fun h => by cases h.1
      | ok b =>
          obtain rfl := Rule.matches_ok hm
          cases happ : r.applies call trusted with
          | true => exact iff_of_true rfl ⟨rfl, fun h => by cases h⟩
          | false =>
              simp only [ih]
              exact ⟨fun h => ⟨trivial, fun _ => h⟩, fun h => h.2 trivial⟩

end Compiled

end

/-- The search returns the first rule that applies unless a condition it
    consults escapes. -/
theorem Compiled.decidingRule_eq_iff (p : Compiled) (call : ToolCall) :
    p.decidingRule call
        = .ok (p.rules.find? fun r => r.applies call (p.trusts call.upstreamId)) ↔
      ∀ c, p.Consults call c → ¬ c.Escapes call.arguments := by
  unfold Compiled.decidingRule
  rw [firstMatching_eq_iff]
  constructor
  · rintro h c ⟨r, hr, htargets, hc⟩
    exact Rule.matches_eq_iff.mp (h r hr) htargets c hc
  · intro h r hr
    exact Rule.matches_eq_iff.mpr fun htargets c hc => h c ⟨r, hr, htargets, hc⟩

/-- A search that returns has found the first rule that applies. -/
theorem Compiled.firstMatching_ok {call : ToolCall} {trusted : Bool} {rules : List Rule}
    {found : Option Rule} (h : firstMatching call trusted rules = .ok found) :
    found = rules.find? fun r => r.applies call trusted := by
  induction rules with
  | nil => exact (Except.ok.inj h).symm
  | cons r rs ih =>
      unfold firstMatching at h
      rw [List.find?_cons]
      cases hm : r.matches call trusted with
      | error e =>
          rw [hm] at h
          cases h
      | ok b =>
          rw [hm] at h
          obtain rfl := Rule.matches_ok hm
          cases happ : r.applies call trusted with
          | true =>
              rw [happ] at h
              exact (Except.ok.inj h).symm
          | false =>
              rw [happ] at h
              exact ih h

/-- A call is answered as the policy means to when the search finds the first rule that
    applies. -/
theorem Compiled.grantFor_eq_answer_iff (p : Compiled) (call : ToolCall) :
    p.grantFor call = .ok (p.answer call) ↔
      p.decidingRule call
        = .ok (p.rules.find? fun r => r.applies call (p.trusts call.upstreamId)) := by
  unfold Compiled.grantFor Compiled.answer
  cases hd : p.decidingRule call with
  | error e => exact iff_of_false (fun h => by cases h) fun h => by cases h
  | ok found =>
      have hfound := Compiled.firstMatching_ok hd
      rw [← hfound]
      cases found with
      | some r => exact iff_of_true rfl rfl
      | none => exact iff_of_true rfl rfl

/-- A policy answers a call as it means to, with every condition that cannot be
    evaluated not holding, exactly when no condition the search gets to escapes.
    `may_call` evaluates no condition at all. -/
theorem grantFor_answers_iff (p : Compiled) (call : ToolCall) :
    p.grantFor call = .ok (p.answer call) ↔
      ∀ c, p.Consults call c → ¬ c.Escapes call.arguments := by
  rw [p.grantFor_eq_answer_iff call, p.decidingRule_eq_iff call]

-- ============================================================================
-- A bound that a large integer breaks
-- ============================================================================

/-- Orders of fewer than ten items need no approval. -/
def smallOrders : Json :=
  .dict [("rules", .list [.dict [("tool", .str "shop.order"),
    ("when", .list [.dict [("arg", .str "items"), ("op", .str "lt"), ("value", .int 10)]])]])]

/-- Fewer than ten items. -/
def smallOrder : Cond := { arg := "items", op := .lt, value := .int 10 }

/-- A rule for such orders. -/
def smallOrdersRule : Rule := { nonProductionRule with tool := "shop.order", conds := [smallOrder] }

/-- A policy of this rule alone. -/
def smallOrdersCompiled : Compiled := { rules := [smallOrdersRule], default := none, trust := [] }

/-- An order of this many items. -/
def orderOf (items : ℤ) : ToolCall :=
  { requestId := "1", agentId := "a", upstreamId := "shop", toolName := "order",
    arguments := .dict [("items", .int items)], annotations := [] }

theorem smallOrders_consults (items : ℤ) :
    smallOrdersCompiled.Consults (orderOf items) smallOrder := by
  have htargets : smallOrdersRule.targets (orderOf 0) false = true := by decide
  exact ⟨smallOrdersRule, reaches_cons.mpr (Or.inl rfl), htargets, reaches_cons.mpr (Or.inl rfl)⟩

theorem pastBinary64_two_pow : PastBinary64 (2 ^ 1024) := by
  have hpos : (0 : ℤ) ≤ 2 ^ 970 := by positivity
  unfold PastBinary64
  rw [abs_of_nonneg (by positivity)]
  exact sub_le_self _ hpos

/-- Over an accepted document a call with an integer past the range is not
    answered. -/
theorem large_integer_raises :
    ¬ ∀ (_ : PrintTables) (doc : Json) (p : Compiled), compilePolicy doc = .ok p →
      ∀ (call : ToolCall) (arguments : Fields), call.arguments = .dict arguments →
        p.grantFor call = .ok (p.answer call) := by
  intro law
  have hanswer := law .ascii smallOrders smallOrdersCompiled rfl (orderOf (2 ^ 1024)) _ rfl
  unfold Compiled.grantFor at hanswer
  cases hd : smallOrdersCompiled.decidingRule (orderOf (2 ^ 1024)) with
  | error e =>
      rw [hd] at hanswer
      cases hanswer
  | ok found =>
      have hsearch := hd
      rw [Compiled.firstMatching_ok hd] at hsearch
      have hno := (smallOrdersCompiled.decidingRule_eq_iff _).mp hsearch smallOrder
      exact hno (smallOrders_consults _) ⟨rfl, _, rfl, Or.inl ⟨_, rfl, pastBinary64_two_pow⟩⟩

end ToolGateway.Policy
