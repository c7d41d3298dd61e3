/-
  ToolGateway.Policy.FailClosed

  What an argument edit can do to the verdict.  A condition on an argument that
  is absent, or of a type its operator cannot take, is false.  For an allow rule
  that is the safe side; a deny rule with such a condition drops out of the
  search, and the call falls to the rules behind it.

  So a denial is kept by every edit that can only make conditions false, as long
  as the rule that denied the call does not look at the edited argument.
-/

import ToolGateway.Policy.Compile

namespace ToolGateway.Policy

open Py

/-- One argument of a call removed, or given another value. -/
inductive ArgumentEdit where
  | remove (arg : String)
  | replace (arg : String) (value : Json)

namespace ArgumentEdit

/-- The key it changes. -/
def arg : ArgumentEdit → String
  | remove k | replace k _ => k

/-- The arguments with the change made. -/
def apply : ArgumentEdit → Fields → Fields
  | remove k, args => args.erase k
  | replace k v, args => args.set k v

/-- The call with its arguments edited. -/
def applyTo (e : ArgumentEdit) (call : ToolCall) (args : Fields) : ToolCall :=
  { call with arguments := .dict (e.apply args) }

theorem lookup_apply_of_ne (e : ArgumentEdit) (args : Fields) {k : String} (h : k ≠ e.arg) :
    (e.apply args).lookup k = args.lookup k := by
  cases e with
  | remove k' => exact Dict.lookup_erase_of_ne args h
  | replace k' v => exact Dict.lookup_set_of_ne args v h

end ArgumentEdit

/-- The operator cannot compare these two values: `float()` raises TypeError or
    ValueError on one of them. -/
def Op.Unevaluable (op : Op) (a b : Json) : Prop :=
  op.apply a b = .error .typeError ∨ op.apply a b = .error .valueError

/-- The edit can only make the condition false: it removes the argument, or
    gives it a value that an ordering condition cannot evaluate and on which an
    `eq`, `ne` or `in` condition holds only if it held before. -/
def ArgumentEdit.OnlyLoses (e : ArgumentEdit) (args : Fields) (c : Cond) : Prop :=
  match e with
  | .remove _ => True
  | .replace k v =>
      c.arg = k →
        if c.op.ordering then c.op.Unevaluable v c.value
        else c.op.apply v c.value = .ok true → c.holds (.dict args) = .ok true

-- ============================================================================
-- One condition, one rule, the list
-- ============================================================================

/-- A condition that does not name the edited argument is not affected. -/
theorem Cond.holds_apply_of_ne {c : Cond} {e : ArgumentEdit} (args : Fields)
    (h : c.arg ≠ e.arg) : c.holds (.dict (e.apply args)) = c.holds (.dict args) := by
  simp only [Cond.holds, e.lookup_apply_of_ne args h]

theorem failClosed_isOk_of_not_ordering {op : Op} (h : op.ordering = false) (a b : Json) :
    ∃ holds, failClosed (op.apply a b) = .ok holds := by
  cases op with
  | eq => exact ⟨_, rfl⟩
  | ne => exact ⟨_, rfl⟩
  | isIn =>
      match hin : a.isIn b with
      | .ok holds => exact ⟨holds, by simp [Op.apply, hin, failClosed]⟩
      | .error err =>
          have herr : err = .typeError := isIn_error hin
          exact ⟨false, by simp [Op.apply, hin, herr, failClosed]⟩
  | gt | ge | lt | le => cases h

/-- Where the edit only loses conditions, one that named the argument was true
    before or is false now. -/
theorem ArgumentEdit.OnlyLoses.holds {e : ArgumentEdit} {args : Fields} {c : Cond}
    (h : e.OnlyLoses args c) :
    c.holds (.dict (e.apply args)) = c.holds (.dict args) ∨
      c.holds (.dict (e.apply args)) = .ok false := by
  by_cases harg : c.arg = e.arg
  · cases e with
    | remove k =>
        have hgone : ((ArgumentEdit.remove k).apply args).lookup c.arg = none := by
          rw [harg]
          exact Dict.lookup_erase_self args k
        exact Or.inr (by simp only [Cond.holds, hgone])
    | replace k v =>
        have hnew : ((ArgumentEdit.replace k v).apply args).lookup c.arg = some v := by
          rw [harg]
          exact Dict.lookup_set_self args k v
        have hholds : c.holds (.dict ((ArgumentEdit.replace k v).apply args))
            = failClosed (c.op.apply v c.value) := by
          simp only [Cond.holds, hnew]
        have hloses := h harg
        rw [hholds]
        cases hord : c.op.ordering with
        | true =>
            rw [if_pos hord] at hloses
            rcases hloses with herr | herr
            · exact Or.inr (by rw [herr]; rfl)
            · exact Or.inr (by rw [herr]; rfl)
        | false =>
            rw [if_neg (by simp [hord])] at hloses
            obtain ⟨holds, hok⟩ := failClosed_isOk_of_not_ordering hord v c.value
            cases holds with
            | false => exact Or.inr hok
            | true =>
                have htrue : c.op.apply v c.value = .ok true := by
                  revert hok
                  unfold failClosed
                  split <;> simp
                exact Or.inl (by rw [hok, hloses htrue])
  · exact Or.inl (Cond.holds_apply_of_ne args harg)

theorem allHold_apply_of_ne {e : ArgumentEdit} (args : Fields) {conds : List Cond}
    (h : ∀ c ∈ conds, c.arg ≠ e.arg) :
    allHold (.dict (e.apply args)) conds = allHold (.dict args) conds := by
  induction conds with
  | nil => rfl
  | cons c cs ih =>
      unfold allHold
      rw [Cond.holds_apply_of_ne args (h c (by simp)), ih fun c' hc' => h c' (by simp [hc'])]

/-- A condition list that failed still fails. -/
theorem allHold_apply_false {e : ArgumentEdit} {args : Fields} {conds : List Cond}
    (hloses : ∀ c ∈ conds, e.OnlyLoses args c)
    (hfalse : allHold (.dict args) conds = .ok false) :
    allHold (.dict (e.apply args)) conds = .ok false := by
  induction conds with
  | nil => cases hfalse
  | cons c cs ih =>
      unfold allHold at hfalse ⊢
      rcases (hloses c (by simp)).holds with hsame | hlost
      · rw [hsame]
        cases hc : c.holds (.dict args) with
        | error err => simp [hc] at hfalse
        | ok holds =>
            cases holds with
            | false => rfl
            | true =>
                exact ih (fun c' hc' => hloses c' (by simp [hc'])) (by simpa [hc] using hfalse)
      · rw [hlost]

section
variable {call : ToolCall} {args : Fields} {e : ArgumentEdit}

theorem Rule.matches_applyTo_false {r : Rule} {trusted : Bool} (hargs : call.arguments = .dict args)
    (hloses : ∀ c ∈ r.conds, e.OnlyLoses args c) (hfalse : r.matches call trusted = .ok false) :
    r.matches (e.applyTo call args) trusted = .ok false := by
  unfold Rule.matches at hfalse ⊢
  rw [hargs] at hfalse
  have htargets : r.targets (e.applyTo call args) trusted = r.targets call trusted := rfl
  rw [htargets]
  by_cases ht : r.targets call trusted = true
  · rw [if_pos ht] at hfalse ⊢
    exact allHold_apply_false hloses hfalse
  · rw [if_neg ht]

theorem Rule.matches_applyTo_of_ne {r : Rule} {trusted : Bool} (hargs : call.arguments = .dict args)
    (hne : ∀ c ∈ r.conds, c.arg ≠ e.arg) :
    r.matches (e.applyTo call args) trusted = r.matches call trusted := by
  have hsame := allHold_apply_of_ne args hne
  unfold Rule.matches
  rw [hargs]
  exact if_congr Iff.rfl hsame rfl

namespace Compiled

/-- The search stops at the same rule: the rules before it still do not match,
    and it does not look at the edited argument. -/
theorem firstMatching_applyTo {trusted : Bool} {rules : List Rule} {found : Option Rule}
    (hargs : call.arguments = .dict args)
    (hloses : ∀ r ∈ rules, ∀ c ∈ r.conds, e.OnlyLoses args c)
    (hfound : firstMatching call trusted rules = .ok found)
    (hrule : ∀ r ∈ found, ∀ c ∈ r.conds, c.arg ≠ e.arg) :
    firstMatching (e.applyTo call args) trusted rules = .ok found := by
  induction rules with
  | nil => exact hfound
  | cons r rs ih =>
      unfold firstMatching at hfound ⊢
      cases hm : r.matches call trusted with
      | error err => simp [hm] at hfound
      | ok hit =>
          cases hit with
          | true =>
              have hr : some r = found := by simpa [hm] using hfound
              rw [Rule.matches_applyTo_of_ne hargs (hrule r (by simp [← hr])), hm, hr]
          | false =>
              rw [Rule.matches_applyTo_false hargs (hloses r (by simp)) hm]
              exact ih (fun r' hr' => hloses r' (by simp [hr'])) (by simpa [hm] using hfound)

/-- An edit that can only make conditions false never turns a denial into a
    grant, when the rule that denied the call, if any, has no condition on the
    edited argument. -/
theorem denial_kept_by_edit (p : Compiled) {call : ToolCall} {args : Fields} (e : ArgumentEdit)
    (hargs : call.arguments = .dict args)
    (hloses : ∀ r ∈ p.rules, ∀ c ∈ r.conds, e.OnlyLoses args c)
    (hrule : ∀ r, p.decidingRule call = .ok (some r) → ∀ c ∈ r.conds, c.arg ≠ e.arg)
    (hdenied : p.grantFor call = .ok none) :
    p.grantFor (e.applyTo call args) = .ok none := by
  unfold grantFor at hdenied ⊢
  match hd : p.decidingRule call with
  | .ok found =>
      have hsame : p.decidingRule (e.applyTo call args) = .ok found :=
        firstMatching_applyTo hargs hloses hd fun r hr => hrule r (by rw [hd, hr])
      rw [hsame]
      rw [hd] at hdenied
      exact hdenied
  | .error err => simp [hd] at hdenied

end Compiled

end

-- ============================================================================
-- Two documents
-- ============================================================================

/-- Everything is allowed but charges above 1000. -/
def largeChargesDenied : Json :=
  .dict [("default", .str "auto"),
    ("rules", .list [.dict [("tool", .str "payments.charge"), ("deny", .bool true),
      ("when", .list [.dict [("arg", .str "amount"), ("op", .str "gt"), ("value", .int 1000)]])]])]

/-- Large charges are denied. -/
def largeChargeRule : Rule :=
  { tool := "payments.charge"
    agents := ["*"]
    conds := [{ arg := "amount", op := .gt, value := .int 1000 }]
    hints := []
    deny := true
    mode := none
    inputSchema := .null
    mode_isSome := fun h => Bool.noConfusion h }

/-- What is not denied is forwarded. -/
def largeCharges : Compiled :=
  { rules := [largeChargeRule], default := some { approvalMode := .auto }, trust := [] }

/-- A charge with these arguments. -/
def chargeOf (args : Fields) : ToolCall :=
  { requestId := "1", agentId := "a", upstreamId := "payments", toolName := "charge",
    arguments := .dict args, annotations := [] }

/-- Only deployments outside production are allowed. -/
def productionDenied : Json :=
  .dict [("rules", .list [.dict [("tool", .str "ci.deploy"),
      ("when", .list [.dict [("arg", .str "env"), ("op", .str "ne"), ("value", .str "prod")]])]])]

/-- Deployments are forwarded, except to production. -/
def nonProductionRule : Rule :=
  { tool := "ci.deploy"
    agents := ["*"]
    conds := [{ arg := "env", op := .ne, value := .str "prod" }]
    hints := []
    deny := false
    mode := some .auto
    inputSchema := .null
    mode_isSome := fun _ => rfl }

/-- A deployment with these arguments. -/
def deployOf (args : Fields) : ToolCall :=
  { requestId := "1", agentId := "a", upstreamId := "ci", toolName := "deploy",
    arguments := .dict args, annotations := [] }

/-- An allow rule behind a default denial: removing the argument it looks at
    keeps the denial. -/
theorem Compiled.denial_kept_by_edit_deploy :
    Compiled.grantFor ⟨[nonProductionRule], none, []⟩
      ((ArgumentEdit.remove "env").applyTo (deployOf [("env", .str "prod")])
        [("env", .str "prod")]) = .ok none := by
  have hnone : Compiled.decidingRule ⟨[nonProductionRule], none, []⟩
      (deployOf [("env", .str "prod")]) = .ok none := rfl
  have hdenied : Compiled.grantFor ⟨[nonProductionRule], none, []⟩
      (deployOf [("env", .str "prod")]) = .ok none := rfl
  refine Compiled.denial_kept_by_edit ⟨[nonProductionRule], none, []⟩ (.remove "env") rfl ?_ ?_
    hdenied
  · exact fun _ _ _ _ => trivial
  · intro r hr
    rw [hnone] at hr
    cases hr

-- ============================================================================
-- The law without its two provisos
-- ============================================================================

/-- Over every accepted document, an edit of this kind never turns a denial into
    a grant. -/
def FailsClosedUnder (kind : Compiled → ArgumentEdit → Prop) : Prop :=
  ∀ (_ : PrintTables) (doc : Json) (p : Compiled), compilePolicy doc = .ok p →
    ∀ (call : ToolCall) (args : Fields) (e : ArgumentEdit), call.arguments = .dict args →
      kind p e → p.grantFor call = .ok none →
        ∀ g, p.grantFor (e.applyTo call args) ≠ .ok (some g)

/-- An argument is removed. -/
def Removal (_ : Compiled) (e : ArgumentEdit) : Prop := ∃ k, e = .remove k

/-- An argument gets a value that no ordering condition naming it can evaluate. -/
def Unorderable (p : Compiled) (e : ArgumentEdit) : Prop :=
  ∃ k v, e = .replace k v ∧
    ∀ r ∈ p.rules, ∀ c ∈ r.conds, c.arg = k → c.op.ordering = true → c.op.Unevaluable v c.value

theorem largeCharges_denied :
    largeCharges.grantFor (chargeOf [("amount", .int 5000)]) = .ok none := by
  have htargets : largeChargeRule.targets (chargeOf [("amount", .int 5000)]) false = true := by
    decide
  have hargument : floatOfInt 5000 = .ok (.fin 5000) := floatOfInt_of_abs_lt (by norm_num)
  have hbound : floatOfInt 1000 = .ok (.fin 1000) := floatOfInt_of_abs_lt (by norm_num)
  have hlt : Float64.lt (.fin 1000) (.fin 5000) = true := by
    simp only [Float64.lt]
    norm_num
  have hconds : allHold (.dict [("amount", .int 5000)]) largeChargeRule.conds = .ok true := by
    simp [largeChargeRule, allHold, Cond.holds, Op.apply, Op.compareNum, Json.toFloat, hargument,
      hbound, hlt, failClosed]
  have hmatch : largeChargeRule.matches (chargeOf [("amount", .int 5000)]) false = .ok true := by
    unfold Rule.matches
    rw [if_pos htargets]
    exact hconds
  have hdecides : largeCharges.decidingRule (chargeOf [("amount", .int 5000)])
      = .ok (some largeChargeRule) := by
    have htrusts : largeCharges.trusts (chargeOf [("amount", .int 5000)]).upstreamId = false := rfl
    unfold Compiled.decidingRule
    rw [htrusts]
    simp only [largeCharges, Compiled.firstMatching, hmatch]
  unfold Compiled.grantFor
  rw [hdecides]
  rfl

/-- Without the argument the rule that denies large charges drops out, and the
    default lets the call through; a value that no ordering condition looks at
    may satisfy a condition that is not an ordering one. -/
theorem edit_can_grant : ¬ FailsClosedUnder Removal ∧ ¬ FailsClosedUnder Unorderable := by
  constructor
  · intro law
    exact law .ascii largeChargesDenied largeCharges rfl
      (chargeOf [("amount", .int 5000)]) [("amount", .int 5000)] (.remove "amount") rfl
      ⟨"amount", rfl⟩ largeCharges_denied { approvalMode := .auto } rfl
  · intro law
    have hnoOrdering : ∀ r ∈ [nonProductionRule], ∀ c ∈ r.conds, c.arg = "env" →
        c.op.ordering = true → c.op.Unevaluable .null c.value := by
      intro r hr c hc _ hord
      rw [List.mem_singleton.mp hr] at hc
      rw [List.mem_singleton.mp hc] at hord
      cases hord
    exact law .ascii productionDenied ⟨[nonProductionRule], none, []⟩ rfl
      (deployOf [("env", .str "prod")]) [("env", .str "prod")] (.replace "env" .null) rfl
      ⟨"env", .null, rfl, hnoOrdering⟩ rfl { approvalMode := .auto } rfl

end ToolGateway.Policy
