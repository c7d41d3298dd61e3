/-
  ToolGateway.Policy.Malformed

  How publishing a malformed document ends.  The compiler makes three explicit
  checks (mode, op, hint, and the default's mode), which raise PolicyError; every
  other access of the untyped document raises what Python raises for a value of
  another shape.  It stops at the first fault it meets, so that a document is
  refused as a PolicyError exactly when its first fault is a wrong value, not a
  wrong shape.
-/

import ToolGateway.Coroutine.Follow
import ToolGateway.Policy.Replica

namespace ToolGateway.Policy

open Coroutine Py

-- ============================================================================
-- Shapes
-- ============================================================================

/-- `for x in value or []` raises: a true, or a number other than zero. -/
def NotIterable (value : Json) : Prop := value.truthy = true ∧ value.iter = .error .typeError

/-- All elements `for x in value or []` runs over are good. -/
def AllElements (good : Json → Prop) (value : Json) : Prop :=
  ∃ xs, value.iterOrEmpty = .ok xs ∧ ∀ x ∈ xs, good x

/-- The value cannot be iterated over, or the first element that is not good is
    a bad one. -/
def MeetsBad (good bad : Json → Prop) (value : Json) : Prop :=
  NotIterable value ∨ ∃ xs x, value.iterOrEmpty = .ok xs ∧ Reaches good xs x ∧ bad x

/-- The keys of `_OPS`. -/
def operators : List String := ["eq", "ne", "gt", "ge", "lt", "le", "in"]

/-- An object with a known `op` and an `arg`. -/
def GoodCond (c : Json) : Prop :=
  ∃ fs, c = .dict fs ∧ (∃ op ∈ operators, Fields.get fs "op" = .str op) ∧ Dict.has fs "arg" = true

/-- No object; an `op` that cannot be hashed; or a known `op` without an `arg`. -/
def MisshapenCond (c : Json) : Prop :=
  (∀ fs, c ≠ .dict fs) ∨
    ∃ fs, c = .dict fs ∧ ((Fields.get fs "op").hashable = false ∨
      (∃ op ∈ operators, Fields.get fs "op" = .str op) ∧ Dict.has fs "arg" = false)

/-- The rule denies, or its mode, `auto` when there is none, is a known one. -/
def GoodMode (fs : Fields) : Prop :=
  (Fields.get fs "deny").truthy = true ∨
    (ApprovalMode.ofJson? ((fs.lookup "mode").getD (.str "auto"))).isSome = true

/-- Nothing, or an object of known hints with booleans. -/
def GoodHints (value : Json) : Prop :=
  value.truthy = true → ∃ fs, value = .dict fs ∧
    ∀ item ∈ fs, (Hint.ofKey? item.1).isSome = true ∧ ∃ b, item.2 = .bool b

/-- Something that is no object. -/
def MisshapenHints (value : Json) : Prop := value.truthy = true ∧ ∀ fs, value ≠ .dict fs

/-- An object with a mode, conditions and hints that compile. -/
def GoodRule (raw : Json) : Prop :=
  ∃ fs, raw = .dict fs ∧ GoodMode fs ∧ AllElements GoodCond (Fields.get fs "when") ∧
    GoodHints (Fields.get fs "hints")

/-- No object; or, behind a known mode, conditions whose first fault is one of
    shape, or behind good conditions misshapen hints. -/
def MisshapenRule (raw : Json) : Prop :=
  (∀ fs, raw ≠ .dict fs) ∨
    ∃ fs, raw = .dict fs ∧ GoodMode fs ∧
      (MeetsBad GoodCond MisshapenCond (Fields.get fs "when") ∨
        AllElements GoodCond (Fields.get fs "when") ∧ MisshapenHints (Fields.get fs "hints"))

/-- The default, `deny` when there is none, is `deny` or a known mode. -/
def GoodDefault (fs : Fields) : Prop :=
  (fs.lookup "default").getD (.str "deny") = .str "deny" ∨
    (ApprovalMode.ofJson? ((fs.lookup "default").getD (.str "deny"))).isSome = true

/-- The first fault of the document is one of shape: in its rules, or behind good
    rules and a good default in `trust_hints_from`. -/
def Misshapen (fs : Fields) : Prop :=
  MeetsBad GoodRule MisshapenRule (Fields.get fs "rules") ∨
    AllElements GoodRule (Fields.get fs "rules") ∧ GoodDefault fs ∧
      NotIterable (Fields.get fs "trust_hints_from")

-- ============================================================================
-- Two ways a computation ends
-- ============================================================================

section
variable {α β : Type}

/-- It raises nothing. -/
def Accepts (x : Except CompileError α) : Prop := ∃ a, x = .ok a

/-- It raises something else than a PolicyError. -/
def Breaks (x : Except CompileError α) : Prop := ∃ e, x = .error (.python e)

theorem accepts_bind {x : Except CompileError α} {f : α → Except CompileError β} :
    Accepts (x >>= f) ↔ ∃ a, x = .ok a ∧ Accepts (f a) := by
  unfold Accepts
  simp only [bind_eq_ok]
  exact ⟨fun ⟨b, a, ha, hb⟩ => ⟨a, ha, b, hb⟩, fun ⟨a, ha, b, hb⟩ => ⟨b, a, ha, hb⟩⟩

theorem breaks_bind {x : Except CompileError α} {f : α → Except CompileError β} :
    Breaks (x >>= f) ↔ Breaks x ∨ ∃ a, x = .ok a ∧ Breaks (f a) := by
  unfold Breaks
  simp only [bind_eq_error]
  constructor
  · rintro ⟨e, hx | ⟨a, ha, hf⟩⟩
    · exact Or.inl ⟨e, hx⟩
    · exact Or.inr ⟨a, ha, e, hf⟩
  · rintro (⟨e, hx⟩ | ⟨a, ha, e, hf⟩)
    · exact ⟨e, Or.inl hx⟩
    · exact ⟨e, Or.inr ⟨a, ha, hf⟩⟩

/-- One statement after another, where what the second does is independent of
    what the first returns. -/
theorem accepts_seq {x : Except CompileError α} {f : α → Except CompileError β} {good : Prop}
    (h : ∀ a, Accepts (f a) ↔ good) : Accepts (x >>= f) ↔ Accepts x ∧ good := by
  simp only [accepts_bind, h, exists_and_right]
  rfl

theorem breaks_seq {x : Except CompileError α} {f : α → Except CompileError β} {bad : Prop}
    (h : ∀ a, Breaks (f a) ↔ bad) : Breaks (x >>= f) ↔ Breaks x ∨ Accepts x ∧ bad := by
  simp only [breaks_bind, h, exists_and_right]
  rfl

theorem accepts_ok (a : α) : Accepts (.ok a) ↔ True := iff_of_true ⟨a, rfl⟩ trivial

theorem breaks_ok (a : α) : Breaks (.ok a) ↔ False := by
  refine iff_of_false ?_ id
  rintro ⟨e, he⟩
  cases he

theorem breaks_access {x : Except PyError α} : Breaks (access x) ↔ ∃ e, x = .error e := by
  simp only [Breaks, access_eq_error, CompileError.python.injEq, exists_eq_right']

theorem accepts_mapM {f : α → Except CompileError β} {xs : List α} :
    Accepts (xs.mapM f) ↔ ∀ x ∈ xs, Accepts (f x) :=
  ⟨fun ⟨_, h⟩ => forall_isOk_of_mapM h, mapM_isOk_of_forall⟩

theorem breaks_mapM {f : α → Except CompileError β} {xs : List α} :
    Breaks (xs.mapM f) ↔ ∃ x, Reaches (fun y => Accepts (f y)) xs x ∧ Breaks (f x) := by
  unfold Breaks
  simp only [mapM_eq_error]
  exact ⟨fun ⟨e, x, hx, he⟩ => ⟨x, hx, e, he⟩, fun ⟨x, hx, e, he⟩ => ⟨e, x, hx, he⟩⟩

end

theorem iterOrEmpty_eq_error {value : Json} {e : PyError} :
    value.iterOrEmpty = .error e ↔ NotIterable value ∧ e = .typeError := by
  unfold Json.iterOrEmpty NotIterable
  by_cases htruthy : value.truthy = true
  · rw [if_pos htruthy]
    cases value with
    | list | str | dict => simp [Json.iter]
    | null | bool | int | float => simp [Json.iter, htruthy, eq_comm]
  · rw [if_neg htruthy]
    simp [htruthy]

theorem breaks_iterOrEmpty {value : Json} :
    Breaks (access value.iterOrEmpty) ↔ NotIterable value := by
  simp only [breaks_access, iterOrEmpty_eq_error, exists_and_left, exists_eq, and_true]

/-- The loop over a field: what the compiler of its elements accepts and breaks
    on decides what the loop does. -/
theorem accepts_elements {β : Type} {f : Json → Except CompileError β} {good : Json → Prop}
    (hgood : ∀ x, Accepts (f x) ↔ good x) (value : Json) :
    Accepts (access value.iterOrEmpty >>= fun xs => xs.mapM f) ↔ AllElements good value := by
  simp only [accepts_bind, access_eq_ok, accepts_mapM, hgood, AllElements]

theorem breaks_elements {β : Type} {f : Json → Except CompileError β} {good bad : Json → Prop}
    (hgood : ∀ x, Accepts (f x) ↔ good x) (hbad : ∀ x, Breaks (f x) ↔ bad x) (value : Json) :
    Breaks (access value.iterOrEmpty >>= fun xs => xs.mapM f) ↔ MeetsBad good bad value := by
  simp only [breaks_bind, breaks_iterOrEmpty, access_eq_ok, breaks_mapM, hgood, hbad, MeetsBad,
    exists_and_left]

-- ============================================================================
-- The compiler, function by function
-- ============================================================================

section
variable [PrintTables]

theorem accepts_compileOp (v : Json) : Accepts (compileOp v) ↔ ∃ op ∈ operators, v = .str op := by
  unfold Accepts compileOp operators
  split <;> simp_all

theorem breaks_compileOp (v : Json) : Breaks (compileOp v) ↔ v.hashable = false := by
  unfold Breaks compileOp
  split <;> simp_all [Json.hashable]

/-- Compiling the condition of an object: its operator, then its argument. -/
theorem compileCond_dict (fs : Fields) :
    compileCond (.dict fs) = compileOp (Fields.get fs "op") >>= fun op =>
      match fs.lookup "arg" with
      | some arg => .ok { arg := arg.toStr, op := op, value := Fields.get fs "value" }
      | none => .error (.python .keyError) := rfl

theorem compileCond_not_dict {c : Json} (h : ∀ fs, c ≠ .dict fs) :
    compileCond c = .error (.python .attributeError) := by
  cases c with
  | dict fs => exact absurd rfl (h fs)
  | null | bool | int | float | str | list => rfl

theorem accepts_compileCond (c : Json) : Accepts (compileCond c) ↔ GoodCond c := by
  cases c with
  | dict fs =>
      rw [compileCond_dict, accepts_bind]
      simp only [GoodCond, Json.dict.injEq, exists_eq_left', ← accepts_compileOp, Dict.has]
      cases hlookup : fs.lookup "arg" <;> simp [Accepts]
  | null | bool | int | float | str | list =>
      rw [compileCond_not_dict (by simp)]
      simp [GoodCond, Accepts]

theorem breaks_compileCond (c : Json) : Breaks (compileCond c) ↔ MisshapenCond c := by
  cases c with
  | dict fs =>
      rw [compileCond_dict, breaks_bind, breaks_compileOp]
      simp only [MisshapenCond, Json.dict.injEq, exists_eq_left', ← accepts_compileOp, Dict.has]
      cases hlookup : fs.lookup "arg" <;> simp [Accepts, Breaks]
  | null | bool | int | float | str | list =>
      rw [compileCond_not_dict (by simp)]
      simp [MisshapenCond, Breaks]

theorem accepts_compileHint (item : String × Json) :
    Accepts (compileHint item) ↔ (Hint.ofKey? item.1).isSome = true ∧ ∃ b, item.2 = .bool b := by
  obtain ⟨key, value⟩ := item
  cases hkey : Hint.ofKey? key with
  | none => simp [Accepts, compileHint, hkey]
  | some h => cases value <;> simp [Accepts, compileHint, hkey]

theorem not_breaks_compileHint (item : String × Json) : ¬ Breaks (compileHint item) := by
  unfold Breaks compileHint
  split <;> simp

theorem accepts_compileHints (value : Json) : Accepts (compileHints value) ↔ GoodHints value := by
  unfold compileHints GoodHints
  by_cases htruthy : value.truthy = true
  · rw [if_pos htruthy]
    cases value with
    | dict fs => simp [accepts_mapM, accepts_compileHint, htruthy]
    | null | bool | int | float | str | list => simp [Accepts, htruthy]
  · rw [if_neg htruthy]
    simp [Accepts, htruthy]

theorem breaks_compileHints (value : Json) :
    Breaks (compileHints value) ↔ MisshapenHints value := by
  unfold compileHints MisshapenHints
  by_cases htruthy : value.truthy = true
  · rw [if_pos htruthy]
    cases value with
    | dict fs => simp [breaks_mapM, not_breaks_compileHint]
    | null | bool | int | float | str | list => simp [Breaks, htruthy]
  · rw [if_neg htruthy]
    simp [Breaks, htruthy]

/-- Compiling the mode of an object, which ends or raises a PolicyError. -/
theorem compileMode_dict (fs : Fields) :
    GoodMode fs ∧ Accepts (compileMode (.dict fs)) ∨
      ¬ GoodMode fs ∧ ∃ msg, compileMode (.dict fs) = .error (.policyError msg) := by
  have hdeny : ((fs.lookup "deny").getD (.bool false)).truthy = (Fields.get fs "deny").truthy := by
    unfold Fields.get
    cases fs.lookup "deny" <;> rfl
  unfold GoodMode
  by_cases htruthy : (Fields.get fs "deny").truthy = true
  · refine Or.inl ⟨Or.inl htruthy, ?_⟩
    simp [compileMode, Json.getD, access, bind, Except.bind, pure, Except.pure, Accepts, hdeny,
      htruthy]
  · cases hmode : ApprovalMode.ofJson? ((fs.lookup "mode").getD (.str "auto")) with
    | some m =>
        refine Or.inl ⟨Or.inr rfl, ?_⟩
        simp [compileMode, Json.getD, access, bind, Except.bind, pure, Except.pure, Accepts, hdeny,
          htruthy, hmode]
    | none =>
        refine Or.inr ⟨by simp [htruthy], ?_⟩
        simp [compileMode, Json.getD, access, bind, Except.bind, throw, throwThe,
          MonadExceptOf.throw, hdeny, htruthy, hmode]

theorem accepts_compileMode (fs : Fields) : Accepts (compileMode (.dict fs)) ↔ GoodMode fs := by
  rcases compileMode_dict fs with ⟨hgood, haccepts⟩ | ⟨hbad, msg, hmsg⟩
  · exact iff_of_true haccepts hgood
  · refine iff_of_false ?_ hbad
    rintro ⟨m, hm⟩
    rw [hmsg] at hm
    cases hm

theorem not_breaks_compileMode (fs : Fields) : ¬ Breaks (compileMode (.dict fs)) := by
  rintro ⟨e, he⟩
  rcases compileMode_dict fs with ⟨-, m, hm⟩ | ⟨-, msg, hmsg⟩
  · rw [hm] at he
    cases he
  · rw [hmsg] at he
    cases he

/-- Compiling the rule of an object: its mode, its conditions, its hints. -/
theorem compileRule_dict (fs : Fields) :
    ∃ rule : { m : Bool × Option ApprovalMode // m.1 = false → m.2.isSome = true } →
        List Cond → List (Hint × Bool) → Rule,
      compileRule (.dict fs) = compileMode (.dict fs) >>= fun m =>
      (access (Fields.get fs "when").iterOrEmpty >>= fun cs => cs.mapM compileCond) >>= fun conds =>
        compileHints (Fields.get fs "hints") >>= fun hints => .ok (rule m conds hints) := by
  unfold compileRule
  simp only [bind_assoc]
  exact ⟨fun m conds hints =>
    { tool := ((fs.lookup "tool").getD (.str "*")).toStr
      agents := compileAgents ((fs.lookup "agent").getD (.str "*"))
      conds := conds
      hints := hints
      deny := m.1.1
      mode := m.1.2
      inputSchema := Fields.get fs "input_schema"
      mode_isSome := m.2 }, rfl⟩

theorem compileRule_not_dict {raw : Json} (h : ∀ fs, raw ≠ .dict fs) :
    compileRule raw = .error (.python .attributeError) := by
  cases raw with
  | dict fs => exact absurd rfl (h fs)
  | null | bool | int | float | str | list => rfl

theorem accepts_compileRule (raw : Json) : Accepts (compileRule raw) ↔ GoodRule raw := by
  cases raw with
  | dict fs =>
      obtain ⟨rule, hcompile⟩ := compileRule_dict fs
      have hhints := fun m conds => accepts_seq (x := compileHints (Fields.get fs "hints"))
        fun hints => accepts_ok (rule m conds hints)
      have hconds := fun m => accepts_seq
        (x := access (Fields.get fs "when").iterOrEmpty >>= fun cs => cs.mapM compileCond)
        (hhints m)
      have hrule := accepts_seq (x := compileMode (.dict fs)) hconds
      rw [accepts_elements accepts_compileCond, accepts_compileHints, accepts_compileMode,
        and_true] at hrule
      rw [hcompile, hrule]
      simp [GoodRule]
  | null | bool | int | float | str | list =>
      rw [compileRule_not_dict (by simp)]
      simp [GoodRule, Accepts]

theorem breaks_compileRule (raw : Json) : Breaks (compileRule raw) ↔ MisshapenRule raw := by
  cases raw with
  | dict fs =>
      obtain ⟨rule, hcompile⟩ := compileRule_dict fs
      have hhints := fun m conds => breaks_seq (x := compileHints (Fields.get fs "hints"))
        fun hints => breaks_ok (rule m conds hints)
      have hconds := fun m => breaks_seq
        (x := access (Fields.get fs "when").iterOrEmpty >>= fun cs => cs.mapM compileCond)
        (hhints m)
      have hrule := breaks_seq (x := compileMode (.dict fs)) hconds
      rw [accepts_elements accepts_compileCond, breaks_compileHints, accepts_compileMode,
        breaks_elements accepts_compileCond breaks_compileCond, and_false, or_false,
        or_iff_right (not_breaks_compileMode fs)] at hrule
      rw [hcompile, hrule]
      simp [MisshapenRule]
  | null | bool | int | float | str | list =>
      rw [compileRule_not_dict (by simp)]
      simp [MisshapenRule, Breaks]

/-- The default ends or raises a PolicyError. -/
theorem compileDefault_cases (v : Json) :
    (v = .str "deny" ∨ (ApprovalMode.ofJson? v).isSome = true) ∧ Accepts (compileDefault v) ∨
      ¬ (v = .str "deny" ∨ (ApprovalMode.ofJson? v).isSome = true) ∧
        ∃ msg, compileDefault v = .error (.policyError msg) := by
  by_cases hdeny : v = .str "deny"
  · exact Or.inl ⟨Or.inl hdeny, none, by rw [hdeny]; rfl⟩
  · cases hmode : ApprovalMode.ofJson? v with
    | some m =>
        refine Or.inl ⟨Or.inr rfl, some { approvalMode := m }, ?_⟩
        unfold compileDefault
        split
        · exact absurd rfl hdeny
        · rw [hmode]
    | none =>
        refine Or.inr ⟨by simp [hdeny], "invalid default " ++ v.repr, ?_⟩
        unfold compileDefault
        split
        · exact absurd rfl hdeny
        · rw [hmode]

/-- Compiling an object: its rules, its default, its trust list. -/
theorem compilePolicy_dict (fs : Fields) :
    compilePolicy (.dict fs) =
      (access (Fields.get fs "rules").iterOrEmpty >>= fun rs => rs.mapM compileRule) >>= fun rules =>
        compileDefault ((fs.lookup "default").getD (.str "deny")) >>= fun default =>
          access (Fields.get fs "trust_hints_from").iterOrEmpty >>= fun trust =>
            .ok { rules := rules, default := default, trust := trust.map Json.toStr } := by
  unfold compilePolicy
  simp only [bind_assoc]
  rfl

/-- The compiler breaks exactly on the documents whose first fault is one of
    shape. -/
theorem breaks_compilePolicy (fs : Fields) : Breaks (compilePolicy (.dict fs)) ↔ Misshapen fs := by
  have htrust := fun rules default => breaks_seq
    (x := access (Fields.get fs "trust_hints_from").iterOrEmpty)
    fun trust => breaks_ok
      ({ rules := rules, default := default, trust := trust.map Json.toStr } : Compiled)
  have hdefault := fun rules => breaks_seq
    (x := compileDefault ((fs.lookup "default").getD (.str "deny"))) (htrust rules)
  have hpolicy := breaks_seq
    (x := access (Fields.get fs "rules").iterOrEmpty >>= fun rs => rs.mapM compileRule) hdefault
  have hmode : Accepts (compileDefault ((fs.lookup "default").getD (.str "deny"))) ↔
      GoodDefault fs := by
    rcases compileDefault_cases ((fs.lookup "default").getD (.str "deny")) with
      ⟨hgood, haccepts⟩ | ⟨hbad, msg, hmsg⟩
    · exact iff_of_true haccepts hgood
    · exact iff_of_false (fun ⟨d, hd⟩ => by rw [hmsg] at hd; cases hd) hbad
  have hnever : ¬ Breaks (compileDefault ((fs.lookup "default").getD (.str "deny"))) := by
    rintro ⟨e, he⟩
    rcases compileDefault_cases ((fs.lookup "default").getD (.str "deny")) with
      ⟨-, d, hd⟩ | ⟨-, msg, hmsg⟩
    · rw [hd] at he
      cases he
    · rw [hmsg] at he
      cases he
  rw [breaks_elements accepts_compileRule breaks_compileRule,
    accepts_elements accepts_compileRule, breaks_iterOrEmpty, hmode, and_false, or_false,
    or_iff_right hnever] at hpolicy
  rw [compilePolicy_dict, hpolicy]
  rfl

-- ============================================================================
-- Publishing
-- ============================================================================

variable {S V : Type} [PolicySource S V]

/-- The events of thread `i` leave the world as it is. -/
def ChangesNothing (i : ℕ) (c : Config PolicyInput (PolicyWorld S V) (PolicyOutcome V)) :
    List (Event PolicyInput) → Prop
  | [] => True
  | e :: es => (e.thread = i → (c.step e).world = c.world) ∧ ChangesNothing i (c.step e) es

/-- The step stores the document as version `v` and leaves the replica as it is. -/
def Stores (doc : Json) (v : V) (w w' : PolicyWorld S V) : Prop :=
  PolicySource.publishPolicy w.source doc = (v, w'.source) ∧ w'.policy = w.policy

/-- The step puts the document in force on the replica and leaves the source as
    it is. -/
def Applies (doc : Json) (compiled : Compiled) (v : V) (w w' : PolicyWorld S V) : Prop :=
  w'.policy.compiled = some compiled ∧ w'.policy.doc = some doc ∧
    w'.policy.version = (v : WithBot V) ∧ w'.source = w.source

/-- A step of thread `i` stores the document, a later one applies it. -/
def StoresAndApplies (c : Config PolicyInput (PolicyWorld S V) (PolicyOutcome V)) (i : ℕ)
    (es : List (Event PolicyInput)) (doc : Json) (compiled : Compiled) (v : V) : Prop :=
  ∃ before stored between applied after,
    es = before ++ .step i stored :: (between ++ .step i applied :: after) ∧
    Stores doc v (c.run before).world ((c.run before).step (.step i stored)).world ∧
    Applies doc compiled v (c.run (before ++ .step i stored :: between)).world
      ((c.run (before ++ .step i stored :: between)).step (.step i applied)).world

/-- How publishing may end: the document compiles, is stored and applied; or
    PolicyError is raised and nothing changes, as when the source itself fails. -/
inductive PublishedOrRefused (c : Config PolicyInput (PolicyWorld S V) (PolicyOutcome V)) (i : ℕ)
    (es : List (Event PolicyInput)) (doc : Json) : PolicyOutcome V → Prop where
  | published (v : V) (compiled : Compiled) (compiles : compilePolicy doc = .ok compiled)
      (done : StoresAndApplies c i es doc compiled v) : PublishedOrRefused c i es doc (.published v)
  | refused (msg : String) (nothing : ChangesNothing i c es) :
      PublishedOrRefused c i es doc (.notPublished (.policyError msg))
  | failed (input : PolicyInput) (fails : input.fails = true) (step : .step i input ∈ es)
      (nothing : ChangesNothing i c es) : PublishedOrRefused c i es doc .sourceFailed

section
variable {c : Config PolicyInput (PolicyWorld S V) (PolicyOutcome V)} {i : ℕ}

omit [PrintTables] [PolicySource S V] in
/-- A thread that has returned changes nothing. -/
theorem changesNothing_of_returned {r : PolicyOutcome V}
    (h : c.threads[i]? = some (some (.ret r))) (es : List (Event PolicyInput)) :
    ChangesNothing i c es := by
  induction es generalizing c with
  | nil => trivial
  | cons e es ih =>
      refine ⟨?_, ih (Config.thread_settled h (Or.inr ⟨r, rfl⟩) e)⟩
      rintro rfl
      rw [Config.step_returned h]

omit [PrintTables] [PolicySource S V] in
theorem changesNothing_append {before after : List (Event PolicyInput)}
    (hbefore : ∀ e ∈ before, e.thread ≠ i) (hafter : ChangesNothing i (c.run before) after) :
    ChangesNothing i c (before ++ after) := by
  induction before generalizing c with
  | nil => exact hafter
  | cons e before ih =>
      have hne : e.thread ≠ i := hbefore e List.mem_cons_self
      exact ⟨fun h => absurd h hne, ih (fun e' he' => hbefore e' (List.mem_cons_of_mem e he')) hafter⟩

omit [PrintTables] [PolicySource S V] in
theorem outcome_of_returned {r r' : PolicyOutcome V} (h : c.threads[i]? = some (some (.ret r')))
    {es : List (Event PolicyInput)} (ha : (c.run es).outcome i = some r) : r = r' := by
  rw [Config.outcome, Config.thread_settled_run h (Or.inr ⟨r', rfl⟩)] at ha
  exact (Option.some.inj ha).symm

/-- What is left of a publication once the document has compiled. -/
theorem publish_accepted {doc : Json} {compiled : Compiled} (h : compilePolicy doc = .ok compiled) :
    (DeclarativePolicy.publish doc : Co PolicyInput (PolicyWorld S V) (PolicyOutcome V))
      = .await (DeclarativePolicy.publishToSource doc) fun answer =>
          match answer with
          | none => .ret .sourceFailed
          | some v => .await (DeclarativePolicy.applyPublished v doc compiled)
              fun _ => .ret (.published v) := by
  unfold DeclarativePolicy.publish
  rw [h]
  rfl

omit [PrintTables] in
/-- The source takes the document or fails. -/
theorem publishToSource_cases (doc : Json) (slot : Slot PolicyInput) (w : PolicyWorld S V) :
    slot.input.fails = true ∧ DeclarativePolicy.publishToSource doc slot w = some (none, w) ∨
      ∃ w', DeclarativePolicy.publishToSource doc slot w
          = some (some (PolicySource.publishPolicy w.source doc).1, w') ∧
        w'.source = (PolicySource.publishPolicy w.source doc).2 ∧ w'.policy = w.policy := by
  unfold DeclarativePolicy.publishToSource
  by_cases hfails : slot.input.fails = true
  · exact Or.inl ⟨hfails, if_pos hfails⟩
  · exact Or.inr ⟨_, if_neg hfails, rfl, rfl⟩

theorem publishedOrRefused_of_compiles {doc : Json} {compiled : Compiled}
    (hcompiles : compilePolicy doc = .ok compiled)
    (h : c.threads[i]? = some (some (DeclarativePolicy.publish doc)))
    {es : List (Event PolicyInput)} {r : PolicyOutcome V} (hr : (c.run es).outcome i = some r) :
    PublishedOrRefused c i es doc r := by
  rw [publish_accepted hcompiles] at h
  have henabled : ∀ slot w, ∃ x, DeclarativePolicy.publishToSource (S := S) (V := V) doc slot w
      = some x := by
    intro slot w
    rcases publishToSource_cases doc slot w with ⟨-, hfails⟩ | ⟨w', hstored, -⟩
    · exact ⟨_, hfails⟩
    · exact ⟨_, hstored⟩
  obtain ⟨before, stored, after, x, w, rfl, hbefore, hblock, hworld, hthread⟩ :=
    Config.first_step h henabled hr
  rw [Config.run_append, Config.run_cons] at hr
  rcases publishToSource_cases doc ⟨i, (c.run before).live, stored⟩ (c.run before).world with
    ⟨hfails, hnothing⟩ | ⟨w', hstored, hsource, hpolicy⟩
  · rw [hnothing] at hblock
    obtain ⟨rfl, rfl⟩ := Prod.mk.inj (Option.some.inj hblock)
    obtain rfl := outcome_of_returned hthread hr
    refine .failed stored hfails (by simp) (changesNothing_append hbefore ⟨fun _ => hworld, ?_⟩)
    exact changesNothing_of_returned hthread after
  · rw [hstored] at hblock
    obtain ⟨rfl, rfl⟩ := Prod.mk.inj (Option.some.inj hblock)
    have happlies : ∀ slot w, ∃ x, DeclarativePolicy.applyPublished (S := S)
        (PolicySource.publishPolicy (c.run before).world.source doc).1 doc compiled slot w
          = some x := fun _ _ => ⟨_, rfl⟩
    obtain ⟨between, applied, after', u, w'', rfl, -, hblock', hworld', hthread'⟩ :=
      Config.first_step hthread happlies hr
    rw [Config.run_append, Config.run_cons] at hr
    obtain rfl := outcome_of_returned hthread' hr
    refine .published _ compiled hcompiles
      ⟨before, stored, between, applied, after', rfl, ⟨?_, ?_⟩, ?_⟩
    · rw [hworld, hsource]
    · rw [hworld, hpolicy]
    · obtain ⟨-, happlied⟩ := Prod.mk.inj (Option.some.inj hblock')
      rw [Config.run_append, Config.run_cons, hworld', ← happlied]
      exact ⟨rfl, rfl, rfl, rfl⟩

/-- Publishing an object ends as it should, in every run in which it ends,
    exactly when the first fault of the document, if any, is not one of shape. -/
theorem publishes_or_refuses_iff {fs : Fields}
    (h : c.threads[i]? = some (some (DeclarativePolicy.publish (.dict fs))))
    {es : List (Event PolicyInput)} {r : PolicyOutcome V} (hr : (c.run es).outcome i = some r) :
    PublishedOrRefused c i es (.dict fs) r ↔ ¬ Misshapen fs := by
  rw [← breaks_compilePolicy]
  cases hcompiled : compilePolicy (.dict fs) with
  | ok compiled =>
      refine iff_of_true (publishedOrRefused_of_compiles hcompiled h hr) ?_
      rw [breaks_ok]
      exact id
  | error e =>
      have hret : (DeclarativePolicy.publish (.dict fs)
          : Co PolicyInput (PolicyWorld S V) (PolicyOutcome V)) = .ret (.notPublished e) := by
        unfold DeclarativePolicy.publish
        rw [hcompiled]
        rfl
      rw [hret] at h
      obtain rfl := outcome_of_returned h hr
      cases e with
      | policyError msg =>
          refine iff_of_true (.refused msg (changesNothing_of_returned h es)) ?_
          rintro ⟨e, he⟩
          cases he
      | python e =>
          refine iff_of_false ?_ (not_not.mpr ⟨e, rfl⟩)
          intro hrefused
          cases hrefused

end

end

-- ============================================================================
-- A document that is stored, and one with a number for its rules
-- ============================================================================

/-- One thread that publishes to an empty memory source. -/
def publishingAlone [PrintTables] (doc : Json) :
    Config PolicyInput (PolicyWorld MemoryPolicySource ℕ) (PolicyOutcome ℕ) :=
  { world := { source := .ofDoc none, policy := .ofSource ℕ 5, trail := [] }
    threads := [some (DeclarativePolicy.publish doc)] }

/-- The empty document is stored as the first version and applied. -/
theorem publishes_or_refuses_iff_empty :
    @PublishedOrRefused .ascii _ _ _ (@publishingAlone .ascii (.dict [])) 0
      [.step 0 { now := 0 }, .step 0 { now := 1 }] (.dict []) (.published 1) := by
  have hgood : ¬ Misshapen [] := by
    rw [← @breaks_compilePolicy .ascii]
    rintro ⟨e, he⟩
    cases he
  exact (@publishes_or_refuses_iff .ascii _ _ _ (@publishingAlone .ascii (.dict [])) 0 [] rfl
    [.step 0 { now := 0 }, .step 0 { now := 1 }] (.published 1) rfl).mpr hgood

/-- A number for the rules raises a TypeError. -/
theorem malformed_rules_raise :
    ¬ ∀ (_ : PrintTables) (fs : Fields)
        (c : Config PolicyInput (PolicyWorld MemoryPolicySource ℕ) (PolicyOutcome ℕ)) (i : ℕ),
      c.threads[i]? = some (some (DeclarativePolicy.publish (.dict fs))) →
        ∀ es r, (c.run es).outcome i = some r → PublishedOrRefused c i es (.dict fs) r := by
  intro law
  have hraised : (@publishingAlone .ascii (.dict [("rules", .int 5)])).outcome 0
      = some (.notPublished (.python .typeError)) := rfl
  have hends := law .ascii [("rules", .int 5)] (@publishingAlone .ascii _) 0 rfl [] _ hraised
  cases hends

end ToolGateway.Policy
