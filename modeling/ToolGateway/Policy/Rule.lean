/-
  ToolGateway.Policy.Rule

  The declarative policy once compiled (`policy.py`): an ordered list of rules
  plus a default.  A rule matches on the agent, the tool (globs), the hints its
  upstream declares and conditions over the call arguments; it yields an
  approval mode or a denial.  First match wins, no match falls to the default.

  `Compiled.grantFor` and `Compiled.mayCall` are the two loops that walk the
  list; a condition that raises anything but TypeError or ValueError lets the
  exception out of the loop.
-/

import ToolGateway.Domain
import ToolGateway.Python.Fnmatch

namespace ToolGateway.Policy

open Py

-- ============================================================================
-- Conditions over the call arguments
-- ============================================================================

/-- The keys of `_OPS`. -/
inductive Op where
  | eq | ne | gt | ge | lt | le | isIn
deriving DecidableEq, Repr

namespace Op

/-- `gt`, `ge`, `lt` and `le` convert both sides with `float()`. -/
def ordering : Op → Bool
  | gt | ge | lt | le => true
  | eq | ne | isIn => false

/-- `_num(a) ⋈ _num(b)`: the left side is converted first. -/
def compareNum (cmp : Float64 → Float64 → Bool) (a b : Json) : Except PyError Bool :=
  match a.toFloat with
  | .error e => .error e
  | .ok x =>
      match b.toFloat with
      | .error e => .error e
      | .ok y => .ok (cmp x y)

/-- `_OPS[op](a, b)` -/
def apply : Op → Json → Json → Except PyError Bool
  | eq, a, b => .ok (a.eq b)
  | ne, a, b => .ok (!a.eq b)
  | gt, a, b => compareNum (fun x y => y.lt x) a b
  | ge, a, b => compareNum (fun x y => y.le x) a b
  | lt, a, b => compareNum Float64.lt a b
  | le, a, b => compareNum Float64.le a b
  | isIn, a, b => a.isIn b

end Op

/-- `_Cond` -/
structure Cond where
  arg : String
  op : Op
  value : Json

/-- A comparison whose type mismatch fails closed: TypeError and ValueError
    count as false, any other exception goes on. -/
def failClosed : Except PyError Bool → Except PyError Bool
  | .error .typeError | .error .valueError => .ok false
  | r => r

/-- `_Cond.holds` -/
def Cond.holds (c : Cond) (arguments : Json) : Except PyError Bool :=
  match arguments with
  | .dict fs =>
      match fs.lookup c.arg with
      | none => .ok false
      | some a => failClosed (c.op.apply a c.value)
  -- arguments that an operator's edit made a list or a string: `in` works on
  -- them, but indexing with the argument's name is a TypeError
  | .list _ | .str _ => .ok false
  | _ => .error .typeError

/-- `all(c.holds(arguments) for c in conds)` -/
def allHold (arguments : Json) : List Cond → Except PyError Bool
  | [] => .ok true
  | c :: cs =>
      match c.holds arguments with
      | .ok true => allHold arguments cs
      | r => r

-- ============================================================================
-- Hints
-- ============================================================================

/-- The keys of `_HINT_DEFAULTS`. -/
inductive Hint where
  | readOnlyHint | destructiveHint | idempotentHint | openWorldHint
deriving DecidableEq, Repr

namespace Hint

/-- The annotation it is about. -/
def key : Hint → String
  | readOnlyHint => "readOnlyHint"
  | destructiveHint => "destructiveHint"
  | idempotentHint => "idempotentHint"
  | openWorldHint => "openWorldHint"

/-- MCP spec defaults for an absent annotation (`_HINT_DEFAULTS`). -/
def default : Hint → Bool
  | readOnlyHint => false
  | destructiveHint => true
  | idempotentHint => false
  | openWorldHint => true

/-- `key in _HINT_DEFAULTS` -/
def ofKey? (k : String) : Option Hint :=
  [readOnlyHint, destructiveHint, idempotentHint, openWorldHint].find? (·.key = k)

end Hint

/-- `bool(annotations[k]) if k in annotations else v` -/
def declaredHint (annotations : Fields) (h : Hint) : Bool :=
  match annotations.lookup h.key with
  | some v => v.truthy
  | none => h.default

/-- The four hints as the spec reads them: a read-only tool is never
    destructive (`_effective_hints`). -/
def effectiveHints (annotations : Fields) (h : Hint) : Bool :=
  if h = .destructiveHint ∧ declaredHint annotations .readOnlyHint then false
  else declaredHint annotations h

-- ============================================================================
-- Rules
-- ============================================================================

/-- `_Rule`.  Compilation gives every rule that does not deny a mode. -/
structure Rule where
  tool : String
  agents : List String
  conds : List Cond
  hints : List (Hint × Bool)
  deny : Bool
  mode : Option ApprovalMode
  inputSchema : Json
  mode_isSome : deny = false → mode.isSome = true

namespace Rule

/-- Tool, agent and hints match; the argument conditions are not checked. -/
def targets (r : Rule) (call : ToolCall) (trusted : Bool) : Bool :=
  fnmatchcase call.fullName r.tool
    && r.agents.any (fnmatchcase call.agentId)
    && r.hints.all fun h => effectiveHints (if trusted then call.annotations else []) h.1 == h.2

/-- `_Rule.matches` -/
def «matches» (r : Rule) (call : ToolCall) (trusted : Bool) : Except PyError Bool :=
  if r.targets call trusted then allHold call.arguments r.conds else .ok false

/-- What the rule gives a call it matches: `None if rule.deny else Grant(...)`. -/
def verdict (r : Rule) : Option Grant :=
  if h : r.deny = true then none
  else some { approvalMode := r.mode.get (r.mode_isSome (by simpa using h)),
              inputSchema := r.inputSchema }

end Rule

/-- `_Compiled` -/
structure Compiled where
  rules : List Rule
  default : Option Grant
  trust : List String

namespace Compiled

/-- `any(fnmatchcase(call.upstream_id, g) for g in policy.trust)` -/
def trusts (p : Compiled) (upstreamId : String) : Bool :=
  p.trust.any (fnmatchcase upstreamId)

/-- The first rule that matches the call. -/
def firstMatching (call : ToolCall) (trusted : Bool) : List Rule → Except PyError (Option Rule)
  | [] => .ok none
  | r :: rs =>
      match r.matches call trusted with
      | .ok true => .ok (some r)
      | .ok false => firstMatching call trusted rs
      | .error e => .error e

/-- The rule that decides the call, if any. -/
def decidingRule (p : Compiled) (call : ToolCall) : Except PyError (Option Rule) :=
  firstMatching call (p.trusts call.upstreamId) p.rules

/-- `DeclarativePolicy.grant_for` on the policy in force. -/
def grantFor (p : Compiled) (call : ToolCall) : Except PyError (Option Grant) :=
  match p.decidingRule call with
  | .ok (some r) => .ok r.verdict
  | .ok none => .ok p.default
  | .error e => .error e

/-- The loop of `may_call`: an unconditional rule is final, a conditional allow
    means "yes, for some arguments", a conditional deny might not apply. -/
def mayCallRules (call : ToolCall) (trusted : Bool) (default : Option Grant) :
    List Rule → Bool
  | [] => default.isSome
  | r :: rs =>
      if !r.targets call trusted then mayCallRules call trusted default rs
      else if r.conds.isEmpty || !r.deny then !r.deny
      else mayCallRules call trusted default rs

/-- `DeclarativePolicy.may_call` on the policy in force. -/
def mayCall (p : Compiled) (call : ToolCall) : Bool :=
  mayCallRules call (p.trusts call.upstreamId) p.default p.rules

end Compiled

-- ============================================================================
-- What leaves the loop
-- ============================================================================

theorem floatOfStr_error {s : String} {e : PyError} (h : floatOfStr s = .error e) :
    e = .valueError := by
  unfold floatOfStr at h
  grind

theorem toFloat_error {v : Json} {e : PyError} (h : v.toFloat = .error e) :
    e = .typeError ∨ e = .valueError ∨ e = .overflowError := by
  cases v with
  | int n =>
      simp only [Json.toFloat, floatOfInt] at h
      grind
  | str s => exact Or.inr (Or.inl (floatOfStr_error h))
  | null | bool | float | list | dict => simp_all [Json.toFloat]

theorem Op.compareNum_error {cmp : Float64 → Float64 → Bool} {a b : Json} {e : PyError}
    (h : Op.compareNum cmp a b = .error e) :
    e = .typeError ∨ e = .valueError ∨ e = .overflowError := by
  unfold Op.compareNum at h
  match ha : a.toFloat, hb : b.toFloat with
  | .error e', _ =>
      obtain rfl : e' = e := by simpa [ha] using h
      exact toFloat_error ha
  | .ok _, .error e' =>
      obtain rfl : e' = e := by simpa [ha, hb] using h
      exact toFloat_error hb
  | .ok _, .ok _ => simp [ha, hb] at h

theorem isIn_error {a b : Json} {e : PyError} (h : a.isIn b = .error e) : e = .typeError := by
  unfold Json.isIn at h
  grind

theorem Op.apply_error {op : Op} {a b : Json} {e : PyError} (h : op.apply a b = .error e) :
    e = .typeError ∨ e = .valueError ∨ e = .overflowError := by
  cases op with
  | eq | ne => cases h
  | gt | ge | lt | le => exact Op.compareNum_error h
  | isIn => exact Or.inl (isIn_error h)

/-- Over an arguments map the one exception a condition lets out is the
    OverflowError of `float()` on an integer past the binary64 range. -/
theorem Cond.holds_error {c : Cond} {arguments : Fields} {e : PyError}
    (h : c.holds (.dict arguments) = .error e) : e = .overflowError := by
  unfold Cond.holds at h
  match ha : arguments.lookup c.arg with
  | none => simp [ha] at h
  | some a =>
      simp only [ha] at h
      match happ : c.op.apply a c.value with
      | .ok b => simp [happ, failClosed] at h
      | .error e' =>
          rcases Op.apply_error happ with rfl | rfl | rfl
          · simp [happ, failClosed] at h
          · simp [happ, failClosed] at h
          · simpa [happ, failClosed, eq_comm] using h

theorem allHold_error {arguments : Fields} {conds : List Cond} {e : PyError}
    (h : allHold (.dict arguments) conds = .error e) : e = .overflowError := by
  induction conds with
  | nil => cases h
  | cons c cs ih =>
      unfold allHold at h
      match hc : c.holds (.dict arguments) with
      | .ok true => exact ih (by simpa [hc] using h)
      | .ok false => simp [hc] at h
      | .error e' =>
          obtain rfl : e' = e := by simpa [hc] using h
          exact Cond.holds_error hc

namespace Compiled

theorem firstMatching_error {call : ToolCall} {arguments : Fields}
    (hargs : call.arguments = .dict arguments) {trusted : Bool} {rules : List Rule} {e : PyError}
    (h : firstMatching call trusted rules = .error e) : e = .overflowError := by
  induction rules with
  | nil => cases h
  | cons r rs ih =>
      unfold firstMatching at h
      match hm : r.matches call trusted with
      | .ok true => simp [hm] at h
      | .ok false => exact ih (by simpa [hm] using h)
      | .error e' =>
          have he : e' = e := by simpa [hm] using h
          unfold Rule.matches at hm
          rw [hargs, he] at hm
          by_cases ht : r.targets call trusted = true
          · exact allHold_error (by simpa [ht] using hm)
          · simp [ht] at hm

theorem grantFor_error {p : Compiled} {call : ToolCall} {arguments : Fields} {e : PyError}
    (hargs : call.arguments = .dict arguments) (h : p.grantFor call = .error e) :
    e = .overflowError := by
  unfold grantFor at h
  match hd : p.decidingRule call with
  | .ok (some r) => simp [hd] at h
  | .ok none => simp [hd] at h
  | .error e' =>
      obtain rfl : e' = e := by simpa [hd] using h
      exact firstMatching_error hargs hd

end Compiled

end ToolGateway.Policy
