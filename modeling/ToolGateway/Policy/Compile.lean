/-
  ToolGateway.Policy.Compile

  `compile_policy`: from the JSON document an operator publishes to the rules
  in force.  The compiler walks untyped JSON; besides the PolicyError of its
  three explicit checks, every access raises what Python raises for a value of
  another shape.
-/

import ToolGateway.Policy.Rule
import ToolGateway.Python.Text
import ToolGateway.Python.Raise

namespace ToolGateway.Policy

open Py

/-- How compiling a document fails. -/
inductive CompileError where
  | policyError (msg : String)
  | python (e : PyError)
deriving DecidableEq, Repr

/-- An access of the compiler that may raise. -/
def access {α : Type} : Except PyError α → Except CompileError α
  | .ok a => .ok a
  | .error e => .error (.python e)

theorem access_eq_ok {α : Type} {x : Except PyError α} {a : α} :
    access x = .ok a ↔ x = .ok a := by
  cases x <;> simp [access]

theorem access_eq_error {α : Type} {x : Except PyError α} {e : CompileError} :
    access x = .error e ↔ ∃ e', x = .error e' ∧ e = .python e' := by
  cases x <;> simp [access, eq_comm]

section
variable [PrintTables]

/-- `Op` of the value under `"op"`: membership in the dict `_OPS` hashes it. -/
def compileOp (v : Json) : Except CompileError Op :=
  let invalid : Except CompileError Op := .error (.policyError ("invalid op " ++ v.repr))
  match v with
  | .str "eq" => .ok .eq
  | .str "ne" => .ok .ne
  | .str "gt" => .ok .gt
  | .str "ge" => .ok .ge
  | .str "lt" => .ok .lt
  | .str "le" => .ok .le
  | .str "in" => .ok .isIn
  | .list _ | .dict _ => .error (.python .typeError)
  | _ => invalid

/-- One element of `when`. -/
def compileCond (c : Json) : Except CompileError Cond := do
  let op ← compileOp (← access (c.getD "op" .null))
  match c with
  | .dict fs =>
      match fs.lookup "arg" with
      | some arg => .ok { arg := arg.toStr, op := op, value := Fields.get fs "value" }
      | none => .error (.python .keyError)
  | _ => .error (.python .attributeError)

/-- One item of `hints`: a known key with a boolean. -/
def compileHint (item : String × Json) : Except CompileError (Hint × Bool) :=
  match Hint.ofKey? item.1, item.2 with
  | some h, .bool b => .ok (h, b)
  | _, v => .error (.policyError ("invalid hint " ++ strRepr item.1 ++ ": " ++ v.repr))

/-- `raw.get("hints") or {}`, checked. -/
def compileHints (v : Json) : Except CompileError (List (Hint × Bool)) :=
  if v.truthy then
    match v with
    | .dict fs => fs.mapM compileHint
    | _ => .error (.python .attributeError)
  else .ok []

/-- `raw.get("agent", "*")`: a glob or a list of globs. -/
def compileAgents : Json → List String
  | .list xs => xs.map Json.toStr
  | v => [v.toStr]

/-- `deny` and `mode`: only a rule that does not deny reads its mode. -/
def compileMode (raw : Json) :
    Except CompileError { m : Bool × Option ApprovalMode // m.1 = false → m.2.isSome = true } := do
  if (← access (raw.getD "deny" (.bool false))).truthy then
    return ⟨(true, none), by simp⟩
  match ApprovalMode.ofJson? (← access (raw.getD "mode" (.str "auto"))) with
  | some m => return ⟨(false, some m), by simp⟩
  | none => throw (.policyError ("invalid mode " ++ (← access (raw.getD "mode" .null)).repr))

/-- `_compile_rule` -/
def compileRule (raw : Json) : Except CompileError Rule := do
  let m ← compileMode raw
  let agents := compileAgents (← access (raw.getD "agent" (.str "*")))
  let conds ← (← access (← access (raw.getD "when" .null)).iterOrEmpty).mapM compileCond
  let hints ← compileHints (← access (raw.getD "hints" .null))
  return {
    tool := (← access (raw.getD "tool" (.str "*"))).toStr
    agents := agents
    conds := conds
    hints := hints
    deny := m.1.1
    mode := m.1.2
    inputSchema := ← access (raw.getD "input_schema" .null)
    mode_isSome := m.2 }

/-- `"deny"`, or the mode a call gets that no rule matches. -/
def compileDefault (v : Json) : Except CompileError (Option Grant) :=
  match v with
  | .str "deny" => .ok none
  | _ =>
      match ApprovalMode.ofJson? v with
      | some m => .ok (some { approvalMode := m })
      | none => .error (.policyError ("invalid default " ++ v.repr))

/-- `compile_policy` -/
def compilePolicy (doc : Json) : Except CompileError Compiled := do
  let rules ← (← access (← access (doc.getD "rules" .null)).iterOrEmpty).mapM compileRule
  let default ← compileDefault (← access (doc.getD "default" (.str "deny")))
  let trust ← access (← access (doc.getD "trust_hints_from" .null)).iterOrEmpty
  return { rules := rules, default := default, trust := trust.map Json.toStr }

end

end ToolGateway.Policy
