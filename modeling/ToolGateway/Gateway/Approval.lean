/-
  ToolGateway.Gateway.Approval

  The approval gate (`approval.py`): file a ticket, wait for the verdict, and
  execute what was approved at most once.
-/

import Mathlib.Data.List.Sort
import ToolGateway.Gateway.Steps

namespace ToolGateway

open Coroutine Py

/-- What a closed claim tells the agent. -/
def INTERRUPTED : String :=
  "The approved call started but its executor stopped before reporting back (a gateway restart " ++
  "or crash), so its outcome is unknown. It was not retried: check the upstream before " ++
  "submitting it again."

/-- What a closed claim leaves on its ticket. -/
def interrupted : ToolResult := { content := .str INTERRUPTED, isError := true }

section
variable {σ : Type} [TicketStore σ]

/-- `except GatewayError` of `run_once`: an error is an outcome too.  Any other
    exception leaves the claim without a result. -/
def keepError (t : TicketId) (exc : Exc) : StepM σ ToolResult := do
  match exc with
  | .gateway e =>
      orRaise (← Prog.lift (completeTicket t (.error e)))
      throw exc
  | _ => throw exc

/-- `run_once` for a caller that did not get the claim. -/
def lostClaim (t : TicketId) (lease : Time) : StepM σ ToolResult := do
  let stored := (← Prog.lift (getTicket t)).bind Ticket.result
  match stored with
  | some result => return result
  | none =>
      if ← Prog.lift (closeStaleClaim t lease interrupted) then return interrupted
      else throw (.gateway (.pendingApproval t))

/-- `run_once`: execute an approved ticket at most once and keep the outcome on
    it. -/
def runOnce (t : TicketId) (lease : Time) (run : StepM σ ToolResult) : StepM σ ToolResult := do
  if ← Prog.lift (claimTicket t) then
    let ctx ← get
    Prog.lift (note (.started t ctx.call.arguments))
    let result ← tryCatch run (keepError t)
    orRaise (← Prog.lift (completeTicket t (.ok result)))
    return result
  else lostClaim t lease

-- ============================================================================
-- The verdict
-- ============================================================================

/-- `set(v)`, as the list of its elements: each has to be hashable. -/
def toSet (v : Json) : Except PyError (List Json) :=
  match v.iter with
  | .error e => .error e
  | .ok xs => if xs.all Json.hashable then .ok xs else .error .typeError

/-- `sorted(k for k in set(before) | set(after) if before.get(k) != after.get(k))`:
    only two objects have `get`. -/
def changedFields (before after : Json) : Except PyError (List String) :=
  match toSet before, toSet after with
  | .error e, _ => .error e
  | .ok _, .error e => .error e
  | .ok ks, .ok ks' =>
      match before, after with
      | .dict b, .dict a =>
          let keys := (Dict.keys b ++ Dict.keys a).dedup
          .ok ((keys.filter fun k => !(Fields.get b k).eq (Fields.get a k)).insertionSort (· ≤ ·))
      | _, _ => if ks.isEmpty && ks'.isEmpty then .ok [] else .error .attributeError

/-- The decision carries other arguments than the call. -/
def Decision.edits (d : Decision) (arguments : Json) : Bool :=
  match d.editedArguments with
  | .null => false
  | edited => !edited.eq arguments

/-- The note an edit leaves for the agent. -/
def editNote (d : Decision) (changed : List String) : String :=
  "[note: operator " ++ (if d.approver = "" then "?" else d.approver) ++
    " edited this call before approval; executed with changed fields: " ++
    ", ".intercalate changed ++ "]"

/-- `apply_decision`: enforce the verdict and adopt an operator's edit. -/
def applyDecision (d : Decision) : StepM σ Unit := do
  if d.approved then
    let ctx ← get
    if d.edits ctx.call.arguments then
      let changed ← orRaise (changedFields ctx.call.arguments d.editedArguments)
      modify fun ctx =>
        { ctx with
          call := { ctx.call with arguments := d.editedArguments }
          bag := { ctx.bag with editNote := editNote d changed } }
  else throw (.gateway (.approvalDenied d))

/-- The arguments a verdict lets through. -/
def Decision.effective (d : Decision) (arguments : Json) : Json :=
  if d.edits arguments then d.editedArguments else arguments

-- ============================================================================
-- The gate
-- ============================================================================

/-- `_await_decision`, rereading the ticket at most `rechecks` times more: a
    waiter that has not come back by then still waits. -/
def awaitDecision (t : TicketId) (deadline : Time) : ℕ → StepM σ Decision
  | 0 => Prog.atomic fun _ _ => none
  | rechecks + 1 => do
      match ← Prog.lift (getTicket t) with
      | none => throw (.python .attributeError)
      | some ticket =>
          if ticket.decision.status ≠ .pending then return ticket.decision
          else
            let now ← Prog.lift readClock
            if deadline - now ≤ 0 then return { status := .timeout }
            else
              -- `wait_for_decision`: comes back on a signal or after its timeout
              Prog.atomic fun _ w => some ((), w)
              awaitDecision t deadline rechecks

/-- A timeout counts only if the store takes it; else an operator decided right
    at the deadline and their verdict stands. -/
def settle (t : TicketId) (decision : Decision) : StepM σ Decision := do
  if decision.status = .timeout then
    if ← Prog.lift (decideTicket t decision) then return decision
    else
      match ← Prog.lift (getTicket t) with
      | none => throw (.python .attributeError)
      | some ticket => return ticket.decision
  else return decision

/-- The settings of a gate; `rechecks` bounds how often its waiter rereads. -/
structure GateSettings where
  timeout : Time
  lease : Time
  notifies : Bool
  rechecks : ℕ

/-- What the gate does for a caller that waits: the verdict, then the call. -/
def waitForVerdict (s : GateSettings) (t : TicketId) (callNext : StepM σ ToolResult) :
    StepM σ ToolResult := do
  let start ← Prog.lift readClock
  let awaited ← awaitDecision t (start + s.timeout) s.rechecks
  let decision ← settle t awaited
  audit "decided" [("status", .str decision.status.value), ("approver", .str decision.approver)]
  Prog.lift (note (.acted t decision))
  applyDecision decision
  runOnce t s.lease callNext

/-- The gate from the notification on, for a call under this mode. -/
def fromNotice (s : GateSettings) (t : TicketId) (mode : ApprovalMode) (canBlock : Bool)
    (callNext : StepM σ ToolResult) : StepM σ ToolResult :=
  if mode = .async ∨ canBlock = false then throw (.gateway (.pendingApproval t))
  else waitForVerdict s t callNext

/-- `ApprovalGate` -/
def ApprovalGate (s : GateSettings) : Step σ where
  handleCall callNext := do
    let ctx ← get
    let mode := (ctx.grant.map Grant.approvalMode).getD .auto
    if mode = .auto then callNext
    else
      let t ← orRaise (← Prog.lift (createTicket ctx.call))
      audit "gated" [("approval_mode", .str mode.value), ("ticket_id", .str t)]
      if s.notifies then
        match ← Prog.atomic fun slot w => some (slot.input.notify t ctx.call mode, w) with
        | some error =>
            audit "notify.error" [("ticket_id", .str t), ("error", .str error)]
        | none => pure ()
      fromNotice s t mode ctx.canBlock callNext

end

end ToolGateway
