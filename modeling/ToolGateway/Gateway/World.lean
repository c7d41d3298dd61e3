/-
  ToolGateway.Gateway.World

  What the gateway's coroutines act on: the ticket store, the policy in force and
  the audit log.  The services behind the other ports (upstream, secret store,
  notifier, rate limiter) and the clock answer through the input of a step.

  The world also keeps a trail of marks: which thread filed, read, decided,
  claimed, executed and closed what.  No code reads it; the statements about runs
  do.
-/

import ToolGateway.Coroutine.Steps
import ToolGateway.Tickets.Store

namespace ToolGateway

open Coroutine Py

/-- What an upstream does with a call. -/
inductive Answer where
  | result (r : ToolResult)
  | raised (typeName text : String)

/-- The outside world at one step. -/
structure Input where
  now : Time := 0
  /-- `uuid4().hex` -/
  uuid : String := ""
  /-- `admit_call(agent_id, tool)` -/
  admitCall : String → String → Bool := fun _ _ => true
  /-- `notify_approvers(…)`: the text of what it raises, if it does -/
  notify : TicketId → ToolCall → ApprovalMode → Option String := fun _ _ _ => none
  /-- `materialize(arguments, upstream_id, agent_id)` -/
  materialize : Json → String → String → Except Exc (Json × List String) :=
    fun arguments _ _ => .ok (arguments, [])
  /-- `call_tool(call)` -/
  upstream : ToolCall → Answer := fun _ => .result { content := .null }

/-- `grant_for` of the policy in force. -/
abbrev GrantResolver := ToolCall → Except PyError (Option Grant)

/-- One event of the audit log. -/
structure AuditEvent where
  event : String
  tool : String
  agent : String
  fields : Fields

-- ============================================================================
-- The trail
-- ============================================================================

/-- What a thread did that the properties speak of. -/
inductive Mark where
  /-- this policy was put in force -/
  | policy (grants : GrantResolver)
  /-- the policy in force granted the call -/
  | consulted (call : ToolCall) (grant : Grant)
  | created (t : TicketId) (call : ToolCall)
  /-- the store returned the ticket like this -/
  | read (t : TicketId) (ticket : Ticket)
  /-- the store has no such ticket -/
  | missed (t : TicketId)
  /-- the store recorded this verdict -/
  | decided (t : TicketId) (d : Decision)
  /-- the store did not record the verdict -/
  | refused (t : TicketId)
  /-- got to the verdict check with this verdict -/
  | acted (t : TicketId) (d : Decision)
  | claimed (t : TicketId) (now : Time)
  /-- the post-approval pipeline was started with these arguments -/
  | started (t : TicketId) (arguments : Json)
  /-- the arguments passed the schema -/
  | validated (arguments schema : Json)
  /-- the secret store answered -/
  | resolved (answer : Except Exc (Json × List String))
  | dispatched (call : ToolCall)
  | answered (a : Answer)
  /-- the dispatch returned this result -/
  | returned (r : ToolResult)
  /-- the executor stored its outcome -/
  | completed (t : TicketId) (outcome : Except GatewayError ToolResult)
  /-- a stale claim was closed, with its owner still running or not -/
  | closed (t : TicketId) (ownerLive : Bool)

/-- The thread whose claim on the ticket succeeded. -/
def claimant (t : TicketId) : TrailOf Mark → Option ℕ
  | [] => none
  | (i, m) :: trail =>
      match claimant t trail with
      | some owner => some owner
      | none =>
          match m with
          | .claimed t' _ => if t' = t then some i else none
          | _ => none

/-- What all threads share; the trail is read by no code. -/
structure World (σ : Type) where
  tickets : σ
  grants : GrantResolver
  audit : List AuditEvent
  trail : TrailOf Mark

/-- No policy, no tickets. -/
def World.fresh (σ : Type) [TicketStore σ] : World σ :=
  { tickets := TicketStore.empty, grants := fun _ => .ok none, audit := [], trail := [] }

/-- Note it. -/
def World.mark {σ : Type} (w : World σ) (i : ℕ) (m : Mark) : World σ :=
  { w with trail := (i, m) :: w.trail }

-- ============================================================================
-- Await points
-- ============================================================================

section
variable {σ : Type}

/-- A coroutine of the gateway that raises no exceptions of its own. -/
abbrev Task (σ α : Type) := Co Input (World σ) α

/-- Make a mark. -/
def note (m : Mark) : Task σ Unit := Co.atomic fun slot w => some ((), w.mark slot.me m)

/-- `time.monotonic()`, or `now` of the store -/
def readClock : Task σ Time := Co.atomic fun slot w => some (slot.input.now, w)

/-- `audit_event(event, call, **fields)` -/
def auditEvent (event : String) (call : ToolCall) (fields : Fields) : Task σ Unit :=
  Co.atomic fun _ w => some ((), { w with audit := w.audit ++
    [{ event := event, tool := call.fullName, agent := call.agentId, fields := fields }] })

/-- `grant_for(call)` -/
def grantFor (call : ToolCall) : Task σ (Except PyError (Option Grant)) :=
  Co.atomic fun slot w =>
    match w.grants call with
    | .ok (some grant) => some (.ok (some grant), w.mark slot.me (.consulted call grant))
    | answer => some (answer, w)

section
variable [TicketStore σ]

/-- `create(_new_ticket_id(), call)`: a uuid is one that no ticket has. -/
def createTicket (call : ToolCall) : Task σ (Except PyError TicketId) :=
  Co.atomic fun slot w =>
    let t := "tkt-" ++ slot.input.uuid
    match TicketStore.get w.tickets t with
    | some _ => none
    | none =>
        match TicketStore.create w.tickets t call slot.input.now with
        | .ok tickets => some (.ok t, World.mark { w with tickets := tickets } slot.me (.created t call))
        | .error e => some (.error e, w)

/-- `get` -/
def getTicket (t : TicketId) : Task σ (Option Ticket) :=
  Co.atomic fun slot w =>
    match TicketStore.get w.tickets t with
    | some ticket => some (some ticket, w.mark slot.me (.read t ticket))
    | none => some (none, w.mark slot.me (.missed t))

/-- `decide` -/
def decideTicket (t : TicketId) (d : Decision) : Task σ Bool :=
  Co.atomic fun slot w =>
    match TicketStore.decide w.tickets t d with
    | (true, tickets) => some (true, World.mark { w with tickets := tickets } slot.me (.decided t d))
    | (false, tickets) => some (false, World.mark { w with tickets := tickets } slot.me (.refused t))

/-- `claim` -/
def claimTicket (t : TicketId) : Task σ Bool :=
  Co.atomic fun slot w =>
    match TicketStore.claim w.tickets t slot.input.now with
    | (true, tickets) => some (true, World.mark { w with tickets := tickets } slot.me
        (.claimed t slot.input.now))
    | (false, tickets) => some (false, { w with tickets := tickets })

/-- `close_stale_claim`; the mark says whether the executor was still running. -/
def closeStaleClaim (t : TicketId) (older : Time) (result : ToolResult) : Task σ Bool :=
  Co.atomic fun slot w =>
    match TicketStore.closeStaleClaim w.tickets t slot.input.now older result with
    | (true, tickets) =>
        let ownerLive := (claimant t w.trail).any slot.live
        some (true, World.mark { w with tickets := tickets } slot.me (.closed t ownerLive))
    | (false, tickets) => some (false, { w with tickets := tickets })

/-- What `run_once` stores for an outcome. -/
def storedResult : Except GatewayError ToolResult → ToolResult
  | .ok r => r
  | .error e => { content := .str e.str, isError := true }

/-- What the executor hands on after it stored its outcome. -/
def handedOn : Except GatewayError ToolResult → Except Exc ToolResult
  | .ok r => .ok r
  | .error e => .error (.gateway e)

/-- `complete`, with what the outcome is stored as. -/
def completeTicket (t : TicketId) (outcome : Except GatewayError ToolResult) :
    Task σ (Except PyError Unit) :=
  Co.atomic fun slot w =>
    match TicketStore.complete w.tickets t (storedResult outcome) with
    | .ok tickets =>
        some (.ok (), World.mark { w with tickets := tickets } slot.me (.completed t outcome))
    | .error e => some (.error e, w)

end

-- ============================================================================
-- Contexts
-- ============================================================================

/-- `bag`: the keys the steps use. -/
structure Bag where
  editNote : Option String := none
  materializedRefs : Option (List String) := none

/-- `CallContext`; the audit log is the world's. -/
structure CallContext where
  call : ToolCall
  grant : Option Grant := none
  /-- false for callers that must not wait -/
  canBlock : Bool := true
  bag : Bag := {}

/-- A coroutine over a call context. -/
abbrev StepM (σ : Type) := Prog Exc CallContext Input (World σ)

/-- A coroutine outside any call. -/
abbrev GatewayM (σ : Type) := Prog Exc Unit Input (World σ)

variable {γ α : Type}

/-- Run on a context of its own. -/
def GatewayM.within (ctx : CallContext) (m : StepM σ α) : GatewayM σ α := do
  match ← Prog.lift (m.exec ctx) with
  | (.ok a, _) => return a
  | (.error e, _) => throw e

/-- A result of the interpreter: its error is raised. -/
def orRaise (r : Except PyError α) : Prog Exc γ Input (World σ) α :=
  match r with
  | .ok a => return a
  | .error e => throw (.python e)

/-- `ctx.audit.audit_event(event, ctx.call, **fields)` -/
def audit (event : String) (fields : Fields) : StepM σ Unit := do
  let ctx ← get
  Prog.lift (auditEvent event ctx.call fields)

end

end ToolGateway
