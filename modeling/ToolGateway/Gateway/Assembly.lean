/-
  ToolGateway.Gateway.Assembly

  `ToolGateway`: the steps wired into two pipelines, and its entry points.
  `call` runs the full pipeline, `resume` the part after the gate on a ticket
  that was decided, `decide` records an operator's verdict; `check` is the MCP
  tool an agent polls its ticket with.
-/

import ToolGateway.Gateway.Approval

namespace ToolGateway

open Coroutine Py

/-- An application's own step, under its class name. -/
structure ExtraStep (σ : Type) where
  name : String
  stage : Stage
  order : ℤ
  handleCall : StepM σ ToolResult → StepM σ ToolResult

/-- What a gateway is built from, the stores and services behind its ports apart. -/
structure Settings where
  /-- the validator's `check_args(arguments, schema)` -/
  checkArgs : Json → Json → Except PyError (List String)
  /-- the secret resolver's `redact(result, upstream_id)` -/
  redact : ToolResult → String → Except Exc ToolResult
  /-- `rate_limiter is not None` -/
  limited : Bool
  gate : GateSettings

section
variable {σ : Type}

/-- The gateway's own steps; the rate limit is one only when there is a limiter. -/
def builtin (s : Settings) : List (Step σ) :=
  [audited Authorize "authorize",
   audited (ValidateSchema s.checkArgs) "validate",
   audited MaterializeSecrets "materialize",
   Redact s.redact] ++
  if s.limited then [audited RateLimit "rate_limit"] else []

/-- An application's step, audited under its name. -/
def ExtraStep.audited (step : ExtraStep σ) : Step σ :=
  ToolGateway.audited
    { stage := some step.stage, order := step.order, handleCall := step.handleCall }
    ("step." ++ step.name)

/-- The steps of one stage, sorted by order (stably). -/
def ofStage (stage : Stage) (chain : List (Step σ)) : List (Step σ) :=
  (chain.filter fun step => step.stage = some stage).insertionSort fun a b => a.order ≤ b.order

/-- `[*builtin, *steps]` -/
def chain (s : Settings) (steps : List (ExtraStep σ)) : List (Step σ) :=
  builtin s ++ steps.map ExtraStep.audited

/-- The pipeline of `resume`. -/
def postApproval (s : Settings) (steps : List (ExtraStep σ)) : List (Step σ) :=
  ofStage .afterApproval (chain s steps) ++ [Dispatch]

variable [TicketStore σ]

/-- The pipeline of `call`. -/
def full (s : Settings) (steps : List (ExtraStep σ)) : List (Step σ) :=
  ofStage .beforeApproval (chain s steps) ++ audited (ApprovalGate s.gate) "approval" ::
    postApproval s steps

-- ============================================================================
-- Entry points
-- ============================================================================

/-- What an entry point returns. -/
inductive Reply where
  | result (r : ToolResult)
  | pending (t : TicketId)
  /-- a text block of the MCP edge -/
  | text (text : String) (isError : Bool)
  | done

/-- `ToolGateway.call` -/
def call (s : Settings) (steps : List (ExtraStep σ)) (toolCall : ToolCall) (canBlock : Bool) :
    GatewayM σ Reply :=
  GatewayM.within { call := toolCall, canBlock := canBlock } do
    tryCatch (do return .result (← Pipeline.run (full s steps))) fun exc => do
      match exc with
      | .gateway (.pendingApproval t) => return .pending t
      | _ => throw exc

/-- `ToolGateway.decide` -/
protected def decide (t : TicketId) (d : Decision) : GatewayM σ Reply := do
  if d.status = .approved ∨ d.status = .rejected then
    match ← Prog.lift (getTicket t) with
    | none => throw (.unknownTicket t)
    | some ticket =>
        if ← Prog.lift (decideTicket t d) then
          -- `signal_decision`
          Prog.atomic fun _ w => some ((), w)
          Prog.lift (auditEvent "decision" ticket.call
            [("ticket_id", .str t), ("status", .str d.status.value), ("approver", .str d.approver),
             ("reason", .str d.reason), ("edited", .bool d.edited)])
          return .done
        else throw (.ticketAlreadyDecided t)
  else throw (.python .valueError)

/-- `ToolGateway.resume` -/
def resume (s : Settings) (steps : List (ExtraStep σ)) (t : TicketId) : GatewayM σ ToolResult := do
  match ← Prog.lift (getTicket t) with
  | none => throw (.unknownTicket t)
  | some ticket =>
      match ticket.result with
      | some result => return result
      | none =>
          if ticket.decision.status = .pending then throw (.gateway (.pendingApproval t))
          else
            match ← orRaise (← Prog.lift (grantFor ticket.call)) with
            | none =>
                throw (.gateway (.toolNotAllowed ("no longer allowed: " ++ ticket.call.fullName)))
            | some grant =>
                GatewayM.within { call := ticket.call, grant := grant } do
                  Prog.lift (note (.acted t ticket.decision))
                  applyDecision ticket.decision
                  audit "resumed" [("status", .str ticket.decision.status.value),
                    ("approver", .str ticket.decision.approver)]
                  runOnce t s.gate.lease (Pipeline.run (postApproval s steps))

/-- `_GATEWAY_ERROR` -/
def GATEWAY_ERROR : ℤ := -32001

/-- `_NO_TICKET` -/
def NO_TICKET : ℤ := -32004

/-- `McpEdge._check`, by the verified agent -/
def check (s : Settings) (steps : List (ExtraStep σ)) (agentId : String) (t : TicketId) :
    GatewayM σ Reply := do
  let noTicket : GatewayM σ Reply := throw (.mcpError NO_TICKET ("no such ticket: " ++ t))
  match ← Prog.lift (getTicket t) with
  | none => noTicket
  | some ticket =>
      if ticket.call.agentId ≠ agentId then noTicket
      else if ticket.decision.status = .pending then return .pending t
      else
        tryCatch (do return .result (← resume s steps t)) fun exc => do
          match exc with
          | .gateway (.pendingApproval _) => return .pending t
          | .gateway (.approvalDenied d) =>
              return .text ("Approval denied: " ++ (GatewayError.approvalDenied d).str) true
          | .gateway e => throw (.mcpError GATEWAY_ERROR e.str)
          | .unknownTicket t' => throw (.mcpError GATEWAY_ERROR t')
          | _ => throw exc

/-- An operator or a deployment puts another policy in force. -/
def setPolicy (grants : GrantResolver) : GatewayM σ Reply := do
  Prog.atomic fun slot w => some ((), World.mark { w with grants := grants } slot.me (.policy grants))
  return .done

end

end ToolGateway
