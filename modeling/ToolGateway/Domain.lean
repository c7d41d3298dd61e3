/-
  ToolGateway.Domain

  The pure domain (`domain.py`): a tool call, its result, an approval decision
  and the errors the pipeline raises, with the texts they print.
-/

import ToolGateway.Python.Value

namespace ToolGateway

open Py

/-- A clock reading or a duration, in microseconds. -/
abbrev Time := ℤ

/-- A key of the ticket store. -/
abbrev TicketId := String

/-- How a granted call is approved. -/
inductive ApprovalMode where
  /-- forward immediately, no human in the loop -/
  | auto
  /-- hold the caller until a human decides -/
  | interactive
  /-- persist, hand back a ticket, execute on approval -/
  | async
deriving DecidableEq, Repr

/-- The text that the policy and the tickets have for it. -/
def ApprovalMode.value : ApprovalMode → String
  | auto => "auto"
  | interactive => "interactive"
  | async => "async"

/-- `ApprovalMode(v)`; `none` is its ValueError. -/
def ApprovalMode.ofJson? : Json → Option ApprovalMode
  | .str s =>
      if s = "auto" then some auto
      else if s = "interactive" then some interactive
      else if s = "async" then some async
      else none
  | _ => none

/-- Where the decision on a ticket stands. -/
inductive DecisionStatus where
  | approved
  | rejected
  | timeout
  | pending
deriving DecidableEq, Repr

/-- The text that the tickets have for it. -/
def DecisionStatus.value : DecisionStatus → String
  | approved => "approved"
  | rejected => "rejected"
  | timeout => "timeout"
  | pending => "pending"

/-- `DecisionStatus(v)`; `none` is its ValueError. -/
def DecisionStatus.ofJson? : Json → Option DecisionStatus
  | .str s =>
      if s = "approved" then some approved
      else if s = "rejected" then some rejected
      else if s = "timeout" then some timeout
      else if s = "pending" then some pending
      else none
  | _ => none

/-- `arguments` is a `dict` as an agent sends it; an operator's edit may put any
    JSON value there. -/
structure ToolCall where
  requestId : String
  agentId : String
  upstreamId : String
  toolName : String
  arguments : Json
  /-- MCP tool annotations as the catalog lists them -/
  annotations : Fields

/-- The name agents call the tool by. -/
def ToolCall.fullName (call : ToolCall) : String := call.upstreamId ++ "." ++ call.toolName

/-- What an executed call returns. -/
structure ToolResult where
  content : Json
  isError : Bool := false
  elapsedMs : ℤ := 0
  /-- operator-edit hints for the agent -/
  notes : List String := []

/-- The call is allowed under this mode, validated against this schema
    (`null`: no schema declared). -/
structure Grant where
  approvalMode : ApprovalMode
  inputSchema : Json := .null

/-- An operator's verdict, or that there is none. -/
structure Decision where
  status : DecisionStatus
  approver : String := ""
  reason : String := ""
  /-- operator patched before approving; `null` when the call was left alone -/
  editedArguments : Json := .null

/-- A rejection, a timeout and an open ticket approve nothing. -/
def Decision.approved (d : Decision) : Bool := d.status == .approved

/-- `decision.edited_arguments is not None` -/
def Decision.edited (d : Decision) : Bool :=
  match d.editedArguments with
  | .null => false
  | _ => true

theorem Decision.status_of_approved {d : Decision} (h : d.approved = true) :
    d.status = .approved := by
  simpa [Decision.approved] using h

/-- A gated call as the store keeps it. -/
structure Ticket where
  call : ToolCall
  decision : Decision
  result : Option ToolResult := none

-- ============================================================================
-- Errors
-- ============================================================================

/-- `GatewayError` and its subclasses. -/
inductive GatewayError where
  /-- the base class, as an application's own step may raise it -/
  | gatewayError (msg : String)
  | toolNotAllowed (msg : String)
  /-- `cause` is the text of the exception it was raised from -/
  | upstreamUnavailable (msg : String) (cause : Option String)
  | rateLimited (msg : String)
  | schemaInvalid (errors : List String)
  | approvalDenied (decision : Decision)
  | secretRefMissing (refs : List String)
  | secretLeak (msg : String)
  /-- not a failure: the request path stops here with a ticket handle -/
  | pendingApproval (ticketId : TicketId)

namespace GatewayError

/-- `type(exc).__name__` -/
def typeName : GatewayError → String
  | gatewayError _ => "GatewayError"
  | toolNotAllowed _ => "ToolNotAllowed"
  | upstreamUnavailable _ _ => "UpstreamUnavailable"
  | rateLimited _ => "RateLimited"
  | schemaInvalid _ => "SchemaInvalid"
  | approvalDenied _ => "ApprovalDenied"
  | secretRefMissing _ => "SecretRefMissing"
  | secretLeak _ => "SecretLeak"
  | pendingApproval _ => "PendingApproval"

/-- `str(exc)` -/
def str : GatewayError → String
  | gatewayError msg | toolNotAllowed msg | upstreamUnavailable msg _ | rateLimited msg
  | secretLeak msg => msg
  | schemaInvalid errors =>
      "arguments do not satisfy input_schema: " ++ "; ".intercalate errors
  | approvalDenied d =>
      "approval " ++ d.status.value ++ (if d.approver = "" then "" else " by " ++ d.approver)
  | secretRefMissing refs => "unknown secret refs: " ++ ", ".intercalate refs
  | pendingApproval tid => "pending approval: " ++ tid

end GatewayError

/-- What a coroutine of the gateway can raise. -/
inductive Exc where
  | gateway (e : GatewayError)
  | unknownTicket (ticketId : TicketId)
  | ticketAlreadyDecided (ticketId : TicketId)
  /-- the edge's answer to a JSON-RPC client -/
  | mcpError (code : ℤ) (message : String)
  | python (e : PyError)
  /-- anything else: what a step of the application or the audit log raises, and the
      CancelledError of a task that is cancelled -/
  | other (typeName text : String)

/-- Not a `GatewayError`: no handler of the gateway catches it. -/
def Exc.foreign : Exc → Bool
  | .gateway _ => false
  | _ => true

/-- It tells what an upstream said when it failed. -/
def Exc.quotesUpstream : Exc → Bool
  | .gateway (.upstreamUnavailable _ _) => true
  | _ => false

end ToolGateway
