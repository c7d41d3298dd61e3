/-
  ToolGateway.Gateway.Edge

  The MCP surface (`mcp.py`), behind the SDK: `tools/call` by a verified agent.
  A gated tool does not hold the agent; it gets a handle and polls its ticket with
  the built-in `gateway.check`.
-/

import ToolGateway.Coroutine.Paths
import ToolGateway.Python.Dumps
import ToolGateway.Gateway.Assembly
import ToolGateway.Upstreams.Catalog

namespace ToolGateway

open Coroutine Py

/-- `tools_for(agent_id)` -/
abbrev ToolCatalog := String → Except Exc (List CatalogEntry)

/-- What an MCP client gets: text blocks, and metadata about a ticket. -/
structure CallToolResult where
  content : List String
  isError : Bool := false
  metadata : Fields := []

namespace McpEdge

/-- The built-in tool that polls a ticket. -/
def CHECK_TOOL : String := "gateway.check"

/-- `_INVALID_PARAMS` -/
def INVALID_PARAMS : ℤ := -32602

/-- `_text` -/
def text (text : String) (isError : Bool) (metadata : Fields) : CallToolResult :=
  { content := [text], isError := isError, metadata := metadata }

/-- `_pending` -/
def pending (t : TicketId) : CallToolResult :=
  text
    ("This action requires operator approval. Request submitted (ticket " ++ t ++ "). " ++
      "It is pending human review — tell the user, then call the '" ++ CHECK_TOOL ++
      "' tool with \x7b\"ticket_id\": \"" ++ t ++ "\"\x7d to retrieve the result once decided.")
    false [("status", .str "pending_approval"), ("ticket_id", .str t)]

section
variable [PrintTables]

/-- `_tool_result`: the notes, then the content. -/
def toolResult (r : ToolResult) : CallToolResult :=
  let content := match r.content with
    | .str s => s
    | v => v.dumps
  { content := r.notes ++ [content], isError := r.isError }

/-- What `_call` makes of the outcome: `call` returns a result or a handle. -/
def outcomeResult : Reply → CallToolResult
  | .result r => toolResult r
  | .pending t => pending t
  | .text s isError => text s isError []
  | .done => text "" false []

/-- The call `_call` makes of a tool name, with the annotations of the first entry
    of that name. -/
def toolCall (listing : List CatalogEntry) (requestId agentId fullName : String)
    (arguments : Fields) : ToolCall where
  requestId := requestId
  agentId := agentId
  upstreamId := (partitionDot fullName).1
  toolName := (partitionDot fullName).2
  arguments := .dict arguments
  annotations :=
    ((listing.find? fun entry => entry.name = fullName).bind fun entry => entry.annotations).getD []

/-- `except GatewayError` of `_call` -/
def raised {σ α : Type} (exc : Exc) : GatewayM σ α :=
  match exc with
  | .gateway e => throw (.mcpError GATEWAY_ERROR e.str)
  | _ => throw exc

variable {σ : Type} [TicketStore σ] (s : Settings) (steps : List (ExtraStep σ))

/-- `_call`, once the call is made up: the agent is never held. -/
def handOver (c : ToolCall) : GatewayM σ CallToolResult := do
  let outcome ← tryCatch (ToolGateway.call s steps c false) raised
  return outcomeResult outcome

/-- `_call` -/
def call (catalog : ToolCatalog) (requestId agentId fullName : String) (arguments : Fields) :
    GatewayM σ CallToolResult := do
  if '.' ∉ fullName.toList then
    throw (.mcpError INVALID_PARAMS ("tool name must be 'upstream.tool', got " ++ strRepr fullName))
  else
    match catalog agentId with
    | .error e => throw e
    | .ok listing => handOver s steps (toolCall listing requestId agentId fullName arguments)

/-- A ticket that is not there, or not the agent's. -/
def noSuchTicket {α : Type} (shown : String) : GatewayM σ α :=
  throw (.mcpError NO_TICKET ("no such ticket: " ++ shown))

/-- How the outcome of `resume` is told. -/
def resumeRaised (t : TicketId) (status : DecisionStatus) (exc : Exc) :
    GatewayM σ CallToolResult :=
  match exc with
  | .gateway (.pendingApproval _) => return pending t
  | .gateway (.approvalDenied d) =>
      return text ("Approval denied: " ++ (GatewayError.approvalDenied d).str) true
        [("status", .str status.value)]
  | .gateway e => throw (.mcpError GATEWAY_ERROR e.str)
  | .unknownTicket t' => throw (.mcpError GATEWAY_ERROR t')
  | _ => throw exc

/-- `_check` of a ticket id. -/
def checkTicket (agentId : String) (t : TicketId) : GatewayM σ CallToolResult := do
  match ← Prog.lift (getTicket t) with
  | none => noSuchTicket t
  | some ticket =>
      if ticket.call.agentId ≠ agentId then noSuchTicket t
      else if ticket.decision.status = .pending then return pending t
      else
        tryCatch (do return toolResult (← resume s steps t))
          (resumeRaised t ticket.decision.status)

/-- `_check`: what is no string is the id of no ticket, and what has no hash cannot be
    looked up. -/
def check (agentId : String) (arguments : Fields) : GatewayM σ CallToolResult :=
  match (arguments.lookup "ticket_id").getD (.str "") with
  | .str t => checkTicket s steps agentId t
  | v => if v.hashable then noSuchTicket v.toStr else throw (.python .typeError)

/-- `_call_tool`: `tools/call` by the verified agent; `arguments` may be left out. -/
def callTool (catalog : ToolCatalog) (requestId agentId name : String)
    (arguments : Option Fields) : GatewayM σ CallToolResult :=
  if name = CHECK_TOOL then check s steps agentId (arguments.getD [])
  else call s steps catalog requestId agentId name (arguments.getD [])

/-- The text blocks, without the metadata. -/
def plain (r : CallToolResult) : CallToolResult := { r with metadata := [] }

/-- `_check` of a ticket id tells what the entry point `check` comes to. -/
theorem checkTicket_plain (agentId : String) (t : TicketId) :
    (do return plain (← checkTicket s steps agentId t)) =
      (do return plain (outcomeResult (← ToolGateway.check s steps agentId t))) := by
  unfold checkTicket ToolGateway.check
  rw [Prog.bind_assoc, Prog.bind_assoc]
  refine congrArg _ (funext fun found => ?_)
  cases found with
  | none => rfl
  | some ticket =>
      dsimp only
      split
      · rfl
      · split
        · rfl
        · rw [Prog.tryCatch_return, Prog.tryCatch_return, Prog.bind_assoc, Prog.bind_assoc]
          refine congrArg _ (funext fun exc => ?_)
          cases exc with
          | gateway e => cases e <;> rfl
          | _ => rfl

end

-- ============================================================================
-- Where a request goes
-- ============================================================================

/-- What a `tools/call` comes to. -/
inductive Route where
  /-- the built-in tool -/
  | check
  /-- not of the form `upstream.tool` -/
  | refused
  | call (toolCall : ToolCall)

/-- Where a `tools/call` goes under a listing. -/
def route (listing : List CatalogEntry) (requestId agentId name : String)
    (arguments : Option Fields) : Route :=
  if name = CHECK_TOOL then .check
  else if '.' ∉ name.toList then .refused
  else .call (toolCall listing requestId agentId name (arguments.getD []))

/-- A request that is routed as a call is that call, handed to the gateway. -/
theorem callTool_of_route [PrintTables] {σ : Type} [TicketStore σ] (s : Settings)
    (steps : List (ExtraStep σ)) {catalog : ToolCatalog} {listing : List CatalogEntry}
    {requestId agentId name : String} {arguments : Option Fields} {c : ToolCall}
    (hlisting : catalog agentId = .ok listing)
    (h : route listing requestId agentId name arguments = .call c) :
    callTool s steps catalog requestId agentId name arguments = handOver s steps c := by
  rw [route] at h
  by_cases hcheck : name = CHECK_TOOL
  · rw [if_pos hcheck] at h
    cases h
  · rw [if_neg hcheck] at h
    by_cases hdot : '.' ∉ name.toList
    · rw [if_pos hdot] at h
      cases h
    · rw [if_neg hdot] at h
      cases h
      rw [callTool, if_neg hcheck, call, if_neg hdot, hlisting]

/-- Which call a name is routed to. -/
theorem route_eq_call {listing : List CatalogEntry} {requestId agentId name : String}
    {arguments : Option Fields} {c : ToolCall} :
    route listing requestId agentId name arguments = .call c ↔
      name ≠ CHECK_TOOL ∧ '.' ∈ name.toList ∧
        c = toolCall listing requestId agentId name (arguments.getD []) := by
  rw [route]
  by_cases hcheck : name = CHECK_TOOL
  · simp [hcheck]
  · by_cases hdot : '.' ∈ name.toList
    · simp [hcheck, hdot, eq_comm]
    · simp [hcheck, hdot]

end McpEdge

end ToolGateway
