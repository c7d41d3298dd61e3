/-
  ToolGateway.Gateway.ToolsList

  `tools/list` behind the SDK (`_list_tools`): the catalog reuses a listing or asks the
  upstreams one after the other, and the gateway asks the policy about each entry.
  Requests run beside each other, beside the calls that look a tool up, and beside
  whatever publishes or refreshes the policy.

  What an upstream answers to `list_tools` is the input of the step that asks it.  The
  world keeps a trail of what the catalog did; nothing in the code reads it.
-/

import ToolGateway.Coroutine.Trail
import ToolGateway.Coroutine.Views
import ToolGateway.Gateway.Edge
import ToolGateway.Policy.Replica

namespace ToolGateway

open Coroutine Policy Py

-- ============================================================================
-- The surface
-- ============================================================================

/-- What the catalog did for a request. -/
inductive ListingMark where
  /-- the upstream listed these tools -/
  | answered (upstreamId : String) (tools : List UpstreamTool)
  /-- the request to the upstream raised an exception with this text -/
  | unanswered (upstreamId text : String)
  /-- the listing is kept for later requests, as of this time -/
  | kept (listing : List CatalogEntry) (stamp : Time)
  /-- the listing kept at `stamp` was reused at `now` -/
  | reused (listing : List CatalogEntry) (stamp now : Time)

/-- The catalog, and the policy the gateway asks. -/
structure ListingWorld (S V τ : Type) where
  catalog : McpUpstreams τ
  policies : PolicyWorld S V
  trail : TrailOf ListingMark

/-- What comes to a task where it waits: the policy's share, and what the upstream it
    asked answers. -/
structure ListingInput extends PolicyInput where
  answer : Except String (List UpstreamTool) := .ok []

/-- `types.Tool` -/
structure Tool where
  name : String
  description : String
  inputSchema : Json
  /-- the hints the SDK makes its `ToolAnnotations` of -/
  annotations : Option Fields

namespace ToolsList

/-- `_CHECK_TOOL` -/
def checkTool : Tool where
  name := McpEdge.CHECK_TOOL
  description := "Fetch the result of a tool call that was pending operator approval. " ++
    "Pass the ticket_id from a pending response."
  inputSchema := .dict [("type", .str "object"), ("required", .list [.str "ticket_id"]),
    ("properties", .dict [("ticket_id", .dict [("type", .str "string")])])]
  annotations := some [("readOnlyHint", .bool true)]

/-- `_tool` -/
def tool (entry : CatalogEntry) : Tool where
  name := entry.name
  description := entry.description
  inputSchema :=
    if entry.inputSchema.truthy then entry.inputSchema else .dict [("type", .str "object")]
  annotations :=
    let hints := entry.annotations.getD []
    if hints.isEmpty then none else some hints

/-- What `tools_for` raises when an upstream does not answer. -/
def notListed [PrintTables] (upstreamId text : String) : GatewayError :=
  .upstreamUnavailable ("upstream " ++ strRepr upstreamId ++ " did not list its tools: " ++ text)
    (some text)

section
variable {S V τ : Type}

/-- Code of `tools/list`, suspended at its await points. -/
abbrev ListingTask (S V τ α : Type) := Co ListingInput (ListingWorld S V τ) α

/-- Note it. -/
def mark (w : ListingWorld S V τ) (i : ℕ) (m : ListingMark) : ListingWorld S V τ :=
  { w with trail := (i, m) :: w.trail }

-- ============================================================================
-- The catalog
-- ============================================================================

/-- What the cache is good for. -/
inductive Looked where
  | reused (listing : List CatalogEntry)
  /-- these upstreams have to be asked -/
  | stale (upstreamIds : List String)

/-- `time.monotonic() - self._listed_at > self._ttl` -/
def lookUp (slot : Slot ListingInput) (w : ListingWorld S V τ) :
    Option (Looked × ListingWorld S V τ) :=
  match w.catalog.listedAt with
  | none => some (.stale (Dict.keys w.catalog.targets), w)
  | some stamp =>
      if slot.input.now - stamp > w.catalog.ttl then
        some (.stale (Dict.keys w.catalog.targets), w)
      else
        some (.reused w.catalog.listing,
          mark w slot.me (.reused w.catalog.listing stamp slot.input.now))

/-- `await self._use(upstream_id, lambda c: c.list_tools())` -/
def ask (upstreamId : String) (slot : Slot ListingInput) (w : ListingWorld S V τ) :
    Option (Except String (List UpstreamTool) × ListingWorld S V τ) :=
  match slot.input.answer with
  | .ok tools => some (.ok tools, mark w slot.me (.answered upstreamId tools))
  | .error text => some (.error text, mark w slot.me (.unanswered upstreamId text))

/-- `self._listing, self._listed_at = listing, time.monotonic()` -/
def keep (listing : List CatalogEntry) (slot : Slot ListingInput) (w : ListingWorld S V τ) :
    Option (Unit × ListingWorld S V τ) :=
  some ((), mark
    { w with catalog := { w.catalog with listing := listing, listedAt := some slot.input.now } }
    slot.me (.kept listing slot.input.now))

variable [PrintTables]

/-- The loop of `tools_for`; a listing goes into the cache when it is complete. -/
def gather : List String → List CatalogEntry →
    ListingTask S V τ (Except GatewayError (List CatalogEntry))
  | [], listing => do
      Co.atomic (keep listing)
      return .ok listing
  | upstreamId :: rest, listing => do
      match ← Co.atomic (ask upstreamId) with
      | .error text => return .error (notListed upstreamId text)
      | .ok tools => gather rest (listing ++ tools.map (spec upstreamId))

/-- `tools_for` -/
def toolsFor : ListingTask S V τ (Except GatewayError (List CatalogEntry)) := do
  match ← Co.atomic lookUp with
  | .reused listing => return .ok listing
  | .stale upstreamIds => gather upstreamIds []

-- ============================================================================
-- The gateway
-- ============================================================================

/-- The loop of `visible_tools`. -/
def sift (mayCall : ToolCall → ListingTask S V τ Bool) (agentId : String) :
    List CatalogEntry → ListingTask S V τ (List CatalogEntry)
  | [] => return []
  | entry :: rest => do
      let allowed ← mayCall (entry.call "list" agentId (.dict []))
      let visible ← sift mayCall agentId rest
      return if allowed then entry :: visible else visible

/-- `visible_tools`; a resolver may have no `may_call`. -/
def visibleTools (mayCall : Option (ToolCall → ListingTask S V τ Bool)) (agentId : String)
    (specs : List CatalogEntry) : ListingTask S V τ (List CatalogEntry) :=
  match mayCall with
  | none => return specs
  | some mayCall => sift mayCall agentId specs

/-- An operation of the policy, beside the catalog. -/
def onPolicy {α : Type} (co : Co PolicyInput (PolicyWorld S V) α) : ListingTask S V τ α :=
  (co.under ListingInput.toPolicyInput).zoom ListingWorld.policies fun p w =>
    { w with policies := p }

/-- `may_call` said yes. -/
def yes : PolicyOutcome V → Bool
  | .may b => b
  | _ => false

variable [PolicySource S V]

/-- `may_call`, as the catalog's requests ask it. -/
def mayCall (call : ToolCall) : ListingTask S V τ Bool := do
  return yes (← onPolicy (DeclarativePolicy.mayCall call))

/-- `_list_tools` for a verified agent. -/
def listTools (agentId : String) : ListingTask S V τ (Except GatewayError (List Tool)) := do
  match ← toolsFor with
  | .error e => return .error e
  | .ok specs =>
      let visible ← visibleTools (some mayCall) agentId specs
      return .ok (visible.map tool ++ [checkTool])

/-- `_call`, up to the call it hands to the gateway. -/
def resolve (requestId agentId fullName : String) (arguments : Fields) :
    ListingTask S V τ (Except Exc ToolCall) := do
  if '.' ∉ fullName.toList then
    return .error (.mcpError McpEdge.INVALID_PARAMS
      ("tool name must be 'upstream.tool', got " ++ strRepr fullName))
  else
    match ← toolsFor with
    | .error e => return .error (.gateway e)
    | .ok listing => return .ok (McpEdge.toolCall listing requestId agentId fullName arguments)

-- ============================================================================
-- The system
-- ============================================================================

/-- Who runs beside the catalog. -/
inductive ListingActor where
  | list (agentId : String)
  | call (requestId agentId fullName : String) (arguments : Fields)
  | policy (op : PolicyOp)

/-- What each of them comes to. -/
inductive ListingReply (V : Type) where
  | tools (r : Except GatewayError (List Tool))
  | call (r : Except Exc ToolCall)
  | policy (r : PolicyOutcome V)

/-- What each of them runs. -/
def ListingActor.program : ListingActor → ListingTask S V τ (ListingReply V)
  | .list agentId => do return .tools (← listTools agentId)
  | .call requestId agentId fullName arguments => do
      return .call (← resolve requestId agentId fullName arguments)
  | .policy op => do return .policy (← onPolicy op.program)

/-- A surface over these upstreams, with any number of requests and operations of the
    policy. -/
def surface (targets : Dict τ) (ttl : Time) (policies : PolicyWorld S V)
    (actors : List ListingActor) : Config ListingInput (ListingWorld S V τ) (ListingReply V) :=
  { world := { catalog := { targets := targets, ttl := ttl }, policies := policies, trail := [] }
    threads := actors.map fun actor => some actor.program }

end

end ToolsList

end ToolGateway
