/-
  ToolGateway.Gateway.Outage

  One upstream's outage and the calls to another.  `tools/call` looks the tool's
  annotations up in the catalog before the gateway sees the call, and a catalog of
  `McpUpstreams` that has expired is listed anew, all upstreams or none: an upstream that
  cannot list its tools fails the listing loudly instead of disappearing from it.

  So the outage is not seen while the cached listing lasts; after that it ends every
  `tools/call`, whichever upstream it names, until all list their tools again.  What is
  dispatched goes to the upstream of the call alone.
-/

import ToolGateway.Gateway.Edge
import ToolGateway.Tickets.Memory

namespace ToolGateway

open Coroutine Py

namespace McpUpstreams

section
variable {τ : Type} [PrintTables]

-- ============================================================================
-- Upstreams that fail
-- ============================================================================

/-- Some upstreams fail to list their tools, each with the text of what that raises; the
    others list what they have. -/
def answering (tools : String → List UpstreamTool) (failing : String → Option String) :
    ListTools := fun upstreamId =>
  match failing upstreamId with
  | some text => .error text
  | none => .ok (tools upstreamId)

/-- What `tools_for` raises for an upstream. -/
def notListed (upstreamId text : String) : GatewayError :=
  .upstreamUnavailable
    ("upstream " ++ strRepr upstreamId ++ " did not list its tools: " ++ text) (some text)

/-- `tools_for` as the catalog of the edge. -/
def catalog (up : McpUpstreams τ) (answers : ListTools) (now done : Time) : ToolCatalog := fun _ =>
  (up.toolsFor answers now done).2.mapError Exc.gateway

/-- `call_tool` as the upstream of the gateway, with what the servers answer. -/
def serve (up : McpUpstreams τ) (server : String → UpstreamRequest τ → Answer) (call : ToolCall) :
    Answer :=
  match up.callTool call with
  | .error e => .raised e.typeName e.str
  | .ok request => server call.upstreamId request

variable {up : McpUpstreams τ} {tools : String → List UpstreamTool}
variable {failing : String → Option String} {now done : Time}

/-- With none of the configured upstreams failing everything is listed. -/
theorem listAll_healthy (h : ∀ id ∈ Dict.keys up.targets, failing id = none) :
    listAll (answering tools failing) (Dict.keys up.targets) = .ok (up.published tools) := by
  refine listAll_of_all fun id hid => ?_
  rw [answering, h id hid]

/-- The first upstream that fails ends the listing, whatever the others have. -/
theorem listAll_failing {before after : List String} {id text : String}
    (hbefore : ∀ b ∈ before, failing b = none) (h : failing id = some text) :
    listAll (answering tools failing) (before ++ id :: after) = .error (notListed id text) := by
  induction before with
  | nil =>
      show listAll _ (id :: after) = _
      have hanswer : answering tools failing id = .error text := by rw [answering, h]
      rw [listAll, hanswer]
      rfl
  | cons b before ih =>
      have hanswer : answering tools failing b = .ok (tools b) := by
        rw [answering, hbefore b List.mem_cons_self]
      have hrest := ih fun b' hb' => hbefore b' (List.mem_cons_of_mem b hb')
      show listAll _ (b :: (before ++ id :: after)) = _
      rw [listAll, hanswer, hrest]
      rfl

/-- A listing that has not expired is returned without asking anyone. -/
theorem toolsFor_fresh (answers : ListTools) (h : up.fresh now = true) :
    up.toolsFor answers now done = (up, .ok up.listing) := by
  rw [toolsFor, if_pos h]

theorem toolsFor_healthy (h : up.fresh now = false)
    (hall : ∀ id ∈ Dict.keys up.targets, failing id = none) :
    (up.toolsFor (answering tools failing) now done).2 = .ok (up.published tools) := by
  rw [toolsFor, if_neg (by rw [h]; exact Bool.false_ne_true), listAll_healthy hall]

theorem toolsFor_failing {before after : List String} {id text : String}
    (hkeys : Dict.keys up.targets = before ++ id :: after) (h : up.fresh now = false)
    (hbefore : ∀ b ∈ before, failing b = none) (hid : failing id = some text) :
    up.toolsFor (answering tools failing) now done = (up, .error (notListed id text)) := by
  rw [toolsFor, if_neg (by rw [h]; exact Bool.false_ne_true), hkeys, listAll_failing hbefore hid]

/-- While no listing is due or no upstream fails, the catalog is what it would be with all
    upstreams healthy. -/
theorem catalog_healthy
    (h : up.fresh now = true ∨ ∀ id ∈ Dict.keys up.targets, failing id = none) :
    ∃ listing, ∀ agentId,
      up.catalog (answering tools failing) now done agentId = .ok listing ∧
        up.catalog (answering tools fun _ => none) now done agentId = .ok listing := by
  by_cases hfresh : up.fresh now = true
  · refine ⟨up.listing, fun agentId => ⟨?_, ?_⟩⟩
    · rw [catalog, toolsFor_fresh _ hfresh]
      rfl
    · rw [catalog, toolsFor_fresh _ hfresh]
      rfl
  · have hall : ∀ id ∈ Dict.keys up.targets, failing id = none := h.resolve_left hfresh
    rw [Bool.not_eq_true] at hfresh
    refine ⟨up.published tools, fun agentId => ⟨?_, ?_⟩⟩
    · rw [catalog, toolsFor_healthy hfresh hall]
      rfl
    · rw [catalog, toolsFor_healthy hfresh fun _ _ => rfl]
      rfl

/-- A call gets its answer from its own upstream. -/
theorem serve_alike {server server' : String → UpstreamRequest τ → Answer} {call : ToolCall}
    (h : ∀ request, server call.upstreamId request = server' call.upstreamId request) :
    up.serve server call = up.serve server' call := by
  rw [serve, serve]
  cases up.callTool call with
  | error e => rfl
  | ok request => exact h request

end

end McpUpstreams

-- ============================================================================
-- Calls to the others
-- ============================================================================

namespace McpEdge

open McpUpstreams

/-- What a `tools/call` naming a tool of an upstream that is up comes to while others fail
    to list their tools.

    Before the cached listing expires, or with all configured upstreams up, it is handed to
    the gateway as the call it would be with all upstreams healthy, and what the gateway
    dispatches is answered as it would be.  With the listing expired and a configured
    upstream failing it is not: the request fails with what the catalog raises for the
    first upstream that fails, nothing is handed to the gateway and the cached listing
    stays as it was. -/
theorem callTool_under_outage {τ σ : Type} [PrintTables] [TicketStore σ] (s : Settings)
    (steps : List (ExtraStep σ)) (up : McpUpstreams τ) (tools : String → List UpstreamTool)
    (failing : String → Option String) (now done : Time) (requestId agentId name : String)
    (arguments : Option Fields) (hcheck : name ≠ CHECK_TOOL) (hdot : '.' ∈ name.toList)
    (hup : failing (partitionDot name).1 = none) :
    ((up.fresh now = true ∨ ∀ id ∈ Dict.keys up.targets, failing id = none) → ∃ listing,
      callTool s steps (up.catalog (answering tools failing) now done) requestId agentId name
          arguments =
        handOver s steps (toolCall listing requestId agentId name (arguments.getD [])) ∧
      callTool s steps (up.catalog (answering tools fun _ => none) now done) requestId agentId name
          arguments =
        handOver s steps (toolCall listing requestId agentId name (arguments.getD [])) ∧
      ∀ (server server' : String → UpstreamRequest τ → Answer),
        (∀ id request, failing id = none → server id request = server' id request) →
        ∀ dispatched : Json,
          let call := { toolCall listing requestId agentId name (arguments.getD []) with
            arguments := dispatched }
          up.serve server call = up.serve server' call) ∧
    (up.fresh now = false → ∀ before id text after,
      Dict.keys up.targets = before ++ id :: after → (∀ b ∈ before, failing b = none) →
      failing id = some text →
        callTool s steps (up.catalog (answering tools failing) now done) requestId agentId name
            arguments = throw (.gateway (notListed id text)) ∧
        (up.toolsFor (answering tools failing) now done).1 = up) := by
  refine ⟨fun h => ?_, fun hexpired before id text after hkeys hbefore hid => ⟨?_, ?_⟩⟩
  · have hcatalog : ∃ listing, ∀ agentId,
        up.catalog (answering tools failing) now done agentId = .ok listing ∧
          up.catalog (answering tools fun _ => none) now done agentId = .ok listing :=
      catalog_healthy h
    obtain ⟨listing, hlisting⟩ := hcatalog
    have hroute : route listing requestId agentId name arguments =
        .call (toolCall listing requestId agentId name (arguments.getD [])) :=
      route_eq_call.mpr ⟨hcheck, hdot, rfl⟩
    refine ⟨listing, callTool_of_route s steps (hlisting agentId).1 hroute,
      callTool_of_route s steps (hlisting agentId).2 hroute,
      fun server server' hsame dispatched => ?_⟩
    exact serve_alike fun request => hsame _ request hup
  · have hcatalog : up.catalog (answering tools failing) now done agentId =
        .error (.gateway (notListed id text)) := by
      rw [catalog, toolsFor_failing hkeys hexpired hbefore hid]
      rfl
    rw [callTool, if_neg hcheck, call, if_neg (not_not.mpr hdot), hcatalog]
  · rw [toolsFor_failing hkeys hexpired hbefore hid]

/-- A bank and a CRM, neither listed yet. -/
def bankAndCrm : McpUpstreams String where
  targets := [("bank", "https://bank/mcp"), ("crm", "https://crm/mcp")]
  ttl := 30000000

/-- Each has one tool. -/
def balances : String → List UpstreamTool := fun _ => [{ name := "balance", inputSchema := .dict [] }]

/-- The CRM is down. -/
def crmDown : String → Option String := fun id =>
  if id = "crm" then some "connection refused" else none

/-- A gateway that asks nobody. -/
def unguarded : Settings where
  checkArgs := fun _ _ => .ok []
  redact := fun r _ => .ok r
  limited := false
  gate := { timeout := 0, lease := 0, notifies := false, rechecks := 0 }

/-- The bank's tool a second after a listing that counts for thirty, while the CRM is
    down. -/
theorem callTool_under_outage_cached : letI := PrintTables.ascii
    let up := { bankAndCrm with listing := bankAndCrm.published balances, listedAt := some 0 }
    let steps : List (ExtraStep MemoryTicketStore) := []
    ∃ listing, callTool unguarded steps (up.catalog (answering balances crmDown) 1000000 1000000)
        "1" "alice" "bank.balance" none =
      handOver unguarded steps (toolCall listing "1" "alice" "bank.balance" []) := by
  let tables : PrintTables := PrintTables.ascii
  let up := { bankAndCrm with listing := bankAndCrm.published balances, listedAt := some 0 }
  let steps : List (ExtraStep MemoryTicketStore) := []
  obtain ⟨hcached, -⟩ := callTool_under_outage unguarded steps up balances crmDown 1000000 1000000
    "1" "alice" "bank.balance" none (by decide) (by decide) (by decide)
  obtain ⟨listing, hcall, -⟩ := hcached (Or.inl (by decide))
  exact ⟨listing, hcall⟩

/-- With the CRM down and no listing, a call of the bank's tool fails before the gateway
    sees it; with the CRM up it is authorized and dispatched. -/
theorem outage_stops_a_call_elsewhere : letI := PrintTables.ascii
    let request (failing : String → Option String) : Co Input (World MemoryTicketStore) _ :=
      (callTool unguarded [] (bankAndCrm.catalog (answering balances failing) 0 0) "1" "alice"
        "bank.balance" none).exec ()
    let events := List.replicate 9 (Event.step 0 {})
    let world : World MemoryTicketStore :=
      { World.fresh MemoryTicketStore with grants := fun _ => .ok (some { approvalMode := .auto }) }
    crmDown "bank" = none ∧
    request crmDown = .ret (.error (.gateway (notListed "crm" "connection refused")), ()) ∧
    ((Config.mk world [some (request fun _ => none)]).run events).outcome 0 =
      some (.ok (toolResult { content := .null }), ()) ∧
    ((Config.mk world [some (request fun _ => none)]).run events).world.trail[2]? =
      some (0, .dispatched ⟨"1", "alice", "bank", "balance", .dict [], []⟩) := by
  let tables : PrintTables := PrintTables.ascii
  exact ⟨rfl, rfl, rfl, rfl⟩

end McpEdge

end ToolGateway
