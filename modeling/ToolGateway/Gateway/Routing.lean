/-
  ToolGateway.Gateway.Routing

  Where the tools of a catalog are called: a name is made of an upstream's id and a
  tool's name, and split at its first dot when it comes back.  Followed from the
  edge through the gateway, also when another thread runs the call from its ticket,
  to the upstream's request.
-/

import ToolGateway.Gateway.Edge
import ToolGateway.Gateway.Tracks

namespace ToolGateway

open Coroutine Py

-- ============================================================================
-- From the gateway to the upstream
-- ============================================================================

/-- An operator's verdict leaves alone whose tool is called. -/
theorem Decision.verdictOn_keeps {d : Decision} {call call' : ToolCall} {note : Option String}
    (h : d.verdictOn call = .ok (call', note)) :
    call' = { call with arguments := call'.arguments } := by
  rw [Decision.verdictOn] at h
  by_cases happroved : d.approved
  · rw [if_pos happroved] at h
    by_cases hedits : d.edits call.arguments
    · rw [if_pos hedits] at h
      cases hchanged : changedFields call.arguments d.editedArguments with
      | ok changed =>
          rw [hchanged] at h
          cases h
          rfl
      | error e =>
          rw [hchanged] at h
          cases h
    · rw [if_neg hedits] at h
      cases h
      rfl
  · rw [if_neg happroved] at h
    cases h

/-- What is handed on is the call the policy was asked about, but for its arguments. -/
theorem Handed.consulted {marks : List Mark} {call' : ToolCall} {note : Option String}
    (h : Handed marks call' note) : ∃ call grant, .consulted call grant ∈ marks ∧
      call' = { call with arguments := call'.arguments } := by
  cases h with
  | ungated _ grant hconsulted hunacted => exact ⟨call', grant, hconsulted, rfl⟩
  | gated call _ _ grant t d hconsulted hacted hverdict =>
      exact ⟨call, grant, hconsulted, Decision.verdictOn_keeps hverdict⟩

/-- Thread `k` runs the call of thread `i`: its own, or from the ticket that `i` filed. -/
def RunsFor (trail : TrailOf Mark) (i k : ℕ) : Prop :=
  k = i ∨ ∃ t call arguments, (i, .created t call) ∈ trail ∧ (k, .started t arguments) ∈ trail

section
variable {σ : Type} [TicketStore σ] [LawfulTicketStore σ] {s : Settings} {actors : List Actor}
  {es : List (Event Input)} {i k : ℕ} {c : ToolCall} {canBlock : Bool}

/-- Every run is one of provenance, whatever the services answer. -/
theorem provenance_legal :
    Legal (provenance σ (fun _ => True) actors).guard (worldAfter σ s actors es).trail :=
  (provenance_run σ s actors fun _ _ _ => trivial).1

/-- A caller has its own call authorized. -/
theorem consulted_of_call (hactor : actors[i]? = some (.call c canBlock)) {call : ToolCall}
    {grant : Grant} (hmem : (i, .consulted call grant) ∈ (worldAfter σ s actors es).trail) :
    call = c := by
  obtain ⟨before, -, ⟨canBlock', hcall⟩ | ⟨t, ticket, hresume | ⟨agentId, hcheck⟩, -⟩⟩ :=
    traced_of_mem provenance_legal hactor hmem
  · cases hcall
    rfl
  · cases hresume
  · cases hcheck

/-- A caller files its own call. -/
theorem created_of_call (hactor : actors[i]? = some (.call c canBlock)) {t : TicketId}
    {call : ToolCall} (hmem : (i, .created t call) ∈ (worldAfter σ s actors es).trail) :
    call = c := by
  obtain ⟨before, -, ⟨canBlock', hcall⟩, -⟩ := traced_of_mem provenance_legal hactor hmem
  cases hcall
  rfl

/-- Whoever runs a ticket asked the policy about the call it was filed for. -/
theorem consulted_of_started {t : TicketId} {arguments : Json} {call : ToolCall}
    (hcreated : (i, .created t call) ∈ (worldAfter σ s actors es).trail)
    (hstarted : (k, .started t arguments) ∈ (worldAfter σ s actors es).trail) :
    ∃ grant, (k, .consulted call grant) ∈ (worldAfter σ s actors es).trail := by
  have hlegal : Legal (Allowed s) (worldAfter σ s actors es).trail := run_legal
  obtain ⟨cell, hcell, hcall⟩ := cell_of_created hlegal hcreated
  obtain ⟨-, hacted⟩ := acted_of_claimant hlegal (claimant_of_started hlegal hstarted) hcell
  rw [← hcall]
  exact consulted_of_acted hlegal hacted hcell

/-- Whatever is sent upstream for a caller is its call, but for the arguments. -/
theorem dispatched_for_call (hactor : actors[i]? = some (.call c canBlock))
    (hruns : RunsFor (worldAfter σ s actors es).trail i k) {call : ToolCall}
    (hmem : (k, .dispatched call) ∈ (worldAfter σ s actors es).trail) :
    call = { c with arguments := call.arguments } := by
  obtain ⟨actor, hactorₖ⟩ := actor_of_mem provenance_legal hmem
  obtain ⟨before, hbefore, call', note, refs, hhanded, -, hcall⟩ :=
    traced_of_mem provenance_legal hactorₖ hmem
  obtain ⟨asked, grant, hasked, hcall'⟩ := hhanded.consulted
  have hmem' := hbefore _ hasked
  have hc : asked = c := by
    rcases hruns with rfl | ⟨t, filed, arguments, hcreated, hstarted⟩
    · exact consulted_of_call hactor hmem'
    · obtain ⟨grant', hfiled⟩ := consulted_of_started hcreated hstarted
      rw [(consulted_unique run_legal hmem' hfiled).1]
      exact created_of_call hactor hcreated
  subst hc
  rw [hcall, hcall']

end

-- ============================================================================
-- From a listed name to the upstream
-- ============================================================================

/-- The name of a tool splits into the upstream and the tool exactly when the upstream's
    id has no dot. -/
theorem partitionDot_spec (upstreamId : String) (tool : UpstreamTool) :
    partitionDot (spec upstreamId tool).name = (upstreamId, tool.name) ↔ '.' ∉ upstreamId.toList := by
  constructor
  · intro h
    have hno := dot_notMem_partitionDot (spec upstreamId tool).name
    rw [h] at hno
    exact hno
  · exact fun h => partitionDot_join h tool.name

theorem dot_mem_spec (upstreamId : String) (tool : UpstreamTool) :
    '.' ∈ (spec upstreamId tool).name.toList := by
  simp [spec, String.toList_append]

/-- Among the entries of a listing that has the tool, one of its name comes first. -/
theorem find_spec {listing : List CatalogEntry} {upstreamId : String} {tool : UpstreamTool}
    (h : spec upstreamId tool ∈ listing) :
    ∃ first, listing.find? (fun entry => entry.name = (spec upstreamId tool).name) = some first := by
  rw [← Option.isSome_iff_exists, List.find?_isSome]
  exact ⟨_, h, by simp⟩

section
variable {τ : Type}

/-- A call carries the annotations of the first published entry of its name. -/
theorem toolCall_annotations {up : McpUpstreams τ} {tools : String → List UpstreamTool}
    {fullName : String} {first : CatalogEntry}
    (h : (up.published tools).find? (fun entry => entry.name = fullName) = some first)
    (requestId agentId : String) (arguments : Fields) :
    first.annotations =
      some (McpEdge.toolCall (up.published tools) requestId agentId fullName arguments).annotations := by
  obtain ⟨upstreamId, -, tool, -, rfl⟩ := McpUpstreams.mem_published.mp (List.mem_of_find?_eq_some h)
  rw [McpEdge.toolCall, h]
  rfl

variable [PrintTables]

/-- The listed name of the tool comes back to it: it is routed to a call of this
    upstream and tool, with the tool's annotations, and in every run of a gateway
    that is the call the policy is asked about and the upstream and tool that every
    request for it is sent to. -/
def RoutesBack (up : McpUpstreams τ) (tools : String → List UpstreamTool) (upstreamId : String)
    (tool : UpstreamTool) : Prop :=
  ∀ (listing : List CatalogEntry), up.Lists tools listing →
    ∀ (requestId agentId : String) (arguments : Option Fields), ∃ c : ToolCall,
      McpEdge.route listing requestId agentId (spec upstreamId tool).name arguments = .call c ∧
      (c.upstreamId = upstreamId ∧ c.toolName = tool.name ∧
        c.annotations = tool.annotations.getD []) ∧
      ∀ (σ : Type) [TicketStore σ] [LawfulTicketStore σ] (s : Settings) (actors : List Actor)
        (es : List (Event Input)) (i : ℕ), actors[i]? = some (.call c false) →
        (∀ call grant, (i, .consulted call grant) ∈ (worldAfter σ s actors es).trail → call = c) ∧
        ∀ k call, RunsFor (worldAfter σ s actors es).trail i k →
          (k, .dispatched call) ∈ (worldAfter σ s actors es).trail →
          ∃ request, up.callTool call = .ok request ∧
            up.targets.lookup upstreamId = some request.target ∧ request.toolName = tool.name

/-- A listed name comes back to its tool exactly when the upstream's id has no dot, the
    name is not the edge's own, and the first entry of that name has the tool's
    annotations. -/
theorem listed_name_routes_back_iff {up : McpUpstreams τ} {tools : String → List UpstreamTool}
    {upstreamId : String} {tool : UpstreamTool} (hcurrent : up.Current tools)
    (hconfigured : upstreamId ∈ Dict.keys up.targets) (hlisted : tool ∈ tools upstreamId) :
    RoutesBack up tools upstreamId tool ↔
      '.' ∉ upstreamId.toList ∧ (spec upstreamId tool).name ≠ McpEdge.CHECK_TOOL ∧
        ∀ first, (up.published tools).find? (fun entry => entry.name = (spec upstreamId tool).name) =
          some first → first.annotations = (spec upstreamId tool).annotations := by
  have hentry : spec upstreamId tool ∈ up.published tools :=
    McpUpstreams.mem_published.mpr ⟨upstreamId, hconfigured, tool, hlisted, rfl⟩
  obtain ⟨first, hfirst⟩ := find_spec hentry
  constructor
  · intro h
    obtain ⟨c, hroute, ⟨hupstream, htool, hannotations⟩, -⟩ :=
      h _ (.all hcurrent) "" "" none
    obtain ⟨hname, -, rfl⟩ := McpEdge.route_eq_call.mp hroute
    refine ⟨?_, hname, fun first' hfirst' => ?_⟩
    · rw [← partitionDot_spec upstreamId tool]
      exact Prod.ext hupstream htool
    · rw [toolCall_annotations hfirst' "" "" [], spec]
      exact congrArg some hannotations
  · rintro ⟨hdot, hname, hannotations⟩ listing hlisting requestId agentId arguments
    rw [hlisting.eq hcurrent]
    have hsplit := (partitionDot_spec upstreamId tool).mpr hdot
    have hfound := toolCall_annotations hfirst requestId agentId (arguments.getD [])
    rw [hannotations first hfirst] at hfound
    have hupstream : (McpEdge.toolCall (up.published tools) requestId agentId
        (spec upstreamId tool).name (arguments.getD [])).upstreamId = upstreamId :=
      congrArg Prod.fst hsplit
    have htool : (McpEdge.toolCall (up.published tools) requestId agentId
        (spec upstreamId tool).name (arguments.getD [])).toolName = tool.name :=
      congrArg Prod.snd hsplit
    refine ⟨_, McpEdge.route_eq_call.mpr ⟨hname, dot_mem_spec upstreamId tool, rfl⟩,
      ⟨hupstream, htool, (Option.some.inj hfound).symm⟩, ?_⟩
    intro σ _ _ s actors es i hactor
    refine ⟨fun call grant hmem => consulted_of_call hactor hmem, fun k call hruns hmem => ?_⟩
    obtain ⟨target, htarget⟩ := McpUpstreams.exists_target hconfigured
    rw [dispatched_for_call hactor hruns hmem]
    refine ⟨⟨target, tool.name, call.arguments, agentId⟩, ?_, htarget, rfl⟩
    rw [McpUpstreams.callTool]
    dsimp only
    rw [hupstream, htarget, htool]
    rfl

end

/-- A transfer tool that declares itself destructive. -/
def wire : UpstreamTool where
  name := "wire"
  inputSchema := .dict []
  annotations := some [("destructiveHint", .bool true)]

/-- A bank and its sandbox. -/
def banks : McpUpstreams String where
  targets := [("bank", "https://bank/mcp"), ("bank.sandbox", "https://sandbox/mcp")]
  ttl := 30000000

/-- Both have the tool. -/
def wires : String → List UpstreamTool := fun _ => [wire]

/-- The bank's own tool comes back to the bank. -/
theorem bank_wire_routes_back : letI := PrintTables.ascii; RoutesBack banks wires "bank" wire :=
  (@listed_name_routes_back_iff String .ascii banks wires "bank" wire (fun h => absurd rfl h)
    (by decide) (by simp [wires])).mpr ⟨by decide, by decide, fun first hfirst => by
      cases hfirst
      rfl⟩

/-- The sandbox's tool does not: its name is routed to the bank, as a tool of the bank's. -/
theorem sandbox_wire_goes_to_the_bank : letI := PrintTables.ascii
    ¬ RoutesBack banks wires "bank.sandbox" wire ∧
      ∃ c, McpEdge.route (banks.published wires) "1" "alice" (spec "bank.sandbox" wire).name none =
          .call c ∧
        c.upstreamId = "bank" ∧ c.toolName = "sandbox.wire" ∧
        ∃ request, banks.callTool c = .ok request ∧ request.target = "https://bank/mcp" := by
  let _ := PrintTables.ascii
  refine ⟨fun h => ?_, ?_⟩
  · obtain ⟨c, hroute, ⟨hupstream, -⟩, -⟩ :=
      h _ (.all fun hlisted => absurd rfl hlisted) "1" "alice" none
    obtain ⟨-, -, rfl⟩ := McpEdge.route_eq_call.mp hroute
    revert hupstream
    decide
  · refine ⟨_, McpEdge.route_eq_call.mpr ⟨by decide, by decide, rfl⟩, by decide, by decide, ?_⟩
    exact ⟨_, rfl, rfl⟩

end ToolGateway
