/-
  ToolGateway.Upstreams.Catalog

  The configured MCP servers as the gateway's catalog and upstream
  (`adapters/mcp_upstreams.py`): every tool is listed as `<upstream_id>.<tool>`
  and a listing is reused for a while.  What a server answers to `list_tools` is a
  parameter; its session is `Upstreams.Session`'s.
-/

import ToolGateway.Policy.Visibility

namespace ToolGateway

open Py

/-- A tool as an upstream lists it; its annotations are dumped without the hints it
    leaves out. -/
structure UpstreamTool where
  name : String
  description : Option String := none
  inputSchema : Json
  annotations : Option Fields := none

/-- An entry of the catalog. -/
structure CatalogEntry extends Policy.ToolSpec where
  description : String
  inputSchema : Json

/-- `_spec` -/
def spec (upstreamId : String) (tool : UpstreamTool) : CatalogEntry where
  name := upstreamId ++ "." ++ tool.name
  annotations := some (tool.annotations.getD [])
  description := tool.description.getD ""
  inputSchema := tool.inputSchema

/-- What the upstreams answer to `list_tools`: their tools, or the text of what the
    request raises. -/
abbrev ListTools := String → Except String (List UpstreamTool)

/-- `targets`: what the client connects to, by upstream id.  A listing that was
    never made is older than any. -/
structure McpUpstreams (τ : Type) where
  targets : Dict τ
  ttl : Time
  listing : List CatalogEntry := []
  listedAt : Option Time := none

/-- What goes over the wire to an upstream. -/
structure UpstreamRequest (τ : Type) where
  target : τ
  toolName : String
  arguments : Json
  /-- `_meta` -/
  agentId : String

namespace McpUpstreams

section
variable {τ : Type} [PrintTables]

/-- Ask one upstream after the other; the first that does not answer ends it. -/
def listAll (answers : ListTools) : List String → Except GatewayError (List CatalogEntry)
  | [] => .ok []
  | upstreamId :: rest =>
      match answers upstreamId with
      | .error text =>
          .error (.upstreamUnavailable
            ("upstream " ++ strRepr upstreamId ++ " did not list its tools: " ++ text) (some text))
      | .ok tools => (listAll answers rest).map (tools.map (spec upstreamId) ++ ·)

/-- The cached listing is not too old at `now`. -/
def fresh (up : McpUpstreams τ) (now : Time) : Bool :=
  match up.listedAt with
  | none => false
  | some listedAt => now - listedAt ≤ up.ttl

/-- `tools_for`, entered at `now` and through at `done`: one listing for every agent. -/
def toolsFor (up : McpUpstreams τ) (answers : ListTools) (now done : Time) :
    McpUpstreams τ × Except GatewayError (List CatalogEntry) :=
  if up.fresh now then (up, .ok up.listing)
  else
    match listAll answers (Dict.keys up.targets) with
    | .error e => (up, .error e)
    | .ok listing => ({ up with listing := listing, listedAt := some done }, .ok listing)

/-- `call_tool`, up to the request it sends. -/
def callTool (up : McpUpstreams τ) (call : ToolCall) : Except GatewayError (UpstreamRequest τ) :=
  match up.targets.lookup call.upstreamId with
  | none =>
      .error (.upstreamUnavailable
        ("no upstream " ++ strRepr call.upstreamId ++ ": add it to tool_gateway.upstreams") none)
  | some target => .ok
      { target := target, toolName := call.toolName, arguments := call.arguments
        agentId := call.agentId }

omit [PrintTables] in
/-- A configured upstream has a target. -/
theorem exists_target {up : McpUpstreams τ} {upstreamId : String}
    (h : upstreamId ∈ Dict.keys up.targets) : ∃ target, up.targets.lookup upstreamId = some target := by
  rw [← Option.isSome_iff_exists, List.lookup_isSome_iff]
  obtain ⟨configured, hmem, rfl⟩ := List.mem_map.mp h
  exact ⟨configured, hmem, beq_self_eq_true _⟩

-- ============================================================================
-- What is published
-- ============================================================================

/-- Every tool that the configured upstreams have, as the catalog names it. -/
def published (up : McpUpstreams τ) (tools : String → List UpstreamTool) : List CatalogEntry :=
  (Dict.keys up.targets).flatMap fun upstreamId => (tools upstreamId).map (spec upstreamId)

omit [PrintTables] in
theorem mem_published {up : McpUpstreams τ} {tools : String → List UpstreamTool}
    {entry : CatalogEntry} :
    entry ∈ up.published tools ↔ ∃ upstreamId ∈ Dict.keys up.targets, ∃ tool ∈ tools upstreamId,
      spec upstreamId tool = entry := by
  simp [published]

theorem listAll_ok {answers : ListTools} {tools : String → List UpstreamTool}
    (hanswers : ∀ upstreamId listed, answers upstreamId = .ok listed → listed = tools upstreamId)
    {ids : List String} {listing : List CatalogEntry} (h : listAll answers ids = .ok listing) :
    listing = ids.flatMap fun upstreamId => (tools upstreamId).map (spec upstreamId) := by
  induction ids generalizing listing with
  | nil =>
      cases h
      rfl
  | cons upstreamId rest ih =>
      rw [listAll] at h
      cases hanswer : answers upstreamId with
      | error text =>
          rw [hanswer] at h
          cases h
      | ok listed =>
          rw [hanswer] at h
          cases hrest : listAll answers rest with
          | error e =>
              rw [hrest] at h
              cases h
          | ok later =>
              rw [hrest] at h
              cases h
              rw [List.flatMap_cons, ← ih hrest, hanswers upstreamId listed hanswer]

/-- The cached listing is what the upstreams have, if there is one. -/
def Current (up : McpUpstreams τ) (tools : String → List UpstreamTool) : Prop :=
  up.listedAt ≠ none → up.listing = up.published tools

/-- While the upstreams that answer list the same tools, whatever `tools_for` returns
    is all of them, cached or not. -/
theorem toolsFor_published {up : McpUpstreams τ} {answers : ListTools}
    {tools : String → List UpstreamTool}
    (hanswers : ∀ upstreamId listed, answers upstreamId = .ok listed → listed = tools upstreamId)
    (h : up.Current tools) (now done : Time) :
    (up.toolsFor answers now done).1.Current tools ∧
      ∀ listing, (up.toolsFor answers now done).2 = .ok listing → listing = up.published tools := by
  rw [toolsFor]
  by_cases hfresh : up.fresh now
  · rw [if_pos hfresh]
    refine ⟨h, fun listing hlisting => ?_⟩
    cases hlisting
    refine h fun hnone => ?_
    rw [fresh, hnone] at hfresh
    cases hfresh
  · rw [if_neg hfresh]
    cases hall : listAll answers (Dict.keys up.targets) with
    | error e => exact ⟨h, fun listing hlisting => nomatch hlisting⟩
    | ok listing =>
        have hpublished : listing = up.published tools := listAll_ok hanswers hall
        refine ⟨fun _ => hpublished, fun listing' hlisting => ?_⟩
        cases hlisting
        exact hpublished

theorem listAll_of_all {answers : ListTools} {tools : String → List UpstreamTool}
    {ids : List String} (h : ∀ upstreamId ∈ ids, answers upstreamId = .ok (tools upstreamId)) :
    listAll answers ids = .ok (ids.flatMap fun upstreamId => (tools upstreamId).map (spec upstreamId)) := by
  induction ids with
  | nil => rfl
  | cons upstreamId rest ih =>
      have hrest := ih fun id hid => h id (List.mem_cons_of_mem _ hid)
      rw [listAll, h upstreamId List.mem_cons_self, hrest]
      rfl

/-- What `tools_for` may return while the upstreams have these tools: whichever of them
    fail to answer now and then. -/
def Lists (up : McpUpstreams τ) (tools : String → List UpstreamTool) (listing : List CatalogEntry) :
    Prop :=
  ∃ (answers : ListTools) (now done : Time),
    (∀ upstreamId listed, answers upstreamId = .ok listed → listed = tools upstreamId) ∧
      (up.toolsFor answers now done).2 = .ok listing

theorem Lists.eq {up : McpUpstreams τ} {tools : String → List UpstreamTool}
    {listing : List CatalogEntry} (h : up.Lists tools listing) (hcurrent : up.Current tools) :
    listing = up.published tools := by
  obtain ⟨answers, now, done, hanswers, hlisting⟩ := h
  exact (toolsFor_published hanswers hcurrent now done).2 listing hlisting

/-- With all upstreams up, everything is listed. -/
theorem Lists.all {up : McpUpstreams τ} {tools : String → List UpstreamTool}
    (hcurrent : up.Current tools) : up.Lists tools (up.published tools) := by
  refine ⟨fun upstreamId => .ok (tools upstreamId), 0, 0, fun _ _ h => ?_, ?_⟩
  · cases h
    rfl
  · rw [toolsFor]
    by_cases hfresh : up.fresh 0
    · rw [if_pos hfresh]
      have hlisted : up.listedAt ≠ none := by
        intro hnone
        rw [fresh, hnone] at hfresh
        cases hfresh
      rw [hcurrent hlisted]
    · have hall : listAll (fun upstreamId => .ok (tools upstreamId)) (Dict.keys up.targets) =
          .ok (up.published tools) := listAll_of_all fun _ _ => rfl
      rw [if_neg hfresh, hall]

end

end McpUpstreams

end ToolGateway
