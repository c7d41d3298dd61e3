/-
  ToolGateway.Gateway.ToolsListed

  Where the answers to `tools/list` come from.  A listing is made by one request, which
  asks every upstream once and in order; it is handed to the requests that find it in
  the cache while it is not too old.  The policy is asked about each entry anew, at a
  moment of its own, and one listing may be seen through several policies.

  What the catalog did is read off its trail; what the policy was at each moment is
  read off the worlds a request's own steps found.
-/

import ToolGateway.Coroutine.Paths
import ToolGateway.Gateway.ToolsList

namespace ToolGateway

open Coroutine Policy Py

namespace ToolsList

-- ============================================================================
-- Rounds
-- ============================================================================

/-- What the upstreams listed when one request asked them, in the order it did. -/
abbrev Round := List (String × List UpstreamTool)

/-- The listing made of a round. -/
def listingOf (round : Round) : List CatalogEntry :=
  round.flatMap fun answer => answer.2.map (spec answer.1)

/-- The marks a round leaves on the trail. -/
def marksOf (round : Round) : List ListingMark :=
  (round.map fun answer => ListingMark.answered answer.1 answer.2).reverse

theorem listingOf_snoc (round : Round) (upstreamId : String) (tools : List UpstreamTool) :
    listingOf (round ++ [(upstreamId, tools)]) = listingOf round ++ tools.map (spec upstreamId) := by
  simp [listingOf]

theorem marksOf_snoc (round : Round) (upstreamId : String) (tools : List UpstreamTool) :
    marksOf (round ++ [(upstreamId, tools)]) = .answered upstreamId tools :: marksOf round := by
  simp [marksOf]

theorem not_kept_mem_marksOf {round : Round} {listing : List CatalogEntry} {stamp : Time} :
    ListingMark.kept listing stamp ∉ marksOf round := by
  simp [marksOf]

/-- Who kept a listing last, and when. -/
def newest : TrailOf ListingMark → Option (ℕ × List CatalogEntry × Time)
  | [] => none
  | (i, m) :: trail =>
      match m with
      | .kept listing stamp => some (i, listing, stamp)
      | _ => newest trail

theorem kept_of_newest {trail : TrailOf ListingMark} {k : ℕ} {listing : List CatalogEntry}
    {stamp : Time} (h : newest trail = some (k, listing, stamp)) :
    (k, .kept listing stamp) ∈ trail := by
  induction trail with
  | nil => cases h
  | cons e trail ih =>
      obtain ⟨i, m⟩ := e
      cases m with
      | kept listing' stamp' =>
          cases h
          exact List.mem_cons_self
      | _ => exact List.mem_cons_of_mem _ (ih h)

-- ============================================================================
-- Sifting
-- ============================================================================

/-- The entries that go through, each with what stands beside it. -/
def sifted {β : Type} (shown : CatalogEntry → β → Bool) (specs : List CatalogEntry) (bs : List β) :
    List CatalogEntry :=
  ((specs.zip bs).filter fun e => shown e.1 e.2).map Prod.fst

theorem sifted_cons {β : Type} (shown : CatalogEntry → β → Bool) (entry : CatalogEntry)
    (specs : List CatalogEntry) (b : β) (bs : List β) :
    sifted shown (entry :: specs) (b :: bs)
      = if shown entry b then entry :: sifted shown specs bs else sifted shown specs bs := by
  rw [sifted, List.zip_cons_cons, List.filter_cons]
  by_cases h : shown entry b = true
  · rw [if_pos h, if_pos h]
    rfl
  · rw [if_neg h, if_neg h]
    rfl

theorem sifted_congr {β γ : Type} {R : β → γ → Prop} {shown : CatalogEntry → β → Bool}
    {shown' : CatalogEntry → γ → Bool}
    (hshown : ∀ entry b c, R b c → shown entry b = shown' entry c) {bs : List β} {cs : List γ}
    (h : List.Forall₂ R bs cs) (specs : List CatalogEntry) :
    sifted shown specs bs = sifted shown' specs cs := by
  induction h generalizing specs with
  | nil =>
      rw [sifted, sifted, List.zip_nil_right, List.zip_nil_right]
      rfl
  | cons hhead htail ih =>
      cases specs with
      | nil => rfl
      | cons entry specs => rw [sifted_cons, sifted_cons, hshown entry _ _ hhead, ih specs]

-- ============================================================================
-- The discipline
-- ============================================================================

section
variable {S V τ : Type} {targets : Dict τ} {ttl : Time} {i : ℕ} {pre : List ListingMark}

/-- Thread `i` may make this mark after this trail. -/
def Allowed (targets : Dict τ) (ttl : Time) (i : ℕ) :
    ListingMark → TrailOf ListingMark → Prop
  | .kept listing _, trail => ∃ round : Round, Coroutine.own i trail = marksOf round ∧
      round.map Prod.fst = Dict.keys targets ∧ listing = listingOf round
  | .reused listing stamp now, trail =>
      (∃ k, newest trail = some (k, listing, stamp)) ∧ now - stamp ≤ ttl
  | _, _ => True

/-- The cache holds what was kept last. -/
structure Recorded (targets : Dict τ) (ttl : Time) (w : ListingWorld S V τ) : Prop where
  targets : w.catalog.targets = targets
  ttl : w.catalog.ttl = ttl
  listing : ∀ stamp, w.catalog.listedAt = some stamp →
    ∃ k, newest w.trail = some (k, w.catalog.listing, stamp)

variable (S V) in

/-- The rules for the marks of the catalog. -/
def discipline (targets : Dict τ) (ttl : Time) : Discipline (ListingWorld S V τ) ListingMark where
  trail := ListingWorld.trail
  guard := Allowed targets ttl
  agrees := Recorded targets ttl
  strikes _ _ _ := False

theorem newest_cons {i : ℕ} {m : ListingMark} (h : ∀ listing stamp, m ≠ .kept listing stamp)
    (trail : TrailOf ListingMark) : newest ((i, m) :: trail) = newest trail := by
  cases m with
  | kept listing stamp => exact absurd rfl (h listing stamp)
  | _ => rfl

/-- A mark that keeps nothing. -/
theorem Recorded.mark {w : ListingWorld S V τ} (h : Recorded targets ttl w) {i : ℕ}
    {m : ListingMark} (hm : ∀ listing stamp, m ≠ .kept listing stamp) :
    Recorded targets ttl (ToolsList.mark w i m) where
  targets := h.targets
  ttl := h.ttl
  listing stamp hstamp := by
    show ∃ k, newest ((i, m) :: w.trail) = some (k, w.catalog.listing, stamp)
    rw [newest_cons hm]
    exact h.listing stamp hstamp

-- ============================================================================
-- The catalog
-- ============================================================================

theorem lookUp_spec :
    (discipline S V targets ttl).Triple i pre (Co.atomic lookUp) fun looked marks =>
      (∃ listing stamp now, looked = .reused listing ∧ marks = .reused listing stamp now :: pre) ∨
        looked = .stale (Dict.keys targets) ∧ marks = pre := by
  refine Discipline.Triple.mark fun slot w x w' hinv hk hme hb => ?_
  obtain ⟨-, hrec⟩ := hinv
  unfold lookUp at hb
  rw [hrec.targets, hrec.ttl] at hb
  split at hb
  · cases hb
    exact ⟨hrec, Or.inl ⟨rfl, Or.inr ⟨rfl, rfl⟩⟩⟩
  · next stamp hstamp =>
      split at hb
      · cases hb
        exact ⟨hrec, Or.inl ⟨rfl, Or.inr ⟨rfl, rfl⟩⟩⟩
      · next hfresh =>
          cases hb
          have hreused : Allowed targets ttl i
              (.reused w.catalog.listing stamp slot.input.now) w.trail :=
            ⟨hrec.listing stamp hstamp, not_lt.mp hfresh⟩
          refine ⟨hrec.mark nofun, Or.inr ⟨.reused w.catalog.listing stamp slot.input.now, ?_,
            hreused, fun _ hno => hno.elim, Or.inl ⟨_, _, _, rfl, rfl⟩⟩⟩
          show (slot.me, _) :: w.trail = _
          rw [hme]
          rfl

theorem ask_spec (upstreamId : String) :
    (discipline S V targets ttl).Triple i pre (Co.atomic (ask upstreamId)) fun answer marks =>
      (∃ tools, answer = .ok tools ∧ marks = .answered upstreamId tools :: pre) ∨
        ∃ text, answer = .error text ∧ marks = .unanswered upstreamId text :: pre := by
  refine Discipline.Triple.mark fun slot w x w' hinv hk hme hb => ?_
  obtain ⟨-, hrec⟩ := hinv
  unfold ask at hb
  split at hb
  · next tools _ =>
      cases hb
      refine ⟨hrec.mark nofun, Or.inr ⟨.answered upstreamId tools, ?_, trivial,
        fun _ hno => hno.elim, Or.inl ⟨tools, rfl, rfl⟩⟩⟩
      show (slot.me, _) :: w.trail = _
      rw [hme]
      rfl
  · next text _ =>
      cases hb
      refine ⟨hrec.mark nofun, Or.inr ⟨.unanswered upstreamId text, ?_, trivial,
        fun _ hno => hno.elim, Or.inr ⟨text, rfl, rfl⟩⟩⟩
      show (slot.me, _) :: w.trail = _
      rw [hme]
      rfl

/-- Only a complete round is kept. -/
theorem keep_spec {round : Round} (hround : round.map Prod.fst = Dict.keys targets) :
    (discipline S V targets ttl).Triple i (marksOf round) (Co.atomic (keep (listingOf round)))
      fun _ marks => ∃ stamp, marks = .kept (listingOf round) stamp :: marksOf round := by
  refine Discipline.Triple.mark fun slot w x w' hinv hk hme hb => ?_
  obtain ⟨-, hrec⟩ := hinv
  cases hb
  refine ⟨⟨hrec.targets, hrec.ttl, fun stamp hstamp => ?_⟩,
    Or.inr ⟨.kept (listingOf round) slot.input.now, ?_, ⟨round, hk.own, hround, rfl⟩,
      fun _ hno => hno.elim, slot.input.now, rfl⟩⟩
  · cases hstamp
    exact ⟨slot.me, rfl⟩
  · show (slot.me, _) :: w.trail = _
    rw [hme]
    rfl

variable [PrintTables]

/-- How `tools_for` ends: with a listing that was kept, with a complete round of the
    request's own, or at the first upstream that did not answer. -/
inductive Ended (targets : Dict τ) : Except GatewayError (List CatalogEntry) → List ListingMark → Prop where
  | reused (listing : List CatalogEntry) (stamp now : Time) :
      Ended targets (.ok listing) [.reused listing stamp now]
  | gathered (round : Round) (stamp : Time) :
      Ended targets (.ok (listingOf round)) (.kept (listingOf round) stamp :: marksOf round)
  | failed (round : Round) (upstreamId text : String) (h : upstreamId ∈ Dict.keys targets) :
      Ended targets (.error (notListed upstreamId text))
        (.unanswered upstreamId text :: marksOf round)

theorem gather_spec {round : Round} {rest : List String}
    (hround : round.map Prod.fst ++ rest = Dict.keys targets) :
    (discipline S V targets ttl).Triple i (marksOf round) (gather rest (listingOf round))
      (Ended targets) := by
  induction rest generalizing round with
  | nil =>
      rw [List.append_nil] at hround
      refine Discipline.Triple.bind (keep_spec hround) ?_
      rintro _ _ ⟨stamp, rfl⟩
      exact Discipline.Triple.ret (.gathered round stamp)
  | cons upstreamId rest ih =>
      refine Discipline.Triple.bind (ask_spec upstreamId) ?_
      rintro _ _ (⟨tools, rfl, rfl⟩ | ⟨text, rfl, rfl⟩)
      · have hnext : (round ++ [(upstreamId, tools)]).map Prod.fst ++ rest = Dict.keys targets := by
          rw [List.map_append, List.append_assoc]
          exact hround
        have hrest := ih hnext
        rw [listingOf_snoc, marksOf_snoc] at hrest
        exact hrest
      · refine Discipline.Triple.ret (.failed round upstreamId text ?_)
        rw [← hround]
        exact List.mem_append_right _ List.mem_cons_self

theorem toolsFor_spec :
    (discipline S V targets ttl).Triple i [] toolsFor (Ended targets) := by
  refine Discipline.Triple.bind lookUp_spec ?_
  rintro _ _ (⟨listing, stamp, now, rfl, rfl⟩ | ⟨rfl, rfl⟩)
  · exact Discipline.Triple.ret (.reused listing stamp now)
  · have hnone : ([] : Round).map Prod.fst ++ Dict.keys targets = Dict.keys targets := rfl
    exact gather_spec hnone

-- ============================================================================
-- The gateway
-- ============================================================================

omit [PrintTables] in
/-- The policy leaves the catalog alone. -/
theorem onPolicy_spec {α : Type} (co : Co PolicyInput (PolicyWorld S V) α) :
    (discipline S V targets ttl).Triple i pre (onPolicy co) fun _ marks => marks = pre := by
  induction co with
  | ret a => exact Discipline.Triple.ret rfl
  | await block k ih =>
      have hblock : (discipline S V targets ttl).Triple i pre
          (onPolicy (τ := τ) (Co.atomic block)) fun _ marks => marks = pre := by
        refine Discipline.Triple.quiet fun slot w x w' hinv _ _ hb => ?_
        obtain ⟨⟨y, p⟩, -, heq⟩ := Option.map_eq_some_iff.mp hb
        cases heq
        exact ⟨rfl, ⟨hinv.2.targets, hinv.2.ttl, hinv.2.listing⟩, rfl⟩
      refine Discipline.Triple.bind hblock ?_
      rintro x _ rfl
      exact ih x

variable [PolicySource S V]

theorem mayCall_spec (call : ToolCall) :
    (discipline S V targets ttl).Triple i pre (mayCall call) fun _ marks => marks = pre := by
  refine Discipline.Triple.bind (onPolicy_spec _) ?_
  rintro _ _ rfl
  exact Discipline.Triple.ret rfl

theorem sift_spec (agentId : String) (specs : List CatalogEntry) :
    (discipline S V targets ttl).Triple i pre (sift mayCall agentId specs)
      fun _ marks => marks = pre := by
  induction specs with
  | nil => exact Discipline.Triple.ret rfl
  | cons entry rest ih =>
      refine Discipline.Triple.bind (mayCall_spec _) ?_
      rintro _ _ rfl
      refine Discipline.Triple.bind ih ?_
      rintro _ _ rfl
      exact Discipline.Triple.ret rfl

/-- The marks of a finished request are those of its `tools_for`. -/
def Finished (targets : Dict τ) (reply : ListingReply V) (marks : List ListingMark) : Prop :=
  ∀ e, reply = .tools (.error e) → Ended targets (.error e) marks

theorem listTools_spec (agentId : String) :
    (discipline S V targets ttl).Triple i [] (listTools agentId) fun r marks =>
      ∀ e, r = .error e → Ended targets (.error e) marks := by
  refine Discipline.Triple.bind toolsFor_spec fun r marks hended => ?_
  cases r with
  | error e =>
      refine Discipline.Triple.ret fun e' heq => ?_
      cases heq
      exact hended
  | ok specs =>
      refine Discipline.Triple.bind (sift_spec agentId specs) fun visible marks' _ => ?_
      exact Discipline.Triple.ret nofun

omit [PolicySource S V] in
theorem resolve_spec (requestId agentId fullName : String) (arguments : Fields) :
    (discipline S V targets ttl).Triple i [] (resolve requestId agentId fullName arguments)
      fun _ _ => True := by
  unfold resolve
  split
  · exact Discipline.Triple.ret trivial
  · refine Discipline.Triple.bind toolsFor_spec fun r marks _ => ?_
    cases r with
    | error e => exact Discipline.Triple.ret trivial
    | ok listing => exact Discipline.Triple.ret trivial

theorem program_spec (actor : ListingActor) :
    (discipline S V targets ttl).Triple i [] actor.program (Finished targets) := by
  cases actor with
  | list agentId =>
      refine Discipline.Triple.bind (listTools_spec agentId) fun r marks hr => ?_
      refine Discipline.Triple.ret fun e heq => ?_
      cases heq
      exact hr e rfl
  | call requestId agentId fullName arguments =>
      refine Discipline.Triple.bind (resolve_spec requestId agentId fullName arguments) ?_
      exact fun r marks _ => Discipline.Triple.ret nofun
  | policy op =>
      refine Discipline.Triple.bind (onPolicy_spec _) fun r marks _ => ?_
      exact Discipline.Triple.ret nofun

-- ============================================================================
-- A request's own steps
-- ============================================================================

/-- A step of a request, with the worlds before and after it. -/
abbrev ListingDoing (S V τ : Type) := Doing ListingInput (ListingWorld S V τ)

/-- At this step the listing was kept, or taken from the cache. -/
def Obtains (listing : List CatalogEntry) (d : ListingDoing S V τ) : Prop :=
  ∃ stamp, d.after.trail = (d.slot.me, .kept listing stamp) :: d.before.trail ∨
    ∃ now, d.after.trail = (d.slot.me, .reused listing stamp now) :: d.before.trail

/-- In this world the policy in force shows the entry to the agent. -/
def shows (agentId : String) (w : ListingWorld S V τ) (entry : CatalogEntry) : Bool :=
  w.policies.policy.compiled.any fun p => p.mayCall (entry.call "list" agentId (.dict []))

omit [PolicySource S V] in
theorem takes_gather {ids : List String} {listing listing' : List CatalogEntry}
    {ds : List (ListingDoing S V τ)} (h : (gather ids listing).Takes ds (.ok listing')) :
    ∃ d ∈ ds, Obtains listing' d := by
  induction ids generalizing listing ds with
  | nil =>
      obtain ⟨d, _, _, rfl, hkeep, -, hlisting⟩ := h
      cases hlisting
      refine ⟨d, List.mem_cons_self, d.slot.input.now, Or.inl ?_⟩
      have hafter := congrArg Prod.snd (Option.some.inj hkeep)
      exact congrArg ListingWorld.trail hafter.symm
  | cons upstreamId rest ih =>
      obtain ⟨d, ds', answer, rfl, -, hrest⟩ := h
      cases answer with
      | error text => cases hrest.2
      | ok tools =>
          obtain ⟨d', hmem, hd'⟩ := ih hrest
          exact ⟨d', List.mem_cons_of_mem _ hmem, hd'⟩

omit [PolicySource S V] in
theorem takes_toolsFor {listing : List CatalogEntry} {ds : List (ListingDoing S V τ)}
    (h : toolsFor.Takes ds (.ok listing)) : ∃ d ∈ ds, Obtains listing d := by
  obtain ⟨d, ds', looked, rfl, hlook, hrest⟩ := h
  cases looked with
  | stale ids =>
      obtain ⟨d', hmem, hd'⟩ := takes_gather hrest
      exact ⟨d', List.mem_cons_of_mem _ hmem, hd'⟩
  | reused listing' =>
      cases hrest.2
      unfold lookUp at hlook
      split at hlook
      · cases hlook
      · next stamp _ =>
          split at hlook
          · cases hlook
          · simp only [Option.some.injEq, Prod.mk.injEq, Looked.reused.injEq] at hlook
            refine ⟨d, List.mem_cons_self, stamp, Or.inr ⟨d.slot.input.now, ?_⟩⟩
            rw [← hlook.2, ← hlook.1]
            rfl

-- ============================================================================
-- The operation of the catalog
-- ============================================================================

/-- What an upstream answered at this step, if one was asked, is what it answers. -/
structure Answered (answers : ListTools) (d : ListingDoing S V τ) : Prop where
  listed : ∀ upstreamId tools,
    d.after.trail = (d.slot.me, .answered upstreamId tools) :: d.before.trail →
      answers upstreamId = .ok tools
  failed : ∀ upstreamId text,
    d.after.trail = (d.slot.me, .unanswered upstreamId text) :: d.before.trail →
      answers upstreamId = .error text

section
variable {answers : ListTools} {up : McpUpstreams τ} {d : ListingDoing S V τ}
  {ds : List (ListingDoing S V τ)} {r : Except GatewayError (List CatalogEntry)}

omit [PrintTables] [PolicySource S V] in
theorem lookUp_fresh {looked : Looked} (h : lookUp d.slot d.before = some (looked, d.after)) :
    d.after.catalog = d.before.catalog ∧
      ((looked = .reused d.before.catalog.listing ∧
          d.before.catalog.fresh d.slot.input.now = true) ∨
        (looked = .stale (Dict.keys d.before.catalog.targets) ∧
          d.before.catalog.fresh d.slot.input.now = false)) := by
  unfold lookUp at h
  unfold McpUpstreams.fresh
  cases hstamp : d.before.catalog.listedAt with
  | none =>
      rw [hstamp] at h
      obtain ⟨rfl, hafter⟩ := Prod.mk.inj (Option.some.inj h)
      exact ⟨congrArg ListingWorld.catalog hafter.symm, Or.inr ⟨rfl, rfl⟩⟩
  | some stamp =>
      simp only [hstamp] at h
      split at h
      · next hage =>
          obtain ⟨rfl, hafter⟩ := Prod.mk.inj (Option.some.inj h)
          exact ⟨congrArg ListingWorld.catalog hafter.symm,
            Or.inr ⟨rfl, decide_eq_false (not_le.mpr hage)⟩⟩
      · next hage =>
          obtain ⟨rfl, hafter⟩ := Prod.mk.inj (Option.some.inj h)
          rw [← hafter]
          exact ⟨rfl, Or.inl ⟨rfl, decide_eq_true (not_lt.mp hage)⟩⟩

omit [PrintTables] [PolicySource S V] in
theorem ask_answers {upstreamId : String} {answer : Except String (List UpstreamTool)}
    (h : ask upstreamId d.slot d.before = some (answer, d.after)) (ha : Answered answers d) :
    answers upstreamId = answer ∧ d.after.catalog = d.before.catalog := by
  unfold ask at h
  split at h
  · next tools _ =>
      obtain ⟨rfl, hafter⟩ := Prod.mk.inj (Option.some.inj h)
      refine ⟨ha.listed upstreamId tools (congrArg ListingWorld.trail hafter.symm), ?_⟩
      rw [← hafter]
      rfl
  · next text _ =>
      obtain ⟨rfl, hafter⟩ := Prod.mk.inj (Option.some.inj h)
      refine ⟨ha.failed upstreamId text (congrArg ListingWorld.trail hafter.symm), ?_⟩
      rw [← hafter]
      rfl

omit [PolicySource S V] in
/-- The loop asks as `listAll` does; what it ends in is kept if it is a listing. -/
theorem takes_gather_listAll {ids : List String} {listing : List CatalogEntry}
    (h : (gather ids listing).Takes ds r) (ha : ∀ d ∈ ds, Answered answers d)
    (hup : ∀ d ∈ ds, d.before.catalog = up) :
    ∃ last, ds.getLast? = some last ∧
      ((∃ e, McpUpstreams.listAll answers ids = .error e ∧ r = .error e ∧ last.after.catalog = up) ∨
        ∃ more, McpUpstreams.listAll answers ids = .ok more ∧ r = .ok (listing ++ more) ∧
          last.after.catalog =
            { up with listing := listing ++ more, listedAt := some last.slot.input.now }) := by
  induction ids generalizing listing ds with
  | nil =>
      obtain ⟨d, ds', _, rfl, hkeep, hnil, hr⟩ := h
      subst hnil
      obtain ⟨-, hafter⟩ := Prod.mk.inj (Option.some.inj hkeep)
      refine ⟨d, rfl, Or.inr ⟨[], rfl, ?_, ?_⟩⟩
      · rw [List.append_nil, ← hr]
      · rw [List.append_nil, ← hup d List.mem_cons_self, ← hafter]
        rfl
  | cons upstreamId rest ih =>
      obtain ⟨d, ds', answer, rfl, hask, hrest⟩ := h
      obtain ⟨hanswer, hcatalog⟩ := ask_answers hask (ha d List.mem_cons_self)
      rw [McpUpstreams.listAll, hanswer]
      cases answer with
      | error text =>
          obtain ⟨rfl, rfl⟩ := hrest
          exact ⟨d, rfl, Or.inl ⟨_, rfl, rfl, hcatalog.trans (hup d List.mem_cons_self)⟩⟩
      | ok tools =>
          obtain ⟨last, hlast, hend⟩ := ih hrest (fun d' hd' => ha d' (List.mem_cons_of_mem _ hd'))
            fun d' hd' => hup d' (List.mem_cons_of_mem _ hd')
          have hlast' : (d :: ds').getLast? = some last := by
            rw [List.getLast?_cons, hlast]
            rfl
          refine ⟨last, hlast', ?_⟩
          rcases hend with ⟨e, hall, hr, hkept⟩ | ⟨more, hall, hr, hkept⟩
          · exact Or.inl ⟨e, by rw [hall]; rfl, hr, hkept⟩
          · refine Or.inr ⟨tools.map (spec upstreamId) ++ more, by rw [hall]; rfl, ?_, ?_⟩
            · rw [hr, List.append_assoc]
            · rw [hkept, List.append_assoc]

omit [PolicySource S V] in
/-- While nobody else changes the catalog, the steps of a request's `tools_for` make up the
    operation of the catalog, entered at the first of them and through at the last. -/
theorem takes_toolsFor_catalog (h : toolsFor.Takes ds r) (ha : ∀ d ∈ ds, Answered answers d)
    (hup : ∀ d ∈ ds, d.before.catalog = up) :
    ∃ first last, ds.head? = some first ∧ ds.getLast? = some last ∧
      up.toolsFor answers first.slot.input.now last.slot.input.now = (last.after.catalog, r) := by
  obtain ⟨d, ds', looked, rfl, hlook, hrest⟩ := h
  obtain ⟨hcatalog, hlooked⟩ := lookUp_fresh hlook
  rw [hup d List.mem_cons_self] at hcatalog hlooked
  rcases hlooked with ⟨rfl, hfresh⟩ | ⟨rfl, hfresh⟩
  · obtain ⟨rfl, rfl⟩ := hrest
    refine ⟨d, d, rfl, rfl, ?_⟩
    rw [McpUpstreams.toolsFor, if_pos hfresh, hcatalog]
  · obtain ⟨last, hlast, hend⟩ := takes_gather_listAll hrest
      (fun d' hd' => ha d' (List.mem_cons_of_mem _ hd'))
      fun d' hd' => hup d' (List.mem_cons_of_mem _ hd')
    have hlast' : (d :: ds').getLast? = some last := by
      rw [List.getLast?_cons, hlast]
      rfl
    refine ⟨d, last, rfl, hlast', ?_⟩
    rw [McpUpstreams.toolsFor, if_neg (Bool.eq_false_iff.mp hfresh)]
    rcases hend with ⟨e, hall, rfl, hkept⟩ | ⟨listing, hall, rfl, hkept⟩
    · rw [hall, hkept]
    · rw [hall, hkept]
      rfl

end

-- ============================================================================
-- The answers of the policy
-- ============================================================================

/-- `may_call` answers as the policy that is in force at its last step. -/
theorem takes_mayCall {call : ToolCall} {b : Bool} {ds : List (ListingDoing S V τ)}
    (h : (mayCall call).Takes ds b) :
    ∃ ds₁ d, ds = ds₁ ++ [d] ∧
      b = d.before.policies.policy.compiled.any fun p => p.mayCall call := by
  obtain ⟨ds₁, r, ds₂, rfl, hasked, hnil, rfl⟩ := Co.takes_bind.mp h
  rw [onPolicy, DeclarativePolicy.mayCall, Co.under_bind, Co.zoom_bind] at hasked
  obtain ⟨ds₃, _, ds₄, rfl, -, d, _, x, rfl, hdecide, rfl, rfl⟩ := Co.takes_bind.mp hasked
  refine ⟨ds₃, d, by rw [hnil, List.append_nil], ?_⟩
  obtain ⟨⟨y, p⟩, hdecided, heq⟩ := Option.map_eq_some_iff.mp hdecide
  obtain rfl : y = x := congrArg Prod.fst heq
  have hy := congrArg Prod.fst (Option.some.inj hdecided)
  cases hcompiled : d.before.policies.policy.compiled with
  | none =>
      simp only [hcompiled] at hy
      rw [← hy]
      rfl
  | some compiled =>
      simp only [hcompiled] at hy
      rw [← hy]
      rfl

/-- Each entry is decided on at a step of its own, in order. -/
theorem takes_sift {agentId : String} {specs visible : List CatalogEntry}
    {ds : List (ListingDoing S V τ)} (h : (sift mayCall agentId specs).Takes ds visible) :
    ∃ decisions : List (ListingDoing S V τ), decisions.Sublist ds ∧
      decisions.length = specs.length ∧
      visible = sifted (fun entry d => shows agentId d.before entry) specs decisions := by
  induction specs generalizing ds visible with
  | nil =>
      obtain ⟨rfl, rfl⟩ := h
      exact ⟨[], List.nil_sublist _, rfl, rfl⟩
  | cons entry rest ih =>
      obtain ⟨ds₁, allowed, ds₂, rfl, hmay, hrest⟩ := Co.takes_bind.mp h
      obtain ⟨ds₃, visible', ds₄, rfl, hsift, rfl, rfl⟩ := Co.takes_bind.mp hrest
      obtain ⟨before, d, rfl, hallowed⟩ := takes_mayCall hmay
      obtain ⟨decisions, hsub, hlength, rfl⟩ := ih hsift
      refine ⟨d :: decisions, ?_, by rw [List.length_cons, hlength, List.length_cons], ?_⟩
      · rw [List.append_nil, List.append_assoc]
        exact (hsub.cons_cons d).trans (List.sublist_append_right before _)
      · rw [sifted_cons]
        show (if allowed then _ else _) = if shows agentId d.before entry then _ else _
        rw [hallowed]
        rfl

/-- What a request that was answered did: it obtained a listing, and decided on each
    entry. -/
theorem takes_list {agentId : String} {tools : List Tool} {ds : List (ListingDoing S V τ)}
    (h : (ListingActor.list agentId).program.Takes ds (.tools (.ok tools))) :
    ∃ listing decisions, (∃ d ∈ ds, Obtains listing d) ∧ decisions.Sublist ds ∧
      decisions.length = listing.length ∧
      tools = (sifted (fun entry d => shows agentId d.before entry) listing decisions).map tool
        ++ [checkTool] := by
  obtain ⟨ds₁, r, ds₂, rfl, hlist, rfl, hr⟩ := Co.takes_bind.mp h
  cases hr
  obtain ⟨ds₃, found, ds₄, rfl, hfound, hrest⟩ := Co.takes_bind.mp hlist
  cases found with
  | error e => cases hrest.2
  | ok listing =>
      obtain ⟨ds₅, visible, ds₆, rfl, hsift, rfl, hvisible⟩ := Co.takes_bind.mp hrest
      cases hvisible
      obtain ⟨d, hmem, hobtains⟩ := takes_toolsFor hfound
      obtain ⟨decisions, hsub, hlength, rfl⟩ := takes_sift hsift
      refine ⟨listing, decisions, ⟨d, ?_, hobtains⟩, ?_, hlength, rfl⟩
      · exact List.mem_append_left _ (List.mem_append_left _ hmem)
      · rw [List.append_nil, List.append_nil]
        exact hsub.trans (List.sublist_append_right ds₃ ds₅)

/-- The call that was made up is made up from a listing. -/
theorem takes_call {requestId agentId fullName : String} {arguments : Fields} {call : ToolCall}
    {ds : List (ListingDoing S V τ)}
    (h : (ListingActor.call requestId agentId fullName arguments).program.Takes ds
      (.call (.ok call))) :
    ∃ listing, (∃ d ∈ ds, Obtains listing d) ∧
      call = McpEdge.toolCall listing requestId agentId fullName arguments := by
  obtain ⟨ds₁, r, ds₂, rfl, hresolve, rfl, hr⟩ := Co.takes_bind.mp h
  cases hr
  unfold resolve at hresolve
  split at hresolve
  · cases hresolve.2
  · obtain ⟨ds₃, found, ds₄, rfl, hfound, hrest⟩ := Co.takes_bind.mp hresolve
    cases found with
    | error e => cases hrest.2
    | ok listing =>
        obtain ⟨rfl, hcall⟩ := hrest
        cases hcall
        obtain ⟨d, hmem, hobtains⟩ := takes_toolsFor hfound
        refine ⟨listing, ⟨d, ?_, hobtains⟩, rfl⟩
        exact List.mem_append_left _ (List.mem_append_left _ hmem)

end

-- ============================================================================
-- Every run
-- ============================================================================

/-- Thread `k` kept the listing of this round: it had asked every upstream once, in
    order, and these were the answers. -/
def KeptBy {τ : Type} (targets : Dict τ) (k : ℕ) (round : Round) (stamp : Time)
    (trail : TrailOf ListingMark) : Prop :=
  round.map Prod.fst = Dict.keys targets ∧
    ∃ later before, trail = later ++ (k, .kept (listingOf round) stamp) :: before ∧
      Coroutine.own k before = marksOf round

/-- Thread `i` took it from the cache, where nothing newer was, before it was too old. -/
def ReusedBy (ttl : Time) (i k : ℕ) (round : Round) (stamp : Time)
    (trail : TrailOf ListingMark) : Prop :=
  ∃ later before now, trail = later ++ (i, .reused (listingOf round) stamp now) :: before ∧
    newest before = some (k, listingOf round, stamp) ∧ now - stamp ≤ ttl

/-- Where thread `i` has its listing from. -/
def Catalogued {τ : Type} (targets : Dict τ) (ttl : Time) (i : ℕ) (listing : List CatalogEntry)
    (trail : TrailOf ListingMark) : Prop :=
  ∃ k round stamp, listing = listingOf round ∧ KeptBy targets k round stamp trail ∧
    (k = i ∨ ReusedBy ttl i k round stamp trail)

section
variable {S V τ : Type} {targets : Dict τ} {ttl : Time} {i : ℕ} {trail : TrailOf ListingMark}

theorem keptBy_of_legal (h : Legal (Allowed targets ttl) trail) {k : ℕ}
    {listing : List CatalogEntry} {stamp : Time} (hmem : (k, .kept listing stamp) ∈ trail) :
    ∃ round, listing = listingOf round ∧ KeptBy targets k round stamp trail := by
  obtain ⟨later, before, rfl, ⟨round, hown, hround, rfl⟩, -⟩ := h.split hmem
  exact ⟨round, rfl, hround, later, before, rfl, hown⟩

theorem KeptBy.append {k : ℕ} {round : Round} {stamp : Time} (h : KeptBy targets k round stamp trail)
    (new : TrailOf ListingMark) : KeptBy targets k round stamp (new ++ trail) := by
  obtain ⟨hround, later, before, rfl, hown⟩ := h
  exact ⟨hround, new ++ later, before, (List.append_assoc _ _ _).symm, hown⟩

/-- A listing that was kept or reused is one complete round of some request. -/
theorem catalogued_of_legal (h : Legal (Allowed targets ttl) trail) {listing : List CatalogEntry}
    {stamp : Time} (hmem : (i, .kept listing stamp) ∈ trail ∨
      ∃ now, (i, .reused listing stamp now) ∈ trail) : Catalogued targets ttl i listing trail := by
  rcases hmem with hkept | ⟨now, hreused⟩
  · obtain ⟨round, hlisting, hround⟩ := keptBy_of_legal h hkept
    exact ⟨i, round, stamp, hlisting, hround, Or.inl rfl⟩
  · obtain ⟨later, before, rfl, ⟨⟨k, hnewest⟩, hfresh⟩, hbefore⟩ := h.split hreused
    obtain ⟨round, rfl, hround⟩ := keptBy_of_legal hbefore (kept_of_newest hnewest)
    refine ⟨k, round, stamp, rfl, ?_, Or.inr ⟨later, before, now, rfl, hnewest, hfresh⟩⟩
    have happended := hround.append (later ++ [(i, .reused (listingOf round) stamp now)])
    rw [List.append_assoc] at happended
    exact happended

variable [PrintTables] [PolicySource S V] {policies : PolicyWorld S V} {actors : List ListingActor}
  {es : List (Event ListingInput)}

theorem thread_of_actor {actor : ListingActor} (hi : actors[i]? = some actor) :
    (surface targets ttl policies actors).threads[i]? = some (some actor.program) := by
  show (actors.map _)[i]? = _
  rw [List.getElem?_map, hi]
  rfl

theorem surface_spec {co : ListingTask S V τ (ListingReply V)}
    (hco : (surface targets ttl policies actors).threads[i]? = some (some co)) :
    (discipline S V targets ttl).Triple i [] co (Finished targets) := by
  obtain ⟨actor, -, heq⟩ := List.mem_map.mp (List.mem_of_getElem? hco)
  rw [← Option.some.inj heq]
  exact program_spec actor

theorem surface_recorded : Recorded targets ttl (surface targets ttl policies actors).world :=
  ⟨rfl, rfl, fun _ h => nomatch h⟩

theorem surface_run (es : List (Event ListingInput)) :
    Legal (Allowed targets ttl) ((surface targets ttl policies actors).run es).world.trail ∧
      ∀ i reply, ((surface targets ttl policies actors).run es).outcome i = some reply →
        Finished targets reply
          (Coroutine.own i ((surface targets ttl policies actors).run es).world.trail) := by
  obtain ⟨hlegal, -, hfinished⟩ := Discipline.run (D := discipline S V targets ttl)
    (c := surface targets ttl policies actors) surface_recorded rfl
    (fun _ _ hco => surface_spec hco) es
  exact ⟨hlegal, hfinished⟩

/-- What a thread marked at one of its steps is on the trail. -/
theorem mem_trail_of_doing {d : ListingDoing S V τ}
    (hd : d ∈ (surface targets ttl policies actors).doings i es) {m : ListingMark}
    (hm : d.after.trail = (d.slot.me, m) :: d.before.trail) :
    (i, m) ∈ ((surface targets ttl policies actors).run es).world.trail := by
  obtain ⟨n, hdone⟩ := Config.doneAt_of_mem hd
  obtain ⟨new, hnew⟩ := Discipline.run_suffix (D := discipline S V targets ttl)
    (c := surface targets ttl policies actors) surface_recorded rfl
    (fun _ _ hco => surface_spec hco) (es.take (n + 1)) (es.drop (n + 1))
  rw [List.take_append_drop] at hnew
  have hafter : (i, m) ∈ ((surface targets ttl policies actors).run (es.take (n + 1))).world.trail := by
    rw [← hdone.after, hm, hdone.me]
    exact List.mem_cons_self
  rw [show ((surface targets ttl policies actors).run es).world.trail = _ from hnew]
  exact List.mem_append_right new hafter

/-- A listing that a request obtained at one of its steps. -/
theorem catalogued_of_obtains {listing : List CatalogEntry} {d : ListingDoing S V τ}
    (hd : d ∈ (surface targets ttl policies actors).doings i es) (h : Obtains listing d) :
    Catalogued targets ttl i listing ((surface targets ttl policies actors).run es).world.trail := by
  obtain ⟨stamp, hkept | ⟨now, hreused⟩⟩ := h
  · exact catalogued_of_legal (surface_run es).1 (Or.inl (mem_trail_of_doing hd hkept))
  · exact catalogued_of_legal (surface_run es).1 (Or.inr ⟨now, mem_trail_of_doing hd hreused⟩)

omit [PrintTables] [PolicySource S V] in
/-- What the policy in force hides it does not grant, whatever the arguments. -/
theorem neverGranted_of_hidden {agentId : String} {w : ListingWorld S V τ} {entry : CatalogEntry}
    (h : shows agentId w entry = false) {p : Compiled} (hp : w.policies.policy.compiled = some p)
    (requestId : String) : p.NeverGranted (entry.call requestId agentId (.dict [])) := by
  rw [shows, hp] at h
  have hmay : p.mayCall (entry.call requestId agentId (.dict []))
      = p.mayCall (entry.call "list" agentId (.dict [])) := by
    rw [Compiled.mayCall_eq_may, Compiled.mayCall_eq_may]
    rfl
  exact Compiled.neverGranted_of_mayCall_false (hmay.trans h)

/-- The hints a call is judged by are those of one such listing. -/
theorem call_catalogued {requestId agentId fullName : String} {arguments : Fields} {call : ToolCall}
    (hi : actors[i]? = some (.call requestId agentId fullName arguments))
    (hr : ((surface targets ttl policies actors).run es).outcome i = some (.call (.ok call))) :
    ∃ listing, Catalogued targets ttl i listing
        ((surface targets ttl policies actors).run es).world.trail ∧
      call = McpEdge.toolCall listing requestId agentId fullName arguments := by
  obtain ⟨listing, ⟨d, hd, hobtains⟩, hcall⟩ :=
    takes_call (Config.takes_doings (thread_of_actor hi) hr)
  exact ⟨listing, catalogued_of_obtains hd hobtains, hcall⟩

variable (targets ttl policies actors) in
/-- An answer to `tools/list` comes from one listing, in which one request asked every
    upstream once and in order; a request that found it in the cache found nothing newer
    there, and found it not too old.  Each entry is decided on at a moment of the
    request's own, by the policy in force at that moment, and an entry that is left out
    is one that policy grants with no arguments.  A request that is not answered names
    an upstream that did not answer it, and keeps nothing. -/
theorem tools_listed_together (es : List (Event ListingInput)) {agentId : String}
    {r : Except GatewayError (List Tool)} (hi : actors[i]? = some (.list agentId))
    (hr : ((surface targets ttl policies actors).run es).outcome i = some (.tools r)) :
    (∀ tools, r = .ok tools → ∃ (listing : List CatalogEntry) (moments : List ℕ),
      Catalogued targets ttl i listing
        ((surface targets ttl policies actors).run es).world.trail ∧
      moments.length = listing.length ∧ moments.Pairwise (· < ·) ∧
      (∀ n ∈ moments, ∃ input, es[n]? = some (.step i input)) ∧
      tools = (sifted (fun entry n =>
          shows agentId ((surface targets ttl policies actors).run (es.take n)).world entry)
        listing moments).map tool ++ [checkTool] ∧
      ∀ e ∈ listing.zip moments,
        shows agentId ((surface targets ttl policies actors).run (es.take e.2)).world e.1 = false →
          ∀ p, ((surface targets ttl policies actors).run
              (es.take e.2)).world.policies.policy.compiled = some p →
            ∀ requestId, p.NeverGranted (e.1.call requestId agentId (.dict []))) ∧
    (∀ e, r = .error e → ∃ upstreamId text, e = notListed upstreamId text ∧
      upstreamId ∈ Dict.keys targets ∧
      (i, .unanswered upstreamId text)
        ∈ ((surface targets ttl policies actors).run es).world.trail ∧
      ∀ listing stamp, (i, .kept listing stamp)
        ∉ ((surface targets ttl policies actors).run es).world.trail) := by
  constructor
  · rintro tools rfl
    have htakes := Config.takes_doings (thread_of_actor hi) hr
    obtain ⟨listing, decisions, ⟨d, hd, hobtains⟩, hsub, hlength, htools⟩ := takes_list htakes
    obtain ⟨moments, hordered, hdone⟩ := Config.doneAt_of_sublist hsub
    refine ⟨listing, moments, catalogued_of_obtains hd hobtains, ?_, hordered, ?_, ?_, ?_⟩
    · rw [hdone.length_eq, hlength]
    · have hevents := hdone.imp fun n d' hd' =>
        (⟨⟨_, hd'.event⟩, hd'⟩ : (∃ input, es[n]? = some (.step i input)) ∧ _)
      exact ((List.forall₂_and_left _ _).mp hevents).1
    · rw [htools]
      refine congrArg (fun entries => entries.map tool ++ [checkTool])
        (sifted_congr (fun entry n d' hd' => ?_) hdone listing).symm
      rw [hd'.before]
    · intro e _ hhidden p hp requestId
      exact neverGranted_of_hidden hhidden hp requestId
  · rintro e rfl
    have hended := (surface_run es).2 i _ hr e rfl
    generalize hown : Coroutine.own i _ = marks at hended
    cases hended with
    | failed round upstreamId text hmem =>
        refine ⟨upstreamId, text, rfl, hmem, mem_own.mp ?_, fun listing stamp hkept => ?_⟩
        · rw [hown]
          exact List.mem_cons_self
        · have hin := mem_own.mpr hkept
          rw [hown] at hin
          exact (List.mem_cons.mp hin).elim nofun not_kept_mem_marksOf

end

-- ============================================================================
-- A listing through two policies
-- ============================================================================

/-- Alice and Bob list the tools while a policy that denies everything is published. -/
def listers : List ListingActor := [.list "alice", .list "bob", .policy (.publish (.dict []))]

/-- Two servers. -/
def upstreams : Dict Unit := [("files", ()), ("bank", ())]

/-- A policy that grants everything. -/
def permissive : PolicyWorld MemoryPolicySource ℕ :=
  { source := .ofDoc (some (.dict []))
    policy := .inline (.dict []) { rules := [], default := some ⟨.auto, .null⟩, trust := [] } 5 0
    trail := [] }

/-- Alice asks both upstreams and Bob finds what she kept; the policy changes between
    her two entries, and before his. -/
def listed : List (Event ListingInput) :=
  [.step 0 { now := 0 },
    .step 0 { now := 1, answer := .ok [{ name := "read", inputSchema := .null }] },
    .step 0 { now := 2, answer := .ok [{ name := "wire", inputSchema := .null }] },
    .step 0 { now := 3 }, .step 1 { now := 3 }, .step 0 { now := 4 }, .step 0 { now := 4 },
    .step 1 { now := 4 }, .step 2 { now := 4 }, .step 2 { now := 4 }, .step 0 { now := 4 },
    .step 0 { now := 4 }, .step 1 { now := 4 }, .step 1 { now := 4 }, .step 1 { now := 4 }]

section
attribute [local instance] PrintTables.ascii

/-- Bob's listing is Alice's round, of which he is shown nothing. -/
theorem tools_listed_together_bob :
    ∃ round stamp, KeptBy upstreams 0 round stamp
        ((surface upstreams 30 permissive listers).run listed).world.trail ∧
      ReusedBy 30 1 0 round stamp
        ((surface upstreams 30 permissive listers).run listed).world.trail := by
  have hbob : listers[1]? = some (.list "bob") := rfl
  have hshown : ((surface upstreams 30 permissive listers).run listed).outcome 1
      = some (.tools (.ok [checkTool])) := rfl
  obtain ⟨hok, -⟩ := tools_listed_together upstreams 30 permissive listers listed hbob hshown
  obtain ⟨listing, moments, ⟨k, round, stamp, -, hkept, hfrom⟩, -⟩ := hok _ rfl
  have hmem : (k, .kept (listingOf round) stamp)
      ∈ ((surface upstreams 30 permissive listers).run listed).world.trail := by
    obtain ⟨-, later, before, htrail, -⟩ := hkept
    rw [htrail]
    exact List.mem_append_right _ List.mem_cons_self
  have hkeeper : ∀ e ∈ ((surface upstreams 30 permissive listers).run listed).world.trail,
      (∃ kept stamp, e.2 = .kept kept stamp) → e.1 = 0 := by
    rw [show ((surface upstreams 30 permissive listers).run listed).world.trail
      = [(1, .reused _ 3 3), (0, .kept _ 3), (0, .answered "bank" _), (0, .answered "files" _)]
      from rfl]
    simp
  obtain rfl : k = 0 := hkeeper _ hmem ⟨_, _, rfl⟩
  exact ⟨round, stamp, hkept, hfrom.resolve_left Nat.zero_ne_one⟩

end

end ToolsList

end ToolGateway
