/-
  ToolGateway.Gateway.Agreement

  A call that waits for its approval, and one that returns a handle and is resumed
  after the verdict, come to the same: both carry the verdict out, so they differ
  in the time the upstream took and in nothing else.
-/

import ToolGateway.Gateway.Adapters
import ToolGateway.Gateway.CarryOut
import ToolGateway.Tickets.Sql

namespace ToolGateway

open Coroutine Py

-- ============================================================================
-- One policy
-- ============================================================================

/-- Every step meets these services, and every policy that is set is theirs. -/
structure Steady (v : Services) (actors : List Actor) (es : List (Event Input)) : Prop where
  answers : ∀ i input, .step i input ∈ es → v.Answers input
  policies : ∀ (i : ℕ) (grants : GrantResolver),
    actors[i]? = some (Actor.setPolicy grants) → grants = v.grants

section
variable {σ : Type} {v : Services} {s : Settings} {actors : List Actor} {es : List (Event Input)}
  {trail : TrailOf Mark} {ok : Input → Prop} {i : ℕ} {t : TicketId} {call : ToolCall} {grant : Grant}

theorem Steady.of_append {es' : List (Event Input)} (h : Steady v actors (es ++ es')) :
    Steady v actors es :=
  ⟨fun i input hmem => h.answers i input (List.mem_append_left es' hmem), h.policies⟩

/-- The policy in force is theirs, once there is one. -/
theorem Steady.inForce (hsteady : Steady v actors es)
    (h : Legal (provenance σ ok actors).guard trail) :
    ToolGateway.inForce trail = v.grants ∨ ToolGateway.inForce trail = fun _ => .ok none := by
  induction trail with
  | nil => exact Or.inr rfl
  | cons e trail ih =>
      obtain ⟨j, m⟩ := e
      cases m with
      | policy grants =>
          obtain ⟨actor, hactor, rfl⟩ := h.1
          exact Or.inl (hsteady.policies j grants hactor)
      | _ => exact ih h.2

/-- A policy stays in force. -/
theorem Steady.inForce_append (hsteady : Steady v actors es) {new : TrailOf Mark}
    (h : Legal (provenance σ ok actors).guard (new ++ trail))
    (hset : ToolGateway.inForce trail = v.grants) :
    ToolGateway.inForce (new ++ trail) = v.grants := by
  induction new with
  | nil => exact hset
  | cons e new ih =>
      obtain ⟨j, m⟩ := e
      cases m with
      | policy grants =>
          obtain ⟨actor, hactor, rfl⟩ := h.1
          exact hsteady.policies j grants hactor
      | _ => exact ih h.2

/-- A call that was granted is granted by it, and it is in force from then on. -/
theorem Steady.granted (hsteady : Steady v actors es) (h : Legal (Allowed s) trail)
    (h' : Legal (provenance σ ok actors).guard trail) (hmem : (i, .consulted call grant) ∈ trail) :
    v.grants call = .ok (some grant) ∧ ToolGateway.inForce trail = v.grants := by
  obtain ⟨later, before, rfl, ⟨hgrant, -⟩, -⟩ := h.split hmem
  have hset : ToolGateway.inForce before = v.grants := by
    refine (hsteady.inForce h'.of_append.2).resolve_right fun hnone => ?_
    rw [hnone] at hgrant
    cases hgrant
  rw [hset] at hgrant
  exact ⟨hgrant, hsteady.inForce_append h' hset⟩

/-- While a ticket is there, the policy is in force. -/
theorem Steady.inForce_of_cell (hsteady : Steady v actors es) (h : Legal (Allowed s) trail)
    (h' : Legal (provenance σ ok actors).guard trail) {c : Cell} (hc : cellOf t trail = some c) :
    ToolGateway.inForce trail = v.grants := by
  obtain ⟨j, hcreated⟩ := created_of_cell h hc
  obtain ⟨actor, hactor⟩ := actor_of_mem h' hcreated
  obtain ⟨before, hbefore, -, ⟨grant, hconsulted⟩, -⟩ := traced_of_mem h' hactor hcreated
  exact (hsteady.granted h h' (hbefore _ hconsulted)).2

end

-- ============================================================================
-- The reader of a ticket
-- ============================================================================

section
variable {σ : Type} {v : Services} {s : Settings} {actors : List Actor} {es : List (Event Input)}
  {ok : Input → Prop} {i j : ℕ} {t : TicketId} {c : ToolCall}

/-- A thread does not miss the ticket that it filed. -/
theorem not_missed_of_created {trail : TrailOf Mark}
    (h : Legal (Allowed s) trail) (h' : Legal (provenance σ ok actors).guard trail)
    (hcreated : (i, .created t c) ∈ trail) : (i, .missed t) ∉ trail := by
  obtain ⟨later, before, rfl, -, -⟩ := h.split hcreated
  obtain ⟨actor, -, -, -, hfresh⟩ := h'.of_append.1
  intro hmissed
  rcases List.mem_append.mp hmissed with hin | hin
  · obtain ⟨new, mid, rfl⟩ := List.append_of_mem hin
    rw [List.append_assoc, List.cons_append] at h
    have hthen := h.of_append
    obtain ⟨c', hc', -⟩ :=
      cell_of_created hthen.2 (List.mem_append_right mid (List.mem_cons_self (a := (i, _))))
    rw [show cellOf t _ = none from hthen.1] at hc'
    cases hc'
  · rcases List.mem_cons.mp hin with heq | hin
    · cases heq
    · exact hfresh (mem_own.mpr hin)

/-- Whoever reads a ticket after its verdict reads that. -/
theorem late_verdict {trail new : TrailOf Mark} (h : Legal (Allowed s) (new ++ trail)) {cell : Cell}
    (hc : cellOf t trail = some cell) (hdecided : cell.decision.status ≠ .pending) {ticket : Ticket}
    (hmem : (i, .read t ticket) ∈ new) : ticket.decision = cell.decision := by
  obtain ⟨later, mid, rfl⟩ := List.append_of_mem hmem
  rw [List.append_assoc, List.cons_append] at h
  have hread := h.of_append
  obtain ⟨c₀, hc₀, hticket⟩ := hread.1
  obtain ⟨c₁, hc₁, hev⟩ := cellOf_append hread.2 hc
  rw [hc₀] at hc₁
  cases hc₁
  rw [← hticket]
  exact hev.decision hdecided

/-- The ticket's runner does not find a result on it. -/
theorem SoleRunner.unfinished {trail : TrailOf Mark} (hsole : SoleRunner trail t i)
    (h : Legal (Allowed s) trail) {ticket : Ticket} {later : List Mark}
    (hown : own i trail = later ++ [.read t ticket]) : ticket.result = none := by
  obtain ⟨new, old, rfl, -, hold⟩ := own_split hown
  obtain ⟨⟨c₀, hc₀, hticket⟩, hbefore⟩ := h.of_append
  have hearlier : SoleRunner old t i :=
    ⟨fun j d hm => hsole.acted j d (List.mem_append_right new (List.mem_cons_of_mem _ hm)),
      fun j b hm => hsole.closed j b (List.mem_append_right new (List.mem_cons_of_mem _ hm))⟩
  cases hresult : ticket.result with
  | none => rfl
  | some x =>
      have hfinished : c₀.result.isSome := by
        rw [show c₀.result = ticket.result by rw [← hticket]; rfl, hresult]
        rfl
      obtain ⟨now, hclaimed⟩ :=
        hearlier.claimant hbefore hc₀ ((sound_of_cell hbefore hc₀).claimed hfinished)
      rw [← mem_own, hold] at hclaimed
      cases hclaimed

/-- A thread that has read a ticket is granted its call. -/
theorem Moment.granted {T trail : TrailOf Mark} {pre : List Mark} {ticket : Ticket}
    (hmoment : Moment s T i (.read t ticket :: pre) trail) (h : Legal (Allowed s) T)
    (h' : Legal (provenance σ ok actors).guard T) (hsteady : Steady v actors es)
    (hfiled : (j, .created t c) ∈ T) : inForce trail ticket.call = v.grants c := by
  obtain ⟨hlegal, ⟨new, rfl⟩, hown⟩ := hmoment
  have hread : (i, .read t ticket) ∈ trail := by
    rw [← mem_own, hown]
    exact List.mem_cons_self
  obtain ⟨c₀, cell, hticket, hcell, hev⟩ := cell_of_read hlegal hread
  obtain ⟨k, hcreated⟩ := created_of_cell hlegal hcell
  obtain ⟨-, hcall⟩ := created_unique h (List.mem_append_right new hcreated) hfiled
  have hsame : ticket.call = c := by
    rw [← hcall, hev.call, ← hticket]
    rfl
  rw [hsame, hsteady.inForce_of_cell hlegal h'.of_append hcell]

end

-- ============================================================================
-- The two ways
-- ============================================================================

section
variable (σ : Type) [TicketStore σ] [LawfulTicketStore σ] (v : Services) (s : Settings)
  (actors : List Actor)

/-- Caller `i` filed ticket `t` for the call `c` and waited; an operator gave the verdict
    `d`, nobody else asked for the ticket, and the caller was told `reply`. -/
structure Blocks (es : List (Event Input)) (i : ℕ) (t : TicketId) (c : ToolCall) (d : Decision)
    (reply : Except Exc Reply) : Prop where
  steady : Steady v actors es
  caller : actors[i]? = some (.call c true)
  filed : (i, .created t c) ∈ (worldAfter σ s actors es).trail
  decided : ∃ o, (o, .decided t d) ∈ (worldAfter σ s actors es).trail
  alone : ∀ (j : ℕ) (agentId : String),
    actors[j]? ≠ some (.resume t) ∧ actors[j]? ≠ some (.check agentId t)
  told : toldAfter σ s actors es i = some reply

/-- Caller `j` filed ticket `t` for the call `c` without waiting, and an operator gave the
    verdict `d`.  After that `k`, and nobody else, resumed the ticket, and was told `reply`. -/
structure Resumes (es es' : List (Event Input)) (j k : ℕ) (t : TicketId) (c : ToolCall)
    (d : Decision) (reply : Except Exc Reply) : Prop where
  steady : Steady v actors (es ++ es')
  caller : actors[j]? = some (.call c false)
  filed : (j, .created t c) ∈ (worldAfter σ s actors es).trail
  decided : ∃ o, (o, .decided t d) ∈ (worldAfter σ s actors es).trail
  resumer : actors[k]? = some (.resume t)
  later : own k (worldAfter σ s actors es).trail = []
  alone : ∀ (j : ℕ) (agentId : String),
    (actors[j]? = some (.resume t) → j = k) ∧ actors[j]? ≠ some (.check agentId t)
  told : toldAfter σ s actors (es ++ es') k = some reply

end

section
variable {σ : Type} [TicketStore σ] [LawfulTicketStore σ] {v : Services} {s : Settings}
  {actors : List Actor} {es es' : List (Event Input)} {i j k : ℕ} {t : TicketId} {c : ToolCall}
  {d : Decision} {reply : Except Exc Reply}

theorem Steady.provenance (hsteady : Steady v actors es) :
    Legal (ToolGateway.provenance σ v.Answers actors).guard (worldAfter σ s actors es).trail :=
  (provenance_run σ s actors hsteady.answers).1

/-- A caller files a ticket for its own call. -/
theorem Steady.call_of_created (hsteady : Steady v actors es) {canBlock : Bool} {call : ToolCall}
    (hactor : actors[i]? = some (.call c canBlock))
    (hmem : (i, .created t call) ∈ (worldAfter σ s actors es).trail) : call = c := by
  obtain ⟨before, -, ⟨canBlock', hcall⟩, -⟩ := traced_of_mem hsteady.provenance hactor hmem
  cases hcall
  rfl

/-- Thread `i` carried out the verdict on its ticket, was told the outcome, and left it on
    the ticket. -/
def CarriedOut (v : Services) (s : Settings) (w : World σ) (actor : Actor) (i : ℕ) (t : TicketId)
    (c : ToolCall) (d : Decision) (reply : Except Exc Reply) : Prop :=
  ∃ grant r elapsed ticket, v.grants c = .ok (some grant) ∧
    TicketStore.get w.tickets t = some ticket ∧ ticket.call = c ∧ ticket.decision = d ∧
    reply = actor.tells r ∧
    v.carryOut s c grant d elapsed = ⟨sentBy (own i w.trail), r, ticket.result⟩

/-- The runner of a ticket that got past its verdict. -/
theorem carriedOut_of_acted {actor : Actor} (hsteady : Steady v actors es)
    (hactor : actors[i]? = some actor) {r : Except Exc ToolResult}
    (hsole : SoleRunner (worldAfter σ s actors es).trail t i)
    (hfiled : (j, .created t c) ∈ (worldAfter σ s actors es).trail)
    (hdecided : ∃ o, (o, .decided t d) ∈ (worldAfter σ s actors es).trail)
    {d' : Decision} (hacted : (i, .acted t d') ∈ (worldAfter σ s actors es).trail)
    (htold : toldAfter σ s actors es i = some reply) (hreply : reply = actor.tells r)
    (hdecisive : Decisive s (worldAfter σ s actors es).trail i
      (own i (worldAfter σ s actors es).trail) r) :
    CarriedOut v s (worldAfter σ s actors es) actor i t c d reply := by
  have hlegal : Legal (Allowed s) (worldAfter σ s actors es).trail := run_legal
  have hprovenance := @Steady.provenance σ _ _ v s _ _ hsteady
  obtain ⟨cell, grant, r', elapsed, hcell, hdecision, hconsulted, hreply', hcarried⟩ :=
    carried_out hlegal hprovenance hsole hactor hacted (run_ends hactor htold) hreply hdecisive
  obtain ⟨cell', hcell', hcall⟩ := cell_of_created hlegal hfiled
  rw [hcell] at hcell'
  cases hcell'
  obtain ⟨o, hdecided⟩ := hdecided
  obtain ⟨cell', hcell', hverdict, -⟩ := cell_of_decided hlegal hdecided
  rw [hcell] at hcell'
  cases hcell'
  have hsame : d' = d := by rw [← hdecision, hverdict]
  rw [hcall] at hconsulted hcarried
  refine ⟨grant, r', elapsed, cell.ticket, (hsteady.granted hlegal hprovenance hconsulted).1, ?_,
    hcall, hverdict, hreply', hsame ▸ hcarried⟩
  rw [run_get, hcell, Option.map_some]

/-- The caller that waited. -/
theorem Blocks.carriedOut (h : Blocks σ v s actors es i t c d reply) {grant : Grant}
    (hgrant : v.grants c = .ok (some grant)) (hmode : grant.approvalMode = .interactive) :
    CarriedOut v s (worldAfter σ s actors es) (.call c true) i t c d reply := by
  have hlegal : Legal (Allowed s) (worldAfter σ s actors es).trail := run_legal
  obtain ⟨hprovenance, hdecides⟩ := provenance_run σ s actors h.steady.answers
  obtain ⟨r, hreply, hdecisive, hwaited⟩ := hdecides i reply h.told _ h.caller
  have hsole : SoleRunner (worldAfter σ s actors es).trail t i := by
    refine .of_serves hprovenance fun j actor hactor hserves => ?_
    rcases hserves with rfl | ⟨agentId, rfl⟩ | ⟨call, -, hcreated⟩
    · exact absurd hactor (h.alone j "").1
    · exact absurd hactor (h.alone j agentId).2
    · exact (created_unique hlegal (mem_own.mp hcreated) h.filed).1
  have hacted : ∃ d', (i, .acted t d') ∈ (worldAfter σ s actors es).trail := by
    rcases hwaited t c (mem_own.mpr h.filed) with ⟨d', hacted⟩ | hmissed | ⟨call, hcall⟩ |
      ⟨grant', hconsulted, hasync⟩
    · exact ⟨d', mem_own.mp hacted⟩
    · exact absurd (mem_own.mp hmissed) (not_missed_of_created hlegal hprovenance h.filed)
    · cases hcall
    · -- it consulted the policy about its own call
      obtain ⟨before, hbefore, -, ⟨grant₀, hfiled⟩, -⟩ := traced_of_mem hprovenance h.caller h.filed
      obtain ⟨-, rfl⟩ := consulted_unique hlegal (hbefore _ hfiled) (mem_own.mp hconsulted)
      have hgranted := (h.steady.granted hlegal hprovenance (hbefore _ hfiled)).1
      rw [hgrant] at hgranted
      cases hgranted
      rw [hmode] at hasync
      cases hasync
  obtain ⟨d', hacted⟩ := hacted
  exact carriedOut_of_acted h.steady h.caller hsole h.filed h.decided hacted h.told hreply hdecisive

/-- The caller that came back after the verdict. -/
theorem Resumes.carriedOut (h : Resumes σ v s actors es es' j k t c d reply) {grant : Grant}
    (hgrant : v.grants c = .ok (some grant)) :
    CarriedOut v s (worldAfter σ s actors (es ++ es')) (.resume t) k t c d reply := by
  have hlegal : Legal (Allowed s) (worldAfter σ s actors (es ++ es')).trail := run_legal
  obtain ⟨hprovenance, hdecides⟩ := provenance_run σ s actors h.steady.answers
  obtain ⟨r, hreply, hdecisive, hresumed⟩ := hdecides k reply h.told _ h.resumer
  obtain ⟨new, hgrows⟩ := run_grows σ s actors es es'
  have hearlier : ∀ {e : ℕ × Mark}, e ∈ (worldAfter σ s actors es).trail →
      e ∈ (worldAfter σ s actors (es ++ es')).trail := fun hm => by
    rw [hgrows]
    exact List.mem_append_right new hm
  have hlate : ∀ {m : Mark}, m ∈ own k (worldAfter σ s actors (es ++ es')).trail →
      (k, m) ∈ new := by
    intro m hm
    rw [mem_own, hgrows] at hm
    refine (List.mem_append.mp hm).resolve_right fun hin => ?_
    rw [← mem_own, h.later] at hin
    cases hin
  have hsole : SoleRunner (worldAfter σ s actors (es ++ es')).trail t k := by
    refine .of_serves hprovenance fun i actor hactor hserves => ?_
    rcases hserves with rfl | ⟨agentId, rfl⟩ | ⟨call, rfl, hcreated⟩
    · exact (h.alone i "").1 hactor
    · exact absurd hactor (h.alone i agentId).2
    · obtain ⟨rfl, -⟩ := created_unique hlegal (mem_own.mp hcreated) (hearlier h.filed)
      rw [h.caller] at hactor
      cases hactor
  obtain ⟨o, hdecided⟩ := h.decided
  obtain ⟨cell, hcell, hverdict, hstatus⟩ := cell_of_decided run_legal hdecided
  have hacted : ∃ d', (k, .acted t d') ∈ (worldAfter σ s actors (es ++ es')).trail := by
    have hlegal' := hlegal
    rw [hgrows] at hlegal'
    rcases hresumed with hmissed | ⟨ticket, marks, hmarks, hresult | hpending | hacted |
      ⟨trail, hmoment, hrefused⟩⟩
    · exact absurd (hlate hmissed) (late_missed hlegal' hcell)
    · rw [hsole.unfinished hlegal hmarks] at hresult
      cases hresult
    · have hread := hlate (hmarks ▸ List.mem_append_right marks List.mem_cons_self)
      rw [late_verdict hlegal' hcell (hverdict ▸ hstatus) hread, hverdict] at hpending
      exact absurd hpending hstatus
    · exact ⟨_, mem_own.mp hacted⟩
    · have hgranted := hmoment.granted hlegal hprovenance h.steady (hearlier h.filed)
      exact absurd (hgranted.trans hgrant) (hrefused grant)
  obtain ⟨d', hacted⟩ := hacted
  exact carriedOut_of_acted h.steady h.resumer hsole (hearlier h.filed) ⟨o, hearlier hdecided⟩ hacted
    h.told hreply hdecisive

/-- For every call in interactive mode and every verdict: waiting for it, and coming back
    after it, send the same to the upstream, end with the same result or error, and leave
    the same on the ticket. -/
theorem blocking_agrees_with_resuming {τ : Type} [TicketStore τ] [LawfulTicketStore τ]
    {actors' : List Actor} {es₁ es₂ : List (Event Input)} {t' : TicketId}
    {reply' : Except Exc Reply} {grant : Grant} (hredact : s.RedactsContent)
    (hgrant : v.grants c = .ok (some grant)) (hmode : grant.approvalMode = .interactive)
    (hblocks : Blocks σ v s actors es i t c d reply)
    (hresumes : Resumes τ v s actors' es₁ es₂ j k t' c d reply') :
    sentBy (own i (worldAfter σ s actors es).trail) =
      sentBy (own k (worldAfter τ s actors' (es₁ ++ es₂)).trail) ∧
    (∃ r r' : Except Exc ToolResult, reply = callReply r ∧ reply' = r'.map Reply.result ∧
      SameOutcome r r') ∧
    ∃ ticket ticket', TicketStore.get (worldAfter σ s actors es).tickets t = some ticket ∧
      TicketStore.get (worldAfter τ s actors' (es₁ ++ es₂)).tickets t' = some ticket' ∧
      ticket.call = c ∧ ticket'.call = c ∧ ticket.decision = d ∧ ticket'.decision = d ∧
      SameKept ticket.result ticket'.result := by
  obtain ⟨g, r, elapsed, ticket, hg, hticket, hcall, hdecision, hreply, hcarried⟩ :=
    hblocks.carriedOut hgrant hmode
  obtain ⟨g', r', elapsed', ticket', hg', hticket', hcall', hdecision', hreply', hcarried'⟩ :=
    hresumes.carriedOut hgrant
  rw [hgrant] at hg hg'
  cases hg
  cases hg'
  obtain ⟨hsent, houtcome, hkept⟩ := v.carryOut_same hredact c grant d elapsed elapsed'
  rw [hcarried, hcarried'] at hsent houtcome hkept
  exact ⟨hsent, ⟨r, r', hreply, hreply', houtcome⟩, ticket, ticket', hticket, hticket', hcall,
    hcall', hdecision, hdecision', hkept⟩

end

-- ============================================================================
-- A call that the operator patches
-- ============================================================================

/-- The in-memory redactor does not look at the time. -/
theorem inMemory_redactsContent [PrintTables] (secrets : Dict String) :
    (inMemory secrets).RedactsContent := by
  intro r r' upstreamId hsame
  show SameOutcome (DictSecretResolver.redact secrets r) (DictSecretResolver.redact secrets r')
  unfold DictSecretResolver.redact
  rw [hsame.1]
  split
  · rfl
  · exact hsame

/-- A policy that asks for an approval, and an upstream that echoes the arguments. -/
def echo : Services where
  grants _ := .ok (some { approvalMode := .interactive })
  materialize arguments _ _ := .ok (arguments, [])
  upstream call := .result { content := call.arguments }

/-- A time of day, with the secrets and the upstream of the example. -/
def echoing (now : Time) : Input :=
  { now := now, uuid := "1", materialize := echo.materialize, upstream := echo.upstream }

/-- An approval of other arguments than the call's. -/
def patched : Decision :=
  { status := .approved, approver := "op", editedArguments := .dict [("draft", .bool true)] }

/-- The operator edits the call while approving it. -/
def patches : ℕ × Mark → Bool
  | (2, .decided "tkt-1" ⟨.approved, "op", "", .dict [("draft", .bool true)]⟩) => true
  | _ => false

/-- The call files its ticket. -/
def filesFirst : ℕ × Mark → Bool
  | (1, .created "tkt-1" _) => true
  | _ => false

/-- The policy, the agent, the operator, and the client that comes back. -/
def patching (canBlock : Bool) : List Actor :=
  [.setPolicy echo.grants, .call pullRequest canBlock, .decide "tkt-1" patched] ++
    if canBlock then [] else [.resume "tkt-1"]

/-- The policy, then the call up to its gate, then the operator. -/
def verdictGiven : List (Event Input) :=
  goes 0 1 (echoing 0) ++ goes 1 6 (echoing 0) ++ goes 2 4 (echoing 0)

theorem patching_steady (canBlock : Bool) (i : ℕ) (now : Time) :
    Steady echo (patching canBlock) (verdictGiven ++ goes i 20 (echoing now)) := by
  constructor
  · intro j input hmem
    simp only [verdictGiven, goes, List.mem_append, List.mem_replicate, Event.step.injEq] at hmem
    rcases hmem with ((⟨-, -, rfl⟩ | ⟨-, -, rfl⟩) | ⟨-, -, rfl⟩) | ⟨-, -, rfl⟩ <;> exact ⟨rfl, rfl⟩
  · intro j grants hj
    have hmem := List.mem_of_getElem? hj
    cases canBlock <;> simpa [patching] using hmem

/-- The agent filed its ticket, and the operator patched the call. -/
theorem patching_verdict {σ : Type} [TicketStore σ] [LawfulTicketStore σ] {canBlock : Bool}
    (hfiled : (worldAfter σ plain (patching canBlock) verdictGiven).trail.any filesFirst = true)
    (hpatched : (worldAfter σ plain (patching canBlock) verdictGiven).trail.any patches = true) :
    (1, .created "tkt-1" pullRequest) ∈
        (worldAfter σ plain (patching canBlock) verdictGiven).trail ∧
      ∃ o, (o, .decided "tkt-1" patched) ∈
        (worldAfter σ plain (patching canBlock) verdictGiven).trail := by
  constructor
  · obtain ⟨⟨i, m⟩, hmem, hm⟩ := List.any_eq_true.mp hfiled
    unfold filesFirst at hm
    split at hm
    · next call heq =>
        cases heq
        have hsteady : Steady echo (patching canBlock) verdictGiven :=
          (patching_steady canBlock 0 0).of_append
        have hagent : (patching canBlock)[1]? = some (.call pullRequest canBlock) := rfl
        rwa [hsteady.call_of_created hagent hmem] at hmem
    · cases hm
  · obtain ⟨⟨i, m⟩, hmem, hm⟩ := List.any_eq_true.mp hpatched
    unfold patches at hm
    split at hm
    · next heq =>
        cases heq
        exact ⟨2, hmem⟩
    · cases hm

/-- The agent that waited, in memory, and the client that came back, in the database. -/
theorem blocking_agrees_with_resuming_patched :
    sentBy (own 1 (worldAfter MemoryTicketStore plain (patching true)
        (verdictGiven ++ goes 1 20 (echoing 7))).trail) =
      sentBy (own 3 (worldAfter SqlTicketStore plain (patching false)
        (verdictGiven ++ goes 3 20 (echoing 9))).trail) := by
  have hwaited : (toldAfter MemoryTicketStore plain (patching true)
      (verdictGiven ++ goes 1 20 (echoing 7)) 1).isSome = true := by
    decide +kernel
  have hresumed : (toldAfter SqlTicketStore plain (patching false)
      (verdictGiven ++ goes 3 20 (echoing 9)) 3).isSome = true := by
    decide +kernel
  have hunbegun :
      (own 3 (worldAfter SqlTicketStore plain (patching false) verdictGiven).trail).length = 0 := by
    decide +kernel
  obtain ⟨hfiled, o, hdecided⟩ : _ ∧ _ := @patching_verdict MemoryTicketStore _ _ true
    (by decide +kernel) (by decide +kernel)
  obtain ⟨hfiled', hdecided'⟩ : _ ∧ _ := @patching_verdict SqlTicketStore _ _ false
    (by decide +kernel) (by decide +kernel)
  obtain ⟨reply, hreply⟩ := Option.isSome_iff_exists.mp hwaited
  obtain ⟨reply', hreply'⟩ := Option.isSome_iff_exists.mp hresumed
  obtain ⟨new, hgrows⟩ := run_grows MemoryTicketStore plain (patching true) verdictGiven
    (goes 1 20 (echoing 7))
  have hblocks : Blocks MemoryTicketStore echo plain (patching true)
      (verdictGiven ++ goes 1 20 (echoing 7)) 1 "tkt-1" pullRequest patched reply := by
    refine ⟨patching_steady true 1 7, rfl, ?_, ⟨o, ?_⟩, fun j agentId => ?_, hreply⟩
    · rw [hgrows]
      exact List.mem_append_right new hfiled
    · rw [hgrows]
      exact List.mem_append_right new hdecided
    · constructor <;> intro hj <;> simpa [patching] using List.mem_of_getElem? hj
  have hresumes : Resumes SqlTicketStore echo plain (patching false) verdictGiven
      (goes 3 20 (echoing 9)) 1 3 "tkt-1" pullRequest patched reply' := by
    refine ⟨patching_steady false 3 9, rfl, hfiled', hdecided', rfl,
      List.eq_nil_of_length_eq_zero hunbegun, fun j agentId => ⟨fun hj => ?_, fun hj => ?_⟩, hreply'⟩
    · rcases j with _ | _ | _ | _ | j <;> cases hj
      rfl
    · simpa [patching] using List.mem_of_getElem? hj
  have hredact : plain.RedactsContent := @inMemory_redactsContent PrintTables.ascii []
  exact (blocking_agrees_with_resuming hredact rfl rfl hblocks hresumes).1

end ToolGateway
