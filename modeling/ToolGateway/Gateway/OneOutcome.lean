/-
  ToolGateway.Gateway.OneOutcome

  The outcome kept on a ticket.  Two threads can write it: the executor, and a
  caller that closes the executor's claim as stale.  `complete` does not look at
  what is there, so the two agree only when a claim is closed after its executor
  is gone; then the outcome is written once, and everybody is told that one.
-/

import ToolGateway.Gateway.Adapters
import ToolGateway.Gateway.Runs
import ToolGateway.Tickets.Memory

namespace ToolGateway

open Coroutine Py

/-- No claim on ticket `t` was closed while its executor was still running. -/
def ClosedAfterDeath (t : TicketId) (trail : TrailOf Mark) : Prop :=
  ∀ j, (j, .closed t true) ∉ trail

-- ============================================================================
-- Legal trails
-- ============================================================================

section
variable {s : Settings} {t : TicketId} {i : ℕ} {m : Mark} {trail : TrailOf Mark}

/-- A result comes from the executor, or from closing its claim. -/
theorem result_origin (h : Legal (Allowed s) trail) {c : Cell} {r : ToolResult}
    (hc : cellOf t trail = some c) (hr : c.result = some r) :
    (∃ j outcome, (j, .completed t outcome) ∈ trail ∧ r = storedResult outcome) ∨
      (r = interrupted ∧ ∃ j ownerLive, (j, .closed t ownerLive) ∈ trail) := by
  induction trail generalizing c with
  | nil => cases hc
  | cons e es ih =>
      obtain ⟨j, m⟩ := e
      have hearlier : ∀ {c₀ : Cell}, cellOf t es = some c₀ → c₀.result = some r →
          (∃ j' outcome, (j', .completed t outcome) ∈ (j, m) :: es ∧ r = storedResult outcome) ∨
            (r = interrupted ∧ ∃ j' ownerLive, (j', .closed t ownerLive) ∈ (j, m) :: es) :=
        fun hc₀ hr₀ => (ih h.2 hc₀ hr₀).imp
          (fun ⟨j', outcome, hmem, hval⟩ => ⟨j', outcome, List.mem_cons_of_mem _ hmem, hval⟩)
          fun ⟨hval, j', ownerLive, hmem⟩ => ⟨hval, j', ownerLive, List.mem_cons_of_mem _ hmem⟩
      cases hold : cellOf t es with
      | none =>
          -- only filing makes a ticket, and it has no result
          rw [cellOf_cons, hold] at hc
          cases m with
          | created t' call =>
              by_cases ht : t' = t
              · simp only [Mark.apply, ht, if_true, Option.some.injEq] at hc
                subst hc
                cases hr
              · simp [Mark.apply, ht] at hc
          | _ => simp [Mark.apply] at hc
      | some c₀ =>
          rw [cellOf_cons, hold] at hc
          rcases Mark.apply_cases h.1 hold with hsame | ⟨d, -, -, hd⟩ | ⟨now, -, -, -, hnow⟩ |
            ⟨outcome, rfl, hout⟩ | ⟨ownerLive, rfl, -, -, hclosed⟩
          · rw [hsame] at hc
            cases hc
            exact hearlier hold hr
          · rw [hd] at hc
            cases hc
            exact hearlier hold hr
          · rw [hnow] at hc
            cases hc
            exact hearlier hold hr
          · rw [hout] at hc
            cases hc
            cases hr
            exact Or.inl ⟨j, outcome, List.mem_cons_self, rfl⟩
          · rw [hclosed] at hc
            cases hc
            cases hr
            exact Or.inr ⟨rfl, j, ownerLive, List.mem_cons_self⟩

/-- The executor does not find a result on its ticket, if its claim was not closed
    under it. -/
theorem unfinished_of_completed (h : Legal (Allowed s) trail)
    {outcome : Except GatewayError ToolResult} (hallowed : Allowed s i (.completed t outcome) trail)
    (hclosed : ClosedAfterDeath t trail) {c : Cell} (hc : cellOf t trail = some c) :
    c.result = none := by
  obtain ⟨howner, -, honce, hopen, -⟩ := hallowed
  cases hr : c.result with
  | none => rfl
  | some r =>
      rcases result_origin h hc hr with ⟨j, outcome', hmem, -⟩ | ⟨-, j, ownerLive, hmem⟩
      · have hj := claimant_of_completed h hmem
        rw [howner] at hj
        cases hj
        exact absurd hmem (honce outcome')
      · cases ownerLive with
        | true => exact absurd hmem (hclosed j)
        | false => exact absurd hmem (hopen j)

/-- A result stays as it is. -/
theorem result_kept {new : TrailOf Mark} (h : Legal (Allowed s) (new ++ trail))
    (hclosed : ClosedAfterDeath t (new ++ trail)) {c : Cell} {r : ToolResult}
    (hc : cellOf t trail = some c) (hr : c.result = some r) :
    ∃ c', cellOf t (new ++ trail) = some c' ∧ c'.result = some r := by
  induction new with
  | nil => exact ⟨c, hc, hr⟩
  | cons e es ih =>
      obtain ⟨j, m⟩ := e
      have hrest : ClosedAfterDeath t (es ++ trail) := fun k hk =>
        hclosed k (List.mem_cons_of_mem _ hk)
      obtain ⟨c₁, hc₁, hr₁⟩ := ih h.2 hrest
      rw [List.cons_append, cellOf_cons, hc₁]
      rcases Mark.apply_cases h.1 hc₁ with hsame | ⟨d, -, -, hd⟩ | ⟨now, -, -, hnone, -⟩ |
        ⟨outcome, rfl, -⟩ | ⟨ownerLive, -, -, hnone, -⟩
      · exact ⟨c₁, hsame, hr₁⟩
      · exact ⟨_, hd, hr₁⟩
      · rw [hnone] at hr₁
        cases hr₁
      · rw [unfinished_of_completed h.2 h.1 hrest hc₁] at hr₁
        cases hr₁
      · rw [hnone] at hr₁
        cases hr₁

/-- What an entry shows of the result is what the ticket has in the end. -/
theorem result_of_read (h : Legal (Allowed s) trail) (hclosed : ClosedAfterDeath t trail)
    {ticket : Ticket} {r : ToolResult} (hmem : (i, .read t ticket) ∈ trail)
    (hr : ticket.result = some r) : ∃ c, cellOf t trail = some c ∧ c.result = some r := by
  obtain ⟨later, before, rfl, ⟨c₀, hc₀, rfl⟩, -⟩ := h.split hmem
  exact result_kept h hclosed hc₀ hr

theorem result_of_completed (h : Legal (Allowed s) trail) (hclosed : ClosedAfterDeath t trail)
    {outcome : Except GatewayError ToolResult} (hmem : (i, .completed t outcome) ∈ trail) :
    ∃ c, cellOf t trail = some c ∧ c.result = some (storedResult outcome) := by
  obtain ⟨later, written, rfl, c, hc, hr⟩ := written_of_completed h hmem
  exact result_kept h hclosed hc hr

theorem result_of_closed (h : Legal (Allowed s) trail) (hclosed : ClosedAfterDeath t trail)
    {ownerLive : Bool} (hmem : (i, .closed t ownerLive) ∈ trail) :
    ∃ c, cellOf t trail = some c ∧ c.result = some interrupted := by
  obtain ⟨later, written, rfl, c, hc, hr⟩ := written_of_closed h hmem
  exact result_kept h hclosed hc hr

/-- A caller that is handed a result about a ticket is handed the one on it. -/
theorem Served.handed (h : Legal (Allowed s) trail) (hclosed : ClosedAfterDeath t trail)
    {x : ToolResult} (hserved : Served s t (own i trail) (.ok x)) :
    ∃ c, cellOf t trail = some c ∧ c.result = some x := by
  generalize hmarks : own i trail = marks at hserved
  generalize hr : Except.ok x = r at hserved
  have hmem : ∀ m, m ∈ marks → (i, m) ∈ trail := fun m hm => mem_own.mp (hmarks ▸ hm)
  cases hserved with
  | gated base _ d call grant editNote _ _ _ _ _ _ htried =>
      cases htried with
      | completed now new outcome hended =>
          cases outcome with
          | error e => cases hr
          | ok y =>
              cases hr
              exact result_of_completed h hclosed (hmem _ List.mem_cons_self)
      | stranded => cases hr
      | stored ticket y hresult =>
          cases hr
          exact result_of_read h hclosed (hmem _ List.mem_cons_self) hresult
      | closed m' ownerLive hread =>
          cases hr
          exact result_of_closed h hclosed (hmem _ List.mem_cons_self)
      | pending => cases hr
  | stored _ ticket y _ _ hread hresult =>
      cases hr
      exact result_of_read h hclosed (hmem _ hread) hresult
  | refused => cases hr

/-- Whoever reads the ticket after it got its result reads that. -/
theorem late_read {new : TrailOf Mark} (h : Legal (Allowed s) (new ++ trail))
    (hclosed : ClosedAfterDeath t (new ++ trail)) {c : Cell} {r : ToolResult}
    (hc : cellOf t trail = some c) (hr : c.result = some r) {ticket : Ticket}
    (hmem : (i, .read t ticket) ∈ new) : ticket.result = some r ∧ ticket.call = c.call ∧
      ticket.decision.status = .approved := by
  obtain ⟨later, mid, rfl⟩ := List.append_of_mem hmem
  rw [List.append_assoc, List.cons_append] at h hclosed
  have hread := h.of_append
  obtain ⟨c₀, hc₀, hticket⟩ := hread.1
  have hmid : ClosedAfterDeath t (mid ++ trail) := fun j hj =>
    hclosed j (List.mem_append_right _ (List.mem_cons_of_mem _ hj))
  obtain ⟨c₁, hc₁, hr₁⟩ := result_kept hread.2 hmid hc hr
  obtain ⟨c₂, hc₂, hev⟩ := cellOf_append hread.2 hc
  have hsame : c₁ = c₀ ∧ c₂ = c₀ := by
    rw [hc₀] at hc₁ hc₂
    cases hc₁
    cases hc₂
    exact ⟨rfl, rfl⟩
  obtain ⟨rfl, rfl⟩ := hsame
  have hsound := sound_of_cell hread.2 hc₀
  have happroved := hsound.approved (hsound.claimed (by rw [hr₁]; rfl))
  subst hticket
  exact ⟨hr₁, hev.call, Decision.status_of_approved happroved⟩

theorem late_missed {new : TrailOf Mark} (h : Legal (Allowed s) (new ++ trail)) {c : Cell}
    (hc : cellOf t trail = some c) : (i, .missed t) ∉ new := by
  intro hmem
  obtain ⟨later, mid, rfl⟩ := List.append_of_mem hmem
  rw [List.append_assoc, List.cons_append] at h
  have hmissed := h.of_append
  obtain ⟨c', hc', -⟩ := cellOf_append hmissed.2 hc
  rw [show cellOf t (mid ++ trail) = none from hmissed.1] at hc'
  cases hc'

end

-- ============================================================================
-- Runs
-- ============================================================================

/-- An agent or a client that asks for the outcome of ticket `t`. -/
inductive Actor.Asks (ticket : Option Ticket) (t : TicketId) : Actor → Prop
  | resume : Asks ticket t (.resume t)
  | check (agentId : String) (hown : ∀ k, ticket = some k → k.call.agentId = agentId) :
      Asks ticket t (.check agentId t)

section
variable {σ : Type} [TicketStore σ] [LawfulTicketStore σ]

/-- Whoever asks for an outcome that is there is told it. -/
theorem Actor.Ends.asked {s : Settings} {t : TicketId} {i : ℕ} {new trail : TrailOf Mark}
    {actor : Actor} {reply : Except Exc Reply} {c : Cell} {r : ToolResult}
    (h : Legal (Allowed s) (new ++ trail)) (hclosed : ClosedAfterDeath t (new ++ trail))
    (hc : cellOf t trail = some c) (hr : c.result = some r) (hbefore : own i trail = [])
    (hasks : actor.Asks (some c.ticket) t) (hends : actor.Ends s reply (own i (new ++ trail))) :
    reply = .ok (.result r) := by
  have hown : ∀ m, m ∈ own i (new ++ trail) → (i, m) ∈ new := fun m hm => by
    rcases List.mem_append.mp (mem_own.mp hm) with hmem | hmem
    · exact hmem
    · rw [← mem_own, hbefore] at hmem
      cases hmem
  have hpolled : ∀ {x : Except Exc ToolResult}, Polled t (own i (new ++ trail)) x → x = .ok r := by
    rintro x (hmissed | ⟨ticket, hread, htold⟩)
    · exact absurd (hown _ hmissed) (late_missed h hc)
    · exact htold r (late_read h hclosed hc hr (hown _ hread)).1
  cases hasks with
  | resume =>
      obtain ⟨x, rfl, -, hx⟩ := hends
      rw [hpolled hx]
      rfl
  | check agentId hagent =>
      obtain ⟨-, hmarks | ⟨ticket, hmarks, hother⟩⟩ | ⟨-, ticket, hmarks, hpending⟩ |
        ⟨x, rfl, -, hx⟩ := hends
      · exact absurd (hown _ (hmarks ▸ List.mem_cons_self)) (late_missed h hc)
      · obtain ⟨-, hcall, -⟩ := late_read h hclosed hc hr (hown _ (hmarks ▸ List.mem_cons_self))
        rw [hcall] at hother
        exact absurd (hagent _ rfl) hother
      · obtain ⟨-, -, happroved⟩ :=
          late_read h hclosed hc hr (hown _ (hmarks ▸ List.mem_cons_self))
        rw [happroved] at hpending
        cases hpending
      · rw [hpolled hx]
        rfl

/-- While claims are closed only after their executor is gone, the outcome of a
    ticket is written once: whoever asks later is told it, whoever is handed one
    was handed it, and the executor returns it. -/
theorem outcome_written_once (s : Settings) (actors : List Actor) (es es' : List (Event Input))
    (t : TicketId)
    (hclosed : ClosedAfterDeath t (worldAfter σ s actors (es ++ es')).trail) :
    (∀ r, storedAfter σ s actors es t = some r →
      storedAfter σ s actors (es ++ es') t = some r ∧
      ∀ i actor reply, actors[i]? = some actor →
        actor.Asks (TicketStore.get (worldAfter σ s actors es).tickets t) t →
        own i (worldAfter σ s actors es).trail = [] →
        toldAfter σ s actors (es ++ es') i = some reply → reply = .ok (.result r)) ∧
    (∀ i actor x, actors[i]? = some actor →
      (actor = .resume t ∨ (∃ agentId, actor = .check agentId t) ∨
        ∃ d, (i, .acted t d) ∈ (worldAfter σ s actors (es ++ es')).trail) →
      toldAfter σ s actors (es ++ es') i = some (.ok (.result x)) →
        storedAfter σ s actors (es ++ es') t = some x) ∧
    ∀ i actor outcome reply, actors[i]? = some actor →
      (i, .completed t outcome) ∈ (worldAfter σ s actors (es ++ es')).trail →
      toldAfter σ s actors (es ++ es') i = some reply →
        storedAfter σ s actors (es ++ es') t = some (storedResult outcome) ∧
        reply = actor.tells (handedOn outcome) := by
  obtain ⟨new, hgrows⟩ := run_grows σ s actors es es'
  have hlegal : Legal (Allowed s) (new ++ (worldAfter σ s actors es).trail) := hgrows ▸ run_legal
  have hclosed' : ClosedAfterDeath t (new ++ (worldAfter σ s actors es).trail) := hgrows ▸ hclosed
  refine ⟨fun r hr => ?_, fun i actor x hactor hticket htold => ?_,
    fun i actor outcome reply hactor hcompleted htold => ?_⟩
  · obtain ⟨c, hc, hresult⟩ := run_stored.mp hr
    refine ⟨run_stored.mpr ?_, fun i actor reply hactor hasks hbefore htold => ?_⟩
    · rw [hgrows]
      exact result_kept hlegal hclosed' hc hresult
    · have hends := run_ends hactor htold
      rw [run_get, hc] at hasks
      rw [hgrows] at hends
      exact hends.asked hlegal hclosed' hc hresult hbefore hasks
  · have hends := run_ends hactor htold
    have hserved : Served s t (own i (worldAfter σ s actors (es ++ es')).trail) (.ok x) := by
      rcases hticket with rfl | ⟨agentId, rfl⟩ | ⟨d, hacted⟩
      · obtain ⟨r, hreply, hserved, -⟩ := hends
        have htells : (Actor.resume t).tells r = .ok (.result x) := hreply.symm
        rwa [Actor.tells_result htells] at hserved
      · obtain ⟨hreply, -⟩ | ⟨hreply, -⟩ | ⟨r, hreply, hserved, -⟩ := hends
        · cases hreply
        · cases hreply
        · have htells : (Actor.check agentId t).tells r = .ok (.result x) := hreply.symm
          rwa [Actor.tells_result htells] at hserved
      · obtain ⟨r, t', hreply, hserved⟩ := hends.served (mem_own.mpr hacted)
        have hr := Actor.tells_result hreply.symm
        rw [hr] at hserved
        rwa [(hserved.acted (mem_own.mpr hacted)).2 ⟨x, rfl⟩]
    exact run_stored.mpr (Served.handed run_legal hclosed hserved)
  · have hends := run_ends hactor htold
    refine ⟨run_stored.mpr (result_of_completed run_legal hclosed hcompleted), ?_⟩
    have hown := mem_own.mpr hcompleted
    obtain ⟨r, hreply, ⟨-, hinside⟩ | ⟨t', hexecuted⟩⟩ := hends.executed hown rfl
    · cases hinside
    · rw [hreply, hexecuted.completed hown]

end

-- ============================================================================
-- An executor that outlives its lease
-- ============================================================================

/-- A pull request, filed for approval and approved. -/
def pullRequest : ToolCall :=
  { requestId := "r1", agentId := "agent-1", upstreamId := "github", toolName := "create_pr",
    arguments := .dict [], annotations := [] }

/-- The gateway without secrets. -/
def plain : Settings := @inMemory PrintTables.ascii []

/-- Its policy, the agent, the operator, and three who resume the ticket. -/
def pollers : List Actor :=
  [.setPolicy fun _ => .ok (some { approvalMode := .async }), .call pullRequest false,
    .decide "tkt-1" { status := .approved }, .resume "tkt-1", .resume "tkt-1", .resume "tkt-1"]

/-- The ticket is filed and approved, and actor 3 waits for the upstream. -/
def dispatched : List (Event Input) :=
  goes 0 1 {} ++ goes 1 6 { uuid := "1" } ++ goes 2 4 {} ++ goes 3 9 {}

/-- The gateway of actor 3 dies; actor 4 polls when the lease is over. -/
def crashed : List (Event Input) := dispatched ++ .kill 3 :: goes 4 7 { now := plain.gate.lease }

/-- The closing of a claim whose executor was still running. -/
def closesLive (t : TicketId) : ℕ × Mark → Bool
  | (_, .closed t' true) => t' == t
  | _ => false

theorem closedAfterDeath_of_any {t : TicketId} {trail : TrailOf Mark}
    (h : trail.any (closesLive t) = false) : ClosedAfterDeath t trail := by
  intro j hmem
  have hall := List.any_eq_false.mp h _ hmem
  simp [closesLive] at hall

/-- After a crash, the closed claim is the outcome for everybody. -/
theorem outcome_written_once_after_crash :
    ∃ r, storedAfter MemoryTicketStore plain pollers crashed "tkt-1" = some r ∧
      storedAfter MemoryTicketStore plain pollers (crashed ++ goes 5 3 {}) "tkt-1" = some r ∧
      toldAfter MemoryTicketStore plain pollers (crashed ++ goes 5 3 {}) 5 =
        some (.ok (.result r)) := by
  have hstored : (storedAfter MemoryTicketStore plain pollers crashed "tkt-1").isSome = true := by
    decide +kernel
  have htold :
      (toldAfter MemoryTicketStore plain pollers (crashed ++ goes 5 3 {}) 5).isSome = true := by
    decide +kernel
  have hunbegun :
      (own 5 (worldAfter MemoryTicketStore plain pollers crashed).trail).length = 0 := by
    decide +kernel
  have hclosed : (worldAfter MemoryTicketStore plain pollers (crashed ++ goes 5 3 {})).trail.any
      (closesLive "tkt-1") = false := by
    decide +kernel
  obtain ⟨r, hr⟩ := Option.isSome_iff_exists.mp hstored
  obtain ⟨reply, hreply⟩ := Option.isSome_iff_exists.mp htold
  obtain ⟨hkept, hasked⟩ := (outcome_written_once plain pollers crashed (goes 5 3 {}) "tkt-1"
    (closedAfterDeath_of_any hclosed)).1 r hr
  refine ⟨r, hr, hkept, ?_⟩
  rw [hreply, hasked 5 (.resume "tkt-1") reply rfl .resume (List.eq_nil_of_length_eq_zero hunbegun)
    hreply]

/-- Actor 3 is slow: actor 4 closes its claim and is told INTERRUPTED, then actor 3
    stores the upstream's result over that. -/
theorem outcome_can_change :
    ¬ ∀ (s : Settings) (actors : List Actor) (es es' : List (Event Input)) (t : TicketId)
      (r : ToolResult), storedAfter MemoryTicketStore s actors es t = some r →
        storedAfter MemoryTicketStore s actors (es ++ es') t = some r := by
  intro h
  have hinterrupted : (storedAfter MemoryTicketStore plain pollers
      (dispatched ++ goes 4 7 { now := plain.gate.lease }) "tkt-1").map ToolResult.isError =
        some true := by
    decide +kernel
  have hoverwritten : (storedAfter MemoryTicketStore plain pollers
      (dispatched ++ goes 4 7 { now := plain.gate.lease } ++ goes 3 4 {}) "tkt-1").map
        ToolResult.isError = some false := by
    decide +kernel
  obtain ⟨r, hr, herror⟩ := Option.map_eq_some_iff.mp hinterrupted
  rw [h _ _ _ _ _ r hr, Option.map_some, herror] at hoverwritten
  cases hoverwritten

end ToolGateway
