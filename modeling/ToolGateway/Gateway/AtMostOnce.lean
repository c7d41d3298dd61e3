/-
  ToolGateway.Gateway.AtMostOnce

  Safety of the approval: an approved ticket is executed at most once, and
  everybody who gets past its verdict acts on the one that was recorded.
-/

import ToolGateway.Gateway.Runs

namespace ToolGateway

open Coroutine Py

/-- The entry of a thread that starts the pipeline on ticket `t`. -/
def startsOn (t : TicketId) : ℕ × Mark → Bool
  | (_, .started t' _) => t' == t
  | _ => false

/-- The entry of a verdict the store recorded on ticket `t`. -/
def decidesOn (t : TicketId) : ℕ × Mark → Bool
  | (_, .decided t' _) => t' == t
  | _ => false

section
variable {s : Settings} {t : TicketId} {trail : TrailOf Mark}

theorem started_at_most_once (h : Legal (Allowed s) trail) : trail.countP (startsOn t) ≤ 1 := by
  refine h.count_le_one (startsOn t) ?_
  rintro ⟨i, m⟩ before hallowed hlegal hp ⟨j, m'⟩ hmem
  by_contra hne
  have hp' : startsOn t (j, m') = true := by simpa using hne
  cases m with
  | started t₁ a =>
      cases m' with
      | started t₂ a' =>
          obtain rfl : t₁ = t := by simpa [startsOn] using hp
          obtain rfl : t₂ = t₁ := by simpa [startsOn] using hp'
          -- both hold the claim, so it is one thread, and it starts the pipeline once
          obtain ⟨-, howner, honce, -⟩ := hallowed
          have hj := claimant_of_started hlegal hmem
          rw [howner] at hj
          cases hj
          exact honce a' hmem
      | _ => cases hp'
  | _ => cases hp

theorem decided_at_most_once (h : Legal (Allowed s) trail) : trail.countP (decidesOn t) ≤ 1 := by
  refine h.count_le_one (decidesOn t) ?_
  rintro ⟨i, m⟩ before hallowed hlegal hp ⟨j, m'⟩ hmem
  by_contra hne
  have hp' : decidesOn t (j, m') = true := by simpa using hne
  cases m with
  | decided t₁ d =>
      cases m' with
      | decided t₂ d' =>
          obtain rfl : t₁ = t := by simpa [decidesOn] using hp
          obtain rfl : t₂ = t₁ := by simpa [decidesOn] using hp'
          -- the second verdict would have found the first one
          obtain ⟨-, c, hc, hpending⟩ := hallowed
          obtain ⟨c', hc', hdecision, hd'⟩ := cell_of_decided hlegal hmem
          rw [hc] at hc'
          cases hc'
          rw [hdecision] at hpending
          exact hd' hpending
      | _ => cases hp'
  | _ => cases hp

end

section
variable {σ : Type} [TicketStore σ] [LawfulTicketStore σ]

/-- In every run the pipeline is started at most once for a ticket, only while its
    recorded verdict is an approval; and a ticket that is claimed or has a result
    is an approved one. -/
theorem executed_once_and_approved (s : Settings) (actors : List Actor) (es : List (Event Input))
    (t : TicketId) :
    (worldAfter σ s actors es).trail.countP (startsOn t) ≤ 1 ∧
    (∀ e i arguments, (worldAfter σ s actors (es ++ [e])).trail =
        (i, .started t arguments) :: (worldAfter σ s actors es).trail →
      ∃ ticket, TicketStore.get (worldAfter σ s actors es).tickets t = some ticket ∧
        ticket.decision.status = .approved) ∧
    ∀ c, LawfulTicketStore.cell (worldAfter σ s actors es).tickets t = some c →
      c.claimedAt.isSome ∨ c.result.isSome → c.decision.status = .approved := by
  refine ⟨started_at_most_once run_legal, fun e i arguments hstep => ?_, fun c hc hused => ?_⟩
  · have hlegal : Legal (Allowed s) (worldAfter σ s actors (es ++ [e])).trail := run_legal
    rw [hstep] at hlegal
    obtain ⟨⟨c, hc, happroved, -⟩, -⟩ := hlegal.1
    refine ⟨c.ticket, ?_, Decision.status_of_approved happroved⟩
    rw [run_get, hc, Option.map_some]
  · rw [run_cell] at hc
    have hsound := sound_of_cell run_legal hc
    exact Decision.status_of_approved (hsound.approved (hused.elim id hsound.claimed))

/-- In every run one verdict at most is recorded on a ticket, and only that changes
    what was pending; whoever gets past the verdict check does so with the
    recorded one, and executes what it lets through or is told the denial. -/
theorem verdict_agreement (s : Settings) (actors : List Actor) (es : List (Event Input))
    (t : TicketId) :
    (worldAfter σ s actors es).trail.countP (decidesOn t) ≤ 1 ∧
    (∀ es' ticket, TicketStore.get (worldAfter σ s actors es).tickets t = some ticket →
      ∃ ticket', TicketStore.get (worldAfter σ s actors (es ++ es')).tickets t = some ticket' ∧
        (ticket'.decision = ticket.decision ∨ ticket.decision.status = .pending ∧
          ∃ i, (i, .decided t ticket'.decision) ∈ (worldAfter σ s actors (es ++ es')).trail)) ∧
    (∀ i d, (i, .acted t d) ∈ (worldAfter σ s actors es).trail →
      ∃ ticket, TicketStore.get (worldAfter σ s actors es).tickets t = some ticket ∧
        ticket.decision = d ∧ d.status ≠ .pending) ∧
    (∀ i arguments, (i, .started t arguments) ∈ (worldAfter σ s actors es).trail →
      ∃ ticket, TicketStore.get (worldAfter σ s actors es).tickets t = some ticket ∧
        (i, .acted t ticket.decision) ∈ (worldAfter σ s actors es).trail ∧
        ticket.decision.status = .approved ∧
        arguments = ticket.decision.effective ticket.call.arguments) ∧
    ∀ i d actor reply, actors[i]? = some actor → toldAfter σ s actors es i = some reply →
      (i, .acted t d) ∈ (worldAfter σ s actors es).trail → d.approved = false →
        reply = actor.tells (.error (.gateway (.approvalDenied d))) := by
  refine ⟨decided_at_most_once run_legal, fun es' ticket hget => ?_, fun i d hacted => ?_,
    fun i arguments hstarted => ?_, fun i d actor reply hactor htold hacted hno => ?_⟩
  · rw [run_get, Option.map_eq_some_iff] at hget
    obtain ⟨c, hc, rfl⟩ := hget
    obtain ⟨new, hgrows⟩ := run_grows σ s actors es es'
    have hlegal : Legal (Allowed s) (new ++ (worldAfter σ s actors es).trail) := hgrows ▸ run_legal
    obtain ⟨c', hc', hev⟩ := cellOf_append hlegal hc
    refine ⟨c'.ticket, by rw [run_get, hgrows, hc', Option.map_some], ?_⟩
    by_cases hpending : c.decision.status = .pending
    · rcases decided_between hlegal hc hc' with hsame | ⟨i, hmem⟩
      · exact Or.inl hsame
      · exact Or.inr ⟨hpending, i, hgrows ▸ List.mem_append_left _ hmem⟩
    · exact Or.inl (hev.decision hpending)
  · obtain ⟨c, hc, hdecision, hd⟩ := cell_of_acted run_legal hacted
    exact ⟨c.ticket, by rw [run_get, hc, Option.map_some], hdecision, hd⟩
  · obtain ⟨c, hc, hargs⟩ := cell_of_started run_legal hstarted
    obtain ⟨happroved, hacted⟩ :=
      acted_of_claimant run_legal (claimant_of_started run_legal hstarted) hc
    exact ⟨c.ticket, by rw [run_get, hc, Option.map_some], hacted,
      Decision.status_of_approved happroved, hargs⟩
  · have hown := mem_own.mpr hacted
    obtain ⟨r, t', hreply, hserved⟩ := (run_ends hactor htold).served hown
    rw [hreply, (hserved.acted hown).1 hno]

end

end ToolGateway
