/-
  ToolGateway.Gateway.Deadlines

  Nothing is timed out early.  A verdict that is a timeout is recorded by a thread
  that has waited for `approval_timeout`, and a claim is closed a lease after it was
  taken: between the two steps the readings of the clock are that far apart.
-/

import ToolGateway.Gateway.OneOutcome
import ToolGateway.Gateway.Timeline

namespace ToolGateway

open Coroutine Py

section
variable {σ : Type} [TicketStore σ] [LawfulTicketStore σ] {s : Settings} {actors : List Actor}
  {i : ℕ} {es : List (Event Input)}

-- ============================================================================
-- Timeouts
-- ============================================================================

/-- In every run, a timeout is recorded by the thread that filed the ticket, and this
    has read the clock twice since it filed it, the timeout apart. -/
theorem timeout_not_early {t : TicketId} {d : Decision}
    (h : (i, .decided t d) ∈ (worldAfter σ s actors es).trail) (htimeout : d.status = .timeout) :
    ∃ es₁ first es₂ second es₃ call, es = es₁ ++ .step i first :: es₂ ++ .step i second :: es₃ ∧
      (i, .created t call) ∈ (worldAfter σ s actors es₁).trail ∧
      first.now + s.gate.timeout ≤ second.now ∧
      ∀ j d', (j, .decided t d') ∉
        (worldAfter σ s actors (es₁ ++ .step i first :: es₂ ++ [.step i second])).trail := by
  obtain ⟨es', input, later, deeds, rfl, hnew, hdeeds, -, hearned⟩ := made_of_mem h
  -- the verdict is still open when it is recorded
  have hlegal : Legal (Allowed s) ((i, .decided t d) :: (worldAfter σ s actors es').trail) :=
    hnew ▸ run_legal
  obtain ⟨⟨-, c, hc, hpending⟩, hbefore⟩ := hlegal
  have hopen : ∀ j d', (j, .decided t d') ∉ (worldAfter σ s actors es').trail := by
    intro j d' hmem
    obtain ⟨c', hc', hdecision, hd'⟩ := cell_of_decided hbefore hmem
    rw [hc] at hc'
    cases hc'
    exact hd' (hdecision ▸ hpending)
  rcases hearned with ⟨-, happroved | hrejected⟩ | ⟨-, hwaited | ⟨ticket, hread, rfl⟩⟩
  · rw [htimeout] at happroved
    cases happroved
  · rw [htimeout] at hrejected
    cases hrejected
  · obtain ⟨es₁, first, es₂, second, es₃, call, rfl, hcreated, hover⟩ := hdeeds.waitedOut hwaited
    refine ⟨es₁, first, es₂, second, es₃ ++ .step i input :: later, call, by simp, hcreated, hover,
      fun j d' hmem => hopen j d' ?_⟩
    have hthen := mem_trail_append hmem es₃
    rwa [List.append_assoc, List.singleton_append] at hthen
  · -- nobody reads a timeout on a ticket that is still open
    obtain ⟨c₀, c', rfl, hc', hev⟩ := cell_of_read hbefore (hdeeds.marked hread)
    rw [hc] at hc'
    cases hc'
    have hdecided : c₀.decision.status ≠ .pending := by
      rw [show c₀.decision.status = _ from htimeout]
      nofun
    rw [hev.decision hdecided] at hpending
    exact absurd hpending hdecided

end

/-- An agent that waits for a verdict on what it asked for. -/
def waiters : List Actor :=
  [.setPolicy fun _ => .ok (some { approvalMode := .interactive }), .call pullRequest true]

/-- It files its ticket, starts to wait, and looks again when the time is over. -/
def nobodyAnswers : List (Event Input) :=
  goes 0 1 {} ++ goes 1 6 { uuid := "1" } ++ goes 1 4 { now := plain.gate.timeout }

/-- The waiter records that its time is up. -/
def timesOut : ℕ × Mark → Bool
  | (1, .decided t d) => t == "tkt-1" && decide (d.status = .timeout)
  | _ => false

/-- The agent that nobody answers has waited. -/
theorem timeout_not_early_unanswered :
    ∃ es₁ first es₂ second es₃,
      nobodyAnswers = es₁ ++ .step 1 first :: es₂ ++ .step 1 second :: es₃ ∧
        first.now + plain.gate.timeout ≤ second.now := by
  have hany : (worldAfter MemoryTicketStore plain waiters nobodyAnswers).trail.any timesOut
      = true := by
    decide +kernel
  obtain ⟨⟨i, m⟩, hmem, hm⟩ := List.any_eq_true.mp hany
  unfold timesOut at hm
  split at hm
  · next t d heq =>
      cases heq
      obtain ⟨-, htimeout⟩ := Bool.and_eq_true_iff.mp hm
      obtain ⟨es₁, first, es₂, second, es₃, -, hes, -, hover, -⟩ :=
        timeout_not_early hmem (of_decide_eq_true htimeout)
      exact ⟨es₁, first, es₂, second, es₃, hes, hover⟩
  · cases hm

-- ============================================================================
-- Leases
-- ============================================================================

section
variable {σ : Type} [TicketStore σ] [LawfulTicketStore σ] {s : Settings} {actors : List Actor}
  {i : ℕ} {es : List (Event Input)}

/-- A claim was taken at the time that is kept with it. -/
theorem claimed_of_claimedAt {trail : TrailOf Mark} (h : Legal (Allowed s) trail) {t : TicketId}
    {c : Cell} (hc : cellOf t trail = some c) {taken : Time} (htaken : c.claimedAt = some taken) :
    ∃ j, (j, .claimed t taken) ∈ trail := by
  induction trail generalizing c with
  | nil => cases hc
  | cons e trail ih =>
      obtain ⟨k, m⟩ := e
      have hearlier : ∀ c₀, cellOf t trail = some c₀ → c₀.claimedAt = some taken →
          ∃ j, (j, .claimed t taken) ∈ (k, m) :: trail := by
        intro c₀ hc₀ hat
        obtain ⟨j, hj⟩ := ih h.2 hc₀ hat
        exact ⟨j, List.mem_cons_of_mem _ hj⟩
      cases hold : cellOf t trail with
      | some c₀ =>
          rw [cellOf_cons, hold] at hc
          rcases Mark.apply_cases h.1 hold with heq | ⟨d, -, -, heq⟩ | ⟨now, rfl, -, -, heq⟩ |
            ⟨outcome, -, heq⟩ | ⟨ownerLive, -, -, -, heq⟩
          · rw [heq] at hc
            cases hc
            exact hearlier _ hold htaken
          · rw [heq] at hc
            cases hc
            exact hearlier _ hold htaken
          · rw [heq] at hc
            cases hc
            cases htaken
            exact ⟨k, List.mem_cons_self⟩
          · rw [heq] at hc
            cases hc
            exact hearlier _ hold htaken
          · rw [heq] at hc
            cases hc
            exact hearlier _ hold htaken
      | none =>
          rw [cellOf_cons, hold] at hc
          cases m with
          | created t' call =>
              by_cases ht : t' = t
              · simp only [Mark.apply, ht, if_true, Option.some.injEq] at hc
                subst hc
                cases htaken
              · simp [Mark.apply, ht] at hc
          | _ => simp [Mark.apply] at hc

/-- In every run, a claim is closed a lease after it was taken, at the readings of the
    clock of these two steps, and only if the ticket has no result. -/
theorem lease_not_early {t : TicketId} {ownerLive : Bool}
    (h : (i, .closed t ownerLive) ∈ (worldAfter σ s actors es).trail) :
    ∃ es₁ first es₂ second es₃ j, es = es₁ ++ .step j first :: es₂ ++ .step i second :: es₃ ∧
      (worldAfter σ s actors (es₁ ++ [.step j first])).trail =
        (j, .claimed t first.now) :: (worldAfter σ s actors es₁).trail ∧
      (worldAfter σ s actors (es₁ ++ .step j first :: es₂ ++ [.step i second])).trail =
        (i, .closed t ownerLive) ::
          (worldAfter σ s actors (es₁ ++ .step j first :: es₂)).trail ∧
      storedAfter σ s actors (es₁ ++ .step j first :: es₂) t = none ∧
      s.gate.lease ≤ second.now - first.now := by
  obtain ⟨es', second, es₃, -, rfl, hnew, -, -, c, taken, hc, htaken, hlease⟩ := made_of_mem h
  rw [run_cell] at hc
  obtain ⟨j, hclaimed⟩ := claimed_of_claimedAt run_legal hc htaken
  obtain ⟨es₁, first, es₂, -, rfl, hfirst, -, -, rfl⟩ := made_of_mem hclaimed
  have hlegal : Legal (Allowed s) ((i, .closed t ownerLive) ::
      (worldAfter σ s actors (es₁ ++ .step j first :: es₂)).trail) := hnew ▸ run_legal
  have hopen : storedAfter σ s actors (es₁ ++ .step j first :: es₂) t = none := by
    obtain ⟨c', hc', -, hresult⟩ := hlegal.1
    rw [storedAfter, run_get, hc']
    exact hresult
  exact ⟨es₁, first, es₂, second, es₃, j, by simp, hfirst, hnew, hopen, hlease⟩

end

/-- The resumer closes the claim. -/
def closesClaim : ℕ × Mark → Bool
  | (4, .closed _ _) => true
  | _ => false

/-- The claim of the executor that died is closed when its lease is over. -/
theorem lease_not_early_crashed :
    ∃ es₁ first es₂ second es₃ j,
      crashed = es₁ ++ .step j first :: es₂ ++ .step 4 second :: es₃ ∧
        plain.gate.lease ≤ second.now - first.now := by
  have hany : (worldAfter MemoryTicketStore plain pollers crashed).trail.any closesClaim = true := by
    decide +kernel
  obtain ⟨⟨i, m⟩, hmem, hm⟩ := List.any_eq_true.mp hany
  unfold closesClaim at hm
  split at hm
  · next t ownerLive heq =>
      cases heq
      obtain ⟨es₁, first, es₂, second, es₃, j, hes, -, -, -, hlease⟩ := lease_not_early hmem
      exact ⟨es₁, first, es₂, second, es₃, j, hes, hlease⟩
  · cases hm

end ToolGateway
