/-
  ToolGateway.Gateway.Ledger

  The protocol of the gateway, as rules for its trail.

  `cellOf` reads off a trail what became of a ticket, `inForce` which policy is in
  force.  `Allowed` says which mark a thread may make after a trail: nobody claims
  a ticket without having got past its verdict, nobody starts the pipeline without
  the claim, and so on.  Everything here is about legal trails alone; that the
  gateway's threads only make such trails, whatever the schedule, is shown module
  by module from their code.
-/

import ToolGateway.Gateway.Assembly

namespace ToolGateway

open Coroutine Py

-- ============================================================================
-- What a trail says
-- ============================================================================

/-- What a mark does to the cell of ticket `t`. -/
def Mark.apply (t : TicketId) (m : Mark) (cell : Option Cell) : Option Cell :=
  match m with
  | .created t' call => if t' = t then some (Cell.filed call) else cell
  | .decided t' d => if t' = t then cell.map fun c => (c.decide d).2 else cell
  | .claimed t' now => if t' = t then cell.map fun c => (c.claim now).2 else cell
  | .completed t' outcome => if t' = t then cell.map (Cell.complete (storedResult outcome)) else cell
  | .closed t' _ => if t' = t then cell.map (Cell.complete interrupted) else cell
  | _ => cell

/-- What became of ticket `t`. -/
def cellOf (t : TicketId) : TrailOf Mark → Option Cell
  | [] => none
  | (_, m) :: trail => m.apply t (cellOf t trail)

/-- The policy in force. -/
def inForce : TrailOf Mark → GrantResolver
  | [] => fun _ => .ok none
  | (_, m) :: trail =>
      match m with
      | .policy grants => grants
      | _ => inForce trail

/-- Thread `i` was granted the call by the policy in force after it had read the
    verdict on the ticket. -/
def GrantedAfterVerdict (i : ℕ) (t : TicketId) (d : Decision) (call : ToolCall)
    (trail : TrailOf Mark) : Prop :=
  ∃ grant later before, own i trail = later ++ .consulted call grant :: before ∧
    ∃ ticket, .read t ticket ∈ before ∧ ticket.decision = d

/-- What the pipeline makes of the upstream's answer. -/
def Settings.Yields (s : Settings) : Answer → Except Exc ToolResult → Prop
  | .raised _ text, r =>
      r = .error (.gateway (.upstreamUnavailable ("tool call failed: " ++ text) (some text)))
  | .result x, r => ∃ elapsed editNote upstreamId, r = s.redact (noted x elapsed editNote) upstreamId

-- ============================================================================
-- The rules
-- ============================================================================

/-- Thread `i` may make this mark after this trail. -/
def Allowed (s : Settings) (i : ℕ) : Mark → TrailOf Mark → Prop
  | .policy _, _ => True
  | .consulted call grant, trail =>
      inForce trail call = .ok (some grant) ∧ ∀ call' grant', (i, .consulted call' grant') ∉ trail
  | .created t _, trail => cellOf t trail = none
  | .read t ticket, trail => ∃ c, cellOf t trail = some c ∧ c.ticket = ticket
  | .missed t, trail => cellOf t trail = none
  | .decided t d, trail =>
      d.status ≠ .pending ∧ ∃ c, cellOf t trail = some c ∧ c.decision.status = .pending
  | .refused t, trail => ∀ c, cellOf t trail = some c → c.decision.status ≠ .pending
  | .acted t d, trail =>
      d.status ≠ .pending ∧ ∃ c, cellOf t trail = some c ∧ c.decision = d ∧
        (∃ grant, (i, .consulted c.call grant) ∈ trail) ∧
        ((i, .created t c.call) ∈ trail ∨ GrantedAfterVerdict i t d c.call trail)
  | .claimed t _, trail =>
      ∃ c, cellOf t trail = some c ∧ c.claimedAt = none ∧ c.result = none ∧
        c.decision.approved = true ∧ (i, .acted t c.decision) ∈ trail
  | .started t arguments, trail =>
      (∃ c, cellOf t trail = some c ∧ c.decision.approved = true ∧
        arguments = c.decision.effective c.call.arguments) ∧
      claimant t trail = some i ∧ (∀ arguments', (i, .started t arguments') ∉ trail) ∧
      ∀ arguments' schema, (i, .validated arguments' schema) ∉ trail
  | .validated arguments schema, trail =>
      s.checkArgs arguments schema = .ok [] ∧ ∃ call grant, (i, .consulted call grant) ∈ trail ∧
        schema = grant.inputSchema ∧
        ∀ t d, (i, .acted t d) ∈ trail → arguments = d.effective call.arguments
  | .resolved _, trail | .dispatched _, trail | .returned _, trail =>
      ∃ arguments schema, (i, .validated arguments schema) ∈ trail
  | .answered _, trail =>
      (∃ arguments schema, (i, .validated arguments schema) ∈ trail) ∧
        ∀ t outcome, (i, .completed t outcome) ∉ trail
  | .completed t outcome, trail =>
      claimant t trail = some i ∧ (∃ arguments, (i, .started t arguments) ∈ trail) ∧
        (∀ outcome', (i, .completed t outcome') ∉ trail) ∧ (∀ j, (j, .closed t false) ∉ trail) ∧
        ∀ a, (i, .answered a) ∈ trail → s.Yields a (handedOn outcome)
  | .closed t _, trail =>
      ∃ c, cellOf t trail = some c ∧ c.claimedAt.isSome ∧ c.result = none

/-- The gateway's discipline: the store is what the trail says, and closing the
    claim of a thread that is no longer running tells on that thread. -/
def ledger (σ : Type) [TicketStore σ] [LawfulTicketStore σ] (s : Settings) :
    Discipline (World σ) Mark where
  trail := World.trail
  guard := Allowed s
  agrees w := LawfulTicketStore.cell w.tickets = (cellOf · w.trail) ∧ w.grants = inForce w.trail
  strikes m trail j := ∃ t, m = .closed t false ∧ claimant t trail = some j

-- ============================================================================
-- Legal trails
-- ============================================================================

@[simp] theorem cellOf_nil (t : TicketId) : cellOf t [] = none := rfl

@[simp] theorem cellOf_cons (t : TicketId) (i : ℕ) (m : Mark) (trail : TrailOf Mark) :
    cellOf t ((i, m) :: trail) = m.apply t (cellOf t trail) := rfl

/-- A claim is never passed on. -/
theorem claimant_append {t : TicketId} {trail : TrailOf Mark} {i : ℕ}
    (h : claimant t trail = some i) (new : TrailOf Mark) : claimant t (new ++ trail) = some i := by
  induction new with
  | nil => exact h
  | cons e es ih =>
      obtain ⟨j, m⟩ := e
      simp [claimant, ih]

section
variable {s : Settings} {t : TicketId} {i : ℕ} {m : Mark} {trail : TrailOf Mark}

/-- What an entry can do to a ticket that is there. -/
theorem Mark.apply_cases (h : Allowed s i m trail) {c : Cell} (hc : cellOf t trail = some c) :
    m.apply t (some c) = some c ∨
    (∃ d, m = .decided t d ∧ c.decision.status = .pending ∧
      m.apply t (some c) = some { c with decision := d }) ∨
    (∃ now, m = .claimed t now ∧ c.claimedAt = none ∧ c.result = none ∧
      m.apply t (some c) = some { c with claimedAt := some now }) ∨
    (∃ outcome, m = .completed t outcome ∧
      m.apply t (some c) = some (c.complete (storedResult outcome))) ∨
    (∃ ownerLive, m = .closed t ownerLive ∧ c.claimedAt.isSome ∧ c.result = none ∧
      m.apply t (some c) = some (c.complete interrupted)) := by
  cases m with
  | created t' call =>
      refine Or.inl ?_
      by_cases ht : t' = t
      · subst ht
        rw [show cellOf t' trail = none from h] at hc
        cases hc
      · simp [Mark.apply, ht]
  | decided t' d =>
      by_cases ht : t' = t
      · subst ht
        obtain ⟨-, c', hc', hp⟩ := h
        rw [hc] at hc'
        cases hc'
        exact Or.inr (Or.inl ⟨d, rfl, hp, by simp [Mark.apply, Cell.decide, hp]⟩)
      · exact Or.inl (by simp [Mark.apply, ht])
  | claimed t' now =>
      by_cases ht : t' = t
      · subst ht
        obtain ⟨c', hc', hclaimed, hresult, -⟩ := h
        rw [hc] at hc'
        cases hc'
        exact Or.inr (Or.inr (Or.inl ⟨now, rfl, hclaimed, hresult,
          by simp [Mark.apply, Cell.claim, hclaimed, hresult]⟩))
      · exact Or.inl (by simp [Mark.apply, ht])
  | completed t' outcome =>
      by_cases ht : t' = t
      · subst ht
        exact Or.inr (Or.inr (Or.inr (Or.inl ⟨outcome, rfl, by simp [Mark.apply]⟩)))
      · exact Or.inl (by simp [Mark.apply, ht])
  | closed t' ownerLive =>
      by_cases ht : t' = t
      · subst ht
        obtain ⟨c', hc', hclaimed, hresult⟩ := h
        rw [hc] at hc'
        cases hc'
        exact Or.inr (Or.inr (Or.inr (Or.inr ⟨ownerLive, rfl, hclaimed, hresult,
          by simp [Mark.apply]⟩)))
      · exact Or.inl (by simp [Mark.apply, ht])
  | _ => exact Or.inl rfl

theorem Mark.apply_evolves (h : Allowed s i m trail) {c : Cell} (hc : cellOf t trail = some c) :
    ∃ c', m.apply t (some c) = some c' ∧ c.Evolves c' := by
  rcases Mark.apply_cases h hc with hsame | ⟨d, -, hp, hd⟩ | ⟨now, -, hclaimed, -, hnow⟩ |
    ⟨outcome, -, hout⟩ | ⟨ownerLive, -, -, -, hclosed⟩
  · exact ⟨c, hsame, .refl c⟩
  · exact ⟨_, hd, rfl, fun h => absurd hp h, fun _ => rfl, id⟩
  · refine ⟨_, hnow, rfl, fun _ => rfl, fun h => ?_, id⟩
    rw [hclaimed] at h
    cases h
  · exact ⟨_, hout, c.complete_evolves _⟩
  · exact ⟨_, hclosed, c.complete_evolves _⟩

/-- A ticket stays, and only evolves. -/
theorem cellOf_append {new : TrailOf Mark} (h : Legal (Allowed s) (new ++ trail)) {c : Cell}
    (hc : cellOf t trail = some c) : ∃ c', cellOf t (new ++ trail) = some c' ∧ c.Evolves c' := by
  induction new with
  | nil => exact ⟨c, hc, .refl c⟩
  | cons e es ih =>
      obtain ⟨j, m⟩ := e
      obtain ⟨c₁, hc₁, hev₁⟩ := ih h.2
      obtain ⟨c₂, hc₂, hev₂⟩ := Mark.apply_evolves h.1 hc₁
      refine ⟨c₂, ?_, hev₁.trans hev₂⟩
      rw [List.cons_append, cellOf_cons, hc₁, hc₂]

theorem claimant_cons_claimed (h : claimant t trail = none) (now : Time) :
    claimant t ((i, .claimed t now) :: trail) = some i := by
  simp [claimant, h]

theorem claimant_cons_other (h : ∀ now, m ≠ .claimed t now) :
    claimant t ((i, m) :: trail) = claimant t trail := by
  cases howner : claimant t trail with
  | some owner => simp [claimant, howner]
  | none =>
      cases m with
      | claimed t' now =>
          have ht : t' ≠ t := fun ht => h now (ht ▸ rfl)
          simp [claimant, howner, ht]
      | _ => simp [claimant, howner]

theorem claimed_of_claimant (h : claimant t trail = some i) :
    ∃ now, (i, .claimed t now) ∈ trail := by
  induction trail with
  | nil => cases h
  | cons e es ih =>
      obtain ⟨j, m⟩ := e
      cases howner : claimant t es with
      | some owner =>
          have hsame : claimant t ((j, m) :: es) = some owner := by simp [claimant, howner]
          rw [hsame] at h
          cases h
          obtain ⟨now, hmem⟩ := ih howner
          exact ⟨now, List.mem_cons_of_mem _ hmem⟩
      | none =>
          by_cases hclaim : ∃ now, m = .claimed t now
          · obtain ⟨now, rfl⟩ := hclaim
            rw [claimant_cons_claimed howner] at h
            cases h
            exact ⟨now, List.mem_cons_self⟩
          · rw [claimant_cons_other (fun now hm => hclaim ⟨now, hm⟩), howner] at h
            cases h

/-- The three pieces of a ticket's state fit together. -/
structure Cell.Sound (owner : Option ℕ) (c : Cell) : Prop where
  owner : c.claimedAt.isSome = owner.isSome
  approved : c.claimedAt.isSome → c.decision.approved = true
  claimed : c.result.isSome → c.claimedAt.isSome

theorem Cell.Sound.filed (call : ToolCall) : (Cell.filed call).Sound none :=
  ⟨rfl, fun h => Bool.noConfusion h, fun h => Bool.noConfusion h⟩

theorem Cell.Sound.complete {owner : Option ℕ} {c : Cell} (h : c.Sound owner)
    (hc : c.claimedAt.isSome) (result : ToolResult) : (c.complete result).Sound owner :=
  ⟨h.owner, h.approved, fun _ => hc⟩

theorem Cell.Sound.decide {owner : Option ℕ} {c : Cell} (h : c.Sound owner)
    (hp : c.decision.status = .pending) (d : Decision) : (c.decide d).2.Sound owner := by
  have hnone : c.claimedAt.isSome = false := by
    cases hc : c.claimedAt.isSome with
    | false => rfl
    | true =>
        have happroved := h.approved hc
        simp [Decision.approved, hp] at happroved
  rw [Cell.decide, if_pos hp]
  refine ⟨h.owner, fun hc => ?_, h.claimed⟩
  rw [show c.claimedAt.isSome = true from hc] at hnone
  cases hnone

/-- What holds of ticket `t` after a trail. -/
def SoundAt (t : TicketId) (trail : TrailOf Mark) : Prop :=
  match cellOf t trail with
  | none => claimant t trail = none
  | some c => c.Sound (claimant t trail)

/-- A mark that is not about ticket `t` leaves it as it is. -/
theorem SoundAt.other (h : SoundAt t trail) (hcell : cellOf t ((i, m) :: trail) = cellOf t trail)
    (hclaim : ∀ now, m ≠ .claimed t now) : SoundAt t ((i, m) :: trail) := by
  rw [SoundAt, hcell, claimant_cons_other hclaim]
  exact h

theorem SoundAt.step (hs : SoundAt t trail) (h : Allowed s i m trail) :
    SoundAt t ((i, m) :: trail) := by
  cases m with
  | created t' call =>
      by_cases ht : t' = t
      · subst ht
        have hnone : cellOf t' trail = none := h
        have howner : claimant t' trail = none := by simpa only [SoundAt, hnone] using hs
        rw [SoundAt, claimant_cons_other (by simp), howner]
        simp only [cellOf_cons, Mark.apply, if_true]
        exact .filed call
      · exact hs.other (by simp [Mark.apply, ht]) (by simp)
  | decided t' d =>
      by_cases ht : t' = t
      · subst ht
        obtain ⟨-, c, hc, hp⟩ := h
        have hsound : c.Sound (claimant t' trail) := by simpa only [SoundAt, hc] using hs
        rw [SoundAt, claimant_cons_other (by simp)]
        simp only [cellOf_cons, Mark.apply, if_true, hc, Option.map_some]
        exact hsound.decide hp d
      · exact hs.other (by simp [Mark.apply, ht]) (by simp)
  | claimed t' now =>
      by_cases ht : t' = t
      · subst ht
        obtain ⟨c, hc, hclaimed, hresult, happroved, -⟩ := h
        have hsound : c.Sound (claimant t' trail) := by simpa only [SoundAt, hc] using hs
        have howner : claimant t' trail = none := by
          simpa [hclaimed] using hsound.owner
        rw [SoundAt, claimant_cons_claimed howner]
        simp only [cellOf_cons, Mark.apply, if_true, hc, Option.map_some, Cell.claim, hclaimed,
          hresult, Option.isNone_none, Bool.and_self]
        exact ⟨rfl, fun _ => happroved, fun _ => rfl⟩
      · exact hs.other (by simp [Mark.apply, ht]) (by simp [ht])
  | completed t' outcome =>
      by_cases ht : t' = t
      · subst ht
        rw [SoundAt, claimant_cons_other (by simp)]
        cases hc : cellOf t' trail with
        | none =>
            have howner : claimant t' trail = none := by simpa only [SoundAt, hc] using hs
            rw [h.1] at howner
            cases howner
        | some c =>
            have hsound : c.Sound (claimant t' trail) := by simpa only [SoundAt, hc] using hs
            simp only [cellOf_cons, Mark.apply, if_true, hc, Option.map_some]
            exact hsound.complete (by rw [hsound.owner, h.1]; rfl) _
      · exact hs.other (by simp [Mark.apply, ht]) (by simp)
  | closed t' ownerLive =>
      by_cases ht : t' = t
      · subst ht
        obtain ⟨c, hc, hclaimed, -⟩ := h
        have hsound : c.Sound (claimant t' trail) := by simpa only [SoundAt, hc] using hs
        rw [SoundAt, claimant_cons_other (by simp)]
        simp only [cellOf_cons, Mark.apply, if_true, hc, Option.map_some]
        exact hsound.complete hclaimed _
      · exact hs.other (by simp [Mark.apply, ht]) (by simp)
  | _ => exact hs.other rfl (by simp)

theorem soundAt (h : Legal (Allowed s) trail) : SoundAt t trail := by
  induction trail with
  | nil => rfl
  | cons e es ih => exact (ih h.2).step h.1

theorem sound_of_cell (h : Legal (Allowed s) trail) {c : Cell} (hc : cellOf t trail = some c) :
    c.Sound (claimant t trail) := by
  have hs : SoundAt t trail := soundAt h
  rwa [SoundAt, hc] at hs

theorem cell_of_claimant (h : Legal (Allowed s) trail) (howner : claimant t trail = some i) :
    ∃ c, cellOf t trail = some c ∧ c.claimedAt.isSome ∧ c.decision.approved = true := by
  have hs : SoundAt t trail := soundAt h
  cases hc : cellOf t trail with
  | none =>
      rw [SoundAt, hc] at hs
      rw [hs] at howner
      cases howner
  | some c =>
      have hsound := sound_of_cell h hc
      have hclaimed : c.claimedAt.isSome := by rw [hsound.owner, howner]; rfl
      exact ⟨c, rfl, hclaimed, hsound.approved hclaimed⟩

-- ============================================================================
-- What an entry tells about later moments
-- ============================================================================

theorem claimant_of_claimed (h : Legal (Allowed s) trail) {now : Time}
    (hmem : (i, .claimed t now) ∈ trail) : claimant t trail = some i := by
  obtain ⟨later, before, rfl, ⟨c, hc, hnone, -⟩, hbefore⟩ := h.split hmem
  have howner : claimant t before = none := by
    simpa [hnone] using (sound_of_cell hbefore hc).owner
  exact claimant_append (claimant_cons_claimed howner now) later

theorem claimant_of_started (h : Legal (Allowed s) trail) {arguments : Json}
    (hmem : (i, .started t arguments) ∈ trail) : claimant t trail = some i := by
  obtain ⟨later, before, rfl, ⟨-, howner, -⟩, -⟩ := h.split hmem
  have hcons : claimant t ((i, .started t arguments) :: before) = some i := by
    rw [claimant_cons_other (by simp), howner]
  exact claimant_append hcons later

theorem claimant_of_completed (h : Legal (Allowed s) trail)
    {outcome : Except GatewayError ToolResult} (hmem : (i, .completed t outcome) ∈ trail) :
    claimant t trail = some i := by
  obtain ⟨later, before, rfl, ⟨howner, -⟩, -⟩ := h.split hmem
  have hcons : claimant t ((i, .completed t outcome) :: before) = some i := by
    rw [claimant_cons_other (by simp), howner]
  exact claimant_append hcons later

theorem cell_of_created (h : Legal (Allowed s) trail) {call : ToolCall}
    (hmem : (i, .created t call) ∈ trail) : ∃ c, cellOf t trail = some c ∧ c.call = call := by
  obtain ⟨later, before, rfl, -, -⟩ := h.split hmem
  obtain ⟨c, hc, hev⟩ := cellOf_append (t := t) h (by simp [Mark.apply]; rfl)
  exact ⟨c, hc, hev.call⟩

/-- A ticket that is there was filed. -/
theorem created_of_cell (h : Legal (Allowed s) trail) {c : Cell} (hc : cellOf t trail = some c) :
    ∃ j, (j, .created t c.call) ∈ trail := by
  induction trail generalizing c with
  | nil => cases hc
  | cons e es ih =>
      obtain ⟨j, m⟩ := e
      cases hold : cellOf t es with
      | some c₀ =>
          obtain ⟨c', hc', hev⟩ := Mark.apply_evolves h.1 hold
          rw [cellOf_cons, hold, hc'] at hc
          cases hc
          obtain ⟨k, hk⟩ := ih h.2 hold
          rw [hev.call]
          exact ⟨k, List.mem_cons_of_mem _ hk⟩
      | none =>
          rw [cellOf_cons, hold] at hc
          cases m with
          | created t' call =>
              by_cases ht : t' = t
              · simp only [Mark.apply, ht, if_true, Option.some.injEq] at hc
                subst ht hc
                exact ⟨j, List.mem_cons_self⟩
              · simp [Mark.apply, ht] at hc
          | _ => simp [Mark.apply] at hc

/-- A ticket is filed once. -/
theorem created_unique (h : Legal (Allowed s) trail) {j : ℕ} {call call' : ToolCall}
    (hmem : (i, .created t call) ∈ trail) (hmem' : (j, .created t call') ∈ trail) :
    i = j ∧ call = call' := by
  obtain ⟨later, before, rfl, hfresh, hbefore⟩ := h.split hmem
  rcases List.mem_append.mp hmem' with hin | hin
  · obtain ⟨new, mid, rfl⟩ := List.append_of_mem hin
    rw [List.append_assoc, List.cons_append] at h
    have hthen := h.of_append
    obtain ⟨c, hc, -⟩ :=
      cell_of_created hthen.2 (List.mem_append_right mid (List.mem_cons_self (a := (i, _))))
    rw [show cellOf t _ = none from hthen.1] at hc
    cases hc
  · rcases List.mem_cons.mp hin with heq | hin
    · cases heq
      exact ⟨rfl, rfl⟩
    · obtain ⟨c, hc, -⟩ := cell_of_created hbefore hin
      rw [show cellOf t before = none from hfresh] at hc
      cases hc

/-- What was read is what the ticket was, and it only evolved since. -/
theorem cell_of_read (h : Legal (Allowed s) trail) {ticket : Ticket}
    (hmem : (i, .read t ticket) ∈ trail) :
    ∃ c₀ c : Cell, c₀.ticket = ticket ∧ cellOf t trail = some c ∧ c₀.Evolves c := by
  obtain ⟨later, before, rfl, ⟨c₀, hc₀, hticket⟩, -⟩ := h.split hmem
  obtain ⟨c, hc, hev⟩ := cellOf_append h hc₀
  exact ⟨c₀, c, hticket, hc, hev⟩

/-- The verdict that was acted on is the recorded one. -/
theorem cell_of_acted (h : Legal (Allowed s) trail) {d : Decision}
    (hmem : (i, .acted t d) ∈ trail) :
    ∃ c, cellOf t trail = some c ∧ c.decision = d ∧ d.status ≠ .pending := by
  obtain ⟨later, before, rfl, ⟨hd, c₀, hc₀, rfl, -⟩, -⟩ := h.split hmem
  obtain ⟨c, hc, hev⟩ := cellOf_append h hc₀
  exact ⟨c, hc, hev.decision hd, hd⟩

theorem cell_of_decided (h : Legal (Allowed s) trail) {d : Decision}
    (hmem : (i, .decided t d) ∈ trail) :
    ∃ c, cellOf t trail = some c ∧ c.decision = d ∧ d.status ≠ .pending := by
  obtain ⟨later, before, rfl, ⟨hd, c₀, hc₀, hp⟩, -⟩ := h.split hmem
  have hcell : cellOf t ((i, .decided t d) :: before) = some { c₀ with decision := d } := by
    simp [Mark.apply, hc₀, Cell.decide, hp]
  obtain ⟨c, hc, hev⟩ := cellOf_append h hcell
  exact ⟨c, hc, hev.decision hd, hd⟩

/-- The trail when the executor stored its outcome. -/
theorem written_of_completed (h : Legal (Allowed s) trail)
    {outcome : Except GatewayError ToolResult} (hmem : (i, .completed t outcome) ∈ trail) :
    ∃ later written, trail = later ++ written ∧
      ∃ c, cellOf t written = some c ∧ c.result = some (storedResult outcome) := by
  obtain ⟨later, before, rfl, hallowed, hbefore⟩ := h.split hmem
  obtain ⟨c, hc, -⟩ := cell_of_claimant hbefore hallowed.1
  exact ⟨later, _, rfl, c.complete (storedResult outcome), by simp [Mark.apply, hc], rfl⟩

/-- The trail when a claim was closed. -/
theorem written_of_closed (h : Legal (Allowed s) trail) {ownerLive : Bool}
    (hmem : (i, .closed t ownerLive) ∈ trail) :
    ∃ later written, trail = later ++ written ∧
      ∃ c, cellOf t written = some c ∧ c.result = some interrupted := by
  obtain ⟨later, before, rfl, ⟨c, hc, -, -⟩, -⟩ := h.split hmem
  exact ⟨later, _, rfl, c.complete interrupted, by simp [Mark.apply, hc], rfl⟩

/-- The pipeline was started with what the recorded verdict lets through. -/
theorem cell_of_started (h : Legal (Allowed s) trail) {arguments : Json}
    (hmem : (i, .started t arguments) ∈ trail) :
    ∃ c, cellOf t trail = some c ∧ arguments = c.decision.effective c.call.arguments := by
  obtain ⟨later, before, rfl, ⟨⟨c₀, hc₀, happroved, hargs⟩, -⟩, -⟩ := h.split hmem
  obtain ⟨c, hc, hev⟩ := cellOf_append h hc₀
  have hdecided : c₀.decision.status ≠ .pending := by
    intro hp
    simp [Decision.approved, hp] at happroved
  exact ⟨c, hc, by rw [hargs, hev.decision hdecided, hev.call]⟩

/-- The executor got past the recorded verdict, an approval. -/
theorem acted_of_claimant (h : Legal (Allowed s) trail) (howner : claimant t trail = some i)
    {c : Cell} (hc : cellOf t trail = some c) :
    c.decision.approved = true ∧ (i, .acted t c.decision) ∈ trail := by
  obtain ⟨now, hmem⟩ := claimed_of_claimant howner
  obtain ⟨later, before, rfl, ⟨c₀, hc₀, -, -, happroved, hacted⟩, -⟩ := h.split hmem
  have hin : (i, Mark.acted t c₀.decision) ∈ later ++ (i, Mark.claimed t now) :: before :=
    List.mem_append_right _ (List.mem_cons_of_mem _ hacted)
  obtain ⟨c', hc', hdecision, -⟩ := cell_of_acted h hin
  rw [hc] at hc'
  cases hc'
  rw [hdecision]
  exact ⟨happroved, hin⟩

/-- A verdict that is not the one before was decided in between. -/
theorem decided_between {new : TrailOf Mark} (h : Legal (Allowed s) (new ++ trail)) {c c' : Cell}
    (hc : cellOf t trail = some c) (hc' : cellOf t (new ++ trail) = some c') :
    c'.decision = c.decision ∨ ∃ j, (j, .decided t c'.decision) ∈ new := by
  induction new generalizing c' with
  | nil =>
      rw [List.nil_append, hc] at hc'
      cases hc'
      exact Or.inl rfl
  | cons e es ih =>
      obtain ⟨j, m⟩ := e
      obtain ⟨c₁, hc₁, -⟩ := cellOf_append h.2 hc
      have hrest := ih h.2 hc₁
      rw [List.cons_append, cellOf_cons, hc₁] at hc'
      have hstep : c'.decision = c₁.decision ∨ m = .decided t c'.decision := by
        rcases Mark.apply_cases h.1 hc₁ with hsame | ⟨d, rfl, -, hd⟩ | ⟨now, -, -, -, hnow⟩ |
          ⟨outcome, -, hout⟩ | ⟨ownerLive, -, -, -, hclosed⟩
        · rw [hsame] at hc'
          cases hc'
          exact Or.inl rfl
        · rw [hd] at hc'
          cases hc'
          exact Or.inr rfl
        · rw [hnow] at hc'
          cases hc'
          exact Or.inl rfl
        · rw [hout] at hc'
          cases hc'
          exact Or.inl rfl
        · rw [hclosed] at hc'
          cases hc'
          exact Or.inl rfl
      rcases hstep with hsame | rfl
      · rw [hsame]
        exact hrest.imp_right fun ⟨k, hk⟩ => ⟨k, List.mem_cons_of_mem _ hk⟩
      · exact Or.inr ⟨j, List.mem_cons_self⟩

/-- The store refused a verdict on a ticket that was there: it has one. -/
theorem decided_of_refused (h : Legal (Allowed s) trail) {call : ToolCall} {before : List Mark}
    (later : List Mark) (hown : own i trail = later ++ .refused t :: before) (hcreated : .created t call ∈ before)
    {c : Cell} (hc : cellOf t trail = some c) : c.decision.status ≠ .pending := by
  obtain ⟨new, old, rfl, -, hold⟩ := own_split hown
  have hrest := h.of_append
  obtain ⟨c₀, hc₀, -⟩ := cell_of_created hrest.2 (mem_own.mp (hold ▸ hcreated))
  have hdecided : c₀.decision.status ≠ .pending := hrest.1 c₀ hc₀
  obtain ⟨c', hc', hev⟩ := cellOf_append h hc₀
  rw [hc] at hc'
  cases hc'
  rw [hev.decision hdecided]
  exact hdecided

/-- A thread consults the policy about one call. -/
theorem consulted_unique (h : Legal (Allowed s) trail) {call call' : ToolCall} {grant grant' : Grant}
    (hmem : (i, .consulted call grant) ∈ trail) (hmem' : (i, .consulted call' grant') ∈ trail) :
    call = call' ∧ grant = grant' := by
  rcases h.order hmem hmem' with heq | ⟨before, ⟨-, hfirst⟩, hbefore⟩ | ⟨before, ⟨-, hfirst⟩, hbefore⟩
  · cases heq
    exact ⟨rfl, rfl⟩
  · exact absurd hbefore (hfirst call' grant')
  · exact absurd hbefore (hfirst call grant)

/-- The thread that got past the verdict was granted the ticket's call. -/
theorem consulted_of_acted (h : Legal (Allowed s) trail) {d : Decision}
    (hmem : (i, .acted t d) ∈ trail) {c : Cell} (hc : cellOf t trail = some c) :
    ∃ grant, (i, .consulted c.call grant) ∈ trail := by
  obtain ⟨later, before, rfl, ⟨-, c₀, hc₀, -, ⟨grant, hgrant⟩, -⟩, -⟩ := h.split hmem
  obtain ⟨c', hc', hev⟩ := cellOf_append h hc₀
  rw [hc] at hc'
  cases hc'
  rw [hev.call]
  exact ⟨grant, List.mem_append_right _ (List.mem_cons_of_mem _ hgrant)⟩

/-- The claim of a thread that is still running was not closed under it, if none
    of the closings told on it. -/
theorem not_closed_of_spared {σ : Type} [TicketStore σ] [LawfulTicketStore σ]
    (h : Legal (Allowed s) trail) (hspared : (ledger σ s).Spared i trail)
    (howner : claimant t trail = some i) (j : ℕ) : (j, .closed t false) ∉ trail := by
  intro hmem
  obtain ⟨later, before, rfl, ⟨c, hc, hclaimed, -⟩, hbefore⟩ := h.split hmem
  have hsound := sound_of_cell hbefore hc
  rw [hsound.owner] at hclaimed
  obtain ⟨k, hk⟩ := Option.isSome_iff_exists.mp hclaimed
  have hcons : claimant t ((j, .closed t false) :: before) = some k := by
    rw [claimant_cons_other (by simp), hk]
  rw [claimant_append hcons later] at howner
  cases howner
  exact hspared.of_append.1 ⟨t, rfl, hk⟩

end

end ToolGateway
