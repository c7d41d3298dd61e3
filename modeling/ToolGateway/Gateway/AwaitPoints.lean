/-
  ToolGateway.Gateway.AwaitPoints

  What each await point of the gateway leaves on the trail: one triple for each
  task of `World`.  The rest of the gateway is proved from these.
-/

import ToolGateway.Gateway.Ledger

namespace ToolGateway

open Coroutine Py

variable {σ : Type} [TicketStore σ] [LawfulTicketStore σ] {s : Settings} {i : ℕ}
  {pre : List Mark}

-- ============================================================================
-- The store and the trail move together
-- ============================================================================

/-- A mark that says nothing about tickets or the policy in force. -/
def Mark.silent : Mark → Bool
  | .consulted .. | .read .. | .missed .. | .refused .. | .acted .. | .started ..
  | .validated .. | .resolved .. | .dispatched .. | .answered .. | .returned .. => true
  | _ => false

theorem agrees_silent {w : World σ} {m : Mark} (hm : m.silent = true)
    (h : (ledger σ s).agrees w) : (ledger σ s).agrees (w.mark i m) := by
  cases m <;> first | exact h | cases hm

/-- A mark about one ticket changes the cell of that ticket. -/
theorem cells_cons {trail : TrailOf Mark} {m : Mark} {t : TicketId} {cell : Option Cell}
    (hself : m.apply t (cellOf t trail) = cell)
    (hother : ∀ t', t ≠ t' → m.apply t' (cellOf t' trail) = cellOf t' trail) :
    Function.update (cellOf · trail) t cell = (cellOf · ((i, m) :: trail)) := by
  funext t'
  by_cases ht : t' = t
  · subst ht
    rw [Function.update_self, cellOf_cons, hself]
  · rw [Function.update_of_ne ht, cellOf_cons, hother t' (Ne.symm ht)]

/-- Only closing the claim of a thread that is gone tells on anybody. -/
theorem strikes_nobody {m : Mark} (hm : ∀ t, m ≠ .closed t false) (trail : TrailOf Mark) (j : ℕ) :
    ¬ (ledger σ s).strikes m trail j := by
  rintro ⟨t, ht, -⟩
  exact hm t ht

-- ============================================================================
-- Marks that say nothing about tickets
-- ============================================================================

/-- A block that makes one silent mark and leaves the store alone. -/
theorem silent_spec {β : Type} {block : Slot Input → World σ → Option (β × World σ)}
    (post : β → List Mark → Prop)
    (h : ∀ (slot : Slot Input) (w : World σ) (x : β) (w' : World σ), block slot w = some (x, w') →
      Legal (Allowed s) w.trail → own i w.trail = pre → (ledger σ s).agrees w → slot.me = i →
        ∃ m, w' = w.mark i m ∧ m.silent = true ∧ Allowed s i m w.trail ∧ post x (m :: pre)) :
    (ledger σ s).Triple i pre (Co.atomic block) post := by
  refine Discipline.Triple.mark fun slot w x w' hinv hk hme hb => ?_
  obtain ⟨m, rfl, hm, hallowed, hpost⟩ := h slot w x w' hb hinv.1 hk.own hinv.2 hme
  have hspared : ∀ t, m ≠ .closed t false := by
    rintro t rfl
    cases hm
  exact ⟨agrees_silent hm hinv.2, Or.inr ⟨m, rfl, hallowed,
    fun j hj => absurd hj (strikes_nobody hspared _ j), hpost⟩⟩

theorem note_spec {m : Mark} (hm : m.silent = true)
    (h : ∀ trail, Legal (Allowed s) trail → own i trail = pre → Allowed s i m trail) :
    (ledger σ s).Triple i pre (note m) fun _ marks => marks = m :: pre := by
  refine silent_spec _ fun slot w x w' hb hlegal hown _ hme => ?_
  cases hb
  subst hme
  exact ⟨m, rfl, hm, h _ hlegal hown, rfl⟩

/-- A block that leaves store, policy and trail as they are. -/
theorem quiet_spec {β : Type} {block : Slot Input → World σ → Option (β × World σ)}
    (h : ∀ slot w x w', block slot w = some (x, w') →
      w'.trail = w.trail ∧ w'.tickets = w.tickets ∧ w'.grants = w.grants) :
    (ledger σ s).Triple i pre (Co.atomic block) fun _ marks => marks = pre := by
  refine Discipline.Triple.quiet fun slot w x w' hinv _ _ hb => ?_
  obtain ⟨htrail, htickets, hgrants⟩ := h slot w x w' hb
  refine ⟨htrail, ?_, rfl⟩
  obtain ⟨hcells, hforce⟩ := hinv.2
  exact ⟨by rw [htickets, htrail, hcells], by rw [hgrants, htrail, hforce]⟩

theorem readClock_spec :
    (ledger σ s).Triple i pre (readClock : Task σ Time) fun _ marks => marks = pre :=
  quiet_spec fun slot w x w' hb => by cases hb; exact ⟨rfl, rfl, rfl⟩

theorem auditEvent_spec (event : String) (call : ToolCall) (fields : Fields) :
    (ledger σ s).Triple i pre (auditEvent event call fields : Task σ Unit)
      fun _ marks => marks = pre :=
  quiet_spec fun slot w x w' hb => by cases hb; exact ⟨rfl, rfl, rfl⟩

theorem grantFor_spec (call : ToolCall) (hpre : ∀ call' grant, .consulted call' grant ∉ pre) :
    (ledger σ s).Triple i pre (grantFor call : Task σ (Except PyError (Option Grant)))
      fun answer marks => (∃ grant, answer = .ok (some grant) ∧ marks = .consulted call grant :: pre) ∨
        ((answer = .ok none ∨ ∃ e, answer = .error e) ∧ marks = pre) := by
  refine Discipline.Triple.mark fun slot w x w' hinv hk hme hb => ?_
  subst hme
  split at hb
  · next grant hgrant =>
      cases hb
      have hfirst : ∀ call' grant', (slot.me, .consulted call' grant') ∉ w.trail :=
        fun call' grant' hmem => hpre call' grant' (hk.own ▸ mem_own.mpr hmem)
      exact ⟨agrees_silent rfl hinv.2, Or.inr ⟨_, rfl, ⟨hinv.2.2 ▸ hgrant, hfirst⟩,
        fun j hj => absurd hj (strikes_nobody (by simp) _ j), Or.inl ⟨grant, rfl, rfl⟩⟩⟩
  · next answer hanswer =>
      cases hb
      refine ⟨hinv.2, Or.inl ⟨rfl, Or.inr ⟨?_, rfl⟩⟩⟩
      cases hx : w.grants call with
      | error e => exact Or.inr ⟨e, rfl⟩
      | ok found =>
          cases found with
          | none => exact Or.inl rfl
          | some grant => exact absurd hx (hanswer grant)

/-- What is known of the ticket is true of what the store returns. -/
theorem getTicket_spec_of {t : TicketId} {P : Ticket → Prop}
    (hP : ∀ trail c, Legal (Allowed s) trail → own i trail = pre → cellOf t trail = some c →
      P c.ticket) :
    (ledger σ s).Triple i pre (getTicket t : Task σ (Option Ticket)) fun found marks =>
      (∃ ticket, found = some ticket ∧ marks = .read t ticket :: pre ∧ P ticket) ∨
        (found = none ∧ marks = .missed t :: pre) := by
  refine silent_spec _ fun slot w x w' hb hlegal hown hagrees hme => ?_
  subst hme
  have hget : TicketStore.get w.tickets t = (cellOf t w.trail).map Cell.ticket := by
    rw [LawfulTicketStore.get_eq, hagrees.1]
  split at hb
  · next ticket hticket =>
      cases hb
      rw [hget, Option.map_eq_some_iff] at hticket
      obtain ⟨c, hc, rfl⟩ := hticket
      exact ⟨_, rfl, rfl, ⟨c, hc, rfl⟩, Or.inl ⟨_, rfl, rfl, hP w.trail c hlegal hown hc⟩⟩
  · next hnone =>
      cases hb
      rw [hget, Option.map_eq_none_iff] at hnone
      exact ⟨_, rfl, rfl, hnone, Or.inr ⟨rfl, rfl⟩⟩

theorem getTicket_spec (t : TicketId) :
    (ledger σ s).Triple i pre (getTicket t : Task σ (Option Ticket)) fun found marks =>
      (∃ ticket, found = some ticket ∧ marks = .read t ticket :: pre) ∨
        (found = none ∧ marks = .missed t :: pre) :=
  (getTicket_spec_of (P := fun _ => True) fun _ _ _ _ _ => trivial).mono fun _ _ h =>
    h.imp_left fun ⟨ticket, hfound, hmarks, _⟩ => ⟨ticket, hfound, hmarks⟩

-- ============================================================================
-- Marks about one ticket
-- ============================================================================

/-- The world after an operation on ticket `t`. -/
theorem agrees_cell {w : World σ} {tickets : σ} {m : Mark} {t : TicketId} {cell : Option Cell}
    (h : (ledger σ s).agrees w)
    (hcells : LawfulTicketStore.cell tickets =
      Function.update (LawfulTicketStore.cell w.tickets) t cell)
    (hself : m.apply t (cellOf t w.trail) = cell)
    (hother : ∀ t', t ≠ t' → m.apply t' (cellOf t' w.trail) = cellOf t' w.trail)
    (hpolicy : ∀ grants, m ≠ .policy grants) :
    (ledger σ s).agrees (World.mark { w with tickets := tickets } i m) := by
  refine ⟨?_, ?_⟩
  · show LawfulTicketStore.cell tickets = _
    rw [hcells, h.1]
    exact cells_cons hself hother
  · show w.grants = inForce ((i, m) :: w.trail)
    rw [h.2]
    cases m with
    | policy grants => exact absurd rfl (hpolicy grants)
    | _ => rfl

/-- An operation that changed nothing. -/
theorem agrees_unchanged {w : World σ} {tickets : σ} (h : (ledger σ s).agrees w)
    (hcells : LawfulTicketStore.cell tickets = LawfulTicketStore.cell w.tickets) :
    (ledger σ s).agrees { w with tickets := tickets } :=
  ⟨hcells.trans h.1, h.2⟩

theorem createTicket_spec (call : ToolCall) :
    (ledger σ s).Triple i pre (createTicket call : Task σ (Except PyError TicketId))
      fun r marks => ∃ t, r = .ok t ∧ marks = .created t call :: pre := by
  refine Discipline.Triple.mark fun slot w x w' hinv hk hme hb => ?_
  subst hme
  dsimp only at hb
  split at hb
  · cases hb
  · next hnone =>
      have hcell : LawfulTicketStore.cell w.tickets ("tkt-" ++ slot.input.uuid) = none := by
        rw [LawfulTicketStore.get_eq, Option.map_eq_none_iff] at hnone
        exact hnone
      have hfresh : cellOf ("tkt-" ++ slot.input.uuid) w.trail = none := by
        rw [← hcell, hinv.2.1]
      obtain ⟨tickets, hcreate, hcells⟩ :=
        LawfulTicketStore.create_fresh w.tickets _ call slot.input.now hcell
      rw [hcreate] at hb
      cases hb
      exact ⟨agrees_cell hinv.2 hcells (by simp [Mark.apply]) (fun t' ht => by simp [Mark.apply, ht])
        (by simp), Or.inr ⟨_, rfl, hfresh, fun j hj => absurd hj (strikes_nobody (by simp) _ j),
          _, rfl, rfl⟩⟩

theorem decideTicket_spec (t : TicketId) {d : Decision} (hd : d.status ≠ .pending) :
    (ledger σ s).Triple i pre (decideTicket t d : Task σ Bool) fun won marks =>
      (won = true ∧ marks = .decided t d :: pre) ∨ (won = false ∧ marks = .refused t :: pre) := by
  refine Discipline.Triple.mark fun slot w x w' hinv hk hme hb => ?_
  subst hme
  have hacts := LawfulTicketStore.decide_acts w.tickets t d
  split at hb
  · next tickets hdecide =>
      cases hb
      rw [hdecide] at hacts
      obtain ⟨c, hc, hop, hcells⟩ := hacts.of_true
      have hcell : cellOf t w.trail = some c := by rw [← hc, hinv.2.1]
      exact ⟨agrees_cell hinv.2 hcells (by simp [Mark.apply, hcell])
        (fun t' ht => by simp [Mark.apply, ht]) (by simp),
        Or.inr ⟨_, rfl, ⟨hd, c, hcell, Cell.decide_true hop⟩,
          fun j hj => absurd hj (strikes_nobody (by simp) _ j), Or.inl ⟨rfl, rfl⟩⟩⟩
  · next tickets hdecide =>
      cases hb
      rw [hdecide] at hacts
      have hdecided : ∀ c, cellOf t w.trail = some c → c.decision.status ≠ .pending := by
        intro c hc
        have hcell : LawfulTicketStore.cell w.tickets t = some c := by rw [← hc, hinv.2.1]
        have hanswer := hacts.answer
        rw [hcell] at hanswer
        exact (Cell.decide_false hanswer.symm).1
      exact ⟨agrees_silent rfl (agrees_unchanged hinv.2
        (hacts.of_false fun _ h => (Cell.decide_false h).2)),
        Or.inr ⟨_, rfl, hdecided, fun j hj => absurd hj (strikes_nobody (by simp) _ j),
          Or.inr ⟨rfl, rfl⟩⟩⟩

/-- A thread that got past an approval claims the ticket. -/
theorem claimTicket_spec {t : TicketId} {d : Decision} (hacted : .acted t d ∈ pre)
    (happroved : d.approved = true) :
    (ledger σ s).Triple i pre (claimTicket t : Task σ Bool) fun won marks =>
      (won = true ∧ ∃ now, marks = .claimed t now :: pre) ∨ (won = false ∧ marks = pre) := by
  refine Discipline.Triple.mark fun slot w x w' hinv hk hme hb => ?_
  subst hme
  have hlegal : Legal (Allowed s) w.trail := hinv.1
  have hown : ∀ m, m ∈ pre ↔ (slot.me, m) ∈ w.trail := fun m => by
    rw [← mem_own, show own slot.me w.trail = pre from hk.own]
  have hacts := LawfulTicketStore.claim_acts w.tickets t slot.input.now
  split at hb
  · next tickets hclaim =>
      cases hb
      rw [hclaim] at hacts
      obtain ⟨c, hc, hop, hcells⟩ := hacts.of_true
      have hcell : cellOf t w.trail = some c := by rw [← hc, hinv.2.1]
      obtain ⟨hclaimed, hresult⟩ := Cell.claim_true hop
      obtain ⟨c', hcell', hdec, -⟩ := cell_of_acted hlegal ((hown _).mp hacted)
      rw [hcell] at hcell'
      cases hcell'
      subst hdec
      exact ⟨agrees_cell hinv.2 hcells (by simp [Mark.apply, hcell])
        (fun t' ht => by simp [Mark.apply, ht]) (by simp),
        Or.inr ⟨_, rfl, ⟨c, hcell, hclaimed, hresult, happroved, (hown _).mp hacted⟩,
          fun j hj => absurd hj (strikes_nobody (by simp) _ j), Or.inl ⟨rfl, _, rfl⟩⟩⟩
  · next tickets hclaim =>
      cases hb
      rw [hclaim] at hacts
      exact ⟨agrees_unchanged hinv.2 (hacts.of_false fun _ => Cell.claim_false),
        Or.inl ⟨rfl, Or.inr ⟨rfl, rfl⟩⟩⟩

theorem closeStaleClaim_spec (t : TicketId) (older : Time) :
    (ledger σ s).Triple i pre (closeStaleClaim t older interrupted : Task σ Bool)
      fun closed marks => (closed = true ∧ ∃ ownerLive, marks = .closed t ownerLive :: pre) ∨
        (closed = false ∧ marks = pre) := by
  refine Discipline.Triple.mark fun slot w x w' hinv hk hme hb => ?_
  subst hme
  have hacts := LawfulTicketStore.closeStaleClaim_acts w.tickets t slot.input.now older interrupted
  split at hb
  · next tickets hclose =>
      cases hb
      rw [hclose] at hacts
      obtain ⟨c, hc, hop, hcells⟩ := hacts.of_true
      have hcell : cellOf t w.trail = some c := by rw [← hc, hinv.2.1]
      obtain ⟨hclaimed, hresult, hcomplete⟩ := Cell.closeStaleClaim_true hop
      refine ⟨agrees_cell hinv.2 hcells (by simp [Mark.apply, hcell, hcomplete])
        (fun t' ht => by simp [Mark.apply, ht]) (by simp),
        Or.inr ⟨_, rfl, ⟨c, hcell, hclaimed, hresult⟩, ?_, Or.inl ⟨rfl, _, rfl⟩⟩⟩
      -- the claim of a thread that is still running is closed as such
      rintro j ⟨t', hmark, howner⟩
      injection hmark with ht hlive
      subst ht
      rw [show claimant t w.trail = some j from howner] at hlive
      simpa using hlive
  · next tickets hclose =>
      cases hb
      rw [hclose] at hacts
      exact ⟨agrees_unchanged hinv.2 (hacts.of_false fun _ => Cell.closeStaleClaim_false),
        Or.inl ⟨rfl, Or.inr ⟨rfl, rfl⟩⟩⟩

/-- The executor stores its outcome, once. -/
theorem completeTicket_spec {t : TicketId} {now : Time} {arguments : Json}
    (outcome : Except GatewayError ToolResult) (hclaimed : .claimed t now ∈ pre)
    (hstarted : .started t arguments ∈ pre) (honce : ∀ outcome', .completed t outcome' ∉ pre)
    (hyields : ∀ a, .answered a ∈ pre → s.Yields a (handedOn outcome)) :
    (ledger σ s).Triple i pre (completeTicket t outcome : Task σ (Except PyError Unit))
      fun r marks => r = .ok () ∧ marks = .completed t outcome :: pre := by
  refine Discipline.Triple.mark fun slot w x w' hinv hk hme hb => ?_
  subst hme
  have hlegal : Legal (Allowed s) w.trail := hinv.1
  have hown : ∀ m, m ∈ pre ↔ (slot.me, m) ∈ w.trail := fun m => by
    rw [← mem_own, show own slot.me w.trail = pre from hk.own]
  have howner := claimant_of_claimed hlegal ((hown _).mp hclaimed)
  obtain ⟨c, hcell, -⟩ := cell_of_claimant hlegal howner
  have hc : LawfulTicketStore.cell w.tickets t = some c := by rw [← hcell, hinv.2.1]
  obtain ⟨tickets, hcomplete, hcells⟩ :=
    LawfulTicketStore.complete_known w.tickets t (storedResult outcome) c hc
  rw [hcomplete] at hb
  cases hb
  have hallowed : Allowed s slot.me (.completed t outcome) w.trail :=
    ⟨howner, ⟨arguments, (hown _).mp hstarted⟩,
      fun outcome' hmem => honce outcome' ((hown _).mpr hmem),
      not_closed_of_spared hlegal hk.spared howner, fun a hmem => hyields a ((hown _).mpr hmem)⟩
  exact ⟨agrees_cell hinv.2 hcells (by simp [Mark.apply, hcell])
    (fun t' ht => by simp [Mark.apply, ht]) (by simp),
    Or.inr ⟨_, rfl, hallowed, fun j hj => absurd hj (strikes_nobody (by simp) _ j), rfl, rfl⟩⟩

/-- Another policy is put in force. -/
theorem setPolicy_block_spec (grants : GrantResolver) :
    (ledger σ s).Triple i pre
      (Co.atomic fun slot w => some ((), World.mark { w with grants := grants } slot.me
        (.policy grants)) : Task σ Unit) fun _ marks => marks = .policy grants :: pre := by
  refine Discipline.Triple.mark fun slot w x w' hinv hk hme hb => ?_
  subst hme
  cases hb
  exact ⟨⟨hinv.2.1, rfl⟩, Or.inr ⟨_, rfl, trivial,
    fun j hj => absurd hj (strikes_nobody (by simp) _ j), rfl⟩⟩

end ToolGateway
