/-
  ToolGateway.Gateway.Privacy

  What an agent's requests can tell it, and what they can do.  Two gateways whose stores
  agree on the agent's tickets are run side by side; the ids of other agents' tickets
  are set apart, and no request of this agent gets past the ownership test with one.
-/

import Mathlib.Data.Set.Lattice
import Mathlib.Order.CompletePartialOrder
import ToolGateway.Coroutine.Lockstep
import ToolGateway.Gateway.Edge
import ToolGateway.Gateway.Execution
import ToolGateway.Tickets.Memory

namespace ToolGateway

open Coroutine Py LawfulTicketStore

/-- The ticket this mark says was written to. -/
def Mark.writes : Mark → Option TicketId
  | .created t _ | .decided t _ | .claimed t _ | .completed t _ | .closed t _ => some t
  | _ => none

theorem Mark.spares_of_none {others : Set TicketId} {m : Mark} (hm : m.writes = none) :
    ∀ t, m.writes = some t → t ∉ others := by
  intro t ht
  rw [hm] at ht
  cases ht

theorem Mark.spares_of_some {others : Set TicketId} {m : Mark} {t : TicketId}
    (hm : m.writes = some t) (ht : t ∉ others) : ∀ u, m.writes = some u → u ∉ others := by
  intro u hu
  rw [hm] at hu
  rw [← Option.some.inj hu]
  exact ht

/-- What was added to the trail wrote to none of these tickets. -/
def Spares (others : Set TicketId) (before after : TrailOf Mark) : Prop :=
  ∃ new, after = new ++ before ∧ ∀ e ∈ new, ∀ t, e.2.writes = some t → t ∉ others

theorem Spares.refl (others : Set TicketId) (trail : TrailOf Mark) : Spares others trail trail :=
  ⟨[], rfl, by simp⟩

theorem Spares.mark {others : Set TicketId} {before after : TrailOf Mark}
    (h : Spares others before after) {i : ℕ} {m : Mark}
    (hm : ∀ t, m.writes = some t → t ∉ others) : Spares others before ((i, m) :: after) := by
  obtain ⟨new, rfl, hnew⟩ := h
  exact ⟨(i, m) :: new, rfl, List.forall_mem_cons.mpr ⟨hm, hnew⟩⟩

section
variable {σ σ' : Type} [TicketStore σ] [LawfulTicketStore σ] [TicketStore σ'] [LawfulTicketStore σ']

/-- An agent, two worlds, and ids that are no ticket of this agent in either. -/
structure Setting (σ σ' : Type) [TicketStore σ] [LawfulTicketStore σ] [TicketStore σ']
    [LawfulTicketStore σ'] where
  agentId : String
  before : World σ
  before' : World σ'
  others : Set TicketId
  foreign : ∀ t ∈ others, ∀ c, cell before.tickets t = some c → c.call.agentId ≠ agentId
  foreign' : ∀ t ∈ others, ∀ c, cell before'.tickets t = some c → c.call.agentId ≠ agentId

/-- Inputs with an id no other agent's ticket has. -/
def Setting.Fresh (S : Setting σ σ') (input : Input) : Prop := "tkt-" ++ input.uuid ∉ S.others

/-- The two worlds agree on the agent's tickets, and on all other ids are as they were.
    `known` are tickets of the agent. -/
structure Setting.Apart (S : Setting σ σ') (known : Set TicketId) (w : World σ) (w' : World σ') :
    Prop where
  grants : w.grants = w'.grants
  same : ∀ t ∉ S.others, cell w.tickets t = cell w'.tickets t
  owned : ∀ t ∉ S.others, ∀ c, cell w.tickets t = some c → c.call.agentId = S.agentId
  kept : ∀ t ∈ S.others, cell w.tickets t = cell S.before.tickets t
  kept' : ∀ t ∈ S.others, cell w'.tickets t = cell S.before'.tickets t
  known : ∀ t ∈ known, t ∉ S.others ∧ ∃ c, cell w.tickets t = some c
  spared : Spares S.others S.before.trail w.trail
  spared' : Spares S.others S.before'.trail w'.trail

namespace Setting

variable {S : Setting σ σ'} {p : Set TicketId} {w : World σ} {w' : World σ'} {t : TicketId}

/-- Marks of other things than writes to the ids set apart change nothing. -/
theorem Apart.mark (h : S.Apart p w w') {i : ℕ} {m m' : Mark}
    (hm : ∀ t, m.writes = some t → t ∉ S.others) (hm' : ∀ t, m'.writes = some t → t ∉ S.others) :
    S.Apart p (w.mark i m) (w'.mark i m') :=
  { h with spared := h.spared.mark hm, spared' := h.spared'.mark hm' }

/-- Both worlds get the same new cell for a ticket of the agent. -/
theorem Apart.update (h : S.Apart p w w') (ht : t ∉ S.others) {s : σ} {s' : σ'} {c : Cell}
    (hc : c.call.agentId = S.agentId)
    (hs : cell s = Function.update (cell w.tickets) t (some c))
    (hs' : cell s' = Function.update (cell w'.tickets) t (some c)) :
    S.Apart (insert t p) { w with tickets := s } { w' with tickets := s' } where
  grants := h.grants
  same := by
    intro u hu
    show cell s u = cell s' u
    rw [hs, hs']
    by_cases hut : u = t
    · rw [hut, Function.update_self, Function.update_self]
    · rw [Function.update_of_ne hut, Function.update_of_ne hut]
      exact h.same u hu
  owned := by
    intro u hu c' hc'
    have hcell : cell s u = some c' := hc'
    rw [hs] at hcell
    by_cases hut : u = t
    · rw [hut, Function.update_self] at hcell
      rw [← Option.some.inj hcell]
      exact hc
    · rw [Function.update_of_ne hut] at hcell
      exact h.owned u hu c' hcell
  kept := by
    intro u hu
    have hut : u ≠ t := fun heq => ht (heq ▸ hu)
    show cell s u = _
    rw [hs, Function.update_of_ne hut]
    exact h.kept u hu
  kept' := by
    intro u hu
    have hut : u ≠ t := fun heq => ht (heq ▸ hu)
    show cell s' u = _
    rw [hs', Function.update_of_ne hut]
    exact h.kept' u hu
  known := by
    intro u hu
    show u ∉ S.others ∧ ∃ c, cell s u = some c
    rw [hs]
    by_cases hut : u = t
    · rw [hut, Function.update_self]
      exact ⟨ht, c, rfl⟩
    · rw [Function.update_of_ne hut]
      exact h.known u (Set.mem_of_mem_insert_of_ne hu hut)
  spared := h.spared
  spared' := h.spared'

theorem Apart.le (h : S.Apart p w w') {q : Set TicketId} (hle : q ⊆ p) : S.Apart q w w' :=
  { h with known := fun t ht => h.known t (hle ht) }

/-- A store without changes to its cells. -/
theorem Apart.unchanged (h : S.Apart p w w') {s : σ} {s' : σ'} (hs : cell s = cell w.tickets)
    (hs' : cell s' = cell w'.tickets) :
    S.Apart p { w with tickets := s } { w' with tickets := s' } where
  grants := h.grants
  same := by
    intro u hu
    show cell s u = cell s' u
    rw [hs, hs']
    exact h.same u hu
  owned := by
    intro u hu c hc
    have hcell : cell s u = some c := hc
    rw [hs] at hcell
    exact h.owned u hu c hcell
  kept := fun u hu => (congrFun hs u).trans (h.kept u hu)
  kept' := fun u hu => (congrFun hs' u).trans (h.kept' u hu)
  known := by
    intro u hu
    show u ∉ S.others ∧ ∃ c, cell s u = some c
    rw [hs]
    exact h.known u hu
  spared := h.spared
  spared' := h.spared'

/-- An operation on a ticket that is not set apart answers alike in both. -/
theorem Apart.acts (h : S.Apart p w w') (ht : t ∉ S.others) {op : Cell → Bool × Cell}
    (hrefused : ∀ c, (op c).1 = false → (op c).2 = c) (hcall : ∀ c, (op c).2.call = c.call)
    {b b' : Bool} {s : σ} {s' : σ'} (hacts : ActsOn cell op w.tickets t (b, s))
    (hacts' : ActsOn cell op w'.tickets t (b', s')) :
    (b = false ∧ b' = false ∧ S.Apart p { w with tickets := s } { w' with tickets := s' }) ∨
      (b = true ∧ b' = true ∧
        S.Apart (insert t p) { w with tickets := s } { w' with tickets := s' }) := by
  have hanswers : b = b' := by
    have hb : b = _ := hacts.answer
    have hb' : b' = _ := hacts'.answer
    rw [hb, hb', h.same t ht]
  subst hanswers
  cases b with
  | false => exact Or.inl ⟨rfl, rfl, h.unchanged (hacts.of_false hrefused) (hacts'.of_false hrefused)⟩
  | true =>
      obtain ⟨c, hc, -, hs⟩ := hacts.of_true
      obtain ⟨c', hc', -, hs'⟩ := hacts'.of_true
      obtain rfl : c = c' := Option.some.inj (by rw [← hc, ← hc', h.same t ht])
      refine Or.inr ⟨rfl, rfl, h.update ht ?_ hs hs'⟩
      rw [hcall]
      exact h.owned t ht c hc

-- ============================================================================
-- Await points
-- ============================================================================

theorem lockstep_note {m : Mark} (hm : ∀ u, m.writes = some u → u ∉ S.others) :
    (note m : Task σ Unit).Lockstep S.Apart S.Fresh (fun _ _ _ => True) p (note m : Task σ' Unit) :=
  .atomic fun _ q _ _ _ _ hw =>
    Or.inr ⟨(), _, (), _, q, rfl, rfl, le_rfl, hw.mark hm hm, fun _ _ => trivial⟩

theorem lockstep_readClock : (readClock : Task σ Time).Lockstep S.Apart S.Fresh
    (fun _ now now' => now = now') p (readClock : Task σ' Time) :=
  .atomic fun _ q _ _ _ _ hw => Or.inr ⟨_, _, _, _, q, rfl, rfl, le_rfl, hw, fun _ _ => rfl⟩

theorem lockstep_auditEvent {event : String} {call : ToolCall} {fields : Fields} :
    (auditEvent event call fields : Task σ Unit).Lockstep S.Apart S.Fresh (fun _ _ _ => True) p
      (auditEvent event call fields : Task σ' Unit) :=
  .atomic fun _ q _ _ _ _ hw =>
    Or.inr ⟨(), _, (), _, q, rfl, rfl, le_rfl,
      ⟨hw.grants, hw.same, hw.owned, hw.kept, hw.kept', hw.known, hw.spared, hw.spared'⟩,
      fun _ _ => trivial⟩

theorem lockstep_grantFor {call : ToolCall} : (grantFor call : Task σ _).Lockstep S.Apart S.Fresh
    (fun _ answer answer' => answer = answer') p (grantFor call : Task σ' _) := by
  refine .atomic fun slot q w w' _ _ hw => Or.inr ?_
  have hno : ∀ grant, ∀ u, (Mark.consulted call grant).writes = some u → u ∉ S.others :=
    fun _ => Mark.spares_of_none rfl
  rw [← hw.grants]
  cases w.grants call with
  | error e => exact ⟨_, _, _, _, q, rfl, rfl, le_rfl, hw, fun _ _ => rfl⟩
  | ok granted =>
      cases granted with
      | none => exact ⟨_, _, _, _, q, rfl, rfl, le_rfl, hw, fun _ _ => rfl⟩
      | some grant =>
          exact ⟨_, _, _, _, q, rfl, rfl, le_rfl, hw.mark (hno grant) (hno grant), fun _ _ => rfl⟩

/-- A ticket that is not set apart is read alike, and is the agent's. -/
theorem lockstep_getTicket (ht : t ∉ S.others) :
    (getTicket t : Task σ _).Lockstep S.Apart S.Fresh (fun _ found found' => found = found' ∧
      ∀ ticket, found = some ticket → ticket.call.agentId = S.agentId) p
      (getTicket t : Task σ' _) := by
  refine .atomic fun slot q w w' _ _ hw => Or.inr ?_
  have hsame : TicketStore.get w.tickets t = TicketStore.get w'.tickets t := by
    rw [get_eq, get_eq, hw.same t ht]
  rw [← hsame]
  cases hget : TicketStore.get w.tickets t with
  | none =>
      refine ⟨_, _, _, _, q, rfl, rfl, le_rfl,
        hw.mark (Mark.spares_of_none rfl) (Mark.spares_of_none rfl),
        fun _ _ => ⟨rfl, fun ticket heq => ?_⟩⟩
      cases heq
  | some ticket =>
      refine ⟨_, _, _, _, q, rfl, rfl, le_rfl,
        hw.mark (Mark.spares_of_none rfl) (Mark.spares_of_none rfl),
        fun _ _ => ⟨rfl, fun ticket' heq => ?_⟩⟩
      rw [get_eq] at hget
      obtain ⟨c, hc, rfl⟩ := Option.map_eq_some_iff.mp hget
      rw [← Option.some.inj heq]
      exact hw.owned t ht c hc

/-- An id that is set apart is no ticket of the agent in either store. -/
theorem lockstep_getTicket_foreign (ht : t ∈ S.others) :
    (getTicket t : Task σ _).Lockstep S.Apart S.Fresh (fun _ found found' =>
      (∀ ticket, found = some ticket → ticket.call.agentId ≠ S.agentId) ∧
      ∀ ticket, found' = some ticket → ticket.call.agentId ≠ S.agentId) p
      (getTicket t : Task σ' _) := by
  refine .atomic fun slot q w w' _ _ hw => Or.inr ?_
  have hforeign : ∀ ticket, TicketStore.get w.tickets t = some ticket →
      ticket.call.agentId ≠ S.agentId := by
    intro ticket hget
    rw [get_eq, hw.kept t ht] at hget
    obtain ⟨c, hc, rfl⟩ := Option.map_eq_some_iff.mp hget
    exact S.foreign t ht c hc
  have hforeign' : ∀ ticket, TicketStore.get w'.tickets t = some ticket →
      ticket.call.agentId ≠ S.agentId := by
    intro ticket hget
    rw [get_eq, hw.kept' t ht] at hget
    obtain ⟨c, hc, rfl⟩ := Option.map_eq_some_iff.mp hget
    exact S.foreign' t ht c hc
  have hread : ∀ ticket u, (Mark.read t ticket).writes = some u → u ∉ S.others :=
    fun _ => Mark.spares_of_none rfl
  have hmissed : ∀ u, (Mark.missed t).writes = some u → u ∉ S.others := Mark.spares_of_none rfl
  cases hget : TicketStore.get w.tickets t <;> cases hget' : TicketStore.get w'.tickets t
  · exact ⟨_, _, _, _, q, rfl, rfl, le_rfl, hw.mark hmissed hmissed, fun _ _ =>
      ⟨hget ▸ hforeign, hget' ▸ hforeign'⟩⟩
  · exact ⟨_, _, _, _, q, rfl, rfl, le_rfl, hw.mark hmissed (hread _), fun _ _ =>
      ⟨hget ▸ hforeign, hget' ▸ hforeign'⟩⟩
  · exact ⟨_, _, _, _, q, rfl, rfl, le_rfl, hw.mark (hread _) hmissed, fun _ _ =>
      ⟨hget ▸ hforeign, hget' ▸ hforeign'⟩⟩
  · exact ⟨_, _, _, _, q, rfl, rfl, le_rfl, hw.mark (hread _) (hread _), fun _ _ =>
      ⟨hget ▸ hforeign, hget' ▸ hforeign'⟩⟩

theorem lockstep_decideTicket (ht : t ∉ S.others) {d : Decision} :
    (decideTicket t d : Task σ Bool).Lockstep S.Apart S.Fresh (fun _ b b' => b = b') p
      (decideTicket t d : Task σ' Bool) := by
  refine .atomic fun slot q w w' _ _ hw => Or.inr ?_
  have hacts := decide_acts w.tickets t d
  have hacts' := decide_acts w'.tickets t d
  generalize TicketStore.decide w.tickets t d = res at hacts ⊢
  generalize TicketStore.decide w'.tickets t d = res' at hacts' ⊢
  obtain ⟨b, s⟩ := res
  obtain ⟨b', s'⟩ := res'
  obtain ⟨rfl, rfl, happart⟩ | ⟨rfl, rfl, happart⟩ :=
    hw.acts ht (fun c hc => (Cell.decide_false hc).2) (fun c => by
      unfold Cell.decide
      split <;> rfl) hacts hacts'
  · exact ⟨_, _, _, _, q, rfl, rfl, le_rfl,
      happart.mark (Mark.spares_of_none rfl) (Mark.spares_of_none rfl), fun _ _ => rfl⟩
  · exact ⟨_, _, _, _, insert t q, rfl, rfl, Set.subset_insert t q,
      happart.mark (Mark.spares_of_some rfl ht) (Mark.spares_of_some rfl ht), fun _ _ => rfl⟩

/-- Who gets the claim knows the ticket. -/
theorem lockstep_claimTicket (ht : t ∉ S.others) :
    (claimTicket t : Task σ Bool).Lockstep S.Apart S.Fresh
      (fun q won won' => won = won' ∧ (won = true → t ∈ q)) p (claimTicket t : Task σ' Bool) := by
  refine .atomic fun slot q w w' _ _ hw => Or.inr ?_
  have hacts := claim_acts w.tickets t slot.input.now
  have hacts' := claim_acts w'.tickets t slot.input.now
  generalize TicketStore.claim w.tickets t slot.input.now = res at hacts ⊢
  generalize TicketStore.claim w'.tickets t slot.input.now = res' at hacts' ⊢
  obtain ⟨b, s⟩ := res
  obtain ⟨b', s'⟩ := res'
  obtain ⟨rfl, rfl, happart⟩ | ⟨rfl, rfl, happart⟩ :=
    hw.acts ht (fun c hc => Cell.claim_false hc) (fun c => by
      unfold Cell.claim
      split <;> rfl) hacts hacts'
  · refine ⟨_, _, _, _, q, rfl, rfl, le_rfl, happart, fun _ _ => ⟨rfl, fun heq => ?_⟩⟩
    cases heq
  · exact ⟨_, _, _, _, insert t q, rfl, rfl, Set.subset_insert t q,
      happart.mark (Mark.spares_of_some rfl ht) (Mark.spares_of_some rfl ht),
      fun r hr => ⟨rfl, fun _ => hr (Set.mem_insert t q)⟩⟩

theorem lockstep_closeStaleClaim (ht : t ∉ S.others) {older : Time} {result : ToolResult} :
    (closeStaleClaim t older result : Task σ Bool).Lockstep S.Apart S.Fresh
      (fun _ closed closed' => closed = closed') p (closeStaleClaim t older result : Task σ' Bool) := by
  refine .atomic fun slot q w w' _ _ hw => Or.inr ?_
  have hacts := closeStaleClaim_acts w.tickets t slot.input.now older result
  have hacts' := closeStaleClaim_acts w'.tickets t slot.input.now older result
  generalize TicketStore.closeStaleClaim w.tickets t slot.input.now older result = res at hacts ⊢
  generalize TicketStore.closeStaleClaim w'.tickets t slot.input.now older result = res' at hacts' ⊢
  obtain ⟨b, s⟩ := res
  obtain ⟨b', s'⟩ := res'
  obtain ⟨rfl, rfl, happart⟩ | ⟨rfl, rfl, happart⟩ :=
    hw.acts ht (fun c hc => Cell.closeStaleClaim_false hc) (fun c => by
      unfold Cell.closeStaleClaim
      split <;> rfl) hacts hacts'
  · exact ⟨_, _, _, _, q, rfl, rfl, le_rfl, happart, fun _ _ => rfl⟩
  · exact ⟨_, _, _, _, insert t q, rfl, rfl, Set.subset_insert t q,
      happart.mark (Mark.spares_of_some rfl ht) (Mark.spares_of_some rfl ht), fun _ _ => rfl⟩

/-- A result is stored on a known ticket. -/
theorem lockstep_completeTicket (ht : t ∈ p) {outcome : Except GatewayError ToolResult} :
    (completeTicket t outcome : Task σ _).Lockstep S.Apart S.Fresh
      (fun _ answer answer' => answer = answer') p (completeTicket t outcome : Task σ' _) := by
  refine .atomic fun slot q w w' _ hq hw => Or.inr ?_
  obtain ⟨hothers, c, hc⟩ := hw.known t (hq ht)
  have hc' : cell w'.tickets t = some c := hw.same t hothers ▸ hc
  obtain ⟨s, hcomplete, hs⟩ := complete_known w.tickets t (storedResult outcome) c hc
  obtain ⟨s', hcomplete', hs'⟩ := complete_known w'.tickets t (storedResult outcome) c hc'
  rw [hcomplete, hcomplete']
  have happart := hw.update (c := c.complete (storedResult outcome)) hothers
    (hw.owned t hothers c hc) hs hs'
  exact ⟨_, _, _, _, insert t q, rfl, rfl, Set.subset_insert t q,
    happart.mark (Mark.spares_of_some rfl hothers) (Mark.spares_of_some rfl hothers),
    fun _ _ => rfl⟩

/-- A call of the agent is filed under a fresh id. -/
theorem lockstep_createTicket {call : ToolCall} (hcall : call.agentId = S.agentId) :
    (createTicket call : Task σ _).Lockstep S.Apart S.Fresh
      (fun q answer answer' => answer = answer' ∧ ∀ u, answer = .ok u → u ∉ S.others ∧ u ∈ q) p
      (createTicket call : Task σ' _) := by
  refine .atomic fun slot q w w' hok hq hw => ?_
  have hfresh : "tkt-" ++ slot.input.uuid ∉ S.others := hok
  have hsame : TicketStore.get w.tickets ("tkt-" ++ slot.input.uuid)
      = TicketStore.get w'.tickets ("tkt-" ++ slot.input.uuid) := by
    rw [get_eq, get_eq, hw.same _ hfresh]
  dsimp only
  rw [← hsame]
  cases hget : TicketStore.get w.tickets ("tkt-" ++ slot.input.uuid) with
  | some _ => exact Or.inl ⟨rfl, rfl⟩
  | none =>
      have hnone : cell w.tickets ("tkt-" ++ slot.input.uuid) = none := by
        rw [get_eq] at hget
        exact Option.map_eq_none_iff.mp hget
      obtain ⟨s, hcreate, hs⟩ := create_fresh w.tickets _ call slot.input.now hnone
      obtain ⟨s', hcreate', hs'⟩ :=
        create_fresh w'.tickets _ call slot.input.now (hw.same _ hfresh ▸ hnone)
      rw [hcreate, hcreate']
      have happart := hw.update (c := Cell.filed call) hfresh hcall hs hs'
      refine Or.inr ⟨_, _, _, _, _, rfl, rfl, Set.subset_insert _ q,
        happart.mark (Mark.spares_of_some rfl hfresh) (Mark.spares_of_some rfl hfresh),
        fun r hr => ⟨rfl, fun u hu => ?_⟩⟩
      cases hu
      exact ⟨hfresh, hr (Set.mem_insert _ q)⟩

-- ============================================================================
-- Steps
-- ============================================================================

variable {α β γ : Type} {ctx : CallContext}

/-- Run side by side, the two programs end alike, and with a call of the agent. -/
def Private (S : Setting σ σ') (p : Set TicketId) (ctx : CallContext) (m : StepM σ α)
    (m' : StepM σ' α) : Prop :=
  Prog.Alike S.Apart S.Fresh p ctx m m' fun _ _ ctx' => ctx'.call.agentId = S.agentId

/-- So does the rest of a chain, whenever it is run with a call of the agent. -/
def PrivateNext (S : Setting σ σ') (p : Set TicketId) (n : StepM σ ToolResult)
    (n' : StepM σ' ToolResult) : Prop :=
  ∀ q ctx, p ≤ q → ctx.call.agentId = S.agentId → S.Private q ctx n n'

section
variable {n : StepM σ ToolResult} {n' : StepM σ' ToolResult}

theorem PrivateNext.le {q : Set TicketId} (h : S.PrivateNext p n n') (hq : p ≤ q) :
    S.PrivateNext q n n' :=
  fun r ctx hr hctx => h r ctx (hq.trans hr) hctx

theorem audit_alike {event : String} {fields : Fields} {f : Unit → StepM σ β}
    {f' : Unit → StepM σ' β} {post : Set TicketId → Except Exc β → CallContext → Prop}
    (h : ∀ q, p ≤ q → Prog.Alike S.Apart S.Fresh q ctx (f ()) (f' ()) post) :
    Prog.Alike S.Apart S.Fresh p ctx (audit event fields >>= f) (audit event fields >>= f') post := by
  refine ⟨?_⟩
  show Co.Lockstep S.Apart S.Fresh _ p
    ((auditEvent event ctx.call fields : Task σ Unit) >>= fun _ => (f ()).exec ctx)
    ((auditEvent event ctx.call fields : Task σ' Unit) >>= fun _ => (f' ()).exec ctx)
  exact .bind lockstep_auditEvent fun q _ _ hq _ => (h q hq).lockstep

theorem orRaise_alike {c : γ} {r : Except PyError α} {f : α → Prog Exc γ Input (World σ) β}
    {f' : α → Prog Exc γ Input (World σ') β} {post : Set TicketId → Except Exc β → γ → Prop}
    (hok : ∀ a, r = .ok a → Prog.Alike S.Apart S.Fresh p c (f a) (f' a) post)
    (herror : ∀ e q, r = .error e → p ≤ q → post q (.error (.python e)) c) :
    Prog.Alike S.Apart S.Fresh p c (orRaise r >>= f) (orRaise r >>= f') post := by
  cases hr : r with
  | ok a => exact hok a hr
  | error e => exact .throw fun q hq => herror e q hr hq

theorem note_alike {c : γ} {m : Mark} (hm : ∀ u, m.writes = some u → u ∉ S.others)
    {f : Unit → Prog Exc γ Input (World σ) β} {f' : Unit → Prog Exc γ Input (World σ') β}
    {post : Set TicketId → Except Exc β → γ → Prop}
    (h : ∀ q, p ≤ q → Prog.Alike S.Apart S.Fresh q c (f ()) (f' ()) post) :
    Prog.Alike S.Apart S.Fresh p c (Prog.lift (note m) >>= f) (Prog.lift (note m) >>= f') post :=
  .lift_bind (lockstep_note hm) fun q _ _ hq _ => h q hq

/-- An answer of the outside world is the same in both. -/
theorem ask_alike {c : γ} {answer : Slot Input → α} {f : α → Prog Exc γ Input (World σ) β}
    {f' : α → Prog Exc γ Input (World σ') β} {post : Set TicketId → Except Exc β → γ → Prop}
    (h : ∀ q a, p ≤ q → Prog.Alike S.Apart S.Fresh q c (f a) (f' a) post) :
    Prog.Alike S.Apart S.Fresh p c (Prog.atomic (fun slot w => some (answer slot, w)) >>= f)
      (Prog.atomic (fun slot w => some (answer slot, w)) >>= f') post := by
  have hask : (Co.atomic fun slot (w : World σ) => some (answer slot, w)).Lockstep S.Apart S.Fresh
      (fun _ a a' => a = a') p (Co.atomic fun slot (w : World σ') => some (answer slot, w)) :=
    .atomic fun _ q _ _ _ _ hw => Or.inr ⟨_, _, _, _, q, rfl, rfl, le_rfl, hw, fun _ _ => rfl⟩
  exact .lift_bind hask fun q a _ hq heq => heq ▸ h q a hq

/-- So it is with a mark of what was asked. -/
theorem ask_mark_alike {c : γ} {answer : Slot Input → α} {m : Slot Input → Mark}
    (hm : ∀ slot u, (m slot).writes = some u → u ∉ S.others)
    {f : α → Prog Exc γ Input (World σ) β} {f' : α → Prog Exc γ Input (World σ') β}
    {post : Set TicketId → Except Exc β → γ → Prop}
    (h : ∀ q a, p ≤ q → Prog.Alike S.Apart S.Fresh q c (f a) (f' a) post) :
    Prog.Alike S.Apart S.Fresh p c
      (Prog.atomic (fun slot w => some (answer slot, w.mark slot.me (m slot))) >>= f)
      (Prog.atomic (fun slot w => some (answer slot, w.mark slot.me (m slot))) >>= f') post := by
  have hask : (Co.atomic fun slot (w : World σ) => some (answer slot, w.mark slot.me (m slot))).Lockstep
      S.Apart S.Fresh (fun _ a a' => a = a') p
      (Co.atomic fun slot (w : World σ') => some (answer slot, w.mark slot.me (m slot))) :=
    .atomic fun slot q _ _ _ _ hw => Or.inr
      ⟨_, _, _, _, q, rfl, rfl, le_rfl, hw.mark (hm slot) (hm slot), fun _ _ => rfl⟩
  exact .lift_bind hask fun q a _ hq heq => heq ▸ h q a hq

/-- Recording an error changes nothing about how a step ends. -/
theorem private_audited {step : Step σ} {step' : Step σ'} {event : String}
    (h : S.Private p ctx (step.handleCall n) (step'.handleCall n')) :
    S.Private p ctx ((audited step event).handleCall n) ((audited step' event).handleCall n') := by
  refine Prog.Alike.tryCatch h (fun _ _ _ _ hctx => hctx) fun q e ctx' hq hctx => ?_
  cases e with
  | gateway e => exact audit_alike fun _ _ => .throw fun _ _ => hctx
  | _ => exact .throw fun _ _ => hctx

theorem private_rateLimit (hnext : S.PrivateNext p n n') (hctx : ctx.call.agentId = S.agentId) :
    S.Private p ctx (RateLimit.handleCall n) (RateLimit.handleCall n') := by
  refine .get_bind (ask_alike fun q admitted hq => ?_)
  cases admitted with
  | true => exact hnext q ctx hq hctx
  | false => exact .throw fun _ _ => hctx

theorem private_authorize (hnext : S.PrivateNext p n n') (hctx : ctx.call.agentId = S.agentId) :
    S.Private p ctx (Authorize.handleCall n) (Authorize.handleCall n') := by
  refine .get_bind (.lift_bind lockstep_grantFor ?_)
  rintro q answer _ hq rfl
  refine orRaise_alike (fun granted _ => ?_) fun _ _ _ _ => hctx
  cases granted with
  | none => exact .throw fun _ _ => hctx
  | some grant =>
      refine .modify_bind (audit_alike fun r hr => ?_)
      exact hnext r _ (hq.trans hr) hctx

theorem private_validateSchema {checkArgs : Json → Json → Except PyError (List String)}
    (hnext : S.PrivateNext p n n') (hctx : ctx.call.agentId = S.agentId) :
    S.Private p ctx ((ValidateSchema checkArgs).handleCall n)
      ((ValidateSchema checkArgs).handleCall n') := by
  refine .get_bind (orRaise_alike (fun errors _ => ?_) fun _ _ _ _ => hctx)
  split
  · exact note_alike (Mark.spares_of_none rfl) fun q hq => hnext q ctx hq hctx
  · exact .throw fun _ _ => hctx

theorem private_materializeSecrets (hnext : S.PrivateNext p n n')
    (hctx : ctx.call.agentId = S.agentId) :
    S.Private p ctx (MaterializeSecrets.handleCall n) (MaterializeSecrets.handleCall n') := by
  refine .get_bind (ask_mark_alike (fun _ => Mark.spares_of_none rfl) fun q answer hq => ?_)
  cases answer with
  | error e => exact .throw fun _ _ => hctx
  | ok resolved =>
      refine .modify_bind ?_
      dsimp only
      split
      · exact .modify_bind (audit_alike fun r hr => hnext r _ (hq.trans hr) hctx)
      · exact hnext q _ hq hctx

theorem private_redact {redact : ToolResult → String → Except Exc ToolResult}
    (hnext : S.PrivateNext p n n') (hctx : ctx.call.agentId = S.agentId) :
    S.Private p ctx ((Redact redact).handleCall n) ((Redact redact).handleCall n') := by
  refine Prog.Alike.bind (hnext p ctx le_rfl hctx) (fun q result ctx' hq hctx' => ?_)
    fun _ _ _ _ hctx' => hctx'
  refine .get_bind ?_
  split
  · exact .pure fun _ _ => hctx'
  · exact audit_alike fun _ _ => .throw fun _ _ => hctx'
  · exact .throw fun _ _ => hctx'

theorem private_dispatch (hctx : ctx.call.agentId = S.agentId) :
    S.Private p ctx (Dispatch.handleCall n) (Dispatch.handleCall n') := by
  refine .get_bind (ask_mark_alike (fun _ => Mark.spares_of_none rfl) fun q started hq =>
    ask_mark_alike (fun _ => Mark.spares_of_none rfl) fun r x hr => ?_)
  obtain ⟨answer, now⟩ := x
  cases answer with
  | raised typeName text => exact audit_alike fun _ _ => .throw fun _ _ => hctx
  | result result =>
      exact note_alike (Mark.spares_of_none rfl) fun _ _ =>
        audit_alike fun _ _ => .pure fun _ _ => hctx

-- ============================================================================
-- The gate
-- ============================================================================

theorem private_applyDecision {d : Decision} (hctx : ctx.call.agentId = S.agentId) :
    S.Private p ctx (applyDecision d) (applyDecision d) := by
  unfold applyDecision
  split
  · refine .get_bind ?_
    split
    · refine orRaise_alike (fun changed _ => ?_) fun _ _ _ _ => hctx
      exact .update fun _ _ => hctx
    · exact .pure fun _ _ => hctx
  · exact .throw fun _ _ => hctx

theorem private_keepError (ht : t ∈ p) {exc : Exc} (hctx : ctx.call.agentId = S.agentId) :
    S.Private p ctx (keepError t exc) (keepError t exc) := by
  cases exc with
  | gateway e =>
      refine .lift_bind (lockstep_completeTicket ht) ?_
      rintro q answer _ hq rfl
      exact orRaise_alike (fun _ _ => .throw fun _ _ => hctx) fun _ _ _ _ => hctx
  | _ => exact .throw fun _ _ => hctx

theorem private_lostClaim (ht : t ∉ S.others) {lease : Time} (hctx : ctx.call.agentId = S.agentId) :
    S.Private p ctx (lostClaim t lease) (lostClaim t lease) := by
  refine .lift_bind (lockstep_getTicket ht) ?_
  rintro q found _ hq ⟨rfl, -⟩
  dsimp only
  split
  · exact .pure fun _ _ => hctx
  · refine .lift_bind (lockstep_closeStaleClaim ht) ?_
    rintro r closed _ hr rfl
    cases closed with
    | true => exact .pure fun _ _ => hctx
    | false => exact .throw fun _ _ => hctx

theorem private_runOnce (ht : t ∉ S.others) {lease : Time} (hnext : S.PrivateNext p n n')
    (hctx : ctx.call.agentId = S.agentId) :
    S.Private p ctx (runOnce t lease n) (runOnce t lease n') := by
  refine .lift_bind (lockstep_claimTicket ht) ?_
  rintro q won _ hq ⟨rfl, hknown⟩
  cases won with
  | false => exact private_lostClaim ht hctx
  | true =>
      have hmem : t ∈ q := hknown rfl
      refine .get_bind (note_alike (Mark.spares_of_none rfl) fun r hr => ?_)
      have hrun : S.Private r ctx (tryCatch n (keepError t)) (tryCatch n' (keepError t)) :=
        Prog.Alike.tryCatch (hnext r ctx (hq.trans hr) hctx) (fun _ _ _ _ hctx' => hctx')
          fun _ _ _ hle hctx' => private_keepError (hle (hr hmem)) hctx'
      refine Prog.Alike.bind hrun (fun r' result ctx' hle hctx' => ?_) fun _ _ _ _ hctx' => hctx'
      refine .lift_bind (lockstep_completeTicket (hle (hr hmem))) ?_
      rintro q' answer _ hq' rfl
      exact orRaise_alike (fun _ _ => .pure fun _ _ => hctx') fun _ _ _ _ => hctx'

theorem private_awaitDecision (ht : t ∉ S.others) {deadline : Time} {rechecks : ℕ}
    (hctx : ctx.call.agentId = S.agentId) :
    S.Private p ctx (awaitDecision t deadline rechecks) (awaitDecision t deadline rechecks) := by
  induction rechecks generalizing p with
  | zero => exact ⟨fun _ _ _ _ _ _ _ => Or.inl ⟨rfl, rfl⟩⟩
  | succ rechecks ih =>
      refine .lift_bind (lockstep_getTicket ht) ?_
      rintro q found _ hq ⟨rfl, -⟩
      cases found with
      | none => exact .throw fun _ _ => hctx
      | some ticket =>
          dsimp only
          split
          · exact .pure fun _ _ => hctx
          · refine .lift_bind lockstep_readClock ?_
            rintro r now _ hr rfl
            split
            · exact .pure fun _ _ => hctx
            · exact ask_alike fun _ _ _ => ih

theorem private_settle (ht : t ∉ S.others) {d : Decision} (hctx : ctx.call.agentId = S.agentId) :
    S.Private p ctx (settle t d) (settle t d) := by
  unfold settle
  split
  · refine .lift_bind (lockstep_decideTicket ht) ?_
    rintro q taken _ hq rfl
    cases taken with
    | true => exact .pure fun _ _ => hctx
    | false =>
        refine .lift_bind (lockstep_getTicket ht) ?_
        rintro r found _ hr ⟨rfl, -⟩
        cases found with
        | none => exact .throw fun _ _ => hctx
        | some ticket => exact .pure fun _ _ => hctx
  · exact .pure fun _ _ => hctx

theorem private_waitForVerdict (ht : t ∉ S.others) (s : GateSettings)
    (hnext : S.PrivateNext p n n') (hctx : ctx.call.agentId = S.agentId) :
    S.Private p ctx (waitForVerdict s t n) (waitForVerdict s t n') := by
  refine .lift_bind lockstep_readClock ?_
  rintro r₁ start _ hr₁ rfl
  refine Prog.Alike.bind (private_awaitDecision ht hctx) (fun r₂ awaited ctx₂ hr₂ hctx₂ => ?_)
    fun _ _ _ _ hctx' => hctx'
  refine Prog.Alike.bind (private_settle ht hctx₂) (fun r₃ decision ctx₃ hr₃ hctx₃ => ?_)
    fun _ _ _ _ hctx' => hctx'
  refine audit_alike fun r₄ hr₄ => note_alike (Mark.spares_of_none rfl) fun r₅ hr₅ => ?_
  refine Prog.Alike.bind (private_applyDecision hctx₃) (fun r₆ _ ctx₆ hr₆ hctx₆ => ?_)
    fun _ _ _ _ hctx' => hctx'
  have hle : p ≤ r₆ := hr₁.trans (hr₂.trans (hr₃.trans (hr₄.trans (hr₅.trans hr₆))))
  exact private_runOnce ht (hnext.le hle) hctx₆

theorem private_fromNotice (ht : t ∉ S.others) (s : GateSettings) (mode : ApprovalMode)
    (canBlock : Bool) (hnext : S.PrivateNext p n n') (hctx : ctx.call.agentId = S.agentId) :
    S.Private p ctx (fromNotice s t mode canBlock n) (fromNotice s t mode canBlock n') := by
  unfold fromNotice
  split
  · exact .throw fun _ _ => hctx
  · exact private_waitForVerdict ht s hnext hctx

theorem private_approvalGate {s : GateSettings} (hnext : S.PrivateNext p n n')
    (hctx : ctx.call.agentId = S.agentId) :
    S.Private p ctx ((ApprovalGate s).handleCall n) ((ApprovalGate s).handleCall n') := by
  refine .get_bind ?_
  dsimp only
  split
  · exact hnext p ctx le_rfl hctx
  refine .lift_bind (lockstep_createTicket hctx) ?_
  rintro q answer _ hq ⟨rfl, hfiled⟩
  refine orRaise_alike (fun t hanswer => ?_) fun _ _ _ _ => hctx
  have ht : t ∉ S.others := (hfiled t hanswer).1
  refine audit_alike fun r hr => ?_
  have hdecide : ∀ r', r ≤ r' → S.Private r' ctx
      (fromNotice s t ((ctx.grant.map Grant.approvalMode).getD .auto) ctx.canBlock n)
      (fromNotice s t ((ctx.grant.map Grant.approvalMode).getD .auto) ctx.canBlock n') :=
    fun r' hr' => private_fromNotice ht s _ _ (hnext.le (hq.trans (hr.trans hr'))) hctx
  split
  · refine ask_alike fun r' failure hr' => ?_
    cases failure with
    | none => exact hdecide r' hr'
    | some error => exact audit_alike fun r'' hr'' => hdecide r'' (hr'.trans hr'')
  · exact hdecide r le_rfl

end

-- ============================================================================
-- Entry points
-- ============================================================================

theorem privateNext_audited {step : Step σ} {step' : Step σ'} {event : String}
    {n : StepM σ ToolResult} {n' : StepM σ' ToolResult}
    (h : ∀ q ctx, p ≤ q → ctx.call.agentId = S.agentId →
      S.Private q ctx (step.handleCall n) (step'.handleCall n')) :
    S.PrivateNext p ((audited step event).handleCall n) ((audited step' event).handleCall n') :=
  fun q ctx hq hctx => private_audited (h q ctx hq hctx)

theorem private_postApproval (s : Settings) :
    S.PrivateNext p (Pipeline.run (postApproval s [])) (Pipeline.run (postApproval s [])) := by
  rw [postApproval_nil, postApproval_nil]
  refine privateNext_audited fun q ctx hq hctx => private_validateSchema ?_ hctx
  refine privateNext_audited fun q ctx hq hctx => private_materializeSecrets ?_ hctx
  refine fun q ctx hq hctx => private_redact ?_ hctx
  exact fun q ctx hq hctx => private_dispatch hctx

theorem private_full (s : Settings) :
    S.PrivateNext p (Pipeline.run (full s [])) (Pipeline.run (full s [])) := by
  have hauthorize : S.PrivateNext p
      (Pipeline.run (audited Authorize "authorize" :: audited (ApprovalGate s.gate) "approval" ::
        postApproval s []))
      (Pipeline.run (audited Authorize "authorize" :: audited (ApprovalGate s.gate) "approval" ::
        postApproval s [])) := by
    refine privateNext_audited fun q ctx hq hctx => private_authorize ?_ hctx
    refine privateNext_audited fun q ctx hq hctx => private_approvalGate ?_ hctx
    exact private_postApproval s
  rw [full_nil, full_nil]
  cases s.limited with
  | true =>
      refine privateNext_audited fun q ctx hq hctx => private_rateLimit ?_ hctx
      exact hauthorize.le hq
  | false => exact hauthorize

theorem within_alike {m : StepM σ α} {m' : StepM σ' α} (h : S.Private p ctx m m')
    {post : Set TicketId → Except Exc α → Unit → Prop} (hpost : ∀ q r, post q r ()) :
    Prog.Alike S.Apart S.Fresh p () (GatewayM.within ctx m) (GatewayM.within ctx m') post := by
  refine .lift_bind h.lockstep ?_
  rintro q ⟨r, ctx'⟩ _ hq ⟨rfl, -⟩
  cases r with
  | ok a => exact .pure fun _ _ => hpost _ _
  | error e => exact .throw fun _ _ => hpost _ _

/-- Run side by side outside any call, the two programs end alike. -/
def Alike (S : Setting σ σ') (p : Set TicketId) (m : GatewayM σ α) (m' : GatewayM σ' α) : Prop :=
  Prog.Alike S.Apart S.Fresh p () m m' fun _ _ _ => True

theorem call_alike (s : Settings) {c : ToolCall} {canBlock : Bool} (hc : c.agentId = S.agentId) :
    S.Alike p (call s [] c canBlock) (call s [] c canBlock) := by
  have hrun : S.Private p { call := c, canBlock := canBlock }
      (do return Reply.result (← Pipeline.run (full s [])))
      (do return Reply.result (← Pipeline.run (full s []))) :=
    Prog.Alike.bind (private_full s p _ le_rfl hc) (fun _ _ _ _ hctx => .pure fun _ _ => hctx)
      fun _ _ _ _ hctx => hctx
  refine within_alike (Prog.Alike.tryCatch hrun (fun _ _ _ _ hctx => hctx)
    fun q e ctx hq hctx => ?_) fun _ _ => trivial
  split
  · exact .pure fun _ _ => hctx
  · exact .throw fun _ _ => hctx

/-- `resume` of a ticket that is not set apart. -/
theorem resume_alike (s : Settings) (ht : t ∉ S.others) :
    S.Alike p (resume s [] t) (resume s [] t) := by
  refine .lift_bind (lockstep_getTicket ht) ?_
  rintro q found _ hq ⟨rfl, hown⟩
  cases found with
  | none => exact .throw fun _ _ => trivial
  | some ticket =>
      have hagent : ticket.call.agentId = S.agentId := hown ticket rfl
      dsimp only
      split
      · exact .pure fun _ _ => trivial
      split
      · exact .throw fun _ _ => trivial
      refine .lift_bind lockstep_grantFor ?_
      rintro r answer _ hr rfl
      refine orRaise_alike (fun granted _ => ?_) fun _ _ _ _ => trivial
      cases granted with
      | none => exact .throw fun _ _ => trivial
      | some grant =>
          refine within_alike ?_ fun _ _ => trivial
          refine note_alike (Mark.spares_of_none rfl) fun r₁ hr₁ => ?_
          refine Prog.Alike.bind (private_applyDecision hagent) (fun r₂ _ ctx₂ hr₂ hctx₂ => ?_)
            fun _ _ _ _ hctx' => hctx'
          refine audit_alike fun r₃ hr₃ => ?_
          exact private_runOnce ht (private_postApproval s) hctx₂

section
variable [PrintTables]

/-- `_check` of any id. -/
theorem checkTicket_alike (s : Settings) (t : TicketId) :
    S.Alike p (McpEdge.checkTicket s [] S.agentId t) (McpEdge.checkTicket s [] S.agentId t) := by
  by_cases ht : t ∈ S.others
  · -- unknown to one store and another agent's in the other: the same answer
    refine .lift_bind (lockstep_getTicket_foreign ht) ?_
    rintro q found found' hq ⟨hforeign, hforeign'⟩
    have hnone : ∀ {m : GatewayM σ CallToolResult} {m' : GatewayM σ' CallToolResult},
        m = McpEdge.noSuchTicket t → m' = McpEdge.noSuchTicket t → S.Alike q m m' := by
      rintro m m' rfl rfl
      exact .throw fun _ _ => trivial
    refine hnone ?_ ?_
    · cases found with
      | none => rfl
      | some ticket => exact if_pos (hforeign ticket rfl)
    · cases found' with
      | none => rfl
      | some ticket => exact if_pos (hforeign' ticket rfl)
  · refine .lift_bind (lockstep_getTicket ht) ?_
    rintro q found _ hq ⟨rfl, -⟩
    cases found with
    | none => exact .throw fun _ _ => trivial
    | some ticket =>
        dsimp only
        split
        · exact .throw fun _ _ => trivial
        split
        · exact .pure fun _ _ => trivial
        have hresume : S.Alike q (do return McpEdge.toolResult (← resume s [] t))
            (do return McpEdge.toolResult (← resume s [] t)) :=
          Prog.Alike.bind (resume_alike s ht) (fun _ _ _ _ _ => .pure fun _ _ => trivial)
            fun _ _ _ _ _ => trivial
        refine Prog.Alike.tryCatch hresume (fun _ _ _ _ _ => trivial) fun r e _ hr _ => ?_
        unfold McpEdge.resumeRaised
        split
        · exact .pure fun _ _ => trivial
        · exact .pure fun _ _ => trivial
        · exact .throw fun _ _ => trivial
        · exact .throw fun _ _ => trivial
        · exact .throw fun _ _ => trivial

theorem handOver_alike (s : Settings) {c : ToolCall} (hc : c.agentId = S.agentId) :
    S.Alike p (McpEdge.handOver s [] c) (McpEdge.handOver s [] c) := by
  have hraised : ∀ q e, S.Alike q (McpEdge.raised e : GatewayM σ Reply) (McpEdge.raised e) := by
    intro q e
    cases e with
    | gateway e => exact .throw fun _ _ => trivial
    | _ => exact .throw fun _ _ => trivial
  have hcaught : S.Alike p (tryCatch (call s [] c false) McpEdge.raised)
      (tryCatch (call s [] c false) McpEdge.raised) :=
    Prog.Alike.tryCatch (call_alike s hc) (fun _ _ _ _ _ => trivial) fun q e _ _ _ => hraised q e
  exact Prog.Alike.bind hcaught (fun _ _ _ _ _ => .pure fun _ _ => trivial) fun _ _ _ _ _ => trivial

/-- Any request of the agent. -/
theorem callTool_alike (s : Settings) {catalog : ToolCatalog} {requestId name : String}
    {arguments : Option Fields} :
    S.Alike p (McpEdge.callTool s [] catalog requestId S.agentId name arguments)
      (McpEdge.callTool s [] catalog requestId S.agentId name arguments) := by
  unfold McpEdge.callTool
  split
  · unfold McpEdge.check
    split
    · exact checkTicket_alike s _
    · split
      · exact .throw fun _ _ => trivial
      · exact .throw fun _ _ => trivial
  · unfold McpEdge.call
    split
    · exact .throw fun _ _ => trivial
    split
    · exact .throw fun _ _ => trivial
    · rename_i listing _
      have hagent : (McpEdge.toolCall listing requestId S.agentId name
          (arguments.getD [])).agentId = S.agentId := by
        unfold McpEdge.toolCall
        rfl
      exact handOver_alike s hagent

end

end Setting

-- ============================================================================
-- Runs
-- ============================================================================

/-- A `tools/call` as it comes in, the agent's verified name apart. -/
structure McpRequest where
  requestId : String
  name : String
  arguments : Option Fields

/-- The ticket has an owner, and it is another agent. -/
def AnothersTicket {σ : Type} [TicketStore σ] [LawfulTicketStore σ] (agentId : String) (w : World σ)
    (t : TicketId) : Prop :=
  ∃ c, cell w.tickets t = some c ∧ c.call.agentId ≠ agentId

/-- What other agents own is as it was before, and nothing has been written to it. -/
structure LeavesOthers {σ : Type} [TicketStore σ] [LawfulTicketStore σ] (agentId : String)
    (w w' : World σ) : Prop where
  cells : ∀ t c, c.call.agentId ≠ agentId → (cell w'.tickets t = some c ↔ cell w.tickets t = some c)
  writes : ∃ new, w'.trail = new ++ w.trail ∧
    ∀ e ∈ new, ∀ t, e.2.writes = some t → ¬ AnothersTicket agentId w' t

/-- The two stores agree on the tickets of this agent. -/
def AgreeOn (agentId : String) (w : World σ) (w' : World σ') : Prop :=
  ∀ t c, c.call.agentId = agentId → (cell w.tickets t = some c ↔ cell w'.tickets t = some c)

/-- The same setting, its two worlds exchanged. -/
def Setting.symm (S : Setting σ σ') : Setting σ' σ where
  agentId := S.agentId
  before := S.before'
  before' := S.before
  others := S.others
  foreign := S.foreign'
  foreign' := S.foreign

theorem Setting.Apart.symm {S : Setting σ σ'} {p : Set TicketId} {w : World σ} {w' : World σ'}
    (h : S.Apart p w w') : S.symm.Apart p w' w where
  grants := h.grants.symm
  same := fun t ht => (h.same t ht).symm
  owned := fun t ht c hc => h.owned t ht c ((h.same t ht).trans hc)
  kept := h.kept'
  kept' := h.kept
  known := by
    intro t ht
    obtain ⟨hothers, c, hc⟩ := h.known t ht
    exact ⟨hothers, c, (h.same t hothers).symm.trans hc⟩
  spared := h.spared'
  spared' := h.spared

/-- Where all of the other agents' tickets are set apart, they are left alone. -/
theorem Setting.Apart.leavesOthers {S : Setting σ σ'} {p : Set TicketId} {w : World σ} {w' : World σ'}
    (h : S.Apart p w w') (hall : ∀ t ∉ S.others, ¬ AnothersTicket S.agentId S.before t) :
    LeavesOthers S.agentId S.before w where
  cells := by
    intro t c hc
    by_cases ht : t ∈ S.others
    · rw [h.kept t ht]
    · constructor
      · intro hcell
        exact absurd (h.owned t ht c hcell) hc
      · intro hcell
        exact absurd ⟨c, hcell, hc⟩ (hall t ht)
  writes := by
    obtain ⟨new, htrail, hnew⟩ := h.spared
    refine ⟨new, htrail, fun e he t ht => ?_⟩
    rintro ⟨c, hcell, hc⟩
    exact hc (h.owned t (hnew e he t ht) c hcell)

/-- Two worlds in which the agent owns the same, with all other agents' tickets set apart. -/
def AgreeOn.setting {agentId : String} {w : World σ} {w' : World σ'} (h : AgreeOn agentId w w') :
    Setting σ σ' where
  agentId := agentId
  before := w
  before' := w'
  others := fun t => AnothersTicket agentId w t ∨ AnothersTicket agentId w' t
  foreign := by
    rintro t (⟨c', hc', hother⟩ | ⟨c', hc', hother⟩) c hc
    · rw [← Option.some.inj (hc'.symm.trans hc)]
      exact hother
    · intro hown
      have hboth := (h t c hown).mp hc
      rw [hc'] at hboth
      exact hother (Option.some.inj hboth ▸ hown)
  foreign' := by
    rintro t (⟨c', hc', hother⟩ | ⟨c', hc', hother⟩) c hc
    · intro hown
      have hboth := (h t c hown).mpr hc
      rw [hc'] at hboth
      exact hother (Option.some.inj hboth ▸ hown)
    · rw [← Option.some.inj (hc'.symm.trans hc)]
      exact hother

theorem AgreeOn.apart {agentId : String} {w : World σ} {w' : World σ'} (h : AgreeOn agentId w w')
    (hgrants : w.grants = w'.grants) : h.setting.Apart ∅ w w' := by
  have hown : ∀ t ∉ h.setting.others, ∀ c, cell w.tickets t = some c → c.call.agentId = agentId := by
    intro t ht c hc
    by_contra hne
    exact ht (Or.inl ⟨c, hc, hne⟩)
  refine ⟨hgrants, fun t ht => Option.ext fun c => ⟨fun hc => ?_, fun hc => ?_⟩, hown,
    fun _ _ => rfl, fun _ _ => rfl, fun _ hf => hf.elim, .refl _ _, .refl _ _⟩
  · exact (h t c (hown t ht c hc)).mp hc
  · refine (h t c ?_).mpr hc
    by_contra hne
    exact ht (Or.inr ⟨c, hc, hne⟩)

/-- The agent's requests at this gateway. -/
def requested [PrintTables] {σ : Type} [TicketStore σ] (s : Settings) (catalog : ToolCatalog)
    (agentId : String)
    (requests : List McpRequest) (w : World σ) :
    Config Input (World σ) (Except Exc CallToolResult × Unit) where
  world := w
  threads := requests.map fun request =>
    some ((McpEdge.callTool s [] catalog request.requestId agentId request.name
      request.arguments).exec ())

/-- Tickets are private to their agent: whatever requests an agent makes, at two gateways
    whose stores agree on its tickets, under the same policy and with the same answers of
    the outside world, it gets the same responses, its tickets come to the same, and those
    of other agents are left alone. -/
theorem tickets_private [PrintTables] (s : Settings) (catalog : ToolCatalog) (agentId : String)
    (requests : List McpRequest) (w : World σ) (w' : World σ') (hgrants : w.grants = w'.grants)
    (hagree : AgreeOn agentId w w') (es : List (Event Input))
    (hfresh : ∀ i input, .step i input ∈ es →
      ¬ AnothersTicket agentId w ("tkt-" ++ input.uuid) ∧
      ¬ AnothersTicket agentId w' ("tkt-" ++ input.uuid)) :
    (∀ i, ((requested s catalog agentId requests w).run es).outcome i
      = ((requested s catalog agentId requests w').run es).outcome i) ∧
    AgreeOn agentId ((requested s catalog agentId requests w).run es).world
      ((requested s catalog agentId requests w').run es).world ∧
    LeavesOthers agentId w ((requested s catalog agentId requests w).run es).world ∧
    LeavesOthers agentId w' ((requested s catalog agentId requests w').run es).world := by
  let S : Setting σ σ' := hagree.setting
  have hstart : Config.Abreast S.Apart S.Fresh (fun _ _ r r' => r = r') ∅
      (requested s catalog agentId requests w) (requested s catalog agentId requests w') := by
    refine ⟨hagree.apart hgrants, fun i => ?_⟩
    show Config.Paired S.Apart S.Fresh _ ∅ (requests.map _)[i]? (requests.map _)[i]?
    rw [List.getElem?_map, List.getElem?_map]
    cases requests[i]? with
    | none => exact .missing
    | some request =>
        have halike : S.Alike ∅ (McpEdge.callTool s [] catalog request.requestId agentId request.name
            request.arguments) (McpEdge.callTool s [] catalog request.requestId agentId request.name
            request.arguments) := S.callTool_alike s
        exact .running (halike.lockstep.mono fun _ _ _ _ h => h.1)
  have hinputs : ∀ i input, .step i input ∈ es → S.Fresh input := fun i input he =>
    not_or.mpr (hfresh i input he)
  obtain ⟨known, -, hend⟩ := hstart.run hinputs
  have hworld := hend.world
  refine ⟨fun i => ?_, fun t c hc => ?_, hworld.leavesOthers fun t ht => (not_or.mp ht).1,
    hworld.symm.leavesOthers fun t ht => (not_or.mp ht).2⟩
  · have hout := hend.outcome i
    generalize Config.outcome _ i = r at hout ⊢
    generalize Config.outcome _ i = r' at hout ⊢
    cases hout with
    | some h => rw [h]
    | none => rfl
  · by_cases ht : t ∈ S.others
    · rw [hworld.kept t ht, hworld.kept' t ht]
      exact hagree t c hc
    · rw [hworld.same t ht]

end

/-- A payment that waits for approval. -/
def bobsCall : ToolCall := ⟨"1", "bob", "bank", "pay", .dict [], []⟩

/-- Bob has a ticket. -/
def bobsWorld : World MemoryTicketStore :=
  { World.fresh MemoryTicketStore with tickets := MemoryTicketStore.empty.create "tkt-1" bobsCall }

/-- Nothing is checked, redacted or limited. -/
def plainSettings : Settings where
  checkArgs := fun _ _ => .ok []
  redact := fun r _ => .ok r
  limited := false
  gate := { timeout := 0, lease := 0, notifies := false, rechecks := 0 }

/-- Alice asks for it. -/
def asksForBobs : List McpRequest := [⟨"7", "gateway.check", some [("ticket_id", .str "tkt-1")]⟩]

/-- Asked about another agent's ticket, the gateway answers as if there were none. -/
theorem tickets_private_bob : letI := PrintTables.ascii
    ((requested plainSettings (fun _ => .ok []) "alice" asksForBobs bobsWorld).run
        [.step 0 { uuid := "2" }]).outcome 0
      = ((requested plainSettings (fun _ => .ok []) "alice" asksForBobs
          (World.fresh MemoryTicketStore)).run [.step 0 { uuid := "2" }]).outcome 0 := by
  let tables : PrintTables := PrintTables.ascii
  have hbob : ∀ t c, cell bobsWorld.tickets t = some c → t = "tkt-1" ∧ c = Cell.filed bobsCall := by
    intro t c hc
    obtain ⟨ticket, hlookup, rfl⟩ := Option.map_eq_some_iff.mp hc
    by_cases ht : t = "tkt-1"
    · subst ht
      cases hlookup
      exact ⟨rfl, rfl⟩
    · have htickets : bobsWorld.tickets.tickets
          = [("tkt-1", { call := bobsCall, decision := { status := .pending } })] := rfl
      rw [htickets, List.lookup_cons, beq_false_of_ne ht] at hlookup
      cases hlookup
  refine (tickets_private plainSettings _ "alice" asksForBobs bobsWorld
    (World.fresh MemoryTicketStore) rfl (fun t c hc => ?_) _ fun i input he => ?_).1 0
  · constructor
    · intro hcell
      rw [(hbob t c hcell).2] at hc
      exact absurd hc (by decide)
    · intro hcell
      cases hcell
  · cases List.mem_singleton.mp he
    constructor
    · rintro ⟨c, hcell, -⟩
      exact absurd (hbob _ c hcell).1 (by decide)
    · rintro ⟨c, hcell, -⟩
      cases hcell

end ToolGateway
