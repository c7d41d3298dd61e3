/-
  ToolGateway.Tickets.Memory

  `MemoryTicketStore`: the tickets and the claims in two dicts.  Only known
  tickets are ever claimed.
-/

import ToolGateway.Tickets.Store

namespace ToolGateway

open Py

/-- Tickets and claims in two dicts; only known tickets are claimed. -/
structure MemoryTicketStore where
  tickets : Dict Ticket
  /-- ticket id -> when it was claimed -/
  claimed : Dict Time
  claimed_known : ∀ t, (claimed.lookup t).isSome → (tickets.lookup t).isSome

namespace MemoryTicketStore

/-- Overwriting or adding a ticket keeps every claim on a known one. -/
def withTicket (s : MemoryTicketStore) (t : TicketId) (ticket : Ticket) : MemoryTicketStore :=
  { s with
    tickets := s.tickets.set t ticket
    claimed_known := by
      intro t' h
      rw [Dict.lookup_set]
      split
      · rfl
      · exact s.claimed_known t' h }

/-- No tickets. -/
def empty : MemoryTicketStore := ⟨[], [], by simp⟩

/-- `create`: a ticket that was there is replaced. -/
def create (s : MemoryTicketStore) (t : TicketId) (call : ToolCall) : MemoryTicketStore :=
  s.withTicket t { call := call, decision := { status := .pending } }

/-- `get` -/
def get (s : MemoryTicketStore) (t : TicketId) : Option Ticket := s.tickets.lookup t

/-- `decide`: only an open ticket takes a verdict. -/
def decide (s : MemoryTicketStore) (t : TicketId) (d : Decision) : Bool × MemoryTicketStore :=
  match s.tickets.lookup t with
  | none => (false, s)
  | some ticket =>
      if ticket.decision.status ≠ .pending then (false, s)
      else (true, s.withTicket t { ticket with decision := d })

/-- `claim`: once, and not when there is a result. -/
def claim (s : MemoryTicketStore) (t : TicketId) (now : Time) : Bool × MemoryTicketStore :=
  match h : s.tickets.lookup t with
  | none => (false, s)
  | some ticket =>
      if ticket.result.isSome || s.claimed.has t then (false, s)
      else (true,
        { s with
          claimed := s.claimed.set t now
          claimed_known := by
            intro t' h'
            rw [Dict.lookup_set] at h'
            by_cases ht : t' = t
            · rw [ht, h]
              rfl
            · rw [if_neg ht] at h'
              exact s.claimed_known t' h' })

/-- `close_stale_claim` -/
def closeStaleClaim (s : MemoryTicketStore) (t : TicketId) (now older : Time)
    (result : ToolResult) : Bool × MemoryTicketStore :=
  match s.tickets.lookup t, s.claimed.lookup t with
  | some ticket, some claimedAt =>
      if ticket.result.isSome then (false, s)
      else if now - claimedAt < older then (false, s)
      else (true, s.withTicket t { ticket with result := some result })
  | _, _ => (false, s)

/-- `complete`: `KeyError` for an id that is not known. -/
def complete (s : MemoryTicketStore) (t : TicketId) (result : ToolResult) :
    Except PyError MemoryTicketStore :=
  match s.tickets.lookup t with
  | none => .error .keyError
  | some ticket => .ok (s.withTicket t { ticket with result := some result })

instance : TicketStore MemoryTicketStore where
  empty := empty
  create s t call _ := .ok (s.create t call)
  get := get
  decide := decide
  claim := claim
  closeStaleClaim := closeStaleClaim
  complete := complete

-- ============================================================================
-- What a claim does
-- ============================================================================

section
variable (m : MemoryTicketStore) {t : TicketId} {ticket : Ticket} (now : Time)

theorem claim_unknown (h : m.tickets.lookup t = none) : m.claim t now = (false, m) := by
  unfold claim
  split
  · rfl
  · next ticket hticket =>
      rw [h] at hticket
      cases hticket

theorem claim_taken (h : m.tickets.lookup t = some ticket)
    (htaken : (ticket.result.isSome || m.claimed.has t) = true) : m.claim t now = (false, m) := by
  unfold claim
  split
  · rfl
  · next ticket' hticket =>
      have hsame : ticket = ticket' := Option.some.inj (h.symm.trans hticket)
      rw [if_pos (by rw [← hsame]; exact htaken)]

theorem claim_free (h : m.tickets.lookup t = some ticket)
    (hfree : (ticket.result.isSome || m.claimed.has t) = false) :
    (m.claim t now).1 = true ∧ (m.claim t now).2.tickets = m.tickets ∧
      (m.claim t now).2.claimed = m.claimed.set t now := by
  unfold claim
  split
  · next hticket =>
      rw [h] at hticket
      cases hticket
  · next ticket' hticket =>
      have hsame : ticket = ticket' := Option.some.inj (h.symm.trans hticket)
      rw [if_neg (by rw [← hsame, hfree]; exact Bool.false_ne_true)]
      exact ⟨rfl, rfl, rfl⟩

variable {now} {older : Time} {result : ToolResult}

theorem closeStaleClaim_refused (h : m.tickets.lookup t = some ticket)
    (hyoung : (ticket.result.isNone && (m.claimed.lookup t).any (older ≤ now - ·)) = false) :
    m.closeStaleClaim t now older result = (false, m) := by
  unfold closeStaleClaim
  rw [h]
  cases hclaimed : m.claimed.lookup t with
  | none => rfl
  | some claimedAt =>
      rw [hclaimed] at hyoung
      show (if ticket.result.isSome then _ else _) = _
      split
      · rfl
      · next hresult =>
          have hnone : ticket.result.isNone = true := by simpa using hresult
          have hlease : now - claimedAt < older := by simpa [hnone] using hyoung
          rw [if_pos hlease]

theorem closeStaleClaim_stale (h : m.tickets.lookup t = some ticket)
    (hstale : (ticket.result.isNone && (m.claimed.lookup t).any (older ≤ now - ·)) = true) :
    m.closeStaleClaim t now older result
      = (true, m.withTicket t { ticket with result := some result }) := by
  obtain ⟨hnone, hany⟩ := Bool.and_eq_true_iff.mp hstale
  obtain ⟨claimedAt, hclaimed, hold⟩ : ∃ c, m.claimed.lookup t = some c ∧ older ≤ now - c := by
    simpa [Option.any_eq_true] using hany
  have hresult : ¬ ticket.result.isSome = true := by simpa using hnone
  have hlease : ¬ now - claimedAt < older := not_lt.mpr hold
  unfold closeStaleClaim
  rw [h, hclaimed]
  show (if ticket.result.isSome then _ else _) = _
  rw [if_neg hresult, if_neg hlease]

end

-- ============================================================================
-- The cells
-- ============================================================================

/-- What the store knows of a ticket. -/
def cell (s : MemoryTicketStore) (t : TicketId) : Option Cell :=
  (s.tickets.lookup t).map fun ticket =>
    { call := ticket.call, decision := ticket.decision, claimedAt := s.claimed.lookup t,
      result := ticket.result }

theorem cell_withTicket (s : MemoryTicketStore) (t : TicketId) (ticket : Ticket) :
    (s.withTicket t ticket).cell = Function.update s.cell t (some
      { call := ticket.call, decision := ticket.decision, claimedAt := s.claimed.lookup t,
        result := ticket.result }) := by
  funext t'
  by_cases h : t' = t
  · subst h
    simp [cell, withTicket, Dict.lookup_set_self]
  · rw [Function.update_of_ne h]
    simp only [cell, withTicket, Dict.lookup_set_of_ne _ _ h]

theorem ticket_of_cell {s : MemoryTicketStore} {t : TicketId} {c : Cell} (h : s.cell t = some c) :
    s.tickets.lookup t = some c.ticket ∧ c.claimedAt = s.claimed.lookup t := by
  obtain ⟨ticket, hlookup, rfl⟩ := Option.map_eq_some_iff.mp h
  exact ⟨hlookup, rfl⟩

theorem cell_of_ticket {s : MemoryTicketStore} {t : TicketId} {ticket : Ticket}
    (h : s.tickets.lookup t = some ticket) :
    s.cell t = some { call := ticket.call, decision := ticket.decision,
                      claimedAt := s.claimed.lookup t, result := ticket.result } := by
  simp [cell, h]

theorem decide_acts (s : MemoryTicketStore) (t : TicketId) (d : Decision) :
    ActsOn cell (Cell.decide d) s t (s.decide t d) := by
  unfold decide
  split
  · next h => exact .of_refused fun c hc => by simp [cell, h] at hc
  · next ticket h =>
      have hcell := cell_of_ticket h
      split
      · next hdecided =>
          refine .of_refused fun c hc => ?_
          rw [hcell] at hc
          rw [← Option.some.inj hc]
          exact if_neg hdecided
      · next hpending =>
          exact .of_done hcell (if_pos (not_not.mp hpending)) (s.cell_withTicket t _)

theorem free_iff (s : MemoryTicketStore) (t : TicketId) (ticket : Ticket) :
    (!(ticket.result.isSome || s.claimed.has t))
      = ((s.claimed.lookup t).isNone && ticket.result.isNone) := by
  unfold Dict.has
  cases ticket.result with
  | none => simp
  | some r => simp

theorem claim_acts (s : MemoryTicketStore) (t : TicketId) (now : Time) :
    ActsOn cell (Cell.claim now) s t (s.claim t now) := by
  unfold claim
  split
  · next h => exact .of_refused fun c hc => by simp [cell, h] at hc
  · next ticket h =>
      have hcell := cell_of_ticket h
      split
      · next htaken =>
          refine .of_refused fun c hc => ?_
          rw [hcell] at hc
          rw [← Option.some.inj hc]
          exact if_neg (by rw [← free_iff, htaken]; exact Bool.false_ne_true)
      · next hfree =>
          refine .of_done hcell (if_pos ?_) ?_
          · rw [← free_iff]
            simpa using hfree
          · funext t'
            by_cases ht : t' = t
            · subst ht
              simp [cell, h, Dict.lookup_set_self]
            · rw [Function.update_of_ne ht]
              simp only [cell, Dict.lookup_set_of_ne _ _ ht]

theorem closeStaleClaim_acts (s : MemoryTicketStore) (t : TicketId) (now older : Time)
    (result : ToolResult) :
    ActsOn cell (Cell.closeStaleClaim now older result) s t
      (s.closeStaleClaim t now older result) := by
  unfold closeStaleClaim
  split
  · next ticket claimedAt h hclaimed =>
      have hcell := cell_of_ticket h
      rw [hclaimed] at hcell
      split
      · next hresult =>
          refine .of_refused fun c hc => ?_
          rw [hcell] at hc
          rw [← Option.some.inj hc]
          refine if_neg ?_
          simp [Option.isSome_iff_ne_none.mp hresult]
      · next hresult =>
          have hnone : ticket.result = none := by simpa using hresult
          split
          · next hlease =>
              refine .of_refused fun c hc => ?_
              rw [hcell] at hc
              rw [← Option.some.inj hc]
              have hyoung : ¬ older ≤ now - claimedAt := not_le.mpr hlease
              exact if_neg (by simp [hyoung])
          · next hstale =>
              refine .of_done hcell (if_pos ?_) ?_
              · have hold : older ≤ now - claimedAt := not_lt.mp hstale
                simp [hnone, hold]
              · rw [cell_withTicket, hclaimed]
  · next hnot =>
      refine .of_refused fun c hc => ?_
      obtain ⟨hlookup, hclaimed⟩ := ticket_of_cell hc
      have hnone : c.claimedAt = none := by
        cases hat : c.claimedAt with
        | none => rfl
        | some at' => exact absurd (hclaimed ▸ hat) (hnot _ _ hlookup)
      exact if_neg (by simp [hnone])

instance : LawfulTicketStore MemoryTicketStore where
  cell := cell
  cell_empty _ := rfl
  get_eq s t := by
    cases h : s.tickets.lookup t with
    | none => simp [TicketStore.get, get, cell, h]
    | some ticket => simp [TicketStore.get, get, cell, h, Cell.ticket]
  create_fresh s t call now hfresh := by
    refine ⟨s.create t call, rfl, ?_⟩
    have hunclaimed : s.claimed.lookup t = none := by
      have hunknown : s.tickets.lookup t = none := by simpa [cell] using hfresh
      cases h : s.claimed.lookup t with
      | none => rfl
      | some at' => simpa [hunknown] using s.claimed_known t (by simp [h])
    rw [create, cell_withTicket, hunclaimed]
    rfl
  decide_acts := decide_acts
  claim_acts := claim_acts
  closeStaleClaim_acts := closeStaleClaim_acts
  complete_known s t result c hc := by
    obtain ⟨hlookup, hclaimed⟩ := ticket_of_cell hc
    refine ⟨s.withTicket t { c.ticket with result := some result }, ?_, ?_⟩
    · simp only [TicketStore.complete, complete, hlookup]
    · rw [cell_withTicket, ← hclaimed]
      rfl

end MemoryTicketStore

end ToolGateway
