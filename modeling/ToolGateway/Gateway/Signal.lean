/-
  ToolGateway.Gateway.Signal

  `MemoryDecisionSignal` (`adapters/memory.py`): an event for each ticket, made by
  whichever side comes first, the wait or the signal, and dropped when its waiter
  wakes.  An event is never cleared.
-/

import ToolGateway.Domain

namespace ToolGateway

open Py

-- ============================================================================
-- The events
-- ============================================================================

/-- `MemoryDecisionSignal`: the event of each ticket, as its position in the list of
    the events made so far, and which of them are set. -/
structure MemoryDecisionSignal where
  events : Dict ℕ
  flags : List Bool
  known : ∀ t e, events.lookup t = some e → e < flags.length

namespace MemoryDecisionSignal

variable {s : MemoryDecisionSignal} {t t' : TicketId} {e e' : ℕ}

/-- Nobody waits. -/
def empty : MemoryDecisionSignal := ⟨[], [], by simp⟩

/-- `event.is_set()` -/
def isSet (s : MemoryDecisionSignal) (e : ℕ) : Bool := s.flags[e]? = some true

theorem known_add (s : MemoryDecisionSignal) (t : TicketId) (t' : TicketId) (e : ℕ)
    (h : (s.events.set t s.flags.length).lookup t' = some e) :
    e < (s.flags ++ [false]).length := by
  rw [List.length_append, List.length_singleton]
  rw [Dict.lookup_set] at h
  split at h
  · cases h
    omega
  · have := s.known t' e h
    omega

/-- A new event for the ticket: `self._events[ticket_id] = asyncio.Event()`. -/
def add (s : MemoryDecisionSignal) (t : TicketId) : MemoryDecisionSignal :=
  { events := s.events.set t s.flags.length
    flags := s.flags ++ [false]
    known := s.known_add t }

/-- `self._events.setdefault(ticket_id, asyncio.Event())` -/
def setdefault (s : MemoryDecisionSignal) (t : TicketId) : ℕ × MemoryDecisionSignal :=
  match s.events.lookup t with
  | some event => (event, s)
  | none => (s.flags.length, s.add t)

theorem known_set (s : MemoryDecisionSignal) (e : ℕ) (t : TicketId) (e' : ℕ)
    (h : s.events.lookup t = some e') : e' < (s.flags.set e true).length := by
  rw [List.length_set]
  exact s.known t e' h

/-- `event.set()` -/
def set (s : MemoryDecisionSignal) (e : ℕ) : MemoryDecisionSignal :=
  { s with flags := s.flags.set e true, known := s.known_set e }

theorem known_pop (s : MemoryDecisionSignal) (t : TicketId) (t' : TicketId) (e : ℕ)
    (h : (s.events.erase t).lookup t' = some e) : e < s.flags.length := by
  by_cases ht : t' = t
  · rw [ht, Dict.lookup_erase_self] at h
    cases h
  · rw [Dict.lookup_erase_of_ne s.events ht] at h
    exact s.known t' e h

/-- `self._events.pop(ticket_id, None)` -/
def pop (s : MemoryDecisionSignal) (t : TicketId) : MemoryDecisionSignal :=
  { s with events := s.events.erase t, known := s.known_pop t }

/-- `signal_decision(ticket_id)` -/
def signalDecision (s : MemoryDecisionSignal) (t : TicketId) : MemoryDecisionSignal :=
  (s.setdefault t).2.set (s.setdefault t).1

-- ----------------------------------------------------------------------------
-- What the operations leave
-- ----------------------------------------------------------------------------

theorem setdefault_some (h : s.events.lookup t = some e) : s.setdefault t = (e, s) := by
  rw [setdefault, h]

theorem setdefault_none (h : s.events.lookup t = none) :
    s.setdefault t = (s.flags.length, s.add t) := by
  rw [setdefault, h]

theorem lookup_setdefault_self : (s.setdefault t).2.events.lookup t = some (s.setdefault t).1 := by
  cases h : s.events.lookup t with
  | some e => rw [setdefault_some h, h]
  | none =>
      rw [setdefault_none h]
      exact Dict.lookup_set_self s.events t s.flags.length

theorem lookup_setdefault_of_ne (h : t' ≠ t) :
    (s.setdefault t).2.events.lookup t' = s.events.lookup t' := by
  cases ht : s.events.lookup t with
  | some e => rw [setdefault_some ht]
  | none =>
      rw [setdefault_none ht]
      exact Dict.lookup_set_of_ne s.events s.flags.length h

theorem lookup_set (e : ℕ) (t : TicketId) : (s.set e).events.lookup t = s.events.lookup t := rfl

theorem lookup_pop_self : (s.pop t).events.lookup t = none := Dict.lookup_erase_self s.events t

theorem lookup_pop_of_ne (h : t' ≠ t) : (s.pop t).events.lookup t' = s.events.lookup t' :=
  Dict.lookup_erase_of_ne s.events h

theorem isSet_iff : s.isSet e = true ↔ s.flags[e]? = some true := decide_eq_true_iff

/-- An event that was set stays set. -/
theorem isSet_setdefault (h : s.isSet e = true) : (s.setdefault t).2.isSet e = true := by
  cases ht : s.events.lookup t with
  | some e' =>
      rw [setdefault_some ht]
      exact h
  | none =>
      rw [isSet_iff] at h
      obtain ⟨hlt, -⟩ := List.getElem?_eq_some_iff.mp h
      rw [setdefault_none ht, isSet_iff, ← h]
      exact List.getElem?_append_left hlt

theorem isSet_set_self (h : e < s.flags.length) : (s.set e).isSet e = true := by
  rw [isSet_iff]
  exact List.getElem?_set_self h

theorem isSet_set (h : s.isSet e = true) : (s.set e').isSet e = true := by
  rw [isSet_iff] at h
  by_cases he : e' = e
  · obtain ⟨hlt, -⟩ := List.getElem?_eq_some_iff.mp h
    rw [he]
    exact isSet_set_self hlt
  · rw [isSet_iff, ← h]
    exact List.getElem?_set_ne he

theorem isSet_signalDecision (h : s.isSet e = true) : (s.signalDecision t).isSet e = true :=
  isSet_set (isSet_setdefault h)

/-- After the signal the event of the ticket is there and set. -/
theorem signalDecision_self :
    ∃ e, (s.signalDecision t).events.lookup t = some e ∧ (s.signalDecision t).isSet e = true := by
  refine ⟨(s.setdefault t).1, ?_, ?_⟩
  · rw [signalDecision, lookup_set]
    exact lookup_setdefault_self
  · exact isSet_set_self ((s.setdefault t).2.known t _ lookup_setdefault_self)

/-- The signal keeps the event that was there. -/
theorem lookup_signalDecision (h : s.events.lookup t = some e) :
    (s.signalDecision t).events.lookup t = some e := by
  rw [signalDecision, lookup_set, setdefault_some h]
  exact h

theorem lookup_signalDecision_of_ne (h : t' ≠ t) :
    (s.signalDecision t).events.lookup t' = s.events.lookup t' := by
  rw [signalDecision, lookup_set]
  exact lookup_setdefault_of_ne h

end MemoryDecisionSignal

end ToolGateway
