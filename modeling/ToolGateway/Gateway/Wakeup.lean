/-
  ToolGateway.Gateway.Wakeup

  A call that waits for the verdict on its ticket (`ApprovalGate._await_decision` over
  `MemoryDecisionSignal`), against any number of `ToolGateway.decide` on the ticket.

  Each party is a machine whose positions are the await points of its coroutine; a step
  runs the code up to the next one.  The parties step in any order, others write to the
  store and signal other tickets in between, and a wait may run into its timeout at any
  point, with its event set or not.

  No order of these loses a signal.  The verdict is recorded before the event is set,
  the event is kept over timeouts, and the waiter drops it before it rereads the ticket:
  so an event that is dropped leaves a verdict to be read.
-/

import ToolGateway.Coroutine.Paths
import ToolGateway.Gateway.Assembly
import ToolGateway.Gateway.Signal
import ToolGateway.Tickets.Memory

namespace ToolGateway

open Coroutine Py

namespace Wakeup

-- ============================================================================
-- The parties
-- ============================================================================

/-- What the parties act on. -/
structure Shared (σ : Type) where
  tickets : σ
  signal : MemoryDecisionSignal
  audit : List AuditEvent

/-- Where the waiting call is, from the start of `_await_decision` to the verdict that
    `handle_call` goes on with. -/
inductive Waiter where
  | starting
  /-- in the loop, about to reread the ticket -/
  | reading (deadline : Time)
  /-- the store answered, the code has not looked yet -/
  | read (deadline : Time) (answer : Option Ticket)
  /-- in `wait_for(event.wait(), …)` -/
  | waiting (deadline : Time) (event : ℕ)
  /-- `_await_decision` returned -/
  | awaited (d : Decision)
  /-- the store did not take the timeout -/
  | rereading
  | settled (d : Decision)
  | raised (exc : Exc)

/-- Where a call of `ToolGateway.decide` is. -/
inductive Decider where
  | asked (d : Decision)
  /-- the store answered, the code has not looked yet -/
  | found (d : Decision) (answer : Option Ticket)
  /-- the store took the verdict -/
  | recorded (d : Decision) (call : ToolCall)
  /-- `signal_decision` has run -/
  | signalled (d : Decision) (call : ToolCall)
  | done (d : Decision)
  | raised (exc : Exc)

/-- The verdict of a `decide` that has signalled it. -/
def Decider.sent : Decider → Option Decision
  | .signalled d _ => some d
  | .done d => some d
  | _ => none

/-- The `decision` event of `ToolGateway.decide`. -/
def decisionEvent (t : TicketId) (call : ToolCall) (d : Decision) : AuditEvent :=
  { event := "decision", tool := call.fullName, agent := call.agentId
    fields :=
      [("ticket_id", .str t), ("status", .str d.status.value), ("approver", .str d.approver),
       ("reason", .str d.reason), ("edited", .bool d.edited)] }

section
variable {σ : Type} [TicketStore σ]

/-- One step of the waiting call, with what the clock reads and whether the timeout of
    its wait has run out; none while it is blocked, and at its end. -/
def Waiter.step (t : TicketId) (timeout now : Time) (expired : Bool) :
    Waiter → Shared σ → Option (Waiter × Shared σ)
  | .starting, s => some (.reading (now + timeout), s)
  | .reading deadline, s => some (.read deadline (TicketStore.get s.tickets t), s)
  | .read _ none, s => some (.raised (.python .attributeError), s)
  | .read deadline (some ticket), s =>
      if ticket.decision.status ≠ .pending then some (.awaited ticket.decision, s)
      else if deadline - now ≤ 0 then some (.awaited { status := .timeout }, s)
      else
        let (event, signal) := s.signal.setdefault t
        some (.waiting deadline event, { s with signal := signal })
  | .waiting deadline event, s =>
      -- the timeout counts also when the event is set in the same moment
      if expired then some (.reading deadline, s)
      else if s.signal.isSet event then some (.reading deadline, { s with signal := s.signal.pop t })
      else none
  | .awaited d, s =>
      if d.status = .timeout then
        match TicketStore.decide s.tickets t d with
        | (true, tickets) => some (.settled d, { s with tickets := tickets })
        | (false, tickets) => some (.rereading, { s with tickets := tickets })
      else some (.settled d, s)
  | .rereading, s =>
      match TicketStore.get s.tickets t with
      | none => some (.raised (.python .attributeError), s)
      | some ticket => some (.settled ticket.decision, s)
  | .settled _, _ => none
  | .raised _, _ => none

/-- One step of `ToolGateway.decide`. -/
def Decider.step (t : TicketId) : Decider → Shared σ → Option (Decider × Shared σ)
  | .asked d, s =>
      if d.status = .approved ∨ d.status = .rejected then
        some (.found d (TicketStore.get s.tickets t), s)
      else some (.raised (.python .valueError), s)
  | .found _ none, s => some (.raised (.unknownTicket t), s)
  | .found d (some ticket), s =>
      match TicketStore.decide s.tickets t d with
      | (true, tickets) => some (.recorded d ticket.call, { s with tickets := tickets })
      | (false, tickets) => some (.raised (.ticketAlreadyDecided t), { s with tickets := tickets })
  | .recorded d call, s => some (.signalled d call, { s with signal := s.signal.signalDecision t })
  | .signalled d call, s => some (.done d, { s with audit := s.audit ++ [decisionEvent t call d] })
  | .done _, _ => none
  | .raised _, _ => none

end

-- ============================================================================
-- Runs
-- ============================================================================

section
variable {σ : Type} [TicketStore σ] [LawfulTicketStore σ]

/-- What anybody else may do in between: anything lawful to the tickets, and to the
    events of other tickets. -/
inductive Other (t : TicketId) (s : Shared σ) : Shared σ → Prop where
  | tickets (tickets : σ)
      (h : ∀ t' c, LawfulTicketStore.cell s.tickets t' = some c →
        ∃ c', LawfulTicketStore.cell tickets t' = some c' ∧ c.Evolves c') :
      Other t s { s with tickets := tickets }
  | waits (t' : TicketId) (h : t ≠ t') : Other t s { s with signal := (s.signal.setdefault t').2 }
  | wakes (t' : TicketId) (h : t ≠ t') : Other t s { s with signal := s.signal.pop t' }
  | signals (t' : TicketId) (h : t ≠ t') : Other t s { s with signal := s.signal.signalDecision t' }
  | audits (event : AuditEvent) : Other t s { s with audit := s.audit ++ [event] }

end

/-- The waiting call and the calls of `decide`, one for each index. -/
structure State (ι σ : Type) where
  shared : Shared σ
  waiter : Waiter
  deciders : ι → Decider

section
variable {ι σ : Type} [DecidableEq ι] [TicketStore σ] [LawfulTicketStore σ]

/-- A run, with the number of steps the waiting call took in it. -/
inductive Run (t : TicketId) (timeout : Time) (s : State ι σ) : ℕ → State ι σ → Prop where
  | nil : Run t timeout s 0 s
  | waiter {n : ℕ} {s' : State ι σ} {w : Waiter} {shared : Shared σ} (now : Time) (expired : Bool)
      (h : Run t timeout s n s')
      (hstep : s'.waiter.step t timeout now expired s'.shared = some (w, shared)) :
      Run t timeout s (n + 1) { s' with waiter := w, shared := shared }
  | decider {n : ℕ} {s' : State ι σ} {d : Decider} {shared : Shared σ} (i : ι)
      (h : Run t timeout s n s') (hstep : (s'.deciders i).step t s'.shared = some (d, shared)) :
      Run t timeout s n { s' with deciders := Function.update s'.deciders i d, shared := shared }
  | other {n : ℕ} {s' : State ι σ} {shared : Shared σ}
      (h : Run t timeout s n s') (hstep : Other t s'.shared shared) :
      Run t timeout s n { s' with shared := shared }

/-- The ticket was just filed, nobody has started; whatever the other tickets and the
    events are. -/
structure Begun (t : TicketId) (s : State ι σ) : Prop where
  ticket : ∃ call, LawfulTicketStore.cell s.shared.tickets t = some (Cell.filed call)
  waiter : s.waiter = .starting
  deciders : ∀ i, ∃ d, s.deciders i = .asked d

end

section
variable {σ : Type} [TicketStore σ]
variable {t : TicketId} {timeout now : Time} {expired : Bool} {s s' : Shared σ} {d : Decision}

-- ============================================================================
-- What a step of the waiting call can do
-- ============================================================================

/-- The steps of the waiting call by name. -/
inductive Waiter.Moves (t : TicketId) (s : Shared σ) : Waiter → Waiter → Shared σ → Prop where
  | starts {deadline : Time} : Moves t s .starting (.reading deadline) s
  | reads {deadline : Time} :
      Moves t s (.reading deadline) (.read deadline (TicketStore.get s.tickets t)) s
  | missing {deadline : Time} {exc : Exc} : Moves t s (.read deadline none) (.raised exc) s
  | verdict {deadline : Time} {ticket : Ticket} (h : ticket.decision.status ≠ .pending) :
      Moves t s (.read deadline (some ticket)) (.awaited ticket.decision) s
  | late {deadline : Time} {ticket : Ticket} (h : ticket.decision.status = .pending) :
      Moves t s (.read deadline (some ticket)) (.awaited { status := .timeout }) s
  | waits {deadline : Time} {ticket : Ticket} (h : ticket.decision.status = .pending) :
      Moves t s (.read deadline (some ticket)) (.waiting deadline (s.signal.setdefault t).1)
        { s with signal := (s.signal.setdefault t).2 }
  | expires {deadline : Time} {e : ℕ} : Moves t s (.waiting deadline e) (.reading deadline) s
  | wakes {deadline : Time} {e : ℕ} (h : s.signal.isSet e = true) :
      Moves t s (.waiting deadline e) (.reading deadline) { s with signal := s.signal.pop t }
  | settles {d : Decision} (h : d.status ≠ .timeout) : Moves t s (.awaited d) (.settled d) s
  | closes {d : Decision} {tickets : σ} (h : d.status = .timeout)
      (hdecide : TicketStore.decide s.tickets t d = (true, tickets)) :
      Moves t s (.awaited d) (.settled d) { s with tickets := tickets }
  | overtaken {d : Decision} {tickets : σ} (h : d.status = .timeout)
      (hdecide : TicketStore.decide s.tickets t d = (false, tickets)) :
      Moves t s (.awaited d) .rereading { s with tickets := tickets }
  | rereads {ticket : Ticket} (h : TicketStore.get s.tickets t = some ticket) :
      Moves t s .rereading (.settled ticket.decision) s
  | vanished {exc : Exc} (h : TicketStore.get s.tickets t = none) :
      Moves t s .rereading (.raised exc) s

theorem Waiter.step_moves {w w' : Waiter}
    (h : w.step t timeout now expired s = some (w', s')) : Moves t s w w' s' := by
  cases w with
  | starting =>
      cases h
      exact .starts
  | reading deadline =>
      cases h
      exact .reads
  | read deadline answer =>
      cases answer with
      | none =>
          cases h
          exact .missing
      | some ticket =>
          simp only [Waiter.step] at h
          split at h
          · next hdecided =>
              cases h
              exact .verdict hdecided
          · next hpending =>
              rw [ne_eq, not_not] at hpending
              split at h
              · cases h
                exact .late hpending
              · cases h
                exact .waits hpending
  | waiting deadline e =>
      simp only [Waiter.step] at h
      split at h
      · cases h
        exact .expires
      · split at h
        · next hset =>
            cases h
            exact .wakes hset
        · cases h
  | awaited d =>
      simp only [Waiter.step] at h
      split at h
      · next htimeout =>
          split at h
          · next hdecide =>
              cases h
              exact .closes htimeout hdecide
          · next hdecide =>
              cases h
              exact .overtaken htimeout hdecide
      · next hverdict =>
          cases h
          exact .settles hverdict
  | rereading =>
      simp only [Waiter.step] at h
      split at h
      · next hget =>
          cases h
          exact .vanished hget
      · next hget =>
          cases h
          exact .rereads hget
  | settled d => cases h
  | raised exc => cases h

/-- The steps of `ToolGateway.decide` by name. -/
inductive Decider.Moves (t : TicketId) (s : Shared σ) : Decider → Decider → Shared σ → Prop where
  | finds {d : Decision} (h : d.status = .approved ∨ d.status = .rejected) :
      Moves t s (.asked d) (.found d (TicketStore.get s.tickets t)) s
  | records {d : Decision} {ticket : Ticket} {tickets : σ}
      (hdecide : TicketStore.decide s.tickets t d = (true, tickets)) :
      Moves t s (.found d (some ticket)) (.recorded d ticket.call) { s with tickets := tickets }
  | refuses {d : Decision} {ticket : Ticket} {tickets : σ} {exc : Exc}
      (hdecide : TicketStore.decide s.tickets t d = (false, tickets)) :
      Moves t s (.found d (some ticket)) (.raised exc) { s with tickets := tickets }
  | raises {d : Decider} {exc : Exc} (h : d.sent = none) : Moves t s d (.raised exc) s
  | signals {d : Decision} {call : ToolCall} :
      Moves t s (.recorded d call) (.signalled d call)
        { s with signal := s.signal.signalDecision t }
  | audits {d : Decision} {call : ToolCall} {event : AuditEvent} :
      Moves t s (.signalled d call) (.done d) { s with audit := s.audit ++ [event] }

theorem Decider.step_moves {d d' : Decider} (h : d.step t s = some (d', s')) :
    Moves t s d d' s' := by
  cases d with
  | asked d =>
      simp only [Decider.step] at h
      split at h
      · next hstatus =>
          cases h
          exact .finds hstatus
      · cases h
        exact .raises rfl
  | found d answer =>
      cases answer with
      | none =>
          cases h
          exact .raises rfl
      | some ticket =>
          simp only [Decider.step] at h
          split at h
          · next hdecide =>
              cases h
              exact .records hdecide
          · next hdecide =>
              cases h
              exact .refuses hdecide
  | recorded d call =>
      cases h
      exact .signals
  | signalled d call =>
      cases h
      exact .audits
  | done d => cases h
  | raised exc => cases h

end

-- ============================================================================
-- What stays
-- ============================================================================

section
variable {ι σ : Type} [TicketStore σ] [LawfulTicketStore σ]
variable {t : TicketId} {s s' : Shared σ} {d : Decision}

theorem ne_of_verdict {status : DecisionStatus} (h : status = .approved ∨ status = .rejected) :
    status ≠ .pending ∧ status ≠ .timeout := by
  obtain rfl | rfl := h
  · exact ⟨by decide, by decide⟩
  · exact ⟨by decide, by decide⟩

/-- The ticket holds this verdict. -/
def Recorded (t : TicketId) (s : Shared σ) (d : Decision) : Prop :=
  d.status ≠ .pending ∧ ∃ c, LawfulTicketStore.cell s.tickets t = some c ∧ c.decision = d

/-- What no step takes back: the verdict, and a signal. -/
structure Kept (t : TicketId) (s s' : Shared σ) : Prop where
  cell : ∀ c, LawfulTicketStore.cell s.tickets t = some c →
    ∃ c', LawfulTicketStore.cell s'.tickets t = some c' ∧ c.Evolves c'
  isSet : ∀ e, s.signal.isSet e = true → s'.signal.isSet e = true

/-- What the steps of the others do to the event of the ticket: it stays in place, and
    one they make is set. -/
structure Spared (t : TicketId) (s s' : Shared σ) : Prop extends Kept t s s' where
  stays : ∀ e, s.signal.events.lookup t = some e → s'.signal.events.lookup t = some e
  made : ∀ e, s'.signal.events.lookup t = some e →
    s.signal.events.lookup t = some e ∨ s'.signal.isSet e = true

theorem Recorded.kept (h : Recorded t s d) (hkept : Kept t s s') : Recorded t s' d := by
  obtain ⟨hd, c, hc, hcd⟩ := h
  obtain ⟨c', hc', hevolves⟩ := hkept.cell c hc
  have hdecision : c'.decision = c.decision := hevolves.decision (by rw [hcd]; exact hd)
  exact ⟨hd, c', hc', hdecision.trans hcd⟩

theorem Recorded.unique {d' : Decision} (h : Recorded t s d) (h' : Recorded t s d') : d' = d := by
  obtain ⟨-, c, hc, hcd⟩ := h
  obtain ⟨-, c', hc', hcd'⟩ := h'
  have heq : c = c' := Option.some.inj (hc.symm.trans hc')
  rw [← hcd, ← hcd', heq]

theorem Kept.refl (s : Shared σ) : Kept t s s :=
  ⟨fun c hc => ⟨c, hc, Cell.Evolves.refl c⟩, fun _ h => h⟩

/-- A step that leaves the events alone. -/
theorem Spared.of_signal (h : Kept t s s') (hsignal : s'.signal = s.signal) : Spared t s s' where
  toKept := h
  stays e he := by rw [hsignal, he]
  made e he := Or.inl (by rw [← hsignal, he])

/-- The store's answer to a verdict, at the ticket. -/
theorem decide_cell {db db' : σ} {answer : Bool} {c : Cell}
    (h : TicketStore.decide db t d = (answer, db')) (hc : LawfulTicketStore.cell db t = some c) :
    answer = (c.decide d).1 ∧ LawfulTicketStore.cell db' t = some (c.decide d).2 := by
  have hacts := LawfulTicketStore.decide_acts db t d
  rw [h] at hacts
  have hanswer : answer = _ := hacts.answer
  have hcells : LawfulTicketStore.cell db' = _ := hacts.cells
  rw [hc] at hanswer hcells
  refine ⟨hanswer, ?_⟩
  rw [hcells]
  exact Function.update_self t _ _

theorem Kept.decide {tickets : σ} {answer : Bool}
    (h : TicketStore.decide s.tickets t d = (answer, tickets)) :
    Kept t s { s with tickets := tickets } where
  cell c hc := ⟨_, (decide_cell h hc).2, Cell.decide_evolves d c⟩
  isSet _ h := h

theorem Recorded.of_decide {tickets : σ} (hd : d.status ≠ .pending) {c : Cell}
    (hc : LawfulTicketStore.cell s.tickets t = some c)
    (h : TicketStore.decide s.tickets t d = (true, tickets)) :
    Recorded t { s with tickets := tickets } d := by
  obtain ⟨hanswer, hcell⟩ := decide_cell h hc
  exact ⟨hd, _, hcell, Cell.decision_decide hanswer.symm⟩

/-- A verdict the store does not take finds another one there. -/
theorem Recorded.of_refused {tickets : σ} {c : Cell}
    (hc : LawfulTicketStore.cell s.tickets t = some c)
    (h : TicketStore.decide s.tickets t d = (false, tickets)) :
    Recorded t { s with tickets := tickets } c.decision := by
  obtain ⟨hanswer, hcell⟩ := decide_cell h hc
  obtain ⟨hdecided, hsame⟩ := Cell.decide_false hanswer.symm
  rw [hsame] at hcell
  exact ⟨hdecided, c, hcell, rfl⟩

/-- A ticket that is read as decided is. -/
theorem Recorded.of_get {ticket : Ticket} (h : TicketStore.get s.tickets t = some ticket)
    (hd : ticket.decision.status ≠ .pending) : Recorded t s ticket.decision := by
  rw [LawfulTicketStore.get_eq, Option.map_eq_some_iff] at h
  obtain ⟨c, hc, rfl⟩ := h
  exact ⟨hd, c, hc, rfl⟩

theorem Recorded.get {ticket : Ticket} (h : Recorded t s d)
    (hget : TicketStore.get s.tickets t = some ticket) : ticket.decision = d := by
  obtain ⟨-, c, hc, hcd⟩ := h
  rw [LawfulTicketStore.get_eq, hc, Option.map_some] at hget
  cases hget
  exact hcd

theorem Other.spared (h : Other t s s') : Spared t s s' := by
  cases h with
  | tickets tickets h => exact .of_signal ⟨h t, fun _ he => he⟩ rfl
  | waits t' ht =>
      have hlookup := s.signal.lookup_setdefault_of_ne ht
      exact ⟨⟨(Kept.refl s).cell, fun e he => MemoryDecisionSignal.isSet_setdefault he⟩,
        fun e he => hlookup.trans he, fun e he => Or.inl (hlookup.symm.trans he)⟩
  | wakes t' ht =>
      have hlookup := s.signal.lookup_pop_of_ne ht
      exact ⟨⟨(Kept.refl s).cell, fun _ he => he⟩,
        fun e he => hlookup.trans he, fun e he => Or.inl (hlookup.symm.trans he)⟩
  | signals t' ht =>
      have hlookup := s.signal.lookup_signalDecision_of_ne ht
      exact ⟨⟨(Kept.refl s).cell, fun e he => MemoryDecisionSignal.isSet_signalDecision he⟩,
        fun e he => hlookup.trans he, fun e he => Or.inl (hlookup.symm.trans he)⟩
  | audits event => exact .of_signal ⟨(Kept.refl s).cell, fun _ he => he⟩ rfl

-- ============================================================================
-- Where each party stands
-- ============================================================================

/-- What the waiting call may rely on at its position. -/
def Waiter.Fits (t : TicketId) (s : Shared σ) : Waiter → Prop
  | .starting => True
  | .reading _ => True
  | .read _ answer => ∃ ticket, answer = some ticket ∧
      (ticket.decision.status ≠ .pending → Recorded t s ticket.decision)
  | .waiting _ e => s.signal.events.lookup t = some e ∨ s.signal.isSet e = true
  | .awaited d => d.status ≠ .timeout → Recorded t s d
  | .rereading => ∃ d, Recorded t s d
  | .settled d => Recorded t s d
  | .raised _ => False

/-- What a call of `decide` may rely on at its position. -/
def Decider.Fits (t : TicketId) (s : Shared σ) : Decider → Prop
  | .asked _ => True
  | .found d _ => d.status = .approved ∨ d.status = .rejected
  | .recorded d _ => (d.status = .approved ∨ d.status = .rejected) ∧ Recorded t s d
  | .signalled d _ => (d.status = .approved ∨ d.status = .rejected) ∧ Recorded t s d
  | .done d => (d.status = .approved ∨ d.status = .rejected) ∧ Recorded t s d
  | .raised _ => True

/-- It read the ticket as pending and will wait unless its time is up. -/
def Waiter.AboutToWait : Waiter → Prop
  | .read _ (some ticket) => ticket.decision.status = .pending
  | _ => False

/-- What holds from the signal on: the ticket has no event that is not set, and a waiter
    that has yet to take the event will find it. -/
structure Awake (t : TicketId) (s : Shared σ) (w : Waiter) : Prop where
  set : ∀ e, s.signal.events.lookup t = some e → s.signal.isSet e = true
  found : w.AboutToWait → ∃ e, s.signal.events.lookup t = some e

theorem Waiter.Fits.spared {w : Waiter} (h : w.Fits t s) (hspared : Spared t s s') :
    w.Fits t s' := by
  cases w with
  | starting => trivial
  | reading deadline => trivial
  | read deadline answer =>
      obtain ⟨ticket, hanswer, hdecided⟩ := h
      exact ⟨ticket, hanswer, fun hd => (hdecided hd).kept hspared.toKept⟩
  | waiting deadline e => exact h.imp (hspared.stays e) (hspared.isSet e)
  | awaited d => exact fun hd => (h hd).kept hspared.toKept
  | rereading =>
      obtain ⟨d, hd⟩ := h
      exact ⟨d, hd.kept hspared.toKept⟩
  | settled d => exact Recorded.kept h hspared.toKept
  | raised exc => exact h

theorem Decider.Fits.kept {d : Decider} (h : d.Fits t s) (hkept : Kept t s s') : d.Fits t s' := by
  cases d with
  | asked d => trivial
  | found d answer => exact h
  | recorded d call => exact ⟨h.1, h.2.kept hkept⟩
  | signalled d call => exact ⟨h.1, h.2.kept hkept⟩
  | done d => exact ⟨h.1, h.2.kept hkept⟩
  | raised exc => trivial

theorem Decider.Fits.of_sent {p : Decider} (h : p.Fits t s) (hsent : p.sent = some d) :
    (d.status = .approved ∨ d.status = .rejected) ∧ Recorded t s d := by
  cases p with
  | signalled d' call =>
      cases hsent
      exact h
  | done d' =>
      cases hsent
      exact h
  | _ => cases hsent

theorem Awake.spared {w : Waiter} (h : Awake t s w) (hspared : Spared t s s') : Awake t s' w where
  set e he := by
    obtain hold | hset := hspared.made e he
    · exact hspared.isSet e (h.set e hold)
    · exact hset
  found hwait := by
    obtain ⟨e, he⟩ := h.found hwait
    exact ⟨e, hspared.stays e he⟩

-- ============================================================================
-- One step of each party
-- ============================================================================

/-- A step of the waiting call takes back neither a verdict nor a signal, and leaves it
    where it may be. -/
theorem Waiter.Moves.fits {w w' : Waiter} (h : Moves t s w w' s') (hw : w.Fits t s)
    (hticket : ∃ c, LawfulTicketStore.cell s.tickets t = some c) : Kept t s s' ∧ w'.Fits t s' := by
  obtain ⟨c, hc⟩ := hticket
  have hget : TicketStore.get s.tickets t = some c.ticket := by
    rw [LawfulTicketStore.get_eq, hc, Option.map_some]
  cases h with
  | starts => exact ⟨Kept.refl s, trivial⟩
  | reads => exact ⟨Kept.refl s, c.ticket, hget, fun hd => Recorded.of_get hget hd⟩
  | missing =>
      obtain ⟨ticket, hanswer, -⟩ := hw
      cases hanswer
  | verdict hd =>
      obtain ⟨ticket, hanswer, hdecided⟩ := hw
      cases hanswer
      exact ⟨Kept.refl s, fun _ => hdecided hd⟩
  | late => exact ⟨Kept.refl s, fun hd => absurd rfl hd⟩
  | waits =>
      refine ⟨⟨(Kept.refl s).cell, fun e he => MemoryDecisionSignal.isSet_setdefault he⟩, ?_⟩
      exact Or.inl MemoryDecisionSignal.lookup_setdefault_self
  | expires => exact ⟨Kept.refl s, trivial⟩
  | wakes => exact ⟨⟨(Kept.refl s).cell, fun _ he => he⟩, trivial⟩
  | settles hd => exact ⟨Kept.refl s, hw hd⟩
  | closes hd hdecide =>
      have hne : DecisionStatus.timeout ≠ .pending := by decide
      rw [← hd] at hne
      exact ⟨Kept.decide hdecide, Recorded.of_decide hne hc hdecide⟩
  | overtaken hd hdecide => exact ⟨Kept.decide hdecide, _, Recorded.of_refused hc hdecide⟩
  | rereads hread =>
      obtain ⟨d, hd⟩ := hw
      have hdecision := hd.get hread
      exact ⟨Kept.refl s, by rw [← hdecision] at hd; exact hd⟩
  | vanished hnone =>
      rw [hget] at hnone
      cases hnone

/-- After the signal no step of the waiting call makes an event that is not set. -/
theorem Waiter.Moves.awake {w w' : Waiter} (h : Moves t s w w' s') (hawake : Awake t s w)
    (hd : Recorded t s d) : Awake t s' w' := by
  cases h with
  | reads =>
      refine ⟨hawake.set, fun hwait => ?_⟩
      cases hget : TicketStore.get s.tickets t with
      | none =>
          rw [hget] at hwait
          exact hwait.elim
      | some ticket =>
          rw [hget] at hwait
          have hpending : ticket.decision.status = .pending := hwait
          rw [hd.get hget] at hpending
          exact absurd hpending hd.1
  | waits hpending =>
      obtain ⟨e, he⟩ := hawake.found hpending
      rw [MemoryDecisionSignal.setdefault_some he]
      exact ⟨hawake.set, fun hwait => hwait.elim⟩
  | wakes =>
      refine ⟨fun e he => ?_, fun hwait => hwait.elim⟩
      have hnone := s.signal.lookup_pop_self (t := t)
      rw [hnone] at he
      cases he
  | _ => exact ⟨hawake.set, fun hwait => hwait.elim⟩

/-- A step of `decide` records a verdict on a ticket that has none and leaves the events
    of the waiting call in place. -/
theorem Decider.Moves.fits {p p' : Decider} (h : Moves t s p p' s') (hp : p.Fits t s)
    (hticket : ∃ c, LawfulTicketStore.cell s.tickets t = some c) :
    Spared t s s' ∧ p'.Fits t s' := by
  obtain ⟨c, hc⟩ := hticket
  cases h with
  | finds hstatus => exact ⟨.of_signal (Kept.refl s) rfl, hstatus⟩
  | @records d ticket tickets hdecide =>
      have hstatus : d.status = .approved ∨ d.status = .rejected := hp
      have hrecorded := Recorded.of_decide (ne_of_verdict hstatus).1 hc hdecide
      exact ⟨.of_signal (Kept.decide hdecide) rfl, hstatus, hrecorded⟩
  | refuses hdecide => exact ⟨.of_signal (Kept.decide hdecide) rfl, trivial⟩
  | raises => exact ⟨.of_signal (Kept.refl s) rfl, trivial⟩
  | signals =>
      have hkept : Kept t s { s with signal := s.signal.signalDecision t } :=
        ⟨(Kept.refl s).cell, fun e he => MemoryDecisionSignal.isSet_signalDecision he⟩
      obtain ⟨e, he, hset⟩ := s.signal.signalDecision_self (t := t)
      refine ⟨⟨hkept, fun e' he' => ?_, fun e' he' => Or.inr ?_⟩, hp.1, hp.2.kept hkept⟩
      · exact s.signal.lookup_signalDecision he'
      · have heq : e = e' := Option.some.inj (he.symm.trans he')
        rw [← heq]
        exact hset
  | @audits d call event =>
      have hkept : Kept t s { s with audit := s.audit ++ [event] } :=
        ⟨(Kept.refl s).cell, fun _ he => he⟩
      exact ⟨.of_signal hkept rfl, hp.1, hp.2.kept hkept⟩

omit [LawfulTicketStore σ] in
/-- A verdict that was not signalled before is signalled by this step, which leaves the
    event of the ticket set. -/
theorem Decider.Moves.sent {p p' : Decider} (h : Moves t s p p' s') (hsent : p'.sent = some d) :
    p.sent = some d ∨ ∃ e, s'.signal.events.lookup t = some e ∧ s'.signal.isSet e = true := by
  cases h with
  | signals => exact Or.inr s.signal.signalDecision_self
  | audits => exact Or.inl hsent
  | _ => cases hsent

omit [LawfulTicketStore σ] in
/-- What was signalled stays signalled. -/
theorem Decider.Moves.sent_stays {p p' : Decider} (h : Moves t s p p' s')
    (hsent : p.sent = some d) : p'.sent = some d := by
  cases h with
  | audits => exact hsent
  | raises hnone =>
      rw [hnone] at hsent
      cases hsent
  | _ => cases hsent

end

-- ============================================================================
-- Runs
-- ============================================================================

section
variable {ι σ : Type} [DecidableEq ι] [TicketStore σ] [LawfulTicketStore σ]
variable {t : TicketId} {timeout : Time} {n : ℕ} {s s' : State ι σ} {d : Decision}

/-- Every party is where it may be, and the waiting call is awake once it was signalled. -/
structure Inv (t : TicketId) (s : State ι σ) : Prop where
  ticket : ∃ c, LawfulTicketStore.cell s.shared.tickets t = some c
  waiter : s.waiter.Fits t s.shared
  deciders : ∀ i, (s.deciders i).Fits t s.shared
  awake : ∀ i d, (s.deciders i).sent = some d → Awake t s.shared s.waiter

omit [DecidableEq ι] in
theorem Begun.inv (h : Begun t s) : Inv t s := by
  obtain ⟨call, hcell⟩ := h.ticket
  refine ⟨⟨_, hcell⟩, ?_, fun i => ?_, fun i d hsent => ?_⟩
  · rw [h.waiter]
    trivial
  · obtain ⟨d, hd⟩ := h.deciders i
    rw [hd]
    trivial
  · obtain ⟨d', hd'⟩ := h.deciders i
    rw [hd'] at hsent
    cases hsent

omit [DecidableEq ι] in
theorem Inv.ticket_kept (h : Inv t s) {shared : Shared σ} (hkept : Kept t s.shared shared) :
    ∃ c, LawfulTicketStore.cell shared.tickets t = some c := by
  obtain ⟨c, hc⟩ := h.ticket
  obtain ⟨c', hc', -⟩ := hkept.cell c hc
  exact ⟨c', hc'⟩

omit [DecidableEq ι] in
theorem Inv.waiter_step (h : Inv t s) {w : Waiter} {shared : Shared σ}
    (hmoves : s.waiter.Moves t s.shared w shared) :
    Inv t { s with waiter := w, shared := shared } := by
  obtain ⟨hkept, hfits⟩ := hmoves.fits h.waiter h.ticket
  refine ⟨h.ticket_kept hkept, hfits, fun i => (h.deciders i).kept hkept, fun i d hsent => ?_⟩
  obtain ⟨-, hrecorded⟩ := (h.deciders i).of_sent hsent
  exact hmoves.awake (h.awake i d hsent) hrecorded

omit [DecidableEq ι] in
theorem Inv.spared (h : Inv t s) {shared : Shared σ} (hspared : Spared t s.shared shared) :
    Inv t { s with shared := shared } where
  ticket := h.ticket_kept hspared.toKept
  waiter := h.waiter.spared hspared
  deciders i := (h.deciders i).kept hspared.toKept
  awake i d hsent := (h.awake i d hsent).spared hspared

theorem Inv.decider_step (h : Inv t s) {i : ι} {p : Decider} {shared : Shared σ}
    (hmoves : (s.deciders i).Moves t s.shared p shared) :
    Inv t { s with deciders := Function.update s.deciders i p, shared := shared } := by
  obtain ⟨hspared, hfits⟩ := hmoves.fits (h.deciders i) h.ticket
  have hothers := h.spared hspared
  refine ⟨hothers.ticket, hothers.waiter, fun j => ?_, fun j d hsent => ?_⟩
  · show (Function.update s.deciders i p j).Fits t shared
    by_cases hj : j = i
    · rw [hj, Function.update_self]
      exact hfits
    · rw [Function.update_of_ne hj]
      exact hothers.deciders j
  · have hsent' : (Function.update s.deciders i p j).sent = some d := hsent
    by_cases hj : j = i
    · rw [hj, Function.update_self] at hsent'
      obtain hold | ⟨e, he, hset⟩ := hmoves.sent hsent'
      · exact hothers.awake i d hold
      · refine ⟨fun e' he' => ?_, fun _ => ⟨e, he⟩⟩
        have heq : e = e' := Option.some.inj (he.symm.trans he')
        rw [← heq]
        exact hset
    · rw [Function.update_of_ne hj] at hsent'
      exact hothers.awake j d hsent'

theorem Inv.run (h : Inv t s) (hrun : Run t timeout s n s') : Inv t s' := by
  induction hrun with
  | nil => exact h
  | waiter now expired _ hstep ih => exact ih.waiter_step (Waiter.step_moves hstep)
  | decider i _ hstep ih => exact ih.decider_step (Decider.step_moves hstep)
  | other _ hstep ih => exact ih.spared hstep.spared

omit [DecidableEq ι] in
/-- A `decide` that has signalled goes no way back. -/
theorem Inv.sent_recorded (h : Inv t s) {i : ι} (hsent : (s.deciders i).sent = some d) :
    (d.status = .approved ∨ d.status = .rejected) ∧ Recorded t s.shared d :=
  (h.deciders i).of_sent hsent

theorem Run.sent (hrun : Run t timeout s n s') {i : ι} (hsent : (s.deciders i).sent = some d) :
    (s'.deciders i).sent = some d := by
  induction hrun with
  | nil => exact hsent
  | waiter now expired _ hstep ih => exact ih
  | other _ hstep ih => exact ih
  | @decider n s' p shared j _ hstep ih =>
      show (Function.update s'.deciders j p i).sent = some d
      by_cases hj : i = j
      · subst hj
        rw [Function.update_self]
        exact (Decider.step_moves hstep).sent_stays ih
      · rw [Function.update_of_ne hj]
        exact ih

-- ============================================================================
-- From the signal to the verdict
-- ============================================================================

/-- How many steps at most the waiting call takes to the verdict once that was
    signalled. -/
def Waiter.left : Waiter → ℕ
  | .starting => 4
  | .reading _ => 3
  | .read _ none => 2
  | .read _ (some ticket) => if ticket.decision.status = .pending then 5 else 2
  | .waiting _ _ => 4
  | .awaited d => if d.status = .timeout then 2 else 1
  | .rereading => 1
  | .settled _ => 0
  | .raised _ => 0

theorem Waiter.left_le (w : Waiter) : w.left ≤ 5 := by
  cases w with
  | read deadline answer =>
      cases answer with
      | none =>
          show 2 ≤ 5
          omega
      | some ticket =>
          show (if _ then 5 else 2) ≤ 5
          split
          · omega
          · omega
  | awaited d =>
      show (if _ then 2 else 1) ≤ 5
      split
      · omega
      · omega
  | _ => simp [left]

omit [DecidableEq ι] in
/-- Every step takes it nearer to the verdict. -/
theorem Waiter.Moves.left_lt {s s' : Shared σ} {w w' : Waiter} (h : Moves t s w w' s')
    (hw : w.Fits t s) (hd : Recorded t s d) (hverdict : d.status ≠ .timeout) :
    w'.left < w.left := by
  cases h with
  | @reads deadline =>
      obtain ⟨c, hc, hcd⟩ := hd.2
      have hget : TicketStore.get s.tickets t = some c.ticket := by
        rw [LawfulTicketStore.get_eq, hc, Option.map_some]
      have hne : c.ticket.decision.status ≠ .pending := by
        rw [hd.get hget]
        exact hd.1
      rw [hget]
      show (if _ then 5 else 2) < 3
      rw [if_neg hne]
      omega
  | @verdict deadline ticket hdecided =>
      obtain ⟨ticket', hanswer, hrecorded⟩ := hw
      cases hanswer
      have heq : ticket.decision = d := hd.unique (hrecorded hdecided)
      show (if _ then 2 else 1) < if _ then 5 else 2
      rw [if_neg hdecided, heq, if_neg hverdict]
      omega
  | late hpending =>
      show 2 < if _ then 5 else 2
      rw [if_pos hpending]
      omega
  | waits hpending =>
      show 4 < if _ then 5 else 2
      rw [if_pos hpending]
      omega
  | settles hne =>
      show 0 < if _ then 2 else 1
      rw [if_neg hne]
      omega
  | closes heq =>
      show 0 < if _ then 2 else 1
      rw [if_pos heq]
      omega
  | overtaken heq =>
      show 1 < if _ then 2 else 1
      rw [if_pos heq]
      omega
  | _ => simp [left]

/-- Only an event that is not set holds the waiting call up. -/
theorem Waiter.step_isSome {σ : Type} [TicketStore σ] {s : Shared σ} {w : Waiter} (now : Time)
    (hset : ∀ deadline e, w = .waiting deadline e → s.signal.isSet e = true) (hleft : 0 < w.left) :
    (w.step t timeout now false s).isSome = true := by
  cases w with
  | read deadline answer =>
      cases answer with
      | none => rfl
      | some ticket =>
          simp only [step]
          split
          · rfl
          · split
            · rfl
            · rfl
  | waiting deadline e =>
      simp only [step, hset deadline e rfl]
      rfl
  | awaited d =>
      simp only [step]
      split
      · split
        · rfl
        · rfl
      · rfl
  | rereading =>
      simp only [step]
      split
      · rfl
      · rfl
  | starting => rfl
  | reading deadline => rfl
  | settled d => simp [left] at hleft
  | raised exc => simp [left] at hleft

omit [DecidableEq ι] in
/-- A waiting call that was signalled is not blocked. -/
theorem Inv.not_blocked (h : Inv t s) {i : ι} (hsent : (s.deciders i).sent = some d)
    (deadline : Time) (e : ℕ) (hwaiting : s.waiter = .waiting deadline e) :
    s.shared.signal.isSet e = true := by
  have hfits := h.waiter
  rw [hwaiting] at hfits
  obtain hlookup | hset := hfits
  · exact (h.awake i d hsent).set e hlookup
  · exact hset

/-- Each step of the waiting call after the signal brings it nearer to the verdict. -/
theorem Run.left_le (h : Inv t s) {i : ι} (hsent : (s.deciders i).sent = some d)
    (hrun : Run t timeout s n s') : s'.waiter.left + n ≤ s.waiter.left := by
  induction hrun with
  | nil => exact Nat.le_refl _
  | decider j _ hstep ih => exact ih
  | other _ hstep ih => exact ih
  | @waiter n s' w shared now expired hbefore hstep ih =>
      have hinv : Inv t s' := h.run hbefore
      obtain ⟨hstatus, hrecorded⟩ := hinv.sent_recorded (hbefore.sent hsent)
      have hlt := (Waiter.step_moves hstep).left_lt hinv.waiter hrecorded (ne_of_verdict hstatus).2
      show w.left + (n + 1) ≤ s.waiter.left
      omega

omit [DecidableEq ι] in
/-- At the end of its steps it has the verdict. -/
theorem Inv.settled (h : Inv t s) (hd : Recorded t s.shared d) (hleft : s.waiter.left = 0) :
    s.waiter = .settled d := by
  have hfits := h.waiter
  cases hw : s.waiter with
  | settled d' =>
      rw [hw] at hfits
      rw [hd.unique hfits]
  | raised exc =>
      rw [hw] at hfits
      exact hfits.elim
  | read deadline answer =>
      rw [hw] at hleft
      cases answer with
      | none => cases hleft
      | some ticket =>
          have hzero : (if ticket.decision.status = .pending then 5 else 2) = 0 := hleft
          split at hzero
          · omega
          · omega
  | awaited d' =>
      rw [hw] at hleft
      have hzero : (if d'.status = .timeout then 2 else 1) = 0 := hleft
      split at hzero
      · omega
      · omega
  | _ =>
      rw [hw] at hleft
      cases hleft

/-- No signal is lost: from every state of every run in which a `decide` has recorded
    its verdict and run `signal_decision`, the waiting call is not blocked on an event
    that is not set; it has the verdict after at most five steps of its own, none of
    which has to wait for the next recheck. -/
theorem no_signal_lost {s₀ s : State ι σ} {n : ℕ} {i : ι} (hbegun : Begun t s₀)
    (hrun : Run t timeout s₀ n s) (hsent : (s.deciders i).sent = some d) :
    (∀ deadline e, s.waiter = .waiting deadline e → s.shared.signal.isSet e = true) ∧
      ∀ k s', Run t timeout s k s' → s'.waiter = .settled d ∨
        (k < 5 ∧ ∀ now, (s'.waiter.step t timeout now false s'.shared).isSome = true) := by
  have hinv : Inv t s := hbegun.inv.run hrun
  refine ⟨hinv.not_blocked hsent, fun k s' hrun' => ?_⟩
  have hinv' : Inv t s' := hinv.run hrun'
  have hsent' := hrun'.sent hsent
  have hleft := hrun'.left_le hinv hsent
  have hfive := s.waiter.left_le
  by_cases hzero : s'.waiter.left = 0
  · exact Or.inl (hinv'.settled (hinv'.sent_recorded hsent').2 hzero)
  · refine Or.inr ⟨by omega, fun now => ?_⟩
    exact Waiter.step_isSome now (hinv'.not_blocked hsent') (Nat.pos_of_ne_zero hzero)

/-- A call that sleeps on its event when the operator approves it. -/
theorem no_signal_lost_asleep :
    let s₀ : State Unit MemoryTicketStore :=
      { shared :=
          { tickets := MemoryTicketStore.empty.create "tkt-1"
              { requestId := "1", agentId := "agent-1", upstreamId := "github"
                toolName := "create_pr", arguments := .dict [], annotations := [] }
            signal := MemoryDecisionSignal.empty
            audit := [] }
        waiter := .starting
        deciders := fun _ => .asked { status := .approved } }
    ∃ s : State Unit MemoryTicketStore, Run "tkt-1" 300 s₀ 3 s ∧ s.waiter = .waiting 300 0 ∧
      s.shared.signal.isSet 0 = true ∧ ∀ k s', Run "tkt-1" 300 s k s' →
        s'.waiter = .settled { status := .approved } ∨
          (k < 5 ∧ ∀ now, (s'.waiter.step "tkt-1" 300 now false s'.shared).isSome = true) := by
  intro s₀
  have hbegun : Begun "tkt-1" s₀ := ⟨⟨_, rfl⟩, rfl, fun _ => ⟨_, rfl⟩⟩
  have hnil : Run "tkt-1" 300 s₀ 0 s₀ := .nil
  have h₁ := Run.waiter 0 false hnil rfl
  have h₂ := Run.waiter 1 false h₁ rfl
  have h₃ := Run.waiter 2 false h₂ rfl
  have h₄ := Run.decider () h₃ rfl
  have h₅ := Run.decider () h₄ rfl
  have h₆ := Run.decider () h₅ rfl
  obtain ⟨hset, hverdict⟩ := no_signal_lost (i := ()) hbegun h₆ rfl
  exact ⟨_, h₆, rfl, hset 300 0 rfl, hverdict⟩

end

end Wakeup

end ToolGateway
