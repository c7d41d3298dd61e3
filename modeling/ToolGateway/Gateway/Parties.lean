/-
  ToolGateway.Gateway.Parties

  The parties of `Wakeup` are the coroutines of the gateway: a step of the waiting call
  is a step of `_await_decision` and of what `handle_call` does with its answer, or no
  step of theirs, and a step of `decide` is one of `ToolGateway.decide`.

  The coroutines know no events, a wait of theirs may end at any time.  So what is proved
  of them for every run holds with `MemoryDecisionSignal` too.
-/

import ToolGateway.Gateway.Wakeup

namespace ToolGateway

open Coroutine Py

namespace Wakeup

section
variable {σ α : Type} [TicketStore σ]
variable {t : TicketId} {timeout now deadline : Time} {expired : Bool} {s s' : Shared σ}
variable {d : Decision} {n : ℕ} {ctx : CallContext}

-- ============================================================================
-- What is left of a coroutine
-- ============================================================================

/-- `_await_decision` from where the clock was read. -/
def remain (t : TicketId) (deadline : Time) (rechecks : ℕ) (now : Time) : StepM σ Decision := do
  if deadline - now ≤ 0 then return { status := .timeout }
  else
    Prog.atomic fun _ w => some ((), w)
    awaitDecision t deadline rechecks

/-- `_await_decision` from where the store has answered. -/
def look (t : TicketId) (deadline : Time) (rechecks : ℕ) (answer : Option Ticket) :
    StepM σ Decision := do
  match answer with
  | none => throw (.python .attributeError)
  | some ticket =>
      if ticket.decision.status ≠ .pending then return ticket.decision
      else
        let now ← Prog.lift readClock
        remain t deadline rechecks now

/-- What is left of the waiting coroutine at a position, with so many rechecks to go. -/
def Waiter.rest (t : TicketId) (timeout : Time) (rechecks : ℕ) : Waiter → StepM σ Decision
  | .starting => do
      let start ← Prog.lift readClock
      let awaited ← awaitDecision t (start + timeout) (rechecks + 1)
      settle t awaited
  | .reading deadline => do
      let awaited ← awaitDecision t deadline (rechecks + 1)
      settle t awaited
  | .read deadline answer => do
      let awaited ← look t deadline rechecks answer
      settle t awaited
  | .waiting deadline _ => do
      Prog.atomic fun _ w => some ((), w)
      let awaited ← awaitDecision t deadline rechecks
      settle t awaited
  | .awaited d => settle t d
  | .rereading => do
      match ← Prog.lift (getTicket t) with
      | none => throw (.python .attributeError)
      | some ticket => return ticket.decision
  | .settled d => return d
  | .raised exc => throw exc

/-- `ToolGateway.decide` from where the store has answered. -/
def Decider.verdict (t : TicketId) (d : Decision) (answer : Option Ticket) : GatewayM σ Reply := do
  match answer with
  | none => throw (.unknownTicket t)
  | some ticket =>
      if ← Prog.lift (decideTicket t d) then
        Prog.atomic fun _ w => some ((), w)
        Prog.lift (auditEvent "decision" ticket.call (decisionEvent t ticket.call d).fields)
        return .done
      else throw (.ticketAlreadyDecided t)

/-- What is left of `ToolGateway.decide` at a position. -/
def Decider.rest (t : TicketId) : Decider → GatewayM σ Reply
  | .asked d => ToolGateway.decide t d
  | .found d answer => Decider.verdict t d answer
  | .recorded d call => do
      Prog.atomic fun _ w => some ((), w)
      Prog.lift (auditEvent "decision" call (decisionEvent t call d).fields)
      return .done
  | .signalled d call => do
      Prog.lift (auditEvent "decision" call (decisionEvent t call d).fields)
      return .done
  | .done _ => return .done
  | .raised exc => throw exc

/-- Where the reread of a ticket leaves the waiting call. -/
def Waiter.reread : Option Ticket → Waiter
  | none => .raised (.python .attributeError)
  | some ticket => .settled ticket.decision

-- ============================================================================
-- The next await point
-- ============================================================================

theorem rest_decided {ticket : Ticket} (h : ticket.decision.status ≠ .pending) :
    ((Waiter.read deadline (some ticket)).rest t timeout n : StepM σ Decision) =
      (Waiter.awaited ticket.decision).rest t timeout n := by
  show look t deadline n (some ticket) >>= settle t = _
  rw [look, if_pos h]
  rfl

theorem rest_pending {ticket : Ticket} (h : ticket.decision.status = .pending) :
    ((Waiter.read deadline (some ticket)).rest t timeout n : StepM σ Decision).exec ctx =
      readClock >>= fun now =>
        if deadline - now ≤ 0 then
          ((Waiter.awaited { status := .timeout }).rest t timeout n).exec ctx
        else ((Waiter.waiting deadline 0).rest t timeout n).exec ctx := by
  show (look t deadline n (some ticket) >>= settle t).exec ctx = _
  rw [look, if_neg (not_not.mpr h)]
  refine congrArg (readClock >>= ·) (funext fun now => ?_)
  show (remain t deadline n now >>= settle t).exec ctx = _
  by_cases hlate : deadline - now ≤ 0
  · rw [remain, if_pos hlate, if_pos hlate]
    rfl
  · rw [remain, if_neg hlate, if_neg hlate]
    rfl

theorem rest_waiting {e : ℕ} :
    ((Waiter.waiting deadline e).rest t timeout (n + 1) : StepM σ Decision).exec ctx =
      (Co.atomic fun _ w => some ((), w)) >>= fun _ =>
        ((Waiter.reading deadline).rest t timeout n).exec ctx := rfl

theorem rest_awaited (h : d.status ≠ .timeout) :
    ((Waiter.awaited d).rest t timeout n : StepM σ Decision) =
      (Waiter.settled d).rest t timeout n := by
  show settle t d = _
  rw [settle, if_neg h]
  rfl

theorem rest_timeout (h : d.status = .timeout) :
    ((Waiter.awaited d).rest t timeout n : StepM σ Decision).exec ctx =
      decideTicket t d >>= fun won =>
        if won then ((Waiter.settled d).rest t timeout n).exec ctx
        else (Waiter.rereading.rest t timeout n).exec ctx := by
  show (settle t d).exec ctx = _
  rw [settle, if_pos h]
  refine congrArg (decideTicket t d >>= ·) (funext fun won => ?_)
  cases won with
  | true => rfl
  | false => rfl

theorem rest_rereading :
    (Waiter.rereading.rest t timeout n : StepM σ Decision).exec ctx =
      getTicket t >>= fun answer => ((Waiter.reread answer).rest t timeout n).exec ctx := by
  refine congrArg (getTicket t >>= ·) (funext fun answer => ?_)
  cases answer with
  | none => rfl
  | some ticket => rfl

theorem rest_asked (h : d.status = .approved ∨ d.status = .rejected) :
    ((Decider.asked d).rest t : GatewayM σ Reply).exec () =
      getTicket t >>= fun answer => ((Decider.found d answer).rest t).exec () := by
  show (ToolGateway.decide t d).exec () = _
  rw [ToolGateway.decide, if_pos h]
  rfl

theorem rest_refused (h : ¬(d.status = .approved ∨ d.status = .rejected)) :
    ((Decider.asked d).rest t : GatewayM σ Reply) =
      (Decider.raised (.python .valueError)).rest t := by
  show ToolGateway.decide t d = _
  rw [ToolGateway.decide, if_neg h]
  rfl

/-- Where the store's answer to the verdict leaves `decide`. -/
def Decider.answered (t : TicketId) (d : Decision) (call : ToolCall) : Bool → Decider
  | true => .recorded d call
  | false => .raised (.ticketAlreadyDecided t)

theorem rest_found {ticket : Ticket} :
    ((Decider.found d (some ticket)).rest t : GatewayM σ Reply).exec () =
      decideTicket t d >>= fun won => ((Decider.answered t d ticket.call won).rest t).exec () := by
  refine congrArg (decideTicket t d >>= ·) (funext fun won => ?_)
  cases won with
  | true => rfl
  | false => rfl

theorem rest_recorded {call : ToolCall} :
    ((Decider.recorded d call).rest t : GatewayM σ Reply).exec () =
      (Co.atomic fun _ w => some ((), w)) >>= fun _ =>
        ((Decider.signalled d call).rest t).exec () := rfl

theorem rest_signalled {call : ToolCall} :
    ((Decider.signalled d call).rest t : GatewayM σ Reply).exec () =
      auditEvent "decision" call (decisionEvent t call d).fields >>= fun _ =>
        ((Decider.done d).rest t).exec () := rfl

-- ============================================================================
-- One step
-- ============================================================================

/-- The world holds what the parties share. -/
structure Shows (world : World σ) (s : Shared σ) : Prop where
  tickets : world.tickets = s.tickets
  audit : world.audit = s.audit

/-- The coroutine takes one step in this world, or none, and leaves it as the parties
    do. -/
def Follows (slot : Slot Input) (world : World σ) (s' : Shared σ) (c c' : Task σ α) : Prop :=
  (c' = c ∧ Shows world s') ∨
    ∃ world', Shows world' s' ∧ c.Path [⟨slot, world, world'⟩] c'

variable {slot : Slot Input} {world : World σ}

omit [TicketStore σ] in
theorem follows_readClock {k : Time → Task σ α} {c : Task σ α} (h : Shows world s)
    (hk : k slot.input.now = c) : Follows slot world s (readClock >>= k) c := by
  rw [← hk]
  exact Or.inr ⟨world, h, Co.path_step rfl⟩

omit [TicketStore σ] in
theorem follows_pause {k : Unit → Task σ α} (h : Shows world s) :
    Follows slot world s ((Co.atomic fun _ w => some ((), w)) >>= k) (k ()) :=
  Or.inr ⟨world, h, Co.path_step rfl⟩

theorem follows_getTicket {k : Option Ticket → Task σ α} {c : Task σ α} (h : Shows world s)
    (hk : k (TicketStore.get s.tickets t) = c) : Follows slot world s (getTicket t >>= k) c := by
  rw [← hk, ← h.tickets]
  cases hget : TicketStore.get world.tickets t with
  | none =>
      refine Or.inr ⟨world.mark slot.me (.missed t), ⟨h.tickets, h.audit⟩, Co.path_step ?_⟩
      simp only [hget]
  | some ticket =>
      refine Or.inr ⟨world.mark slot.me (.read t ticket), ⟨h.tickets, h.audit⟩, Co.path_step ?_⟩
      simp only [hget]

theorem follows_decideTicket {k : Bool → Task σ α} {won : Bool} {tickets : σ} (h : Shows world s)
    (hdecide : TicketStore.decide s.tickets t d = (won, tickets)) :
    Follows slot world { s with tickets := tickets } (decideTicket t d >>= k) (k won) := by
  rw [← h.tickets] at hdecide
  cases won with
  | true =>
      refine Or.inr ⟨World.mark { world with tickets := tickets } slot.me (.decided t d),
        ⟨rfl, h.audit⟩, Co.path_step ?_⟩
      simp only [hdecide]
  | false =>
      refine Or.inr ⟨World.mark { world with tickets := tickets } slot.me (.refused t),
        ⟨rfl, h.audit⟩, Co.path_step ?_⟩
      simp only [hdecide]

omit [TicketStore σ] in
/-- The coroutines know no events. -/
theorem Shows.signal {signal : MemoryDecisionSignal} (h : Shows world s) :
    Shows world { s with signal := signal } := ⟨h.tickets, h.audit⟩

/-- A step of the waiting call is one of its coroutine, or none. -/
theorem Waiter.follows (slot : Slot Input) {w w' : Waiter}
    (h : w.step t timeout slot.input.now expired s = some (w', s')) (hshows : Shows world s)
    (n : ℕ) (ctx : CallContext) :
    ∃ m, Follows slot world s' ((w.rest t timeout m).exec ctx) ((w'.rest t timeout n).exec ctx) := by
  cases w with
  | starting =>
      cases h
      exact ⟨n, follows_readClock hshows rfl⟩
  | reading deadline =>
      cases h
      exact ⟨n, follows_getTicket hshows rfl⟩
  | read deadline answer =>
      cases answer with
      | none =>
          cases h
          exact ⟨n, Or.inl ⟨rfl, hshows⟩⟩
      | some ticket =>
          simp only [step] at h
          split at h
          · next hdecided =>
              cases h
              rw [← rest_decided hdecided]
              exact ⟨n, Or.inl ⟨rfl, hshows⟩⟩
          · next hpending =>
              refine ⟨n, ?_⟩
              rw [rest_pending (not_not.mp hpending)]
              split at h
              · next hlate =>
                  cases h
                  exact follows_readClock hshows (if_pos hlate)
              · next hlate =>
                  cases h
                  exact follows_readClock hshows.signal (if_neg hlate)
  | waiting deadline e =>
      refine ⟨n + 1, ?_⟩
      rw [rest_waiting]
      simp only [step] at h
      split at h
      · cases h
        exact follows_pause hshows
      · split at h
        · cases h
          exact follows_pause hshows.signal
        · cases h
  | awaited d =>
      simp only [step] at h
      split at h
      · next htimeout =>
          refine ⟨n, ?_⟩
          rw [rest_timeout htimeout]
          split at h
          · next hdecide =>
              cases h
              exact follows_decideTicket hshows hdecide
          · next hdecide =>
              cases h
              exact follows_decideTicket hshows hdecide
      · next hverdict =>
          cases h
          rw [← rest_awaited hverdict]
          exact ⟨n, Or.inl ⟨rfl, hshows⟩⟩
  | rereading =>
      refine ⟨n, ?_⟩
      rw [rest_rereading]
      simp only [step] at h
      split at h
      · next hget =>
          cases h
          refine follows_getTicket hshows ?_
          rw [hget]
          rfl
      · next hget =>
          cases h
          refine follows_getTicket hshows ?_
          rw [hget]
          rfl
  | settled d => cases h
  | raised exc => cases h

/-- A step of `decide` is one of its coroutine, or none. -/
theorem Decider.follows (slot : Slot Input) {p p' : Decider} (h : p.step t s = some (p', s'))
    (hshows : Shows world s) :
    Follows slot world s' ((p.rest t).exec ()) ((p'.rest t).exec ()) := by
  cases p with
  | asked d =>
      simp only [step] at h
      split at h
      · next hstatus =>
          cases h
          rw [rest_asked hstatus]
          exact follows_getTicket hshows rfl
      · next hstatus =>
          cases h
          rw [rest_refused hstatus]
          exact Or.inl ⟨rfl, hshows⟩
  | found d answer =>
      cases answer with
      | none =>
          cases h
          exact Or.inl ⟨rfl, hshows⟩
      | some ticket =>
          rw [rest_found]
          simp only [step] at h
          split at h
          · next hdecide =>
              cases h
              exact follows_decideTicket hshows hdecide
          · next hdecide =>
              cases h
              exact follows_decideTicket hshows hdecide
  | recorded d call =>
      cases h
      rw [rest_recorded]
      exact follows_pause hshows.signal
  | signalled d call =>
      cases h
      rw [rest_signalled]
      refine Or.inr ⟨{ world with audit := world.audit ++ [decisionEvent t call d] },
        ⟨hshows.tickets, ?_⟩, Co.path_step rfl⟩
      show world.audit ++ _ = s.audit ++ _
      rw [hshows.audit]
  | done d => cases h
  | raised exc => cases h

end

-- ============================================================================
-- A whole run
-- ============================================================================

section
variable {ι σ : Type} [DecidableEq ι] [TicketStore σ] [LawfulTicketStore σ]
variable {t : TicketId} {timeout : Time} {n : ℕ} {s s' : State ι σ}

/-- A world that holds what the parties share. -/
def Shared.world (s : Shared σ) : World σ :=
  { tickets := s.tickets, grants := fun _ => .ok none, audit := s.audit, trail := [] }

omit [TicketStore σ] [LawfulTicketStore σ] in
theorem Shared.shows (s : Shared σ) : Shows s.world s := ⟨rfl, rfl⟩

/-- In every run the waiting call goes where its coroutine can go, with enough
    rechecks. -/
theorem Run.waiter_path (hrun : Run t timeout s n s') (ctx : CallContext) (rechecks : ℕ) :
    ∃ m ds, ((s.waiter.rest t timeout m : StepM σ Decision).exec ctx).Path ds
      ((s'.waiter.rest t timeout rechecks).exec ctx) := by
  induction hrun generalizing rechecks with
  | nil => exact ⟨rechecks, [], Co.path_nil.mpr rfl⟩
  | decider i _ _ ih => exact ih rechecks
  | other _ _ ih => exact ih rechecks
  | @waiter n s' w shared now expired _ hstep ih =>
      let slot : Slot Input := ⟨0, fun _ => true, { now := now }⟩
      obtain ⟨m, hfollows⟩ := Waiter.follows slot hstep s'.shared.shows rechecks ctx
      obtain ⟨m₀, ds, hpath⟩ := ih m
      obtain ⟨heq, -⟩ | ⟨world', -, hone⟩ := hfollows
      · refine ⟨m₀, ds, ?_⟩
        show Co.Path _ ds ((w.rest t timeout rechecks).exec ctx)
        rw [heq]
        exact hpath
      · exact ⟨m₀, _, hpath.append hone⟩

/-- In every run a call of `decide` goes where its coroutine can go. -/
theorem Run.decider_path (hrun : Run t timeout s n s') (i : ι) :
    ∃ ds, (((s.deciders i).rest t : GatewayM σ Reply).exec ()).Path ds
      (((s'.deciders i).rest t).exec ()) := by
  induction hrun with
  | nil => exact ⟨[], Co.path_nil.mpr rfl⟩
  | waiter now expired _ _ ih => exact ih
  | other _ _ ih => exact ih
  | @decider n s' p shared j _ hstep ih =>
      obtain ⟨ds, hpath⟩ := ih
      by_cases hj : i = j
      · subst hj
        let slot : Slot Input := ⟨0, fun _ => true, {}⟩
        have hself : Function.update s'.deciders i p i = p := by rw [Function.update_self]
        obtain ⟨heq, -⟩ | ⟨world', -, hone⟩ := Decider.follows slot hstep s'.shared.shows
        · refine ⟨ds, ?_⟩
          show Co.Path _ ds (((Function.update s'.deciders i p i).rest t).exec ())
          rw [hself, heq]
          exact hpath
        · refine ⟨ds ++ [⟨slot, s'.shared.world, world'⟩], ?_⟩
          show Co.Path _ _ (((Function.update s'.deciders i p i).rest t).exec ())
          rw [hself]
          exact hpath.append hone
      · refine ⟨ds, ?_⟩
        show Co.Path _ ds (((Function.update s'.deciders j p i).rest t).exec ())
        rw [Function.update_of_ne hj]
        exact hpath

/-- A verdict the waiting call ends with is one `_await_decision` and `handle_call` can
    end with. -/
theorem Run.waiter_takes (hrun : Run t timeout s n s') {d : Decision} (hs : s.waiter = .starting)
    (hs' : s'.waiter = .settled d) (ctx : CallContext) :
    ∃ m ds, ((Waiter.starting.rest t timeout m : StepM σ Decision).exec ctx).Takes ds
      (.ok d, ctx) := by
  obtain ⟨m, ds, hpath⟩ := hrun.waiter_path ctx 0
  rw [hs, hs'] at hpath
  exact ⟨m, ds, Co.takes_iff_path.mpr hpath⟩

end

end Wakeup

end ToolGateway
