/-
  ToolGateway.Gateway.Watch

  A monitor for the gateway's threads.  It keeps what a thread has done, step by
  step, with the reading of the clock: the marks it made and the entries it put in
  the audit log.  Its rules are about a thread's own past.

    * Filing a ticket, deciding one and running a tool are owed to the audit log,
      and an entry about them is made by a thread that owes it.
    * Secrets are resolved and a tool is run under a grant without approval, by a
      thread that acted on no verdict, or on a ticket whose execution it has started.
    * A verdict is one that the thread is there to record, or a timeout that it has
      waited for.
    * A claim is taken at the reading of the clock, and closed when its lease is over.

  Every program of the gateway passes.
-/

import ToolGateway.Coroutine.Monitor
import ToolGateway.Gateway.Runs

namespace ToolGateway

open Coroutine Py

-- ============================================================================
-- Accounts
-- ============================================================================

/-- What the audit log has to account for. -/
inductive Account where
  /-- a ticket was filed for this tool and agent -/
  | filed (t tool agent : String)
  /-- a verdict was recorded -/
  | ruled (t status approver reason : String) (edited : Bool)
  /-- a tool was run for this agent -/
  | ran (tool agent : String)
deriving DecidableEq

/-- What a mark has to be accounted for as.  A timeout is no operator's verdict. -/
def Mark.account : Mark → Option Account
  | .created t call => some (.filed t call.fullName call.agentId)
  | .decided t d =>
      if d.status = .timeout then none
      else some (.ruled t d.status.value d.approver d.reason d.edited)
  | .dispatched call => some (.ran call.fullName call.agentId)
  | _ => none

namespace AuditEvent

/-- A field that is a text. -/
def text (e : AuditEvent) (key : String) : String :=
  match Fields.get e.fields key with
  | .str s => s
  | _ => ""

/-- The event has this field, and it is truthy. -/
def flag (e : AuditEvent) (key : String) : Bool := (Fields.get e.fields key).truthy

/-- What an entry of the audit log accounts for. -/
def account (e : AuditEvent) : Option Account :=
  if e.event = "gated" then some (.filed (e.text "ticket_id") e.tool e.agent)
  else if e.event = "decision" then
    some (.ruled (e.text "ticket_id") (e.text "status") (e.text "approver") (e.text "reason")
      (e.flag "edited"))
  else if e.event = "call" ∨ e.event = "call_failed" then some (.ran e.tool e.agent)
  else none

end AuditEvent

-- ============================================================================
-- What a thread did
-- ============================================================================

/-- What one step of a thread left behind. -/
inductive Act where
  | quiet
  | marks (m : Mark)
  | tells (e : AuditEvent)

/-- One step of a thread: the clock it read, and what it did. -/
structure Deed where
  now : Time
  act : Act

/-- The marks among a thread's deeds, newest first like the deeds. -/
def marksOf (deeds : List Deed) : List Mark :=
  deeds.filterMap fun d =>
    match d.act with
    | .marks m => some m
    | _ => none

/-- The entries among a thread's deeds. -/
def toldBy (deeds : List Deed) : List AuditEvent :=
  deeds.filterMap fun d =>
    match d.act with
    | .tells e => some e
    | _ => none

/-- What the thread still owes to the audit log. -/
def owed : List Deed → Option Account
  | [] => none
  | d :: deeds =>
      match d.act with
      | .quiet => owed deeds
      | .marks m => m.account.or (owed deeds)
      | .tells e => if e.account.isSome then none else owed deeds

section
variable {deeds : List Deed} {now : Time} {m : Mark} {e : AuditEvent}

@[simp] theorem marksOf_quiet : marksOf (⟨now, .quiet⟩ :: deeds) = marksOf deeds := rfl

@[simp] theorem marksOf_marks : marksOf (⟨now, .marks m⟩ :: deeds) = m :: marksOf deeds := rfl

@[simp] theorem marksOf_tells : marksOf (⟨now, .tells e⟩ :: deeds) = marksOf deeds := rfl

@[simp] theorem toldBy_quiet : toldBy (⟨now, .quiet⟩ :: deeds) = toldBy deeds := rfl

@[simp] theorem toldBy_marks : toldBy (⟨now, .marks m⟩ :: deeds) = toldBy deeds := rfl

@[simp] theorem toldBy_tells : toldBy (⟨now, .tells e⟩ :: deeds) = e :: toldBy deeds := rfl

@[simp] theorem owed_quiet : owed (⟨now, .quiet⟩ :: deeds) = owed deeds := rfl

theorem owed_marks_some {a : Account} (h : m.account = some a) :
    owed (⟨now, .marks m⟩ :: deeds) = some a := by
  simp only [owed, h, Option.or]

theorem owed_marks_none (h : m.account = none) : owed (⟨now, .marks m⟩ :: deeds) = owed deeds := by
  simp only [owed, h, Option.or]

theorem owed_tells_some (h : e.account.isSome) : owed (⟨now, .tells e⟩ :: deeds) = none := by
  simp only [owed, h, if_true]

theorem owed_tells_none (h : e.account = none) : owed (⟨now, .tells e⟩ :: deeds) = owed deeds := by
  simp [owed, h]

end

-- ============================================================================
-- The rules
-- ============================================================================

/-- The thread may run tools: no approval is asked for and it acted on no verdict, or
    it has started the execution of a ticket. -/
def Licensed (deeds : List Deed) : Prop :=
  (∃ call grant, .consulted call grant ∈ marksOf deeds ∧ grant.approvalMode = .auto ∧
      ∀ t d, .acted t d ∉ marksOf deeds) ∨
    ∃ t arguments, .started t arguments ∈ marksOf deeds

/-- Since it filed the ticket the thread has read the clock, and its deadline is
    this. -/
def Awaits (timeout : Time) (t : TicketId) (deadline : Time) (deeds : List Deed) : Prop :=
  ∃ call d before, d :: before <:+ deeds ∧ .created t call ∈ marksOf before ∧
    deadline = d.now + timeout

/-- It has read the clock again, past the deadline. -/
def WaitedOut (timeout : Time) (t : TicketId) (deeds : List Deed) : Prop :=
  ∃ deadline d before, d :: before <:+ deeds ∧ Awaits timeout t deadline before ∧ deadline ≤ d.now

theorem Licensed.same {deeds deeds' : List Deed} (h : Licensed deeds)
    (hmarks : marksOf deeds' = marksOf deeds) : Licensed deeds' := by
  rw [Licensed, hmarks]
  exact h

theorem Licensed.mark {deeds : List Deed} {now : Time} {m : Mark} (h : Licensed deeds)
    (hm : ∀ t d, m ≠ .acted t d) : Licensed (⟨now, .marks m⟩ :: deeds) := by
  rcases h with ⟨call, grant, hconsulted, hauto, hunacted⟩ | ⟨t, arguments, hstarted⟩
  · refine Or.inl ⟨call, grant, List.mem_cons_of_mem m hconsulted, hauto, fun t d hmem => ?_⟩
    rcases List.mem_cons.mp hmem with heq | hmem
    · exact hm t d heq.symm
    · exact hunacted t d hmem
  · exact Or.inr ⟨t, arguments, List.mem_cons_of_mem m hstarted⟩

theorem Awaits.suffix {timeout : Time} {t : TicketId} {deadline : Time} {deeds deeds' : List Deed}
    (h : Awaits timeout t deadline deeds) (hsuffix : deeds <:+ deeds') :
    Awaits timeout t deadline deeds' := by
  obtain ⟨call, d, before, hbefore, hfiled, hdeadline⟩ := h
  exact ⟨call, d, before, hbefore.trans hsuffix, hfiled, hdeadline⟩

theorem WaitedOut.suffix {timeout : Time} {t : TicketId} {deeds deeds' : List Deed}
    (h : WaitedOut timeout t deeds) (hsuffix : deeds <:+ deeds') : WaitedOut timeout t deeds' := by
  obtain ⟨deadline, d, before, hbefore, hawaits, hover⟩ := h
  exact ⟨deadline, d, before, hbefore.trans hsuffix, hawaits, hover⟩

section
variable {σ : Type} [TicketStore σ] [LawfulTicketStore σ]

/-- After these deeds the thread may make this mark. -/
def Earned (s : Settings) (verdict : TicketId → Decision → Prop) (deeds : List Deed) (now : Time)
    (w : World σ) : Mark → Prop
  | .resolved _ | .dispatched _ => Licensed deeds
  | .decided t d => verdict t d ∨ (d.status = .timeout ∧
      (WaitedOut s.gate.timeout t deeds ∨ ∃ ticket, .read t ticket ∈ marksOf deeds ∧ ticket.decision = d))
  | .claimed _ taken => taken = now
  | .closed t _ => ∃ c taken, LawfulTicketStore.cell w.tickets t = some c ∧
      c.claimedAt = some taken ∧ s.gate.lease ≤ now - taken
  | _ => True

/-- After these deeds the thread may do this. -/
def Fitting (s : Settings) (verdict : TicketId → Decision → Prop) (deeds : List Deed) (now : Time)
    (w : World σ) : Act → Prop
  | .quiet => True
  | .marks m => (m.account.isSome → owed deeds = none) ∧ Earned s verdict deeds now w m
  | .tells e => ∀ a, e.account = some a → owed deeds = some a

/-- What the act does to the trail and to the audit log. -/
def Act.takes (i : ℕ) (w w' : World σ) : Act → Prop
  | .quiet => w'.trail = w.trail ∧ w'.audit = w.audit
  | .marks m => w'.trail = (i, m) :: w.trail ∧ w'.audit = w.audit
  | .tells e => w'.trail = w.trail ∧ w'.audit = w.audit ++ [e]

/-- The monitor of a thread that may record such verdicts. -/
def watch (σ : Type) [TicketStore σ] [LawfulTicketStore σ] (s : Settings)
    (verdict : TicketId → Decision → Prop) : Monitor (List Deed) Input (World σ) :=
  fun deeds slot w w' deeds' => ∃ act, deeds' = ⟨slot.input.now, act⟩ :: deeds ∧
    act.takes slot.me w w' ∧ Fitting s verdict deeds slot.input.now w act

end

-- ============================================================================
-- Await points
-- ============================================================================

section
variable {σ : Type} [TicketStore σ] [LawfulTicketStore σ] {s : Settings}
  {verdict : TicketId → Decision → Prop} {deeds : List Deed} {α β γ : Type}

/-- An await point that leaves trail and audit log alone. -/
theorem quiet_watched {Q : List Deed → β → Prop}
    {block : Slot Input → World σ → Option (β × World σ)}
    (h : ∀ slot w x w', block slot w = some (x, w') → w'.trail = w.trail ∧ w'.audit = w.audit ∧
      Q (⟨slot.input.now, .quiet⟩ :: deeds) x) :
    (Co.atomic block).Passes (watch σ s verdict) Q deeds := by
  refine .atomic fun slot w x w' hb => ?_
  obtain ⟨htrail, haudit, hQ⟩ := h slot w x w' hb
  exact ⟨_, ⟨.quiet, rfl, ⟨htrail, haudit⟩, trivial⟩, hQ⟩

theorem note_watched {Q : List Deed → Unit → Prop} {m : Mark} (hfree : m.account = none)
    (hearned : ∀ now (w : World σ), Earned s verdict deeds now w m)
    (h : ∀ now, Q (⟨now, .marks m⟩ :: deeds) ()) :
    (note m : Task σ Unit).Passes (watch σ s verdict) Q deeds := by
  refine .atomic fun slot w x w' hb => ?_
  cases hb
  refine ⟨_, ⟨.marks m, rfl, ⟨rfl, rfl⟩, fun hsome => ?_, hearned _ w⟩, h _⟩
  rw [hfree] at hsome
  cases hsome

theorem readClock_watched {Q : List Deed → Time → Prop}
    (h : ∀ now, Q (⟨now, .quiet⟩ :: deeds) now) :
    (readClock : Task σ Time).Passes (watch σ s verdict) Q deeds :=
  quiet_watched fun slot w x w' hb => by
    cases hb
    exact ⟨rfl, rfl, h _⟩

theorem auditEvent_watched {Q : List Deed → Unit → Prop} {event : String} {call : ToolCall}
    {fields : Fields}
    (howed : ∀ a, AuditEvent.account ⟨event, call.fullName, call.agentId, fields⟩ = some a →
      owed deeds = some a)
    (h : ∀ now, Q (⟨now, .tells ⟨event, call.fullName, call.agentId, fields⟩⟩ :: deeds) ()) :
    (auditEvent event call fields : Task σ Unit).Passes (watch σ s verdict) Q deeds := by
  refine .atomic fun slot w x w' hb => ?_
  cases hb
  exact ⟨_, ⟨.tells _, rfl, ⟨rfl, rfl⟩, howed⟩, h _⟩

theorem grantFor_watched {Q : List Deed → Except PyError (Option Grant) → Prop} {call : ToolCall}
    (hgranted : ∀ now grant, Q (⟨now, .marks (.consulted call grant)⟩ :: deeds) (.ok (some grant)))
    (hother : ∀ now answer, (∀ grant, answer ≠ .ok (some grant)) →
      Q (⟨now, .quiet⟩ :: deeds) answer) :
    (grantFor call : Task σ _).Passes (watch σ s verdict) Q deeds := by
  refine .atomic fun slot w x w' hb => ?_
  split at hb
  · cases hb
    exact ⟨_, ⟨.marks _, rfl, ⟨rfl, rfl⟩, nofun, trivial⟩, hgranted _ _⟩
  · next hne =>
      cases hb
      exact ⟨_, ⟨.quiet, rfl, ⟨rfl, rfl⟩, trivial⟩, hother _ _ hne⟩

theorem createTicket_watched {Q : List Deed → Except PyError TicketId → Prop} {call : ToolCall}
    (hclear : owed deeds = none)
    (hcreated : ∀ now t, Q (⟨now, .marks (.created t call)⟩ :: deeds) (.ok t))
    (hrefused : ∀ now e, Q (⟨now, .quiet⟩ :: deeds) (.error e)) :
    (createTicket call : Task σ _).Passes (watch σ s verdict) Q deeds := by
  refine .atomic fun slot w x w' hb => ?_
  dsimp only at hb
  split at hb
  · cases hb
  · split at hb
    · cases hb
      exact ⟨_, ⟨.marks _, rfl, ⟨rfl, rfl⟩, fun _ => hclear, trivial⟩, hcreated _ _⟩
    · cases hb
      exact ⟨_, ⟨.quiet, rfl, ⟨rfl, rfl⟩, trivial⟩, hrefused _ _⟩

theorem getTicket_watched {Q : List Deed → Option Ticket → Prop} {t : TicketId}
    (hread : ∀ now ticket, Q (⟨now, .marks (.read t ticket)⟩ :: deeds) (some ticket))
    (hmissed : ∀ now, Q (⟨now, .marks (.missed t)⟩ :: deeds) none) :
    (getTicket t : Task σ _).Passes (watch σ s verdict) Q deeds := by
  refine .atomic fun slot w x w' hb => ?_
  split at hb
  · cases hb
    exact ⟨_, ⟨.marks _, rfl, ⟨rfl, rfl⟩, nofun, trivial⟩, hread _ _⟩
  · cases hb
    exact ⟨_, ⟨.marks _, rfl, ⟨rfl, rfl⟩, nofun, trivial⟩, hmissed _⟩

theorem decideTicket_watched {Q : List Deed → Bool → Prop} {t : TicketId} {d : Decision}
    (hclear : owed deeds = none)
    (hearned : ∀ now (w : World σ), Earned s verdict deeds now w (.decided t d))
    (hdecided : ∀ now, Q (⟨now, .marks (.decided t d)⟩ :: deeds) true)
    (hrefused : ∀ now, Q (⟨now, .marks (.refused t)⟩ :: deeds) false) :
    (decideTicket t d : Task σ _).Passes (watch σ s verdict) Q deeds := by
  refine .atomic fun slot w x w' hb => ?_
  split at hb
  · cases hb
    exact ⟨_, ⟨.marks _, rfl, ⟨rfl, rfl⟩, fun _ => hclear, hearned _ w⟩, hdecided _⟩
  · cases hb
    exact ⟨_, ⟨.marks _, rfl, ⟨rfl, rfl⟩, nofun, trivial⟩, hrefused _⟩

theorem claimTicket_watched {Q : List Deed → Bool → Prop} {t : TicketId}
    (hclaimed : ∀ now, Q (⟨now, .marks (.claimed t now)⟩ :: deeds) true)
    (hlost : ∀ now, Q (⟨now, .quiet⟩ :: deeds) false) :
    (claimTicket t : Task σ _).Passes (watch σ s verdict) Q deeds := by
  refine .atomic fun slot w x w' hb => ?_
  split at hb
  · cases hb
    exact ⟨_, ⟨.marks _, rfl, ⟨rfl, rfl⟩, nofun, rfl⟩, hclaimed _⟩
  · cases hb
    exact ⟨_, ⟨.quiet, rfl, ⟨rfl, rfl⟩, trivial⟩, hlost _⟩

/-- A claim that is closed was taken a lease ago. -/
theorem closeStaleClaim_watched {Q : List Deed → Bool → Prop} {t : TicketId} {result : ToolResult}
    (h : ∀ now won act, owed (⟨now, act⟩ :: deeds) = owed deeds → Q (⟨now, act⟩ :: deeds) won) :
    (closeStaleClaim t s.gate.lease result : Task σ _).Passes (watch σ s verdict) Q deeds := by
  refine .atomic fun slot w x w' hb => ?_
  dsimp only at hb
  have hacts := LawfulTicketStore.closeStaleClaim_acts w.tickets t slot.input.now s.gate.lease result
  split at hb
  · next tickets heq =>
      cases hb
      rw [heq] at hacts
      obtain ⟨c, hc, hwon, -⟩ := hacts.of_true
      have hstale : c.claimedAt.any (s.gate.lease ≤ slot.input.now - ·) = true := by
        unfold Cell.closeStaleClaim at hwon
        split at hwon
        · next hcond => exact (Bool.and_eq_true _ _ ▸ hcond).2
        · cases hwon
      obtain ⟨taken, htaken, hlease⟩ := (Option.any_eq_true _ _).mp hstale
      exact ⟨_, ⟨.marks _, rfl, ⟨rfl, rfl⟩, nofun, c, taken, hc, htaken, of_decide_eq_true hlease⟩,
        h _ _ _ rfl⟩
  · cases hb
    exact ⟨_, ⟨.quiet, rfl, ⟨rfl, rfl⟩, trivial⟩, h _ _ _ rfl⟩

theorem completeTicket_watched {Q : List Deed → Except PyError Unit → Prop} {t : TicketId}
    {outcome : Except GatewayError ToolResult}
    (h : ∀ now answer act, owed (⟨now, act⟩ :: deeds) = owed deeds →
      Q (⟨now, act⟩ :: deeds) answer) :
    (completeTicket t outcome : Task σ _).Passes (watch σ s verdict) Q deeds := by
  refine .atomic fun slot w x w' hb => ?_
  split at hb
  · cases hb
    exact ⟨_, ⟨.marks _, rfl, ⟨rfl, rfl⟩, nofun, trivial⟩, h _ _ _ rfl⟩
  · cases hb
    exact ⟨_, ⟨.quiet, rfl, ⟨rfl, rfl⟩, trivial⟩, h _ _ _ rfl⟩

end

end ToolGateway
