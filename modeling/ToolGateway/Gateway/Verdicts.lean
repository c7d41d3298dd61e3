/-
  ToolGateway.Gateway.Verdicts

  What the verdict on a ticket is worth to those who act on it.  It is recorded once and
  stands; a denial is told.  An approval lets the operator's arguments through, or the
  filed ones where the operator left them alone.  `apply_decision` compares the two with
  `==`, so an edit that only turns a boolean into a number is not seen, and the call is
  executed as it was filed.
-/

import ToolGateway.Gateway.AtMostOnce
import ToolGateway.Gateway.OneOutcome
import ToolGateway.Python.Same

namespace ToolGateway

open Coroutine Py

/-- The arguments an approval lets through: the operator's, or those the call was filed
    with where the operator left them alone. -/
def Decision.allowed (d : Decision) (arguments : Json) : Json :=
  if d.edited then d.editedArguments else arguments

/-- The same JSON value. -/
def SameValue (v w : Json) : Prop := v = w ∨ v.same w = true

/-- The operator's arguments are only taken for those of the call where they are the
    same. -/
def Decision.ToldApart (d : Decision) (arguments : Json) : Prop :=
  d.edited = true → d.editedArguments.eq arguments = true → SameValue arguments d.editedArguments

theorem Decision.edits_eq (d : Decision) (arguments : Json) :
    d.edits arguments = (d.edited && !d.editedArguments.eq arguments) := by
  unfold Decision.edits Decision.edited
  cases d.editedArguments <;> rfl

/-- What the code lets through is what the operator allowed, if its comparison tells the
    two apart. -/
theorem Decision.sameValue_effective_iff (d : Decision) (arguments : Json) :
    SameValue (d.effective arguments) (d.allowed arguments) ↔ d.ToldApart arguments := by
  unfold Decision.effective Decision.allowed Decision.ToldApart
  rw [d.edits_eq]
  cases d.edited with
  | false => exact iff_of_true (Or.inl rfl) fun h => by cases h
  | true =>
      cases heq : d.editedArguments.eq arguments with
      | false => exact iff_of_true (Or.inl rfl) fun _ h => by cases h
      | true => exact ⟨fun h _ _ => h, fun h => h rfl rfl⟩

section
variable (σ : Type) [TicketStore σ] [LawfulTicketStore σ] (s : Settings) (actors : List Actor)
  (es : List (Event Input)) (t : TicketId)

/-- Everybody agrees on the verdict on ticket `t`. -/
structure AgreesOnVerdict : Prop where
  /-- the store records one verdict at most -/
  once : (worldAfter σ s actors es).trail.countP (decidesOn t) ≤ 1
  /-- the verdict of a ticket changes from pending only, and only by that one `decide` -/
  stands : ∀ es' ticket, TicketStore.get (worldAfter σ s actors es).tickets t = some ticket →
    ∃ ticket', TicketStore.get (worldAfter σ s actors (es ++ es')).tickets t = some ticket' ∧
      (ticket'.decision = ticket.decision ∨ ticket.decision.status = .pending ∧
        ∃ i, (i, .decided t ticket'.decision) ∈ (worldAfter σ s actors (es ++ es')).trail)
  /-- whoever gets past the verdict check acts on the recorded verdict -/
  recorded : ∀ i d, (i, .acted t d) ∈ (worldAfter σ s actors es).trail →
    ∃ ticket, TicketStore.get (worldAfter σ s actors es).tickets t = some ticket ∧
      ticket.decision = d ∧ d.status ≠ .pending
  /-- whoever executes does so on a recorded approval, with the arguments it allows -/
  executed : ∀ i arguments, (i, .started t arguments) ∈ (worldAfter σ s actors es).trail →
    ∃ ticket, TicketStore.get (worldAfter σ s actors es).tickets t = some ticket ∧
      (i, .acted t ticket.decision) ∈ (worldAfter σ s actors es).trail ∧
      ticket.decision.status = .approved ∧
      SameValue arguments (ticket.decision.allowed ticket.call.arguments)
  /-- whoever acts on a denial is told it -/
  told : ∀ i d actor reply, actors[i]? = some actor → toldAfter σ s actors es i = some reply →
    (i, .acted t d) ∈ (worldAfter σ s actors es).trail → d.approved = false →
      reply = actor.tells (.error (.gateway (.approvalDenied d)))

end

section
variable {σ : Type} [TicketStore σ] [LawfulTicketStore σ]

/-- Who executes what the operator allowed was told it apart from what was filed. -/
theorem AgreesOnVerdict.toldApart {s : Settings} {actors : List Actor} {es : List (Event Input)}
    {t : TicketId} (h : AgreesOnVerdict σ s actors es t) {i : ℕ} {arguments : Json}
    (hstarted : (i, .started t arguments) ∈ (worldAfter σ s actors es).trail) {ticket : Ticket}
    (hget : TicketStore.get (worldAfter σ s actors es).tickets t = some ticket) :
    ticket.decision.ToldApart ticket.call.arguments := by
  obtain ⟨-, -, -, hexecuted, -⟩ := verdict_agreement (σ := σ) s actors es t
  obtain ⟨ticket', hget', -, -, hallowed⟩ := h.executed i arguments hstarted
  obtain ⟨ticket'', hget'', -, -, heffective⟩ := hexecuted i arguments hstarted
  obtain rfl : ticket = ticket' := Option.some.inj (hget.symm.trans hget')
  obtain rfl : ticket = ticket'' := Option.some.inj (hget.symm.trans hget'')
  rw [heffective] at hallowed
  exact (Decision.sameValue_effective_iff _ _).mp hallowed

/-- In every run everybody agrees on the verdict on a ticket exactly if, once it is
    executed, `==` tells the operator's arguments from the filed ones. -/
theorem agreesOnVerdict_iff (s : Settings) (actors : List Actor) (es : List (Event Input))
    (t : TicketId) :
    AgreesOnVerdict σ s actors es t ↔
      ∀ i arguments ticket, (i, .started t arguments) ∈ (worldAfter σ s actors es).trail →
        TicketStore.get (worldAfter σ s actors es).tickets t = some ticket →
          ticket.decision.ToldApart ticket.call.arguments := by
  refine ⟨fun h i arguments ticket hstarted hget => h.toldApart hstarted hget, fun happart => ?_⟩
  obtain ⟨honce, hstands, hrecorded, hexecuted, htold⟩ := verdict_agreement (σ := σ) s actors es t
  refine ⟨honce, hstands, hrecorded, fun i arguments hstarted => ?_, htold⟩
  obtain ⟨ticket, hget, hacted, happroved, heffective⟩ := hexecuted i arguments hstarted
  refine ⟨ticket, hget, hacted, happroved, ?_⟩
  rw [heffective]
  exact (Decision.sameValue_effective_iff _ _).mpr (happart i arguments ticket hstarted hget)

end

-- ============================================================================
-- A flag that became a number
-- ============================================================================

/-- A forced push, as the agent files it. -/
def forcedPush : ToolCall :=
  { pullRequest with toolName := "push", arguments := .dict [("force", .bool true)] }

/-- The operator wants the number. -/
def forceLevel : Decision :=
  { status := .approved, approver := "op", editedArguments := .dict [("force", .int 1)] }

/-- The policy, the agent, the operator, and one who resumes the ticket. -/
def forcing : List Actor :=
  [.setPolicy fun _ => .ok (some { approvalMode := .async }), .call forcedPush false,
    .decide "tkt-1" forceLevel, .resume "tkt-1"]

/-- The filed arguments and the edit, as the ticket has them. -/
def keepsForce (ticket : Ticket) : Bool :=
  match ticket.call.arguments, ticket.decision.editedArguments with
  | .dict [("force", .bool true)], .dict [("force", .int 1)] => true
  | _, _ => false

theorem not_toldApart_of_keepsForce {ticket : Ticket} (h : keepsForce ticket = true) :
    ¬ ticket.decision.ToldApart ticket.call.arguments := by
  unfold keepsForce at h
  split at h
  · next hfiled hedited =>
      intro happart
      have hedit : ticket.decision.edited = true := by rw [Decision.edited, hedited]
      have heq : (Json.dict [("force", .int 1)]).eq (.dict [("force", .bool true)]) = true := by
        simp [Json.eq, Json.subFields, Json.num?, Float64.eq]
      rw [hfiled] at happart
      rcases happart hedit (by rw [hedited]; exact heq) with hsame | hsame
      · rw [hedited] at hsame
        cases hsame
      · rw [hedited] at hsame
        simp [Json.same, Json.sameFields] at hsame
  · cases h

/-- Thread 3 starts the pipeline on the ticket. -/
def executes : ℕ × Mark → Bool
  | (3, .started "tkt-1" _) => true
  | _ => false

/-- The operator approves the number, and the flag is executed: to `==` they are
    equal. -/
theorem edit_executed_as_filed :
    ¬ ∀ (s : Settings) (actors : List Actor) (es : List (Event Input)) (t : TicketId),
      AgreesOnVerdict MemoryTicketStore s actors es t := by
  intro law
  have hget : (TicketStore.get (worldAfter MemoryTicketStore plain forcing dispatched).tickets
      "tkt-1").any keepsForce = true := by
    decide +kernel
  have hbegun :
      (worldAfter MemoryTicketStore plain forcing dispatched).trail.any executes = true := by
    decide +kernel
  obtain ⟨ticket, hticket, hkeeps⟩ := (Option.any_eq_true _ _).mp hget
  obtain ⟨⟨i, m⟩, hmem, hm⟩ := List.any_eq_true.mp hbegun
  unfold executes at hm
  split at hm
  · next arguments heq =>
      cases heq
      exact not_toldApart_of_keepsForce hkeeps
        ((law plain forcing dispatched "tkt-1").toldApart hmem hticket)
  · cases hm

end ToolGateway
