/-
  ToolGateway.Gateway.Polling

  What a caller who resumes a ticket is told, as a function of the ticket and of what
  the policy in force answers for its call.  The grant is asked for before the verdict
  is enforced and before the claim is looked at, so a policy that no longer grants the
  call speaks first, over a verdict and over a claim nobody will ever close.
-/

import ToolGateway.Coroutine.Follow
import ToolGateway.Gateway.Edits
import ToolGateway.Gateway.OneOutcome

namespace ToolGateway

open Coroutine Py

/-- What the state of a ticket says a caller is told, by this clock, and what it leaves of
    the ticket: an approved ticket that nobody has claimed is left to the policy. -/
def Told (lease : Time) (t : TicketId) (c : Cell) (now : Time) (left : Option Cell)
    (told : Except Exc ToolResult) : Prop :=
  match c.result, c.decision.status, c.claimedAt with
  | some result, _, _ => told = .ok result
  | none, .pending, _ => told = .error (.gateway (.pendingApproval t))
  | none, .rejected, _ | none, .timeout, _ =>
      told = .error (.gateway (.approvalDenied c.decision))
  | none, .approved, none => True
  | none, .approved, some claimedAt =>
      if now - claimedAt < lease then
        told = .error (.gateway (.pendingApproval t)) ∧ left = some c
      else told = .ok interrupted ∧ left = some (c.complete interrupted)

/-- The ticket is open to the policy, has its result, waits for its verdict, or the policy
    grants its call; an edit of an approved ticket has to be adopted as well. -/
def Unhindered (c : Cell) (answer : Except PyError (Option Grant)) : Prop :=
  c.result.isSome ∨ c.decision.status = .pending ∨
    (c.decision.status = .approved ∧ c.claimedAt = none) ∨
    ((∃ grant, answer = .ok (some grant)) ∧
      (c.decision.status = .approved → c.decision.Adoptable c.call.arguments))

-- ============================================================================
-- The await points of a caller
-- ============================================================================

section
variable {σ : Type}

theorem takes_grantFor {call : ToolCall} {ds : List (Doing Input (World σ))}
    {x answer : Except PyError (Option Grant)} (h : (grantFor call).Takes ds x)
    (hpolicy : ∀ d ∈ ds, d.before.grants call = answer) : x = answer := by
  obtain ⟨⟨slot, w, w'⟩, _, _, rfl, hb, rfl, rfl⟩ := h
  have hanswer := hpolicy _ List.mem_cons_self
  simp only [show w.grants call = answer from hanswer] at hb
  cases answer with
  | error e =>
      cases hb
      rfl
  | ok g => cases g <;> (cases hb; rfl)

variable [TicketStore σ] [LawfulTicketStore σ] {t : TicketId} {c : Cell}
  {ds : List (Doing Input (World σ))}

/-- The ticket looks like this at every step. -/
def Holding (t : TicketId) (c : Cell) (ds : List (Doing Input (World σ))) : Prop :=
  ∀ d ∈ ds, LawfulTicketStore.cell d.before.tickets t = some c

theorem takes_getTicket {x : Option Ticket} (h : (getTicket t).Takes ds x) (hcell : Holding t c ds) :
    x = some c.ticket := by
  obtain ⟨⟨slot, w, w'⟩, _, _, rfl, hb, rfl, rfl⟩ := h
  have hget : TicketStore.get w.tickets t = some c.ticket := by
    rw [LawfulTicketStore.get_eq, hcell _ List.mem_cons_self, Option.map_some]
  simp only [hget] at hb
  cases hb
  rfl

theorem takes_claimTicket {x : Bool} (h : (claimTicket t).Takes ds x) (hcell : Holding t c ds)
    (hclaimed : c.claimedAt.isSome) : x = false := by
  obtain ⟨⟨slot, w, w'⟩, _, _, rfl, hb, rfl, rfl⟩ := h
  have hacts := (LawfulTicketStore.claim_acts w.tickets t slot.input.now).answer
  rw [hcell _ List.mem_cons_self] at hacts
  have hrefused : (TicketStore.claim w.tickets t slot.input.now).1 = false := by
    rw [hacts]
    simp [Cell.claim, Option.isNone_iff_eq_none, Option.ne_none_iff_isSome.mpr hclaimed]
  cases hclaim : TicketStore.claim w.tickets t slot.input.now with
  | mk won tickets =>
      simp only [hclaim] at hb hrefused
      subst hrefused
      cases hb
      rfl

/-- Closing a claim answers as the cell does, and does to it what the cell does. -/
theorem takes_closeStaleClaim {lease : Time} {result : ToolResult} {x : Bool}
    (h : (closeStaleClaim t lease result).Takes ds x) (hcell : Holding t c ds) :
    ∃ d, ds = [d] ∧ x = (c.closeStaleClaim d.slot.input.now lease result).1 ∧
      LawfulTicketStore.cell d.after.tickets t
        = some (c.closeStaleClaim d.slot.input.now lease result).2 := by
  obtain ⟨⟨slot, w, w'⟩, _, _, rfl, hb, rfl, rfl⟩ := h
  refine ⟨_, rfl, ?_⟩
  have hacts := LawfulTicketStore.closeStaleClaim_acts w.tickets t slot.input.now lease result
  have hanswer := hacts.answer
  have hcells := congrFun hacts.cells t
  rw [hcell _ List.mem_cons_self] at hanswer hcells
  rw [Function.update_self] at hcells
  cases hclose : TicketStore.closeStaleClaim w.tickets t slot.input.now lease result with
  | mk done tickets =>
      beta_reduce at hb
      rw [hclose] at hb hanswer hcells
      rw [Option.any_some] at hanswer
      cases hdone : done with
      | false =>
          rw [hdone] at hb hanswer
          obtain ⟨rfl, hafter⟩ := Prod.mk.inj (Option.some.inj hb)
          refine ⟨hanswer, ?_⟩
          rw [← hafter, hcells, Option.map_some]
      | true =>
          rw [hdone] at hb hanswer
          obtain ⟨rfl, hafter⟩ := Prod.mk.inj (Option.some.inj hb)
          refine ⟨hanswer, ?_⟩
          rw [← hafter]
          show LawfulTicketStore.cell tickets t = _
          rw [hcells, Option.map_some]

/-- Of a claimed ticket the result is stored when the lease is over, and nothing before. -/
theorem closeStaleClaim_claimed (now lease : Time) {claimedAt : Time} (result : ToolResult)
    (hclaimed : c.claimedAt = some claimedAt) (hnone : c.result = none) :
    (now - claimedAt < lease ∧ c.closeStaleClaim now lease result = (false, c)) ∨
      (¬ now - claimedAt < lease ∧
        c.closeStaleClaim now lease result = (true, c.complete result)) := by
  by_cases hfresh : now - claimedAt < lease
  · refine Or.inl ⟨hfresh, if_neg ?_⟩
    rw [hclaimed, hnone]
    simpa using hfresh
  · refine Or.inr ⟨hfresh, if_pos ?_⟩
    rw [hclaimed, hnone]
    simpa using hfresh

-- ============================================================================
-- The verdict, then the claim
-- ============================================================================

variable {ctx ctx' : CallContext} {told : Except Exc ToolResult}

theorem Holding.left {ds₁ ds₂ : List (Doing Input (World σ))} (h : Holding t c (ds₁ ++ ds₂)) :
    Holding t c ds₁ := fun d hd => h d (List.mem_append_left ds₂ hd)

theorem Holding.right {ds₁ ds₂ : List (Doing Input (World σ))} (h : Holding t c (ds₁ ++ ds₂)) :
    Holding t c ds₂ := fun d hd => h d (List.mem_append_right ds₁ hd)

/-- A claimed ticket without a result: the lease decides. -/
theorem takes_runOnce {lease : Time} {run : StepM σ ToolResult}
    (h : ((runOnce t lease run).exec ctx).Takes ds (told, ctx')) (hcell : Holding t c ds)
    {claimedAt : Time} (hclaimed : c.claimedAt = some claimedAt) (hnone : c.result = none) :
    ∃ ds' d, ds = ds' ++ [d] ∧
      ((d.slot.input.now - claimedAt < lease ∧ told = .error (.gateway (.pendingApproval t)) ∧
          LawfulTicketStore.cell d.after.tickets t = some c) ∨
        (¬ d.slot.input.now - claimedAt < lease ∧ told = .ok interrupted ∧
          LawfulTicketStore.cell d.after.tickets t = some (c.complete interrupted))) := by
  obtain ⟨ds₁, won, ds₂, rfl, hclaim, h⟩ := Prog.takes_lift_bind.mp h
  obtain rfl := takes_claimTicket hclaim hcell.left (by rw [hclaimed]; rfl)
  obtain ⟨ds₃, x, ds₄, rfl, hget, h⟩ := Prog.takes_lift_bind.mp h
  obtain rfl := takes_getTicket hget hcell.right.left
  have hread : (some c.ticket).bind Ticket.result = none := hnone
  simp only [hread] at h
  obtain ⟨ds₅, closed, ds₆, rfl, hclose, h⟩ := Prog.takes_lift_bind.mp h
  obtain ⟨d, rfl, hclosed, hafter⟩ := takes_closeStaleClaim hclose hcell.right.right.left
  have hlease := closeStaleClaim_claimed d.slot.input.now lease interrupted hclaimed hnone
  obtain ⟨hfresh, hop⟩ | ⟨hover, hop⟩ := hlease
  · rw [hop] at hclosed hafter
    obtain rfl : closed = false := hclosed
    obtain ⟨rfl, hr⟩ := h
    obtain ⟨rfl, -⟩ := Prod.mk.inj hr
    exact ⟨ds₁ ++ ds₃, d, by simp, Or.inl ⟨hfresh, rfl, hafter⟩⟩
  · rw [hop] at hclosed hafter
    obtain rfl : closed = true := hclosed
    obtain ⟨rfl, hr⟩ := h
    obtain ⟨rfl, -⟩ := Prod.mk.inj hr
    exact ⟨ds₁ ++ ds₃, d, by simp, Or.inr ⟨hover, rfl, hafter⟩⟩

/-- What `resume` does with a ticket once the policy has granted its call. -/
def enforce (t : TicketId) (d : Decision) (lease : Time) (run : StepM σ ToolResult) :
    StepM σ ToolResult := do
  Prog.lift (note (.acted t d))
  applyDecision d
  audit "resumed" [("status", .str d.status.value), ("approver", .str d.approver)]
  runOnce t lease run

omit [LawfulTicketStore σ] in
/-- A verdict that is not an approval is told as it is. -/
theorem takes_enforce_denied {d : Decision} {lease : Time} {run : StepM σ ToolResult}
    (h : ((enforce t d lease run).exec ctx).Takes ds (told, ctx')) (hdenied : d.approved = false) :
    told = .error (.gateway (.approvalDenied d)) := by
  obtain ⟨ds₁, _, ds₂, rfl, -, h⟩ := Prog.takes_lift_bind.mp h
  obtain ⟨ds₃, x, s', ds₄, rfl, happly, h⟩ := Prog.takes_bind.mp h
  rw [applyDecision_denied hdenied] at happly
  obtain ⟨rfl, hx⟩ := happly
  obtain ⟨rfl, rfl⟩ := Prod.mk.inj hx
  obtain ⟨a, ha, -⟩ | ⟨e, he, rfl, hr⟩ := h
  · cases ha
  · cases he
    exact (Prod.mk.inj hr).1

/-- Past an approval the lease decides, if the edit can be adopted. -/
theorem takes_enforce_approved {d : Decision} {lease : Time} {run : StepM σ ToolResult}
    (h : ((enforce t d lease run).exec ctx).Takes ds (told, ctx')) (happroved : d.approved = true)
    (hcell : Holding t c ds) {claimedAt : Time} (hclaimed : c.claimedAt = some claimedAt)
    (hnone : c.result = none) :
    (¬ d.Adoptable ctx.call.arguments ∧ ∃ e, told = .error (.python e)) ∨
      (d.Adoptable ctx.call.arguments ∧ ∃ ds' d, ds = ds' ++ [d] ∧
        ((d.slot.input.now - claimedAt < lease ∧ told = .error (.gateway (.pendingApproval t)) ∧
            LawfulTicketStore.cell d.after.tickets t = some c) ∨
          (¬ d.slot.input.now - claimedAt < lease ∧ told = .ok interrupted ∧
            LawfulTicketStore.cell d.after.tickets t = some (c.complete interrupted)))) := by
  obtain ⟨ds₁, _, ds₂, rfl, -, h⟩ := Prog.takes_lift_bind.mp h
  obtain ⟨ds₃, x, s', ds₄, rfl, happly, h⟩ := Prog.takes_bind.mp h
  have hverdict : (d.Adoptable ctx.call.arguments ∧
      ∃ ctx', (applyDecision d : StepM σ Unit).exec ctx = .ret (.ok (), ctx')) ∨
        (¬ d.Adoptable ctx.call.arguments ∧
          ∃ e, (applyDecision d : StepM σ Unit).exec ctx = .ret (.error (.python e), ctx)) :=
    applyDecision_approved happroved
  obtain ⟨hadopt, ctx₁, hexec⟩ | ⟨hstuck, e, hexec⟩ := hverdict
  · rw [hexec] at happly
    obtain ⟨rfl, hx⟩ := happly
    obtain ⟨rfl, rfl⟩ := Prod.mk.inj hx
    obtain ⟨a, ha, h⟩ | ⟨e, he, -⟩ := h
    · cases ha
      obtain ⟨ds₅, _, ds₆, rfl, -, h⟩ := Prog.takes_lift_bind.mp h
      obtain ⟨ds', d, rfl, hd⟩ := takes_runOnce h hcell.right.right.right hclaimed hnone
      exact Or.inr ⟨hadopt, ds₁ ++ (ds₅ ++ ds'), d, by simp, hd⟩
    · cases he
  · rw [hexec] at happly
    obtain ⟨rfl, hx⟩ := happly
    obtain ⟨rfl, rfl⟩ := Prod.mk.inj hx
    obtain ⟨a, ha, -⟩ | ⟨e', he, rfl, hr⟩ := h
    · cases ha
    · cases he
      exact Or.inl ⟨hstuck, e, (Prod.mk.inj hr).1⟩

-- ============================================================================
-- Resuming
-- ============================================================================

variable {s : Settings} {steps : List (ExtraStep σ)} {answer : Except PyError (Option Grant)}

/-- A caller who resumes a ticket of a gateway with these extra steps. -/
def resuming (s : Settings) (steps : List (ExtraStep σ)) (t : TicketId) :
    Task σ (Except Exc Reply) := do
  let (reply, _) ← Prog.exec (do return .result (← resume s steps t) : GatewayM σ Reply) ()
  return reply

omit [LawfulTicketStore σ] in
theorem resuming_nil : (resuming s [] t : Task σ _) = (Actor.resume t).program s := rfl

/-- A ticket with its result. -/
theorem takes_resume_done {u : Unit} (h : ((resume s steps t).exec ()).Takes ds (told, u))
    (hcell : Holding t c ds) {result : ToolResult} (hresult : c.result = some result) :
    told = .ok result := by
  obtain ⟨ds₁, x, ds₂, rfl, hget, h⟩ := Prog.takes_lift_bind.mp h
  obtain rfl := takes_getTicket hget hcell.left
  have hread : c.ticket.result = some result := hresult
  simp only [hread] at h
  exact (Prod.mk.inj h.2).1.symm

/-- A ticket without a verdict. -/
theorem takes_resume_pending {u : Unit} (h : ((resume s steps t).exec ()).Takes ds (told, u))
    (hcell : Holding t c ds) (hnone : c.result = none) (hpending : c.decision.status = .pending) :
    told = .error (.gateway (.pendingApproval t)) := by
  obtain ⟨ds₁, x, ds₂, rfl, hget, h⟩ := Prog.takes_lift_bind.mp h
  obtain rfl := takes_getTicket hget hcell.left
  have hread : c.ticket.result = none := hnone
  have hstatus : c.ticket.decision.status = .pending := hpending
  simp only [hread, hstatus, if_true] at h
  exact (Prod.mk.inj h.2).1.symm

/-- A ticket with a verdict: the policy speaks first, and the verdict is enforced only if
    it grants the call. -/
theorem takes_resume_decided {u : Unit} (h : ((resume s steps t).exec ()).Takes ds (told, u))
    (hcell : Holding t c ds) (hpolicy : ∀ d ∈ ds, d.before.grants c.call = answer)
    (hnone : c.result = none) (hdecided : c.decision.status ≠ .pending) :
    (∃ e, answer = .error e ∧ told = .error (.python e)) ∨
      (answer = .ok none ∧
        told = .error (.gateway (.toolNotAllowed ("no longer allowed: " ++ c.call.fullName)))) ∨
      ∃ grant ds₁ ds₂ ctx', answer = .ok (some grant) ∧ ds = ds₁ ++ ds₂ ∧
        ((enforce t c.decision s.gate.lease (Pipeline.run (postApproval s steps))).exec
          { call := c.call, grant := grant }).Takes ds₂ (told, ctx') := by
  obtain ⟨ds₁, x, ds₂, rfl, hget, h⟩ := Prog.takes_lift_bind.mp h
  obtain rfl := takes_getTicket hget hcell.left
  have hread : c.ticket.result = none := hnone
  have hstatus : c.ticket.decision.status ≠ .pending := hdecided
  simp only [hread, if_neg hstatus] at h
  obtain ⟨ds₃, y, ds₄, rfl, hgrant, h⟩ := Prog.takes_lift_bind.mp h
  obtain rfl := takes_grantFor hgrant fun d hd =>
    hpolicy d (List.mem_append_right ds₁ (List.mem_append_left ds₄ hd))
  cases y with
  | error e => exact Or.inl ⟨e, rfl, (Prod.mk.inj h.2).1.symm⟩
  | ok granted =>
      cases granted with
      | none => exact Or.inr (Or.inl ⟨rfl, (Prod.mk.inj h.2).1.symm⟩)
      | some grant =>
          obtain ⟨ds₅, ⟨r, ctx'⟩, ds₆, rfl, henforce, h⟩ := Prog.takes_lift_bind.mp h
          have hrest : ds₆ = [] ∧ r = told := by
            cases r with
            | ok a => exact ⟨h.1, (Prod.mk.inj h.2).1⟩
            | error e => exact ⟨h.1, (Prod.mk.inj h.2).1⟩
          obtain ⟨rfl, rfl⟩ := hrest
          exact Or.inr (Or.inr ⟨grant, ds₁ ++ ds₃, ds₅, ctx', rfl, by simp, henforce⟩)

omit [LawfulTicketStore σ] in
/-- A caller reads the ticket at least. -/
theorem takes_resume_last {u : Unit} (h : ((resume s steps t).exec ()).Takes ds (told, u)) :
    ∃ ds' d, ds = ds' ++ [d] := by
  obtain ⟨d, ds', x, rfl, -⟩ := h
  obtain hnil | ⟨ds₁, e, heq⟩ := List.eq_nil_or_concat (d :: ds')
  · cases hnil
  · exact ⟨ds₁, e, by rw [heq, List.concat_eq_append]⟩

/-- Where the policy raises or denies, nobody is told about a verdict or a lease. -/
theorem Told.granted {now : Time} {left : Option Cell} {r : Except Exc ToolResult}
    (h : Told s.gate.lease t c now left r) (hnone : c.result = none)
    (hopen : ¬ (c.decision.status = .approved ∧ c.claimedAt = none)) :
    (∀ e, r ≠ .error (.python e)) ∧ ∀ text, r ≠ .error (.gateway (.toolNotAllowed text)) := by
  unfold Told at h
  cases hstatus : c.decision.status with
  | approved =>
      cases hclaimed : c.claimedAt with
      | none => exact absurd ⟨hstatus, hclaimed⟩ hopen
      | some claimedAt =>
          simp only [hnone, hstatus, hclaimed] at h
          split at h
          · rw [h.1]
            simp
          · rw [h.1]
            simp
  | _ =>
      simp only [hnone, hstatus] at h
      rw [h]
      simp

/-- A caller is told what the state of the ticket says exactly when the policy does not
    hinder it. -/
theorem takes_resume_iff {u : Unit} (h : ((resume s steps t).exec ()).Takes ds (told, u))
    (hcell : Holding t c ds) (hpolicy : ∀ d ∈ ds, d.before.grants c.call = answer) :
    (∃ ds' d, ds = ds' ++ [d] ∧ Told s.gate.lease t c d.slot.input.now
        (LawfulTicketStore.cell d.after.tickets t) told) ↔
      Unhindered c answer := by
  obtain ⟨ds', d, hlast⟩ := takes_resume_last h
  cases hresult : c.result with
  | some result =>
      have htold := takes_resume_done h hcell hresult
      refine ⟨fun _ => Or.inl (by rw [hresult]; rfl), fun _ => ⟨ds', d, hlast, ?_⟩⟩
      simpa only [Told, hresult] using htold
  | none =>
      by_cases hpending : c.decision.status = .pending
      · have htold := takes_resume_pending h hcell hresult hpending
        refine ⟨fun _ => Or.inr (Or.inl hpending), fun _ => ⟨ds', d, hlast, ?_⟩⟩
        simpa only [Told, hresult, hpending] using htold
      have hdecided := takes_resume_decided h hcell hpolicy hresult hpending
      have hunhindered : Unhindered c answer ↔
          (c.decision.status = .approved ∧ c.claimedAt = none) ∨
            ((∃ grant, answer = .ok (some grant)) ∧
              (c.decision.status = .approved → c.decision.Adoptable c.call.arguments)) := by
        simp [Unhindered, hresult, hpending]
      rw [hunhindered]
      have hhindered : ¬ (c.decision.status = .approved ∧ c.claimedAt = none) →
          ((∃ e, told = .error (.python e)) ∨
            ∃ text, told = .error (.gateway (.toolNotAllowed text))) →
          ¬ ∃ ds' d, ds = ds' ++ [d] ∧ Told s.gate.lease t c d.slot.input.now
            (LawfulTicketStore.cell d.after.tickets t) told := by
        rintro hopen hraised ⟨_, d, -, htold⟩
        obtain ⟨hpython, hallowed⟩ := htold.granted hresult hopen
        obtain ⟨e, he⟩ | ⟨text, htext⟩ := hraised
        · exact hpython e he
        · exact hallowed text htext
      by_cases hopen : c.decision.status = .approved ∧ c.claimedAt = none
      · refine ⟨fun _ => Or.inl hopen, fun _ => ⟨ds', d, hlast, ?_⟩⟩
        simp only [Told, hresult, hopen.1, hopen.2]
      obtain ⟨e, rfl, htold⟩ | ⟨rfl, htold⟩ | ⟨grant, ds₁, ds₂, ctx', rfl, rfl, henforce⟩ := hdecided
      · exact iff_of_false (hhindered hopen (Or.inl ⟨e, htold⟩)) (by simp [hopen])
      · exact iff_of_false (hhindered hopen (Or.inr ⟨_, htold⟩)) (by simp [hopen])
      by_cases happroved : c.decision.status = .approved
      · obtain ⟨claimedAt, hclaimed⟩ : ∃ claimedAt, c.claimedAt = some claimedAt :=
          Option.ne_none_iff_exists'.mp fun hnone => hopen ⟨happroved, hnone⟩
        obtain ⟨hstuck, e, htold⟩ | ⟨hadopt, ds₃, d', rfl, hlease⟩ :=
          takes_enforce_approved henforce (by simp [Decision.approved, happroved]) hcell.right
            hclaimed hresult
        · exact iff_of_false (hhindered hopen (Or.inl ⟨e, htold⟩))
            (by simpa [hclaimed, happroved] using hstuck)
        · refine iff_of_true ⟨ds₁ ++ ds₃, d', by simp, ?_⟩ (Or.inr ⟨⟨grant, rfl⟩, fun _ => hadopt⟩)
          simp only [Told, hresult, happroved, hclaimed]
          obtain ⟨hfresh, htold, hleft⟩ | ⟨hstale, htold, hleft⟩ := hlease
          · rw [if_pos hfresh]
            exact ⟨htold, hleft⟩
          · rw [if_neg hstale]
            exact ⟨htold, hleft⟩
      · have htold := takes_enforce_denied henforce (by simpa [Decision.approved] using happroved)
        refine iff_of_true ⟨ds', d, hlast, ?_⟩ (Or.inr ⟨⟨grant, rfl⟩, fun h => absurd h happroved⟩)
        cases hstatus : c.decision.status with
        | approved => exact absurd hstatus happroved
        | pending => exact absurd hstatus hpending
        | rejected => simpa only [Told, hresult, hstatus] using htold
        | timeout => simpa only [Told, hresult, hstatus] using htold

-- ============================================================================
-- Runs
-- ============================================================================

/-- From any state of the gateway, among any other threads: while the ticket and what the
    policy answers for its call stay the same, whoever resumes the ticket is told what its
    state says, exactly when the policy does not hinder it. -/
theorem resume_told_iff {config : Config Input (World σ) (Except Exc Reply)} {i : ℕ}
    (hthread : config.threads[i]? = some (some (resuming s steps t))) {es : List (Event Input)}
    (htold : (config.run es).outcome i = some (told.map Reply.result))
    (hcell : Holding t c (config.doings i es))
    (hpolicy : ∀ d ∈ config.doings i es, d.before.grants c.call = answer) :
    (∃ ds d, config.doings i es = ds ++ [d] ∧ Told s.gate.lease t c d.slot.input.now
        (LawfulTicketStore.cell d.after.tickets t) told) ↔
      Unhindered c answer := by
  obtain ⟨ds₁, ⟨x, u⟩, ds₂, hds, hexec, hnil, hx⟩ :=
    Co.takes_bind.mp (Config.takes_doings hthread htold)
  obtain ⟨ds₃, y, u', ds₄, rfl, hresume, hrest⟩ := Prog.takes_bind.mp hexec
  have hend : ds₄ = [] ∧ y = told := by
    obtain ⟨a, rfl, rfl, hr⟩ | ⟨e, rfl, rfl, hr⟩ := hrest
    · obtain ⟨rfl, -⟩ := Prod.mk.inj hr
      cases told with
      | error e => cases hx
      | ok b =>
          cases hx
          exact ⟨rfl, rfl⟩
    · obtain ⟨rfl, -⟩ := Prod.mk.inj hr
      cases told with
      | error e' =>
          cases hx
          exact ⟨rfl, rfl⟩
      | ok b => cases hx
  obtain ⟨rfl, rfl⟩ := hend
  rw [hnil, List.append_nil, List.append_nil] at hds
  rw [hds] at hcell hpolicy ⊢
  exact takes_resume_iff hresume hcell hpolicy

end

-- ============================================================================
-- A claim that nobody closes
-- ============================================================================

/-- The ticket of `dispatched` after its executor has died. -/
def orphaned : Cell :=
  { call := pullRequest, decision := { status := .approved }, claimedAt := some 0, result := none }

/-- Actor 4 polls when the lease is over, and the policy still grants the call. -/
theorem resume_told_iff_orphaned :
    ∃ ds d, ((gateway MemoryTicketStore plain pollers).run (dispatched ++ [.kill 3])).doings 4
        (goes 4 7 { now := plain.gate.lease }) = ds ++ [d] ∧
      Told plain.gate.lease "tkt-1" orphaned d.slot.input.now
        (LawfulTicketStore.cell d.after.tickets "tkt-1") (.ok interrupted) := by
  have hpolicy : ∀ d ∈ ((gateway MemoryTicketStore plain pollers).run
      (dispatched ++ [.kill 3])).doings 4 (goes 4 7 { now := plain.gate.lease }),
      d.before.grants orphaned.call = .ok (some { approvalMode := .async }) :=
    List.map_eq_replicate_iff.mp rfl
  have hcell : Holding "tkt-1" orphaned (((gateway MemoryTicketStore plain pollers).run
      (dispatched ++ [.kill 3])).doings 4 (goes 4 7 { now := plain.gate.lease })) :=
    List.map_eq_replicate_iff.mp rfl
  exact (resume_told_iff (s := plain) (i := 4) rfl rfl hcell hpolicy).mpr
    (Or.inr (Or.inr (Or.inr ⟨⟨_, rfl⟩, fun _ h => by cases h⟩)))

/-- The gateway of `pollers`, whose policy is revoked before the last one polls. -/
def revoked : List Actor :=
  [.setPolicy fun _ => .ok (some { approvalMode := .async }), .call pullRequest false,
    .decide "tkt-1" { status := .approved }, .resume "tkt-1", .setPolicy fun _ => .ok none,
    .resume "tkt-1"]

/-- The executor died, and the lease is over: the poller is told that the tool is not
    allowed, and the claim stays open. -/
theorem poll_can_be_hindered :
    ¬ ∀ (actors : List Actor) (es es' : List (Event Input)) (i : ℕ) (t : TicketId) (c : Cell)
      (told : Except Exc ToolResult),
      actors[i]? = some (.resume t) → (∀ e ∈ es, e.thread ≠ i) →
      toldAfter MemoryTicketStore plain actors (es ++ es') i = some (told.map Reply.result) →
      Holding t c (((gateway MemoryTicketStore plain actors).run es).doings i es') →
      ∃ ds d, ((gateway MemoryTicketStore plain actors).run es).doings i es' = ds ++ [d] ∧
        Told plain.gate.lease t c d.slot.input.now
          (LawfulTicketStore.cell d.after.tickets t) told := by
  intro law
  obtain ⟨ds, d, -, htold⟩ := law revoked (dispatched ++ .kill 3 :: goes 4 1 {})
    (goes 5 2 { now := plain.gate.lease }) 5 "tkt-1" orphaned
    (.error (.gateway (.toolNotAllowed ("no longer allowed: " ++ pullRequest.fullName))))
    rfl (by decide) rfl (List.map_eq_replicate_iff.mp rfl)
  exact (htold.granted rfl (by simp [orphaned])).2 _ rfl

end ToolGateway
