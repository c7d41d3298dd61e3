/-
  ToolGateway.Gateway.Watched

  The gateway's programs under the monitor: whatever their steps find, each of them
  is let through, and a program that is through owes nothing to the audit log.
-/

import ToolGateway.Gateway.Watch

namespace ToolGateway

open Coroutine Py

section
variable {σ : Type} [TicketStore σ] [LawfulTicketStore σ] {s : Settings}
  {verdict : TicketId → Decision → Prop} {deeds : List Deed} {ctx : CallContext} {α β γ : Type}

variable (s verdict) in
/-- The program passes, and owes nothing when it is through. -/
def EndsClear (deeds : List Deed) (c : γ) (m : Prog Exc γ Input (World σ) α) : Prop :=
  Prog.Passes (watch σ s verdict) deeds c m fun q _ _ => owed q = none

-- ============================================================================
-- Rules for steps
-- ============================================================================

/-- An entry is made by a thread that owes it, or accounts for nothing. -/
theorem audit_entry {event : String} {fields : Fields} {f : Unit → StepM σ β}
    {post : List Deed → Except Exc β → CallContext → Prop}
    (howed : ∀ a, AuditEvent.account ⟨event, ctx.call.fullName, ctx.call.agentId, fields⟩ = some a →
      owed deeds = some a)
    (h : ∀ now, Prog.Passes (watch σ s verdict)
      (⟨now, .tells ⟨event, ctx.call.fullName, ctx.call.agentId, fields⟩⟩ :: deeds) ctx (f ()) post) :
    Prog.Passes (watch σ s verdict) deeds ctx (audit event fields >>= f) post := by
  have haudit : Prog.Passes (watch σ s verdict) deeds ctx (audit event fields : StepM σ Unit)
      fun q r ctx' => r = .ok () ∧ ctx' = ctx ∧ ∃ now,
        q = ⟨now, .tells ⟨event, ctx.call.fullName, ctx.call.agentId, fields⟩⟩ :: deeds :=
    .get_bind (.lift (auditEvent_watched howed fun now => ⟨rfl, rfl, now, rfl⟩))
  refine haudit.bind ?_ ?_
  · rintro q ⟨⟩ ctx' ⟨-, rfl, now, rfl⟩
    exact h now
  · rintro q e ctx' ⟨he, -⟩
    cases he

theorem audit_watched {event : String} {fields : Fields} {f : Unit → StepM σ β}
    {post : List Deed → Except Exc β → CallContext → Prop}
    (hfree : ∀ tool agent, AuditEvent.account ⟨event, tool, agent, fields⟩ = none)
    (h : ∀ d, owed (d :: deeds) = owed deeds → marksOf (d :: deeds) = marksOf deeds →
      Prog.Passes (watch σ s verdict) (d :: deeds) ctx (f ()) post) :
    Prog.Passes (watch σ s verdict) deeds ctx (audit event fields >>= f) post := by
  refine audit_entry (fun a ha => ?_) fun now => h _ (owed_tells_none (hfree _ _)) rfl
  rw [hfree] at ha
  cases ha

/-- An entry that pays what is owed. -/
theorem audit_pays {event : String} {fields : Fields} {f : Unit → StepM σ β}
    {post : List Deed → Except Exc β → CallContext → Prop} {a : Account}
    (ha : AuditEvent.account ⟨event, ctx.call.fullName, ctx.call.agentId, fields⟩ = some a)
    (howed : owed deeds = some a)
    (h : ∀ d, owed (d :: deeds) = none → marksOf (d :: deeds) = marksOf deeds →
      Prog.Passes (watch σ s verdict) (d :: deeds) ctx (f ()) post) :
    Prog.Passes (watch σ s verdict) deeds ctx (audit event fields >>= f) post := by
  refine audit_entry (fun a' ha' => ?_) fun now => h _ (owed_tells_some (by rw [ha]; rfl)) rfl
  rw [howed, ← ha, ha']

theorem orRaise_watched {c : γ} {r : Except PyError α} {f : α → Prog Exc γ Input (World σ) β}
    {post : List Deed → Except Exc β → γ → Prop}
    (hok : ∀ a, r = .ok a → Prog.Passes (watch σ s verdict) deeds c (f a) post)
    (herror : ∀ e, r = .error e → post deeds (.error (.python e)) c) :
    Prog.Passes (watch σ s verdict) deeds c (orRaise r >>= f) post := by
  cases hr : r with
  | ok a => exact hok a hr
  | error e => exact Prog.Passes.throw (herror e hr)

/-- What comes after the program takes no step. -/
theorem EndsClear.tryCatch {c : γ} {m : Prog Exc γ Input (World σ) α}
    {handler : Exc → Prog Exc γ Input (World σ) α} (h : EndsClear s verdict deeds c m)
    (hhandler : ∀ deeds' c' e, owed deeds' = none → EndsClear s verdict deeds' c' (handler e)) :
    EndsClear s verdict deeds c (tryCatch m handler) :=
  Prog.Passes.tryCatch h (fun _ _ _ hclear => hclear) fun q e c' hclear => hhandler q c' e hclear

theorem EndsClear.bind {c : γ} {m : Prog Exc γ Input (World σ) α}
    {f : α → Prog Exc γ Input (World σ) β} (h : EndsClear s verdict deeds c m)
    (hf : ∀ deeds' c' a, owed deeds' = none → EndsClear s verdict deeds' c' (f a)) :
    EndsClear s verdict deeds c (m >>= f) :=
  Prog.Passes.bind h (fun q a c' hclear => hf q c' a hclear) fun _ _ _ hclear => hclear

theorem audited_watched {step : Step σ} {event : String} {callNext : StepM σ ToolResult}
    (hfree : ∀ tool agent fields,
      AuditEvent.account ⟨event ++ ".error", tool, agent, fields⟩ = none)
    (h : EndsClear s verdict deeds ctx (step.handleCall callNext)) :
    EndsClear s verdict deeds ctx ((audited step event).handleCall callNext) := by
  refine Prog.Passes.tryCatch h (fun _ _ _ hclear => hclear) fun q e ctx' hclear => ?_
  cases e with
  | gateway e =>
      exact audit_watched (fun _ _ => hfree _ _ _) fun d howed _ => .throw (howed.trans hclear)
  | _ => exact .throw hclear

-- ============================================================================
-- The pipeline after the approval
-- ============================================================================

/-- The tool is run, and the entry about it made. -/
theorem dispatch_watched {callNext : StepM σ ToolResult} (hclear : owed deeds = none)
    (hlicensed : Licensed deeds) : EndsClear s verdict deeds ctx (Dispatch.handleCall callNext) := by
  refine .get_bind (.lift_bind (.atomic fun slot w x w' hb => ?_))
  cases hb
  refine ⟨_, ⟨.marks _, rfl, ⟨rfl, rfl⟩, fun _ => hclear, hlicensed⟩, ?_⟩
  refine .lift_bind (.atomic fun slot' w₁ x' w₁' hb => ?_)
  cases hb
  refine ⟨_, ⟨.marks _, rfl, ⟨rfl, rfl⟩, nofun, trivial⟩, ?_⟩
  dsimp only
  split
  · exact audit_pays rfl rfl fun d hd _ => .throw hd
  · refine .lift_bind (note_watched rfl (fun _ _ => trivial) fun now => ?_)
    exact audit_pays rfl rfl fun d hd _ => .pure hd

theorem redact_watched {redact : ToolResult → String → Except Exc ToolResult}
    {callNext : StepM σ ToolResult} (h : EndsClear s verdict deeds ctx callNext) :
    EndsClear s verdict deeds ctx ((Redact redact).handleCall callNext) := by
  refine Prog.Passes.bind h (fun q result ctx' hclear => .get_bind ?_) fun _ _ _ hclear => hclear
  split
  · exact .pure hclear
  · exact audit_watched (fun _ _ => rfl) fun d howed _ => .throw (howed.trans hclear)
  · exact .throw hclear

theorem materializeSecrets_watched {callNext : StepM σ ToolResult} (hclear : owed deeds = none)
    (hlicensed : Licensed deeds)
    (hnext : ∀ deeds' ctx', owed deeds' = none → Licensed deeds' →
      EndsClear s verdict deeds' ctx' callNext) :
    EndsClear s verdict deeds ctx (MaterializeSecrets.handleCall callNext) := by
  refine .get_bind (.lift_bind (.atomic fun slot w x w' hb => ?_))
  cases hb
  refine ⟨_, ⟨.marks _, rfl, ⟨rfl, rfl⟩, nofun, hlicensed⟩, ?_⟩
  split
  · exact .throw hclear
  · next args refs _ =>
      refine .modify_bind ?_
      by_cases hrefs : refs = []
      · simp only [hrefs, ne_eq, not_true_eq_false, if_false]
        exact hnext _ _ hclear (hlicensed.mark (by simp))
      · simp only [hrefs, ne_eq, not_false_eq_true, if_true]
        refine .modify_bind (audit_watched (fun _ _ => rfl) fun d howed hmarks => ?_)
        exact hnext _ _ (howed.trans hclear) ((hlicensed.mark (by simp)).same hmarks)

theorem validateSchema_watched {checkArgs : Json → Json → Except PyError (List String)}
    {callNext : StepM σ ToolResult} (hclear : owed deeds = none) (hlicensed : Licensed deeds)
    (hnext : ∀ deeds' ctx', owed deeds' = none → Licensed deeds' →
      EndsClear s verdict deeds' ctx' callNext) :
    EndsClear s verdict deeds ctx ((ValidateSchema checkArgs).handleCall callNext) := by
  refine .get_bind (orRaise_watched (fun errors _ => ?_) fun e _ => hclear)
  split
  · refine .lift_bind (note_watched rfl (fun _ _ => trivial) fun now => ?_)
    exact hnext _ _ hclear (hlicensed.mark (by simp))
  · exact .throw hclear

theorem postApproval_watched (hclear : owed deeds = none) (hlicensed : Licensed deeds) :
    EndsClear s verdict deeds ctx (Pipeline.run (postApproval s []) : StepM σ ToolResult) := by
  rw [postApproval_nil]
  refine audited_watched (fun _ _ _ => rfl) (validateSchema_watched hclear hlicensed
    fun deeds₁ ctx₁ hclear₁ hlicensed₁ => ?_)
  refine audited_watched (fun _ _ _ => rfl) (materializeSecrets_watched hclear₁ hlicensed₁
    fun deeds₂ ctx₂ hclear₂ hlicensed₂ => ?_)
  exact redact_watched (dispatch_watched hclear₂ hlicensed₂)

-- ============================================================================
-- The verdict
-- ============================================================================

theorem applyDecision_watched {d : Decision} {f : Unit → StepM σ β}
    {post : List Deed → Except Exc β → CallContext → Prop}
    (h : ∀ ctx', Prog.Passes (watch σ s verdict) deeds ctx' (f ()) post)
    (herror : ∀ e ctx', post deeds (.error e) ctx') :
    Prog.Passes (watch σ s verdict) deeds ctx (applyDecision d >>= f) post := by
  have hstays : Prog.Passes (watch σ s verdict) deeds ctx (applyDecision d : StepM σ Unit)
      fun q _ _ => q = deeds := by
    unfold applyDecision
    split
    · refine .get_bind ?_
      split
      · exact orRaise_watched (fun changed _ => .update rfl) fun e _ => rfl
      · exact .pure rfl
    · exact .throw rfl
  refine hstays.bind ?_ ?_
  · rintro q ⟨⟩ ctx' rfl
    exact h ctx'
  · rintro q e ctx' rfl
    exact herror e ctx'

theorem runOnce_watched {t : TicketId} {run : StepM σ ToolResult} (hclear : owed deeds = none)
    (hrun : ∀ deeds' ctx', owed deeds' = none → Licensed deeds' →
      EndsClear s verdict deeds' ctx' run) :
    EndsClear s verdict deeds ctx (runOnce t s.gate.lease run) := by
  refine .lift_bind (claimTicket_watched (fun now => ?_) fun now => ?_)
  · refine .get_bind (.lift_bind (note_watched rfl (fun _ _ => trivial) fun now' => ?_))
    have hstarted : Licensed (⟨now', .marks (.started t ctx.call.arguments)⟩ ::
        ⟨now, .marks (.claimed t now)⟩ :: deeds) := Or.inr ⟨t, _, List.mem_cons_self⟩
    have hkept : EndsClear s verdict (⟨now', .marks (.started t ctx.call.arguments)⟩ ::
        ⟨now, .marks (.claimed t now)⟩ :: deeds) ctx (tryCatch run (keepError t)) := by
      refine Prog.Passes.tryCatch (hrun _ ctx hclear hstarted) (fun _ _ _ h => h) ?_
      intro q e ctx' h
      unfold keepError
      split
      · refine .lift_bind (completeTicket_watched fun now answer act hact => ?_)
        exact orRaise_watched (fun _ _ => .throw (hact.trans h)) fun _ _ => hact.trans h
      · exact .throw h
    refine Prog.Passes.bind hkept (fun q result ctx' h => ?_) fun _ _ _ h => h
    refine .lift_bind (completeTicket_watched fun now answer act hact => ?_)
    exact orRaise_watched (fun _ _ => .pure (hact.trans h)) fun _ _ => hact.trans h
  · have hstale : ∀ deeds', owed deeds' = none → EndsClear s verdict deeds' ctx
        (do if ← Prog.lift (closeStaleClaim t s.gate.lease interrupted) then return interrupted
            else throw (.gateway (.pendingApproval t)) : StepM σ ToolResult) := by
      intro deeds' hd
      refine .lift_bind (closeStaleClaim_watched fun now won act hact => ?_)
      split
      · exact .pure (hact.trans hd)
      · exact .throw (hact.trans hd)
    unfold lostClaim
    refine .lift_bind (getTicket_watched (fun now' ticket => ?_) fun now' => hstale _ hclear)
    dsimp only
    split
    · exact .pure hclear
    · exact hstale _ hclear

/-- What the waiter comes back with: a verdict it read, or a timeout it waited for. -/
theorem awaitDecision_watched {t : TicketId} {deadline : Time} (rechecks : ℕ)
    (hclear : owed deeds = none) (hawaits : Awaits s.gate.timeout t deadline deeds) :
    Prog.Passes (watch σ s verdict) deeds ctx (awaitDecision t deadline rechecks : StepM σ Decision)
      fun q r ctx' => owed q = none ∧ ctx' = ctx ∧ ∀ d, r = .ok d → d.status = .timeout →
        WaitedOut s.gate.timeout t q ∨ ∃ ticket, .read t ticket ∈ marksOf q ∧ ticket.decision = d := by
  induction rechecks generalizing deeds with
  | zero =>
      refine .lift (.atomic fun slot w x w' hb => ?_)
      cases hb
  | succ rechecks ih =>
      refine .lift_bind (getTicket_watched (fun now ticket => ?_) fun now => ?_)
      swap
      · exact .throw ⟨hclear, rfl, fun d hd => by cases hd⟩
      dsimp only
      split
      · refine .pure ⟨hclear, rfl, fun d hd _ => Or.inr ⟨ticket, List.mem_cons_self, ?_⟩⟩
        exact Except.ok.inj hd
      · have hawaits' := hawaits.suffix (List.suffix_cons (Deed.mk now (.marks (.read t ticket))) deeds)
        refine .lift_bind (readClock_watched fun now' => ?_)
        split
        · next hdue =>
            refine .pure ⟨hclear, rfl, fun d _ _ => Or.inl ?_⟩
            exact ⟨deadline, _, _, List.suffix_rfl, hawaits', sub_nonpos.mp hdue⟩
        · refine .lift_bind (quiet_watched fun slot w x w' hb => ?_)
          cases hb
          refine ⟨rfl, rfl, ih hclear (hawaits'.suffix ?_)⟩
          exact (List.suffix_cons _ _).trans (List.suffix_cons _ _)

theorem settle_watched {t : TicketId} {awaited : Decision} (hclear : owed deeds = none)
    (hfrom : awaited.status = .timeout → WaitedOut s.gate.timeout t deeds ∨
      ∃ ticket, .read t ticket ∈ marksOf deeds ∧ ticket.decision = awaited) :
    EndsClear s verdict deeds ctx (settle t awaited : StepM σ Decision) := by
  unfold settle
  split
  · next htimeout =>
      have hfree : (Mark.decided t awaited).account = none := by rw [Mark.account, if_pos htimeout]
      refine .lift_bind (decideTicket_watched hclear (fun _ _ => Or.inr ⟨htimeout, hfrom htimeout⟩)
        (fun now => ?_) fun now => ?_)
      · exact .pure ((owed_marks_none hfree).trans hclear)
      · refine .lift_bind (getTicket_watched (fun _ _ => ?_) fun _ => ?_)
        · exact .pure hclear
        · exact .throw hclear
  · exact .pure hclear

/-- A caller that waits for the verdict on the ticket it filed. -/
theorem waitForVerdict_watched {t : TicketId} {call : ToolCall} (hclear : owed deeds = none)
    (hfiled : .created t call ∈ marksOf deeds) :
    EndsClear s verdict deeds ctx
      (waitForVerdict s.gate t (Pipeline.run (postApproval s [])) : StepM σ ToolResult) := by
  refine .lift_bind (readClock_watched fun start => ?_)
  have hawaits : Awaits s.gate.timeout t (start + s.gate.timeout) (⟨start, .quiet⟩ :: deeds) :=
    ⟨call, _, deeds, List.suffix_rfl, hfiled, rfl⟩
  refine Prog.Passes.bind (awaitDecision_watched s.gate.rechecks hclear hawaits) ?_
    fun _ _ _ h => h.1
  rintro q awaited ctx' ⟨hclear', rfl, hfrom⟩
  refine Prog.Passes.bind (settle_watched hclear' (hfrom awaited rfl))
    (fun q' d ctx'' hclear'' => ?_) fun _ _ _ h => h
  refine audit_watched (fun _ _ => rfl) fun deed howed _ => ?_
  refine .lift_bind (note_watched rfl (fun _ _ => trivial) fun now => ?_)
  refine applyDecision_watched (fun ctx₁ => ?_) fun _ _ => howed.trans hclear''
  exact runOnce_watched (howed.trans hclear'') fun _ _ => postApproval_watched

theorem approvalGate_watched {call : ToolCall} {grant : Grant} (hclear : owed deeds = none)
    (hgrant : ctx.grant = some grant) (hconsulted : .consulted call grant ∈ marksOf deeds)
    (hunacted : ∀ t d, .acted t d ∉ marksOf deeds) :
    EndsClear s verdict deeds ctx
      ((ApprovalGate s.gate).handleCall (Pipeline.run (postApproval s [])) : StepM σ ToolResult) := by
  refine .get_bind ?_
  simp only [hgrant, Option.map_some, Option.getD_some]
  by_cases hauto : grant.approvalMode = .auto
  · rw [if_pos hauto]
    exact postApproval_watched hclear (Or.inl ⟨call, grant, hconsulted, hauto, hunacted⟩)
  rw [if_neg hauto]
  refine .lift_bind (createTicket_watched hclear (fun now t => ?_) fun now e => ?_)
  swap
  · exact orRaise_watched (fun a ha => by cases ha) fun _ _ => hclear
  refine orRaise_watched (fun a ha => ?_) fun e he => by cases he
  cases ha
  refine audit_pays rfl rfl fun d hd hmarks => ?_
  have hgate : ∀ deeds', owed deeds' = none → .created t ctx.call ∈ marksOf deeds' →
      EndsClear s verdict deeds' ctx (fromNotice s.gate t grant.approvalMode ctx.canBlock
        (Pipeline.run (postApproval s [])) : StepM σ ToolResult) := by
    intro deeds' hclear' hfiled
    rw [fromNotice]
    split
    · exact .throw hclear'
    · exact waitForVerdict_watched hclear' hfiled
  have hfiled : .created t ctx.call ∈ marksOf (d :: ⟨now, .marks (.created t ctx.call)⟩ :: deeds) := by
    rw [hmarks]
    exact List.mem_cons_self
  by_cases hnotifies : s.gate.notifies = true
  · rw [if_pos hnotifies]
    refine .lift_bind (quiet_watched fun slot w x w' hb => ?_)
    cases hb
    refine ⟨rfl, rfl, ?_⟩
    split
    · refine audit_watched (fun _ _ => rfl) fun d' howed hmarks' => hgate _ (howed.trans hd) ?_
      rw [hmarks']
      exact hfiled
    · exact hgate _ hd hfiled
  · rw [if_neg hnotifies]
    exact hgate _ hd hfiled

-- ============================================================================
-- Before the gate
-- ============================================================================

theorem rateLimit_watched {callNext : StepM σ ToolResult} (hclear : owed deeds = none)
    (hnext : ∀ d, owed (d :: deeds) = none → marksOf (d :: deeds) = marksOf deeds →
      EndsClear s verdict (d :: deeds) ctx callNext) :
    EndsClear s verdict deeds ctx (RateLimit.handleCall callNext) := by
  refine .get_bind (.lift_bind (quiet_watched fun slot w x w' hb => ?_))
  cases hb
  refine ⟨rfl, rfl, ?_⟩
  split
  · exact hnext _ hclear rfl
  · exact .throw hclear

theorem authorize_watched {callNext : StepM σ ToolResult} (hclear : owed deeds = none)
    (hnext : ∀ deeds' grant, owed deeds' = none →
      marksOf deeds' = .consulted ctx.call grant :: marksOf deeds →
      EndsClear s verdict deeds' { ctx with grant := some grant } callNext) :
    EndsClear s verdict deeds ctx (Authorize.handleCall callNext) := by
  refine .get_bind (.lift_bind (grantFor_watched (fun now grant => ?_) fun now answer hne => ?_))
  · refine orRaise_watched (fun found hfound => ?_) fun e he => by cases he
    cases hfound
    refine .modify_bind (audit_watched (fun _ _ => rfl) fun d howed hmarks => ?_)
    exact hnext _ grant (howed.trans hclear) hmarks
  · refine orRaise_watched (fun found hfound => ?_) fun _ _ => hclear
    cases found with
    | none => exact .throw hclear
    | some grant => exact absurd hfound (hne grant)

theorem full_watched {call : ToolCall} {canBlock : Bool} :
    EndsClear s verdict [] { call := call, canBlock := canBlock }
      (Pipeline.run (full s []) : StepM σ ToolResult) := by
  have hauthorized : ∀ deeds, owed deeds = none → marksOf deeds = [] →
      EndsClear s verdict deeds { call := call, canBlock := canBlock }
        (Pipeline.run (audited Authorize "authorize" :: audited (ApprovalGate s.gate) "approval" ::
          postApproval s []) : StepM σ ToolResult) := by
    intro deeds hclear hnone
    refine audited_watched (fun _ _ _ => rfl) (authorize_watched hclear
      fun deeds' grant hclear' hmarks => ?_)
    rw [hnone] at hmarks
    have hconsulted : .consulted call grant ∈ marksOf deeds' := by
      rw [hmarks]
      exact List.mem_singleton_self _
    have hunacted : ∀ t d, .acted t d ∉ marksOf deeds' := by simp [hmarks]
    exact audited_watched (fun _ _ _ => rfl)
      (approvalGate_watched hclear' rfl hconsulted hunacted)
  rw [full_nil]
  cases s.limited with
  | false => exact hauthorized [] rfl rfl
  | true => exact audited_watched (fun _ _ _ => rfl) (rateLimit_watched rfl fun d => hauthorized _)

-- ============================================================================
-- Entry points
-- ============================================================================

theorem within_watched {m : StepM σ α} (h : EndsClear s verdict deeds ctx m) :
    EndsClear s verdict deeds () (GatewayM.within ctx m) := by
  refine .lift_bind (Co.Passes.mono h fun q r hclear => ?_)
  obtain ⟨r, ctx'⟩ := r
  cases r with
  | ok a => exact .pure hclear
  | error e => exact .throw hclear

theorem call_watched {toolCall : ToolCall} {canBlock : Bool} :
    EndsClear s verdict [] () (call s [] toolCall canBlock : GatewayM σ Reply) := by
  refine within_watched (.tryCatch (full_watched.bind fun _ _ _ hclear => .pure hclear) ?_)
  intro deeds' ctx' e hclear
  split
  · exact .pure hclear
  · exact .throw hclear

theorem resume_watched {t : TicketId} (hclear : owed deeds = none) :
    EndsClear s verdict deeds () (resume s [] t : GatewayM σ ToolResult) := by
  refine .lift_bind (getTicket_watched (fun now ticket => ?_) fun now => .throw hclear)
  dsimp only
  split
  · exact .pure hclear
  split
  · exact .throw hclear
  refine .lift_bind (grantFor_watched (fun now grant => ?_) fun now answer hne => ?_)
  · refine orRaise_watched (fun found hfound => ?_) fun e he => by cases he
    cases hfound
    refine within_watched (.lift_bind (note_watched rfl (fun _ _ => trivial) fun now => ?_))
    refine applyDecision_watched (fun ctx₁ => ?_) fun _ _ => hclear
    refine audit_watched (fun _ _ => rfl) fun d howed _ => ?_
    exact runOnce_watched (howed.trans hclear) fun _ _ => postApproval_watched
  · refine orRaise_watched (fun found hfound => ?_) fun _ _ => hclear
    cases found with
    | none => exact .throw hclear
    | some grant => exact absurd hfound (hne grant)

theorem check_watched {agentId : String} {t : TicketId} :
    EndsClear s verdict [] () (check s [] agentId t : GatewayM σ Reply) := by
  refine .lift_bind (getTicket_watched (fun now ticket => ?_) fun now => .throw rfl)
  dsimp only
  split
  · exact .throw rfl
  split
  · exact .pure rfl
  refine EndsClear.tryCatch ((resume_watched rfl).bind fun _ _ _ hclear => .pure hclear) ?_
  intro deeds' c' e hclear
  split
  · exact .pure hclear
  · exact .pure hclear
  · exact .throw hclear
  · exact .throw hclear
  · exact .throw hclear

/-- A verdict is recorded by one who is there for it, and the entry about it made. -/
theorem decide_watched {t : TicketId} {d : Decision} (hclear : owed deeds = none)
    (hverdict : d.status = .approved ∨ d.status = .rejected → verdict t d) :
    EndsClear s verdict deeds () (ToolGateway.decide t d : GatewayM σ Reply) := by
  unfold ToolGateway.decide
  split
  swap
  · exact .throw hclear
  next hstatus =>
  have haccount : (Mark.decided t d).account
      = some (.ruled t d.status.value d.approver d.reason d.edited) := by
    rw [Mark.account, if_neg]
    intro htimeout
    rw [htimeout] at hstatus
    rcases hstatus with h | h <;> cases h
  refine .lift_bind (getTicket_watched (fun now ticket => ?_) fun now => .throw hclear)
  refine .lift_bind (decideTicket_watched hclear (fun _ _ => Or.inl (hverdict hstatus)) (fun now' => ?_)
    fun now' => .throw hclear)
  refine .lift_bind (quiet_watched fun slot w x w' hb => ?_)
  cases hb
  refine ⟨rfl, rfl, .lift_bind (auditEvent_watched (fun a ha => ?_) fun now'' => ?_)⟩
  · rw [owed_quiet, owed_marks_some haccount, ← ha]
    obtain ⟨status, approver, reason, edited⟩ := d
    cases edited <;> rfl
  · exact .pure (owed_tells_some rfl)

theorem setPolicy_watched {grants : GrantResolver} :
    EndsClear s verdict [] () (setPolicy grants : GatewayM σ Reply) := by
  refine .lift_bind (.atomic fun slot w x w' hb => ?_)
  cases hb
  exact ⟨_, ⟨.marks _, rfl, ⟨rfl, rfl⟩, nofun, trivial⟩, .pure rfl⟩

end

-- ============================================================================
-- Every program passes
-- ============================================================================

section
variable {σ : Type} [TicketStore σ] [LawfulTicketStore σ] {s : Settings}

theorem Actor.program_watched {verdict : TicketId → Decision → Prop} (actor : Actor)
    (hverdict : ∀ t d, actor = .decide t d → d.status = .approved ∨ d.status = .rejected →
      verdict t d) :
    (actor.program s : Task σ (Except Exc Reply)).Passes (watch σ s verdict)
      (fun q _ => owed q = none) [] := by
  have hentry : EndsClear s verdict [] () (actor.entry s : GatewayM σ Reply) := by
    cases actor with
    | call toolCall canBlock => exact call_watched
    | resume t => exact (resume_watched rfl).bind fun _ _ _ hclear => .pure hclear
    | check agentId t => exact check_watched
    | decide t d => exact decide_watched rfl (hverdict t d rfl)
    | setPolicy grants => exact setPolicy_watched
  exact .bind (Co.Passes.mono hentry fun q r hclear => hclear)

/-- The verdicts that thread `i` is there to record. -/
def recorders (actors : List Actor) (i : ℕ) (t : TicketId) (d : Decision) : Prop :=
  actors[i]? = some (Actor.decide t d) ∧ (d.status = .approved ∨ d.status = .rejected)

theorem gateway_watched {actors : List Actor} :
    (gateway σ s actors).Monitored (fun i => watch σ s (recorders actors i))
      (fun _ q _ => owed q = none) fun _ => [] := by
  intro i co hi
  rw [gateway, List.getElem?_map, Option.map_eq_some_iff] at hi
  obtain ⟨actor, hactor, hco⟩ := hi
  cases hco
  exact actor.program_watched fun t d hd hstatus => ⟨hd ▸ hactor, hstatus⟩

end

end ToolGateway
