/-
  ToolGateway.Gateway.Execution

  The pipeline after the approval, and what `runOnce` makes of it: every way an
  execution can end, with the marks it leaves.
-/

import ToolGateway.Gateway.AwaitPoints

namespace ToolGateway

open Coroutine Py

variable {σ : Type}

-- ============================================================================
-- Kinds of marks
-- ============================================================================

/-- A mark of a thread that watches a ticket. -/
def Mark.watching : Mark → Bool
  | .read .. | .missed .. | .decided .. | .refused .. => true
  | _ => false

/-- A mark of a thread that has not tried to execute anything. -/
def Mark.passive : Mark → Bool
  | .consulted .. | .created .. | .acted .. => true
  | m => m.watching

theorem Mark.passive_of_watching {m : Mark} (h : m.watching = true) : m.passive = true := by
  cases m <;> first | rfl | cases h

-- ============================================================================
-- The two pipelines of a gateway without steps of its own
-- ============================================================================

theorem postApproval_nil (s : Settings) :
    (postApproval s [] : List (Step σ)) =
      [audited (ValidateSchema s.checkArgs) "validate", audited MaterializeSecrets "materialize",
        Redact s.redact, Dispatch] := by
  cases hlimited : s.limited <;> simp [postApproval, chain, builtin, hlimited] <;> rfl

theorem full_nil [TicketStore σ] (s : Settings) :
    (full s [] : List (Step σ)) =
      (if s.limited then [audited RateLimit "rate_limit"] else []) ++
        audited Authorize "authorize" :: audited (ApprovalGate s.gate) "approval" ::
          postApproval s [] := by
  cases hlimited : s.limited <;> simp [full, chain, builtin, hlimited] <;> rfl

-- ============================================================================
-- Rules for steps
-- ============================================================================

section
variable [TicketStore σ] [LawfulTicketStore σ] {s : Settings} {i : ℕ} {pre : List Mark}
  {ctx : CallContext} {α β γ : Type}

theorem audit_bind {event : String} {fields : Fields} {f : Unit → StepM σ β}
    {post : Except Exc β → CallContext → List Mark → Prop}
    (h : (ledger σ s).Spec i pre ctx (f ()) post) :
    (ledger σ s).Spec i pre ctx (audit event fields >>= f) post := by
  have haudit : (ledger σ s).Spec i pre ctx (audit event fields : StepM σ Unit)
      fun r ctx' marks => r = .ok () ∧ ctx' = ctx ∧ marks = pre :=
    .get_bind (.lift (auditEvent_spec event ctx.call fields) fun _ _ hm => ⟨rfl, rfl, hm⟩)
  refine haudit.bind ?_ ?_
  · rintro ⟨⟩ ctx' marks ⟨-, rfl, rfl⟩
    exact h
  · rintro e ctx' marks ⟨hr, -⟩
    cases hr

theorem orRaise_bind {c : γ} {r : Except PyError α} {f : α → Prog Exc γ Input (World σ) β}
    {post : Except Exc β → γ → List Mark → Prop}
    (hok : ∀ a, r = .ok a → (ledger σ s).Spec i pre c (f a) post)
    (herror : ∀ e, r = .error e → post (.error (.python e)) c pre) :
    (ledger σ s).Spec i pre c (orRaise r >>= f) post := by
  cases hr : r with
  | ok a => exact hok a hr
  | error e => exact Discipline.Spec.throw (herror e hr)

/-- Recording an error changes nothing about how a step ends. -/
theorem audited_spec {step : Step σ} {event : String} {callNext : StepM σ ToolResult}
    {post : Except Exc ToolResult → CallContext → List Mark → Prop}
    (h : (ledger σ s).Spec i pre ctx (step.handleCall callNext) post) :
    (ledger σ s).Spec i pre ctx ((audited step event).handleCall callNext) post := by
  refine Discipline.Spec.tryCatch h (fun a ctx' marks hp => hp) fun e ctx' marks hp => ?_
  cases e with
  | gateway e => exact audit_bind (.throw hp)
  | _ => exact .throw hp

end

-- ============================================================================
-- The pipeline after the approval
-- ============================================================================

/-- How the pipeline can end on a call, and the marks it leaves on the way. -/
inductive Ended (s : Settings) (call : ToolCall) (schema : Json) (editNote : Option String) :
    List Mark → Except Exc ToolResult → Prop
  /-- the validator raised -/
  | unchecked (e : PyError) (h : s.checkArgs call.arguments schema = .error e) :
      Ended s call schema editNote [] (.error (.python e))
  | invalid (errors : List String) (h : s.checkArgs call.arguments schema = .ok errors)
      (hne : errors ≠ []) :
      Ended s call schema editNote [] (.error (.gateway (.schemaInvalid errors)))
  /-- the secret store raised -/
  | unresolved (e : Exc) (h : s.checkArgs call.arguments schema = .ok []) :
      Ended s call schema editNote [.resolved (.error e), .validated call.arguments schema]
        (.error e)
  /-- the upstream raised -/
  | unavailable (arguments : Json) (refs : List String) (typeName text : String)
      (h : s.checkArgs call.arguments schema = .ok []) :
      Ended s call schema editNote
        [.answered (.raised typeName text), .dispatched { call with arguments := arguments },
          .resolved (.ok (arguments, refs)), .validated call.arguments schema]
        (.error (.gateway (.upstreamUnavailable ("tool call failed: " ++ text) (some text))))
  /-- the upstream answered; what the redactor makes of it is the outcome -/
  | answered (arguments : Json) (refs : List String) (r : ToolResult) (elapsed : ℤ)
      (h : s.checkArgs call.arguments schema = .ok []) :
      Ended s call schema editNote
        [.returned (noted r elapsed editNote), .answered (.result r),
          .dispatched { call with arguments := arguments }, .resolved (.ok (arguments, refs)),
          .validated call.arguments schema]
        (s.redact (noted r elapsed editNote) call.upstreamId)

section
variable [TicketStore σ] [LawfulTicketStore σ] {s : Settings} {i : ℕ} {pre : List Mark}

/-- The upstream is called: the last step. -/
theorem dispatch_spec {ctx : CallContext} {callNext : StepM σ ToolResult}
    (hvalidated : ∃ arguments schema, Mark.validated arguments schema ∈ pre)
    (hopen : ∀ t outcome, .completed t outcome ∉ pre) :
    (ledger σ s).Spec i pre ctx (Dispatch.handleCall callNext) fun r ctx' marks => ctx' = ctx ∧
      ((∃ typeName text,
          r = .error (.gateway (.upstreamUnavailable ("tool call failed: " ++ text) (some text))) ∧
          marks = .answered (.raised typeName text) :: .dispatched ctx.call :: pre) ∨
        ∃ result elapsed, r = .ok (noted result elapsed ctx.bag.editNote) ∧
          marks = .returned (noted result elapsed ctx.bag.editNote) :: .answered (.result result) ::
            .dispatched ctx.call :: pre) := by
  obtain ⟨arguments, schema, hmem⟩ := hvalidated
  have hguard : ∀ marks trail, own i trail = marks ++ pre →
      ∃ arguments schema, (i, Mark.validated arguments schema) ∈ trail := fun marks trail hown =>
    ⟨arguments, schema, mem_own.mp (hown ▸ List.mem_append_right marks hmem)⟩
  refine .get_bind (.lift_bind (silent_spec (fun _ marks => marks = .dispatched ctx.call :: pre)
    fun slot w x w' hb _ hown _ hme => ?_) ?_)
  · cases hb
    subst hme
    exact ⟨_, rfl, rfl, hguard [] _ hown, rfl⟩
  rintro started marks rfl
  refine .lift_bind (silent_spec
    (fun x marks => marks = .answered x.1 :: .dispatched ctx.call :: pre)
    fun slot w x w' hb _ hown _ hme => ?_) ?_
  · cases hb
    subst hme
    have hunstored : ∀ t outcome, (slot.me, Mark.completed t outcome) ∉ w.trail := by
      intro t outcome hstored
      have hpre : Mark.completed t outcome ∈ .dispatched ctx.call :: pre :=
        hown ▸ mem_own.mpr hstored
      simp only [List.mem_cons, reduceCtorEq, false_or] at hpre
      exact hopen t outcome hpre
    exact ⟨_, rfl, rfl, ⟨hguard [_] _ hown, hunstored⟩, rfl⟩
  rintro ⟨answer, now⟩ marks rfl
  cases answer with
  | raised typeName text => exact audit_bind (.throw ⟨rfl, Or.inl ⟨typeName, text, rfl, rfl⟩⟩)
  | result r =>
      refine .lift_bind (note_spec rfl fun trail _ hown => hguard [_, _] _ hown) ?_
      rintro ⟨⟩ marks rfl
      exact audit_bind (.pure ⟨rfl, Or.inr ⟨r, _, rfl, rfl⟩⟩)

theorem redact_spec {redact : ToolResult → String → Except Exc ToolResult} {ctx : CallContext}
    {callNext : StepM σ ToolResult} {mid post : Except Exc ToolResult → CallContext → List Mark → Prop}
    (h : (ledger σ s).Spec i pre ctx callNext mid)
    (hok : ∀ r ctx' marks, mid (.ok r) ctx' marks → post (redact r ctx'.call.upstreamId) ctx' marks)
    (herror : ∀ e ctx' marks, mid (.error e) ctx' marks → post (.error e) ctx' marks) :
    (ledger σ s).Spec i pre ctx ((Redact redact).handleCall callNext) post := by
  refine h.bind (fun r ctx' marks hmid => .get_bind ?_) herror
  have hpost := hok r ctx' marks hmid
  split
  · next r' hr =>
      rw [hr] at hpost
      exact .pure hpost
  · next msg hr =>
      rw [hr] at hpost
      exact audit_bind (.throw hpost)
  · next e hr =>
      rw [hr] at hpost
      exact .throw hpost

theorem materialize_spec {ctx : CallContext} {callNext : StepM σ ToolResult}
    {post : Except Exc ToolResult → CallContext → List Mark → Prop}
    (hvalidated : ∃ arguments schema, Mark.validated arguments schema ∈ pre)
    (hnext : ∀ arguments refs (ctx' : CallContext),
      ctx'.call = { ctx.call with arguments := arguments } → ctx'.bag.editNote = ctx.bag.editNote →
        (ledger σ s).Spec i (.resolved (.ok (arguments, refs)) :: pre) ctx' callNext post)
    (herror : ∀ e, post (.error e) ctx (.resolved (.error e) :: pre)) :
    (ledger σ s).Spec i pre ctx (MaterializeSecrets.handleCall callNext) post := by
  obtain ⟨arguments, schema, hmem⟩ := hvalidated
  refine .get_bind (.lift_bind (silent_spec (fun answer marks => marks = .resolved answer :: pre)
    fun slot w x w' hb _ hown _ hme => ?_) ?_)
  · cases hb
    subst hme
    exact ⟨_, rfl, rfl, ⟨arguments, schema, mem_own.mp (hown ▸ hmem)⟩, rfl⟩
  rintro answer marks rfl
  cases answer with
  | error e => exact .throw (herror e)
  | ok found =>
      obtain ⟨materialized, refs⟩ := found
      refine .modify_bind ?_
      by_cases hrefs : refs = []
      · simp only [hrefs, ne_eq, not_true_eq_false, if_false]
        exact hnext materialized [] _ rfl rfl
      · simp only [hrefs, ne_eq, not_false_eq_true, if_true]
        exact .modify_bind (audit_bind (hnext materialized refs _ rfl rfl))

theorem validateSchema_spec {ctx : CallContext} {callNext : StepM σ ToolResult} {grant : Grant}
    {call₀ : ToolCall} {post : Except Exc ToolResult → CallContext → List Mark → Prop}
    (hgrant : ctx.grant = some grant) (hconsulted : .consulted call₀ grant ∈ pre)
    (heffective : ∀ t d, .acted t d ∈ pre → ctx.call.arguments = d.effective call₀.arguments)
    (hnext : s.checkArgs ctx.call.arguments grant.inputSchema = .ok [] →
      (ledger σ s).Spec i (.validated ctx.call.arguments grant.inputSchema :: pre) ctx callNext post)
    (hinvalid : ∀ errors, s.checkArgs ctx.call.arguments grant.inputSchema = .ok errors →
      errors ≠ [] → post (.error (.gateway (.schemaInvalid errors))) ctx pre)
    (hraised : ∀ e, s.checkArgs ctx.call.arguments grant.inputSchema = .error e →
      post (.error (.python e)) ctx pre) :
    (ledger σ s).Spec i pre ctx ((ValidateSchema s.checkArgs).handleCall callNext) post := by
  have hschema : ctx.inputSchema = grant.inputSchema := by rw [CallContext.inputSchema, hgrant]
  refine .get_bind ?_
  rw [hschema]
  refine orRaise_bind (fun errors hcheck => ?_) hraised
  by_cases hempty : errors = []
  · simp only [hempty, if_true]
    rw [hempty] at hcheck
    refine .lift_bind (note_spec rfl fun trail _ hown => ?_) ?_
    · exact ⟨hcheck, call₀, grant, mem_own.mp (hown ▸ hconsulted), rfl, fun t d hacted =>
        heffective t d (hown ▸ mem_own.mpr hacted)⟩
    · rintro ⟨⟩ marks rfl
      exact hnext hcheck
  · simp only [hempty, if_false]
    exact .throw (hinvalid errors hcheck hempty)

/-- The pipeline on a granted call, with the arguments a verdict (if any) let
    through. -/
theorem postApproval_spec {ctx : CallContext} {grant : Grant} {call₀ : ToolCall}
    (hgrant : ctx.grant = some grant) (hconsulted : .consulted call₀ grant ∈ pre)
    (heffective : ∀ t d, .acted t d ∈ pre → ctx.call.arguments = d.effective call₀.arguments)
    (hopen : ∀ t outcome, .completed t outcome ∉ pre) :
    (ledger σ s).Spec i pre ctx (Pipeline.run (postApproval s [])) fun r _ marks =>
      ∃ new, marks = new ++ pre ∧ Ended s ctx.call grant.inputSchema ctx.bag.editNote new r := by
  rw [postApproval_nil]
  refine audited_spec (validateSchema_spec hgrant hconsulted heffective (fun hcheck => ?_)
    (fun errors hcheck hne => ⟨[], rfl, .invalid errors hcheck hne⟩)
    fun e hcheck => ⟨[], rfl, .unchecked e hcheck⟩)
  refine audited_spec (materialize_spec ⟨_, _, List.mem_cons_self⟩
    (fun arguments refs ctx' hcall hnote => ?_) fun e => ⟨[_, _], rfl, .unresolved e hcheck⟩)
  refine redact_spec (dispatch_spec ⟨_, _, List.mem_cons_of_mem _ List.mem_cons_self⟩
    fun t outcome hmem => ?_) ?_ ?_
  · simp only [List.mem_cons, reduceCtorEq, false_or] at hmem
    exact hopen t outcome hmem
  · rintro r ctx'' marks ⟨rfl, ⟨typeName, text, hr, -⟩ | ⟨result, elapsed, hr, rfl⟩⟩
    · cases hr
    · cases hr
      rw [hcall, hnote]
      exact ⟨[_, _, _, _, _], rfl, .answered arguments refs result elapsed hcheck⟩
  · rintro e ctx'' marks ⟨rfl, ⟨typeName, text, hr, rfl⟩ | ⟨result, elapsed, hr, -⟩⟩
    · cases hr
      rw [hcall]
      exact ⟨[_, _, _, _], rfl, .unavailable arguments refs typeName text hcheck⟩
    · cases hr

end

-- ============================================================================
-- The verdict
-- ============================================================================

section
variable [TicketStore σ] [LawfulTicketStore σ] {s : Settings} {i : ℕ} {pre : List Mark}

/-- A verdict that lets the call through leaves it with the effective arguments. -/
theorem applyDecision_spec (d : Decision) (ctx : CallContext) :
    (ledger σ s).Spec i pre ctx (applyDecision d : StepM σ Unit) fun r ctx' marks => marks = pre ∧
      ((r = .ok () ∧ d.approved = true ∧ ctx'.grant = ctx.grant ∧
          ctx'.call = { ctx.call with arguments := d.effective ctx.call.arguments }) ∨
        ∃ e, r = .error e ∧ e.quotesUpstream = false ∧
          (d.approved = false → e = .gateway (.approvalDenied d))) := by
  by_cases happroved : d.approved = true
  · rw [applyDecision, if_pos happroved]
    refine .get_bind ?_
    by_cases hedits : d.edits ctx.call.arguments = true
    · rw [if_pos hedits]
      refine orRaise_bind (fun changed _ => ?_) fun e _ => ⟨rfl, Or.inr ⟨_, rfl, rfl, fun h => ?_⟩⟩
      · exact .update ⟨rfl, Or.inl ⟨rfl, happroved, rfl, by rw [Decision.effective, if_pos hedits]⟩⟩
      · rw [happroved] at h
        cases h
    · rw [if_neg hedits]
      exact .pure ⟨rfl, Or.inl ⟨rfl, happroved, rfl, by rw [Decision.effective, if_neg hedits]⟩⟩
  · rw [applyDecision, if_neg happroved]
    exact .throw ⟨rfl, Or.inr ⟨_, rfl, rfl, fun _ => rfl⟩⟩

end

-- ============================================================================
-- Executing at most once
-- ============================================================================

/-- A mark of the pipeline after the approval. -/
def Mark.inside : Mark → Bool
  | .validated .. | .resolved .. | .dispatched .. | .answered .. | .returned .. => true
  | _ => false

theorem Ended.inside {s : Settings} {call : ToolCall} {schema : Json} {editNote : Option String}
    {new : List Mark} {r : Except Exc ToolResult} (h : Ended s call schema editNote new r) :
    ∀ m ∈ new, m.inside = true := by
  cases h <;> simp [Mark.inside]

/-- What the upstream answered decides how the pipeline ends. -/
theorem Ended.yields {s : Settings} {call : ToolCall} {schema : Json} {editNote : Option String}
    {new : List Mark} {r : Except Exc ToolResult} (h : Ended s call schema editNote new r)
    {a : Answer} (hmem : .answered a ∈ new) : s.Yields a r := by
  cases h with
  | unavailable arguments refs typeName text =>
      obtain rfl : a = .raised typeName text := by simpa using hmem
      rfl
  | answered arguments refs x elapsed =>
      obtain rfl : a = .result x := by simpa using hmem
      exact ⟨elapsed, editNote, _, rfl⟩
  | _ => simp at hmem

/-- How `runOnce` ends for a thread that has made the marks `base`. -/
inductive Tried (s : Settings) (t : TicketId) (base : List Mark) (call : ToolCall) (schema : Json)
    (editNote : Option String) : List Mark → Except Exc ToolResult → Prop
  /-- won the claim, and stored what it hands on -/
  | completed (now : Time) (new : List Mark) (outcome : Except GatewayError ToolResult)
      (hended : Ended s call schema editNote new (handedOn outcome)) :
      Tried s t base call schema editNote
        (.completed t outcome :: (new ++ .started t call.arguments :: .claimed t now :: base))
        (handedOn outcome)
  /-- won the claim, and left it without a result -/
  | stranded (now : Time) (new : List Mark) (e : Exc) (hforeign : e.foreign = true)
      (hended : Ended s call schema editNote new (.error e)) :
      Tried s t base call schema editNote
        (new ++ .started t call.arguments :: .claimed t now :: base) (.error e)
  /-- another thread had stored this result -/
  | stored (ticket : Ticket) (r : ToolResult) (hresult : ticket.result = some r) :
      Tried s t base call schema editNote (.read t ticket :: base) (.ok r)
  | closed (m : Mark) (ownerLive : Bool)
      (hread : m = .missed t ∨ ∃ ticket, m = .read t ticket ∧ ticket.result = none) :
      Tried s t base call schema editNote (.closed t ownerLive :: m :: base) (.ok interrupted)
  | pending (m : Mark)
      (hread : m = .missed t ∨ ∃ ticket, m = .read t ticket ∧ ticket.result = none) :
      Tried s t base call schema editNote (m :: base) (.error (.gateway (.pendingApproval t)))

/-- A mark of a thread that tries to execute a ticket. -/
def Mark.trying : Mark → Bool
  | .claimed .. | .started .. | .completed .. | .closed .. | .read .. | .missed .. => true
  | m => m.inside

/-- What `runOnce` adds to the marks of a thread. -/
theorem Tried.mem {s : Settings} {t : TicketId} {base marks : List Mark} {call : ToolCall}
    {schema : Json} {editNote : Option String} {r : Except Exc ToolResult}
    (h : Tried s t base call schema editNote marks r) :
    ∀ m, m ∈ marks → m ∈ base ∨ m.trying = true := by
  have hinside : ∀ {new : List Mark} {r}, Ended s call schema editNote new r →
      ∀ m ∈ new, m.trying = true := fun hended m hm => by
    have hkind := hended.inside m hm
    cases m <;> first | rfl | cases hkind
  intro m hm
  cases h with
  | completed now new outcome hended =>
      simp only [List.mem_cons, List.mem_append] at hm
      rcases hm with rfl | hm | rfl | rfl | hm
      · exact Or.inr rfl
      · exact Or.inr (hinside hended m hm)
      · exact Or.inr rfl
      · exact Or.inr rfl
      · exact Or.inl hm
  | stranded now new e hforeign hended =>
      simp only [List.mem_cons, List.mem_append] at hm
      rcases hm with hm | rfl | rfl | hm
      · exact Or.inr (hinside hended m hm)
      · exact Or.inr rfl
      · exact Or.inr rfl
      · exact Or.inl hm
  | stored ticket r hresult =>
      rcases List.mem_cons.mp hm with rfl | hm
      · exact Or.inr rfl
      · exact Or.inl hm
  | closed m' ownerLive hread =>
      simp only [List.mem_cons] at hm
      rcases hm with rfl | rfl | hm
      · exact Or.inr rfl
      · rcases hread with rfl | ⟨ticket, rfl, -⟩ <;> exact Or.inr rfl
      · exact Or.inl hm
  | pending m' hread =>
      rcases List.mem_cons.mp hm with rfl | hm
      · rcases hread with rfl | ⟨ticket, rfl, -⟩ <;> exact Or.inr rfl
      · exact Or.inl hm

section
variable [TicketStore σ] [LawfulTicketStore σ] {s : Settings} {i : ℕ} {pre : List Mark}

/-- Another caller has the claim. -/
theorem lostClaim_spec {t : TicketId} {lease : Time} {ctx : CallContext} {call : ToolCall}
    {schema : Json} {editNote : Option String} :
    (ledger σ s).Spec i pre ctx (lostClaim t lease : StepM σ ToolResult) fun r _ marks =>
      Tried s t pre call schema editNote marks r := by
  have hclose : ∀ m, (m = .missed t ∨ ∃ ticket, m = .read t ticket ∧ ticket.result = none) →
      (ledger σ s).Spec i (m :: pre) ctx
        (do
          if ← Prog.lift (closeStaleClaim t lease interrupted) then return interrupted
          else throw (.gateway (.pendingApproval t)) : StepM σ ToolResult)
        fun r _ marks => Tried s t pre call schema editNote marks r := by
    intro m hm
    refine .lift_bind (closeStaleClaim_spec t lease) ?_
    rintro closed marks (⟨rfl, ownerLive, rfl⟩ | ⟨rfl, rfl⟩)
    · exact .pure (.closed m ownerLive hm)
    · exact .throw (.pending m hm)
  refine .lift_bind (getTicket_spec t) ?_
  rintro found marks (⟨ticket, rfl, rfl⟩ | ⟨rfl, rfl⟩)
  · cases hresult : ticket.result with
    | some r =>
        simp only [Option.bind_some, hresult]
        exact .pure (.stored ticket r hresult)
    | none =>
        simp only [Option.bind_some, hresult]
        exact hclose _ (Or.inr ⟨ticket, rfl, hresult⟩)
  · exact hclose _ (Or.inl rfl)

/-- The marks of a thread that got the claim and started the pipeline. -/
abbrev begun (t : TicketId) (now : Time) (arguments : Json) (base : List Mark) : List Mark :=
  .started t arguments :: .claimed t now :: base

/-- The outcome of the pipeline is stored. -/
theorem completeTicket_ended {t : TicketId} {now : Time} {call : ToolCall} {schema : Json}
    {editNote : Option String} {new : List Mark} {outcome : Except GatewayError ToolResult}
    (hidle : ∀ m ∈ pre, m.passive = true)
    (hended : Ended s call schema editNote new (handedOn outcome)) :
    (ledger σ s).Triple i (new ++ begun t now call.arguments pre)
      (completeTicket t outcome : Task σ (Except PyError Unit)) fun r marks => r = .ok () ∧
        marks = .completed t outcome :: (new ++ begun t now call.arguments pre) := by
  have hclaimed : .claimed t now ∈ new ++ begun t now call.arguments pre := by simp
  have hstarted : .started t call.arguments ∈ new ++ begun t now call.arguments pre := by simp
  refine completeTicket_spec outcome hclaimed hstarted (fun outcome' hmem => ?_) fun a hmem => ?_
  · rcases List.mem_append.mp hmem with hnew | hbase
    · cases hended.inside _ hnew
    · simp only [List.mem_cons, reduceCtorEq, false_or] at hbase
      cases hidle _ hbase
  · rcases List.mem_append.mp hmem with hnew | hbase
    · exact hended.yields hnew
    · simp only [List.mem_cons, reduceCtorEq, false_or] at hbase
      cases hidle _ hbase

/-- The pipeline with its errors kept. -/
theorem keepError_spec {t : TicketId} {now : Time} {call : ToolCall} {schema : Json}
    {editNote : Option String} {ctx : CallContext} {run : StepM σ ToolResult}
    (hidle : ∀ m ∈ pre, m.passive = true)
    (hrun : (ledger σ s).Spec i (begun t now call.arguments pre) ctx run fun r _ marks =>
      ∃ new, marks = new ++ begun t now call.arguments pre ∧ Ended s call schema editNote new r) :
    (ledger σ s).Spec i (begun t now call.arguments pre) ctx (tryCatch run (keepError t))
      fun r _ marks =>
        (∃ a new, r = .ok a ∧ marks = new ++ begun t now call.arguments pre ∧
          Ended s call schema editNote new (.ok a)) ∨
        ∃ e, r = .error e ∧ Tried s t pre call schema editNote marks (.error e) := by
  refine .tryCatch hrun ?_ ?_
  · rintro a ctx' marks ⟨new, rfl, hended⟩
    exact Or.inl ⟨a, new, rfl, rfl, hended⟩
  rintro e ctx' marks ⟨new, rfl, hended⟩
  cases e with
  | gateway e =>
      have hstore : (ledger σ s).Triple i (new ++ begun t now call.arguments pre)
          (completeTicket t (.error e) : Task σ (Except PyError Unit)) fun r marks => r = .ok () ∧
            marks = .completed t (.error e) :: (new ++ begun t now call.arguments pre) :=
        completeTicket_ended hidle hended
      refine .lift_bind hstore ?_
      rintro r marks ⟨rfl, rfl⟩
      refine orRaise_bind (fun _ _ => ?_) fun e' he' => by cases he'
      exact .throw (Or.inr ⟨_, rfl, .completed now new (.error e) hended⟩)
  | _ => exact .throw (Or.inr ⟨_, rfl, .stranded now new _ rfl hended⟩)

/-- The thread that got the claim may start the pipeline with the arguments that the
    verdict lets through. -/
theorem started_allowed {t : TicketId} {d : Decision} {now : Time} {arguments : Json}
    {grant : Grant} {call₀ : ToolCall} (hconsulted : .consulted call₀ grant ∈ pre)
    (hacted : .acted t d ∈ pre) (hidle : ∀ m ∈ pre, m.passive = true)
    (happroved : d.approved = true) (hargs : arguments = d.effective call₀.arguments)
    {trail : TrailOf Mark} (hlegal : Legal (Allowed s) trail)
    (hown : own i trail = .claimed t now :: pre) : Allowed s i (.started t arguments) trail := by
  have hmem : ∀ m, m ∈ Mark.claimed t now :: pre → (i, m) ∈ trail := fun m hm =>
    mem_own.mp (hown ▸ hm)
  have hpast : ∀ m, (i, m) ∈ trail → m = .claimed t now ∨ m.passive = true := fun m hm =>
    (List.mem_cons.mp (hown ▸ mem_own.mpr hm)).imp_right (hidle m)
  have hacted' := hmem _ (List.mem_cons_of_mem _ hacted)
  obtain ⟨c, hc, hdecision, -⟩ := cell_of_acted hlegal hacted'
  obtain ⟨grant', hgrant'⟩ := consulted_of_acted hlegal hacted' hc
  obtain ⟨hcall, -⟩ :=
    consulted_unique hlegal hgrant' (hmem _ (List.mem_cons_of_mem _ hconsulted))
  refine ⟨⟨c, hc, by rw [hdecision, happroved], by rw [hargs, hdecision, hcall]⟩,
    claimant_of_claimed hlegal (hmem _ List.mem_cons_self), fun a ha => ?_, fun a schema ha => ?_⟩
  · rcases hpast _ ha with heq | hpassive
    · cases heq
    · cases hpassive
  · rcases hpast _ ha with heq | hpassive
    · cases heq
    · cases hpassive

/-- A thread that got past the approval of the granted call `call₀` executes it
    with the arguments the verdict lets through. -/
theorem runOnce_spec {t : TicketId} {d : Decision} {lease : Time} {ctx : CallContext}
    {grant : Grant} (call₀ : ToolCall) (hgrant : ctx.grant = some grant)
    (hconsulted : .consulted call₀ grant ∈ pre) (hacted : .acted t d ∈ pre)
    (honly : ∀ t' d', .acted t' d' ∈ pre → d' = d) (hidle : ∀ m ∈ pre, m.passive = true)
    (happroved : d.approved = true) (hargs : ctx.call.arguments = d.effective call₀.arguments) :
    (ledger σ s).Spec i pre ctx (runOnce t lease (Pipeline.run (postApproval s []))) fun r _ marks =>
      Tried s t pre ctx.call grant.inputSchema ctx.bag.editNote marks r := by
  refine .lift_bind (claimTicket_spec hacted happroved) ?_
  rintro won marks (⟨rfl, now, rfl⟩ | ⟨rfl, rfl⟩)
  swap
  · exact lostClaim_spec
  refine .get_bind (.lift_bind (note_spec rfl fun trail hlegal hown => ?_) ?_)
  · exact started_allowed hconsulted hacted hidle happroved hargs hlegal hown
  rintro ⟨⟩ marks rfl
  have hrun : (ledger σ s).Spec i (begun t now ctx.call.arguments pre) ctx
      (Pipeline.run (postApproval s [])) fun r _ marks =>
        ∃ new, marks = new ++ begun t now ctx.call.arguments pre ∧
          Ended s ctx.call grant.inputSchema ctx.bag.editNote new r := by
    refine postApproval_spec hgrant (List.mem_cons_of_mem _ (List.mem_cons_of_mem _ hconsulted))
      (fun t' d' hmem => ?_) fun t' outcome hmem => ?_
    · simp only [List.mem_cons, reduceCtorEq, false_or] at hmem
      rw [honly t' d' hmem, hargs]
    · simp only [List.mem_cons, reduceCtorEq, false_or] at hmem
      cases hidle _ hmem
  refine (keepError_spec hidle hrun).bind ?_ ?_
  · rintro a ctx' marks (⟨a', new, heq, rfl, hended⟩ | ⟨e, heq, -⟩)
    · cases heq
      have hstore : (ledger σ s).Triple i (new ++ begun t now ctx.call.arguments pre)
          (completeTicket t (.ok a) : Task σ (Except PyError Unit)) fun r marks => r = .ok () ∧
            marks = .completed t (.ok a) :: (new ++ begun t now ctx.call.arguments pre) :=
        completeTicket_ended hidle hended
      refine .lift_bind hstore ?_
      rintro r marks ⟨rfl, rfl⟩
      refine orRaise_bind (fun _ _ => ?_) fun e' he' => by cases he'
      exact .pure (.completed now new (.ok a) hended)
    · cases heq
  · rintro e ctx' marks (⟨a', new, heq, -⟩ | ⟨e', heq, htried⟩)
    · cases heq
    · cases heq
      exact htried

end

end ToolGateway
