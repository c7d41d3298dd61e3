/-
  ToolGateway.Gateway.Failures

  What the audit log keeps of a failure.  A chain is taken apart into the steps' own
  codes and the audit wrappers around them; `Plays` gives its finished runs together
  with what each wrapper saw and recorded.
-/

import ToolGateway.Gateway.Scripts
import ToolGateway.Tickets.Memory

namespace ToolGateway

open Coroutine Py

-- ============================================================================
-- Chains with their wrappers
-- ============================================================================

/-- A step of a chain: its own code, and the event its errors are recorded under if it
    is audited. -/
structure Member (σ : Type) where
  tag : Tag
  stage : Option Stage := none
  order : ℤ := 0
  event : Option String
  code : Code σ

section
variable {σ : Type}

/-- Where the pipeline has it; one that is audited with the audit around its code. -/
def Member.placed (m : Member σ) : Placed σ where
  tag := m.tag
  stage := m.stage
  order := m.order
  code := match m.event with
    | some event => m.code.audited event
    | none => m.code

/-- The built-in steps every gateway has. -/
def alwaysMembers (s : Settings) : List (Member σ) :=
  [{ tag := .authorize, stage := some .beforeApproval, order := 100
     event := "authorize", code := Code.authorize },
   { tag := .validate, stage := some .afterApproval, order := 100
     event := "validate", code := Code.validateSchema s.checkArgs },
   { tag := .materialize, stage := some .afterApproval, order := 200
     event := "materialize", code := Code.materializeSecrets },
   { tag := .redact, stage := some .afterApproval, order := 300
     event := none, code := Code.redact s.redact }]

/-- The gateway's own steps. -/
def builtinMembers (s : Settings) : List (Member σ) :=
  alwaysMembers s ++
  if s.limited then
    [{ tag := .rateLimit, stage := some .beforeApproval, order := 50
       event := "rate_limit", code := Code.rateLimit }]
  else []

/-- The dispatch, around which nothing is audited. -/
def dispatchMember : Member σ := { tag := .dispatch, event := none, code := Code.dispatch }

section
variable [TicketStore σ]

end

-- ============================================================================
-- Runs
-- ============================================================================

/-- What the wrapper of an audited step sees and does. -/
inductive Report where
  /-- the step's own code raised this -/
  | raised (step : Tag) (e : GatewayError)
  /-- the step let through what `call_next` had raised -/
  | passed (step : Tag) (e : GatewayError)
  | recorded (event : AuditEvent)

/-- The finished runs of a program on a context, with their reports. -/
abbrev Reported (σ : Type) :=
  CallContext → List (Doing Input (World σ)) → List Report →
    Except Exc ToolResult × CallContext → Prop

/-- The exception `call_next` came back with. -/
def exceptionOf : Except Exc ToolResult → Option Exc
  | .ok _ => none
  | .error e => some e

/-- The finished runs of the code of a step, where `rest` gives those of `call_next` and
    `told` is the exception its last call came back with, before and after. -/
def Code.Plays (rest : Reported σ) : Code σ → Option Exc → CallContext →
    List (Doing Input (World σ)) → List Report → Option Exc →
    Except Exc ToolResult × CallContext → Prop
  | .ret r, told, ctx, ds, rep, told', out => ds = [] ∧ rep = [] ∧ told' = told ∧ out = (.ok r, ctx)
  | .raise e, told, ctx, ds, rep, told', out =>
      ds = [] ∧ rep = [] ∧ told' = told ∧ out = (.error e, ctx)
  | .own m k, told, ctx, ds, rep, told', out => ∃ ds₁ r ctx' ds₂, ds = ds₁ ++ ds₂ ∧
      (m.exec ctx).Takes ds₁ (r, ctx') ∧ (k r).Plays rest told ctx' ds₂ rep told' out
  | .next k, _, ctx, ds, rep, told', out => ∃ ds₁ rep₁ r ctx' ds₂ rep₂, ds = ds₁ ++ ds₂ ∧
      rep = rep₁ ++ rep₂ ∧ rest ctx ds₁ rep₁ (r, ctx') ∧
        (k r).Plays rest (exceptionOf r) ctx' ds₂ rep₂ told' out

/-- What `audited` writes to the log. -/
def errorEvent (event : String) (call : ToolCall) (e : GatewayError) : AuditEvent where
  event := event ++ ".error"
  tool := call.fullName
  agent := call.agentId
  fields := [("error", .str e.typeName), ("detail", .str e.str)]

/-- What the wrapper does once the step is left with this outcome. -/
inductive Wraps (event : String) (step : Tag) (told : Option Exc) :
    Except Exc ToolResult × CallContext → List (Doing Input (World σ)) → List Report → Prop
  | quiet {r : Except Exc ToolResult} {ctx : CallContext} (h : ∀ e, r ≠ .error (.gateway e)) :
      Wraps event step told (r, ctx) [] []
  | raised {e : GatewayError} {ctx : CallContext} {d : Doing Input (World σ)}
      (h : told ≠ some (.gateway e))
      (hd : d.after = { d.before with audit := d.before.audit ++ [errorEvent event ctx.call e] }) :
      Wraps event step told (.error (.gateway e), ctx) [d]
        [.raised step e, .recorded (errorEvent event ctx.call e)]
  | passed {e : GatewayError} {ctx : CallContext} {d : Doing Input (World σ)}
      (h : told = some (.gateway e))
      (hd : d.after = { d.before with audit := d.before.audit ++ [errorEvent event ctx.call e] }) :
      Wraps event step told (.error (.gateway e), ctx) [d]
        [.passed step e, .recorded (errorEvent event ctx.call e)]

/-- The finished runs of a step with its wrapper. -/
def Member.Plays (rest : Reported σ) (m : Member σ) : Reported σ := fun ctx ds rep out =>
  match m.event with
  | none => ∃ told, m.code.Plays rest none ctx ds rep told out
  | some event => ∃ ds₁ rep₁ told ds₂ rep₂, ds = ds₁ ++ ds₂ ∧ rep = rep₁ ++ rep₂ ∧
      m.code.Plays rest none ctx ds₁ rep₁ told out ∧ Wraps event m.tag told out ds₂ rep₂

/-- The finished runs of a chain. -/
def Plays : List (Member σ) → Reported σ
  | [] => fun ctx ds rep out =>
      ds = [] ∧ rep = [] ∧ out = (.error (.python .runtimeError), ctx)
  | m :: ms => m.Plays (Plays ms)

theorem Code.takes_iff_plays {rest : Reported σ} {n : StepM σ ToolResult}
    (hrest : ∀ {ctx ds out}, (n.exec ctx).Takes ds out ↔ ∃ rep, rest ctx ds rep out)
    {code : Code σ} (told : Option Exc) {ctx : CallContext} {ds : List (Doing Input (World σ))}
    {out : Except Exc ToolResult × CallContext} :
    ((code.handle n).exec ctx).Takes ds out ↔
      ∃ rep told', code.Plays rest told ctx ds rep told' out := by
  induction code generalizing told ctx ds with
  | ret r =>
      constructor
      · rintro ⟨rfl, rfl⟩
        exact ⟨[], told, rfl, rfl, rfl, rfl⟩
      · rintro ⟨rep, told', rfl, rfl, rfl, rfl⟩
        exact ⟨rfl, rfl⟩
  | raise e =>
      constructor
      · rintro ⟨rfl, rfl⟩
        exact ⟨[], told, rfl, rfl, rfl, rfl⟩
      · rintro ⟨rep, told', rfl, rfl, rfl, rfl⟩
        exact ⟨rfl, rfl⟩
  | own m k ih =>
      rw [handle, Prog.exec_attempt, Co.takes_bind]
      constructor
      · rintro ⟨ds₁, ⟨r, ctx'⟩, ds₂, rfl, hm, hk⟩
        obtain ⟨rep, told', hk⟩ := (ih r told).mp hk
        exact ⟨rep, told', ds₁, r, ctx', ds₂, rfl, hm, hk⟩
      · rintro ⟨rep, told', ds₁, r, ctx', ds₂, rfl, hm, hk⟩
        exact ⟨ds₁, (r, ctx'), ds₂, rfl, hm, (ih r told).mpr ⟨rep, told', hk⟩⟩
  | next k ih =>
      rw [handle, Prog.exec_attempt, Co.takes_bind]
      constructor
      · rintro ⟨ds₁, ⟨r, ctx'⟩, ds₂, rfl, hn, hk⟩
        obtain ⟨rep₁, hn⟩ := hrest.mp hn
        obtain ⟨rep₂, told', hk⟩ := (ih r _).mp hk
        exact ⟨rep₁ ++ rep₂, told', ds₁, rep₁, r, ctx', ds₂, rep₂, rfl, rfl, hn, hk⟩
      · rintro ⟨rep, told', ds₁, rep₁, r, ctx', ds₂, rep₂, rfl, rfl, hn, hk⟩
        exact ⟨ds₁, (r, ctx'), ds₂, rfl, hrest.mpr ⟨rep₁, hn⟩, (ih r _).mpr ⟨rep₂, told', hk⟩⟩

/-- The wrapper of a step that raised a `GatewayError` writes to the log, and nothing else. -/
theorem takes_onError {event : String} {e : GatewayError} {ctx : CallContext}
    {ds : List (Doing Input (World σ))} {out : Except Exc ToolResult × CallContext} :
    ((Code.onError event (.gateway e) : StepM σ ToolResult).exec ctx).Takes ds out ↔
      ∃ d, ds = [d] ∧ out = (.error (.gateway e), ctx) ∧ d.after =
        { d.before with audit := d.before.audit ++ [errorEvent event ctx.call e] } := by
  constructor
  · rintro ⟨d, ds', ⟨⟩, rfl, hb, rfl, rfl⟩
    refine ⟨d, rfl, rfl, ?_⟩
    injection hb with hb
    injection hb with _ hb
    exact hb.symm
  · rintro ⟨d, rfl, rfl, hd⟩
    refine ⟨d, [], (), rfl, ?_, rfl, rfl⟩
    rw [hd]
    rfl

/-- The finished runs of a step with its wrapper are those it is reported to have. -/
theorem Member.takes_iff_plays {rest : Reported σ} {n : StepM σ ToolResult}
    (hrest : ∀ {ctx ds out}, (n.exec ctx).Takes ds out ↔ ∃ rep, rest ctx ds rep out)
    {m : Member σ} {ctx : CallContext} {ds : List (Doing Input (World σ))}
    {out : Except Exc ToolResult × CallContext} :
    ((m.placed.code.handle n).exec ctx).Takes ds out ↔ ∃ rep, m.Plays rest ctx ds rep out := by
  obtain ⟨tag, stage, order, event, code⟩ := m
  cases event with
  | none =>
      show ((code.handle n).exec ctx).Takes ds out ↔ ∃ rep told, code.Plays rest none ctx ds rep told out
      exact Code.takes_iff_plays hrest none
  | some event =>
      show (((code.audited event).handle n).exec ctx).Takes ds out ↔ ∃ rep ds₁ rep₁ told ds₂ rep₂,
        ds = ds₁ ++ ds₂ ∧ rep = rep₁ ++ rep₂ ∧ code.Plays rest none ctx ds₁ rep₁ told out ∧
          Wraps event tag told out ds₂ rep₂
      rw [Code.handle_audited, Prog.tryCatch_eq_attempt, Prog.exec_attempt, Co.takes_bind]
      constructor
      · rintro ⟨ds₁, ⟨r, ctx'⟩, ds₂, rfl, hcode, hwrap⟩
        obtain ⟨rep₁, told, hcode⟩ := (Code.takes_iff_plays hrest none).mp hcode
        cases r with
        | ok a =>
            obtain ⟨rfl, rfl⟩ := hwrap
            refine ⟨_, ds₁, rep₁, told, [], [], rfl, rfl, hcode, .quiet fun e heq => ?_⟩
            cases heq
        | error exc =>
            cases exc with
            | gateway e =>
                obtain ⟨d, rfl, rfl, hd⟩ := takes_onError.mp hwrap
                by_cases htold : told = some (.gateway e)
                · exact ⟨_, ds₁, rep₁, told, [d], _, rfl, rfl, hcode, .passed htold hd⟩
                · exact ⟨_, ds₁, rep₁, told, [d], _, rfl, rfl, hcode, .raised htold hd⟩
            | _ =>
                obtain ⟨rfl, rfl⟩ := hwrap
                refine ⟨_, ds₁, rep₁, told, [], [], rfl, rfl, hcode, .quiet fun e heq => ?_⟩
                cases heq
      · rintro ⟨rep, ds₁, rep₁, told, ds₂, rep₂, rfl, rfl, hcode, hwrap⟩
        refine ⟨ds₁, out, ds₂, rfl, (Code.takes_iff_plays hrest none).mpr ⟨rep₁, told, hcode⟩, ?_⟩
        cases hwrap with
        | @quiet r ctx' hquiet =>
            cases r with
            | ok a => exact ⟨rfl, rfl⟩
            | error exc =>
                cases exc with
                | gateway e => exact absurd rfl (hquiet e)
                | _ => exact ⟨rfl, rfl⟩
        | raised _ hd => exact takes_onError.mpr ⟨_, rfl, rfl, hd⟩
        | passed _ hd => exact takes_onError.mpr ⟨_, rfl, rfl, hd⟩

/-- The finished runs of the pipeline are those its chain is reported to have. -/
theorem takes_iff_plays {ms : List (Member σ)} {ctx : CallContext}
    {ds : List (Doing Input (World σ))} {out : Except Exc ToolResult × CallContext} :
    ((Pipeline.run (ms.map fun m => m.placed.step)).exec ctx).Takes ds out ↔
      ∃ rep, Plays ms ctx ds rep out := by
  induction ms generalizing ctx ds out with
  | nil =>
      constructor
      · rintro ⟨rfl, rfl⟩
        exact ⟨[], rfl, rfl, rfl⟩
      · rintro ⟨rep, rfl, rfl, rfl⟩
        exact ⟨rfl, rfl⟩
  | cons m ms ih => exact Member.takes_iff_plays ih

-- ============================================================================
-- Failures and what is recorded of them
-- ============================================================================

/-- A ticket handle is not a failure. -/
def GatewayError.IsFailure (e : GatewayError) : Prop := ∀ t, e ≠ .pendingApproval t

/-- The error events recorded, in order. -/
def recordings (rep : List Report) : List AuditEvent :=
  rep.filterMap fun
    | .recorded event => some event
    | _ => none

/-- The errors that audited steps were left with, in order. -/
def errors (rep : List Report) : List (Tag × GatewayError) :=
  rep.filterMap fun
    | .raised step e | .passed step e => some (step, e)
    | .recorded _ => none

theorem recordings_append (rep rep' : List Report) :
    recordings (rep ++ rep') = recordings rep ++ recordings rep' := List.filterMap_append

theorem errors_append (rep rep' : List Report) :
    errors (rep ++ rep') = errors rep ++ errors rep' := List.filterMap_append

theorem mem_errors {rep : List Report} {step : Tag} {e : GatewayError}
    (h : .raised step e ∈ rep ∨ .passed step e ∈ rep) : (step, e) ∈ errors rep := by
  rcases h with h | h
  · exact List.mem_filterMap.mpr ⟨_, h, rfl⟩
  · exact List.mem_filterMap.mpr ⟨_, h, rfl⟩

/-- The event was recorded by the wrapper of a step with this tag. -/
def Records (ms : List (Member σ)) (x : Tag × GatewayError) (recorded : AuditEvent) : Prop :=
  ∃ m ∈ ms, ∃ event call, m.tag = x.1 ∧ m.event = some event ∧ recorded = errorEvent event call x.2

theorem Records.later {m : Member σ} {ms : List (Member σ)} {x : Tag × GatewayError}
    {recorded : AuditEvent} (h : Records ms x recorded) : Records (m :: ms) x recorded := by
  obtain ⟨m', hm', hrecords⟩ := h
  exact ⟨m', List.mem_cons_of_mem m hm', hrecords⟩

/-- What a run has recorded is what audited steps were left with. -/
def Tallies (ms : List (Member σ)) (rep : List Report) : Prop :=
  List.Forall₂ (Records ms) (errors rep) (recordings rep)

theorem Tallies.append {ms : List (Member σ)} {rep rep' : List Report} (h : Tallies ms rep)
    (h' : Tallies ms rep') : Tallies ms (rep ++ rep') := by
  unfold Tallies
  rw [errors_append, recordings_append]
  exact List.rel_append h h'

/-- A failure that the code of an audited step raises is the one thing recorded, as that
    step's. -/
def RecordedOnce (ms : List (Member σ)) (rep : List Report) : Prop :=
  ∀ step e, .raised step e ∈ rep → e.IsFailure →
    ∃ event, recordings rep = [event] ∧ Records ms (step, e) event

/-- Once is as often as an audited step was left with an error. -/
theorem recordedOnce_iff_errors {ms : List (Member σ)} {rep : List Report} (h : Tallies ms rep)
    {step : Tag} {e : GatewayError} (hraised : .raised step e ∈ rep) (hfailure : e.IsFailure) :
    RecordedOnce ms rep ↔ (errors rep).length = 1 := by
  have htally : List.Forall₂ (Records ms) (errors rep) (recordings rep) := h
  constructor
  · intro honce
    obtain ⟨event, hrecorded, -⟩ := honce step e hraised hfailure
    rw [htally.length_eq, hrecorded, List.length_singleton]
  · intro hone step' e' hraised' hfailure'
    obtain ⟨x, hx⟩ := List.length_eq_one_iff.mp hone
    have hmem := mem_errors (Or.inl hraised')
    rw [hx, List.mem_singleton] at hmem
    rw [hx, ← hmem] at htally
    obtain ⟨event, _, hrecords, hnil, heq⟩ := List.forall₂_cons_left_iff.mp htally
    rw [List.forall₂_nil_left_iff.mp hnil] at heq
    exact ⟨event, heq, hrecords⟩

section
variable [TicketStore σ]

end

-- ============================================================================
-- What a step does with the errors of call_next
-- ============================================================================

/-- The program can end in this. -/
def EndsIn {α : Type} (m : StepM σ α) (r : Except Exc α) : Prop :=
  ∃ ctx ds ctx', (m.exec ctx).Takes ds (r, ctx')

/-- The code raises, and a `GatewayError` only where this exception is one. -/
def Code.Hands (exc : Exc) : Code σ → Prop
  | .ret _ => False
  | .raise e => exc.foreign = true → e.foreign = true
  | .own m k => ∀ r, EndsIn m r → (k r).Hands exc
  | .next _ => False

/-- The code returns, or raises something that is no `GatewayError`. -/
def Code.Ends : Code σ → Prop
  | .ret _ => True
  | .raise e => e.foreign = true
  | .own m k => ∀ r, EndsIn m r → (k r).Ends
  | .next _ => False

/-- What `call_next` raises leaves the code again, as it is or replaced by another
    exception. -/
def Code.LetsThrough : Code σ → Prop
  | .ret _ => True
  | .raise _ => True
  | .own m k => ∀ r, EndsIn m r → (k r).LetsThrough
  | .next k => (∀ a, (k (.ok a)).LetsThrough) ∧ ∀ e, (k (.error e)).Hands e

/-- The code lets errors through, and raises no `GatewayError` once `call_next` has
    returned. -/
def Code.Quiet : Code σ → Prop
  | .ret _ => True
  | .raise _ => True
  | .own m k => ∀ r, EndsIn m r → (k r).Quiet
  | .next k => (∀ a, (k (.ok a)).Ends) ∧ ∀ e, (k (.error e)).Hands e

theorem endsIn_lift {α : Type} {c : Task σ α} {r : Except Exc α}
    (h : EndsIn (Prog.lift c) r) : ∃ a, r = .ok a := by
  obtain ⟨ctx, ds, ctx', h⟩ := h
  obtain ⟨ds₁, a, ds₂, -, -, -, heq⟩ := Co.takes_bind.mp h
  exact ⟨a.1, (congrArg Prod.fst heq).symm⟩

theorem endsIn_orRaise {α : Type} {answer : Except PyError α} {e : Exc}
    (h : EndsIn (orRaise answer : StepM σ α) (.error e)) : e.foreign = true := by
  obtain ⟨ctx, ds, ctx', h⟩ := h
  cases answer with
  | ok a => cases h.2
  | error e' =>
      obtain rfl := Except.error.inj (congrArg Prod.fst h.2)
      rfl

namespace Code

variable {α : Type}

theorem Ends.letsThrough {code : Code σ} (h : code.Ends) : code.LetsThrough := by
  induction code with
  | ret r => trivial
  | raise e => trivial
  | own m k ih => exact fun r hr => ih r (h r hr)
  | next k ih => exact h.elim

theorem Quiet.letsThrough {code : Code σ} (h : code.Quiet) : code.LetsThrough := by
  induction code with
  | ret r => trivial
  | raise e => trivial
  | own m k ih => exact fun r hr => ih r (h r hr)
  | next k ih => exact ⟨fun a => (h.1 a).letsThrough, h.2⟩

theorem letsThrough_await {m : StepM σ α} {f : α → Code σ} (h : ∀ a, (f a).LetsThrough) :
    (await m f).LetsThrough := by
  intro r _
  cases r with
  | ok a => exact h a
  | error e => trivial

theorem quiet_await {m : StepM σ α} {f : α → Code σ} (h : ∀ a, (f a).Quiet) :
    (await m f).Quiet := by
  intro r _
  cases r with
  | ok a => exact h a
  | error e => trivial

theorem quiet_callNext : (callNext : Code σ).Quiet := ⟨fun _ => trivial, fun _ => id⟩

-- The built-in steps let errors through; only the redactor may raise one of its own then.

theorem quiet_rateLimit : (rateLimit : Code σ).Quiet := by
  refine quiet_await fun ctx => quiet_await fun admitted => ?_
  cases admitted with
  | true => exact quiet_callNext
  | false => trivial

theorem quiet_authorize : (authorize : Code σ).Quiet := by
  refine quiet_await fun ctx => quiet_await fun answer => quiet_await fun granted => ?_
  cases granted with
  | none => trivial
  | some grant => exact quiet_await fun _ => quiet_await fun _ => quiet_callNext

theorem quiet_validateSchema (checkArgs : Json → Json → Except PyError (List String)) :
    (validateSchema checkArgs : Code σ).Quiet := by
  refine quiet_await fun ctx => quiet_await fun errors => ?_
  split
  · exact quiet_await fun _ => quiet_callNext
  · trivial

theorem quiet_materializeSecrets : (materializeSecrets : Code σ).Quiet := by
  refine quiet_await fun ctx => quiet_await fun answer => ?_
  cases answer with
  | error e => trivial
  | ok resolved =>
      refine quiet_await fun _ => ?_
      split
      · exact quiet_await fun _ => quiet_await fun _ => quiet_callNext
      · exact quiet_callNext

theorem letsThrough_redact (check : ToolResult → String → Except Exc ToolResult) :
    (redact check : Code σ).LetsThrough := by
  refine ⟨fun result => letsThrough_await fun ctx => ?_, fun _ => id⟩
  split
  · trivial
  · exact letsThrough_await fun _ => trivial
  · trivial

theorem quiet_dispatch : (dispatch : Code σ).Quiet := by
  refine quiet_await fun ctx => quiet_await fun started => quiet_await fun x => ?_
  split
  · exact quiet_await fun _ => trivial
  · exact quiet_await fun _ => quiet_await fun _ => trivial

section
variable [TicketStore σ]

/-- An outcome that is kept is raised again, if the store takes it. -/
theorem endsIn_keepError {t : TicketId} {exc : Exc} {r : Except Exc ToolResult}
    (h : EndsIn (keepError t exc : StepM σ ToolResult) r) :
    ∃ e, r = .error e ∧ (exc.foreign = true → e.foreign = true) := by
  obtain ⟨ctx, ds, ctx', h⟩ := h
  cases exc with
  | gateway e =>
      obtain ⟨d, ds', answer, rfl, -, h⟩ := h
      cases answer with
      | ok _ => exact ⟨_, (congrArg Prod.fst h.2).symm, id⟩
      | error e' => exact ⟨.python e', (congrArg Prod.fst h.2).symm, fun _ => rfl⟩
  | _ => exact ⟨_, (congrArg Prod.fst h.2).symm, id⟩

theorem quiet_runOnce (t : TicketId) (lease : Time) : (runOnce t lease : Code σ).Quiet := by
  refine quiet_await fun won => ?_
  split
  · refine quiet_await fun ctx => quiet_await fun _ => ⟨fun result => ?_, fun exc => ?_⟩
    · -- the result is stored: only the store can fail then
      intro answer hanswer
      obtain ⟨answer, rfl⟩ := endsIn_lift hanswer
      intro r hr
      cases r with
      | ok _ => trivial
      | error e => exact endsIn_orRaise hr
    · intro r hr
      obtain ⟨e, rfl, he⟩ := endsIn_keepError hr
      exact he
  · exact quiet_await fun _ => trivial

theorem quiet_enforce (t : TicketId) (d : Decision) (lease : Time) :
    (enforce t d lease : Code σ).Quiet :=
  quiet_await fun _ => quiet_await fun _ => quiet_await fun _ => quiet_runOnce t lease

theorem quiet_approvalGate (s : GateSettings) : (approvalGate s : Code σ).Quiet := by
  have hrun : ∀ t ctx mode, (decideAndRun s t ctx mode : Code σ).Quiet := by
    intro t ctx mode
    unfold decideAndRun
    split
    · trivial
    · exact quiet_await fun _ => quiet_await fun _ => quiet_await fun _ =>
        quiet_await fun _ => quiet_await fun _ => quiet_await fun _ => quiet_runOnce t s.lease
  refine quiet_await fun ctx => ?_
  dsimp only
  split
  · exact quiet_callNext
  · refine quiet_await fun answer => quiet_await fun t => quiet_await fun _ => ?_
    split
    · refine quiet_await fun failure => ?_
      cases failure with
      | none => exact hrun t ctx _
      | some error => exact quiet_await fun _ => hrun t ctx _
    · exact hrun t ctx _

end

theorem Hands.ends {rest : Reported σ} {exc : Exc} {code : Code σ} (hcode : code.Hands exc)
    {told told' : Option Exc} {ctx : CallContext} {ds : List (Doing Input (World σ))}
    {rep : List Report} {out : Except Exc ToolResult × CallContext}
    (h : code.Plays rest told ctx ds rep told' out) :
    rep = [] ∧ ∃ e, out.1 = .error e ∧ (exc.foreign = true → e.foreign = true) := by
  induction code generalizing told ctx ds rep with
  | ret r => exact hcode.elim
  | raise e =>
      obtain ⟨-, rfl, rfl, rfl⟩ := h
      exact ⟨rfl, e, rfl, hcode⟩
  | own m k ih =>
      obtain ⟨ds₁, r, ctx', ds₂, -, hm, h⟩ := h
      exact ih r (hcode r ⟨_, _, _, hm⟩) h
  | next k ih => exact hcode.elim

theorem Ends.ends {rest : Reported σ} {code : Code σ} (hcode : code.Ends)
    {told told' : Option Exc} {ctx : CallContext} {ds : List (Doing Input (World σ))}
    {rep : List Report} {out : Except Exc ToolResult × CallContext}
    (h : code.Plays rest told ctx ds rep told' out) :
    rep = [] ∧ ∀ e, out.1 = .error e → e.foreign = true := by
  induction code generalizing told ctx ds rep with
  | ret r =>
      obtain ⟨-, rfl, rfl, rfl⟩ := h
      refine ⟨rfl, fun e heq => ?_⟩
      cases heq
  | raise e =>
      obtain ⟨-, rfl, rfl, rfl⟩ := h
      refine ⟨rfl, fun e' heq => ?_⟩
      obtain rfl := Except.error.inj heq
      exact hcode
  | own m k ih =>
      obtain ⟨ds₁, r, ctx', ds₂, -, hm, h⟩ := h
      exact ih r (hcode r ⟨_, _, _, hm⟩) h
  | next k ih => exact hcode.elim

end Code

-- ============================================================================
-- How far an error is carried
-- ============================================================================

/-- The audited steps among these. -/
def auditedOf (ms : List (Member σ)) : List (Member σ) := ms.filter fun m => m.event.isSome

/-- If an audited step of this chain was left with an error, one was the first to be, and
    after it every audited step around it. -/
def Origin (ms : List (Member σ)) (rep : List Report) : Prop :=
  rep = [] ∨ ∃ pre m post e, ms = pre ++ m :: post ∧
    (errors rep).head? = some (m.tag, e) ∧ (errors rep).length = (auditedOf pre).length + 1

/-- The same of the last steps of the chain: what came from them was replaced by an
    exception that no step records. -/
def Within (ms : List (Member σ)) (rep : List Report) : Prop :=
  ∃ outer inner, ms = outer ++ inner ∧ Origin inner rep

theorem Origin.within {ms : List (Member σ)} {rep : List Report} (h : Origin ms rep) :
    Within ms rep := ⟨[], ms, rfl, h⟩

theorem Within.cons {ms : List (Member σ)} {rep : List Report} (h : Within ms rep)
    (m : Member σ) : Within (m :: ms) rep := by
  obtain ⟨outer, inner, rfl, horigin⟩ := h
  exact ⟨m :: outer, inner, rfl, horigin⟩

/-- An audited step that is left with a `GatewayError` is the first one, or one more. -/
theorem Origin.audited {ms : List (Member σ)} {rep rep' : List Report} (h : Origin ms rep)
    {m : Member σ} (hm : m.event.isSome = true) {e : GatewayError}
    (hleft : errors rep' = [(m.tag, e)]) : Origin (m :: ms) (rep ++ rep') := by
  right
  rw [errors_append, hleft]
  obtain rfl | ⟨pre, p, post, e', rfl, hfirst, hcount⟩ := h
  · exact ⟨[], m, ms, e, rfl, rfl, rfl⟩
  · refine ⟨m :: pre, p, post, e', rfl, ?_, ?_⟩
    · rw [List.head?_append, hfirst]
      rfl
    · rw [List.length_append, hcount, auditedOf, auditedOf,
        List.filter_cons_of_pos (by simpa using hm), List.length_singleton, List.length_cons]

/-- What a run has reported, by its end, where errors of the steps `inner` are contained
    and those of the steps `outer` are not; `strict` if a contained one was never replaced
    on its way. -/
structure Carried (strict : Prop) (outer inner : List (Member σ)) (rep : List Report)
    (r : Except Exc ToolResult) : Prop where
  returned : ∀ a, r = .ok a → Within inner rep ∧ (strict → Origin inner rep)
  failed : ∀ e, r = .error e → e.foreign = false → Origin outer rep
  broken : ∀ e, r = .error e → e.foreign = true → Within outer rep ∨ Within inner rep

variable {strict : Prop} {outer inner : List (Member σ)}

/-- Recorded once if nothing audited among these steps stands before the one that raised
    the failure, and where that is `sharp`, only then. -/
def Positional (those ms : List (Member σ)) (rep : List Report) (step : Tag) (sharp : Prop) :
    Prop :=
  ∃ pre m post, those = pre ++ m :: post ∧ m.tag = step ∧
    ((∀ p ∈ pre, p.event = none) → RecordedOnce ms rep) ∧
    (sharp → RecordedOnce ms rep → ∀ p ∈ pre, p.event = none)

theorem auditedOf_length {ms : List (Member σ)} :
    (auditedOf ms).length = 0 ↔ ∀ p ∈ ms, p.event = none := by
  rw [List.length_eq_zero_iff, auditedOf, List.filter_eq_nil_iff]
  simp

/-- The failure was raised first. -/
structure RaisedFirst (rep : List Report) (step : Tag) (e : GatewayError) : Prop where
  failure : e.IsFailure
  raised : .raised step e ∈ rep
  first : (errors rep).head? = some (step, e)

theorem Origin.positional {those ms : List (Member σ)} {rep : List Report} (h : Origin those rep)
    (htally : Tallies ms rep) {step : Tag} {e : GatewayError} (hraised : RaisedFirst rep step e)
    (sharp : Prop) : Positional those ms rep step sharp := by
  have honce := recordedOnce_iff_errors htally hraised.raised hraised.failure
  obtain rfl | ⟨pre, m, post, e', rfl, hfirst, hcount⟩ := h
  · cases hraised.raised
  have htag : m.tag = step :=
    congrArg Prod.fst (Option.some.inj (hfirst.symm.trans hraised.first))
  rw [hcount] at honce
  refine ⟨pre, m, post, rfl, htag, fun hnone => ?_, fun _ hrecorded => ?_⟩
  · rw [honce, auditedOf_length.mpr hnone]
  · exact auditedOf_length.mp (by have := honce.mp hrecorded; omega)

theorem Within.positional {those ms : List (Member σ)} {rep : List Report} (h : Within those rep)
    (htally : Tallies ms rep) {step : Tag} {e : GatewayError} (hraised : RaisedFirst rep step e)
    {sharp : Prop} (hsharp : ¬sharp) : Positional those ms rep step sharp := by
  obtain ⟨outer, inner, rfl, horigin⟩ := h
  obtain ⟨pre, m, post, rfl, htag, honce, -⟩ := horigin.positional htally hraised sharp
  refine ⟨outer ++ pre, m, post, (List.append_assoc ..).symm, htag, fun hnone => ?_,
    fun h => absurd h hsharp⟩
  exact honce fun p hp => hnone p (List.mem_append_right outer hp)

/-- No exception but a `GatewayError` ends the run. -/
def EndsInGateway (r : Except Exc ToolResult) : Prop := ∀ e, r = .error e → e.foreign = false

theorem Carried.positional {ms : List (Member σ)} {rep : List Report} {r : Except Exc ToolResult}
    (h : Carried strict outer inner rep r) (htally : Tallies ms rep) {step : Tag}
    {e : GatewayError} (hraised : RaisedFirst rep step e) :
    Positional outer ms rep step (strict ∧ EndsInGateway r) ∨
      Positional inner ms rep step (strict ∧ EndsInGateway r) := by
  cases r with
  | ok a =>
      right
      by_cases hstrict : strict
      · exact ((h.returned a rfl).2 hstrict).positional htally hraised _
      · exact (h.returned a rfl).1.positional htally hraised fun hsharp => hstrict hsharp.1
  | error exc =>
      cases hexc : exc.foreign with
      | false => exact Or.inl ((h.failed exc rfl hexc).positional htally hraised _)
      | true =>
          have hsharp : ¬(strict ∧ EndsInGateway (.error exc)) := by
            rintro ⟨-, hgateway⟩
            rw [hgateway exc rfl] at hexc
            cases hexc
          exact (h.broken exc rfl hexc).imp (fun hw => hw.positional htally hraised hsharp)
            fun hw => hw.positional htally hraised hsharp

-- ============================================================================
-- Every gateway
-- ============================================================================

variable [TicketStore σ]

/-- A step that the gateway brings, from the limiter to the dispatch. -/
def Member.BuiltIn (s : Settings) (m : Member σ) : Prop :=
  m ∈ builtinMembers s ∨ m = dispatchMember ∨
    m = { tag := .gate, event := "approval", code := Code.approvalGate s.gate } ∨
    ∃ t d, m = { tag := .enforce, event := none, code := Code.enforce t d s.gate.lease }

/-- What the built-in steps do with errors. -/
theorem Member.BuiltIn.letsThrough {s : Settings} {m : Member σ} (h : m.BuiltIn s) :
    m.code.LetsThrough ∧ (m.tag ≠ .redact → m.code.Quiet) := by
  have hquiet : m.code.Quiet → m.code.LetsThrough ∧ (m.tag ≠ .redact → m.code.Quiet) :=
    fun h => ⟨h.letsThrough, fun _ => h⟩
  rcases h with hm | rfl | rfl | ⟨t, d, rfl⟩
  · rcases List.mem_append.mp hm with hm | hm
    · simp only [alwaysMembers, List.mem_cons, List.not_mem_nil, or_false] at hm
      rcases hm with rfl | rfl | rfl | rfl
      · exact hquiet Code.quiet_authorize
      · exact hquiet (Code.quiet_validateSchema s.checkArgs)
      · exact hquiet Code.quiet_materializeSecrets
      · exact ⟨Code.letsThrough_redact s.redact, fun hne => absurd rfl hne⟩
    · split at hm
      · rw [List.mem_singleton.mp hm] at hquiet ⊢
        exact hquiet Code.quiet_rateLimit
      · cases hm
  · exact hquiet Code.quiet_dispatch
  · exact hquiet (Code.quiet_approvalGate s.gate)
  · exact hquiet (Code.quiet_enforce t d s.gate.lease)

end

end ToolGateway
