/-
  ToolGateway.Gateway.Scripts

  Steps as their authors write them.  The code of a step awaits programs of its own
  and `call_next`, and goes on with what these returned or raised.  Here are the codes
  of the built-in steps, of the audit wrapper and of an application's steps, each of
  them equal to the step it belongs to.
-/

import ToolGateway.Coroutine.Paths
import ToolGateway.Gateway.Assembly

namespace ToolGateway

open Coroutine Py

/-- The code of a step, from one await to the next. -/
inductive Code (σ : Type) : Type 1 where
  | ret (r : ToolResult)
  | raise (e : Exc)
  | own {β : Type} (m : StepM σ β) (k : Except Exc β → Code σ)
  | next (k : Except Exc ToolResult → Code σ)

namespace Code

section
variable {σ α : Type}

/-- `handle_call(ctx, call_next)` -/
def handle (callNext : StepM σ ToolResult) : Code σ → StepM σ ToolResult
  | ret r => pure r
  | raise e => throw e
  | own m k => Prog.attempt m fun r => (k r).handle callNext
  | next k => Prog.attempt callNext fun r => (k r).handle callNext

/-- Go on with a result; an exception leaves the step. -/
def onward (f : α → Code σ) : Except Exc α → Code σ
  | .ok a => f a
  | .error e => raise e

/-- `await` of a program of its own. -/
def await (m : StepM σ α) (f : α → Code σ) : Code σ := own m (onward f)

/-- `return await call_next(ctx)` -/
def callNext : Code σ := next (onward ret)

variable {n : StepM σ ToolResult}

theorem handle_onward (f : α → Code σ) (r : Except Exc α) :
    (onward f r).handle n = Prog.onward (fun a => (f a).handle n) r := by
  cases r <;> rfl

@[simp] theorem handle_await (m : StepM σ α) (f : α → Code σ) :
    (await m f).handle n = m >>= fun a => (f a).handle n := by
  rw [Prog.bind_eq_attempt]
  exact congrArg _ (funext (handle_onward f))

@[simp] theorem handle_callNext : (callNext : Code σ).handle n = n := by
  refine Prog.ext_exec fun ctx => ?_
  refine Eq.trans ?_ (Co.bind_ret (n.exec ctx))
  refine congrArg _ (funext fun x => ?_)
  obtain ⟨r, ctx'⟩ := x
  cases r <;> rfl

/-- `await call_next(ctx)`, its exception left alone. -/
theorem handle_next_onward (f : ToolResult → Code σ) :
    (next (onward f)).handle n = n >>= fun r => (f r).handle n := by
  rw [Prog.bind_eq_attempt]
  exact congrArg _ (funext (handle_onward f))

@[simp] theorem handle_ret (r : ToolResult) : (ret r : Code σ).handle n = pure r := rfl

@[simp] theorem handle_raise (e : Exc) : (raise e : Code σ).handle n = throw e := rfl

-- The audit wrapper ----------------------------------------------------------------

/-- Record a `GatewayError` as `<event>.error`, and let it go on. -/
def recorded (event : String) (exc : Exc) : Code σ :=
  match exc with
  | .gateway e =>
      await (audit (event ++ ".error") [("error", .str e.typeName), ("detail", .str e.str)]) fun _ =>
        raise exc
  | _ => raise exc

/-- The code inside `audited`. -/
def audited (event : String) : Code σ → Code σ
  | ret r => ret r
  | raise e => recorded event e
  | own m k => own m fun r => (k r).audited event
  | next k => next fun r => (k r).audited event

/-- What `audited` does with an exception. -/
def onError (event : String) (exc : Exc) : StepM σ ToolResult := do
  match exc with
  | .gateway e =>
      audit (event ++ ".error") [("error", .str e.typeName), ("detail", .str e.str)]
      throw exc
  | _ => throw exc

theorem handle_recorded (event : String) (exc : Exc) :
    (recorded event exc : Code σ).handle n = onError event exc := by
  cases exc with
  | gateway e => exact handle_await _ _
  | _ => rfl

theorem handle_audited (event : String) (code : Code σ) :
    (code.audited event).handle n = tryCatch (code.handle n) (onError event) := by
  rw [Prog.tryCatch_eq_attempt]
  induction code with
  | ret r => rfl
  | raise e => exact handle_recorded event e
  | own m k ih =>
      show Prog.attempt m _ = Prog.attempt (Prog.attempt m _) _
      rw [Prog.attempt_assoc]
      exact congrArg _ (funext ih)
  | next k ih =>
      show Prog.attempt n _ = Prog.attempt (Prog.attempt n _) _
      rw [Prog.attempt_assoc]
      exact congrArg _ (funext ih)

end

-- ============================================================================
-- The built-in steps
-- ============================================================================

section
variable {σ : Type} {n : StepM σ ToolResult}

/-- `RateLimit` -/
def rateLimit : Code σ :=
  await get fun ctx =>
  await (Prog.atomic fun slot w =>
    some (slot.input.admitCall ctx.call.agentId ctx.call.fullName, w)) fun admitted =>
  if admitted then callNext
  else raise (.gateway (.rateLimited ("rate limit exceeded for agent " ++ ctx.call.agentId)))

theorem handle_rateLimit : (rateLimit : Code σ).handle n = RateLimit.handleCall n := by
  refine (handle_await _ _).trans (bind_congr fun ctx => ?_)
  refine (handle_await _ _).trans (bind_congr fun admitted => ?_)
  cases admitted with
  | true => exact handle_callNext
  | false => rfl

/-- `Authorize` -/
def authorize : Code σ :=
  await get fun ctx =>
  await (Prog.lift (grantFor ctx.call)) fun answer =>
  await (orRaise answer) fun granted =>
  match granted with
  | none => raise (.gateway (.toolNotAllowed ("not allowed: " ++ ctx.call.fullName)))
  | some grant =>
      await (modify fun ctx => { ctx with grant := grant }) fun _ =>
      await (audit "authorized" [("approval_mode", .str grant.approvalMode.value)]) fun _ =>
      callNext

theorem handle_authorize : (authorize : Code σ).handle n = Authorize.handleCall n := by
  refine (handle_await _ _).trans (bind_congr fun ctx => ?_)
  refine (handle_await _ _).trans (bind_congr fun answer => ?_)
  refine (handle_await _ _).trans (bind_congr fun granted => ?_)
  cases granted with
  | none => rfl
  | some grant =>
      refine (handle_await _ _).trans (bind_congr fun _ => ?_)
      refine (handle_await _ _).trans (bind_congr fun _ => ?_)
      exact handle_callNext

/-- `ValidateSchema` -/
def validateSchema (checkArgs : Json → Json → Except PyError (List String)) : Code σ :=
  await get fun ctx =>
  await (orRaise (checkArgs ctx.call.arguments ctx.inputSchema)) fun errors =>
  if errors = [] then
    await (Prog.lift (note (.validated ctx.call.arguments ctx.inputSchema))) fun _ => callNext
  else raise (.gateway (.schemaInvalid errors))

theorem handle_validateSchema (checkArgs : Json → Json → Except PyError (List String)) :
    (validateSchema checkArgs : Code σ).handle n = (ValidateSchema checkArgs).handleCall n := by
  refine (handle_await _ _).trans (bind_congr fun ctx => ?_)
  refine (handle_await _ _).trans (bind_congr fun errors => ?_)
  by_cases hnone : errors = []
  · rw [if_pos hnone, if_pos hnone]
    refine (handle_await _ _).trans (bind_congr fun _ => ?_)
    exact handle_callNext
  · rw [if_neg hnone, if_neg hnone]
    rfl

/-- `MaterializeSecrets` -/
def materializeSecrets : Code σ :=
  await get fun ctx =>
  await (Prog.atomic fun slot w =>
    let answer := slot.input.materialize ctx.call.arguments ctx.call.upstreamId ctx.call.agentId
    some (answer, w.mark slot.me (.resolved answer))) fun answer =>
  match answer with
  | .error e => raise e
  | .ok (args, refs) =>
      await (modify fun ctx => { ctx with call := { ctx.call with arguments := args } }) fun _ =>
      if refs ≠ [] then
        await (modify fun ctx => { ctx with bag := { ctx.bag with materializedRefs := refs } }) fun _ =>
        await (audit "refs_materialized" [("refs", .list (refs.map .str))]) fun _ =>
        callNext
      else callNext

theorem handle_materializeSecrets :
    (materializeSecrets : Code σ).handle n = MaterializeSecrets.handleCall n := by
  refine (handle_await _ _).trans (bind_congr fun ctx => ?_)
  refine (handle_await _ _).trans (bind_congr fun answer => ?_)
  cases answer with
  | error e => rfl
  | ok resolved =>
      obtain ⟨args, refs⟩ := resolved
      refine (handle_await _ _).trans (bind_congr fun _ => ?_)
      by_cases hrefs : refs ≠ []
      · rw [if_pos hrefs, if_pos hrefs]
        refine (handle_await _ _).trans (bind_congr fun _ => ?_)
        refine (handle_await _ _).trans (bind_congr fun _ => ?_)
        exact handle_callNext
      · rw [if_neg hrefs, if_neg hrefs]
        exact handle_callNext

/-- `Redact` -/
def redact (redact : ToolResult → String → Except Exc ToolResult) : Code σ :=
  next (onward fun result =>
    await get fun ctx =>
    match redact result ctx.call.upstreamId with
    | .ok r => ret r
    | .error (.gateway (.secretLeak msg)) =>
        await (audit "leak_detected" []) fun _ => raise (.gateway (.secretLeak msg))
    | .error e => raise e)

theorem handle_redact (check : ToolResult → String → Except Exc ToolResult) :
    (redact check : Code σ).handle n = (Redact check).handleCall n := by
  refine (handle_next_onward _).trans (bind_congr fun result => ?_)
  refine (handle_await _ _).trans (bind_congr fun ctx => ?_)
  cases check result ctx.call.upstreamId with
  | ok r => rfl
  | error e =>
      cases e with
      | gateway e =>
          cases e with
          | secretLeak msg => exact handle_await _ _
          | _ => rfl
      | _ => rfl

/-- The dispatch to the upstream. -/
def dispatch : Code σ :=
  await get fun ctx =>
  await (Prog.atomic fun slot w =>
    some (slot.input.now, w.mark slot.me (.dispatched ctx.call))) fun started =>
  await (Prog.atomic fun slot w =>
    let answer := slot.input.upstream ctx.call
    some ((answer, slot.input.now), w.mark slot.me (.answered answer))) fun x =>
  match x.1 with
  | .raised typeName text =>
      await (audit "call_failed" [("error", .str (typeName ++ ": " ++ text))]) fun _ =>
      raise (.gateway (.upstreamUnavailable ("tool call failed: " ++ text) (some text)))
  | .result r =>
      let result := noted r (elapsedMs started x.2) ctx.bag.editNote
      await (Prog.lift (note (.returned result))) fun _ =>
      await (audit "call" [("elapsed_ms", .int result.elapsedMs),
        ("is_error", .bool result.isError)]) fun _ =>
      ret result

theorem handle_dispatch : (dispatch : Code σ).handle n = Dispatch.handleCall n := by
  refine (handle_await _ _).trans (bind_congr fun ctx => ?_)
  refine (handle_await _ _).trans (bind_congr fun started => ?_)
  refine (handle_await _ _).trans (bind_congr fun x => ?_)
  obtain ⟨answer, now⟩ := x
  cases answer with
  | raised typeName text => exact handle_await _ _
  | result r =>
      refine (handle_await _ _).trans (bind_congr fun _ => ?_)
      exact handle_await _ _

-- ============================================================================
-- The gate
-- ============================================================================

variable [TicketStore σ]

/-- `run_once`, with `call_next` as what it executes. -/
def runOnce (t : TicketId) (lease : Time) : Code σ :=
  await (Prog.lift (claimTicket t)) fun won =>
  if won then
    let stored result :=
      await (Prog.lift (completeTicket t (.ok result))) fun answer =>
      await (orRaise answer) fun _ => ret result
    await get fun ctx =>
    await (Prog.lift (note (.started t ctx.call.arguments))) fun _ =>
    next fun
      | .ok result => stored result
      | .error exc => await (keepError t exc) stored
  else await (lostClaim t lease) ret

theorem handle_runOnce (t : TicketId) (lease : Time) :
    (runOnce t lease : Code σ).handle n = ToolGateway.runOnce t lease n := by
  refine (handle_await _ _).trans (bind_congr fun won => ?_)
  cases won with
  | true =>
      refine (handle_await _ _).trans (bind_congr fun ctx => ?_)
      refine (handle_await _ _).trans (bind_congr fun _ => ?_)
      -- the result of `call_next` is stored, or what is left of its exception
      have hstored : ∀ result, (await (Prog.lift (completeTicket t (.ok result))) fun answer =>
          await (orRaise answer) fun _ => ret result : Code σ).handle n
          = Prog.lift (completeTicket t (.ok result)) >>= fun answer =>
              orRaise answer >>= fun _ => pure result := by
        intro result
        refine (handle_await _ _).trans (bind_congr fun answer => ?_)
        exact handle_await _ _
      rw [Prog.bind_eq_attempt, Prog.tryCatch_eq_attempt, Prog.attempt_assoc]
      refine congrArg _ (funext fun r => ?_)
      cases r with
      | ok result => exact hstored result
      | error exc =>
          refine (handle_await _ _).trans ?_
          rw [Prog.bind_eq_attempt]
          exact congrArg _ (congrArg _ (funext hstored))
  | false =>
      refine (handle_await _ _).trans ?_
      exact Prog.bind_return _

/-- What `resume` does once the policy has granted the call. -/
def enforce (t : TicketId) (d : Decision) (lease : Time) : Code σ :=
  await (Prog.lift (note (.acted t d))) fun _ =>
  await (applyDecision d) fun _ =>
  await (audit "resumed" [("status", .str d.status.value), ("approver", .str d.approver)]) fun _ =>
  runOnce t lease

theorem handle_enforce (t : TicketId) (d : Decision) (lease : Time) :
    (enforce t d lease : Code σ).handle n = (do
      Prog.lift (note (.acted t d))
      applyDecision d
      audit "resumed" [("status", .str d.status.value), ("approver", .str d.approver)]
      ToolGateway.runOnce t lease n) := by
  refine (handle_await _ _).trans (bind_congr fun _ => ?_)
  refine (handle_await _ _).trans (bind_congr fun _ => ?_)
  refine (handle_await _ _).trans (bind_congr fun _ => ?_)
  exact handle_runOnce t lease

/-- From the notification on. -/
def decideAndRun (s : GateSettings) (t : TicketId) (ctx : CallContext) (mode : ApprovalMode) :
    Code σ :=
  if mode = .async ∨ ctx.canBlock = false then raise (.gateway (.pendingApproval t))
  else
    await (Prog.lift readClock) fun start =>
    await (awaitDecision t (start + s.timeout) s.rechecks) fun awaited =>
    await (settle t awaited) fun decision =>
    await (audit "decided" [("status", .str decision.status.value),
      ("approver", .str decision.approver)]) fun _ =>
    await (Prog.lift (note (.acted t decision))) fun _ =>
    await (applyDecision decision) fun _ =>
    runOnce t s.lease

/-- `ApprovalGate` -/
def approvalGate (s : GateSettings) : Code σ :=
  await get fun ctx =>
  let mode := (ctx.grant.map Grant.approvalMode).getD .auto
  if mode = .auto then callNext
  else
    await (Prog.lift (createTicket ctx.call)) fun answer =>
    await (orRaise answer) fun t =>
    await (audit "gated" [("approval_mode", .str mode.value), ("ticket_id", .str t)]) fun _ =>
    if s.notifies then
      await (Prog.atomic fun slot w => some (slot.input.notify t ctx.call mode, w)) fun failure =>
      match failure with
      | some error =>
          await (audit "notify.error" [("ticket_id", .str t), ("error", .str error)]) fun _ =>
          decideAndRun s t ctx mode
      | none => decideAndRun s t ctx mode
    else decideAndRun s t ctx mode

theorem handle_decideAndRun (s : GateSettings) (t : TicketId) (ctx : CallContext)
    (mode : ApprovalMode) :
    (decideAndRun s t ctx mode : Code σ).handle n = fromNotice s t mode ctx.canBlock n := by
  unfold decideAndRun fromNotice
  split
  · rfl
  · refine (handle_await _ _).trans (bind_congr fun start => ?_)
    refine (handle_await _ _).trans (bind_congr fun awaited => ?_)
    refine (handle_await _ _).trans (bind_congr fun decision => ?_)
    refine (handle_await _ _).trans (bind_congr fun _ => ?_)
    refine (handle_await _ _).trans (bind_congr fun _ => ?_)
    refine (handle_await _ _).trans (bind_congr fun _ => ?_)
    exact handle_runOnce t s.lease

theorem handle_approvalGate (s : GateSettings) :
    (approvalGate s : Code σ).handle n = (ApprovalGate s).handleCall n := by
  refine (handle_await _ _).trans (bind_congr fun ctx => ?_)
  dsimp only
  split
  · exact handle_callNext
  · refine (handle_await _ _).trans (bind_congr fun answer => ?_)
    refine (handle_await _ _).trans (bind_congr fun t => ?_)
    refine (handle_await _ _).trans (bind_congr fun _ => ?_)
    split
    · refine (handle_await _ _).trans (bind_congr fun failure => ?_)
      cases failure with
      | none => exact handle_decideAndRun s t ctx _
      | some error =>
          refine (handle_await _ _).trans (bind_congr fun _ => ?_)
          exact handle_decideAndRun s t ctx _
    · exact handle_decideAndRun s t ctx _

end

end Code

-- ============================================================================
-- Plans
-- ============================================================================

/-- Which step this is; an application's steps are numbered as they are given. -/
inductive Tag where
  | rateLimit
  | authorize
  | gate
  /-- what `resume` does in the place of the steps up to the gate -/
  | enforce
  | validate
  | materialize
  | redact
  | dispatch
  | extra (n : ℕ)
deriving DecidableEq

/-- A step with its code and its tag. -/
structure Placed (σ : Type) where
  tag : Tag
  stage : Option Stage := none
  order : ℤ := 0
  code : Code σ

/-- An application's own step, as it is written. -/
structure Script (σ : Type) where
  name : String
  stage : Stage
  order : ℤ
  code : Code σ

section
variable {σ : Type}

/-- The step the pipeline runs. -/
def Placed.step (p : Placed σ) : Step σ where
  stage := p.stage
  order := p.order
  handleCall callNext := p.code.handle callNext

/-- The step as the application hands it over. -/
def Script.extra (script : Script σ) : ExtraStep σ where
  name := script.name
  stage := script.stage
  order := script.order
  handleCall callNext := script.code.handle callNext

/-- The built-in steps every gateway has. -/
def alwaysPlaced (s : Settings) : List (Placed σ) :=
  [{ tag := .authorize, stage := some .beforeApproval, order := 100
     code := Code.authorize.audited "authorize" },
   { tag := .validate, stage := some .afterApproval, order := 100
     code := (Code.validateSchema s.checkArgs).audited "validate" },
   { tag := .materialize, stage := some .afterApproval, order := 200
     code := Code.materializeSecrets.audited "materialize" },
   { tag := .redact, stage := some .afterApproval, order := 300, code := Code.redact s.redact }]

/-- `builtin` -/
def builtinPlaced (s : Settings) : List (Placed σ) :=
  alwaysPlaced s ++
  if s.limited then
    [{ tag := .rateLimit, stage := some .beforeApproval, order := 50
       code := Code.rateLimit.audited "rate_limit" }]
  else []

/-- An application's steps from this number on. -/
def extraPlaced : ℕ → List (Script σ) → List (Placed σ)
  | _, [] => []
  | n, script :: scripts =>
      { tag := .extra n, stage := some script.stage, order := script.order
        code := script.code.audited ("step." ++ script.name) } :: extraPlaced (n + 1) scripts

/-- `[*builtin, *steps]` -/
def placed (s : Settings) (scripts : List (Script σ)) : List (Placed σ) :=
  builtinPlaced s ++ extraPlaced 0 scripts

/-- The steps of one stage, sorted by order (stably). -/
def arranged (stage : Stage) (ps : List (Placed σ)) : List (Placed σ) :=
  (ps.filter fun p => p.stage = some stage).insertionSort fun p q => p.order ≤ q.order

/-- The dispatch, in its place. -/
def dispatchPlaced : Placed σ := { tag := .dispatch, code := Code.dispatch }

/-- The chain of `resume`. -/
def postPlan (s : Settings) (scripts : List (Script σ)) : List (Placed σ) :=
  arranged .afterApproval (placed s scripts) ++ [dispatchPlaced]

theorem Placed.step_eq {p : Placed σ} {step : Step σ} (hstage : p.stage = step.stage)
    (horder : p.order = step.order) (hcode : ∀ n, p.code.handle n = step.handleCall n) :
    p.step = step := by
  obtain ⟨stage, order, handleCall⟩ := step
  unfold Placed.step
  rw [hstage, horder, funext hcode]

/-- The code of a step inside the audit wrapper. -/
theorem Code.audited_step {code : Code σ} {step : Step σ}
    (hcode : ∀ n, code.handle n = step.handleCall n) (event : String) (n : StepM σ ToolResult) :
    (code.audited event).handle n = (ToolGateway.audited step event).handleCall n := by
  rw [Code.handle_audited, hcode]
  rfl

theorem alwaysPlaced_step (s : Settings) :
    (alwaysPlaced s : List (Placed σ)).map Placed.step
      = [audited Authorize "authorize", audited (ValidateSchema s.checkArgs) "validate",
         audited MaterializeSecrets "materialize", Redact s.redact] := by
  simp only [alwaysPlaced, List.map_cons, List.map_nil, List.cons.injEq, and_true]
  exact ⟨Placed.step_eq rfl rfl (Code.audited_step (fun _ => Code.handle_authorize) _),
    Placed.step_eq rfl rfl (Code.audited_step (fun _ => Code.handle_validateSchema _) _),
    Placed.step_eq rfl rfl (Code.audited_step (fun _ => Code.handle_materializeSecrets) _),
    Placed.step_eq rfl rfl (fun _ => Code.handle_redact _)⟩

theorem builtinPlaced_step (s : Settings) :
    (builtinPlaced s : List (Placed σ)).map Placed.step = builtin s := by
  unfold builtinPlaced builtin
  rw [List.map_append, alwaysPlaced_step]
  refine congrArg _ ?_
  cases s.limited with
  | false => rfl
  | true =>
      exact congrArg (fun step => [step])
        (Placed.step_eq rfl rfl (Code.audited_step (fun _ => Code.handle_rateLimit) _))

theorem extraPlaced_step (n : ℕ) (scripts : List (Script σ)) :
    (extraPlaced n scripts).map Placed.step = (scripts.map Script.extra).map ExtraStep.audited := by
  induction scripts generalizing n with
  | nil => rfl
  | cons script scripts ih =>
      rw [extraPlaced, List.map_cons, List.map_cons, List.map_cons, ih]
      refine congrArg (· :: _) (Placed.step_eq rfl rfl fun m => ?_)
      exact Code.audited_step (fun _ => rfl) _ m

theorem placed_step (s : Settings) (scripts : List (Script σ)) :
    (placed s scripts).map Placed.step = chain s (scripts.map Script.extra) := by
  rw [placed, List.map_append, builtinPlaced_step, extraPlaced_step]
  rfl

theorem arranged_step (stage : Stage) (ps : List (Placed σ)) :
    (arranged stage ps).map Placed.step = ofStage stage (ps.map Placed.step) := by
  unfold arranged ofStage
  rw [List.map_insertionSort (fun p q : Placed σ => p.order ≤ q.order)
    (fun a b : Step σ => a.order ≤ b.order) Placed.step _ fun _ _ _ _ => Iff.rfl, List.filter_map]
  rfl

theorem dispatchPlaced_step : (dispatchPlaced : Placed σ).step = Dispatch :=
  Placed.step_eq rfl rfl fun _ => Code.handle_dispatch

theorem postPlan_step (s : Settings) (scripts : List (Script σ)) :
    (postPlan s scripts).map Placed.step = postApproval s (scripts.map Script.extra) := by
  rw [postPlan, List.map_append, arranged_step, placed_step, List.map_singleton, dispatchPlaced_step]
  rfl

variable [TicketStore σ]

/-- The gate, in its place. -/
def gatePlaced (s : Settings) : Placed σ :=
  { tag := .gate, code := (Code.approvalGate s.gate).audited "approval" }

/-- The chain of `call`. -/
def fullPlan (s : Settings) (scripts : List (Script σ)) : List (Placed σ) :=
  arranged .beforeApproval (placed s scripts) ++ gatePlaced s :: postPlan s scripts

theorem fullPlan_step (s : Settings) (scripts : List (Script σ)) :
    (fullPlan s scripts).map Placed.step = full s (scripts.map Script.extra) := by
  have hgate : (gatePlaced s : Placed σ).step = audited (ApprovalGate s.gate) "approval" :=
    Placed.step_eq rfl rfl (Code.audited_step (fun _ => Code.handle_approvalGate s.gate) _)
  rw [fullPlan, List.map_append, List.map_cons, arranged_step, placed_step, postPlan_step, hgate]
  rfl

end

end ToolGateway
