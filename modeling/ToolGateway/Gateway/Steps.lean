/-
  ToolGateway.Gateway.Steps

  The pipeline (`pipeline.py`) and its steps (`steps.py`).  A step acts on the
  call context around the rest of the chain; `call_next` is that rest, a program
  over the same context.
-/

import ToolGateway.Gateway.World

namespace ToolGateway

open Coroutine Py

/-- On which side of the gate an application's step runs. -/
inductive Stage where
  /-- first call only -/
  | beforeApproval
  /-- every execution, including resume -/
  | afterApproval
deriving DecidableEq, Repr

/-- A step: where it stands, and what it does around `call_next`. -/
structure Step (σ : Type) where
  /-- the gate and the dispatch stand outside the two stages -/
  stage : Option Stage := none
  order : ℤ := 0
  handleCall : StepM σ ToolResult → StepM σ ToolResult

section
variable {σ : Type}

/-- `Pipeline(steps).run(ctx)` -/
def Pipeline.run : List (Step σ) → StepM σ ToolResult
  | [] => throw (.python .runtimeError)
  | step :: steps => step.handleCall (Pipeline.run steps)

/-- Record a `GatewayError` of the step as `<event>.error`. -/
def audited (step : Step σ) (event : String) : Step σ where
  stage := step.stage
  order := step.order
  handleCall callNext :=
    tryCatch (step.handleCall callNext) fun exc => do
      match exc with
      | .gateway e =>
          audit (event ++ ".error") [("error", .str e.typeName), ("detail", .str e.str)]
          throw exc
      | _ => throw exc

-- ============================================================================
-- The steps
-- ============================================================================

/-- Turn away an agent over its call budget. -/
def RateLimit : Step σ where
  stage := some .beforeApproval
  order := 50
  handleCall callNext := do
    let ctx ← get
    let admitted ← Prog.atomic fun slot w =>
      some (slot.input.admitCall ctx.call.agentId ctx.call.fullName, w)
    if admitted then callNext
    else throw (.gateway (.rateLimited ("rate limit exceeded for agent " ++ ctx.call.agentId)))

/-- Resolve the grant or reject. -/
def Authorize : Step σ where
  stage := some .beforeApproval
  order := 100
  handleCall callNext := do
    let ctx ← get
    match ← orRaise (← Prog.lift (grantFor ctx.call)) with
    | none => throw (.gateway (.toolNotAllowed ("not allowed: " ++ ctx.call.fullName)))
    | some grant =>
        modify fun ctx => { ctx with grant := grant }
        audit "authorized" [("approval_mode", .str grant.approvalMode.value)]
        callNext

/-- `ctx.grant.input_schema if ctx.grant else None` -/
def CallContext.inputSchema (ctx : CallContext) : Json :=
  match ctx.grant with
  | some grant => grant.inputSchema
  | none => .null

/-- Validate the arguments against the grant's schema; `checkArgs` is the
    validator's `check_args`. -/
def ValidateSchema (checkArgs : Json → Json → Except PyError (List String)) : Step σ where
  stage := some .afterApproval
  order := 100
  handleCall callNext := do
    let ctx ← get
    let errors ← orRaise (checkArgs ctx.call.arguments ctx.inputSchema)
    if errors = [] then
      Prog.lift (note (.validated ctx.call.arguments ctx.inputSchema))
      callNext
    else throw (.gateway (.schemaInvalid errors))

/-- Resolve secret refs; the secret store answers through the input. -/
def MaterializeSecrets : Step σ where
  stage := some .afterApproval
  order := 200
  handleCall callNext := do
    let ctx ← get
    let answer ← Prog.atomic fun slot w =>
      let answer := slot.input.materialize ctx.call.arguments ctx.call.upstreamId ctx.call.agentId
      some (answer, w.mark slot.me (.resolved answer))
    match answer with
    | .error e => throw e
    | .ok (args, refs) =>
        modify fun ctx => { ctx with call := { ctx.call with arguments := args } }
        if refs ≠ [] then
          modify fun ctx => { ctx with bag := { ctx.bag with materializedRefs := refs } }
          audit "refs_materialized" [("refs", .list (refs.map .str))]
        callNext

/-- Redact the result: a leak is rejected, never forwarded. -/
def Redact (redact : ToolResult → String → Except Exc ToolResult) : Step σ where
  stage := some .afterApproval
  order := 300
  handleCall callNext := do
    let result ← callNext
    let ctx ← get
    match redact result ctx.call.upstreamId with
    | .ok r => return r
    | .error (.gateway (.secretLeak msg)) =>
        audit "leak_detected" []
        throw (.gateway (.secretLeak msg))
    | .error e => throw e

/-- `int((now - started) * 1000)`, from microseconds. -/
def elapsedMs (started now : Time) : ℤ := (now - started).tdiv 1000

/-- The upstream's result with the time it took and the operator's edit note. -/
def noted (r : ToolResult) (elapsed : ℤ) (editNote : Option String) : ToolResult :=
  { r with
    elapsedMs := elapsed
    notes := match editNote with
      | some note => if note = "" then r.notes else note :: r.notes
      | none => r.notes }

/-- Run the tool upstream. -/
def Dispatch : Step σ where
  handleCall _ := do
    let ctx ← get
    let started ← Prog.atomic fun slot w =>
      some (slot.input.now, w.mark slot.me (.dispatched ctx.call))
    let (answer, now) ← Prog.atomic fun slot w =>
      let answer := slot.input.upstream ctx.call
      some ((answer, slot.input.now), w.mark slot.me (.answered answer))
    match answer with
    | .raised typeName text =>
        audit "call_failed" [("error", .str (typeName ++ ": " ++ text))]
        throw (.gateway (.upstreamUnavailable ("tool call failed: " ++ text) (some text)))
    | .result r =>
        let result := noted r (elapsedMs started now) ctx.bag.editNote
        Prog.lift (note (.returned result))
        audit "call" [("elapsed_ms", .int result.elapsedMs), ("is_error", .bool result.isError)]
        return result

end

end ToolGateway
