/-
  ToolGateway.Gateway.Rules

  Rules for what every step and entry point of the gateway is built with: writing to
  the audit log, raising an error of the interpreter, the wrapper that records errors,
  a context of one's own.  They hold for any discipline that does not look at the
  audit log, with any fact known at each step.
-/

import ToolGateway.Coroutine.Given
import ToolGateway.Gateway.Approval

namespace ToolGateway

open Coroutine Py

variable {σ α β γ : Type} {D : Discipline (World σ) Mark} {fact : Slot Input → World σ → Prop}
  {i : ℕ} {pre : List Mark} {ctx : CallContext}

/-- Writing to the audit log makes no mark and breaks no rule. -/
def IgnoresAudit (D : Discipline (World σ) Mark) (fact : Slot Input → World σ → Prop) (i : ℕ) :
    Prop :=
  ∀ pre event call fields, D.Triple i pre ((auditEvent event call fields : Task σ Unit).given fact)
    fun _ marks => marks = pre

theorem audit_given (hquiet : IgnoresAudit D fact i) {event : String} {fields : Fields}
    {f : Unit → StepM σ β} {post : Except Exc β → CallContext → List Mark → Prop}
    (h : D.SpecGiven fact i pre ctx (f ()) post) :
    D.SpecGiven fact i pre ctx (audit event fields >>= f) post := by
  have haudit : D.SpecGiven fact i pre ctx (audit event fields : StepM σ Unit)
      fun r ctx' marks => r = .ok () ∧ ctx' = ctx ∧ marks = pre :=
    .get_bind (.lift (hquiet pre event ctx.call fields) fun _ _ hm => ⟨rfl, rfl, hm⟩)
  refine .bind haudit ?_ ?_
  · rintro ⟨⟩ ctx' marks ⟨-, rfl, rfl⟩
    exact h
  · rintro e ctx' marks ⟨hr, -⟩
    cases hr

theorem orRaise_given {c : γ} {r : Except PyError α} {f : α → Prog Exc γ Input (World σ) β}
    {post : Except Exc β → γ → List Mark → Prop}
    (hok : ∀ a, r = .ok a → D.SpecGiven fact i pre c (f a) post)
    (herror : ∀ e, r = .error e → post (.error (.python e)) c pre) :
    D.SpecGiven fact i pre c (orRaise r >>= f) post := by
  cases hr : r with
  | ok a => exact hok a hr
  | error e => exact .throw (herror e hr)

/-- Recording an error changes nothing about how a step ends. -/
theorem audited_given (hquiet : IgnoresAudit D fact i) {step : Step σ} {event : String}
    {callNext : StepM σ ToolResult} {post : Except Exc ToolResult → CallContext → List Mark → Prop}
    (h : D.SpecGiven fact i pre ctx (step.handleCall callNext) post) :
    D.SpecGiven fact i pre ctx ((audited step event).handleCall callNext) post := by
  refine .tryCatch h (fun a ctx' marks hp => hp) fun e ctx' marks hp => ?_
  cases e with
  | gateway e => exact audit_given hquiet (.throw hp)
  | _ => exact .throw hp

theorem within_given {m : StepM σ α} {mid : Except Exc α → CallContext → List Mark → Prop}
    {post : Except Exc α → Unit → List Mark → Prop} (h : D.SpecGiven fact i pre ctx m mid)
    (hpost : ∀ r ctx' marks, mid r ctx' marks → post r () marks) :
    D.SpecGiven fact i pre () (GatewayM.within ctx m) post := by
  refine .lift_bind h ?_
  rintro ⟨r, ctx'⟩ marks hmid
  cases r with
  | ok a => exact .pure (hpost _ _ _ hmid)
  | error e => exact .throw (hpost _ _ _ hmid)

end ToolGateway
