/-
  ToolGateway.Policy.Controller

  The policy over HTTP (`PolicyController`): operators read the policy that is in force
  and publish new ones.  Reading refreshes first: it drops the stamp of the last check,
  so that the replica asks its source, unless another request does it in between.
-/

import ToolGateway.Policy.Replica

namespace ToolGateway.Policy

open Coroutine Py

/-- What a method of the controller comes to. -/
inductive PolicyResponse (V : Type) where
  /-- `{"version": …, "policy": …}` -/
  | current (version : WithBot V) (doc : Option Json)
  /-- `{"version": …}` -/
  | published (v : V)
  /-- an HTTPException -/
  | raised (status : ℕ) (detail : String)
  /-- any other exception -/
  | failed
  /-- of no request: an operation that the gateway or another replica makes -/
  | operation (r : PolicyOutcome V)

section
variable {S V : Type} [PolicySource S V] [PrintTables]

namespace DeclarativePolicy

/-- `current` -/
def readOff (_ : Slot PolicyInput) (w : PolicyWorld S V) :
    Option ((WithBot V × Option Json) × PolicyWorld S V) :=
  some ((w.policy.version, w.policy.doc), w)

end DeclarativePolicy

namespace PolicyController

/-- `PolicyController.current`, after `_declarative` -/
def current : Co PolicyInput (PolicyWorld S V) (PolicyResponse V) := do
  Co.atomic DeclarativePolicy.dropStamp
  DeclarativePolicy.refreshLocked
  let (version, doc) ← Co.atomic DeclarativePolicy.readOff
  return .current version doc

/-- `PolicyController.publish`, after `_declarative` -/
def publish (body : Json) : Co PolicyInput (PolicyWorld S V) (PolicyResponse V) := do
  match ← DeclarativePolicy.publish body with
  | .published v => return .published v
  | .notPublished (.policyError msg) => return .raised 422 msg
  | _ => return .failed

end PolicyController

-- ============================================================================
-- The system
-- ============================================================================

/-- Who works on the policy. -/
inductive PolicyClient where
  /-- an operator reads the policy -/
  | current
  /-- an operator publishes one -/
  | publish (body : Json)
  | operation (op : PolicyOp)

/-- What each of them runs. -/
def PolicyClient.program : PolicyClient → Co PolicyInput (PolicyWorld S V) (PolicyResponse V)
  | .current => PolicyController.current
  | .publish body => PolicyController.publish body
  | .operation op => do return .operation (← op.program)

end

end ToolGateway.Policy
