/-
  ToolGateway.Policy.Replica

  `DeclarativePolicy`: one replica's copy of the shared policy.  Its operations
  are coroutines: `publish` stores a document and then applies it here, a refresh
  asks the source under a lock and then applies the answer, and `grant_for` and
  `may_call` refresh before they decide.

  The world keeps a trail of what the operations did at the source and on the
  replica; nothing in the code reads it.
-/

import ToolGateway.Coroutine.Rely
import ToolGateway.Domain
import ToolGateway.Policy.Compile
import ToolGateway.Policy.Source

namespace ToolGateway.Policy

open Coroutine Py

/-- The attributes of a `DeclarativePolicy`. -/
structure DeclarativePolicy (V : Type) where
  compiled : Option Compiled
  doc : Option Json
  version : WithBot V
  /-- when the source was last asked; `none` is `-inf` -/
  checked : Option Time
  refreshSeconds : Time
  /-- the thread that holds the lock -/
  lock : Option ℕ

/-- `DeclarativePolicy(source=…)`: nothing loaded. -/
def DeclarativePolicy.ofSource (V : Type) (refreshSeconds : Time) : DeclarativePolicy V :=
  { compiled := none, doc := none, version := ⊥, checked := none,
    refreshSeconds := refreshSeconds, lock := none }

/-- `DeclarativePolicy(rules=…)` over its own `MemoryPolicySource`, whose first
    version is the inline ruleset. -/
def DeclarativePolicy.inline (doc : Json) (compiled : Compiled) (refreshSeconds now : Time) :
    DeclarativePolicy ℕ :=
  { compiled := compiled, doc := doc, version := WithBot.some 1, checked := now,
    refreshSeconds := refreshSeconds, lock := none }

/-- `time.monotonic() - self._checked < self._refresh` -/
def DeclarativePolicy.fresh {V : Type} (p : DeclarativePolicy V) (now : Time) : Bool :=
  p.checked.any fun checked => now - checked < p.refreshSeconds

/-- One entry of the trail, under the thread that made it. -/
inductive PolicyMark (V : Type) where
  /-- the source was reached: it stored, or answered with, this version -/
  | fetched (thread : ℕ) (v : V)
  /-- the version was put in force on the replica -/
  | applied (thread : ℕ) (v : V)
  /-- a call was decided under the version in force -/
  | decided (thread : ℕ) (v : WithBot V)
deriving DecidableEq

/-- A replica, its source and the trail, newest mark first. -/
structure PolicyWorld (S V : Type) where
  source : S
  policy : DeclarativePolicy V
  trail : List (PolicyMark V)

/-- The clock, and whether the source fails at this step. -/
structure PolicyInput where
  now : Time
  /-- the clock at a second reading in the same step -/
  stamp : Time := now
  fails : Bool := false

/-- What an operation returns or raises. -/
inductive PolicyOutcome (V : Type) where
  | published (v : V)
  | notPublished (e : CompileError)
  | sourceFailed
  | refreshed
  | grant (g : Except PyError (Option Grant))
  | may (b : Bool)

section
variable {S V : Type} [DecidableEq V] [PolicySource S V] [PrintTables]

-- ============================================================================
-- The operations
-- ============================================================================

namespace DeclarativePolicy

/-- `compile_policy`, as a refresh sees it: any exception is the same. -/
def compile? (doc : Json) : Option Compiled :=
  match compilePolicy doc with
  | .ok c => some c
  | .error _ => none

/-- The version as `load_policy` is told it. -/
def newerThan (v : WithBot V) : Option V := v.recBotCoe none some

/-- Take the lock, unless a running thread holds it, and check again: the version
    to ask for newer ones of, or nothing when another caller has refreshed. -/
def acquire (slot : Slot PolicyInput) (w : PolicyWorld S V) :
    Option (Option (WithBot V) × PolicyWorld S V) :=
  if w.policy.lock.any slot.live then none
  else if w.policy.fresh slot.input.now then some (none, w)
  else some (some w.policy.version,
    { w with policy :=
        { w.policy with lock := some slot.me, checked := some slot.input.stamp } })

/-- `await self._source.load_policy(version)`; an exception counts as no answer. -/
def load (version : WithBot V) (slot : Slot PolicyInput) (w : PolicyWorld S V) :
    Option (Option (V × Json) × PolicyWorld S V) :=
  if slot.input.fails then some (none, w)
  else match PolicySource.loadPolicy w.source (newerThan version) with
    | some (v, doc) => some (some (v, doc), { w with trail := .fetched slot.me v :: w.trail })
    | none => some (none, w)

/-- Leave the lock with nothing to apply. -/
def release (_ : Slot PolicyInput) (w : PolicyWorld S V) : Option (Unit × PolicyWorld S V) :=
  some ((), { w with policy := { w.policy with lock := none } })

/-- Put the loaded document in force and leave the lock. -/
def applyLoaded (v : V) (doc : Json) (compiled : Compiled) (slot : Slot PolicyInput)
    (w : PolicyWorld S V) : Option (Unit × PolicyWorld S V) :=
  some ((), { w with
    policy := { w.policy with compiled := compiled, doc := doc, version := v, lock := none }
    trail := .applied slot.me v :: w.trail })

/-- What `_refresh_if_due` does with the answer, under the lock. -/
def settle : Option (V × Json) → Co PolicyInput (PolicyWorld S V) Unit
  | none => Co.atomic release
  | some (v, doc) =>
      match compile? doc with
      | none => Co.atomic release
      | some compiled => Co.atomic (applyLoaded v doc compiled)

/-- `_refresh_if_due`, from the lock on. -/
def refreshLocked : Co PolicyInput (PolicyWorld S V) Unit := do
  match ← Co.atomic acquire with
  | none => return
  | some version => settle (← Co.atomic (load version))

/-- `_refresh_if_due` -/
def refreshIfDue : Co PolicyInput (PolicyWorld S V) Unit := do
  let fresh ← Co.atomic fun slot w => some (w.policy.fresh slot.input.now, w)
  if fresh then return else refreshLocked

/-- `self._checked = float("-inf")`, after which the policy is due. -/
def dropStamp (_ : Slot PolicyInput) (w : PolicyWorld S V) : Option (Unit × PolicyWorld S V) :=
  some ((), { w with policy := { w.policy with checked := none } })

/-- `refresh`; `_refresh_if_due` is entered in the same stretch, and finds the policy due. -/
def refresh : Co PolicyInput (PolicyWorld S V) (PolicyOutcome V) := do
  Co.atomic dropStamp
  refreshLocked
  return .refreshed

/-- `await self._source.publish_policy(doc)`; `none` when it raises. -/
def publishToSource (doc : Json) (slot : Slot PolicyInput) (w : PolicyWorld S V) :
    Option (Option V × PolicyWorld S V) :=
  if slot.input.fails then some (none, w)
  else
    let (v, source) := PolicySource.publishPolicy w.source doc
    some (some v, { w with source := source, trail := .fetched slot.me v :: w.trail })

/-- Put the published document in force. -/
def applyPublished (v : V) (doc : Json) (compiled : Compiled) (slot : Slot PolicyInput)
    (w : PolicyWorld S V) : Option (Unit × PolicyWorld S V) :=
  some ((), { w with
    policy := { w.policy with
      compiled := compiled, doc := doc, version := v, checked := some slot.input.now }
    trail := .applied slot.me v :: w.trail })

/-- `publish` -/
def publish (doc : Json) : Co PolicyInput (PolicyWorld S V) (PolicyOutcome V) :=
  match compilePolicy doc with
  | .error e => return .notPublished e
  | .ok compiled => do
      match ← Co.atomic (publishToSource doc) with
      | none => return .sourceFailed
      | some v =>
          Co.atomic (applyPublished v doc compiled)
          return .published v

/-- Decide on the policy in force, which may be none at all. -/
def decideWith (answer : Option Compiled → PolicyOutcome V) (slot : Slot PolicyInput)
    (w : PolicyWorld S V) : Option (PolicyOutcome V × PolicyWorld S V) :=
  some (answer w.policy.compiled,
    { w with trail := .decided slot.me w.policy.version :: w.trail })

/-- `grant_for` -/
def grantFor (call : ToolCall) : Co PolicyInput (PolicyWorld S V) (PolicyOutcome V) := do
  refreshIfDue
  Co.atomic (decideWith fun
    | none => .grant (.ok none)
    | some compiled => .grant (compiled.grantFor call))

/-- `may_call` -/
def mayCall (call : ToolCall) : Co PolicyInput (PolicyWorld S V) (PolicyOutcome V) := do
  refreshIfDue
  Co.atomic (decideWith fun
    | none => .may false
    | some compiled => .may (compiled.mayCall call))

/-- Another replica publishes to the shared source. -/
def foreignPublish (doc : Json) : Co PolicyInput (PolicyWorld S V) (PolicyOutcome V) :=
  Co.atomic fun _ w =>
    let (v, source) := PolicySource.publishPolicy w.source doc
    some (.published v, { w with source := source })

end DeclarativePolicy

/-- An operation of the replica, or a publication by another one. -/
inductive PolicyOp where
  | publish (doc : Json)
  | refresh
  | grantFor (call : ToolCall)
  | mayCall (call : ToolCall)
  | foreignPublish (doc : Json)

/-- What each of them runs. -/
def PolicyOp.program : PolicyOp → Co PolicyInput (PolicyWorld S V) (PolicyOutcome V)
  | .publish doc => DeclarativePolicy.publish doc
  | .refresh => DeclarativePolicy.refresh
  | .grantFor call => DeclarativePolicy.grantFor call
  | .mayCall call => DeclarativePolicy.mayCall call
  | .foreignPublish doc => DeclarativePolicy.foreignPublish doc

end

end ToolGateway.Policy
