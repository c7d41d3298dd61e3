/-
  ToolGateway.Upstreams.Session

  `_Session`: one open client per upstream, shared by concurrent calls.  A call
  (`use`) takes the client that is there or opens one under a lock; an owner task
  (`own`) keeps it open until its stop event is set.  A call that fails or is
  cancelled discards the session: it sets the stop event the session has then.

  Each opening has a number; the future `ready` and the stop event of one opening
  are kept under it.  One event loop: the reset for a session that is used from a
  second loop is left out, and so is the shutdown.
-/

import ToolGateway.Coroutine.Trail

namespace ToolGateway

open Coroutine

-- ============================================================================
-- The session
-- ============================================================================

/-- The future on which the opening call waits. -/
inductive Ready where
  | pending
  | result
  | exception
  | cancelled
deriving DecidableEq

/-- What belongs to one opening. -/
structure Opening where
  ready : Ready := .pending
  /-- its stop event is set -/
  stopped : Bool := false
  /-- its owner task has ended -/
  ended : Bool := false

/-- What a call or an owner notes when it does it. -/
inductive SessionMark where
  /-- started this opening -/
  | opened (g : ℕ)
  /-- was handed the client of this opening -/
  | obtained (g : ℕ)
  /-- failed or was cancelled; the running session whose stop event that set -/
  | failed (hit : Option ℕ)
  /-- the client of this opening is connected -/
  | connected (g : ℕ)
  | ended (g : ℕ)
deriving DecidableEq

/-- The session of one upstream and the openings there were. -/
structure SessionWorld where
  client : Option ℕ
  stop : Option ℕ
  /-- the call that holds the lock -/
  lock : Option ℕ
  openings : List Opening
  trail : TrailOf SessionMark

/-- What comes to a task where it waits: its cancellation, or a failure of what it
    waits for. -/
structure SessionInput where
  cancelled : Bool := false
  fails : Bool := false

namespace SessionWorld

/-- `_Session(target)` -/
def fresh : SessionWorld :=
  { client := none, stop := none, lock := none, openings := [], trail := [] }

/-- Note it. -/
def mark (w : SessionWorld) (i : ℕ) (m : SessionMark) : SessionWorld :=
  { w with trail := (i, m) :: w.trail }

/-- Change one opening. -/
def edit (w : SessionWorld) (g : ℕ) (f : Opening → Opening) : SessionWorld :=
  { w with openings := w.openings.modify g f }

/-- Neither stopped nor ended. -/
def running (w : SessionWorld) (g : ℕ) : Bool :=
  w.openings[g]?.any fun o => !o.stopped && !o.ended

/-- `discard` -/
def discard (w : SessionWorld) : SessionWorld :=
  match w.stop with
  | some g => { w.edit g (fun o => { o with stopped := true }) with client := none }
  | none => { w with client := none }

/-- An exception reaches the `except` clause of `_use`, in the stretch it was
    raised in. -/
def raised (w : SessionWorld) (me : ℕ) : SessionWorld :=
  w.discard.mark me (.failed (w.stop.filter w.running))

/-- `ready.set_exception(exc)` and the like: only a pending future is settled. -/
def settle (w : SessionWorld) (g : ℕ) (ready : Ready) : SessionWorld :=
  w.edit g fun o => if o.ready = .pending then { o with ready := ready } else o

/-- The `finally` clause of `_own`. -/
def finished (w : SessionWorld) (me g : ℕ) : SessionWorld :=
  mark { w.edit g (fun o => { o with ended := true }) with
    client := if w.stop = some g then none else w.client } me (.ended g)

end SessionWorld

-- ============================================================================
-- Calls
-- ============================================================================

/-- Code of the session, suspended at its await points. -/
abbrev SessionTask (α : Type) := Co SessionInput SessionWorld α

namespace Session

/-- How a call gets to its client. -/
inductive Entered where
  | client (g : ℕ)
  | opening (g : ℕ)

/-- With the lock: take the client that is there, or start to open one. -/
def takeOrOpen (w : SessionWorld) (me : ℕ) : Entered × SessionWorld :=
  match w.client with
  | some g => (.client g, w.mark me (.obtained g))
  | none =>
      let g := w.openings.length
      (.opening g, SessionWorld.mark
        { w with openings := w.openings ++ [{}], stop := some g, lock := some me } me (.opened g))

/-- `client`, up to where it waits: for the lock (`none`) or for an opening. -/
def enter (slot : Slot SessionInput) (w : SessionWorld) : Option (Option Entered × SessionWorld) :=
  if w.client = none ∧ w.lock.isSome then some (none, w)
  else
    let (entered, w') := takeOrOpen w slot.me
    some (some entered, w')

/-- `async with self._lock`, where the lock was taken; `none` when cancelled. -/
def waitLock (slot : Slot SessionInput) (w : SessionWorld) :
    Option (Option Entered × SessionWorld) :=
  if slot.input.cancelled then some (none, w.raised slot.me)
  else if w.lock.isSome then none
  else
    let (entered, w') := takeOrOpen w slot.me
    some (some entered, w')

/-- How waiting for an opening ends. -/
inductive Waited where
  | client
  | raised
  | cancelled

/-- `self._client = await ready`; cancelling the call cancels the future at once. -/
def awaitReady (g : ℕ) (slot : Slot SessionInput) (w : SessionWorld) :
    Option (Waited × SessionWorld) :=
  match w.openings[g]? with
  | none => none
  | some o =>
      if slot.input.cancelled then some (.cancelled, w.settle g .cancelled)
      else
        match o.ready with
        | .pending => none
        | .result => some (.client,
            SessionWorld.mark { w with client := some g, lock := none } slot.me (.obtained g))
        | .exception | .cancelled =>
            some (.raised, SessionWorld.raised { w with lock := none } slot.me)

/-- The cancelled call leaves the lock. -/
def leaveCancelled (slot : Slot SessionInput) (w : SessionWorld) : Option (Bool × SessionWorld) :=
  some (false, SessionWorld.raised { w with lock := none } slot.me)

/-- `await operation(client)` -/
def operate (slot : Slot SessionInput) (w : SessionWorld) : Option (Bool × SessionWorld) :=
  if slot.input.cancelled || slot.input.fails then some (false, w.raised slot.me)
  else some (true, w)

/-- `_use`, once the call knows where its client comes from. -/
def useEntered : Entered → SessionTask Bool
  | .client _ => Co.atomic operate
  | .opening g => do
      match ← Co.atomic (awaitReady g) with
      | .client => Co.atomic operate
      | .raised => return false
      | .cancelled => Co.atomic leaveCancelled

/-- `_use`: whether the call returned. -/
def use : SessionTask Bool := do
  match ← Co.atomic enter with
  | some entered => useEntered entered
  | none =>
      match ← Co.atomic waitLock with
      | some entered => useEntered entered
      | none => return false

-- ============================================================================
-- Owners
-- ============================================================================

/-- Where an owner is when it has connected. -/
inductive Connected where
  | parked
  | leaving
  | failed

/-- `async with Client(…) as client: ready.set_result(client)`: a cancelled future
    takes no result, and the owner leaves at once. -/
def connect (g : ℕ) (slot : Slot SessionInput) (w : SessionWorld) :
    Option (Connected × SessionWorld) :=
  match w.openings[g]? with
  | none => none
  | some o =>
      if slot.input.fails then some (.failed, (w.settle g .exception).finished slot.me g)
      else
        let next := if o.ready = .pending then .parked else .leaving
        some (next, (w.settle g .result).mark slot.me (.connected g))

/-- `await stop.wait()`; the client's own end is a failure. -/
def park (g : ℕ) (slot : Slot SessionInput) (w : SessionWorld) : Option (Unit × SessionWorld) :=
  if slot.input.fails || w.openings[g]?.any Opening.stopped then some ((), w) else none

/-- The client is closed. -/
def close (g : ℕ) (slot : Slot SessionInput) (w : SessionWorld) : Option (Bool × SessionWorld) :=
  some (true, w.finished slot.me g)

/-- `_own` of one opening. -/
def own (g : ℕ) : SessionTask Bool := do
  match ← Co.atomic (connect g) with
  | .parked =>
      Co.atomic (park g)
      Co.atomic (close g)
  | .leaving => Co.atomic (close g)
  | .failed => return false

/-- A session and any number of calls on it: none opens it more than once, so
    there are owners enough. -/
def sharedBy (calls : ℕ) : Config SessionInput SessionWorld Bool :=
  { world := SessionWorld.fresh
    threads := List.replicate calls (some use) ++ (List.range calls).map fun g => some (own g) }

end Session

end ToolGateway
