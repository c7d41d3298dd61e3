/-
  ToolGateway.Gateway.Startup

  How the MCP surface comes up (`McpEdge._asgi` and `_own`).  The first request on an
  event loop launches an owner task that enters the SDK's session manager; every
  request waits on one shared future until the manager is up.  Cancelling a request
  that waits cancels that future, and an owner whose future was cancelled cannot
  settle it and leaves the manager again.

  Launches are numbered; `_ready` and `_stop` of a launch are kept under its number,
  and the one in use is the newest.  How the manager's `run()` comes up and whether
  it breaks down later is the input of its owner's steps.
-/

import ToolGateway.Upstreams.Session

namespace ToolGateway

open Coroutine

-- ============================================================================
-- The surface
-- ============================================================================

/-- What belongs to one launch of the manager. -/
structure Launch where
  ready : Ready := .pending
  /-- its stop event is set -/
  stopped : Bool := false

/-- What a request or the shutdown notes when it does it. -/
inductive EdgeMark where
  /-- launched the manager for this event loop, and waits for it -/
  | launched (g loop : ℕ)
  /-- waits for the future of this launch -/
  | waits (g : ℕ)
  /-- was handed to the manager -/
  | handed (g : ℕ)
  /-- was told that the manager did not come up -/
  | refused (g : ℕ)
  /-- was told that the future is cancelled -/
  | cut (g : ℕ)
  /-- was cancelled where it waited -/
  | gaveUp (g : ℕ)
  /-- the manager of this launch was entered; the future took its result, or had
      been settled before -/
  | entered (g : ℕ) (taken : Bool)
  /-- the manager of this launch did not come up -/
  | failed (g : ℕ)
  /-- the running manager broke down -/
  | broke (g : ℕ)
  | stopped (g : ℕ)
  /-- the owner found its stop event set -/
  | woke (g : ℕ)
  /-- the manager of this launch was left -/
  | left (g : ℕ)
deriving DecidableEq

/-- The server's event loop and the managers it has launched. -/
structure EdgeWorld where
  /-- `_loop`, and the launch that `_ready` and `_stop` belong to -/
  current : Option (ℕ × ℕ)
  launches : List Launch
  trail : TrailOf EdgeMark

namespace EdgeWorld

/-- `McpEdge(…)` -/
def fresh : EdgeWorld := { current := none, launches := [], trail := [] }

/-- Note it. -/
def mark (w : EdgeWorld) (i : ℕ) (m : EdgeMark) : EdgeWorld := { w with trail := (i, m) :: w.trail }

/-- Change one launch. -/
def edit (w : EdgeWorld) (g : ℕ) (f : Launch → Launch) : EdgeWorld :=
  { w with launches := w.launches.modify g f }

/-- `ready.set_result(None)` and the like: only a pending future is settled. -/
def settle (w : EdgeWorld) (g : ℕ) (ready : Ready) : EdgeWorld :=
  w.edit g fun l => if l.ready = .pending then { l with ready := ready } else l

end EdgeWorld

namespace Startup

/-- Code of the edge, suspended at its await points. -/
abbrev EdgeTask (α : Type) := Co SessionInput EdgeWorld α

-- ============================================================================
-- Requests
-- ============================================================================

/-- How a request got past the future. -/
inductive Passage where
  | handed
  /-- the manager's exception was raised -/
  | refused
  /-- `CancelledError` was raised -/
  | cancelled
deriving DecidableEq, Repr

/-- `await self._ready` on a settled future, and `handle_request`. -/
def pass (g me : ℕ) (w : EdgeWorld) : Ready → Option (Passage × EdgeWorld)
  | .pending => none
  | .result => some (.handed, w.mark me (.handed g))
  | .exception => some (.refused, w.mark me (.refused g))
  | .cancelled => some (.cancelled, w.mark me (.cut g))

/-- What a request finds when it comes: its passage, or a launch to wait for. -/
inductive Arrival where
  | done (p : Passage)
  | waits (g : ℕ)

/-- The first request on this loop launches the manager. -/
def launch (loop me : ℕ) (w : EdgeWorld) : EdgeWorld :=
  EdgeWorld.mark
    { w with launches := w.launches ++ [{}], current := some (loop, w.launches.length) } me
    (.launched w.launches.length loop)

/-- `_asgi` up to where it waits; a settled future does not make it wait. -/
def arrive (loop : ℕ) (slot : Slot SessionInput) (w : EdgeWorld) : Option (Arrival × EdgeWorld) :=
  match w.current with
  | none => some (.waits w.launches.length, launch loop slot.me w)
  | some (loop', g) =>
      if loop' = loop then
        match w.launches[g]? with
        | none => none
        | some l =>
            match pass g slot.me w l.ready with
            | some (p, w') => some (.done p, w')
            | none => some (.waits g, w.mark slot.me (.waits g))
      else some (.waits w.launches.length, launch loop slot.me w)

/-- `await self._ready`; cancelling the request cancels the future at once. -/
def awaitReady (g : ℕ) (slot : Slot SessionInput) (w : EdgeWorld) :
    Option (Passage × EdgeWorld) :=
  match w.launches[g]? with
  | none => none
  | some l =>
      if slot.input.cancelled then
        some (.cancelled, (w.settle g .cancelled).mark slot.me (.gaveUp g))
      else pass g slot.me w l.ready

/-- `_asgi`, up to the manager's `handle_request`. -/
def asgi (loop : ℕ) : EdgeTask Passage := do
  match ← Co.atomic (arrive loop) with
  | .done p => return p
  | .waits g => Co.atomic (awaitReady g)

-- ============================================================================
-- Owners
-- ============================================================================

/-- Where `_own` is when it has entered the manager. -/
inductive Entered where
  | parked
  | leaving
  | failed

/-- `async with self._manager.run(): ready.set_result(None)`: a cancelled future takes
    no result, and the owner leaves at once. -/
def enter (g : ℕ) (slot : Slot SessionInput) (w : EdgeWorld) : Option (Entered × EdgeWorld) :=
  match w.launches[g]? with
  | none => none
  | some l =>
      if slot.input.fails || slot.input.cancelled then
        some (.failed, (w.settle g .exception).mark slot.me (.failed g))
      else
        let taken := l.ready = .pending
        some (if taken then .parked else .leaving,
          (w.settle g .result).mark slot.me (.entered g taken))

/-- `await stop.wait()`; the manager's breakdown ends it as well. -/
def park (g : ℕ) (slot : Slot SessionInput) (w : EdgeWorld) : Option (Unit × EdgeWorld) :=
  if slot.input.fails || slot.input.cancelled then some ((), w.mark slot.me (.broke g))
  else if w.launches[g]?.any Launch.stopped then some ((), w.mark slot.me (.woke g))
  else none

/-- The manager is left. -/
def leave (g : ℕ) (slot : Slot SessionInput) (w : EdgeWorld) : Option (Unit × EdgeWorld) :=
  some ((), w.mark slot.me (.left g))

/-- `_own` of one launch. -/
def own (g : ℕ) : EdgeTask Unit := do
  match ← Co.atomic (enter g) with
  | .parked =>
      Co.atomic (park g)
      Co.atomic (leave g)
  | .leaving => Co.atomic (leave g)
  | .failed => return ()

/-- `_shutdown` -/
def shutdown : EdgeTask Unit :=
  Co.atomic fun slot w =>
    match w.current with
    | some (_, g) => some ((), (w.edit g fun l => { l with stopped := true }).mark slot.me (.stopped g))
    | none => some ((), w)

-- ============================================================================
-- The system
-- ============================================================================

/-- Who runs on the edge. -/
inductive EdgeActor where
  /-- a request served on this event loop -/
  | request (loop : ℕ)
  | shutdown
deriving DecidableEq

/-- What it runs; only a request has a passage. -/
def EdgeActor.program : EdgeActor → EdgeTask (Option Passage)
  | .request loop => do return some (← asgi loop)
  | .shutdown => do
      Startup.shutdown
      return none

end Startup

end ToolGateway
