/-
  ToolGateway.Tickets.Store

  The store of gated calls (`TicketStore`).  What one ticket goes through is a
  small machine (`Cell`): filed, decided once, claimed once, and closed with a
  result.  A store is lawful when it holds one such cell for each ticket id and
  every operation acts on the cell it names as the machine does.
-/

import Mathlib.Logic.Function.Basic
import ToolGateway.Domain

namespace ToolGateway

open Py

-- ============================================================================
-- One ticket
-- ============================================================================

/-- A ticket with the state of its claim. -/
structure Cell where
  call : ToolCall
  decision : Decision
  claimedAt : Option Time
  result : Option ToolResult

namespace Cell

/-- A call just filed: no verdict, no claim, no result. -/
def filed (call : ToolCall) : Cell :=
  { call := call, decision := { status := .pending }, claimedAt := none, result := none }

/-- What `get` shows of it. -/
def ticket (c : Cell) : Ticket := { call := c.call, decision := c.decision, result := c.result }

/-- Record a verdict while the ticket is pending. -/
def decide (d : Decision) (c : Cell) : Bool × Cell :=
  if c.decision.status = .pending then (true, { c with decision := d }) else (false, c)

/-- Take the ticket for execution: nobody has, and it has no result. -/
def claim (now : Time) (c : Cell) : Bool × Cell :=
  if c.claimedAt.isNone && c.result.isNone then (true, { c with claimedAt := some now })
  else (false, c)

/-- Store a result on a ticket that was claimed at least `older` ago and still
    has none. -/
def closeStaleClaim (now older : Time) (result : ToolResult) (c : Cell) : Bool × Cell :=
  if c.result.isNone && c.claimedAt.any (older ≤ now - ·) then
    (true, { c with result := some result })
  else (false, c)

/-- Store the result of the execution, whatever is there. -/
def complete (result : ToolResult) (c : Cell) : Cell := { c with result := some result }

/-- What can happen to a ticket: its verdict is final once there is one, a claim
    stays, and a result is never taken away. -/
structure Evolves (c c' : Cell) : Prop where
  call : c'.call = c.call
  decision : c.decision.status ≠ .pending → c'.decision = c.decision
  claimedAt : c.claimedAt.isSome → c'.claimedAt = c.claimedAt
  result : c.result.isSome → c'.result.isSome

theorem Evolves.refl (c : Cell) : c.Evolves c := ⟨rfl, fun _ => rfl, fun _ => rfl, id⟩

theorem Evolves.trans {c₁ c₂ c₃ : Cell} (h : c₁.Evolves c₂) (h' : c₂.Evolves c₃) :
    c₁.Evolves c₃ where
  call := h'.call.trans h.call
  decision hd := by
    have hd₂ := h.decision hd
    rw [h'.decision (hd₂ ▸ hd), hd₂]
  claimedAt hc := by
    have hc₂ := h.claimedAt hc
    rw [h'.claimedAt (hc₂ ▸ hc), hc₂]
  result hr := h'.result (h.result hr)

theorem decide_false {d : Decision} {c : Cell} (h : (c.decide d).1 = false) :
    c.decision.status ≠ .pending ∧ (c.decide d).2 = c := by
  by_cases hp : c.decision.status = .pending
  · simp [decide, hp] at h
  · exact ⟨hp, by rw [decide, if_neg hp]⟩

theorem decide_true {d : Decision} {c : Cell} (h : (c.decide d).1 = true) :
    c.decision.status = .pending := by
  by_contra hp
  simp [decide, hp] at h

theorem claim_false {now : Time} {c : Cell} (h : (c.claim now).1 = false) :
    (c.claim now).2 = c := by
  by_cases hc : (c.claimedAt.isNone && c.result.isNone) = true
  · simp [claim, hc] at h
  · rw [claim, if_neg hc]

theorem claim_true {now : Time} {c : Cell} (h : (c.claim now).1 = true) :
    c.claimedAt = none ∧ c.result = none := by
  by_cases hc : (c.claimedAt.isNone && c.result.isNone) = true
  · exact ⟨Option.isNone_iff_eq_none.mp (Bool.and_eq_true_iff.mp hc).1,
      Option.isNone_iff_eq_none.mp (Bool.and_eq_true_iff.mp hc).2⟩
  · simp [claim, hc] at h

/-- What cannot be claimed is claimed or has its result. -/
theorem taken_of_claim {now : Time} {c : Cell} (h : (c.claim now).1 = false) :
    c.claimedAt.isSome ∨ c.result.isSome := by
  by_contra hfree
  have hc : (c.claimedAt.isNone && c.result.isNone) = true := by
    simpa [not_or, Option.isNone_iff_eq_none] using hfree
  simp [claim, hc] at h

theorem closeStaleClaim_false {now older : Time} {r : ToolResult} {c : Cell}
    (h : (c.closeStaleClaim now older r).1 = false) : (c.closeStaleClaim now older r).2 = c := by
  by_cases hc : (c.result.isNone && c.claimedAt.any (older ≤ now - ·)) = true
  · simp [closeStaleClaim, hc] at h
  · rw [closeStaleClaim, if_neg hc]

theorem closeStaleClaim_true {now older : Time} {r : ToolResult} {c : Cell}
    (h : (c.closeStaleClaim now older r).1 = true) :
    c.claimedAt.isSome ∧ c.result = none ∧ (c.closeStaleClaim now older r).2 = c.complete r := by
  by_cases hc : (c.result.isNone && c.claimedAt.any (older ≤ now - ·)) = true
  · rw [closeStaleClaim, if_pos hc]
    obtain ⟨hresult, hany⟩ := Bool.and_eq_true_iff.mp hc
    exact ⟨Option.isSome_of_any hany, Option.isNone_iff_eq_none.mp hresult, rfl⟩
  · simp [closeStaleClaim, hc] at h

theorem decide_evolves (d : Decision) (c : Cell) : c.Evolves (c.decide d).2 := by
  by_cases hp : c.decision.status = .pending
  · rw [decide, if_pos hp]
    exact ⟨rfl, fun hdecided => absurd hp hdecided, fun _ => rfl, id⟩
  · rw [decide, if_neg hp]
    exact Evolves.refl c

/-- What the machine answers true to is what it holds then. -/
theorem decision_decide {d : Decision} {c : Cell} (h : (c.decide d).1 = true) :
    (c.decide d).2.decision = d := by
  rw [decide, if_pos (decide_true h)]

theorem claim_call (now : Time) (c : Cell) : (c.claim now).2.call = c.call := by
  rw [claim]
  split
  · rfl
  · rfl

theorem closeStaleClaim_call (now older : Time) (r : ToolResult) (c : Cell) :
    (c.closeStaleClaim now older r).2.call = c.call := by
  rw [closeStaleClaim]
  split
  · rfl
  · rfl

theorem complete_evolves (result : ToolResult) (c : Cell) : c.Evolves (c.complete result) :=
  ⟨rfl, fun _ => rfl, fun _ => rfl, fun _ => rfl⟩

end Cell

-- ============================================================================
-- Stores
-- ============================================================================

/-- The operations of a ticket store, each one atomic step; `now` is the reading
    of its clock. -/
class TicketStore (σ : Type) where
  empty : σ
  create : σ → TicketId → ToolCall → (now : Time) → Except PyError σ
  get : σ → TicketId → Option Ticket
  decide : σ → TicketId → Decision → Bool × σ
  claim : σ → TicketId → (now : Time) → Bool × σ
  closeStaleClaim : σ → TicketId → (now older : Time) → ToolResult → Bool × σ
  complete : σ → TicketId → ToolResult → Except PyError σ

/-- The operation answers as the cell of the ticket does, and changes that cell
    only. -/
structure ActsOn {σ : Type} (cell : σ → TicketId → Option Cell) (op : Cell → Bool × Cell) (s : σ)
    (t : TicketId) (res : Bool × σ) : Prop where
  answer : res.1 = (cell s t).any fun c => (op c).1
  cells : cell res.2 = Function.update (cell s) t ((cell s t).map fun c => (op c).2)

/-- A store is its cells. -/
class LawfulTicketStore (σ : Type) [TicketStore σ] where
  cell : σ → TicketId → Option Cell
  cell_empty : ∀ t, cell TicketStore.empty t = none
  get_eq : ∀ s t, TicketStore.get s t = (cell s t).map Cell.ticket
  create_fresh : ∀ s t call now, cell s t = none →
    ∃ s', TicketStore.create s t call now = .ok s' ∧
      cell s' = Function.update (cell s) t (some (Cell.filed call))
  decide_acts : ∀ s t d, ActsOn cell (Cell.decide d) s t (TicketStore.decide s t d)
  claim_acts : ∀ s t now, ActsOn cell (Cell.claim now) s t (TicketStore.claim s t now)
  closeStaleClaim_acts : ∀ s t now older result,
    ActsOn cell (Cell.closeStaleClaim now older result) s t
      (TicketStore.closeStaleClaim s t now older result)
  complete_known : ∀ s t result c, cell s t = some c →
    ∃ s', TicketStore.complete s t result = .ok s' ∧
      cell s' = Function.update (cell s) t (some (c.complete result))

/-- An operation that leaves the cell of the ticket as it is answers false. -/
theorem ActsOn.of_refused {σ : Type} {cell : σ → TicketId → Option Cell} {op : Cell → Bool × Cell}
    {s : σ} {t : TicketId} (h : ∀ c, cell s t = some c → op c = (false, c)) :
    ActsOn cell op s t (false, s) where
  answer := by
    cases hc : cell s t with
    | none => rfl
    | some c => simp [h c hc]
  cells := by
    cases hc : cell s t with
    | none => rw [Option.map_none, ← hc, Function.update_eq_self]
    | some c => rw [Option.map_some, h c hc, ← hc, Function.update_eq_self]

theorem ActsOn.of_done {σ : Type} {cell : σ → TicketId → Option Cell} {op : Cell → Bool × Cell}
    {s s' : σ} {t : TicketId} {c c' : Cell} (hc : cell s t = some c) (hop : op c = (true, c'))
    (hcells : cell s' = Function.update (cell s) t (some c')) :
    ActsOn cell op s t (true, s') where
  answer := by simp [hc, hop]
  cells := by rw [hcells, hc, Option.map_some, hop]

theorem ActsOn.of_true {σ : Type} {cell : σ → TicketId → Option Cell} {op : Cell → Bool × Cell}
    {s s' : σ} {t : TicketId} (h : ActsOn cell op s t (true, s')) :
    ∃ c, cell s t = some c ∧ (op c).1 = true ∧
      cell s' = Function.update (cell s) t (some (op c).2) := by
  have hanswer := h.answer
  have hcells := h.cells
  cases hc : cell s t with
  | none =>
      rw [hc] at hanswer
      cases hanswer
  | some c =>
      rw [hc] at hanswer hcells
      exact ⟨c, rfl, hanswer.symm, hcells⟩

theorem ActsOn.of_false {σ : Type} {cell : σ → TicketId → Option Cell} {op : Cell → Bool × Cell}
    {s s' : σ} {t : TicketId} (h : ActsOn cell op s t (false, s'))
    (hop : ∀ c, (op c).1 = false → (op c).2 = c) : cell s' = cell s := by
  have hanswer := h.answer
  have hcells := h.cells
  cases hc : cell s t with
  | none => rwa [hc, Option.map_none, ← hc, Function.update_eq_self] at hcells
  | some c =>
      rw [hc] at hanswer
      rwa [hc, Option.map_some, hop c hanswer.symm, ← hc, Function.update_eq_self] at hcells

end ToolGateway
