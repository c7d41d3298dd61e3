/-
  ToolGateway.Tickets.Sql

  `SqlTicketStore`: tickets as rows of one table.  `decide`, `claim`,
  `close_stale_claim` and `complete` are conditional UPDATEs; the row count says
  whether one was hit.  The primary key makes ids unique, and the columns that
  repeat one another (`status` and the decision, `claimed` and `claimed_at`)
  agree in every row.
-/

import ToolGateway.Tickets.Store

namespace ToolGateway

open Py

/-- A row, with the columns that repeat what the others say. -/
structure TicketRow where
  id : TicketId
  agentId : String
  tool : String
  status : DecisionStatus
  call : ToolCall
  decision : Decision
  claimed : Bool
  claimedAt : Option Time
  result : Option ToolResult
  createdAt : Time
  status_eq : status = decision.status
  claimed_eq : claimed = claimedAt.isSome

namespace TicketRow

/-- What the row knows of its ticket. -/
def cell (r : TicketRow) : Cell :=
  { call := r.call, decision := r.decision, claimedAt := r.claimedAt, result := r.result }

/-- `SET status, decision` -/
def setDecision (d : Decision) (r : TicketRow) : TicketRow :=
  { r with status := d.status, decision := d, status_eq := rfl }

/-- `SET claimed, claimed_at` -/
def setClaimed (now : Time) (r : TicketRow) : TicketRow :=
  { r with claimed := true, claimedAt := some now, claimed_eq := rfl }

/-- `SET result` -/
def setResult (result : ToolResult) (r : TicketRow) : TicketRow :=
  { r with result := some result }

end TicketRow

/-- The table `tool_gateway_tickets`. -/
structure SqlTicketStore where
  rows : List TicketRow
  ids_nodup : (rows.map TicketRow.id).Nodup

namespace SqlTicketStore

/-- An empty table. -/
def empty : SqlTicketStore := ⟨[], List.nodup_nil⟩

/-- The row under a primary key. -/
def row? (s : SqlTicketStore) (t : TicketId) : Option TicketRow := s.rows.find? (·.id = t)

/-- `INSERT`: refused when the primary key is taken. -/
def create (s : SqlTicketStore) (t : TicketId) (call : ToolCall) (now : Time) :
    Except PyError SqlTicketStore :=
  if h : t ∈ s.rows.map TicketRow.id then .error .integrityError
  else .ok
    { rows := s.rows ++ [
        { id := t, agentId := call.agentId, tool := call.fullName, status := .pending, call := call,
          decision := { status := .pending }, claimed := false, claimedAt := none, result := none,
          createdAt := now, status_eq := rfl, claimed_eq := rfl }]
      ids_nodup := by
        rw [List.map_append]
        refine List.nodup_append.mpr ⟨s.ids_nodup, List.nodup_singleton _, ?_⟩
        intro a ha b hb hab
        rw [List.mem_singleton.mp hb] at hab
        have hat : a = t := hab
        exact h (hat ▸ ha) }

/-- `SELECT`, by primary key. -/
def get (s : SqlTicketStore) (t : TicketId) : Option Ticket :=
  (s.row? t).map fun r => { call := r.call, decision := r.decision, result := r.result }

/-- `UPDATE … WHERE id = t AND cond`: the row count and the table. -/
def updateWhere (s : SqlTicketStore) (t : TicketId) (cond : TicketRow → Bool)
    (set : TicketRow → TicketRow) (set_id : ∀ r, (set r).id = r.id) : ℕ × SqlTicketStore :=
  (s.rows.countP fun r => r.id = t && cond r,
    { rows := s.rows.map fun r => if r.id = t && cond r then set r else r
      ids_nodup := by
        have hids : TicketRow.id ∘ (fun r => if r.id = t && cond r then set r else r)
            = TicketRow.id := by
          funext r
          simp only [Function.comp]
          split
          · exact set_id r
          · rfl
        rw [List.map_map, hids]
        exact s.ids_nodup })

/-- `UPDATE … WHERE status = 'pending'` -/
def decide (s : SqlTicketStore) (t : TicketId) (d : Decision) : Bool × SqlTicketStore :=
  let (rowcount, s') := s.updateWhere t (fun r => r.status = .pending) (.setDecision d)
    fun _ => rfl
  (rowcount == 1, s')

/-- `UPDATE … WHERE NOT claimed AND result IS NULL` -/
def claim (s : SqlTicketStore) (t : TicketId) (now : Time) : Bool × SqlTicketStore :=
  let (rowcount, s') := s.updateWhere t (fun r => !r.claimed && r.result.isNone)
    (.setClaimed now) fun _ => rfl
  (rowcount == 1, s')

/-- `UPDATE … WHERE claimed AND result IS NULL AND claimed_at <= cutoff` -/
def closeStaleClaim (s : SqlTicketStore) (t : TicketId) (now older : Time) (result : ToolResult) :
    Bool × SqlTicketStore :=
  let cutoff := now - older
  let (rowcount, s') := s.updateWhere t
    (fun r => r.claimed && r.result.isNone && r.claimedAt.any (· ≤ cutoff))
    (.setResult result) fun _ => rfl
  (rowcount == 1, s')

/-- No condition but the id: an unknown ticket is passed over in silence. -/
def complete (s : SqlTicketStore) (t : TicketId) (result : ToolResult) : SqlTicketStore :=
  (s.updateWhere t (fun _ => true) (.setResult result) fun _ => rfl).2

instance : TicketStore SqlTicketStore where
  empty := empty
  create := create
  get := get
  decide := decide
  claim := claim
  closeStaleClaim := closeStaleClaim
  complete s t result := .ok (s.complete t result)

-- ============================================================================
-- The cells
-- ============================================================================

/-- What the table knows of a ticket. -/
def cell (s : SqlTicketStore) (t : TicketId) : Option Cell := (s.row? t).map TicketRow.cell

/-- An UPDATE hits the row under the key, if there is one and it satisfies the
    condition, and no other. -/
theorem countP_eq {rows : List TicketRow} (h : (rows.map TicketRow.id).Nodup) (t : TicketId)
    (cond : TicketRow → Bool) :
    (rows.countP fun r => r.id = t && cond r)
      = if (rows.find? (·.id = t)).any cond then 1 else 0 := by
  induction rows with
  | nil => rfl
  | cons r rs ih =>
      rw [List.map_cons, List.nodup_cons] at h
      rw [List.countP_cons, ih h.2]
      by_cases hr : r.id = t
      · -- no other row has this id
        have hnone : rs.find? (·.id = t) = none := by
          rw [List.find?_eq_none]
          intro r' hr' heq
          have hid : r'.id = t := by simpa using heq
          exact h.1 (List.mem_map.mpr ⟨r', hr', by rw [hid, hr]⟩)
        simp [hr, hnone]
      · simp [hr]

theorem row?_updateWhere (s : SqlTicketStore) (t t' : TicketId) (cond : TicketRow → Bool)
    (set : TicketRow → TicketRow) (set_id : ∀ r, (set r).id = r.id) :
    (s.updateWhere t cond set set_id).2.row? t'
      = (s.row? t').map fun r => if r.id = t && cond r then set r else r := by
  have hids : ((fun r : TicketRow => Decidable.decide (r.id = t'))
      ∘ fun r => if r.id = t && cond r then set r else r)
        = fun r => Decidable.decide (r.id = t') := by
    funext r
    simp only [Function.comp]
    split
    · rw [set_id]
    · rfl
  simp only [updateWhere, row?, List.find?_map, hids]

theorem row?_id {s : SqlTicketStore} {t : TicketId} {r : TicketRow} (h : s.row? t = some r) :
    r.id = t := by
  simpa using List.find?_some h

theorem row?_of_mem {s : SqlTicketStore} {r : TicketRow} (h : r ∈ s.rows) : s.row? r.id = some r := by
  cases hr : s.row? r.id with
  | none => exact absurd (decide_eq_true rfl) (List.find?_eq_none.mp hr r h)
  | some r' =>
      have hmem : r' ∈ s.rows := List.mem_of_find?_eq_some hr
      rw [List.inj_on_of_nodup_map s.ids_nodup hmem h (row?_id hr)]

theorem mem_of_row? {s : SqlTicketStore} {t : TicketId} {r : TicketRow} (h : s.row? t = some r) :
    r ∈ s.rows :=
  List.mem_of_find?_eq_some h

/-- A conditional UPDATE acts on the cell under the key as `op` does, when `op`
    does on a row what the UPDATE does. -/
theorem updateWhere_acts (s : SqlTicketStore) (t : TicketId) (cond : TicketRow → Bool)
    (set : TicketRow → TicketRow) (set_id : ∀ r, (set r).id = r.id) (op : Cell → Bool × Cell)
    (hop : ∀ r : TicketRow, op r.cell = if cond r then (true, (set r).cell) else (false, r.cell)) :
    ActsOn cell op s t ((s.updateWhere t cond set set_id).1 == 1,
      (s.updateWhere t cond set set_id).2) where
  answer := by
    simp only [updateWhere, countP_eq s.ids_nodup t cond, cell]
    cases hr : s.row? t with
    | none =>
        have hfind : s.rows.find? (·.id = t) = none := hr
        simp [hfind]
    | some r =>
        have hfind : s.rows.find? (·.id = t) = some r := hr
        simp only [hfind, Option.any_some, Option.map_some, hop]
        cases cond r with
        | true => rfl
        | false => rfl
  cells := by
    funext t'
    simp only [cell, row?_updateWhere]
    by_cases ht : t' = t
    · subst ht
      rw [Function.update_self]
      cases hr : s.row? t' with
      | none => rfl
      | some r =>
          simp only [Option.map_some, hop, row?_id hr]
          cases cond r with
          | true => simp
          | false => simp
    · rw [Function.update_of_ne ht, cell]
      cases hr : s.row? t' with
      | none => rfl
      | some r =>
          have hid : r.id ≠ t := by
            rw [row?_id hr]
            exact ht
          simp [hid]

theorem decide_acts (s : SqlTicketStore) (t : TicketId) (d : Decision) :
    ActsOn cell (Cell.decide d) s t (s.decide t d) := by
  refine updateWhere_acts s t _ (.setDecision d) (fun _ => rfl) (Cell.decide d) fun r => ?_
  simp only [Cell.decide, TicketRow.cell, TicketRow.setDecision, r.status_eq]
  exact if_congr decide_eq_true_iff.symm rfl rfl

theorem claim_acts (s : SqlTicketStore) (t : TicketId) (now : Time) :
    ActsOn cell (Cell.claim now) s t (s.claim t now) := by
  refine updateWhere_acts s t _ (.setClaimed now) (fun _ => rfl) (Cell.claim now) fun r => ?_
  simp only [Cell.claim, TicketRow.cell, TicketRow.setClaimed, r.claimed_eq, Option.not_isSome]
  rfl

theorem closeStaleClaim_acts (s : SqlTicketStore) (t : TicketId) (now older : Time)
    (result : ToolResult) :
    ActsOn cell (Cell.closeStaleClaim now older result) s t
      (s.closeStaleClaim t now older result) := by
  refine updateWhere_acts s t _ (.setResult result) (fun _ => rfl)
    (Cell.closeStaleClaim now older result) fun r => ?_
  have hstale : (r.claimed && r.result.isNone && r.claimedAt.any (· ≤ now - older))
      = (r.result.isNone && r.claimedAt.any (older ≤ now - ·)) := by
    rw [r.claimed_eq]
    cases r.claimedAt with
    | none => simp
    | some at' =>
        have hcutoff : at' ≤ now - older ↔ older ≤ now - at' := le_sub_comm
        simp [hcutoff]
  rw [hstale]
  rfl

theorem cell_complete (s : SqlTicketStore) (t : TicketId) (result : ToolResult) :
    cell (s.complete t result)
      = Function.update (cell s) t ((cell s t).map (Cell.complete result)) :=
  (updateWhere_acts s t (fun _ => true) (.setResult result) (fun _ => rfl)
    (fun c => (true, c.complete result)) fun _ => rfl).cells

instance : LawfulTicketStore SqlTicketStore where
  cell := cell
  cell_empty _ := rfl
  get_eq s t := by
    simp only [TicketStore.get, get, cell, Option.map_map]
    rfl
  create_fresh s t call now hfresh := by
    have hunknown : s.row? t = none := by simpa [cell] using hfresh
    have hid : t ∉ s.rows.map TicketRow.id := by
      intro hmem
      obtain ⟨r, hr, hid⟩ := List.mem_map.mp hmem
      exact absurd (decide_eq_true hid) (List.find?_eq_none.mp hunknown r hr)
    refine ⟨_, dif_neg hid, ?_⟩
    funext t'
    by_cases ht : t' = t
    · subst ht
      simp only [cell, row?, List.find?_append, Function.update_self]
      rw [show s.rows.find? (·.id = t') = none from hunknown]
      simp [TicketRow.cell, Cell.filed]
    · rw [Function.update_of_ne ht]
      simp [cell, row?, List.find?_append, Ne.symm ht]
  decide_acts := decide_acts
  claim_acts := claim_acts
  closeStaleClaim_acts := closeStaleClaim_acts
  complete_known s t result c hc := by
    refine ⟨s.complete t result, rfl, ?_⟩
    rw [cell_complete, hc]
    rfl

end SqlTicketStore

end ToolGateway
