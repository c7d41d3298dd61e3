/-
  ToolGateway.Tickets.SameMachine

  The two stores side by side: the same operations at the same clock readings,
  each store from empty.  `Same` relates the dicts of the one to the rows of the
  other; every operation keeps it and answers alike.  Only a listed ticket that
  has a result shows a difference: the SQL store does not read that column for
  its queue.
-/

import ToolGateway.Tickets.Paging

namespace ToolGateway

open Py

-- ============================================================================
-- Runs
-- ============================================================================

section
variable {σ : Type} [TicketStore σ] [TicketQueue σ]

/-- The answers to one operation after another. -/
def answers (s : σ) : List (Time × TicketOp) → List TicketAnswer
  | [] => []
  | (now, op) :: ops => (op.perform s now).1 :: answers (op.perform s now).2 ops

/-- What a client of the store may ask for, at this reading of the clock: an id
    is fresh when it is filed, later than all before, and known when a result is
    stored; pages are not empty, and of all tools. -/
def TicketOp.proper (s : σ) (filed : Option Time) (now : Time) : TicketOp → Prop
  | .create t _ => TicketStore.get s t = none ∧ ∀ last ∈ filed, last < now
  | .complete t _ => (TicketStore.get s t).isSome = true
  | .pending q => 1 ≤ q.limit ∧ givenFilter q.filter.tool = none
  | _ => True

/-- When the last ticket was filed. -/
def TicketOp.filedAt (filed : Option Time) (now : Time) : TicketOp → Option Time
  | .create _ _ => some now
  | _ => filed

/-- Each operation is proper where it comes. -/
def Proper (s : σ) (filed : Option Time) : List (Time × TicketOp) → Prop
  | [] => True
  | (now, op) :: ops =>
      op.proper s filed now ∧ Proper (op.perform s now).2 (op.filedAt filed now) ops

/-- A result is stored only on a ticket that has its verdict. -/
def TicketOp.afterVerdict (s : σ) : TicketOp → Prop
  | .complete t _ | .closeStaleClaim t _ _ =>
      ∀ ticket ∈ TicketStore.get s t, ticket.decision.status ≠ .pending
  | _ => True

/-- Each operation that stores a result comes after the verdict. -/
def AfterVerdict (s : σ) : List (Time × TicketOp) → Prop
  | [] => True
  | (now, op) :: ops => op.afterVerdict s ∧ AfterVerdict (op.perform s now).2 ops

end

/-- The answer without the results of listed tickets. -/
def TicketAnswer.withoutListedResults : TicketAnswer → TicketAnswer
  | .page tickets => .page (tickets.map fun e => (e.1, { e.2 with result := none }))
  | a => a

-- ============================================================================
-- Dicts and rows
-- ============================================================================

namespace TicketRow

/-- The ticket that is read off a row. -/
def ticket (r : TicketRow) : Ticket := { call := r.call, decision := r.decision, result := r.result }

/-- The row as an item of the memory store. -/
def item (r : TicketRow) : TicketId × Ticket := (r.id, r.ticket)

end TicketRow

theorem lookup_items (rows : List TicketRow) (t : TicketId) :
    (rows.map TicketRow.item).lookup t = (rows.find? (·.id = t)).map TicketRow.ticket := by
  induction rows with
  | nil => rfl
  | cons r rows ih =>
      rw [List.map_cons, TicketRow.item, List.lookup_cons, List.find?_cons]
      by_cases hr : r.id = t
      · simp [hr]
      · have hne : (t == r.id) = false := by simpa using Ne.symm hr
        simp [hne, hr, ih]

/-- A conditional UPDATE that hits no row changes nothing. -/
theorem update_missed (s : SqlTicketStore) {t : TicketId} {cond : TicketRow → Bool}
    (set : TicketRow → TicketRow) (h : (s.row? t).any cond = false) :
    (s.rows.map fun r => if r.id = t && cond r then set r else r) = s.rows := by
  refine (List.map_congr_left fun r hr => ?_).trans (List.map_id s.rows)
  refine if_neg fun hit => ?_
  obtain ⟨hid, hcond⟩ := Bool.and_eq_true_iff.mp hit
  have hrow := SqlTicketStore.row?_of_mem hr
  rw [of_decide_eq_true hid] at hrow
  rw [hrow, Option.any_some, hcond] at h
  cases h

/-- One that hits a row sets its item. -/
theorem update_hit {rows : List TicketRow} (hnodup : (rows.map TicketRow.id).Nodup) {t : TicketId}
    {cond : TicketRow → Bool} {set : TicketRow → TicketRow} (set_id : ∀ r, (set r).id = r.id)
    {r : TicketRow} (hrow : rows.find? (·.id = t) = some r) (hcond : cond r = true) :
    (rows.map fun r => if r.id = t && cond r then set r else r).map TicketRow.item
      = Dict.set (rows.map TicketRow.item) t (set r).ticket := by
  induction rows with
  | nil => cases hrow
  | cons r' rows ih =>
      rw [List.map_cons, List.nodup_cons] at hnodup
      rw [List.find?_cons] at hrow
      by_cases hr : r'.id = t
      · have hsame : r' = r := by simpa [hr] using hrow
        have hothers : (rows.map fun r => if r.id = t && cond r then set r else r) = rows := by
          refine (List.map_congr_left fun r₁ hr₁ => ?_).trans (List.map_id rows)
          have hne : r₁.id ≠ t := fun heq =>
            hnodup.1 (hr ▸ heq ▸ List.mem_map_of_mem hr₁)
          exact if_neg (by simp [hne])
        rw [List.map_cons, hothers, hsame]
        simp [TicketRow.item, Dict.set, set_id, hsame ▸ hr, hcond]
      · have hrow' : rows.find? (·.id = t) = some r := by simpa [hr] using hrow
        rw [List.map_cons, List.map_cons, ih hnodup.2 hrow']
        simp [TicketRow.item, Dict.set, hr]

-- ============================================================================
-- The relation
-- ============================================================================

/-- The dict holds the rows in the order of their filing. -/
structure Same (m : MemoryTicketStore) (q : SqlTicketStore) (filed : Option Time) : Prop where
  tickets : m.tickets = q.rows.map TicketRow.item
  claimed : ∀ r ∈ q.rows, m.claimed.lookup r.id = r.claimedAt
  agents : ∀ r ∈ q.rows, r.agentId = r.call.agentId
  sorted : q.rows.Pairwise fun r r' => r.createdAt < r'.createdAt
  filed : ∀ r ∈ q.rows, ∃ last ∈ filed, r.createdAt ≤ last

namespace Same

variable {m m' : MemoryTicketStore} {q : SqlTicketStore} {filed : Option Time} {t : TicketId}

theorem empty : Same MemoryTicketStore.empty SqlTicketStore.empty none where
  tickets := rfl
  claimed _ hr := absurd hr List.not_mem_nil
  agents _ hr := absurd hr List.not_mem_nil
  sorted := List.Pairwise.nil
  filed _ hr := absurd hr List.not_mem_nil

theorem lookup (h : Same m q filed) (t : TicketId) :
    m.tickets.lookup t = (q.row? t).map TicketRow.ticket := by
  rw [h.tickets, lookup_items]
  rfl

theorem claimed_row (h : Same m q filed) {r : TicketRow} (hr : q.row? t = some r) :
    m.claimed.lookup t = r.claimedAt := by
  have hclaimed := h.claimed r (SqlTicketStore.mem_of_row? hr)
  rwa [SqlTicketStore.row?_id hr] at hclaimed

section
variable {cond : TicketRow → Bool} {set : TicketRow → TicketRow} {set_id : ∀ r, (set r).id = r.id}

/-- What an UPDATE must leave alone. -/
structure Keeps (set : TicketRow → TicketRow) : Prop where
  agent : ∀ r, (set r).agentId = r.agentId
  call : ∀ r, (set r).call = r.call
  created : ∀ r, (set r).createdAt = r.createdAt

theorem update (h : Same m q filed) (hkeeps : Keeps set)
    (htickets : m'.tickets = (q.updateWhere t cond set set_id).2.rows.map TicketRow.item)
    (hclaimed : ∀ r ∈ q.rows, m'.claimed.lookup r.id
      = (if r.id = t && cond r then set r else r).claimedAt) :
    Same m' (q.updateWhere t cond set set_id).2 filed := by
  have hcreated : ∀ r, (if r.id = t && cond r then set r else r).createdAt = r.createdAt := by
    intro r
    split
    · exact hkeeps.created r
    · rfl
  have hrows : ∀ r' ∈ (q.updateWhere t cond set set_id).2.rows,
      ∃ r ∈ q.rows, r' = if r.id = t && cond r then set r else r := by
    intro r' hr'
    obtain ⟨r, hr, heq⟩ := List.mem_map.mp hr'
    exact ⟨r, hr, heq.symm⟩
  refine ⟨htickets, fun r' hr' => ?_, fun r' hr' => ?_, ?_, fun r' hr' => ?_⟩
  · obtain ⟨r, hr, rfl⟩ := hrows r' hr'
    rw [← hclaimed r hr]
    split
    · rw [set_id]
    · rfl
  · obtain ⟨r, hr, rfl⟩ := hrows r' hr'
    split
    · rw [hkeeps.agent, hkeeps.call]
      exact h.agents r hr
    · exact h.agents r hr
  · refine List.pairwise_map.mpr (h.sorted.imp fun {r r'} hlt => ?_)
    rw [hcreated, hcreated]
    exact hlt
  · obtain ⟨r, hr, rfl⟩ := hrows r' hr'
    rw [hcreated]
    exact h.filed r hr

/-- The ticket of a row is overwritten on both sides. -/
theorem withTicket (h : Same m q filed) (hkeeps : Keeps set)
    (hat : ∀ r, (set r).claimedAt = r.claimedAt) {r : TicketRow} (hrow : q.row? t = some r)
    (hcond : cond r = true) :
    Same (m.withTicket t (set r).ticket) (q.updateWhere t cond set set_id).2 filed := by
  refine h.update hkeeps ?_ fun r' hr' => ?_
  · show m.tickets.set t (set r).ticket = _
    rw [h.tickets]
    exact (update_hit q.ids_nodup set_id hrow hcond).symm
  · rw [show (m.withTicket t (set r).ticket).claimed = m.claimed from rfl, h.claimed r' hr']
    split
    · exact (hat r').symm
    · rfl

end

end Same

-- ============================================================================
-- The SQL statements
-- ============================================================================

namespace SqlTicketStore

theorem updateWhere_missed (s : SqlTicketStore) {t : TicketId} {cond : TicketRow → Bool}
    (set : TicketRow → TicketRow) (set_id : ∀ r, (set r).id = r.id)
    (h : (s.row? t).any cond = false) : s.updateWhere t cond set set_id = (0, s) := by
  have hcount : (s.rows.countP fun r => r.id = t && cond r) = 0 := by
    rw [countP_eq s.ids_nodup t cond]
    exact if_neg (by rw [show s.rows.find? (·.id = t) = s.row? t from rfl, h]; exact Bool.false_ne_true)
  have hrows := update_missed s set h
  simp only [updateWhere, hcount, hrows]

theorem updateWhere_hit (s : SqlTicketStore) {t : TicketId} {cond : TicketRow → Bool}
    (set : TicketRow → TicketRow) (set_id : ∀ r, (set r).id = r.id) {r : TicketRow}
    (hrow : s.row? t = some r) (hcond : cond r = true) :
    (s.updateWhere t cond set set_id).1 = 1 := by
  show (s.rows.countP fun r => r.id = t && cond r) = 1
  rw [countP_eq s.ids_nodup t cond]
  exact if_pos (by rw [show s.rows.find? (·.id = t) = some r from hrow]; exact hcond)

end SqlTicketStore

-- ============================================================================
-- One operation
-- ============================================================================

namespace Same

variable {m : MemoryTicketStore} {q : SqlTicketStore} {filed : Option Time} {t : TicketId}

theorem get_eq (h : Same m q filed) (t : TicketId) : m.get t = q.get t := by
  show m.tickets.lookup t = _
  rw [h.lookup]
  rfl

theorem create (h : Same m q filed) (hfresh : m.get t = none) (call : ToolCall) {now : Time}
    (hnow : ∀ last ∈ filed, last < now) :
    ∃ q', q.create t call now = .ok q' ∧ Same (m.create t call) q' (some now) := by
  have hrow : q.row? t = none := by
    have hlookup : m.tickets.lookup t = none := hfresh
    rw [h.lookup] at hlookup
    exact Option.map_eq_none_iff.mp hlookup
  have hid : ∀ r ∈ q.rows, r.id ≠ t := fun r hr heq => by
    have hfound := SqlTicketStore.row?_of_mem hr
    rw [heq, hrow] at hfound
    cases hfound
  have hnot : t ∉ q.rows.map TicketRow.id := fun hmem => by
    obtain ⟨r, hr, heq⟩ := List.mem_map.mp hmem
    exact hid r hr heq
  have hearlier : ∀ r ∈ q.rows, r.createdAt < now := fun r hr => by
    obtain ⟨last, hlast, hle⟩ := h.filed r hr
    exact hle.trans_lt (hnow last hlast)
  refine ⟨_, dif_neg hnot, ?_, ?_, ?_, ?_, ?_⟩
  · show m.tickets.set t _ = _
    rw [Dict.set_absent hfresh, h.tickets, List.map_append]
    rfl
  · intro r hr
    rcases List.mem_append.mp hr with hold | hnew
    · exact h.claimed r hold
    · rw [List.mem_singleton.mp hnew]
      cases hclaimed : m.claimed.lookup t with
      | none => exact hclaimed
      | some at' =>
          have hknown := m.claimed_known t (by rw [hclaimed]; rfl)
          rw [show m.tickets.lookup t = none from hfresh] at hknown
          cases hknown
  · intro r hr
    rcases List.mem_append.mp hr with hold | hnew
    · exact h.agents r hold
    · rw [List.mem_singleton.mp hnew]
  · refine List.pairwise_append.mpr ⟨h.sorted, List.pairwise_singleton _ _, fun r hr r' hr' => ?_⟩
    rw [List.mem_singleton.mp hr']
    exact hearlier r hr
  · intro r hr
    refine ⟨now, rfl, ?_⟩
    rcases List.mem_append.mp hr with hold | hnew
    · exact (hearlier r hold).le
    · rw [List.mem_singleton.mp hnew]

/-- A conditional UPDATE against what the memory store does on the ticket. -/
theorem conditional (h : Same m q filed) {cond : TicketRow → Bool} (set : TicketRow → TicketRow)
    (set_id : ∀ r, (set r).id = r.id) {res : Bool × MemoryTicketStore}
    (unknown : m.tickets.lookup t = none → res = (false, m))
    (missed : ∀ r, q.row? t = some r → m.tickets.lookup t = some r.ticket → cond r = false →
      res = (false, m))
    (hit : ∀ r, q.row? t = some r → m.tickets.lookup t = some r.ticket → cond r = true →
      res.1 = true ∧ Same res.2 (q.updateWhere t cond set set_id).2 filed) :
    res.1 = ((q.updateWhere t cond set set_id).1 == 1) ∧
      Same res.2 (q.updateWhere t cond set set_id).2 filed := by
  have hlookup := h.lookup t
  cases hrow : q.row? t with
  | none =>
      rw [hrow] at hlookup
      rw [q.updateWhere_missed set set_id (by rw [hrow]; rfl), unknown hlookup]
      exact ⟨rfl, h⟩
  | some r =>
      rw [hrow] at hlookup
      cases hcond : cond r with
      | false =>
          rw [q.updateWhere_missed set set_id (by rw [hrow]; exact hcond),
            missed r hrow hlookup hcond]
          exact ⟨rfl, h⟩
      | true =>
          obtain ⟨hanswer, hsame⟩ := hit r hrow hlookup hcond
          rw [hanswer, q.updateWhere_hit set set_id hrow hcond]
          exact ⟨rfl, hsame⟩

theorem decide (h : Same m q filed) (t : TicketId) (d : Decision) :
    (m.decide t d).1 = (q.decide t d).1 ∧ Same (m.decide t d).2 (q.decide t d).2 filed := by
  refine h.conditional (.setDecision d) (fun _ => rfl) (fun hnone => ?_)
    (fun r _ hlookup hcond => ?_) fun r hrow hlookup hcond => ?_
  · simp only [MemoryTicketStore.decide, hnone]
  · have hdecided : r.ticket.decision.status ≠ .pending := r.status_eq ▸ of_decide_eq_false hcond
    simp only [MemoryTicketStore.decide, hlookup, if_pos hdecided]
  · have hpending : r.ticket.decision.status = .pending := r.status_eq ▸ of_decide_eq_true hcond
    simp only [MemoryTicketStore.decide, hlookup, if_neg (not_not.mpr hpending)]
    have hkeeps : Keeps (TicketRow.setDecision d) := ⟨fun _ => rfl, fun _ => rfl, fun _ => rfl⟩
    exact ⟨trivial, h.withTicket hkeeps (fun _ => rfl) hrow hcond⟩

theorem claim (h : Same m q filed) (t : TicketId) (now : Time) :
    (m.claim t now).1 = (q.claim t now).1 ∧ Same (m.claim t now).2 (q.claim t now).2 filed := by
  have hfree : ∀ r, q.row? t = some r →
      (!r.claimed && r.result.isNone) = !(r.ticket.result.isSome || m.claimed.has t) := by
    intro r hrow
    rw [MemoryTicketStore.free_iff, h.claimed_row hrow, r.claimed_eq, Option.not_isSome]
    rfl
  refine h.conditional (.setClaimed now) (fun _ => rfl) (fun hnone => m.claim_unknown now hnone)
    (fun r hrow hlookup hcond => ?_) fun r hrow hlookup hcond => ?_
  · rw [hfree r hrow] at hcond
    exact m.claim_taken now hlookup ((Bool.not_eq_false' _).mp hcond)
  · have hcond' := hcond
    rw [hfree r hrow] at hcond'
    obtain ⟨hanswer, htickets, hclaimed⟩ := m.claim_free now hlookup ((Bool.not_eq_true' _).mp hcond')
    refine ⟨hanswer, h.update ⟨fun _ => rfl, fun _ => rfl, fun _ => rfl⟩ ?_ fun r' hr' => ?_⟩
    · -- the columns of the claim are no part of the ticket
      rw [htickets, h.tickets]
      show _ = (q.rows.map _).map TicketRow.item
      rw [List.map_map]
      refine List.map_congr_left fun r' _ => ?_
      show r'.item = TicketRow.item (if _ then _ else _)
      split
      · rfl
      · rfl
    · rw [hclaimed]
      by_cases ht : r'.id = t
      · have hsame : r' = r := by
          have hfound := SqlTicketStore.row?_of_mem hr'
          rw [ht, hrow] at hfound
          exact (Option.some.inj hfound).symm
        rw [ht, Dict.lookup_set_self, if_pos (by rw [hsame, hcond, decide_eq_true rfl]; rfl)]
        rfl
      · rw [Dict.lookup_set_of_ne _ _ ht, if_neg (by simp [ht])]
        exact h.claimed r' hr'

theorem closeStaleClaim (h : Same m q filed) (t : TicketId) (now older : Time) (result : ToolResult) :
    (m.closeStaleClaim t now older result).1 = (q.closeStaleClaim t now older result).1 ∧
      Same (m.closeStaleClaim t now older result).2 (q.closeStaleClaim t now older result).2 filed := by
  have hstale : ∀ r, q.row? t = some r →
      (r.claimed && r.result.isNone && r.claimedAt.any (· ≤ now - older))
        = (r.ticket.result.isNone && (m.claimed.lookup t).any (older ≤ now - ·)) := by
    intro r hrow
    rw [h.claimed_row hrow, r.claimed_eq]
    cases r.claimedAt with
    | none => simp
    | some at' =>
        have hcutoff : at' ≤ now - older ↔ older ≤ now - at' := le_sub_comm
        simp [hcutoff, TicketRow.ticket]
  refine h.conditional (.setResult result) (fun _ => rfl) (fun hnone => ?_)
    (fun r hrow hlookup hcond => ?_) fun r hrow hlookup hcond => ?_
  · simp only [MemoryTicketStore.closeStaleClaim, hnone]
  · rw [hstale r hrow] at hcond
    exact m.closeStaleClaim_refused hlookup hcond
  · have hkeeps : Keeps (TicketRow.setResult result) := ⟨fun _ => rfl, fun _ => rfl, fun _ => rfl⟩
    rw [m.closeStaleClaim_stale hlookup ((hstale r hrow).symm.trans hcond)]
    exact ⟨rfl, h.withTicket hkeeps (fun _ => rfl) hrow hcond⟩

theorem complete (h : Same m q filed) (hknown : (m.get t).isSome = true) (result : ToolResult) :
    ∃ m', m.complete t result = .ok m' ∧ Same m' (q.complete t result) filed := by
  obtain ⟨ticket, hlookup⟩ := Option.isSome_iff_exists.mp hknown
  have hlookup' : m.tickets.lookup t = some ticket := hlookup
  obtain ⟨r, hrow, hticket⟩ := Option.map_eq_some_iff.mp ((h.lookup t).symm.trans hlookup')
  refine ⟨m.withTicket t { ticket with result := some result }, ?_, ?_⟩
  · simp only [MemoryTicketStore.complete, hlookup']
  · have hkeeps : Keeps (TicketRow.setResult result) := ⟨fun _ => rfl, fun _ => rfl, fun _ => rfl⟩
    have hsame : Same (m.withTicket t (r.setResult result).ticket)
        (q.updateWhere t (fun _ => true) (.setResult result) fun _ => rfl).2 filed :=
      h.withTicket hkeeps (fun _ => rfl) hrow rfl
    rw [← hticket]
    exact hsame

end Same

-- ============================================================================
-- A page of the queue
-- ============================================================================

namespace Same

variable {m : MemoryTicketStore} {q : SqlTicketStore} {filed : Option Time}

section
variable [SqlDialect]

/-- Rows in the order of their filing are in the order of the queue. -/
theorem select_eq (h : Same m q filed) (cond : TicketRow → Bool) :
    q.select cond = q.rows.filter cond := by
  refine List.Pairwise.insertionSort_eq ?_
  refine (h.sorted.filter cond).imp fun {r r'} hlt => ?_
  show (r.createdAt < r'.createdAt || _) = true
  rw [decide_eq_true hlt, Bool.true_or]

/-- Past a cursor stand the rows filed later. -/
theorem itemsAfter_rows {rows : List TicketRow}
    (hsorted : rows.Pairwise fun r r' => r.createdAt < r'.createdAt)
    (hnodup : (rows.map TicketRow.id).Nodup) {cursor : TicketRow} (hcursor : cursor ∈ rows) :
    MemoryTicketStore.itemsAfter (some cursor.id) (rows.map TicketRow.item)
      = (rows.filter (SqlTicketStore.pastCursor cursor.createdAt cursor.id)).map TicketRow.item := by
  induction rows with
  | nil => cases hcursor
  | cons r rows ih =>
      rw [List.pairwise_cons] at hsorted
      rw [List.map_cons, List.nodup_cons] at hnodup
      rw [List.map_cons]
      by_cases hr : r = cursor
      · subst hr
        have hself : SqlTicketStore.pastCursor r.createdAt r.id r = false := by
          have hirrefl := SqlTicketStore.before_irrefl r
          rw [← SqlTicketStore.pastCursor_iff] at hirrefl
          simpa using hirrefl
        have hlater : rows.filter (SqlTicketStore.pastCursor r.createdAt r.id) = rows := by
          refine List.filter_eq_self.mpr fun r' hr' => ?_
          exact (SqlTicketStore.pastCursor_iff r r').mpr (Or.inl (hsorted.1 r' hr'))
        have hitem : r.item.1 = r.id := rfl
        rw [MemoryTicketStore.itemsAfter_cons_self hitem, List.filter_cons, hself, hlater]
        rfl
      · have hin : cursor ∈ rows := (List.mem_cons.mp hcursor).resolve_left (Ne.symm hr)
        have hid : r.id ≠ cursor.id := fun heq => hnodup.1 (heq ▸ List.mem_map_of_mem hin)
        have hearlier : SqlTicketStore.pastCursor cursor.createdAt cursor.id r = false := by
          have hlt := hsorted.1 cursor hin
          simp [SqlTicketStore.pastCursor, hlt.le.not_gt, hlt.ne]
        rw [MemoryTicketStore.itemsAfter_cons_of_ne hid, ih hsorted.2 hnodup.2 hin, List.filter_cons,
          hearlier]
        rfl

omit [SqlDialect] in
/-- Past an unknown cursor stands nothing. -/
theorem itemsAfter_unknown {rows : List TicketRow} {c : TicketId} (h : ∀ r ∈ rows, r.id ≠ c) :
    MemoryTicketStore.itemsAfter (some c) (rows.map TicketRow.item) = [] := by
  induction rows with
  | nil => rfl
  | cons r rows ih =>
      rw [List.map_cons, MemoryTicketStore.itemsAfter_cons_of_ne (h r List.mem_cons_self)]
      exact ih fun r' hr' => h r' (List.mem_cons_of_mem r hr')

/-- Without a tool filter the two conditions are one. -/
theorem wanted_eq (h : Same m q filed) {filter : QueueFilter} (htool : givenFilter filter.tool = none)
    {r : TicketRow} (hr : r ∈ q.rows) :
    MemoryTicketStore.wanted filter r.ticket = SqlTicketStore.wanted filter r := by
  unfold MemoryTicketStore.wanted SqlTicketStore.wanted
  rw [htool, r.status_eq, h.agents r hr]
  rfl

/-- The rows of a page. -/
theorem pending_rows (h : Same m q filed) {query : PageQuery} (hlimit : 1 ≤ query.limit)
    (htool : givenFilter query.filter.tool = none) :
    ∃ page : List TicketRow, (∀ r ∈ page, r ∈ q.rows ∧ r.status = .pending) ∧
      m.pending query = page.map TicketRow.item ∧
      q.pending query = page.map SqlTicketStore.listedTicket := by
  have hitems : m.tickets.items = q.rows.map TicketRow.item := by
    rw [h.tickets]
    refine Dict.items_eq_self ?_
    rw [List.map_map]
    exact q.ids_nodup
  -- the page of the memory store, once the rows past the cursor are known
  have hmemory : ∀ past : TicketRow → Bool,
      MemoryTicketStore.itemsAfter query.after (q.rows.map TicketRow.item)
        = (q.rows.filter past).map TicketRow.item →
      m.pending query = ((q.rows.filter fun r =>
        SqlTicketStore.wanted query.filter r && past r).take query.limit).map TicketRow.item := by
    intro past hafter
    rw [m.pending_eq query hlimit, hitems, hafter, List.filter_map, ← List.map_take,
      ← List.filter_filter]
    refine congrArg (fun rows : List TicketRow => (rows.take query.limit).map TicketRow.item) ?_
    exact List.filter_congr fun r hr => h.wanted_eq htool (List.mem_of_mem_filter hr)
  have hpage : ∀ past : TicketRow → Bool,
      ∀ r ∈ (q.rows.filter fun r => SqlTicketStore.wanted query.filter r && past r).take query.limit,
        r ∈ q.rows ∧ r.status = .pending := by
    intro past r hr
    obtain ⟨hmem, hwanted⟩ := List.mem_filter.mp (List.mem_of_mem_take hr)
    simp only [SqlTicketStore.wanted, Bool.and_eq_true, decide_eq_true_eq] at hwanted
    exact ⟨hmem, hwanted.1.1.1⟩
  cases hafter : query.after with
  | none =>
      have hall : (q.rows.filter fun _ => true) = q.rows := List.filter_eq_self.mpr fun _ _ => rfl
      refine ⟨_, hpage fun _ => true, hmemory (fun _ => true) ?_, ?_⟩
      · rw [hafter, hall]
        rfl
      · simp only [SqlTicketStore.pending, hafter, h.select_eq, Bool.and_true]
  | some c =>
      cases hcursor : q.row? c with
      | none =>
          have hunknown : ∀ r ∈ q.rows, r.id ≠ c := fun r hr heq => by
            have hfound := SqlTicketStore.row?_of_mem hr
            rw [heq, hcursor] at hfound
            cases hfound
          have hnone : (q.rows.filter fun _ => false) = [] :=
            List.filter_eq_nil_iff.mpr fun _ _ => Bool.false_ne_true
          refine ⟨[], fun r hr => absurd hr List.not_mem_nil, ?_, ?_⟩
          · rw [hmemory (fun _ => false) (by rw [hafter, itemsAfter_unknown hunknown, hnone]; rfl)]
            simp
          · simp only [SqlTicketStore.pending, hafter, hcursor, List.map_nil]
      | some cursor =>
          refine ⟨_, hpage _, hmemory (SqlTicketStore.pastCursor cursor.createdAt cursor.id) ?_, ?_⟩
          · rw [hafter, ← SqlTicketStore.row?_id hcursor]
            exact itemsAfter_rows h.sorted q.ids_nodup (SqlTicketStore.mem_of_row? hcursor)
          · simp only [SqlTicketStore.pending, hafter, hcursor, h.select_eq,
              SqlTicketStore.row?_id hcursor]

end

end Same

-- ============================================================================
-- Every run
-- ============================================================================

/-- No row that waits for a verdict has a result. -/
def Settled (q : SqlTicketStore) : Prop := ∀ r ∈ q.rows, r.status = .pending → r.result = none

section
variable [SqlDialect] {m : MemoryTicketStore} {q : SqlTicketStore} {filed : Option Time}

theorem Same.pending (h : Same m q filed) {query : PageQuery} (hlimit : 1 ≤ query.limit)
    (htool : givenFilter query.filter.tool = none) :
    (TicketAnswer.page (m.pending query)).withoutListedResults
        = (TicketAnswer.page (q.pending query)).withoutListedResults ∧
      (Settled q → m.pending query = q.pending query) := by
  obtain ⟨page, hrows, hm, hq⟩ := h.pending_rows hlimit htool
  rw [hm, hq]
  refine ⟨?_, fun hsettled => List.map_congr_left fun r hr => ?_⟩
  · simp only [TicketAnswer.withoutListedResults, List.map_map]
    rfl
  · have hnone := hsettled r (hrows r hr).1 (hrows r hr).2
    show (r.id, { call := r.call, decision := r.decision, result := r.result : Ticket }) = _
    rw [hnone]
    rfl

/-- Both stores answer an operation alike and stay the same. -/
theorem Same.perform (h : Same m q filed) (now : Time) (op : TicketOp) (hop : op.proper m filed now) :
    (op.perform m now).1.withoutListedResults = (op.perform q now).1.withoutListedResults ∧
      (Settled q → (op.perform m now).1 = (op.perform q now).1) ∧
      Same (op.perform m now).2 (op.perform q now).2 (op.filedAt filed now) := by
  have halike : ∀ {a a' : TicketAnswer}, a = a' →
      a.withoutListedResults = a'.withoutListedResults ∧ (Settled q → a = a') :=
    fun heq => ⟨congrArg _ heq, fun _ => heq⟩
  cases op with
  | create t call =>
      obtain ⟨q', hcreate, hsame⟩ := h.create hop.1 call hop.2
      have hperform : TicketOp.perform q now (.create t call) = (.done, q') := by
        simp only [TicketOp.perform, TicketStore.create, hcreate]
      rw [hperform]
      exact ⟨rfl, fun _ => rfl, hsame⟩
  | get t =>
      have hget : TicketAnswer.ticket (m.get t) = .ticket (q.get t) := congrArg _ (h.get_eq t)
      exact ⟨(halike hget).1, (halike hget).2, h⟩
  | decide t d =>
      obtain ⟨hanswer, hsame⟩ := h.decide t d
      exact ⟨(halike (congrArg TicketAnswer.flag hanswer)).1,
        (halike (congrArg TicketAnswer.flag hanswer)).2, hsame⟩
  | claim t =>
      obtain ⟨hanswer, hsame⟩ := h.claim t now
      exact ⟨(halike (congrArg TicketAnswer.flag hanswer)).1,
        (halike (congrArg TicketAnswer.flag hanswer)).2, hsame⟩
  | closeStaleClaim t older result =>
      obtain ⟨hanswer, hsame⟩ := h.closeStaleClaim t now older result
      exact ⟨(halike (congrArg TicketAnswer.flag hanswer)).1,
        (halike (congrArg TicketAnswer.flag hanswer)).2, hsame⟩
  | complete t result =>
      obtain ⟨m', hcomplete, hsame⟩ := h.complete hop result
      have hperform : TicketOp.perform m now (.complete t result) = (.done, m') := by
        simp only [TicketOp.perform, TicketStore.complete, hcomplete]
      rw [hperform]
      exact ⟨rfl, fun _ => rfl, hsame⟩
  | pending query =>
      obtain ⟨hpage, hsettled⟩ := h.pending hop.1 hop.2
      exact ⟨hpage, fun hs => congrArg TicketAnswer.page (hsettled hs), h⟩

omit [SqlDialect] in
/-- An UPDATE that gives no waiting row a result. -/
theorem Settled.updateWhere (h : Settled q) {t : TicketId} {cond : TicketRow → Bool}
    (set : TicketRow → TicketRow) (set_id : ∀ r, (set r).id = r.id)
    (hset : ∀ r, q.row? t = some r → cond r = true → (set r).status = .pending →
      (set r).result = none) :
    Settled (q.updateWhere t cond set set_id).2 := by
  intro r' hr' hpending
  obtain ⟨r, hr, rfl⟩ := List.mem_map.mp hr'
  split at hpending
  · next hit =>
      obtain ⟨hid, hcond⟩ := Bool.and_eq_true_iff.mp hit
      rw [if_pos hit]
      exact hset r (of_decide_eq_true hid ▸ SqlTicketStore.row?_of_mem hr) hcond hpending
  · next hmiss =>
      rw [if_neg hmiss]
      exact h r hr hpending

theorem Settled.perform (h : Settled q) (now : Time) (op : TicketOp) (hop : op.afterVerdict q) :
    Settled (op.perform q now).2 := by
  have hdecided : ∀ t, (∀ ticket ∈ q.get t, ticket.decision.status ≠ .pending) →
      ∀ r, q.row? t = some r → r.status ≠ .pending := by
    intro t hverdict r hrow
    rw [r.status_eq]
    exact hverdict _ (by rw [SqlTicketStore.get, hrow]; rfl)
  cases op with
  | create t call =>
      by_cases htaken : t ∈ q.rows.map TicketRow.id
      · have hperform : (TicketOp.perform q now (.create t call)).2 = q := by
          simp only [TicketOp.perform, TicketStore.create, SqlTicketStore.create, dif_pos htaken]
        rw [hperform]
        exact h
      · intro r hr hpending
        simp only [TicketOp.perform, TicketStore.create, SqlTicketStore.create, dif_neg htaken] at hr
        rcases List.mem_append.mp hr with hold | hnew
        · exact h r hold hpending
        · rw [List.mem_singleton.mp hnew]
  | get t => exact h
  | decide t d =>
      refine h.updateWhere (.setDecision d) (fun _ => rfl) fun r hrow hcond _ => ?_
      exact h r (SqlTicketStore.mem_of_row? hrow) (of_decide_eq_true hcond)
  | claim t =>
      refine h.updateWhere (.setClaimed now) (fun _ => rfl) fun r hrow _ hpending => ?_
      exact h r (SqlTicketStore.mem_of_row? hrow) hpending
  | closeStaleClaim t older result =>
      refine h.updateWhere (.setResult result) (fun _ => rfl) fun r hrow _ hpending => ?_
      exact absurd hpending (hdecided t hop r hrow)
  | complete t result =>
      refine h.updateWhere (.setResult result) (fun _ => rfl) fun r hrow _ hpending => ?_
      exact absurd hpending (hdecided t hop r hrow)
  | pending query => exact h

omit [SqlDialect] in
theorem Same.afterVerdict (h : Same m q filed) {op : TicketOp} (hop : op.afterVerdict m) :
    op.afterVerdict q := by
  cases op with
  | complete t result => exact fun ticket hticket => hop ticket ((h.get_eq t).trans hticket)
  | closeStaleClaim t older result =>
      exact fun ticket hticket => hop ticket ((h.get_eq t).trans hticket)
  | _ => trivial

theorem Same.answers (h : Same m q filed) {ops : List (Time × TicketOp)} (hops : Proper m filed ops) :
    (ToolGateway.answers m ops).map TicketAnswer.withoutListedResults
        = (ToolGateway.answers q ops).map TicketAnswer.withoutListedResults ∧
      (Settled q → AfterVerdict m ops → ToolGateway.answers m ops = ToolGateway.answers q ops) := by
  induction ops generalizing m q filed with
  | nil => exact ⟨rfl, fun _ _ => rfl⟩
  | cons e ops ih =>
      obtain ⟨now, op⟩ := e
      obtain ⟨hop, hrest⟩ := hops
      obtain ⟨hlisted, hexact, hsame⟩ := h.perform now op hop
      obtain ⟨hmore, hmoreExact⟩ := ih hsame hrest
      refine ⟨?_, fun hsettled hafter => ?_⟩
      · simp only [ToolGateway.answers, List.map_cons, hlisted, hmore]
      · have hnext := hsettled.perform now op (h.afterVerdict hafter.1)
        simp only [ToolGateway.answers, hexact hsettled, hmoreExact hnext hafter.2]

/-- From empty, the two stores give the same answer to every operation, the
    results of listed tickets apart; and entirely the same answers while results
    are only stored on decided tickets. -/
theorem stores_agree (ops : List (Time × TicketOp)) (hops : Proper MemoryTicketStore.empty none ops) :
    (answers MemoryTicketStore.empty ops).map TicketAnswer.withoutListedResults
        = (answers SqlTicketStore.empty ops).map TicketAnswer.withoutListedResults ∧
      (AfterVerdict MemoryTicketStore.empty ops →
        answers MemoryTicketStore.empty ops = answers SqlTicketStore.empty ops) := by
  obtain ⟨hlisted, hexact⟩ := Same.empty.answers hops
  exact ⟨hlisted, hexact fun r hr => absurd hr List.not_mem_nil⟩

end

-- ============================================================================
-- Two runs
-- ============================================================================

/-- A database that compares ids and characters by code point. -/
abbrev SqlDialect.binary : SqlDialect where
  le a b := Decidable.decide (a ≤ b)
  le_total a b := by simpa using String.le_total a b
  le_trans a b c h h' := by
    have hac : a ≤ c := String.le_trans (of_decide_eq_true h) (of_decide_eq_true h')
    simpa using hac
  le_antisymm a b h h' := String.le_antisymm (of_decide_eq_true h) (of_decide_eq_true h')
  fold := id

section
attribute [local instance] SqlDialect.binary

/-- A call of the example. -/
def payInvoice : ToolCall :=
  { requestId := "r1", agentId := "alice", upstreamId := "erp", toolName := "pay",
    arguments := .dict [("amount", .int 10)], annotations := [] }

/-- Two calls are filed; one is approved, executed and closed, the queue is read
    past it. -/
def paidInvoice : List (Time × TicketOp) :=
  [(1, .create "a" payInvoice), (2, .create "b" payInvoice),
    (3, .decide "a" { status := .approved, approver := "bob" }), (4, .claim "a"),
    (5, .complete "a" { content := .str "paid" }), (6, .closeStaleClaim "a" 1 { content := .null }),
    (7, .get "a"), (8, .pending { limit := 5, after := some "a", filter := {} })]

theorem stores_agree_paidInvoice :
    answers MemoryTicketStore.empty paidInvoice = answers SqlTicketStore.empty paidInvoice := by
  have hproper : Proper MemoryTicketStore.empty none paidInvoice :=
    ⟨⟨rfl, by simp⟩, ⟨rfl, by simp [TicketOp.filedAt]⟩, trivial, trivial, rfl, trivial, trivial,
      ⟨by simp, rfl⟩, trivial⟩
  have hafter : AfterVerdict MemoryTicketStore.empty paidInvoice :=
    ⟨trivial, trivial, trivial, trivial, by rintro ticket ⟨⟩; nofun, by rintro ticket ⟨⟩; nofun, trivial,
      trivial, trivial⟩
  exact (stores_agree paidInvoice hproper).2 hafter

/-- The answer lists a ticket that has a result. -/
def TicketAnswer.listsResult : TicketAnswer → Bool
  | .page tickets => tickets.any fun e => e.2.result.isSome
  | _ => false

/-- A result is stored before there is a verdict. -/
def paidTooEarly : List (Time × TicketOp) :=
  [(1, .create "a" payInvoice), (2, .complete "a" { content := .str "paid" }),
    (3, .pending { limit := 5, after := none, filter := {} })]

/-- The memory store lists that result, the SQL store does not. -/
theorem stores_differ_paidTooEarly :
    Proper MemoryTicketStore.empty none paidTooEarly ∧
      answers MemoryTicketStore.empty paidTooEarly ≠ answers SqlTicketStore.empty paidTooEarly := by
  refine ⟨⟨⟨rfl, by simp⟩, rfl, ⟨by simp, rfl⟩, trivial⟩, fun heq => ?_⟩
  have hlists : (answers MemoryTicketStore.empty paidTooEarly).any TicketAnswer.listsResult
      = (answers SqlTicketStore.empty paidTooEarly).any TicketAnswer.listsResult := by rw [heq]
  have hmemory : (answers MemoryTicketStore.empty paidTooEarly).any TicketAnswer.listsResult = true := rfl
  have hsql : (answers SqlTicketStore.empty paidTooEarly).any TicketAnswer.listsResult = false := rfl
  rw [hmemory, hsql] at hlists
  cases hlists

end

end ToolGateway
