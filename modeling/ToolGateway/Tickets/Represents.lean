/-
  ToolGateway.Tickets.Represents

  The memory store with its objects against the one with values (`Tickets.Memory`).  Where
  the objects of the tickets read as the tickets, every operation answers as it does on
  values, and what it leaves reads as what that leaves.
-/

import ToolGateway.Tickets.Memory
import ToolGateway.Tickets.Objects

namespace ToolGateway

open Py

-- ============================================================================
-- Objects that read as a ticket
-- ============================================================================

/-- `dataclasses.asdict(decision)` -/
def Decision.attrs (d : Decision) : Fields :=
  [("status", .str d.status.value), ("approver", .str d.approver), ("reason", .str d.reason),
    ("edited_arguments", d.editedArguments)]

/-- `dataclasses.asdict(result)` -/
def ToolResult.attrs (r : ToolResult) : Fields :=
  [("content", r.content), ("is_error", .bool r.isError), ("elapsed_ms", .int r.elapsedMs),
    ("notes", .list (r.notes.map .str))]

/-- `ticket.result` -/
def resultJson : Option ToolResult → Json
  | none => .null
  | some r => .dict r.attrs

variable {h : Heap} {t : TicketId} {ticket : Ticket} {obj : TicketObject} {v : Val}

/-- The objects read as the ticket. -/
structure TicketObject.Shows (h : Heap) (obj : TicketObject) (ticket : Ticket) : Prop where
  call : h.ReadsAs obj.call (.dict ticket.call.attrs)
  decision : h.ReadsAs obj.decision (.dict ticket.decision.attrs)
  instanced : ∃ a, obj.decision = .ref a
  result : h.ReadsAs obj.result (resultJson ticket.result)
  whole : ∀ v ∈ obj.vals, h.Whole v

namespace TicketObject.Shows

theorem grow (hobj : obj.Shows h ticket) (more : List Obj) : obj.Shows (h ++ more) ticket where
  call := hobj.call.grow (hobj.whole _ obj.call_mem) more
  decision := hobj.decision.grow (hobj.whole _ obj.decision_mem) more
  instanced := hobj.instanced
  result := hobj.result.grow (hobj.whole _ obj.result_mem) more
  whole v hv := (hobj.whole v hv).grow more

/-- `ticket.decision.status is DecisionStatus.PENDING` -/
theorem undecided_iff (hobj : obj.Shows h ticket) :
    obj.undecided h = true ↔ ticket.decision.status = .pending := by
  obtain ⟨a, ha⟩ := hobj.instanced
  have hreads := hobj.decision
  rw [ha] at hreads
  obtain ⟨fs, hfs, hall⟩ := hreads.fields
  obtain ⟨status, rest, rfl, hstatus, -⟩ := hall.cons
  have hattr : h.attr obj.decision "status" = some (.imm (.str ticket.decision.status.value)) := by
    rw [hstatus.eq_str] at hfs
    rw [ha]
    simp only [Heap.attr, hfs]
    rfl
  rw [undecided, hattr]
  cases ticket.decision.status with
  | pending => simp
  | approved => simp [DecisionStatus.value]
  | rejected => simp [DecisionStatus.value]
  | timeout => simp [DecisionStatus.value]

/-- `ticket.result is None` -/
theorem unfinished_eq (hobj : obj.Shows h ticket) : obj.unfinished = ticket.result.isNone := by
  have hreads := hobj.result
  cases hresult : ticket.result with
  | none =>
      rw [hresult] at hreads
      rw [unfinished, hreads.eq_null]
      rfl
  | some r =>
      rw [hresult] at hreads
      rw [unfinished]
      split
      · next hnull =>
          rw [hnull] at hreads
          obtain ⟨n, hn⟩ := hreads
          rw [Heap.read] at hn
          cases hn
      · rfl

/-- Where the objects are as they were, they read as they did. -/
theorem congr {h' : Heap} (hobj : obj.Shows h ticket)
    (hsame : ∀ v ∈ obj.vals, ∀ a, h.Part v a → h'[a]? = h[a]?) (hlength : h'.length = h.length) :
    obj.Shows h' ticket where
  call := hobj.call.congr (hsame _ obj.call_mem)
  decision := hobj.decision.congr (hsame _ obj.decision_mem)
  instanced := hobj.instanced
  result := hobj.result.congr (hsame _ obj.result_mem)
  whole v hv a ha := by
    rw [hlength]
    exact hobj.whole v hv a (ha.congr (hsame v hv))

/-- A copy of a verdict is put on it. -/
theorem withDecision (hobj : obj.Shows h ticket) {a : ℕ} {d : Decision} (hwhole : h.Whole (.ref a))
    (hd : h.ReadsAs (.ref a) (.dict d.attrs)) :
    TicketObject.Shows (h.deepcopy (.ref a)).2 { obj with decision := (h.deepcopy (.ref a)).1 }
      { ticket with decision := d } := by
  have hgrown := hobj.grow (h.map (Py.Obj.shift h.length))
  refine ⟨hgrown.call, Heap.readsAs_copy_iff.mpr hd, ⟨_, rfl⟩, hgrown.result, ?_⟩
  exact forall_vals (hgrown.whole _ obj.call_mem) (Heap.whole_copy hwhole)
    (hgrown.whole _ obj.result_mem)

/-- A copy of a result is put on it. -/
theorem withResult (hobj : obj.Shows h ticket) {r : ToolResult} (hwhole : h.Whole v)
    (hr : h.ReadsAs v (.dict r.attrs)) :
    TicketObject.Shows (h.deepcopy v).2 { obj with result := (h.deepcopy v).1 }
      { ticket with result := some r } := by
  have hgrown := hobj.grow (h.map (Py.Obj.shift h.length))
  refine ⟨hgrown.call, hgrown.decision, hgrown.instanced, Heap.readsAs_copy_iff.mpr hr, ?_⟩
  exact forall_vals (hgrown.whole _ obj.call_mem) (hgrown.whole _ obj.decision_mem)
    (Heap.whole_copy hwhole)

/-- A copy reads as the same ticket. -/
theorem copy (hobj : obj.Shows h ticket) :
    TicketObject.Shows (obj.copy h).2 (obj.copy h).1 ticket := by
  obtain ⟨a, ha⟩ := hobj.instanced
  refine ⟨Heap.readsAs_copy_iff.mpr hobj.call, Heap.readsAs_copy_iff.mpr hobj.decision,
    ⟨a + h.length, ?_⟩, Heap.readsAs_copy_iff.mpr hobj.result, ?_⟩
  · show (h.deepcopy obj.decision).1 = _
    rw [ha]
    rfl
  · exact forall_vals (Heap.whole_copy (hobj.whole _ obj.call_mem))
      (Heap.whole_copy (hobj.whole _ obj.decision_mem))
      (Heap.whole_copy (hobj.whole _ obj.result_mem))

end TicketObject.Shows

-- ============================================================================
-- The stores
-- ============================================================================

variable {m m' : ObjectStore} {s : MemoryTicketStore} {now older : Time}

/-- The objects in the store read as these tickets. -/
structure Represents (h : Heap) (m : ObjectStore) (s : MemoryTicketStore) : Prop where
  tickets : ∀ t, Option.Rel (TicketObject.Shows h) (m.tickets.lookup t) (s.tickets.lookup t)
  claimed : m.claimed = s.claimed

namespace Represents

theorem empty (h : Heap) : Represents h .empty .empty := ⟨fun _ => .none, rfl⟩

/-- A ticket is in both stores or in neither. -/
theorem ticket_cases (hs : Represents h m s) (t : TicketId) :
    (m.tickets.lookup t = none ∧ s.tickets.lookup t = none) ∨
      ∃ obj ticket, m.tickets.lookup t = some obj ∧ s.tickets.lookup t = some ticket ∧
        obj.Shows h ticket := by
  have hrel := hs.tickets t
  generalize m.tickets.lookup t = kept at hrel
  generalize s.tickets.lookup t = value at hrel
  cases hrel with
  | none => exact Or.inl ⟨rfl, rfl⟩
  | some hobj => exact Or.inr ⟨_, _, rfl, rfl, hobj⟩

theorem grow (hs : Represents h m s) (more : List Obj) : Represents (h ++ more) m s := by
  refine ⟨fun t => ?_, hs.claimed⟩
  obtain ⟨hnone, hnone'⟩ | ⟨obj, ticket, hlookup, hlookup', hobj⟩ := hs.ticket_cases t
  · rw [hnone, hnone']
    exact .none
  · rw [hlookup, hlookup']
    exact .some (hobj.grow more)

/-- A ticket is put into both stores. -/
theorem put (hs : Represents h m s) (t : TicketId) {obj : TicketObject} {ticket : Ticket}
    (hobj : obj.Shows h ticket) : Represents h (m.put t obj) (s.withTicket t ticket) := by
  refine ⟨fun t' => ?_, hs.claimed⟩
  show Option.Rel _ ((m.tickets.set t obj).lookup t') ((s.tickets.set t ticket).lookup t')
  rw [Dict.lookup_set, Dict.lookup_set]
  split
  · exact .some hobj
  · exact hs.tickets t'

-- ============================================================================
-- The operations
-- ============================================================================

theorem pendingDecision_reads (h : Heap) :
    (h.alloc pendingDecision).2.ReadsAs (h.alloc pendingDecision).1
      (.dict (Decision.attrs { status := .pending })) := by
  refine ⟨1, ?_⟩
  have hnew : (h ++ [pendingDecision])[h.length]? = some pendingDecision := by simp
  show Heap.read (h ++ [pendingDecision]) 1 (.ref h.length) = _
  simp only [Heap.read, hnew]
  rfl

/-- The ticket that is filed reads as a ticket for the call that was handed in. -/
theorem create (hs : Represents h m s) (t : TicketId) {c : Val} {call : ToolCall}
    (hwhole : h.Whole c) (hcall : h.ReadsAs c (.dict call.attrs)) :
    Represents (m.create h t c).1 (m.create h t c).2 (s.create t call) := by
  rw [ObjectStore.create_eq, MemoryTicketStore.create]
  have hcopy : (h.deepcopy c).2.Whole (h.deepcopy c).1 := Heap.whole_copy hwhole
  have hgrown : Represents ((h.deepcopy c).2.alloc pendingDecision).2 m s := (hs.grow _).grow _
  have hdecision := Heap.whole_alloc (ObjectStore.whole_of_pendingDecision (h.deepcopy c).2)
  refine hgrown.put t ⟨?_, pendingDecision_reads _, ⟨_, rfl⟩, ⟨0, rfl⟩, ?_⟩
  · exact (Heap.readsAs_copy_iff.mpr hcall).grow hcopy _
  · exact TicketObject.forall_vals (hcopy.grow _) hdecision (Heap.whole_imm _ _)

theorem get (hs : Represents h m s) (t : TicketId) :
    Option.Rel (TicketObject.Shows (m.get h t).2) (m.get h t).1 (s.get t) ∧
      Represents (m.get h t).2 m s := by
  rw [MemoryTicketStore.get]
  obtain ⟨hnone, hnone'⟩ | ⟨obj, ticket, hlookup, hlookup', hobj⟩ := hs.ticket_cases t
  · rw [ObjectStore.get, hnone, hnone']
    exact ⟨.none, hs⟩
  · rw [ObjectStore.get, hlookup, hlookup']
    exact ⟨.some hobj.copy, hs.grow _⟩

theorem decide (hs : Represents h m s) (t : TicketId) {a : ℕ} {d : Decision}
    (hwhole : h.Whole (.ref a)) (hd : h.ReadsAs (.ref a) (.dict d.attrs)) :
    (m.decide h t (.ref a)).1 = (s.decide t d).1 ∧
      Represents (m.decide h t (.ref a)).2.1 (m.decide h t (.ref a)).2.2 (s.decide t d).2 := by
  rw [ObjectStore.decide, MemoryTicketStore.decide]
  obtain ⟨hnone, hnone'⟩ | ⟨obj, ticket, hlookup, hlookup', hobj⟩ := hs.ticket_cases t
  · rw [hnone, hnone']
    exact ⟨rfl, hs⟩
  · rw [hlookup, hlookup']
    by_cases hpending : ticket.decision.status = .pending
    · have hundecided : obj.undecided h = true := hobj.undecided_iff.mpr hpending
      simp only [hundecided, hpending, ne_eq, not_true_eq_false, if_true, if_false]
      exact ⟨trivial, (hs.grow _).put t (hobj.withDecision hwhole hd)⟩
    · have hundecided : obj.undecided h = false :=
        Bool.eq_false_iff.mpr fun htrue => hpending (hobj.undecided_iff.mp htrue)
      simp only [hundecided, hpending, ne_eq, not_false_eq_true, if_true]
      exact ⟨rfl, hs⟩

theorem claim (hs : Represents h m s) (t : TicketId) (now : Time) :
    (m.claim t now).1 = (s.claim t now).1 ∧ Represents h (m.claim t now).2 (s.claim t now).2 := by
  rw [ObjectStore.claim]
  obtain ⟨hnone, hnone'⟩ | ⟨obj, ticket, hlookup, hlookup', hobj⟩ := hs.ticket_cases t
  · rw [hnone, s.claim_unknown now hnone']
    exact ⟨rfl, hs⟩
  · have hfree : (obj.unfinished && !m.claimed.has t)
        = !(ticket.result.isSome || s.claimed.has t) := by
      rw [hobj.unfinished_eq, hs.claimed, ← Option.not_isSome, Bool.not_or]
    simp only [hlookup, hfree]
    cases htaken : (ticket.result.isSome || s.claimed.has t) with
    | true =>
        rw [s.claim_taken now hlookup' htaken]
        exact ⟨rfl, hs⟩
    | false =>
        obtain ⟨hanswer, htickets, hclaimed⟩ := s.claim_free now hlookup' htaken
        rw [← hs.claimed] at hclaimed
        refine ⟨hanswer.symm, fun t' => ?_, hclaimed.symm⟩
        rw [htickets]
        exact hs.tickets t'

/-- A result is put on a ticket. -/
theorem put_result (hs : Represents h m s) {t : TicketId} {obj : TicketObject} {ticket : Ticket}
    (hobj : obj.Shows h ticket) {v : Val} {r : ToolResult} (hwhole : h.Whole v)
    (hr : h.ReadsAs v (.dict r.attrs)) :
    Represents (h.deepcopy v).2 (m.put t { obj with result := (h.deepcopy v).1 })
      (s.withTicket t { ticket with result := some r }) :=
  (hs.grow _).put t (hobj.withResult hwhole hr)

theorem closeStaleClaim (hs : Represents h m s) (t : TicketId) (now older : Time) {v : Val}
    {r : ToolResult} (hwhole : h.Whole v) (hr : h.ReadsAs v (.dict r.attrs)) :
    (m.closeStaleClaim h t now older v).1 = (s.closeStaleClaim t now older r).1 ∧
      Represents (m.closeStaleClaim h t now older v).2.1 (m.closeStaleClaim h t now older v).2.2
        (s.closeStaleClaim t now older r).2 := by
  rw [ObjectStore.closeStaleClaim, MemoryTicketStore.closeStaleClaim, hs.claimed]
  obtain ⟨hnone, hnone'⟩ | ⟨obj, ticket, hlookup, hlookup', hobj⟩ := hs.ticket_cases t
  · rw [hnone, hnone']
    exact ⟨rfl, hs⟩
  · rw [hlookup, hlookup']
    cases s.claimed.lookup t with
    | none => exact ⟨rfl, hs⟩
    | some claimedAt =>
        have hput := hs.put_result (t := t) hobj hwhole hr
        simp only [hobj.unfinished_eq, ← Option.not_isSome]
        cases ticket.result.isSome with
        | true => exact ⟨rfl, hs⟩
        | false =>
            by_cases hold : older ≤ now - claimedAt
            · have hlease : ¬now - claimedAt < older := not_lt.mpr hold
              simp [hold, hlease, hput]
            · have hlease : now - claimedAt < older := not_le.mp hold
              simp [hold, hlease, hs]

theorem complete (hs : Represents h m s) (t : TicketId) {v : Val} {r : ToolResult}
    (hwhole : h.Whole v) (hr : h.ReadsAs v (.dict r.attrs)) :
    (m.complete h t v = .error .keyError ∧ s.complete t r = .error .keyError) ∨
      ∃ h' m' s', m.complete h t v = .ok (h', m') ∧ s.complete t r = .ok s' ∧
        Represents h' m' s' := by
  rw [ObjectStore.complete, MemoryTicketStore.complete]
  obtain ⟨hnone, hnone'⟩ | ⟨obj, ticket, hlookup, hlookup', hobj⟩ := hs.ticket_cases t
  · rw [hnone, hnone']
    exact Or.inl ⟨rfl, rfl⟩
  · rw [hlookup, hlookup']
    exact Or.inr ⟨_, _, _, rfl, rfl, hs.put_result hobj hwhole hr⟩

end Represents

end ToolGateway
