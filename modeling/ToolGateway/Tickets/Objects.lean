/-
  ToolGateway.Tickets.Objects

  `MemoryTicketStore` (`adapters/memory.py`) with the objects it keeps.  What it is
  handed it copies, and what it hands out is a copy: no object of a ticket is one that
  anybody else can reach, whatever they change in place.
-/

import ToolGateway.Domain
import ToolGateway.Python.Heap

namespace ToolGateway

open Py

-- ============================================================================
-- Dataclasses as objects
-- ============================================================================

/-- `dataclasses.asdict(call)` -/
def ToolCall.attrs (call : ToolCall) : Fields :=
  [("request_id", .str call.requestId), ("agent_id", .str call.agentId),
    ("upstream_id", .str call.upstreamId), ("tool_name", .str call.toolName),
    ("arguments", call.arguments), ("annotations", .dict call.annotations)]

theorem ToolCall.attrs_injective {call call' : ToolCall} (h : call.attrs = call'.attrs) :
    call = call' := by
  cases call
  cases call'
  simpa [attrs] using h

/-- The attributes of `Decision(status=DecisionStatus.PENDING)`. -/
def pendingDecision : Obj :=
  .fields [("status", .imm (.str DecisionStatus.pending.value)), ("approver", .imm (.str "")),
    ("reason", .imm (.str "")), ("edited_arguments", .imm .null)]

/-- A `Ticket` and the objects it holds. -/
structure TicketObject where
  call : Val
  decision : Val
  result : Val

namespace TicketObject

/-- The values a ticket is made of. -/
def vals (ticket : TicketObject) : List Val := [ticket.call, ticket.decision, ticket.result]

theorem call_mem (ticket : TicketObject) : ticket.call ∈ ticket.vals := .head _

theorem decision_mem (ticket : TicketObject) : ticket.decision ∈ ticket.vals := .tail _ (.head _)

theorem result_mem (ticket : TicketObject) : ticket.result ∈ ticket.vals :=
  .tail _ (.tail _ (.head _))

theorem forall_vals {p : Val → Prop} {ticket : TicketObject} (hcall : p ticket.call)
    (hdecision : p ticket.decision) (hresult : p ticket.result) : ∀ v ∈ ticket.vals, p v := by
  intro v hv
  rcases hv with _ | ⟨_, _ | ⟨_, _ | ⟨_, hv⟩⟩⟩
  · exact hcall
  · exact hdecision
  · exact hresult
  · cases hv

/-- `copy.deepcopy(ticket)` -/
def copy (h : Heap) (ticket : TicketObject) : TicketObject × Heap :=
  ({ call := (h.deepcopy ticket.call).1, decision := (h.deepcopy ticket.decision).1
     result := (h.deepcopy ticket.result).1 }, (h.deepcopy ticket.call).2)

/-- `ticket.decision.status is DecisionStatus.PENDING` -/
def undecided (h : Heap) (ticket : TicketObject) : Bool :=
  match h.attr ticket.decision "status" with
  | some (.imm (.str status)) => status = DecisionStatus.pending.value
  | _ => false

/-- `ticket.result is None` -/
def unfinished (ticket : TicketObject) : Bool :=
  match ticket.result with
  | .imm .null => true
  | _ => false

end TicketObject

-- ============================================================================
-- The store
-- ============================================================================

/-- `MemoryTicketStore`, of objects on the heap. -/
structure ObjectStore where
  tickets : Dict TicketObject
  /-- ticket id -> when it was claimed -/
  claimed : Dict Time

namespace ObjectStore

/-- No tickets. -/
def empty : ObjectStore := ⟨[], []⟩

/-- The store with this ticket in it. -/
def put (m : ObjectStore) (t : TicketId) (ticket : TicketObject) : ObjectStore :=
  { m with tickets := m.tickets.set t ticket }

/-- `create`: of a copy of the call. -/
def create (m : ObjectStore) (h : Heap) (t : TicketId) (call : Val) : Heap × ObjectStore :=
  let (call, h) := h.deepcopy call
  let (decision, h) := h.alloc pendingDecision
  (h, m.put t { call := call, decision := decision, result := .imm .null })

/-- `get`: a copy of the ticket. -/
def get (m : ObjectStore) (h : Heap) (t : TicketId) : Option TicketObject × Heap :=
  match m.tickets.lookup t with
  | none => (none, h)
  | some ticket =>
      let (ticket, h) := ticket.copy h
      (some ticket, h)

/-- `decide`: with a copy of the verdict. -/
def decide (m : ObjectStore) (h : Heap) (t : TicketId) (decision : Val) :
    Bool × Heap × ObjectStore :=
  match m.tickets.lookup t with
  | none => (false, h, m)
  | some ticket =>
      if ticket.undecided h then
        let (decision, h) := h.deepcopy decision
        (true, h, m.put t { ticket with decision := decision })
      else (false, h, m)

/-- `claim`: no object changes. -/
def claim (m : ObjectStore) (t : TicketId) (now : Time) : Bool × ObjectStore :=
  match m.tickets.lookup t with
  | none => (false, m)
  | some ticket =>
      if ticket.unfinished && !m.claimed.has t then
        (true, { m with claimed := m.claimed.set t now })
      else (false, m)

/-- `close_stale_claim`: with a copy of the result. -/
def closeStaleClaim (m : ObjectStore) (h : Heap) (t : TicketId) (now older : Time) (result : Val) :
    Bool × Heap × ObjectStore :=
  match m.tickets.lookup t, m.claimed.lookup t with
  | some ticket, some claimedAt =>
      if ticket.unfinished && older ≤ now - claimedAt then
        let (result, h) := h.deepcopy result
        (true, h, m.put t { ticket with result := result })
      else (false, h, m)
  | _, _ => (false, h, m)

/-- `complete`: with a copy of the result. -/
def complete (m : ObjectStore) (h : Heap) (t : TicketId) (result : Val) :
    Except PyError (Heap × ObjectStore) :=
  match m.tickets.lookup t with
  | none => .error .keyError
  | some ticket =>
      let (result, h) := h.deepcopy result
      .ok (h, m.put t { ticket with result := result })

-- ============================================================================
-- What an operation leaves
-- ============================================================================

variable {m m' : ObjectStore} {h h' : Heap} {t : TicketId} {ticket ticket' : TicketObject} {v : Val}
variable {call : ToolCall} {now older : Time}

/-- The value is made of objects that were not there before. -/
structure Made (h h' : Heap) (v : Val) : Prop where
  whole : h'.Whole v
  new : ∀ a, h'.Part v a → h.length ≤ a

/-- What an operation may do: the heap grows, a ticket keeps its call, and whatever else a
    ticket gets to hold was made for it. -/
structure Changes (m : ObjectStore) (h : Heap) (m' : ObjectStore) (h' : Heap) : Prop where
  grown : ∃ more, h' = h ++ more
  calls : ∀ t ticket, m.tickets.lookup t = some ticket →
    ∃ ticket', m'.tickets.lookup t = some ticket' ∧ ticket'.call = ticket.call
  vals : ∀ t ticket', m'.tickets.lookup t = some ticket' → ∀ v ∈ ticket'.vals,
    (∃ ticket, m.tickets.lookup t = some ticket ∧ v ∈ ticket.vals) ∨ Made h h' v

theorem made_copy (hv : h.Whole v) : Made h (h.deepcopy v).2 (h.deepcopy v).1 := by
  refine ⟨Heap.whole_copy hv, fun a ha => ?_⟩
  obtain ⟨b, rfl, -⟩ := ha.of_copy
  omega

theorem made_imm (h h' : Heap) (j : Json) : Made h h' (.imm j) :=
  ⟨h'.whole_imm j, fun a ha => by cases ha⟩

theorem Made.grow (hv : Made h h' v) (more : List Obj) : Made h (h' ++ more) v :=
  ⟨hv.whole.grow more, fun a ha => hv.new a (ha.of_grown hv.whole)⟩

theorem Changes.refl (m : ObjectStore) (h : Heap) : Changes m h m h where
  grown := ⟨[], (List.append_nil h).symm⟩
  calls _ ticket hticket := ⟨ticket, hticket, rfl⟩
  vals _ ticket hticket _ hv := Or.inl ⟨ticket, hticket, hv⟩

/-- A ticket is put back with something new on it, or with what it had. -/
theorem Changes.put (hticket : m.tickets.lookup t = some ticket) {more : List Obj}
    (hcall : ticket'.call = ticket.call)
    (hvals : ∀ v ∈ ticket'.vals, v ∈ ticket.vals ∨ Made h (h ++ more) v) :
    Changes m h (m.put t ticket') (h ++ more) where
  grown := ⟨more, rfl⟩
  calls t' old hold := by
    show ∃ ticket'', (m.tickets.set t ticket').lookup t' = some ticket'' ∧ _
    rw [Dict.lookup_set]
    by_cases ht : t' = t
    · rw [ht, hticket] at hold
      cases hold
      exact ⟨ticket', if_pos ht, hcall⟩
    · exact ⟨old, by rw [if_neg ht, hold], rfl⟩
  vals t' new hnew v hv := by
    have hlookup : (m.tickets.set t ticket').lookup t' = some new := hnew
    rw [Dict.lookup_set] at hlookup
    split at hlookup
    · next ht =>
        cases hlookup
        rw [ht]
        exact (hvals v hv).imp (fun hold => ⟨ticket, hticket, hold⟩) id
    · exact Or.inl ⟨new, hlookup, hv⟩

theorem decide_changes {d : Val} (hd : h.Whole d) :
    Changes m h (m.decide h t d).2.2 (m.decide h t d).2.1 := by
  rw [decide]
  split
  · exact .refl m h
  · next ticket hticket =>
      split
      · exact .put hticket rfl (TicketObject.forall_vals (Or.inl ticket.call_mem)
          (Or.inr (made_copy hd)) (Or.inl ticket.result_mem))
      · exact .refl m h

/-- A result is put on a ticket. -/
theorem Changes.put_result {r : Val} (hticket : m.tickets.lookup t = some ticket) (hr : h.Whole r) :
    Changes m h (m.put t { ticket with result := (h.deepcopy r).1 }) (h.deepcopy r).2 :=
  .put hticket rfl (TicketObject.forall_vals (Or.inl ticket.call_mem) (Or.inl ticket.decision_mem)
    (Or.inr (made_copy hr)))

theorem closeStaleClaim_changes {r : Val} (hr : h.Whole r) :
    Changes m h (m.closeStaleClaim h t now older r).2.2 (m.closeStaleClaim h t now older r).2.1 := by
  rw [closeStaleClaim]
  split
  · next ticket _ hticket _ =>
      split
      · exact .put_result hticket hr
      · exact .refl m h
  · exact .refl m h

theorem complete_changes {r : Val} (hr : h.Whole r) (hok : m.complete h t r = .ok (h', m')) :
    Changes m h m' h' := by
  rw [complete] at hok
  split at hok
  · cases hok
  · next ticket hticket =>
      cases hok
      exact .put_result hticket hr

theorem claim_changes : Changes m h (m.claim t now).2 h := by
  rw [claim]
  split
  · exact .refl m h
  · split
    · exact ⟨⟨[], (List.append_nil h).symm⟩, fun _ ticket hticket => ⟨ticket, hticket, rfl⟩,
        fun _ ticket hticket _ hv => Or.inl ⟨ticket, hticket, hv⟩⟩
    · exact .refl m h

/-- Its attributes are data. -/
theorem imm_of_pendingDecision {w : Val} (hw : w ∈ pendingDecision.vals) : ∃ j, w = .imm j := by
  have hcases : w = .imm (.str DecisionStatus.pending.value) ∨ w = .imm (.str "") ∨
      w = .imm .null := by
    simpa [pendingDecision, Obj.vals] using hw
  obtain rfl | rfl | rfl := hcases
  · exact ⟨_, rfl⟩
  · exact ⟨_, rfl⟩
  · exact ⟨_, rfl⟩

theorem whole_of_pendingDecision (h : Heap) : ∀ w ∈ pendingDecision.vals, h.Whole w := by
  intro w hw
  obtain ⟨j, rfl⟩ := imm_of_pendingDecision hw
  exact h.whole_imm j

theorem made_pendingDecision (h : Heap) :
    Made h (h.alloc pendingDecision).2 (h.alloc pendingDecision).1 := by
  refine ⟨Heap.whole_alloc (whole_of_pendingDecision h), fun a ha => ?_⟩
  obtain rfl | ⟨w, hw, hpart⟩ := ha.of_alloc (whole_of_pendingDecision h)
  · exact Nat.le_refl _
  · obtain ⟨j, rfl⟩ := imm_of_pendingDecision hw
    cases hpart

/-- The ticket that `create` puts in the store. -/
def filedTicket (h : Heap) (c : Val) : TicketObject :=
  { call := (h.deepcopy c).1
    decision := ((h.deepcopy c).2.alloc pendingDecision).1
    result := .imm .null }

theorem create_eq (m : ObjectStore) (h : Heap) (t : TicketId) (c : Val) :
    m.create h t c =
      (((h.deepcopy c).2.alloc pendingDecision).2, m.put t (filedTicket h c)) := rfl

/-- A new ticket holds nothing but what was made for it. -/
theorem create_changes {c : Val} (hnew : m.tickets.lookup t = none) (hc : h.Whole c) :
    Changes m h (m.create h t c).2 (m.create h t c).1 := by
  rw [create_eq]
  have hgrown : (h.deepcopy c).2.length = h.length + h.length := h.length_copy c
  refine ⟨⟨h.map (Obj.shift h.length) ++ [pendingDecision], by
    rw [← List.append_assoc]
    rfl⟩, fun t' ticket hticket => ?_, fun t' ticket hticket v hv => ?_⟩
  · have hne : t' ≠ t := by
      rintro rfl
      rw [hnew] at hticket
      cases hticket
    refine ⟨ticket, ?_, rfl⟩
    show (m.tickets.set t _).lookup t' = some ticket
    rw [Dict.lookup_set_of_ne _ _ hne, hticket]
  · have hlookup : (m.tickets.set t (filedTicket h c)).lookup t' = some ticket := hticket
    rw [Dict.lookup_set] at hlookup
    split at hlookup
    · cases hlookup
      have hdecision := made_pendingDecision (h.deepcopy c).2
      have hlater : Made h ((h.deepcopy c).2.alloc pendingDecision).2 (filedTicket h c).decision := by
        refine ⟨hdecision.whole, fun a ha => ?_⟩
        have hge := hdecision.new a ha
        omega
      have hmade := TicketObject.forall_vals ((made_copy hc).grow [pendingDecision]) hlater
        (made_imm h _ .null)
      exact Or.inr (hmade v hv)
    · exact Or.inl ⟨ticket, hlookup, hv⟩

/-- The call of a new ticket reads like the one it was made from. -/
theorem create_call {c : Val} {j : Json} (hc : h.Whole c) (hj : h.ReadsAs c j) :
    ∃ ticket, (m.create h t c).2.tickets.lookup t = some ticket ∧
      (m.create h t c).1.ReadsAs ticket.call j := by
  rw [create_eq]
  exact ⟨filedTicket h c, Dict.lookup_set_self _ _ _,
    (Heap.readsAs_copy_iff.mpr hj).grow (Heap.whole_copy hc) _⟩

/-- A ticket that is handed out is made of new objects, and its call reads like the one the
    store keeps. -/
theorem get_made (hticket : m.tickets.lookup t = some ticket)
    (hvals : ∀ v ∈ ticket.vals, h.Whole v) :
    ∃ out, m.get h t = (some out, (h.deepcopy ticket.call).2) ∧
      (∀ v ∈ out.vals, Made h (h.deepcopy ticket.call).2 v) ∧
      ∀ j, (h.deepcopy ticket.call).2.ReadsAs out.call j ↔ h.ReadsAs ticket.call j := by
  have hmade : ∀ v ∈ (ticket.copy h).1.vals, Made h (h.deepcopy ticket.call).2 v :=
    TicketObject.forall_vals (made_copy (hvals _ ticket.call_mem))
      (made_copy (hvals _ ticket.decision_mem)) (made_copy (hvals _ ticket.result_mem))
  refine ⟨(ticket.copy h).1, ?_, hmade, fun j => Heap.readsAs_copy_iff⟩
  rw [get, hticket]
  rfl

end ObjectStore

end ToolGateway
