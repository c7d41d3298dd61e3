/-
  ToolGateway.Gateway.Custody

  The call a ticket is filed for, as the ticket keeps it, as operators and `resume` are
  shown it, and as the approvers are told.

  All code runs on one heap: `call`, `decide` and `resume` with their steps, secrets and
  edits, and whatever else the application runs, change objects in place, any that they can
  reach from what they made or were handed.  To the tickets they get by the operations of
  the store alone.  A call stands at its gate from the ticket it files to the notification;
  its own steps wait for it then, and what others write into it is kept account of.
-/

import Mathlib.Logic.Relation
import ToolGateway.Python.RoundTrip
import ToolGateway.Gateway.Webhook
import ToolGateway.Tickets.Represents
import ToolGateway.Tickets.Sql

namespace ToolGateway

open Py

namespace Custody

-- ============================================================================
-- The stores
-- ============================================================================

/-- The store keeps objects of its own, or rows. -/
inductive AnyStore where
  | memory (m : ObjectStore)
  | sql (db : SqlTicketStore)

/-- This call is kept on the ticket. -/
def AnyStore.Keeps (h : Heap) (t : TicketId) (call : ToolCall) : AnyStore → Prop
  | .memory m => ∃ ticket, m.tickets.lookup t = some ticket ∧ h.ReadsAs ticket.call (.dict call.attrs)
  | .sql db => ∃ ticket, TicketStore.get db t = some ticket ∧ ticket.call = call

/-- The store keeps this value on a ticket. -/
def AnyStore.Holds (v : Val) : AnyStore → Prop
  | .memory m => ∃ t ticket, m.tickets.lookup t = some ticket ∧ v ∈ ticket.vals
  | .sql _ => False

-- ============================================================================
-- Runs
-- ============================================================================

/-- Where a call is. -/
inductive Phase where
  | free
  /-- it has filed this ticket for the call at `c`; the approvers are not notified yet -/
  | filed (t : TicketId) (c : ℕ) (mode : ApprovalMode)

/-- What happened, in terms of values. -/
inductive Note where
  /-- the ticket was filed for the call as it was then -/
  | gated (t : TicketId) (call : ToolCall)
  /-- `get` or `pending` answered with this call -/
  | shown (t : TicketId) (call : ToolCall)
  /-- the approvers are sent this body -/
  | told (t : TicketId) (body : Bytes)

/-- Objects and tickets, and how far everybody is. -/
structure State (ι : Type) where
  heap : Heap
  store : AnyStore
  /-- whatever code outside the store has made or was handed -/
  held : List Val
  phase : ι → Phase
  /-- something was written into the call at its gate, between its ticket and its message -/
  touched : TicketId → Prop
  log : List Note

section
variable {ι : Type} [PrintTables] [HmacSha256]

/-- Code outside the store can get at the object. -/
def State.Reached (s : State ι) (a : ℕ) : Prop := ∃ v ∈ s.held, s.heap.Part v a

/-- Code outside the store can come by the value. -/
def State.Has (s : State ι) (v : Val) : Prop := ∀ a, v = .ref a → s.Reached a

/-- The object is the call at `c` or belongs to its arguments. -/
def OfCall (h : Heap) (c a : ℕ) : Prop :=
  a = c ∨ ∃ arguments, h.attr (.ref c) "arguments" = some arguments ∧ h.Part arguments a

/-- An operation on the tickets there are. -/
inductive Acts (s : State ι) : AnyStore → Heap → AnyStore → Prop where
  | decide (m : ObjectStore) (t : TicketId) (d : Val) (hd : s.Has d) :
      Acts s (.memory m) (m.decide s.heap t d).2.1 (.memory (m.decide s.heap t d).2.2)
  | claim (m : ObjectStore) (t : TicketId) (now : Time) :
      Acts s (.memory m) s.heap (.memory (m.claim t now).2)
  | closeStaleClaim (m : ObjectStore) (t : TicketId) (now older : Time) (r : Val) (hr : s.Has r) :
      Acts s (.memory m) (m.closeStaleClaim s.heap t now older r).2.1
        (.memory (m.closeStaleClaim s.heap t now older r).2.2)
  | complete (m : ObjectStore) (t : TicketId) (r : Val) (hr : s.Has r) {h' : Heap} {m' : ObjectStore}
      (hok : m.complete s.heap t r = .ok (h', m')) : Acts s (.memory m) h' (.memory m')
  | decideRow (db : SqlTicketStore) (t : TicketId) (d : Decision) :
      Acts s (.sql db) s.heap (.sql (TicketStore.decide db t d).2)
  | claimRow (db : SqlTicketStore) (t : TicketId) (now : Time) :
      Acts s (.sql db) s.heap (.sql (TicketStore.claim db t now).2)
  | closeStaleClaimRow (db : SqlTicketStore) (t : TicketId) (now older : Time) (r : ToolResult) :
      Acts s (.sql db) s.heap (.sql (TicketStore.closeStaleClaim db t now older r).2)
  | completeRow (db : SqlTicketStore) (t : TicketId) (r : ToolResult) {db' : SqlTicketStore}
      (hok : TicketStore.complete db t r = .ok db') : Acts s (.sql db) s.heap (.sql db')

variable [DecidableEq ι]

/-- One step of anyone. -/
inductive Step (s : State ι) : State ι → Prop where
  /-- somebody makes an object -/
  | makes (obj : Obj) (hvals : ∀ v ∈ obj.vals, s.Has v) :
      Step s { s with heap := (s.heap.alloc obj).2, held := (s.heap.alloc obj).1 :: s.held }
  /-- somebody who does not wait at a gate changes an object in place -/
  | writes (i : ι) (a : ℕ) (obj : Obj) (hphase : s.phase i = .free) (ha : s.Reached a)
      (hvals : ∀ v ∈ obj.vals, s.Has v) :
      Step s { s with
        heap := s.heap.set a obj
        touched := fun t => s.touched t ∨
          ∃ j c mode, s.phase j = .filed t c mode ∧ OfCall s.heap c a }
  /-- a call files its ticket: the objects of the call are copied -/
  | files (i : ι) (t : TicketId) (c : ℕ) (call : ToolCall) (mode : ApprovalMode) {m : ObjectStore}
      (hphase : s.phase i = .free) (hc : s.Reached c)
      (hcall : s.heap.ReadsAs (.ref c) (.dict call.attrs)) (hstore : s.store = .memory m)
      (hnew : m.tickets.lookup t = none) :
      Step s { s with
        heap := (m.create s.heap t (.ref c)).1
        store := .memory (m.create s.heap t (.ref c)).2
        phase := Function.update s.phase i (.filed t c mode)
        log := .gated t call :: s.log }
  /-- a call files its ticket: the call is written into a row -/
  | filesRow (i : ι) (t : TicketId) (c : ℕ) (call : ToolCall) (mode : ApprovalMode) (now : Time)
      {db db' : SqlTicketStore} (hphase : s.phase i = .free) (hc : s.Reached c)
      (hcall : s.heap.ReadsAs (.ref c) (.dict call.attrs)) (hstore : s.store = .sql db)
      (hnew : TicketStore.get db t = none) (hok : TicketStore.create db t call now = .ok db') :
      Step s { s with
        store := .sql db'
        phase := Function.update s.phase i (.filed t c mode)
        log := .gated t call :: s.log }
  /-- `notify_approvers` makes the body of the message, which is posted from then on -/
  | notifies (i : ι) (t : TicketId) (c : ℕ) (call : ToolCall) (mode : ApprovalMode)
      (n : WebhookNotifier) (replies : ℕ → PostOutcome) (hphase : s.phase i = .filed t c mode)
      (hcall : s.heap.ReadsAs (.ref c) (.dict call.attrs)) :
      Step s { s with
        phase := Function.update s.phase i .free
        log := (n.sent t call mode replies).map (fun post => .told t post.content) ++ s.log }
  /-- nobody is notified -/
  | goesOn (i : ι) : Step s { s with phase := Function.update s.phase i .free }
  /-- a copy of a ticket is handed out, by `get` or on a page of `pending` -/
  | shows (t : TicketId) (call : ToolCall) {m : ObjectStore} {out : TicketObject} {h' : Heap}
      (hstore : s.store = .memory m) (hget : m.get s.heap t = (some out, h'))
      (hcall : h'.ReadsAs out.call (.dict call.attrs)) :
      Step s { s with heap := h', held := out.vals ++ s.held, log := .shown t call :: s.log }
  /-- the row of a ticket is read; what is built from it is made in steps of its own -/
  | showsRow (t : TicketId) {db : SqlTicketStore} {ticket : Ticket} (hstore : s.store = .sql db)
      (hget : TicketStore.get db t = some ticket) :
      Step s { s with log := .shown t ticket.call :: s.log }
  | acts {h' : Heap} {store' : AnyStore} (hacts : Acts s s.store h' store') :
      Step s { s with heap := h', store := store' }

/-- No tickets yet; what there is on the heap is anybody's. -/
structure Begun (s : State ι) : Prop where
  store : s.store = .memory ObjectStore.empty ∨ s.store = .sql TicketStore.empty
  held : ∀ v ∈ s.held, s.heap.Whole v
  phase : ∀ i, s.phase i = .free
  log : s.log = []

omit [HmacSha256] in
/-- What the approvers are to be told of a call, its annotations apart. -/
def message (t : TicketId) (call : ToolCall) (mode : ApprovalMode) (annotations : Fields) : Fields :=
  [("event", .str "approval_requested"), ("ticket_id", .str t), ("approval_mode", .str mode.value),
    ("agent_id", .str call.agentId), ("tool", .str call.fullName), ("arguments", call.arguments),
    ("annotations", .dict annotations)]

omit [HmacSha256] in
/-- The body is the text of such a message, and is read back as it (unless the call has keys
    twice, or numbers that no text gives back). -/
def Carries (body : Bytes) (t : TicketId) (call : ToolCall) : Prop :=
  ∃ mode annotations,
    body = encodeAscii (Json.dumps (.dict (message t call mode annotations))).toList ∧
      ((Json.dict (message t call mode annotations)).Loadable →
        loads body = .ok (.dict (message t call mode annotations)))

omit [HmacSha256] in
theorem carries_body (t : TicketId) (call : ToolCall) (mode : ApprovalMode) (annotations : Fields) :
    Carries (WebhookNotifier.body t { call with annotations := annotations } mode) t call :=
  ⟨mode, annotations, rfl, Json.Loadable.loads_dumps⟩

end

-- ============================================================================
-- A call at its gate
-- ============================================================================

variable {h h' : Heap} {c : ℕ} {t : TicketId} {call call' : ToolCall} {arguments annotations : Val}

/-- The attributes of a call with these arguments. -/
def attributes (call : ToolCall) (arguments annotations : Val) : Dict Val :=
  [("request_id", .imm (.str call.requestId)), ("agent_id", .imm (.str call.agentId)),
    ("upstream_id", .imm (.str call.upstreamId)), ("tool_name", .imm (.str call.toolName)),
    ("arguments", arguments), ("annotations", annotations)]

/-- The object at `c` is still the call that was filed, its annotations apart: these it
    shares with the catalog. -/
structure Stands (h : Heap) (c : ℕ) (call : ToolCall) (arguments annotations : Val) : Prop where
  object : h[c]? = some (.fields (attributes call arguments annotations))
  whole : h.Whole arguments
  arguments : h.ReadsAs arguments call.arguments

theorem stands_of_reads (hc : h.Whole (.ref c)) (hcall : h.ReadsAs (.ref c) (.dict call.attrs)) :
    ∃ arguments annotations, Stands h c call arguments annotations := by
  obtain ⟨fs, hobj, hfs⟩ := hcall.fields
  obtain ⟨requestId, fs₁, rfl, hrequest, hfs₁⟩ := hfs.cons
  obtain ⟨agentId, fs₂, rfl, hagent, hfs₂⟩ := hfs₁.cons
  obtain ⟨upstreamId, fs₃, rfl, hupstream, hfs₃⟩ := hfs₂.cons
  obtain ⟨toolName, fs₄, rfl, htool, hfs₄⟩ := hfs₃.cons
  obtain ⟨arguments, fs₅, rfl, harguments, hfs₅⟩ := hfs₄.cons
  obtain ⟨annotations, fs₆, rfl, -, hfs₆⟩ := hfs₅.cons
  rw [hfs₆.nil, hrequest.eq_str, hagent.eq_str, hupstream.eq_str,
    htool.eq_str] at hobj
  have hmem : arguments ∈ (Obj.fields (attributes call arguments annotations)).vals := by
    simp [Obj.vals, attributes]
  exact ⟨arguments, annotations, hobj, fun a ha => hc a (.inside hobj hmem ha), harguments⟩

/-- What the call at its gate reads as is the call that was filed. -/
theorem Stands.reads (hc : Stands h c call arguments annotations)
    (hcall : h.ReadsAs (.ref c) (.dict call'.attrs)) :
    call' = { call with annotations := call'.annotations } := by
  obtain ⟨fs, hobj, hfs⟩ := hcall.fields
  rw [hc.object] at hobj
  cases hobj
  simp only [attributes, ToolCall.attrs, Heap.FieldsRead, List.forall₂_cons, true_and] at hfs
  obtain ⟨hrequest, hagent, hupstream, htool, harguments, -⟩ := hfs
  have hstr : ∀ {x y : String}, h.ReadsAs (.imm (.str x)) (.str y) → x = y := by
    intro x y hxy
    have heq := hxy.eq_str
    cases heq
    rfl
  cases call'
  simp only [ToolCall.mk.injEq, and_true]
  exact ⟨(hstr hrequest).symm, (hstr hagent).symm, (hstr hupstream).symm, (hstr htool).symm,
    harguments.unique hc.arguments⟩

theorem Stands.grow (hc : Stands h c call arguments annotations) (more : List Obj) :
    Stands (h ++ more) c call arguments annotations where
  object := by
    have hlt : c < h.length := (List.getElem?_eq_some_iff.mp hc.object).1
    rw [List.getElem?_append_left hlt, hc.object]
  whole := hc.whole.grow more
  arguments := hc.arguments.grow hc.whole more

/-- A change elsewhere leaves it as it is. -/
theorem Stands.set (hc : Stands h c call arguments annotations) {a : ℕ} (obj : Obj)
    (ha : ¬OfCall h c a) : Stands (h.set a obj) c call arguments annotations := by
  have hne : a ≠ c := fun heq => ha (Or.inl heq)
  have hattr : h.attr (.ref c) "arguments" = some arguments := by
    simp only [Heap.attr, hc.object]
    rfl
  have hapart : ¬h.Part arguments a := fun hpart => ha (Or.inr ⟨arguments, hattr, hpart⟩)
  refine ⟨?_, fun b hb => ?_, hc.arguments.congr (Heap.same_set hapart)⟩
  · rw [List.getElem?_set_ne hne, hc.object]
  · rw [List.length_set]
    exact hc.whole b (hb.congr (Heap.same_set hapart))

-- ============================================================================
-- The invariant
-- ============================================================================

theorem AnyStore.Keeps.unique {st : AnyStore} (hcall : st.Keeps h t call)
    (hcall' : st.Keeps h t call') : call = call' := by
  cases st with
  | memory m =>
      obtain ⟨ticket, hticket, hreads⟩ := hcall
      obtain ⟨ticket', hticket', hreads'⟩ := hcall'
      rw [hticket] at hticket'
      cases hticket'
      have hattrs : Json.dict call.attrs = .dict call'.attrs := hreads.unique hreads'
      exact ToolCall.attrs_injective (Json.dict.inj hattrs)
  | sql db =>
      obtain ⟨ticket, hticket, rfl⟩ := hcall
      obtain ⟨ticket', hticket', rfl⟩ := hcall'
      rw [hticket] at hticket'
      cases hticket'
      rfl

section
variable [PrintTables]

/-- What was noted is true of the tickets there are. -/
def Note.Holds (note : Note) (h : Heap) (st : AnyStore) (touched : TicketId → Prop) : Prop :=
  match note with
  | .gated t call => st.Keeps h t call
  | .shown t call => st.Keeps h t call
  | .told t body => ∃ call, st.Keeps h t call ∧ (¬touched t → Carries body t call)

/-- The objects of the store are out of everybody's reach. -/
structure Guarded (h : Heap) (st : AnyStore) (held : List Val) : Prop where
  outside : ∀ v ∈ held, h.Whole v
  kept : ∀ v, st.Holds v → h.Whole v
  apart : ∀ v w a, st.Holds v → w ∈ held → h.Part v a → ¬h.Part w a

/-- What every step keeps: the store's objects are out of reach, the notes are true, and a call
    at its gate is as it was unless it was written to. -/
structure Inv {ι : Type} (s : State ι) : Prop where
  objects : Guarded s.heap s.store s.held
  notes : ∀ note ∈ s.log, note.Holds s.heap s.store s.touched
  gates : ∀ i t c mode, s.phase i = .filed t c mode →
    ∃ call arguments annotations, s.store.Keeps s.heap t call ∧
      (¬s.touched t → Stands s.heap c call arguments annotations)

/-- Whatever keeps the calls keeps the notes true. -/
theorem Note.Holds.keep {note : Note} {st st' : AnyStore} {touched touched' : TicketId → Prop}
    (hnote : note.Holds h st touched) (hkeep : ∀ t call, st.Keeps h t call → st'.Keeps h' t call)
    (htouched : ∀ t, touched t → touched' t) : note.Holds h' st' touched' := by
  cases note with
  | gated t call => exact hkeep t call hnote
  | shown t call => exact hkeep t call hnote
  | told t body =>
      obtain ⟨call, hcall, hbody⟩ := hnote
      exact ⟨call, hkeep t call hcall, fun hno => hbody fun ht => hno (htouched t ht)⟩

end

-- ============================================================================
-- What a change does to the objects
-- ============================================================================

section
variable {m m' : ObjectStore} {held : List Val} {st : AnyStore} {v : Val}

theorem keeps_of_changes (hobjects : Guarded h (.memory m) held)
    (hch : ObjectStore.Changes m h m' h') (hcall : AnyStore.Keeps h t call (.memory m)) :
    AnyStore.Keeps h' t call (.memory m') := by
  obtain ⟨ticket, hticket, hreads⟩ := hcall
  obtain ⟨more, rfl⟩ := hch.grown
  obtain ⟨ticket', hticket', hsame⟩ := hch.calls t ticket hticket
  have hwhole : h.Whole ticket.call := hobjects.kept _ ⟨t, ticket, hticket, ticket.call_mem⟩
  refine ⟨ticket', hticket', ?_⟩
  rw [hsame]
  exact hreads.grow hwhole more

/-- An operation of the store makes objects of its own. -/
theorem Guarded.changes (hobjects : Guarded h (.memory m) held)
    (hch : ObjectStore.Changes m h m' h') : Guarded h' (.memory m') held := by
  obtain ⟨more, rfl⟩ := hch.grown
  have hold : ∀ v, AnyStore.Holds v (.memory m') →
      AnyStore.Holds v (.memory m) ∨ ObjectStore.Made h (h ++ more) v := by
    rintro v ⟨t, ticket', hticket', hv⟩
    obtain ⟨ticket, hticket, hmem⟩ | hmade := hch.vals t ticket' hticket' v hv
    · exact Or.inl ⟨t, ticket, hticket, hmem⟩
    · exact Or.inr hmade
  refine ⟨fun w hw => (hobjects.outside w hw).grow more, fun v hv => ?_, fun v w a hv hw ha hb => ?_⟩
  · obtain hv | hmade := hold v hv
    · exact (hobjects.kept v hv).grow more
    · exact hmade.whole
  · have hwa : h.Part w a := hb.of_grown (hobjects.outside w hw)
    obtain hv | hmade := hold v hv
    · exact hobjects.apart v w a hv hw (ha.of_grown (hobjects.kept v hv)) hwa
    · have hlt := hobjects.outside w hw a hwa
      have hge := hmade.new a ha
      omega

/-- A heap that only grows keeps the calls. -/
theorem keeps_of_grown (hkept : ∀ v, st.Holds v → h.Whole v) (more : List Obj)
    (hcall : st.Keeps h t call) : st.Keeps (h ++ more) t call := by
  cases st with
  | memory m =>
      obtain ⟨ticket, hticket, hreads⟩ := hcall
      have hwhole : h.Whole ticket.call := hkept _ ⟨t, ticket, hticket, ticket.call_mem⟩
      exact ⟨ticket, hticket, hreads.grow hwhole more⟩
  | sql db => exact hcall

/-- Values are handed out that are made of new objects, and of what could be reached before. -/
theorem Guarded.hand (hobjects : Guarded h st held) {more : List Obj} {vs : List Val}
    (hwhole : ∀ v ∈ vs, Heap.Whole (h ++ more) v)
    (hparts : ∀ v ∈ vs, ∀ a, Heap.Part (h ++ more) v a → h.length ≤ a ∨ ∃ w ∈ held, h.Part w a) :
    Guarded (h ++ more) st (vs ++ held) := by
  refine ⟨fun v hv => ?_, fun v hv => (hobjects.kept v hv).grow more, fun v w a hv hw ha hb => ?_⟩
  · obtain hv | hv := List.mem_append.mp hv
    · exact hwhole v hv
    · exact (hobjects.outside v hv).grow more
  · have hva : h.Part v a := ha.of_grown (hobjects.kept v hv)
    obtain hw | hw := List.mem_append.mp hw
    · obtain hge | ⟨w', hw', hpart⟩ := hparts w hw a hb
      · have hlt := hobjects.kept v hv a hva
        omega
      · exact hobjects.apart v w' a hv hw' hva hpart
    · exact hobjects.apart v w a hv hw hva (hb.of_grown (hobjects.outside w hw))

/-- What the store holds does not reach an object that others reach. -/
theorem Guarded.same_set (hobjects : Guarded h st held) {a : ℕ} (ha : ∃ w ∈ held, h.Part w a)
    (obj : Obj) (hv : st.Holds v) (b : ℕ) (hb : h.Part v b) : (h.set a obj)[b]? = h[b]? := by
  obtain ⟨w, hw, hpart⟩ := ha
  exact Heap.same_set (fun hva => hobjects.apart v w a hv hw hva hpart) b hb

theorem keeps_of_set (hobjects : Guarded h st held) {a : ℕ} (ha : ∃ w ∈ held, h.Part w a)
    (obj : Obj) (hcall : st.Keeps h t call) : st.Keeps (h.set a obj) t call := by
  cases st with
  | memory m =>
      obtain ⟨ticket, hticket, hreads⟩ := hcall
      have hheld : AnyStore.Holds ticket.call (.memory m) := ⟨t, ticket, hticket, ticket.call_mem⟩
      exact ⟨ticket, hticket, hreads.congr (hobjects.same_set ha obj hheld)⟩
  | sql db => exact hcall

/-- What others change in place leaves the tickets what they are. -/
theorem Guarded.represents (hobjects : Guarded h (.memory m) held) {a : ℕ}
    (ha : ∃ w ∈ held, h.Part w a) (obj : Obj) {s : MemoryTicketStore} (hs : Represents h m s) :
    Represents (h.set a obj) m s := by
  refine ⟨fun t => ?_, hs.claimed⟩
  obtain ⟨hnone, hnone'⟩ | ⟨out, ticket, hlookup, hlookup', hout⟩ := hs.ticket_cases t
  · rw [hnone, hnone']
    exact .none
  · rw [hlookup, hlookup']
    have hsame : ∀ v ∈ out.vals, ∀ b, h.Part v b → (h.set a obj)[b]? = h[b]? := fun v hv =>
      hobjects.same_set ha obj ⟨t, out, hlookup, hv⟩
    exact .some (hout.congr hsame List.length_set)

/-- An object is changed in place, to hold what could be reached before. -/
theorem Guarded.set (hobjects : Guarded h st held) {a : ℕ} (ha : ∃ w ∈ held, h.Part w a) {obj : Obj}
    (hvals : ∀ v ∈ obj.vals, ∀ b, h.Part v b → ∃ w ∈ held, h.Part w b) :
    Guarded (h.set a obj) st held := by
  have hreach : ∀ w ∈ held, ∀ b, Heap.Part (h.set a obj) w b → ∃ w ∈ held, h.Part w b := by
    intro w hw b hb
    obtain hpart | ⟨u, hu, hpart⟩ := hb.of_set
    · exact ⟨w, hw, hpart⟩
    · exact hvals u hu b hpart
  refine ⟨fun w hw b hb => ?_, fun v hv b hb => ?_, fun v w b hv hw hb hwb => ?_⟩
  · obtain ⟨w', hw', hpart⟩ := hreach w hw b hb
    rw [List.length_set]
    exact hobjects.outside w' hw' b hpart
  · rw [List.length_set]
    exact hobjects.kept v hv b (hb.congr (hobjects.same_set ha obj hv))
  · obtain ⟨w', hw', hpart⟩ := hreach w hw b hwb
    exact hobjects.apart v w' b hv hw' (hb.congr (hobjects.same_set ha obj hv)) hpart

end

-- ============================================================================
-- What a change does to the rows
-- ============================================================================

section
variable {db db' : SqlTicketStore} {t' : TicketId}

theorem keeps_sql_iff :
    AnyStore.Keeps h t call (.sql db) ↔
      ∃ c, LawfulTicketStore.cell db t = some c ∧ c.call = call := by
  show (∃ ticket, TicketStore.get db t = some ticket ∧ ticket.call = call) ↔ _
  rw [LawfulTicketStore.get_eq]
  constructor
  · rintro ⟨ticket, hget, rfl⟩
    obtain ⟨c, hc, rfl⟩ := Option.map_eq_some_iff.mp hget
    exact ⟨c, hc, rfl⟩
  · rintro ⟨c, hc, rfl⟩
    exact ⟨c.ticket, by rw [hc, Option.map_some], rfl⟩

/-- An operation on one cell that leaves the call as it is. -/
theorem keeps_of_cells {f : Cell → Cell} (hf : ∀ c, (f c).call = c.call)
    (hcells : LawfulTicketStore.cell db'
      = Function.update (LawfulTicketStore.cell db) t' ((LawfulTicketStore.cell db t').map f))
    (hcall : AnyStore.Keeps h t call (.sql db)) : AnyStore.Keeps h' t call (.sql db') := by
  rw [keeps_sql_iff] at hcall ⊢
  obtain ⟨c, hc, rfl⟩ := hcall
  rw [hcells]
  by_cases ht : t = t'
  · subst ht
    rw [Function.update_self, hc]
    exact ⟨f c, rfl, hf c⟩
  · rw [Function.update_of_ne ht]
    exact ⟨c, hc, rfl⟩

/-- A new row keeps the call that was written into it, and the others keep theirs. -/
theorem keeps_of_create {now : Time} (hnew : TicketStore.get db t = none)
    (hok : TicketStore.create db t call now = .ok db') :
    AnyStore.Keeps h t call (.sql db') ∧
      ∀ t' call', AnyStore.Keeps h t' call' (.sql db) → AnyStore.Keeps h t' call' (.sql db') := by
  rw [LawfulTicketStore.get_eq, Option.map_eq_none_iff] at hnew
  obtain ⟨db'', hdb, hcells⟩ := LawfulTicketStore.create_fresh db t call now hnew
  rw [hok] at hdb
  cases hdb
  refine ⟨keeps_sql_iff.mpr ⟨.filed call, by rw [hcells, Function.update_self], rfl⟩,
    fun t' call' hcall => ?_⟩
  rw [keeps_sql_iff] at hcall ⊢
  obtain ⟨c, hc, rfl⟩ := hcall
  have ht : t' ≠ t := by
    rintro rfl
    rw [hnew] at hc
    cases hc
  exact ⟨c, by rw [hcells, Function.update_of_ne ht, hc], rfl⟩

end

-- ============================================================================
-- Every run
-- ============================================================================

section
variable {ι : Type} [PrintTables] {s s' : State ι}

omit [PrintTables] in
/-- All parts of a value that code outside the store has can be reached by it. -/
theorem State.Has.reached {v : Val} (hv : s.Has v) {b : ℕ} (hb : s.heap.Part v b) : s.Reached b := by
  cases v with
  | imm j => cases hb
  | ref a =>
      obtain ⟨w, hw, hpart⟩ := hv a rfl
      exact ⟨w, hw, hpart.trans hb⟩

omit [PrintTables] in
theorem State.Reached.has {a : ℕ} (ha : s.Reached a) : s.Has (.ref a) := by
  intro b hb
  cases hb
  exact ha

theorem Inv.whole (hinv : Inv s) {v : Val} (hv : s.Has v) : s.heap.Whole v := by
  intro b hb
  obtain ⟨w, hw, hpart⟩ := hv.reached hb
  exact hinv.objects.outside w hw b hpart

/-- What there is to show of a step: no call is lost, no call at its gate is touched, and what
    is noted or filed anew is right. -/
theorem Inv.next (hinv : Inv s) (hobjects : Guarded s'.heap s'.store s'.held)
    (hkeep : ∀ t call, s.store.Keeps s.heap t call → s'.store.Keeps s'.heap t call)
    (htouched : ∀ t, s.touched t → s'.touched t)
    (hstand : ∀ i t c mode call arguments annotations, s.phase i = .filed t c mode →
      ¬s'.touched t → Stands s.heap c call arguments annotations →
        Stands s'.heap c call arguments annotations)
    (hnotes : ∀ note ∈ s'.log, note ∈ s.log ∨ note.Holds s'.heap s'.store s'.touched)
    (hgates : ∀ i t c mode, s'.phase i = .filed t c mode → s.phase i = .filed t c mode ∨
      ∃ call arguments annotations, s'.store.Keeps s'.heap t call ∧
        Stands s'.heap c call arguments annotations) : Inv s' := by
  refine ⟨hobjects, fun note hnote => ?_, fun i t c mode hphase => ?_⟩
  · obtain hold | hnew := hnotes note hnote
    · exact (hinv.notes note hold).keep hkeep htouched
    · exact hnew
  · obtain hold | ⟨call, arguments, annotations, hcall, hstands⟩ := hgates i t c mode hphase
    · obtain ⟨call, arguments, annotations, hcall, hstands⟩ := hinv.gates i t c mode hold
      refine ⟨call, arguments, annotations, hkeep t call hcall, fun hno => ?_⟩
      exact hstand i t c mode call arguments annotations hold hno
        (hstands fun ht => hno (htouched t ht))
    · exact ⟨call, arguments, annotations, hcall, fun _ => hstands⟩

/-- The heap grows, and nothing is noted or filed. -/
theorem Inv.grow (hinv : Inv s) {more : List Obj} {st : AnyStore} {held : List Val}
    (hobjects : Guarded (s.heap ++ more) st held)
    (hkeep : ∀ t call, s.store.Keeps s.heap t call → st.Keeps (s.heap ++ more) t call) :
    Inv { s with heap := s.heap ++ more, store := st, held := held } :=
  hinv.next hobjects hkeep (fun _ ht => ht) (fun _ _ _ _ _ _ _ _ _ hstands => hstands.grow more)
    (fun _ hnote => Or.inl hnote) (fun _ _ _ _ hphase => Or.inl hphase)

/-- An operation of the store with objects. -/
theorem Inv.changes (hinv : Inv s) {m m' : ObjectStore} {h' : Heap} (hstore : s.store = .memory m)
    (hch : ObjectStore.Changes m s.heap m' h') :
    Inv { s with heap := h', store := .memory m' } := by
  have hobjects : Guarded s.heap (.memory m) s.held := by
    rw [← hstore]
    exact hinv.objects
  obtain ⟨more, rfl⟩ := hch.grown
  refine hinv.grow (hobjects.changes hch) fun t call hcall => ?_
  rw [hstore] at hcall
  exact keeps_of_changes hobjects hch hcall

/-- A statement on the rows that keeps the calls. -/
theorem Inv.rows (hinv : Inv s) {db : SqlTicketStore}
    (hkeep : ∀ t call, s.store.Keeps s.heap t call → AnyStore.Keeps s.heap t call (.sql db)) :
    Inv { s with store := .sql db } :=
  hinv.next ⟨hinv.objects.outside, fun _ hv => hv.elim, fun _ _ _ hv => hv.elim⟩ hkeep
    (fun _ ht => ht) (fun _ _ _ _ _ _ _ _ _ hstands => hstands) (fun _ hnote => Or.inl hnote)
    (fun _ _ _ _ hphase => Or.inl hphase)

/-- An operation on one row. -/
theorem Inv.row (hinv : Inv s) {db db' : SqlTicketStore} {t : TicketId} {f : Cell → Cell}
    (hstore : s.store = .sql db) (hf : ∀ c, (f c).call = c.call)
    (hcells : LawfulTicketStore.cell db'
      = Function.update (LawfulTicketStore.cell db) t ((LawfulTicketStore.cell db t).map f)) :
    Inv { s with store := .sql db' } := by
  refine hinv.rows fun t call hcall => ?_
  rw [hstore] at hcall
  exact keeps_of_cells hf hcells hcall

theorem inv_acts (hinv : Inv s) {h' : Heap} {store' : AnyStore} (hacts : Acts s s.store h' store') :
    Inv { s with heap := h', store := store' } := by
  generalize hstore : s.store = store at hacts
  cases hacts with
  | decide m t d hd => exact hinv.changes hstore (ObjectStore.decide_changes (hinv.whole hd))
  | claim m t now => exact hinv.changes hstore ObjectStore.claim_changes
  | closeStaleClaim m t now older r hr =>
      exact hinv.changes hstore (ObjectStore.closeStaleClaim_changes (hinv.whole hr))
  | complete m t r hr hok =>
      exact hinv.changes hstore (ObjectStore.complete_changes (hinv.whole hr) hok)
  | decideRow db t d =>
      exact hinv.row hstore (fun c => (c.decide_evolves d).call)
        (LawfulTicketStore.decide_acts db t d).cells
  | claimRow db t now =>
      exact hinv.row hstore (Cell.claim_call now)
        (LawfulTicketStore.claim_acts db t now).cells
  | closeStaleClaimRow db t now older r =>
      exact hinv.row hstore (Cell.closeStaleClaim_call now older r)
        (LawfulTicketStore.closeStaleClaim_acts db t now older r).cells
  | completeRow db t r hok =>
      cases hok
      exact hinv.row hstore (fun c => (c.complete_evolves r).call) (db.cell_complete t r)

variable [DecidableEq ι]

/-- Something is noted, and one call goes to another phase. -/
theorem Inv.note (hinv : Inv s) {log : List Note} (i : ι) {phase : Phase}
    (hnotes : ∀ note ∈ log, note ∈ s.log ∨ note.Holds s.heap s.store s.touched)
    (hgate : ∀ t c mode, phase = .filed t c mode → ∃ call arguments annotations,
      s.store.Keeps s.heap t call ∧ Stands s.heap c call arguments annotations) :
    Inv { s with phase := Function.update s.phase i phase, log := log } := by
  refine hinv.next hinv.objects (fun _ _ hcall => hcall) (fun _ ht => ht)
    (fun _ _ _ _ _ _ _ _ _ hstands => hstands) hnotes fun j t c mode hphase => ?_
  have hupdate : Function.update s.phase i phase j = .filed t c mode := hphase
  by_cases hj : j = i
  · rw [hj, Function.update_self] at hupdate
    exact Or.inr (hgate t c mode hupdate)
  · rw [Function.update_of_ne hj] at hupdate
    exact Or.inl hupdate

omit [DecidableEq ι] in
/-- A call is noted that the ticket keeps. -/
theorem Inv.shown (hinv : Inv s) {t : TicketId} {call : ToolCall}
    (hcall : s.store.Keeps s.heap t call) : Inv { s with log := .shown t call :: s.log } := by
  refine hinv.next hinv.objects (fun _ _ hcall => hcall) (fun _ ht => ht)
    (fun _ _ _ _ _ _ _ _ _ hstands => hstands) (fun note hnote => ?_) (fun _ _ _ _ hphase => Or.inl hphase)
  obtain rfl | hold := List.mem_cons.mp hnote
  · exact Or.inr hcall
  · exact Or.inl hold

/-- A ticket was filed for the call at `c`. -/
theorem Inv.file (hinv : Inv s) (i : ι) {t : TicketId} {c : ℕ} {call : ToolCall}
    {mode : ApprovalMode} {arguments annotations : Val} (hcall : s.store.Keeps s.heap t call)
    (hstands : Stands s.heap c call arguments annotations) :
    Inv { s with phase := Function.update s.phase i (.filed t c mode)
                 log := .gated t call :: s.log } := by
  refine hinv.note i (fun note hnote => ?_) fun t' c' mode' hphase => ?_
  · obtain rfl | hold := List.mem_cons.mp hnote
    · exact Or.inr hcall
    · exact Or.inl hold
  · cases hphase
    exact ⟨call, arguments, annotations, hcall, hstands⟩

omit [DecidableEq ι] in
theorem inv_makes (hinv : Inv s) {obj : Obj} (hvals : ∀ v ∈ obj.vals, s.Has v) :
    Inv { s with heap := (s.heap.alloc obj).2, held := (s.heap.alloc obj).1 :: s.held } := by
  have hwhole : ∀ w ∈ obj.vals, s.heap.Whole w := fun w hw => hinv.whole (hvals w hw)
  have hhand : Guarded (s.heap ++ [obj]) s.store ([(s.heap.alloc obj).1] ++ s.held) := by
    refine hinv.objects.hand (fun v hv => ?_) fun v hv a ha => ?_
    · rw [List.mem_singleton.mp hv]
      exact Heap.whole_alloc hwhole
    · rw [List.mem_singleton.mp hv] at ha
      obtain rfl | ⟨w, hw, hpart⟩ := Heap.Part.of_alloc ha hwhole
      · exact Or.inl (Nat.le_refl _)
      · exact Or.inr ((hvals w hw).reached hpart)
  exact hinv.grow hhand fun t call hcall => keeps_of_grown hinv.objects.kept _ hcall

omit [DecidableEq ι] in
/-- What is handed out is a copy, and reads like the ticket. -/
theorem inv_shows (hinv : Inv s) {t : TicketId} {call : ToolCall} {m : ObjectStore}
    {out : TicketObject} {h' : Heap} (hstore : s.store = .memory m)
    (hget : m.get s.heap t = (some out, h')) (hcall : h'.ReadsAs out.call (.dict call.attrs)) :
    Inv { s with heap := h', held := out.vals ++ s.held, log := .shown t call :: s.log } := by
  have hlookup : ∃ ticket, m.tickets.lookup t = some ticket := by
    cases hticket : m.tickets.lookup t with
    | none =>
        rw [ObjectStore.get, hticket] at hget
        cases hget
    | some ticket => exact ⟨ticket, rfl⟩
  obtain ⟨ticket, hticket⟩ := hlookup
  have hheld : ∀ v ∈ ticket.vals, s.store.Holds v := by
    intro v hv
    rw [hstore]
    exact ⟨t, ticket, hticket, hv⟩
  obtain ⟨out', hout, hmade, hreads⟩ := ObjectStore.get_made hticket fun v hv =>
    hinv.objects.kept v (hheld v hv)
  rw [hget] at hout
  cases hout
  have hkeeps : s.store.Keeps s.heap t call := by
    rw [hstore]
    exact ⟨ticket, hticket, (hreads _).mp hcall⟩
  have hhand : Guarded (s.heap.deepcopy ticket.call).2 s.store (out.vals ++ s.held) :=
    hinv.objects.hand (fun v hv => (hmade v hv).whole) fun v hv a ha => Or.inl ((hmade v hv).new a ha)
  have hkeep : ∀ t call, s.store.Keeps s.heap t call →
      s.store.Keeps (s.heap.deepcopy ticket.call).2 t call :=
    fun _ _ hcall => keeps_of_grown hinv.objects.kept _ hcall
  exact (hinv.grow hhand hkeep).shown (hkeep t call hkeeps)

variable [HmacSha256]

theorem inv_step (hinv : Inv s) (hstep : Step s s') : Inv s' := by
  cases hstep with
  | makes obj hvals => exact inv_makes hinv hvals
  | writes i a obj hfree ha hvals =>
      refine hinv.next (hinv.objects.set ha fun v hv b hb => (hvals v hv).reached hb)
        (fun t call hcall => keeps_of_set hinv.objects ha obj hcall) (fun _ ht => Or.inl ht)
        (fun j t c mode call arguments annotations hphase hno hstands => ?_)
        (fun _ hnote => Or.inl hnote) (fun _ _ _ _ hphase => Or.inl hphase)
      exact hstands.set obj fun hof => hno (Or.inr ⟨j, c, mode, hphase, hof⟩)
  | files i t c call mode hphase hc hcall hstore hnew =>
      have hwhole : s.heap.Whole (.ref c) := hinv.whole hc.has
      obtain ⟨arguments, annotations, hstands⟩ := stands_of_reads hwhole hcall
      have hch := ObjectStore.create_changes hnew hwhole
      obtain ⟨ticket, hticket, hreads⟩ := ObjectStore.create_call hwhole hcall
      obtain ⟨more, hmore⟩ := hch.grown
      have hstands' := hstands.grow more
      rw [← hmore] at hstands'
      exact (hinv.changes hstore hch).file i ⟨ticket, hticket, hreads⟩ hstands'
  | filesRow i t c call mode now hphase hc hcall hstore hnew hok =>
      obtain ⟨arguments, annotations, hstands⟩ := stands_of_reads (hinv.whole hc.has) hcall
      obtain ⟨hfiled, hkeep⟩ := keeps_of_create hnew hok
      rw [← hstore] at hkeep
      exact (hinv.rows hkeep).file i hfiled hstands
  | notifies i t c call mode n replies hphase hcall =>
      obtain ⟨recorded, arguments, annotations, hkeeps, hstands⟩ := hinv.gates i t c mode hphase
      refine hinv.note i (fun note hnote => ?_) fun t' c' mode' hfree => by cases hfree
      obtain hnew | hold := List.mem_append.mp hnote
      · obtain ⟨post, hpost, rfl⟩ := List.mem_map.mp hnew
        refine Or.inr ⟨recorded, hkeeps, fun hno => ?_⟩
        rw [WebhookNotifier.content_of_mem_sent hpost, (hstands hno).reads hcall]
        exact carries_body t recorded mode call.annotations
      · exact Or.inl hold
  | goesOn i =>
      exact hinv.note i (fun _ hnote => Or.inl hnote) fun t' c' mode' hfree => by cases hfree
  | shows t call hstore hget hcall => exact inv_shows hinv hstore hget hcall
  | showsRow t hstore hget =>
      refine hinv.shown ?_
      rw [hstore]
      exact ⟨_, hget, rfl⟩
  | acts hacts => exact inv_acts hinv hacts

omit [DecidableEq ι] [HmacSha256] in
theorem inv_begun (hbegun : Begun s) : Inv s := by
  have hempty : ∀ v, ¬s.store.Holds v := by
    intro v hv
    obtain hstore | hstore := hbegun.store
    · rw [hstore] at hv
      obtain ⟨t, ticket, hticket, -⟩ := hv
      cases hticket
    · rw [hstore] at hv
      exact hv
  refine ⟨⟨hbegun.held, fun v hv => (hempty v hv).elim, fun v w a hv => (hempty v hv).elim⟩,
    fun note hnote => ?_, fun i t c mode hphase => ?_⟩
  · rw [hbegun.log] at hnote
    cases hnote
  · rw [hbegun.phase i] at hphase
    cases hphase

theorem inv_run {s₀ : State ι} (hbegun : Begun s₀) (hrun : Relation.ReflTransGen Step s₀ s) :
    Inv s := by
  induction hrun with
  | refl => exact inv_begun hbegun
  | tail _ hstep ih => exact inv_step ih hstep

/-- From the moment its ticket is filed a call stays on it as it was: whatever is changed in
    place, the ticket keeps that call, and it is the one that operators and `resume` are shown.
    Unless others write into the call while it stands at its gate, what the approvers are
    told is its agent, its tool and its arguments. -/
theorem recorded_call_never_changes {s₀ : State ι} (hbegun : Begun s₀)
    (hrun : Relation.ReflTransGen Step s₀ s) {t : TicketId} {call : ToolCall}
    (hgated : .gated t call ∈ s.log) :
    s.store.Keeps s.heap t call ∧ (∀ shown, .shown t shown ∈ s.log → shown = call) ∧
      (¬s.touched t → ∀ body, .told t body ∈ s.log → Carries body t call) := by
  have hinv : Inv s := inv_run hbegun hrun
  have hkept : s.store.Keeps s.heap t call := hinv.notes _ hgated
  refine ⟨hkept, fun shown hshown => ?_, fun hno body htold => ?_⟩
  · have hshownKept : s.store.Keeps s.heap t shown := hinv.notes _ hshown
    exact hshownKept.unique hkept
  · obtain ⟨recorded, hrecorded, hbody⟩ := hinv.notes _ htold
    rw [← hrecorded.unique hkept]
    exact hbody hno

end

/-- A call that names a secret. -/
def secretCall : ToolCall where
  requestId := "r-1"
  agentId := "reporter"
  upstreamId := "db"
  toolName := "query"
  arguments := .dict [("token", .str "secret:db")]
  annotations := []

/-- The call on the heap, and no tickets in the store; `true` is its task, `false` one that a
    step has left behind. -/
def beforeGate (store : AnyStore) : State Bool where
  heap := [.fields [("token", .imm (.str "secret:db"))], .fields [],
    .fields (attributes secretCall (.ref 0) (.ref 1))]
  store := store
  held := [.ref 2]
  phase := fun _ => .free
  touched := fun _ => False
  log := []

theorem beforeGate_begun {store : AnyStore}
    (hstore : store = .memory ObjectStore.empty ∨ store = .sql TicketStore.empty) :
    Begun (beforeGate store) where
  store := hstore
  held := by
    intro v hv
    refine Heap.whole_of_closed (fun obj hobj w hw a ha => ?_) fun a ha => ?_
    · subst ha
      rcases hobj with _ | ⟨_, _ | ⟨_, _ | ⟨_, hobj⟩⟩⟩
      · simp [Obj.vals] at hw
      · simp [Obj.vals] at hw
      · have hrefs : a = 0 ∨ a = 1 := by simpa [Obj.vals, attributes] using hw
        show a < 3
        omega
      · cases hobj
    · have hheld : v = .ref 2 := List.mem_singleton.mp hv
      rw [hheld] at ha
      cases ha
      show 2 < 3
      omega
  phase _ := rfl
  log := rfl

/-- The ticket is filed. -/
def atGate : State Bool :=
  { beforeGate (.memory .empty) with
    heap := (ObjectStore.empty.create (beforeGate (.memory .empty)).heap "t-1" (.ref 2)).1
    store := .memory (ObjectStore.empty.create (beforeGate (.memory .empty)).heap "t-1" (.ref 2)).2
    phase := Function.update (fun _ => .free) true (.filed "t-1" 2 .interactive)
    log := [.gated "t-1" secretCall] }

/-- The arguments with the secret in its place. -/
def secretArguments : Obj := .fields [("token", .imm (.str "hunter2"))]

/-- A channel that takes the message at once. -/
def approvers : WebhookNotifier where
  url := "https://approvers"

section
variable [PrintTables] [HmacSha256]

/-- The approvers are told of the call, which is this one by then. -/
def State.tell (s : State Bool) (call : ToolCall) : State Bool :=
  { s with
    phase := Function.update s.phase true .free
    log := (approvers.sent "t-1" call .interactive fun _ => .status 200).map
      (fun post => .told "t-1" post.content) ++ s.log }

/-- The secret is materialized after that. -/
def materialized : State Bool :=
  { atGate.tell secretCall with
    heap := ((atGate.tell secretCall).heap.alloc secretArguments).2
    held := ((atGate.tell secretCall).heap.alloc secretArguments).1 :: atGate.held }

/-- `ctx.call.arguments = args` -/
def withSecrets : State Bool :=
  { materialized with
    heap := materialized.heap.set 2
      (.fields (attributes secretCall ((atGate.tell secretCall).heap.alloc secretArguments).1 (.ref 1)))
    touched := fun t => materialized.touched t ∨
      ∃ j c mode, materialized.phase j = .filed t c mode ∧ OfCall materialized.heap c 2 }

theorem atGate_run : Relation.ReflTransGen Step (beforeGate (.memory .empty)) atGate := by
  have hreads : (beforeGate (.memory .empty)).heap.ReadsAs (.ref 2) (.dict secretCall.attrs) :=
    ⟨2, rfl⟩
  exact .single (.files true "t-1" 2 secretCall .interactive rfl ⟨.ref 2, .head _, .self⟩ hreads
    rfl rfl)

/-- Nobody stands at a gate once the approvers are told. -/
theorem tell_free (call : ToolCall) (j : Bool) : (atGate.tell call).phase j = .free := by
  cases j with
  | true => rfl
  | false => rfl

theorem withSecrets_run : Relation.ReflTransGen Step (beforeGate (.memory .empty)) withSecrets := by
  have hnotifies : Step atGate (atGate.tell secretCall) :=
    .notifies true "t-1" 2 secretCall .interactive approvers _ rfl ⟨2, rfl⟩
  have hmakes : Step (atGate.tell secretCall) materialized := by
    refine .makes secretArguments fun v hv a ha => ?_
    subst ha
    simp [Obj.vals, secretArguments] at hv
  have hwrites : Step materialized withSecrets := by
    refine .writes true 2 _ rfl ⟨.ref 2, .tail _ (.head _), .self⟩ fun v hv a ha => ?_
    subst ha
    have hrefs : Val.ref a = ((atGate.tell secretCall).heap.alloc secretArguments).1 ∨ a = 1 := by
      simpa [Obj.vals, attributes] using hv
    obtain hnew | rfl := hrefs
    · exact ⟨_, .head _, hnew ▸ .self⟩
    · -- the annotations belong to the call
      have hmem : Val.ref 1 ∈ (Obj.fields (attributes secretCall (.ref 0) (.ref 1))).vals := by
        simp [Obj.vals, attributes]
      have hcall : materialized.heap[2]? =
        some (.fields (attributes secretCall (.ref 0) (.ref 1))) := rfl
      exact ⟨.ref 2, .tail _ (.head _), .inside hcall hmem .self⟩
  exact ((atGate_run.tail hnotifies).tail hmakes).tail hwrites

theorem withSecrets_untouched : ¬withSecrets.touched "t-1" := by
  rintro (hno | ⟨j, c, mode, hphase, -⟩)
  · exact hno
  · have hfree : withSecrets.phase j = .free := tell_free secretCall j
    rw [show materialized.phase j = .free from hfree] at hphase
    cases hphase

end

section
attribute [local instance] PrintTables.ascii

local instance : HmacSha256 := ⟨fun _ _ => ""⟩

/-- The call has the secret itself among its arguments; the ticket and the message do not. -/
theorem recorded_call_never_changes_secret :
    withSecrets.heap.ReadsAs (.ref 2)
        (.dict { secretCall with arguments := .dict [("token", .str "hunter2")] }.attrs) ∧
      withSecrets.store.Keeps withSecrets.heap "t-1" secretCall ∧
      (∀ shown, .shown "t-1" shown ∈ withSecrets.log → shown = secretCall) ∧
      (∃ body, .told "t-1" body ∈ withSecrets.log) ∧
      ∀ body, .told "t-1" body ∈ withSecrets.log → Carries body "t-1" secretCall := by
  obtain ⟨hkeeps, hshown, htold⟩ :=
    recorded_call_never_changes (beforeGate_begun (Or.inl rfl)) withSecrets_run (.tail _ (.head _))
  exact ⟨⟨2, rfl⟩, hkeeps, hshown, ⟨_, .head _⟩, htold withSecrets_untouched⟩

/-- The table once the ticket is in it. -/
def oneRow : SqlTicketStore where
  rows := [
    { id := "t-1", agentId := "reporter", tool := "db.query", status := .pending, call := secretCall,
      decision := { status := .pending }, claimed := false, claimedAt := none, result := none,
      createdAt := 0, status_eq := rfl, claimed_eq := rfl }]
  ids_nodup := List.nodup_singleton _

/-- The ticket is a row, and `create` waits for the database to take it. -/
def atRow : State Bool :=
  { beforeGate (.sql TicketStore.empty) with
    store := .sql oneRow
    phase := Function.update (fun _ => .free) true (.filed "t-1" 2 .interactive)
    log := [.gated "t-1" secretCall] }

/-- What the task left behind makes of the call meanwhile. -/
def overwritten : State Bool :=
  { atRow with
    heap := atRow.heap.set 0 secretArguments
    touched := fun t => atRow.touched t ∨
      ∃ j c mode, atRow.phase j = .filed t c mode ∧ OfCall atRow.heap c 0 }

/-- The call that the approvers are told of then. -/
def overwrittenCall : ToolCall := { secretCall with arguments := .dict [("token", .str "hunter2")] }

theorem overwritten_run : Relation.ReflTransGen Step (beforeGate (.sql TicketStore.empty))
    (overwritten.tell overwrittenCall) := by
  have hfiles : Step (beforeGate (.sql TicketStore.empty)) atRow :=
    .filesRow true "t-1" 2 secretCall .interactive 0 rfl ⟨.ref 2, .head _, .self⟩ ⟨2, rfl⟩ rfl rfl rfl
  have hwrites : Step atRow overwritten := by
    refine .writes false 0 _ rfl ⟨.ref 2, .head _, ?_⟩ fun v hv a ha => ?_
    · have hmem : Val.ref 0 ∈ (Obj.fields (attributes secretCall (.ref 0) (.ref 1))).vals := by
        simp [Obj.vals, attributes]
      have hcall : atRow.heap[2]? = some (.fields (attributes secretCall (.ref 0) (.ref 1))) := rfl
      exact .inside hcall hmem .self
    · subst ha
      simp [Obj.vals, secretArguments] at hv
  have hnotifies : Step overwritten (overwritten.tell overwrittenCall) :=
    .notifies true "t-1" 2 overwrittenCall .interactive approvers _ rfl ⟨2, rfl⟩
  exact ((Relation.ReflTransGen.single hfiles).tail hwrites).tail hnotifies

/-- The message begins with its fields up to the annotations. -/
theorem Carries.begins {body : Bytes} {t : TicketId} {call : ToolCall} (h : Carries body t call) :
    ∃ mode, encodeAscii (Json.textBefore ((message t call mode []).take 6)) <+: body := by
  obtain ⟨mode, annotations, htext, -⟩ := h
  refine ⟨mode, ?_⟩
  rw [htext, Json.dumps, String.toList_ofList]
  exact (Json.textBefore_prefix ((message t call mode []).take 6)
    ("annotations", .dict annotations) []).map _

/-- Neither the mode nor the token is what it would be for the call on the ticket. -/
theorem not_carries_overwritten :
    ¬Carries (WebhookNotifier.body "t-1" overwrittenCall .interactive) "t-1" secretCall := by
  intro h
  obtain ⟨mode, hkept⟩ := h.begins
  have hsent : encodeAscii (Json.textBefore ((message "t-1" overwrittenCall .interactive []).take 6))
      <+: WebhookNotifier.body "t-1" overwrittenCall .interactive := by
    rw [WebhookNotifier.body, Json.dumps, String.toList_ofList]
    exact (Json.textBefore_prefix _ ("annotations", .dict []) []).map _
  have hboth := List.prefix_or_prefix_of_prefix hkept hsent
  revert hboth
  cases mode with
  | auto => decide +kernel
  | interactive => decide +kernel
  | async => decide +kernel

/-- A task that a step has left behind writes into the call while the database takes its
    ticket: the approvers are told of other arguments than the ticket keeps. -/
theorem approvers_can_be_told_otherwise :
    ¬ ∀ (s₀ s : State Bool), Begun s₀ → Relation.ReflTransGen Step s₀ s →
      ∀ t call, .gated t call ∈ s.log → ∀ body, .told t body ∈ s.log → Carries body t call := by
  intro law
  obtain ⟨post, hpost⟩ : ∃ post, post ∈ approvers.sent "t-1" overwrittenCall .interactive
      fun _ => .status 200 := ⟨_, .head _⟩
  have htold : Note.told "t-1" post.content ∈ (overwritten.tell overwrittenCall).log :=
    List.mem_append_left _ (List.mem_map_of_mem hpost)
  have hcarries := law _ _ (beforeGate_begun (Or.inr rfl)) overwritten_run "t-1" secretCall
    (.tail _ (.head _)) _ htold
  rw [WebhookNotifier.content_of_mem_sent hpost] at hcarries
  exact not_carries_overwritten hcarries

end

end Custody

end ToolGateway
