/-
  ToolGateway.Tickets.Queue

  The approval queue: one page of the tickets that wait for a verdict (`pending`
  of the two stores), and the operator's view of it (`TicketController.pending`).

  What the database decides is a parameter: the collation that orders ids, and
  how LIKE compares two characters.
-/

import Mathlib.Data.List.Sort
import ToolGateway.Python.Fnmatch
import ToolGateway.Tickets.Memory
import ToolGateway.Tickets.Sql

namespace ToolGateway

open Py

/-- Which tickets an operator asks for. -/
structure QueueFilter where
  tool : Option String := none
  agentId : Option String := none

/-- The arguments of `pending`. -/
structure PageQuery where
  limit : ℕ
  after : Option TicketId
  filter : QueueFilter

/-- A filter that was given and is not empty. -/
def givenFilter : Option String → Option String
  | some s => if s = "" then none else some s
  | none => none

/-- A store with a queue. -/
class TicketQueue (σ : Type) where
  pending : σ → PageQuery → Dict Ticket

-- ============================================================================
-- The memory store
-- ============================================================================

namespace MemoryTicketStore

/-- It waits for a verdict, and both filters let it through. -/
def wanted (filter : QueueFilter) (ticket : Ticket) : Bool :=
  ticket.decision.status = .pending &&
    (givenFilter filter.tool).all (fun tool => fnmatchcase ticket.call.fullName tool) &&
    (givenFilter filter.agentId).all (fun agent => ticket.call.agentId = agent)

/-- The loop over the items; `started` once the cursor was passed. -/
def scan (q : PageQuery) : (started : Bool) → (page : Dict Ticket) → Dict Ticket → Dict Ticket
  | _, page, [] => page
  | false, page, (t, _) :: items => scan q (some t = q.after) page items
  | true, page, (t, ticket) :: items =>
      if wanted q.filter ticket then
        let page := page ++ [(t, ticket)]
        if page.length = q.limit then page else scan q true page items
      else scan q true page items

/-- `pending` -/
def pending (s : MemoryTicketStore) (q : PageQuery) : Dict Ticket :=
  scan q q.after.isNone [] s.tickets.items

instance : TicketQueue MemoryTicketStore := ⟨pending⟩

end MemoryTicketStore

-- ============================================================================
-- The SQL store
-- ============================================================================

/-- What differs between databases. -/
class SqlDialect where
  /-- `a <= b` of two ids -/
  le : String → String → Bool
  le_total : ∀ a b, le a b = true ∨ le b a = true
  le_trans : ∀ a b c, le a b = true → le b c = true → le a c = true
  le_antisymm : ∀ a b, le a b = true → le b a = true → a = b
  /-- LIKE compares characters after this -/
  fold : Char → Char

namespace SqlTicketStore

/-- `s.replace(c, by)` -/
def replaceChar (c : Char) (by' : List Char) (cs : List Char) : List Char :=
  cs.flatMap fun x => if x = c then by' else [x]

/-- The LIKE pattern of a tool filter. -/
def likePattern (tool : String) : List Char :=
  replaceChar '*' ['%'] <| replaceChar '_' ['\\', '_'] <| replaceChar '%' ['\\', '%'] <|
    replaceChar '\\' ['\\', '\\'] tool.toList

section
variable [SqlDialect]

/-- `text LIKE pattern ESCAPE '\'` -/
def like : (pattern text : List Char) → Bool
  | [], text => text.isEmpty
  | '%' :: p, text => text.tails.any (like p)
  | '\\' :: c :: p, x :: text => SqlDialect.fold x = SqlDialect.fold c && like p text
  | '_' :: p, _ :: text => like p text
  | c :: p, x :: text => SqlDialect.fold x = SqlDialect.fold c && like p text
  | _ :: _, [] => false

/-- `WHERE status = 'pending'` and the filters -/
def wanted (filter : QueueFilter) (r : TicketRow) : Bool :=
  r.status = .pending &&
    (givenFilter filter.tool).all (fun tool => like (likePattern tool) r.tool.toList) &&
    (givenFilter filter.agentId).all (fun agent => r.agentId = agent)

/-- `ORDER BY created_at, id` -/
def orderedBefore (r r' : TicketRow) : Bool :=
  r.createdAt < r'.createdAt || (r.createdAt = r'.createdAt && SqlDialect.le r.id r'.id)

/-- `created_at > cursor OR (created_at = cursor AND id > after)` -/
def pastCursor (cursor : Time) (after : TicketId) (r : TicketRow) : Bool :=
  cursor < r.createdAt || (r.createdAt = cursor && !SqlDialect.le r.id after)

/-- The selected rows, in order. -/
def select (s : SqlTicketStore) (cond : TicketRow → Bool) : List TicketRow :=
  (s.rows.filter cond).insertionSort fun r r' => orderedBefore r r'

/-- The ticket of a listed row; its result is not read. -/
def listedTicket (r : TicketRow) : TicketId × Ticket :=
  (r.id, { call := r.call, decision := r.decision })

/-- `pending` -/
def pending (s : SqlTicketStore) (q : PageQuery) : Dict Ticket :=
  match q.after with
  | none => ((s.select (wanted q.filter)).take q.limit).map listedTicket
  | some after =>
      match s.row? after with
      | none => []
      | some cursor =>
          ((s.select fun r => wanted q.filter r && pastCursor cursor.createdAt after r).take q.limit).map
            listedTicket

instance : TicketQueue SqlTicketStore := ⟨pending⟩

end

end SqlTicketStore

-- ============================================================================
-- The operator's view
-- ============================================================================

/-- The longest page an operator can ask for. -/
def MAX_PAGE : ℤ := 500

/-- A ticket as the queue lists it. -/
structure QueueItem where
  ticketId : TicketId
  agentId : String
  tool : String
  arguments : Json
  annotations : Fields

/-- `pending` of the API: a page, and the cursor of the next one. -/
structure QueuePage where
  items : List QueueItem
  next : Option TicketId

/-- `max(1, min(limit, MAX_PAGE))` -/
def pageLimit (limit : ℤ) : ℕ := (max 1 (min limit MAX_PAGE)).toNat

/-- `TicketController.pending` -/
def TicketController.pending {σ : Type} [TicketQueue σ] (s : σ) (limit : ℤ)
    (after : Option TicketId) (filter : QueueFilter) : QueuePage :=
  let page := TicketQueue.pending s
    { limit := pageLimit limit, after := after, filter := filter }
  let items := page.map fun e =>
    { ticketId := e.1, agentId := e.2.call.agentId, tool := e.2.call.fullName,
      arguments := e.2.call.arguments, annotations := e.2.call.annotations : QueueItem }
  { items := items
    next := if items.length = pageLimit limit then items.getLast?.map QueueItem.ticketId else none }

-- ============================================================================
-- The operations as data
-- ============================================================================

/-- An operation of a store. -/
inductive TicketOp where
  | create (t : TicketId) (call : ToolCall)
  | get (t : TicketId)
  | decide (t : TicketId) (d : Decision)
  | claim (t : TicketId)
  | closeStaleClaim (t : TicketId) (older : Time) (result : ToolResult)
  | complete (t : TicketId) (result : ToolResult)
  | pending (q : PageQuery)

/-- What it answers. -/
inductive TicketAnswer where
  | done
  | ticket (ticket : Option Ticket)
  | flag (b : Bool)
  | page (tickets : Dict Ticket)
  | raised (e : PyError)

section
variable {σ : Type} [TicketStore σ] [TicketQueue σ]

/-- Perform an operation at a reading of the clock; one that raises leaves the
    store as it was. -/
def TicketOp.perform (s : σ) (now : Time) : TicketOp → TicketAnswer × σ
  | .create t call =>
      match TicketStore.create s t call now with
      | .ok s' => (.done, s')
      | .error e => (.raised e, s)
  | .get t => (.ticket (TicketStore.get s t), s)
  | .decide t d =>
      let (b, s') := TicketStore.decide s t d
      (.flag b, s')
  | .claim t =>
      let (b, s') := TicketStore.claim s t now
      (.flag b, s')
  | .closeStaleClaim t older result =>
      let (b, s') := TicketStore.closeStaleClaim s t now older result
      (.flag b, s')
  | .complete t result =>
      match TicketStore.complete s t result with
      | .ok s' => (.done, s')
      | .error e => (.raised e, s)
  | .pending q => (.page (TicketQueue.pending s q), s)

/-- One operation after another, each at its own reading of the clock. -/
def performAll (s : σ) (ops : List (Time × TicketOp)) : σ :=
  ops.foldl (fun s op => (op.2.perform s op.1).2) s

end

end ToolGateway
