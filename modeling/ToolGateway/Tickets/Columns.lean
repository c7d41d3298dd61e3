/-
  ToolGateway.Tickets.Columns

  The rows of `SqlTicketStore` as the database holds them: call, decision and result are
  JSON texts, written from the fields of the dataclasses and read back as keyword
  arguments.  `TicketTable` has the statements of the store on such rows; `Tickets.Sql`
  has them on the values.
-/

import ToolGateway.Python.RoundTrip
import ToolGateway.Tickets.Represents
import ToolGateway.Tickets.SameMachine

namespace ToolGateway

open Py

-- ============================================================================
-- Keyword arguments
-- ============================================================================

/-- The keywords of `cls(**v)`, of a class with these fields; `none` is the TypeError
    for an unknown one. -/
def keywords (fields : List String) : Json → Option Fields
  | .dict fs => if fs.all (fun f => f.1 ∈ fields) then some fs else none
  | _ => none

/-- A field that holds a text, with its default if it has one. -/
def textField (fs : Fields) (name : String) (default : Option String) : Option String :=
  match fs.lookup name with
  | some (.str s) => some s
  | some _ => none
  | none => default

/-- `[*notes]`, a list of texts. -/
def texts : List Json → Option (List String)
  | [] => some []
  | .str s :: xs => (texts xs).map (s :: ·)
  | _ :: _ => none

/-- `ToolCall(**v)`.  `none` is its TypeError, or stands for a field that holds another
    kind of value than `ToolCall` has: no row holds one. -/
def ToolCall.ofKeywords (v : Json) : Option ToolCall := do
  let fs ← keywords
    ["request_id", "agent_id", "upstream_id", "tool_name", "arguments", "annotations"] v
  let requestId ← textField fs "request_id" none
  let agentId ← textField fs "agent_id" none
  let upstreamId ← textField fs "upstream_id" none
  let toolName ← textField fs "tool_name" none
  match (fs.lookup "annotations").getD (.dict []) with
  | .dict annotations =>
      some { requestId := requestId, agentId := agentId, upstreamId := upstreamId,
             toolName := toolName, arguments := (fs.lookup "arguments").getD (.dict []),
             annotations := annotations }
  | _ => none

/-- `_decision(v)`: the status is read first. -/
def Decision.ofKeywords (v : Json) : Option Decision := do
  let fs ← keywords ["status", "approver", "reason", "edited_arguments"] v
  let status ← (fs.lookup "status").bind DecisionStatus.ofJson?
  let approver ← textField fs "approver" (some "")
  let reason ← textField fs "reason" (some "")
  some { status := status, approver := approver, reason := reason,
         editedArguments := fs.get "edited_arguments" }

/-- `ToolResult(**v)` -/
def ToolResult.ofKeywords (v : Json) : Option ToolResult := do
  let fs ← keywords ["content", "is_error", "elapsed_ms", "notes"] v
  let content ← fs.lookup "content"
  match (fs.lookup "is_error").getD (.bool false), (fs.lookup "elapsed_ms").getD (.int 0),
      (fs.lookup "notes").getD (.list []) with
  | .bool isError, .int elapsedMs, .list notes =>
      (texts notes).map fun notes =>
        { content := content, isError := isError, elapsedMs := elapsedMs, notes := notes }
  | _, _, _ => none

theorem texts_map_str (notes : List String) : texts (notes.map .str) = some notes := by
  induction notes with
  | nil => rfl
  | cons note notes ih =>
      rw [List.map_cons, texts, ih]
      rfl

/-- `ToolCall(**asdict(call)) == call` -/
theorem ToolCall.ofKeywords_attrs (call : ToolCall) :
    ToolCall.ofKeywords (.dict call.attrs) = some call := rfl

theorem Decision.ofKeywords_attrs (d : Decision) : Decision.ofKeywords (.dict d.attrs) = some d := by
  obtain ⟨status, approver, reason, edited⟩ := d
  cases status <;> rfl

theorem ToolResult.ofKeywords_attrs (r : ToolResult) :
    ToolResult.ofKeywords (.dict r.attrs) = some r := by
  have hnotes : ToolResult.ofKeywords (.dict r.attrs)
      = (texts (r.notes.map .str)).map fun notes =>
        { content := r.content, isError := r.isError, elapsedMs := r.elapsedMs, notes := notes } := rfl
  rw [hnotes, texts_map_str]
  rfl

-- ============================================================================
-- The table
-- ============================================================================

/-- `tool_gateway_tickets`, the JSON columns as texts. -/
structure TableRow where
  id : TicketId
  agentId : String
  tool : String
  status : String
  call : String
  decision : String
  claimed : Bool
  claimedAt : Option Time
  result : Option String
  createdAt : Time

/-- The table with its columns as the database has them. -/
structure TicketTable where
  rows : List TableRow

/-- The value in a JSON column, made into an object. -/
def fromColumn {α : Type} (make : Json → Option α) (text : String) : Except PyError α :=
  match scanText text.toList with
  | .error _ => .error .valueError
  | .ok v =>
      match make v with
      | none => .error .typeError
      | some a => .ok a

namespace TableRow

/-- `Ticket(call=…, decision=…)` -/
def listed (r : TableRow) : Except PyError Ticket := do
  let call ← fromColumn ToolCall.ofKeywords r.call
  let decision ← fromColumn Decision.ofKeywords r.decision
  return { call := call, decision := decision }

/-- `Ticket(call=…, decision=…, result=…)` -/
def ticket (r : TableRow) : Except PyError Ticket := do
  let ticket ← r.listed
  match r.result with
  | none => return ticket
  | some text =>
      let result ← fromColumn ToolResult.ofKeywords text
      return { ticket with result := result }

/-- `SET claimed, claimed_at` -/
def setClaimed (now : Time) (r : TableRow) : TableRow :=
  { r with claimed := true, claimedAt := some now }

variable [PrintTables]

/-- `SET status, decision` -/
def setDecision (d : Decision) (r : TableRow) : TableRow :=
  { r with status := d.status.value, decision := (Json.dict d.attrs).dumps }

/-- `SET result` -/
def setResult (result : ToolResult) (r : TableRow) : TableRow :=
  { r with result := some (Json.dict result.attrs).dumps }

end TableRow

namespace TicketTable

/-- No tickets. -/
def empty : TicketTable := ⟨[]⟩

/-- The row under a primary key. -/
def row? (T : TicketTable) (t : TicketId) : Option TableRow := T.rows.find? (·.id = t)

/-- `UPDATE … WHERE id = t AND cond`: the row count and the table. -/
def updateWhere (T : TicketTable) (t : TicketId) (cond : TableRow → Bool)
    (set : TableRow → TableRow) : ℕ × TicketTable :=
  (T.rows.countP fun r => r.id = t && cond r,
    { rows := T.rows.map fun r => if r.id = t && cond r then set r else r })

/-- `get`: a row is read into a ticket, or cannot be. -/
def get (T : TicketTable) (t : TicketId) : Except PyError (Option Ticket) :=
  match T.row? t with
  | none => .ok none
  | some r => r.ticket.map some

section
variable [PrintTables]

/-- `INSERT`: refused when the primary key is taken. -/
def create (T : TicketTable) (t : TicketId) (call : ToolCall) (now : Time) :
    Except PyError TicketTable :=
  if t ∈ T.rows.map TableRow.id then .error .integrityError
  else .ok
    { rows := T.rows ++ [
        { id := t, agentId := call.agentId, tool := call.fullName
          status := DecisionStatus.pending.value
          call := (Json.dict call.attrs).dumps
          decision := (Json.dict ({ status := .pending } : Decision).attrs).dumps
          claimed := false, claimedAt := none, result := none, createdAt := now }] }

/-- `decide` -/
def decide (T : TicketTable) (t : TicketId) (d : Decision) : Bool × TicketTable :=
  let (rowcount, T') := T.updateWhere t (fun r => r.status = DecisionStatus.pending.value)
    (.setDecision d)
  (rowcount == 1, T')

/-- `claim` -/
def claim (T : TicketTable) (t : TicketId) (now : Time) : Bool × TicketTable :=
  let (rowcount, T') := T.updateWhere t (fun r => !r.claimed && r.result.isNone) (.setClaimed now)
  (rowcount == 1, T')

/-- `close_stale_claim` -/
def closeStaleClaim (T : TicketTable) (t : TicketId) (now older : Time) (result : ToolResult) :
    Bool × TicketTable :=
  let cutoff := now - older
  let (rowcount, T') := T.updateWhere t
    (fun r => r.claimed && r.result.isNone && r.claimedAt.any (· ≤ cutoff)) (.setResult result)
  (rowcount == 1, T')

/-- `complete` -/
def complete (T : TicketTable) (t : TicketId) (result : ToolResult) : TicketTable :=
  (T.updateWhere t (fun _ => true) (.setResult result)).2

end

section
variable [SqlDialect]

/-- `WHERE status = 'pending'` and the filters -/
def wanted (filter : QueueFilter) (r : TableRow) : Bool :=
  r.status = DecisionStatus.pending.value &&
    (givenFilter filter.tool).all
      (fun tool => SqlTicketStore.like (SqlTicketStore.likePattern tool) r.tool.toList) &&
    (givenFilter filter.agentId).all (fun agent => r.agentId = agent)

/-- `ORDER BY created_at, id` -/
def orderedBefore (r r' : TableRow) : Bool :=
  r.createdAt < r'.createdAt || (r.createdAt = r'.createdAt && SqlDialect.le r.id r'.id)

/-- `created_at > cursor OR (created_at = cursor AND id > after)` -/
def pastCursor (cursor : Time) (after : TicketId) (r : TableRow) : Bool :=
  cursor < r.createdAt || (r.createdAt = cursor && !SqlDialect.le r.id after)

/-- The first rows of the selected ones, as tickets. -/
def page (T : TicketTable) (limit : ℕ) (cond : TableRow → Bool) : Except PyError (Dict Ticket) :=
  (((T.rows.filter cond).insertionSort fun r r' => orderedBefore r r').take limit).mapM
    fun r => r.listed.map (r.id, ·)

/-- `pending` -/
def pending (T : TicketTable) (q : PageQuery) : Except PyError (Dict Ticket) :=
  match q.after with
  | none => T.page q.limit (wanted q.filter)
  | some after =>
      match T.row? after with
      | none => .ok []
      | some cursor =>
          T.page q.limit fun r => wanted q.filter r && pastCursor cursor.createdAt after r

variable [PrintTables]

/-- What an operation answers, or raises. -/
def answer {α : Type} (as : α → TicketAnswer) : Except PyError α → TicketAnswer
  | .ok a => as a
  | .error e => .raised e

/-- Perform an operation at a reading of the clock. -/
def perform (T : TicketTable) (now : Time) : TicketOp → TicketAnswer × TicketTable
  | .create t call =>
      match T.create t call now with
      | .ok T' => (.done, T')
      | .error e => (.raised e, T)
  | .get t => (answer .ticket (T.get t), T)
  | .decide t d =>
      let (b, T') := T.decide t d
      (.flag b, T')
  | .claim t =>
      let (b, T') := T.claim t now
      (.flag b, T')
  | .closeStaleClaim t older result =>
      let (b, T') := T.closeStaleClaim t now older result
      (.flag b, T')
  | .complete t result => (.done, T.complete t result)
  | .pending q => (answer .page (T.pending q), T)

/-- The answers to one operation after another. -/
def answers (T : TicketTable) : List (Time × TicketOp) → List TicketAnswer
  | [] => []
  | (now, op) :: ops => (T.perform now op).1 :: answers (T.perform now op).2 ops

end

end TicketTable

end ToolGateway
