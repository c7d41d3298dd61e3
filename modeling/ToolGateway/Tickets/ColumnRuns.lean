/-
  ToolGateway.Tickets.ColumnRuns

  Tickets survive their rows.  The table with JSON texts holds the texts of the rows with
  values, every statement keeps it so, and what is read back is what was written: over
  any sequence of operations the two answer alike, and with them the memory store.
-/

import ToolGateway.Tickets.Columns

namespace ToolGateway

open Py

section
variable [PrintTables]

-- ============================================================================
-- What a column gives back
-- ============================================================================

/-- Its arguments and annotations are read back from their texts. -/
structure ToolCall.Storable (call : ToolCall) : Prop where
  arguments : call.arguments.Loadable
  annotations : (Json.dict call.annotations).Loadable

/-- The edit is read back as it was written. -/
def Decision.Storable (d : Decision) : Prop := d.editedArguments.Loadable

/-- The result is read back as it was written. -/
structure ToolResult.Storable (r : ToolResult) : Prop where
  content : r.content.Loadable
  elapsedMs : Json.NumberReads (.int r.elapsedMs)

theorem ToolCall.Storable.attrs {call : ToolCall} (h : call.Storable) :
    (Json.dict call.attrs).Loadable := by
  have hkeys : (call.attrs.map Prod.fst).Nodup := by
    show ["request_id", "agent_id", "upstream_id", "tool_name", "arguments", "annotations"].Nodup
    decide
  refine .dict hkeys ?_
  simp only [ToolCall.attrs, List.forall_mem_cons]
  exact ⟨.str _, .str _, .str _, .str _, h.arguments, h.annotations, fun f hf => by cases hf⟩

theorem Decision.Storable.attrs {d : Decision} (h : d.Storable) : (Json.dict d.attrs).Loadable := by
  have hkeys : (d.attrs.map Prod.fst).Nodup := by
    show ["status", "approver", "reason", "edited_arguments"].Nodup
    decide
  refine .dict hkeys ?_
  simp only [Decision.attrs, List.forall_mem_cons]
  exact ⟨.str _, .str _, .str _, h, fun f hf => by cases hf⟩

theorem ToolResult.Storable.attrs {r : ToolResult} (h : r.Storable) :
    (Json.dict r.attrs).Loadable := by
  have hkeys : (r.attrs.map Prod.fst).Nodup := by
    show ["content", "is_error", "elapsed_ms", "notes"].Nodup
    decide
  have hnotes : (Json.list (r.notes.map .str)).Loadable := by
    refine .list fun x hx => ?_
    obtain ⟨note, -, rfl⟩ := List.mem_map.mp hx
    exact .str note
  refine .dict hkeys ?_
  simp only [ToolResult.attrs, List.forall_mem_cons]
  exact ⟨h.content, .bool _, .int h.elapsedMs, hnotes, fun f hf => by cases hf⟩

/-- What was written into a column is what is made of it. -/
theorem fromColumn_dumps {α : Type} {make : Json → Option α} {v : Json} {a : α} (hv : v.Loadable)
    (hmake : make v = some a) : fromColumn make v.dumps = .ok a := by
  rw [fromColumn, Json.dumps, String.toList_ofList, hv.scanText none]
  simp only [hmake]

-- ============================================================================
-- Rows and their texts
-- ============================================================================

namespace TicketRow

/-- The row as the database holds it. -/
def text (r : TicketRow) : TableRow :=
  { id := r.id, agentId := r.agentId, tool := r.tool, status := r.status.value
    call := (Json.dict r.call.attrs).dumps
    decision := (Json.dict r.decision.attrs).dumps
    claimed := r.claimed, claimedAt := r.claimedAt
    result := r.result.map fun x => (Json.dict x.attrs).dumps
    createdAt := r.createdAt }

/-- What the row holds is read back as it was written. -/
structure Storable (r : TicketRow) : Prop where
  call : r.call.Storable
  decision : r.decision.Storable
  result : ∀ x ∈ r.result, x.Storable

variable {r : TicketRow}

theorem listed_text (h : r.Storable) :
    r.text.listed = .ok { call := r.call, decision := r.decision } := by
  have hcall : fromColumn ToolCall.ofKeywords r.text.call = .ok r.call :=
    fromColumn_dumps h.call.attrs (ToolCall.ofKeywords_attrs _)
  have hdecision : fromColumn Decision.ofKeywords r.text.decision = .ok r.decision :=
    fromColumn_dumps h.decision.attrs (Decision.ofKeywords_attrs _)
  rw [TableRow.listed, hcall, hdecision]
  rfl

/-- A row is read back whole. -/
theorem ticket_text (h : r.Storable) : r.text.ticket = .ok r.ticket := by
  rw [TableRow.ticket, listed_text h]
  cases hresult : r.result with
  | none =>
      have htext : r.text.result = none := by rw [text, hresult]; rfl
      simp only [htext, TicketRow.ticket, hresult]
      rfl
  | some x =>
      have htext : r.text.result = some (Json.dict x.attrs).dumps := by rw [text, hresult]; rfl
      have hx : fromColumn ToolResult.ofKeywords (Json.dict x.attrs).dumps = .ok x :=
        fromColumn_dumps (h.result x hresult).attrs (ToolResult.ofKeywords_attrs _)
      simp only [htext, hx, TicketRow.ticket, hresult]
      rfl

end TicketRow

omit [PrintTables] in
theorem DecisionStatus.value_eq_pending (status : DecisionStatus) :
    status.value = DecisionStatus.pending.value ↔ status = .pending := by
  cases status <;> decide

/-- The table holds the texts of the rows. -/
structure Holds (T : TicketTable) (q : SqlTicketStore) : Prop where
  rows : T.rows = q.rows.map TicketRow.text
  storable : ∀ r ∈ q.rows, r.Storable

namespace Holds

variable {T : TicketTable} {q : SqlTicketStore}

theorem empty : Holds TicketTable.empty SqlTicketStore.empty :=
  ⟨rfl, fun _ hr => absurd hr List.not_mem_nil⟩

theorem row? (h : Holds T q) (t : TicketId) : T.row? t = (q.row? t).map TicketRow.text := by
  rw [TicketTable.row?, h.rows, List.find?_map]
  rfl

/-- An UPDATE of the texts against the one of the values. -/
theorem updateWhere (h : Holds T q) (t : TicketId) (cond : TableRow → Bool)
    (cond' : TicketRow → Bool) (set : TableRow → TableRow) (set' : TicketRow → TicketRow)
    (set_id : ∀ r, (set' r).id = r.id) (hcond : ∀ r : TicketRow, cond r.text = cond' r)
    (hset : ∀ r : TicketRow, set r.text = (set' r).text)
    (hstorable : ∀ r, r.Storable → (set' r).Storable) :
    (T.updateWhere t cond set).1 = (q.updateWhere t cond' set' set_id).1 ∧
      Holds (T.updateWhere t cond set).2 (q.updateWhere t cond' set' set_id).2 := by
  have hhit : ∀ r : TicketRow, (r.text.id = t && cond r.text) = (r.id = t && cond' r) := by
    intro r
    rw [hcond]
    rfl
  refine ⟨?_, ?_, fun r hr => ?_⟩
  · show T.rows.countP (fun r => r.id = t && cond r) = q.rows.countP fun r => r.id = t && cond' r
    rw [h.rows, List.countP_map]
    exact List.countP_congr fun r _ => by rw [Function.comp, hhit]
  · show T.rows.map (fun r => if r.id = t && cond r then set r else r)
      = (q.rows.map fun r => if r.id = t && cond' r then set' r else r).map TicketRow.text
    rw [h.rows, List.map_map, List.map_map]
    refine List.map_congr_left fun r _ => ?_
    simp only [Function.comp, hhit]
    split
    · exact hset r
    · rfl
  · obtain ⟨r₀, hr₀, rfl⟩ := List.mem_map.mp hr
    split
    · exact hstorable r₀ (h.storable r₀ hr₀)
    · exact h.storable r₀ hr₀

theorem get (h : Holds T q) (t : TicketId) : T.get t = .ok (q.get t) := by
  rw [TicketTable.get, h.row?, SqlTicketStore.get]
  cases hrow : q.row? t with
  | none => rfl
  | some r =>
      have hr := h.storable r (SqlTicketStore.mem_of_row? hrow)
      simp only [Option.map_some, TicketRow.ticket_text hr]
      rfl

theorem decide (h : Holds T q) (t : TicketId) {d : Decision} (hd : d.Storable) :
    (T.decide t d).1 = (q.decide t d).1 ∧ Holds (T.decide t d).2 (q.decide t d).2 := by
  obtain ⟨hcount, hholds⟩ := h.updateWhere t (fun r => r.status = DecisionStatus.pending.value)
    (fun r => r.status = .pending) (.setDecision d) (.setDecision d) (fun _ => rfl)
    (fun r => decide_eq_decide.mpr r.status.value_eq_pending) (fun _ => rfl)
    fun r hr => ⟨hr.call, hd, hr.result⟩
  exact ⟨congrArg (· == 1) hcount, hholds⟩

theorem claim (h : Holds T q) (t : TicketId) (now : Time) :
    (T.claim t now).1 = (q.claim t now).1 ∧ Holds (T.claim t now).2 (q.claim t now).2 := by
  obtain ⟨hcount, hholds⟩ := h.updateWhere t (fun r => !r.claimed && r.result.isNone)
    (fun r => !r.claimed && r.result.isNone) (.setClaimed now) (.setClaimed now) (fun _ => rfl)
    (fun r => by simp [TicketRow.text]) (fun _ => rfl) fun r hr => ⟨hr.call, hr.decision, hr.result⟩
  exact ⟨congrArg (· == 1) hcount, hholds⟩

theorem closeStaleClaim (h : Holds T q) (t : TicketId) (now older : Time) {result : ToolResult}
    (hresult : result.Storable) :
    (T.closeStaleClaim t now older result).1 = (q.closeStaleClaim t now older result).1 ∧
      Holds (T.closeStaleClaim t now older result).2 (q.closeStaleClaim t now older result).2 := by
  obtain ⟨hcount, hholds⟩ := h.updateWhere t
    (fun r => r.claimed && r.result.isNone && r.claimedAt.any (· ≤ now - older))
    (fun r => r.claimed && r.result.isNone && r.claimedAt.any (· ≤ now - older))
    (.setResult result) (.setResult result) (fun _ => rfl)
    (fun r => by simp [TicketRow.text]) (fun _ => rfl)
    fun _ hr => ⟨hr.call, hr.decision, fun _ hx => Option.some.inj hx ▸ hresult⟩
  exact ⟨congrArg (· == 1) hcount, hholds⟩

theorem complete (h : Holds T q) (t : TicketId) {result : ToolResult} (hresult : result.Storable) :
    Holds (T.complete t result) (q.complete t result) :=
  (h.updateWhere t (fun _ => true) (fun _ => true) (.setResult result) (.setResult result)
    (fun _ => rfl) (fun _ => rfl) (fun _ => rfl)
    fun _ hr => ⟨hr.call, hr.decision, fun _ hx => Option.some.inj hx ▸ hresult⟩).2

theorem create (h : Holds T q) (t : TicketId) {call : ToolCall} (hcall : call.Storable) (now : Time) :
    (∃ e, T.create t call now = .error e ∧ q.create t call now = .error e) ∨
      ∃ T' q', T.create t call now = .ok T' ∧ q.create t call now = .ok q' ∧ Holds T' q' := by
  have hids : T.rows.map TableRow.id = q.rows.map TicketRow.id := by
    rw [h.rows, List.map_map]
    rfl
  rw [TicketTable.create, SqlTicketStore.create, hids]
  by_cases htaken : t ∈ q.rows.map TicketRow.id
  · rw [if_pos htaken, dif_pos htaken]
    exact Or.inl ⟨_, rfl, rfl⟩
  · rw [if_neg htaken, dif_neg htaken]
    refine Or.inr ⟨_, _, rfl, rfl, ?_, fun r hr => ?_⟩
    · show T.rows ++ _ = (q.rows ++ _).map TicketRow.text
      rw [List.map_append, ← h.rows]
      rfl
    · rcases List.mem_append.mp hr with hold | hnew
      · exact h.storable r hold
      · rw [List.mem_singleton.mp hnew]
        exact ⟨hcall, .null, fun x hx => by cases hx⟩

-- ============================================================================
-- Pages
-- ============================================================================

theorem mapM_listed {rows : List TicketRow} (hrows : ∀ r ∈ rows, r.Storable) :
    (rows.map TicketRow.text).mapM (fun r => r.listed.map (r.id, ·))
      = .ok (rows.map SqlTicketStore.listedTicket) := by
  induction rows with
  | nil => rfl
  | cons r rows ih =>
      rw [List.map_cons, List.mapM_cons, TicketRow.listed_text (hrows r List.mem_cons_self),
        ih fun r' hr' => hrows r' (List.mem_cons_of_mem _ hr')]
      rfl

variable [SqlDialect]

theorem page (h : Holds T q) (limit : ℕ) {cond : TableRow → Bool} {cond' : TicketRow → Bool}
    (hcond : ∀ r : TicketRow, cond r.text = cond' r) :
    T.page limit cond = .ok (((q.select cond').take limit).map SqlTicketStore.listedTicket) := by
  have hfilter : T.rows.filter cond = (q.rows.filter cond').map TicketRow.text := by
    rw [h.rows, List.filter_map]
    exact congrArg _ (List.filter_congr fun r _ => hcond r)
  have hsorted : ((q.rows.filter cond').map TicketRow.text).insertionSort
        (fun r r' => TicketTable.orderedBefore r r')
      = (q.select cond').map TicketRow.text :=
    (List.map_insertionSort _ _ TicketRow.text _ fun _ _ _ _ => Iff.rfl).symm
  rw [TicketTable.page, hfilter, hsorted, ← List.map_take]
  refine mapM_listed fun r hr => h.storable r ?_
  have hmem : r ∈ q.select cond' := List.mem_of_mem_take hr
  exact List.mem_of_mem_filter ((List.mem_insertionSort _).mp hmem)

theorem pending (h : Holds T q) (query : PageQuery) : T.pending query = .ok (q.pending query) := by
  have hwanted : ∀ r : TicketRow,
      TicketTable.wanted query.filter r.text = SqlTicketStore.wanted query.filter r := by
    intro r
    unfold TicketTable.wanted SqlTicketStore.wanted
    rw [show Decidable.decide (r.text.status = DecisionStatus.pending.value)
      = Decidable.decide (r.status = .pending) from decide_eq_decide.mpr r.status.value_eq_pending]
    rfl
  rw [TicketTable.pending, SqlTicketStore.pending]
  cases query.after with
  | none => exact h.page query.limit hwanted
  | some after =>
      simp only [h.row?]
      cases q.row? after with
      | none => rfl
      | some cursor =>
          refine h.page query.limit fun r => ?_
          rw [hwanted]
          rfl

end Holds

-- ============================================================================
-- Every run
-- ============================================================================

/-- What the operation stores is read back from its text. -/
def TicketOp.Storable : TicketOp → Prop
  | .create _ call => call.Storable
  | .decide _ d => d.Storable
  | .closeStaleClaim _ _ result | .complete _ result => result.Storable
  | _ => True

variable [SqlDialect]

theorem Holds.perform {T : TicketTable} {q : SqlTicketStore} (h : Holds T q) (now : Time)
    {op : TicketOp} (hop : op.Storable) :
    (T.perform now op).1 = (op.perform q now).1 ∧ Holds (T.perform now op).2 (op.perform q now).2 := by
  cases op with
  | create t call =>
      unfold TicketTable.perform TicketOp.perform
      rcases h.create t hop now with ⟨e, hT, hq⟩ | ⟨T', q', hT, hq, hholds⟩
      · simp only [TicketStore.create, hT, hq]
        exact ⟨trivial, h⟩
      · simp only [TicketStore.create, hT, hq]
        exact ⟨trivial, hholds⟩
  | get t => exact ⟨congrArg (TicketTable.answer .ticket) (h.get t), h⟩
  | decide t d =>
      obtain ⟨hanswer, hholds⟩ := h.decide t hop
      exact ⟨congrArg TicketAnswer.flag hanswer, hholds⟩
  | claim t =>
      obtain ⟨hanswer, hholds⟩ := h.claim t now
      exact ⟨congrArg TicketAnswer.flag hanswer, hholds⟩
  | closeStaleClaim t older result =>
      obtain ⟨hanswer, hholds⟩ := h.closeStaleClaim t now older hop
      exact ⟨congrArg TicketAnswer.flag hanswer, hholds⟩
  | complete t result => exact ⟨rfl, h.complete t hop⟩
  | pending query => exact ⟨congrArg (TicketTable.answer .page) (h.pending query), h⟩

theorem Holds.answers {T : TicketTable} {q : SqlTicketStore} (h : Holds T q)
    {ops : List (Time × TicketOp)} (hops : ∀ op ∈ ops, op.2.Storable) :
    T.answers ops = ToolGateway.answers q ops := by
  induction ops generalizing T q with
  | nil => rfl
  | cons e ops ih =>
      obtain ⟨now, op⟩ := e
      obtain ⟨hanswer, hholds⟩ := h.perform now (hops _ List.mem_cons_self)
      rw [TicketTable.answers, ToolGateway.answers, hanswer,
        ih hholds fun op' hop' => hops op' (List.mem_cons_of_mem _ hop')]

/-- Tickets survive their rows: whatever is filed, decided, claimed, closed and completed,
    the table of texts answers as the store that keeps the values; and while results are
    only stored on decided tickets it answers as the memory store. -/
theorem rows_keep_tickets (ops : List (Time × TicketOp)) (hops : ∀ op ∈ ops, op.2.Storable) :
    TicketTable.empty.answers ops = answers SqlTicketStore.empty ops ∧
      (Proper MemoryTicketStore.empty none ops → AfterVerdict MemoryTicketStore.empty ops →
        TicketTable.empty.answers ops = answers MemoryTicketStore.empty ops) := by
  have hvalues := Holds.empty.answers hops
  refine ⟨hvalues, fun hproper hafter => hvalues.trans ?_⟩
  obtain ⟨-, hexact⟩ := Same.empty.answers hproper
  exact (hexact (fun r hr => absurd hr List.not_mem_nil) hafter).symm

end

-- ============================================================================
-- A run
-- ============================================================================

section
attribute [local instance] SqlDialect.binary PrintTables.ascii

theorem storable_paidInvoice : ∀ op ∈ paidInvoice, op.2.Storable := by
  have hamount : Json.NumberReads (.int 10) := by
    show (Nat.toDigits 10 10).length ≤ 4300
    decide
  have hzero : Json.NumberReads (.int 0) := by
    show (Nat.toDigits 10 0).length ≤ 4300
    decide
  have hcall : payInvoice.Storable := by
    refine ⟨.dict (by decide) fun f hf => ?_, .dict (by decide) fun f hf => by cases hf⟩
    rw [List.mem_singleton.mp hf]
    exact .int hamount
  simp only [paidInvoice, List.forall_mem_cons]
  exact ⟨hcall, hcall, .null, trivial, ⟨.str _, hzero⟩, ⟨.null, hzero⟩, trivial, trivial,
    fun op hop => by cases hop⟩

theorem rows_keep_tickets_paidInvoice :
    TicketTable.empty.answers paidInvoice = answers SqlTicketStore.empty paidInvoice :=
  (rows_keep_tickets paidInvoice storable_paidInvoice).1

end

end ToolGateway
