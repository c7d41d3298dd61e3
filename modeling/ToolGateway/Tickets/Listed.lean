/-
  ToolGateway.Tickets.Listed

  What the queue owes an operator, in the operator's own terms: the tickets that wait
  for a verdict, whose full name matches the glob and whose agent is the one asked for.
  The SQL store selects by what its columns say and by LIKE, so it lists them all
  exactly under the filters whose pattern LIKE reads as `fnmatch` does, or that match no
  full name.
-/

import ToolGateway.Tickets.Filter
import ToolGateway.Tickets.Paging

namespace ToolGateway

open Py

-- ============================================================================
-- What is asked for
-- ============================================================================

/-- The ticket waits for a verdict, its full name matches the glob, and it was filed for
    this agent; an empty filter is none. -/
structure QueueFilter.Admits (filter : QueueFilter) (ticket : Ticket) : Prop where
  pending : ticket.decision.status = .pending
  tool : ∀ tool ∈ givenFilter filter.tool, fnmatchcase ticket.call.fullName tool = true
  agent : ∀ agent ∈ givenFilter filter.agentId, ticket.call.agentId = agent

/-- The requests list no ticket twice, the oldest first, and once they have come to the
    end, each ticket that the filters admit at every one of them. -/
structure ListsOnce {σ : Type} [TicketStore σ] [TicketQueue σ] [OrderedQueue σ]
    (filter : QueueFilter) (requests : List (σ × QueuePage)) : Prop where
  nodup : (collected requests).Nodup
  /-- as the store has them at the last request -/
  oldestFirst : ∀ r ∈ requests.getLast?, (collected requests).Pairwise (OrderedQueue.older r.1)
  complete : ended requests = true → ∀ t,
    (∀ r ∈ requests, ∃ ticket, TicketStore.get r.1 t = some ticket ∧ filter.Admits ticket) →
      t ∈ collected requests

/-- As a glob, the pattern matches no full name. -/
def FindsNothing (tool : String) : Prop :=
  ∀ call : ToolCall, fnmatchcase call.fullName tool = false

section
variable {σ : Type} [TicketStore σ] [TicketQueue σ] [OrderedQueue σ]

/-- Paging loses nothing that the store's own conditions select. -/
theorem PagesOnce.listsOnce {filter : QueueFilter} {requests : List (σ × QueuePage)}
    (h : PagesOnce filter requests)
    (hselects : ∀ r ∈ requests, ∀ t ticket, TicketStore.get r.1 t = some ticket →
      filter.Admits ticket → OrderedQueue.waiting r.1 filter t) : ListsOnce filter requests where
  nodup := h.nodup
  oldestFirst := h.oldestFirst
  complete hended t hadmitted := h.complete hended t fun r hr => by
    obtain ⟨ticket, hget, hadmits⟩ := hadmitted r hr
    exact hselects r hr t ticket hget hadmits

omit [OrderedQueue σ] in
theorem performAll_keeps {P : σ → Prop} (hstep : ∀ s now op, P s → P (TicketOp.perform s now op).2)
    {s : σ} (h : P s) (ops : List (Time × TicketOp)) : P (performAll s ops) := by
  induction ops generalizing s with
  | nil => exact h
  | cons op ops ih => exact ih (hstep s op.1 op.2 h)

omit [OrderedQueue σ] in
/-- What every operation keeps holds of the store at every request. -/
theorem browse_keeps {P : σ → Prop} (hstep : ∀ s now op, P s → P (TicketOp.perform s now op).2)
    {s : σ} (h : P s) (limit : ℤ) (filter : QueueFilter) (after : Option TicketId)
    (churn : List (List (Time × TicketOp))) : ∀ r ∈ browse s limit filter after churn, P r.1 := by
  induction churn generalizing s after with
  | nil =>
      intro r hr
      rw [List.mem_singleton.mp hr]
      exact h
  | cons ops churn ih =>
      intro r hr
      cases hnext : (TicketController.pending s limit after filter).next with
      | none =>
          rw [browse_last hnext] at hr
          rw [List.mem_singleton.mp hr]
          exact h
      | some c =>
          rw [browse_next hnext] at hr
          rcases List.mem_cons.mp hr with rfl | hmore
          · exact h
          · exact ih (performAll_keeps hstep h ops) _ r hmore

end

-- ============================================================================
-- The memory store
-- ============================================================================

namespace MemoryTicketStore

/-- The memory store's condition is what is asked for. -/
theorem wanted_of_admits {filter : QueueFilter} {ticket : Ticket} (h : filter.Admits ticket) :
    wanted filter ticket = true := by
  simp only [wanted, Bool.and_eq_true, decide_eq_true_eq, Option.all_eq_true]
  exact ⟨⟨h.pending, h.tool⟩, h.agent⟩

theorem listsOnce (s : MemoryTicketStore) (limit : ℤ) (filter : QueueFilter)
    (churn : List (List (Time × TicketOp))) : ListsOnce filter (browse s limit filter none churn) :=
  (browse_pagesOnce s limit filter churn).listsOnce fun _ _ _ ticket hget hadmits =>
    ⟨ticket, hget, wanted_of_admits hadmits⟩

end MemoryTicketStore

-- ============================================================================
-- The SQL store
-- ============================================================================

namespace SqlTicketStore

/-- The columns that are searched say what the stored call says. -/
def Filed (s : SqlTicketStore) : Prop :=
  ∀ r ∈ s.rows, r.tool = r.call.fullName ∧ r.agentId = r.call.agentId

theorem filed_empty : empty.Filed := by
  intro r hr
  cases hr

theorem Filed.updateWhere {s : SqlTicketStore} (h : s.Filed) (t : TicketId) (cond : TicketRow → Bool)
    (set : TicketRow → TicketRow) (set_id : ∀ r, (set r).id = r.id)
    (hset : ∀ r, (set r).tool = r.tool ∧ (set r).agentId = r.agentId ∧ (set r).call = r.call) :
    (s.updateWhere t cond set set_id).2.Filed := by
  intro r' hr'
  obtain ⟨r, hr, rfl⟩ := List.mem_map.mp hr'
  split
  · obtain ⟨htool, hagent, hcall⟩ := hset r
    rw [htool, hagent, hcall]
    exact h r hr
  · exact h r hr

section
variable [SqlDialect]

theorem Filed.perform (s : SqlTicketStore) (now : Time) (op : TicketOp) (h : s.Filed) :
    (op.perform s now).2.Filed := by
  cases op with
  | create t call =>
      by_cases htaken : t ∈ s.rows.map TicketRow.id
      · simp only [TicketOp.perform, TicketStore.create, create, dif_pos htaken]
        exact h
      · simp only [TicketOp.perform, TicketStore.create, create, dif_neg htaken]
        intro r hr
        rcases List.mem_append.mp hr with hold | hnew
        · exact h r hold
        · rw [List.mem_singleton.mp hnew]
          exact ⟨rfl, rfl⟩
  | get t => exact h
  | decide t d => exact h.updateWhere t _ (.setDecision d) (fun _ => rfl) fun _ => ⟨rfl, rfl, rfl⟩
  | claim t => exact h.updateWhere t _ (.setClaimed now) (fun _ => rfl) fun _ => ⟨rfl, rfl, rfl⟩
  | closeStaleClaim t older result =>
      exact h.updateWhere t _ (.setResult result) (fun _ => rfl) fun _ => ⟨rfl, rfl, rfl⟩
  | complete t result =>
      exact h.updateWhere t _ (.setResult result) (fun _ => rfl) fun _ => ⟨rfl, rfl, rfl⟩
  | pending q => exact h

/-- However LIKE compares letters, it lets through at least what the pattern does in which
    only the star is special. -/
theorem like_of_literal {pattern name : List Char}
    (h : matchTokens (literalTokens pattern) name = true) :
    like (pattern.flatMap likeChar) name = true := by
  induction pattern generalizing name with
  | nil => exact h
  | cons c cs ih =>
      rw [List.flatMap_cons]
      rw [literalTokens_cons] at h
      by_cases hstar : c = '*'
      · subst hstar
        obtain ⟨rest, hsuffix, hrest⟩ := matchTokens_star_cons.mp h
        show name.tails.any (like (cs.flatMap likeChar)) = true
        exact List.any_eq_true.mpr ⟨rest, (List.mem_tails _ _).mpr hsuffix, ih hrest⟩
      · rw [literalToken_of_ne hstar] at h
        obtain ⟨x, text, rfl, hx, htext⟩ := (matchTokens_cons (by simp)).mp h
        obtain rfl : c = x := beq_iff_eq.mp hx
        by_cases hescaped : c = '\\' ∨ c = '%' ∨ c = '_'
        · rw [likeChar, if_neg hstar, if_pos hescaped]
          show (Decidable.decide (SqlDialect.fold c = SqlDialect.fold c)
            && like (cs.flatMap likeChar) text) = true
          rw [ih htext, decide_eq_true rfl]
          rfl
        · rw [likeChar, if_neg hstar, if_neg hescaped]
          rw [not_or, not_or] at hescaped
          obtain ⟨hbackslash, hpercent, hunderscore⟩ := hescaped
          simp [like, hbackslash, ih htext]

/-- The row of an admitted ticket is selected, where the pattern is read alike or
    matches nothing. -/
theorem wanted_of_admits {filter : QueueFilter}
    (hread : ∀ tool ∈ givenFilter filter.tool, ReadsAlike tool ∨ FindsNothing tool)
    {r : TicketRow} (hrow : r.tool = r.call.fullName ∧ r.agentId = r.call.agentId)
    (h : filter.Admits r.ticket) : wanted filter r = true := by
  simp only [wanted, Bool.and_eq_true, decide_eq_true_eq, Option.all_eq_true]
  refine ⟨⟨r.status_eq.trans h.pending, fun tool htool => ?_⟩, fun agent hagent => ?_⟩
  · have hglob : fnmatchcase r.call.fullName tool = true := h.tool tool htool
    rcases hread tool htool with halike | hnothing
    · rw [hrow.1, likePattern_eq]
      refine like_of_literal ?_
      rw [← halike]
      exact hglob
    · rw [hnothing r.call] at hglob
      cases hglob
  · rw [hrow.2]
    exact h.agent agent hagent

theorem listsOnce {filter : QueueFilter}
    (hread : ∀ tool ∈ givenFilter filter.tool, ReadsAlike tool ∨ FindsNothing tool)
    {s : SqlTicketStore} (hfiled : s.Filed) (limit : ℤ) (churn : List (List (Time × TicketOp))) :
    ListsOnce filter (browse s limit filter none churn) := by
  refine (browse_pagesOnce s limit filter churn).listsOnce fun r hr t ticket hget hadmits => ?_
  have hkept : r.1.Filed := browse_keeps Filed.perform hfiled limit filter none churn r hr
  obtain ⟨row, hrow, rfl⟩ := Option.map_eq_some_iff.mp hget
  exact ⟨row, hrow, wanted_of_admits hread (hkept row (mem_of_row? hrow)) hadmits⟩

-- A ticket that is missed -----------------------------------------------------------

/-- The table with one ticket. -/
theorem rows_performAll_create (t : TicketId) (call : ToolCall) (now : Time) {r : TicketRow}
    (h : r ∈ (performAll SqlTicketStore.empty [(now, .create t call)]).rows) :
    r.tool = call.fullName := by
  obtain rfl := List.mem_singleton.mp h
  rfl

theorem get_performAll_create (t : TicketId) (call : ToolCall) (now : Time) :
    (performAll SqlTicketStore.empty [(now, .create t call)]).get t
      = some { call := call, decision := { status := .pending } } := by
  have hrow : (performAll SqlTicketStore.empty [(now, .create t call)]).row? t = some
      { id := t, agentId := call.agentId, tool := call.fullName, status := .pending, call := call,
        decision := { status := .pending }, claimed := false, claimedAt := none, result := none,
        createdAt := now, status_eq := rfl, claimed_eq := rfl } :=
    List.find?_cons_of_pos (by simp)
  rw [get, hrow]
  rfl

/-- A ticket whose name LIKE does not let through is never listed: the first page is
    empty, and the last. -/
theorem not_listsOnce {filter : QueueFilter} {tool : String} (htool : tool ∈ givenFilter filter.tool)
    {call : ToolCall} (hadmits : filter.Admits { call := call, decision := { status := .pending } })
    (hmissed : like (likePattern tool) call.fullName.toList = false) (t : TicketId) (now : Time)
    (limit : ℤ) :
    ¬ ListsOnce filter
      (browse (performAll SqlTicketStore.empty [(now, .create t call)]) limit filter none []) := by
  intro h
  have hnone : (TicketController.pending (performAll SqlTicketStore.empty [(now, .create t call)]) limit
      none filter).ids = [] := by
    refine List.eq_nil_iff_forall_not_mem.mpr fun t' ht' => ?_
    have hknown : ∀ c ∈ (none : Option TicketId), OrderedQueue.known
        (performAll SqlTicketStore.empty [(now, .create t call)]) c := by simp
    obtain ⟨r, hr, hwanted⟩ := (ToolGateway.pending_isPage (Extends.refl
      (performAll SqlTicketStore.empty [(now, .create t call)])) limit filter hknown).inView t' ht'
    have hselected : (givenFilter filter.tool).all
        (fun tool => like (likePattern tool) r.tool.toList) = true := by
      simp only [wanted, Bool.and_eq_true] at hwanted
      exact hwanted.1.2
    rw [Option.mem_def.mp htool, Option.all_some] at hselected
    rw [rows_performAll_create t call now (mem_of_row? hr), hmissed] at hselected
    cases hselected
  have hlast : (TicketController.pending (performAll SqlTicketStore.empty [(now, .create t call)]) limit
      none filter).next = none := by
    cases hnext : (TicketController.pending (performAll SqlTicketStore.empty
        [(now, .create t call)]) limit none filter).next with
    | none => rfl
    | some c =>
        have hfull := (full_of_next hnext).2
        rw [hnone] at hfull
        cases hfull
  have hbrowse := browse_last hlast []
  have hended : ended (browse (performAll SqlTicketStore.empty [(now, .create t call)]) limit filter
      none []) = true := by
    rw [hbrowse]
    simp [ended, hlast]
  have hlisted := h.complete hended t fun r hr => by
    rw [hbrowse] at hr
    rw [List.mem_singleton.mp hr]
    exact ⟨_, get_performAll_create t call now, hadmits⟩
  rw [hbrowse] at hlisted
  simp [collected, hnone] at hlisted

end

end SqlTicketStore

/-- A pattern that is not read alike, though it matches some full name, matches one that
    the literal reading does not. -/
theorem exists_missed_call {tool : String} (hdiffer : ¬ ReadsAlike tool) (hfinds : ¬ FindsNothing tool)
    (agentId : String) :
    ∃ call : ToolCall, call.agentId = agentId ∧ fnmatchcase call.fullName tool = true ∧
      matchTokens (literalTokens tool.toList) call.fullName.toList = false := by
  obtain ⟨found, hfound⟩ : ∃ call : ToolCall, fnmatchcase call.fullName tool = true := by
    by_contra hno
    exact hfinds fun call => Bool.eq_false_iff.mpr fun hmatch => hno ⟨call, hmatch⟩
  have hreads : Reads tool.toList (globOf tool) := reads_globTokens le_rfl
  obtain ⟨name, hdot, hglob, hliteral⟩ := hreads.exists_missed (d := '.') (by decide) (by decide)
    (by decide) (by decide) hdiffer (dot_mem_fullName found) hfound
  obtain ⟨upstreamId, toolName, rfl⟩ := exists_fullName hdot
  exact ⟨⟨"", agentId, upstreamId, toolName, .dict [], []⟩, rfl, hglob, hliteral⟩

/-- Whatever is filed, decided, claimed or closed between the page requests: the memory
    store lists every ticket asked for, once and oldest first.  The SQL store does, on
    every database, if and only if the pattern is read alike or matches no full name. -/
theorem queue_lists_once_iff (filter : QueueFilter) :
    (∀ (s : MemoryTicketStore) (limit : ℤ) (churn : List (List (Time × TicketOp))),
      ListsOnce filter (browse s limit filter none churn)) ∧
    ((∀ (_ : SqlDialect) (filed : List (Time × TicketOp)) (limit : ℤ)
        (churn : List (List (Time × TicketOp))),
        ListsOnce filter
          (browse (performAll SqlTicketStore.empty filed) limit filter none churn)) ↔
      ∀ tool ∈ givenFilter filter.tool, ReadsAlike tool ∨ FindsNothing tool) := by
  refine ⟨fun s limit churn => s.listsOnce limit filter churn, fun h tool htool => ?_,
    fun hread _ filed limit churn => SqlTicketStore.listsOnce hread
      (performAll_keeps SqlTicketStore.Filed.perform SqlTicketStore.filed_empty filed) limit churn⟩
  by_contra hneither
  rw [not_or] at hneither
  obtain ⟨call, hagent, hglob, hliteral⟩ :=
    exists_missed_call hneither.1 hneither.2 ((givenFilter filter.agentId).getD "")
  let binary : SqlDialect := SqlDialect.binary
  have hadmits : filter.Admits { call := call, decision := { status := .pending } } := by
    refine ⟨rfl, fun tool' htool' => ?_, fun agent hgiven => ?_⟩
    · rwa [Option.mem_unique htool' htool]
    · show call.agentId = agent
      rw [hagent, Option.mem_def.mp hgiven, Option.getD_some]
  refine SqlTicketStore.not_listsOnce htool hadmits ?_ "tkt-1" 0 1 (h _ _ _ _)
  rw [SqlTicketStore.likePattern_eq, SqlTicketStore.like_flatMap fun _ => rfl]
  exact hliteral

section
attribute [local instance] SqlDialect.binary

/-- The wire waits from before the first request until after the last one, and the SQL
    store does not list it. -/
theorem queue_can_miss :
    ¬ ListsOnce anyWire (browse (performAll SqlTicketStore.empty [(0, .create "tkt-1" bankWire)])
      20 anyWire none []) := by
  have hadmits : anyWire.Admits wireTicket := by
    refine ⟨rfl, fun tool htool => ?_, fun agent hagent => ?_⟩
    · obtain rfl : "bank.wire_?" = tool := Option.some.inj htool
      decide
    · cases hagent
  have htool : "bank.wire_?" ∈ givenFilter anyWire.tool := rfl
  exact SqlTicketStore.not_listsOnce htool hadmits (by decide) "tkt-1" 0 20

end

end ToolGateway
