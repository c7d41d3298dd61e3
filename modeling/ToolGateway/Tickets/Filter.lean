/-
  ToolGateway.Tickets.Filter

  The tool filter of the queue in the two stores.  The memory store reads it as a
  glob.  The SQL store escapes what is special to LIKE and turns the stars into
  percent signs, so it reads the stars as a glob has them and every other character
  as itself: `?` and sets too.
-/

import ToolGateway.Python.Globs
import ToolGateway.Tickets.SameMachine

namespace ToolGateway

open Py

namespace SqlTicketStore

-- ============================================================================
-- The pattern
-- ============================================================================

/-- What the four replacements make of one character. -/
def likeChar (c : Char) : List Char :=
  if c = '*' then ['%'] else if c = '\\' ∨ c = '%' ∨ c = '_' then ['\\', c] else [c]

theorem likeChar_eq (c : Char) :
    replaceChar '*' ['%'] (replaceChar '_' ['\\', '_'] (replaceChar '%' ['\\', '%']
      (replaceChar '\\' ['\\', '\\'] [c]))) = likeChar c := by
  by_cases hbackslash : c = '\\'
  · subst hbackslash
    rfl
  · by_cases hpercent : c = '%'
    · subst hpercent
      rfl
    · by_cases hunderscore : c = '_'
      · subst hunderscore
        rfl
      · by_cases hstar : c = '*'
        · subst hstar
          rfl
        · simp [replaceChar, likeChar, hbackslash, hpercent, hunderscore, hstar]

theorem replaceChar_append (c : Char) (by' cs ds : List Char) :
    replaceChar c by' (cs ++ ds) = replaceChar c by' cs ++ replaceChar c by' ds :=
  List.flatMap_append

/-- The replacements work on each character by itself. -/
theorem likePattern_eq (tool : String) : likePattern tool = tool.toList.flatMap likeChar := by
  unfold likePattern
  induction tool.toList with
  | nil => rfl
  | cons c cs ih =>
      have hsplit : c :: cs = [c] ++ cs := rfl
      rw [List.flatMap_cons, ← ih, ← likeChar_eq, hsplit, replaceChar_append, replaceChar_append,
        replaceChar_append, replaceChar_append]

section
variable [SqlDialect]

/-- LIKE tells the cases of letters apart. -/
def CaseSensitive : Prop := ∀ c, SqlDialect.fold c = c

/-- The escaped pattern lets through what the pattern does in which only the star is
    special. -/
theorem like_flatMap (hcase : CaseSensitive) (pattern name : List Char) :
    like (pattern.flatMap likeChar) name = matchTokens (literalTokens pattern) name := by
  induction pattern generalizing name with
  | nil => rfl
  | cons c cs ih =>
      have hsame : ∀ x, Decidable.decide (SqlDialect.fold x = SqlDialect.fold c) = (c == x) := by
        intro x
        rw [hcase x, hcase c]
        by_cases hx : x = c
        · simp [hx]
        · simp [hx, Ne.symm hx]
      rw [List.flatMap_cons, literalTokens_cons]
      by_cases hstar : c = '*'
      · subst hstar
        have hrest : like (cs.flatMap likeChar) = matchTokens (literalTokens cs) := funext ih
        show name.tails.any (like (cs.flatMap likeChar)) = _
        rw [hrest]
        rfl
      · rw [literalToken_of_ne hstar]
        by_cases hescaped : c = '\\' ∨ c = '%' ∨ c = '_'
        · rw [likeChar, if_neg hstar, if_pos hescaped]
          cases name with
          | nil => rfl
          | cons x text =>
              show (Decidable.decide (SqlDialect.fold x = SqlDialect.fold c)
                && like (cs.flatMap likeChar) text) = _
              rw [hsame x, ih text]
              rfl
        · rw [likeChar, if_neg hstar, if_neg hescaped]
          rw [not_or, not_or] at hescaped
          obtain ⟨hbackslash, hpercent, hunderscore⟩ := hescaped
          cases name with
          | nil => simp [like, matchTokens]
          | cons x text =>
              have hstep : like (c :: cs.flatMap likeChar) (x :: text)
                  = (Decidable.decide (SqlDialect.fold x = SqlDialect.fold c)
                      && like (cs.flatMap likeChar) text) := by
                simp [like, hbackslash]
              rw [List.singleton_append, hstep, hsame x, ih text]
              rfl

end

end SqlTicketStore

-- ============================================================================
-- The filters
-- ============================================================================

/-- A tool filter as `fnmatch` reads it. -/
def globOf (tool : String) : List GlobToken :=
  globTokens tool.toList.length tool.toList

/-- Nothing but the star is special: no `?` outside a set, and no closed set. -/
def ReadsAlike (tool : String) : Prop :=
  globOf tool = literalTokens tool.toList

instance (tool : String) : Decidable (ReadsAlike tool) :=
  inferInstanceAs (Decidable (_ = _))

/-- No full name is let through: there is neither a dot nor a star in it, and as a glob
    it takes no dot, or nothing at all. -/
def NamesNothing (tool : String) : Prop :=
  Reads.Barren '.' tool.toList (globOf tool)

/-- A full name is a text with a dot. -/
theorem dot_mem_fullName (call : ToolCall) : '.' ∈ call.fullName.toList := by
  simp [ToolCall.fullName, String.toList_append]

theorem exists_fullName {name : List Char} (h : '.' ∈ name) :
    ∃ upstreamId toolName : String, (upstreamId ++ "." ++ toolName).toList = name := by
  obtain ⟨before, after, rfl⟩ := List.append_of_mem h
  exact ⟨String.ofList before, String.ofList after, by simp [String.toList_append]⟩

/-- The row of a ticket: its columns hold what the store puts there. -/
def TicketRow.Files (r : TicketRow) (ticket : Ticket) : Prop :=
  r.call = ticket.call ∧ r.decision = ticket.decision ∧ r.tool = ticket.call.fullName ∧
    r.agentId = ticket.call.agentId

/-- The row `create` adds for a call. -/
def TicketRow.filed (call : ToolCall) : TicketRow where
  id := "tkt"
  agentId := call.agentId
  tool := call.fullName
  status := .pending
  call := call
  decision := { status := .pending }
  claimed := false
  claimedAt := none
  result := none
  createdAt := 0
  status_eq := rfl
  claimed_eq := rfl

theorem TicketRow.files_filed (call : ToolCall) :
    (TicketRow.filed call).Files { call := call, decision := { status := .pending } } :=
  ⟨rfl, rfl, rfl, rfl⟩

section
variable [SqlDialect]

/-- The two conditions differ in how they read the tool filter. -/
theorem wanted_eq_iff (filter : QueueFilter) {r : TicketRow} {ticket : Ticket} (h : r.Files ticket) :
    SqlTicketStore.wanted filter r = MemoryTicketStore.wanted filter ticket ↔
      (ticket.decision.status = .pending →
        (∀ agent ∈ givenFilter filter.agentId, ticket.call.agentId = agent) →
          ∀ tool ∈ givenFilter filter.tool,
            SqlTicketStore.like (SqlTicketStore.likePattern tool) ticket.call.fullName.toList
              = fnmatchcase ticket.call.fullName tool) := by
  obtain ⟨-, hdecision, htool, hagent⟩ := h
  have hstatus : r.status = ticket.decision.status := hdecision ▸ r.status_eq
  unfold SqlTicketStore.wanted MemoryTicketStore.wanted
  rw [hstatus, htool, hagent]
  by_cases hpending : ticket.decision.status = .pending
  · cases givenFilter filter.tool with
    | none => simp
    | some tool =>
        cases givenFilter filter.agentId with
        | none => simp [hpending]
        | some agent => by_cases ha : ticket.call.agentId = agent <;> simp [hpending, ha]
  · simp [hpending]

/-- For one name both readings of a pattern, in tokens. -/
theorem like_eq_fnmatchcase_iff (hcase : SqlTicketStore.CaseSensitive) (tool name : String) :
    SqlTicketStore.like (SqlTicketStore.likePattern tool) name.toList = fnmatchcase name tool ↔
      matchTokens (globOf tool) name.toList = matchTokens (literalTokens tool.toList) name.toList := by
  rw [SqlTicketStore.likePattern_eq, SqlTicketStore.like_flatMap hcase]
  exact eq_comm

/-- Both stores list the same tickets under a filter, if and only if they read its
    pattern alike, or it names no tool in either. -/
theorem wanted_alike_iff (hcase : SqlTicketStore.CaseSensitive) (filter : QueueFilter) :
    (∀ (r : TicketRow) (ticket : Ticket), r.Files ticket →
      SqlTicketStore.wanted filter r = MemoryTicketStore.wanted filter ticket) ↔
      ∀ tool ∈ givenFilter filter.tool, ReadsAlike tool ∨ NamesNothing tool := by
  constructor
  · intro hagree tool htool
    by_contra hneither
    rw [not_or] at hneither
    have hreads : Reads tool.toList (globOf tool) := reads_globTokens le_rfl
    obtain ⟨name, hdot, htell⟩ := hreads.exists_telling (d := '.') (by decide) (by decide)
      (by decide) (by decide) hneither.1 hneither.2
    obtain ⟨upstreamId, toolName, rfl⟩ := exists_fullName hdot
    -- a call of that tool, by the agent that is asked for
    have htold := (wanted_eq_iff filter (TicketRow.files_filed
      { requestId := "", agentId := (givenFilter filter.agentId).getD "", upstreamId := upstreamId
        toolName := toolName, arguments := .dict [], annotations := [] })).mp
          (hagree _ _ (TicketRow.files_filed _)) rfl (fun agent hagent => by
            rw [Option.mem_def.mp hagent, Option.getD_some]) tool htool
    exact htell ((like_eq_fnmatchcase_iff hcase tool _).mp htold)
  · intro hread r ticket hfiles
    refine (wanted_eq_iff filter hfiles).mpr fun _ _ tool htool => ?_
    rw [like_eq_fnmatchcase_iff hcase]
    rcases hread tool htool with halike | hnothing
    · rw [halike]
    · have hreads : Reads tool.toList (globOf tool) := reads_globTokens le_rfl
      obtain ⟨hglob, hliteral⟩ := hreads.barren_agree hnothing (dot_mem_fullName ticket.call)
      rw [hglob, hliteral]

end

/-- A call whose tool has a digit at its end. -/
def bankWire : ToolCall where
  requestId := "r"
  agentId := "agent-1"
  upstreamId := "bank"
  toolName := "wire_1"
  arguments := .dict []
  annotations := []

/-- The bank team's queue. -/
def bankQueue : QueueFilter where
  tool := some "bank.*"

/-- It waits for approval. -/
def wireTicket : Ticket where
  call := bankWire
  decision := { status := .pending }

/-- In both stores it lists the wire. -/
theorem wanted_alike_iff_bank :
    @SqlTicketStore.wanted SqlDialect.binary bankQueue (TicketRow.filed bankWire)
      = MemoryTicketStore.wanted bankQueue wireTicket :=
  (@wanted_alike_iff SqlDialect.binary (fun _ => rfl) bankQueue).mpr
    (fun tool htool => by
      obtain rfl : "bank.*" = tool := Option.some.inj htool
      exact Or.inl (by decide)) _ _ (TicketRow.files_filed bankWire)

/-- A filter with a `?`. -/
def anyWire : QueueFilter where
  tool := some "bank.wire_?"

/-- The memory store lists the wire, the SQL store does not. -/
theorem filter_can_miss :
    (TicketRow.filed bankWire).Files wireTicket ∧ @SqlTicketStore.CaseSensitive SqlDialect.binary ∧
      MemoryTicketStore.wanted anyWire wireTicket = true ∧
        @SqlTicketStore.wanted SqlDialect.binary anyWire (TicketRow.filed bankWire) = false :=
  ⟨TicketRow.files_filed bankWire, fun _ => rfl, by decide, by decide⟩

end ToolGateway
