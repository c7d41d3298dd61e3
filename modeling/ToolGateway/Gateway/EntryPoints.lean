/-
  ToolGateway.Gateway.EntryPoints

  The gate and the entry points, one specification each: which marks a caller
  leaves and what it is told.  `gateway_run` collects them for every run of a
  gateway.
-/

import ToolGateway.Gateway.Execution

namespace ToolGateway

open Coroutine Py

-- ============================================================================
-- What callers leave behind
-- ============================================================================

/-- A caller served about ticket `t`, by what it leaves and is told. -/
inductive Served (s : Settings) (t : TicketId) : List Mark → Except Exc ToolResult → Prop
  /-- got past the approval of a granted call -/
  | gated (base marks : List Mark) (d : Decision) (call : ToolCall) (grant : Grant)
      (editNote : Option String) (r : Except Exc ToolResult)
      (hpassive : ∀ m ∈ base, m.passive = true) (hconsulted : .consulted call grant ∈ base)
      (hacted : .acted t d ∈ base) (honly : ∀ t' d', .acted t' d' ∈ base → t' = t ∧ d' = d)
      (happroved : d.approved = true)
      (htried : Tried s t base { call with arguments := d.effective call.arguments }
        grant.inputSchema editNote marks r) :
      Served s t marks r
  /-- the ticket already had its result -/
  | stored (marks : List Mark) (ticket : Ticket) (r : ToolResult)
      (hpassive : ∀ m ∈ marks, m.passive = true) (hunacted : ∀ t' d, .acted t' d ∉ marks)
      (hread : .read t ticket ∈ marks) (hresult : ticket.result = some r) :
      Served s t marks (.ok r)
  | refused (marks : List Mark) (e : Exc) (hpassive : ∀ m ∈ marks, m.passive = true)
      (hlocal : e.quotesUpstream = false)
      (hdenied : ∀ t' d, .acted t' d ∈ marks → d.approved = false →
        e = .gateway (.approvalDenied d)) :
      Served s t marks (.error e)

/-- Whoever got past a verdict was served about that ticket, and told a denial. -/
theorem Served.acted {s : Settings} {t t' : TicketId} {marks : List Mark} {r : Except Exc ToolResult}
    {d : Decision} (h : Served s t marks r) (hacted : .acted t' d ∈ marks) :
    (d.approved = false → r = .error (.gateway (.approvalDenied d))) ∧
      ((∃ x, r = .ok x) → t' = t) := by
  cases h with
  | gated base _ d' call grant editNote _ _ _ _ honly happroved htried =>
      obtain ⟨rfl, rfl⟩ := honly t' d ((htried.mem _ hacted).resolve_right (by simp [Mark.trying,
        Mark.inside]))
      refine ⟨fun hno => ?_, fun _ => rfl⟩
      rw [happroved] at hno
      cases hno
  | stored _ ticket r _ hunacted => exact absurd hacted (hunacted t' d)
  | refused _ e _ _ hdenied =>
      refine ⟨fun hno => by rw [hdenied t' d hacted hno], ?_⟩
      rintro ⟨x, hx⟩
      cases hx

/-- A mark of a thread that executes. -/
def Mark.executing : Mark → Bool
  | .claimed .. | .started .. | .completed .. => true
  | m => m.inside

theorem Mark.active_of_executing {m : Mark} (h : m.executing = true) : m.passive = false := by
  cases m <;> first | rfl | cases h

/-- A caller that won the claim on ticket `t`: from the marks `base` it went through
    the pipeline, making the marks `new`, and ended with `r`. -/
inductive Executed (s : Settings) (t : TicketId) : List Mark → Except Exc ToolResult → Prop
  | mk (base new stored : List Mark) (now : Time) (call : ToolCall) (d : Decision) (grant : Grant)
      (editNote : Option String) (r : Except Exc ToolResult)
      (hpassive : ∀ m ∈ base, m.passive = true) (hconsulted : .consulted call grant ∈ base)
      (hended : Ended s { call with arguments := d.effective call.arguments } grant.inputSchema
        editNote new r)
      (hstored : (stored = [] ∧ ∃ e : Exc, r = .error e ∧ e.foreign = true) ∨
        ∃ outcome, stored = [.completed t outcome] ∧ r = handedOn outcome) :
      Executed s t (stored ++ new ++ .started t (d.effective call.arguments) :: .claimed t now :: base)
        r

theorem Served.executed {s : Settings} {t : TicketId} {marks : List Mark} {r : Except Exc ToolResult}
    (h : Served s t marks r) {m : Mark} (hm : m ∈ marks) (hkind : m.executing = true) :
    Executed s t marks r := by
  have hactive := Mark.active_of_executing hkind
  cases h with
  | gated base _ d call grant editNote _ hpassive hconsulted _ _ _ htried =>
      have hbase : m ∉ base := fun hmem => by
        rw [hpassive m hmem] at hactive
        cases hactive
      cases htried with
      | completed now new outcome hended =>
          exact .mk base new [_] now call d grant editNote _ hpassive hconsulted hended
            (Or.inr ⟨outcome, rfl, rfl⟩)
      | stranded now new e hforeign hended =>
          exact .mk base new [] now call d grant editNote _ hpassive hconsulted hended
            (Or.inl ⟨rfl, e, rfl, hforeign⟩)
      | stored ticket x hresult =>
          rcases List.mem_cons.mp hm with rfl | hm
          · cases hkind
          · exact absurd hm hbase
      | closed m' ownerLive hread =>
          simp only [List.mem_cons, hbase, or_false] at hm
          rcases hm with rfl | rfl
          · cases hkind
          · rcases hread with rfl | ⟨ticket, rfl, -⟩ <;> cases hkind
      | pending m' hread =>
          simp only [List.mem_cons, hbase, or_false] at hm
          rcases hread with rfl | ⟨ticket, rfl, -⟩ <;> (subst hm; cases hkind)
  | stored _ ticket x hpassive =>
      rw [hpassive m hm] at hactive
      cases hactive
  | refused _ e hpassive =>
      rw [hpassive m hm] at hactive
      cases hactive

/-- The executor hands on what it stored. -/
theorem Executed.completed {s : Settings} {t t' : TicketId} {marks : List Mark}
    {r : Except Exc ToolResult} {outcome : Except GatewayError ToolResult}
    (h : Executed s t marks r) (hmem : .completed t' outcome ∈ marks) : r = handedOn outcome := by
  obtain ⟨base, new, stored, now, call, d, grant, editNote, r, hpassive, -, hended, hstored⟩ := h
  have hnew : Mark.completed t' outcome ∉ new := fun hm => by cases hended.inside _ hm
  have hbase : Mark.completed t' outcome ∉ base := fun hm => by cases hpassive _ hm
  simp only [List.mem_append, List.mem_cons, hnew, hbase, reduceCtorEq, or_false] at hmem
  rcases hstored with ⟨rfl, -⟩ | ⟨outcome', rfl, rfl⟩
  · cases hmem
  · rw [List.mem_singleton, Mark.completed.injEq] at hmem
    rw [hmem.2]

theorem Executed.claimed {s : Settings} {t t' : TicketId} {marks : List Mark}
    {r : Except Exc ToolResult} {now : Time} (h : Executed s t marks r)
    (hmem : .claimed t' now ∈ marks) : t' = t := by
  obtain ⟨base, new, stored, now', call, d, grant, editNote, r, hpassive, -, hended, hstored⟩ := h
  have hnew : Mark.claimed t' now ∉ new := fun hm => by cases hended.inside _ hm
  have hbase : Mark.claimed t' now ∉ base := fun hm => by cases hpassive _ hm
  have hout : Mark.claimed t' now ∉ stored := fun hm => by
    rcases hstored with ⟨rfl, -⟩ | ⟨outcome, rfl, -⟩ <;> simp at hm
  simp only [List.mem_append, List.mem_cons, hnew, hbase, hout, reduceCtorEq, or_false, false_or,
    Mark.claimed.injEq] at hmem
  exact hmem.1

/-- An execution that did not end with an exception of another kind stored its
    outcome. -/
theorem Executed.stored {s : Settings} {t : TicketId} {marks : List Mark}
    {r : Except Exc ToolResult} (h : Executed s t marks r)
    (hkept : ¬ ∃ e : Exc, r = .error e ∧ e.foreign = true) :
    ∃ outcome, .completed t outcome ∈ marks := by
  obtain ⟨base, new, stored, now, call, d, grant, editNote, r, -, -, -, hforeign | hstored⟩ := h
  · exact absurd hforeign.2 hkept
  · obtain ⟨outcome, rfl, -⟩ := hstored
    exact ⟨outcome, by simp⟩

/-- A caller whose call needed no approval. -/
inductive Direct (s : Settings) : List Mark → Except Exc ToolResult → Prop
  | mk (base new : List Mark) (call : ToolCall) (grant : Grant) (r : Except Exc ToolResult)
      (hpassive : ∀ m ∈ base, m.passive = true) (hunacted : ∀ t d, .acted t d ∉ base)
      (hconsulted : .consulted call grant ∈ base)
      (hended : Ended s call grant.inputSchema none new r) :
      Direct s (new ++ base) r

theorem Direct.unacted {s : Settings} {marks : List Mark} {r : Except Exc ToolResult}
    (h : Direct s marks r) (t : TicketId) (d : Decision) : .acted t d ∉ marks := by
  obtain ⟨base, new, call, grant, _, _, hunacted, _, hended⟩ := h
  intro hm
  rcases List.mem_append.mp hm with hm | hm
  · cases hended.inside _ hm
  · exact hunacted t d hm

/-- Without a ticket nothing is claimed or stored. -/
theorem Direct.inside {s : Settings} {marks : List Mark} {r : Except Exc ToolResult}
    (h : Direct s marks r) {m : Mark} (hm : m ∈ marks) (hkind : m.executing = true) :
    m.inside = true := by
  obtain ⟨base, new, call, grant, _, hpassive, _, _, hended⟩ := h
  rcases List.mem_append.mp hm with hm | hm
  · exact hended.inside m hm
  · have hidle := hpassive m hm
    rw [Mark.active_of_executing hkind] at hidle
    cases hidle

/-- The caller read the ticket first, and was told the result it showed. -/
def Polled (t : TicketId) (marks : List Mark) (r : Except Exc ToolResult) : Prop :=
  .missed t ∈ marks ∨
    ∃ ticket, .read t ticket ∈ marks ∧ ∀ stored, ticket.result = some stored → r = .ok stored

-- ============================================================================
-- The gate
-- ============================================================================

variable {σ α : Type} [TicketStore σ] [LawfulTicketStore σ] {s : Settings} {i : ℕ}
  {pre : List Mark}

theorem awaitDecision_spec (t : TicketId) (deadline : Time) (rechecks : ℕ) (ctx : CallContext) :
    (ledger σ s).Spec i pre ctx (awaitDecision t deadline rechecks : StepM σ Decision)
      fun r ctx' marks => ctx' = ctx ∧ ∃ new, marks = new ++ pre ∧
        (∀ m ∈ new, m.watching = true) ∧ (∀ e, r = .error e → e.quotesUpstream = false) ∧
        ∀ d, r = .ok d → d.status ≠ .pending ∧
          (d.status = .timeout ∨ ∃ ticket, .read t ticket ∈ new ∧ ticket.decision = d) := by
  induction rechecks generalizing pre with
  | zero =>
      have hnever : (ledger σ s).Triple i pre (Co.atomic fun _ _ => none : Task σ Decision)
          fun _ _ => False := Discipline.Triple.quiet fun slot w x w' _ _ _ hb => by cases hb
      exact .lift hnever fun a marks h => h.elim
  | succ rechecks ih =>
      refine .lift_bind (getTicket_spec t) ?_
      rintro found marks (⟨ticket, rfl, rfl⟩ | ⟨rfl, rfl⟩)
      · have hread : ∀ m ∈ [Mark.read t ticket], m.watching = true := by simp [Mark.watching]
        by_cases hpending : ticket.decision.status = .pending
        · simp only [hpending, ne_eq, not_true_eq_false, if_false]
          refine .lift_bind readClock_spec ?_
          rintro now marks rfl
          by_cases hdue : deadline - now ≤ 0
          · rw [if_pos hdue]
            refine .pure ⟨rfl, [_], rfl, hread, (by simp), fun d hd => ?_⟩
            cases hd
            exact ⟨DecisionStatus.noConfusion, Or.inl rfl⟩
          · rw [if_neg hdue]
            refine .lift_bind (quiet_spec fun slot w x w' hb => by cases hb; exact ⟨rfl, rfl, rfl⟩) ?_
            rintro ⟨⟩ marks rfl
            refine ih.mono fun r ctx' marks hpost => ?_
            obtain ⟨hctx, new, rfl, hnew, he, hd⟩ := hpost
            refine ⟨hctx, new ++ [.read t ticket], by simp, fun m hm => ?_, he, fun d hr => ?_⟩
            · exact (List.mem_append.mp hm).elim (hnew m) (hread m)
            · obtain ⟨hstatus, hfrom⟩ := hd d hr
              exact ⟨hstatus, hfrom.imp_right fun ⟨ticket', hmem, hdecision⟩ =>
                ⟨ticket', List.mem_append_left _ hmem, hdecision⟩⟩
        · simp only [ne_eq, hpending, not_false_eq_true, if_true]
          refine .pure ⟨rfl, [_], rfl, hread, (by simp), fun d hd => ?_⟩
          cases hd
          exact ⟨hpending, Or.inr ⟨ticket, List.mem_cons_self, rfl⟩⟩
      · refine .throw ⟨rfl, [_], rfl, by simp [Mark.watching], fun e he => ?_, fun d hd => ?_⟩
        · cases he
          rfl
        · cases hd

/-- What a thread knows the verdict from. -/
def KnowsVerdict (t : TicketId) (marks : List Mark) (d : Decision) : Prop :=
  .decided t d ∈ marks ∨ ∃ ticket, .read t ticket ∈ marks ∧ ticket.decision = d

theorem settle_spec {t : TicketId} {call : ToolCall} {awaited : Decision} (ctx : CallContext)
    (hcreated : .created t call ∈ pre) (hstatus : awaited.status ≠ .pending)
    (hfrom : awaited.status = .timeout ∨ KnowsVerdict t pre awaited) :
    (ledger σ s).Spec i pre ctx (settle t awaited : StepM σ Decision) fun r ctx' marks =>
      ctx' = ctx ∧ ∃ new, marks = new ++ pre ∧ (∀ m ∈ new, m.watching = true) ∧
        (∀ e, r = .error e → e.quotesUpstream = false) ∧
        ∀ d, r = .ok d → d.status ≠ .pending ∧ KnowsVerdict t marks d := by
  by_cases htimeout : awaited.status = .timeout
  · rw [settle, if_pos htimeout]
    refine .lift_bind (decideTicket_spec t hstatus) ?_
    rintro won marks (⟨rfl, rfl⟩ | ⟨rfl, rfl⟩)
    · refine .pure ⟨rfl, [_], rfl, by simp [Mark.watching], by simp, fun d hd => ?_⟩
      cases hd
      exact ⟨hstatus, Or.inl List.mem_cons_self⟩
    · -- the store has another verdict, and returns it
      refine .lift_bind (getTicket_spec_of (P := fun ticket => ticket.decision.status ≠ .pending)
        fun trail c hlegal hown hc => ?_) ?_
      · exact decided_of_refused hlegal [] hown hcreated hc
      rintro found marks (⟨ticket, rfl, rfl, hdecided⟩ | ⟨rfl, rfl⟩)
      · refine .pure ⟨rfl, [_, _], rfl, by simp [Mark.watching], by simp, fun d hd => ?_⟩
        cases hd
        exact ⟨hdecided, Or.inr ⟨ticket, List.mem_cons_self, rfl⟩⟩
      · refine .throw ⟨rfl, [_, _], rfl, by simp [Mark.watching], fun e he => ?_, fun d hd => ?_⟩
        · cases he
          rfl
        · cases hd
  · rw [settle, if_neg htimeout]
    refine .pure ⟨rfl, [], rfl, by simp, by simp, fun d hd => ?_⟩
    cases hd
    exact ⟨hstatus, hfrom.resolve_left htimeout⟩

theorem Tried.base_subset {t : TicketId} {base marks : List Mark} {call : ToolCall} {schema : Json}
    {editNote : Option String} {r : Except Exc ToolResult}
    (h : Tried s t base call schema editNote marks r) : ∀ m ∈ base, m ∈ marks := by
  intro m hm
  cases h <;> simp [hm]

/-- Past the verdict on a granted call. -/
theorem applyDecision_bind {t : TicketId} {d : Decision} {grant : Grant} {ctx : CallContext}
    {k : Unit → StepM σ ToolResult} (hpassive : ∀ m ∈ pre, m.passive = true)
    (hunacted : ∀ t' d', .acted t' d' ∉ pre) (hgrant : ctx.grant = some grant)
    (hconsulted : .consulted ctx.call grant ∈ pre)
    (hk : ∀ ctx' post, (ledger σ s).Spec i (.acted t d :: pre) ctx'
        (runOnce t s.gate.lease (Pipeline.run (postApproval s []))) post →
      (ledger σ s).Spec i (.acted t d :: pre) ctx' (k ()) post) :
    (ledger σ s).Spec i (.acted t d :: pre) ctx (applyDecision d >>= k) fun r _ marks =>
      Served s t marks r ∧ ∀ m ∈ pre, m ∈ marks := by
  have hbase : ∀ m ∈ Mark.acted t d :: pre, m.passive = true := by
    intro m hm
    rcases List.mem_cons.mp hm with rfl | hm
    · rfl
    · exact hpassive m hm
  have honly : ∀ t' d', Mark.acted t' d' ∈ Mark.acted t d :: pre → t' = t ∧ d' = d := by
    intro t' d' hm
    rcases List.mem_cons.mp hm with heq | hm
    · cases heq
      exact ⟨rfl, rfl⟩
    · exact absurd hm (hunacted t' d')
  refine (applyDecision_spec d ctx).bind ?_ ?_
  · rintro ⟨⟩ ctx' marks ⟨rfl, ⟨-, happroved, hgrant', hcall⟩ | ⟨e, he, -⟩⟩
    · refine hk ctx' _ ((runOnce_spec ctx.call (hgrant'.trans hgrant)
        (List.mem_cons_of_mem _ hconsulted) List.mem_cons_self (fun t' d' hm => (honly t' d' hm).2)
        hbase happroved
        (by rw [hcall])).mono fun r _ marks htried => ?_)
      rw [hcall] at htried
      exact ⟨.gated _ marks d ctx.call grant _ r hbase (List.mem_cons_of_mem _ hconsulted)
        List.mem_cons_self honly happroved htried,
        fun m hm => htried.base_subset m (List.mem_cons_of_mem _ hm)⟩
    · cases he
  · rintro e ctx' marks ⟨rfl, ⟨he, -⟩ | ⟨e', he, hlocal, hdenied⟩⟩
    · cases he
    · cases he
      refine ⟨.refused _ e hbase hlocal fun t' d' hm hno => ?_, fun m hm => List.mem_cons_of_mem _ hm⟩
      rw [(honly t' d' hm).2] at hno ⊢
      exact hdenied hno

/-- A verdict a thread knows is the recorded one. -/
theorem cell_of_verdict {trail : TrailOf Mark} (h : Legal (Allowed s) trail) {t : TicketId}
    {d : Decision} (hknows : KnowsVerdict t (own i trail) d) (hstatus : d.status ≠ .pending) :
    ∃ c, cellOf t trail = some c ∧ c.decision = d := by
  rcases hknows with hdecided | ⟨ticket, hread, rfl⟩
  · obtain ⟨c, hc, hd, -⟩ := cell_of_decided h (mem_own.mp hdecided)
    exact ⟨c, hc, hd⟩
  · obtain ⟨c₀, c, rfl, hc, hev⟩ := cell_of_read h (mem_own.mp hread)
    exact ⟨c, hc, hev.decision hstatus⟩

theorem passive_cons {m : Mark} (hm : m.passive = true) (hpassive : ∀ m ∈ pre, m.passive = true) :
    ∀ m' ∈ m :: pre, m'.passive = true := by
  intro m' hm'
  rcases List.mem_cons.mp hm' with rfl | hm'
  · exact hm
  · exact hpassive m' hm'

theorem passive_append {new : List Mark} (hnew : ∀ m ∈ new, m.watching = true)
    (hpassive : ∀ m ∈ pre, m.passive = true) : ∀ m ∈ new ++ pre, m.passive = true := by
  intro m hm
  exact (List.mem_append.mp hm).elim (fun h => Mark.passive_of_watching (hnew m h)) (hpassive m)

theorem unacted_append {new : List Mark} (hnew : ∀ m ∈ new, m.watching = true)
    (hunacted : ∀ t d, .acted t d ∉ pre) : ∀ t d, .acted t d ∉ new ++ pre := by
  intro t d hm
  rcases List.mem_append.mp hm with h | h
  · cases hnew _ h
  · exact hunacted t d h

/-- A caller that waits for the verdict on the ticket it filed. -/
theorem waiter_spec {t : TicketId} {ctx : CallContext} {grant : Grant}
    (hpassive : ∀ m ∈ pre, m.passive = true) (hunacted : ∀ t' d', .acted t' d' ∉ pre)
    (hgrant : ctx.grant = some grant) (hconsulted : .consulted ctx.call grant ∈ pre)
    (hcreated : .created t ctx.call ∈ pre) :
    (ledger σ s).Spec i pre ctx
      (waitForVerdict s.gate t (Pipeline.run (postApproval s [])) : StepM σ ToolResult)
      fun r _ marks => Served s t marks r := by
  have hrefused : ∀ {new : List Mark} (e : Exc), (∀ m ∈ new, m.watching = true) →
      e.quotesUpstream = false → Served s t (new ++ pre) (.error e) := fun e hnew hlocal =>
    .refused _ e (passive_append hnew hpassive) hlocal fun t' d hm =>
      absurd hm (unacted_append hnew hunacted t' d)
  refine .lift_bind readClock_spec ?_
  rintro start marks hmarks
  rw [hmarks]
  refine (awaitDecision_spec t _ _ ctx).bind ?_ ?_
  swap
  · rintro e ctx' marks ⟨-, new, rfl, hnew, hlocal, -⟩
    exact hrefused e hnew (hlocal e rfl)
  rintro awaited ctx' marks ⟨rfl, new, rfl, hnew, -, hawaited⟩
  obtain ⟨hstatus, hfrom⟩ := hawaited awaited rfl
  refine (settle_spec ctx' (List.mem_append_right _ hcreated) hstatus (hfrom.imp_right
    fun ⟨ticket, hm, hd⟩ => Or.inr ⟨ticket, List.mem_append_left _ hm, hd⟩)).bind ?_ ?_
  swap
  · rintro e ctx'' marks ⟨-, new', rfl, hnew', hlocal, -⟩
    rw [← List.append_assoc]
    exact hrefused e (fun m hm => (List.mem_append.mp hm).elim (hnew' m) (hnew m)) (hlocal e rfl)
  rintro d ctx'' marks ⟨rfl, new', rfl, hnew', -, hd⟩
  obtain ⟨hdecided, hknows⟩ := hd d rfl
  rw [← List.append_assoc] at hknows ⊢
  have hwatch : ∀ m ∈ new' ++ new, m.watching = true := fun m hm =>
    (List.mem_append.mp hm).elim (hnew' m) (hnew m)
  refine audit_bind (.lift_bind (note_spec rfl fun trail hlegal hown => ?_) ?_)
  · have hmem : ∀ m ∈ pre, (i, m) ∈ trail := fun m hm =>
      mem_own.mp (hown ▸ List.mem_append_right _ hm)
    obtain ⟨c, hc, hdecision⟩ := cell_of_verdict hlegal (hown ▸ hknows) hdecided
    obtain ⟨c', hc', hcall⟩ := cell_of_created hlegal (hmem _ hcreated)
    rw [hc] at hc'
    cases hc'
    rw [← hcall] at hconsulted hcreated
    exact ⟨hdecided, c, hc, hdecision, ⟨grant, hmem _ hconsulted⟩, Or.inl (hmem _ hcreated)⟩
  rintro ⟨⟩ marks rfl
  exact (applyDecision_bind (passive_append hwatch hpassive) (unacted_append hwatch hunacted) hgrant
    (List.mem_append_right _ hconsulted) fun _ _ h => h).mono fun r _ marks h => h.1

/-- How a call that reached the gate ends. -/
def Gated (s : Settings) (marks : List Mark) (r : Except Exc ToolResult) : Prop :=
  Direct s marks r ∨ ∃ t, Served s t marks r

/-- The gate on a granted call. -/
theorem approvalGate_spec {ctx : CallContext} {grant : Grant}
    (hpassive : ∀ m ∈ pre, m.passive = true) (hunacted : ∀ t' d', .acted t' d' ∉ pre)
    (hgrant : ctx.grant = some grant) (hnote : ctx.bag.editNote = none)
    (hconsulted : .consulted ctx.call grant ∈ pre) :
    (ledger σ s).Spec i pre ctx
      ((ApprovalGate s.gate).handleCall (Pipeline.run (postApproval s []))) fun r _ marks =>
        Gated s marks r := by
  refine .get_bind ?_
  simp only [hgrant, Option.map_some, Option.getD_some]
  by_cases hauto : grant.approvalMode = .auto
  · rw [if_pos hauto]
    refine (postApproval_spec hgrant hconsulted (fun t d hmem => absurd hmem (hunacted t d))
      fun t outcome hmem => by cases hpassive _ hmem).mono ?_
    rintro r ctx' marks ⟨new, rfl, hended⟩
    rw [hnote] at hended
    exact Or.inl (.mk pre new ctx.call grant r hpassive hunacted hconsulted hended)
  rw [if_neg hauto]
  refine .lift_bind (createTicket_spec ctx.call) ?_
  rintro created marks ⟨t, rfl, rfl⟩
  refine orRaise_bind (fun a ha => ?_) fun e he => by cases he
  cases ha
  refine audit_bind ?_
  have hpre := passive_cons (m := .created t ctx.call) rfl hpassive
  have hfiled : ∀ t' d', Mark.acted t' d' ∉ Mark.created t ctx.call :: pre := fun t' d' hm =>
    (List.mem_cons.mp hm).elim (fun h => by cases h) (hunacted t' d')
  have hgate : (ledger σ s).Spec i (.created t ctx.call :: pre) ctx
      (fromNotice s.gate t grant.approvalMode ctx.canBlock (Pipeline.run (postApproval s [])) :
        StepM σ ToolResult)
      fun r _ marks => Gated s marks r := by
    rw [fromNotice]
    by_cases hhandle : grant.approvalMode = .async ∨ ctx.canBlock = false
    · rw [if_pos hhandle]
      exact .throw (Or.inr ⟨t, .refused _ _ hpre rfl fun t' d hm => absurd hm (hfiled t' d)⟩)
    · rw [if_neg hhandle]
      exact (waiter_spec hpre hfiled hgrant (List.mem_cons_of_mem _ hconsulted)
        List.mem_cons_self).mono fun r _ marks h => Or.inr ⟨t, h⟩
  by_cases hnotifies : s.gate.notifies = true
  · rw [if_pos hnotifies]
    refine .lift_bind (quiet_spec fun slot w x w' hb => by cases hb; exact ⟨rfl, rfl, rfl⟩) ?_
    rintro failure marks hmarks
    rw [hmarks]
    cases failure with
    | some error => exact audit_bind hgate
    | none => exact hgate
  · rw [if_neg hnotifies]
    exact hgate

-- ============================================================================
-- Before the gate
-- ============================================================================

theorem rateLimit_spec {ctx : CallContext} {callNext : StepM σ ToolResult}
    {post : Except Exc ToolResult → CallContext → List Mark → Prop}
    (hnext : (ledger σ s).Spec i pre ctx callNext post)
    (herror : ∀ e : Exc, e.quotesUpstream = false → post (.error e) ctx pre) :
    (ledger σ s).Spec i pre ctx (RateLimit.handleCall callNext) post := by
  refine .get_bind (.lift_bind
    (quiet_spec fun slot w x w' hb => by cases hb; exact ⟨rfl, rfl, rfl⟩) ?_)
  rintro admitted marks hmarks
  rw [hmarks]
  cases admitted with
  | true => exact hnext
  | false => exact .throw (herror _ rfl)

theorem authorize_spec {ctx : CallContext} {callNext : StepM σ ToolResult}
    {post : Except Exc ToolResult → CallContext → List Mark → Prop}
    (hfirst : ∀ call grant, .consulted call grant ∉ pre)
    (hnext : ∀ grant, (ledger σ s).Spec i (.consulted ctx.call grant :: pre)
      { ctx with grant := some grant } callNext post)
    (herror : ∀ e : Exc, e.quotesUpstream = false → post (.error e) ctx pre) :
    (ledger σ s).Spec i pre ctx (Authorize.handleCall callNext) post := by
  refine .get_bind (.lift_bind (grantFor_spec ctx.call hfirst) ?_)
  rintro answer marks (⟨grant, rfl, rfl⟩ | ⟨hanswer, hmarks⟩)
  · refine orRaise_bind (fun found hfound => ?_) fun e he => by cases he
    cases hfound
    exact .modify_bind (audit_bind (hnext grant))
  · rw [hmarks]
    refine orRaise_bind (fun found hfound => ?_) fun e _ => herror _ rfl
    rcases hanswer with hnone | ⟨e, he⟩
    · rw [hnone] at hfound
      cases hfound
      exact .throw (herror _ rfl)
    · rw [he] at hfound
      cases hfound

/-- How `call` ends. -/
def Called (s : Settings) (marks : List Mark) (r : Except Exc ToolResult) : Prop :=
  Gated s marks r ∨ (marks = [] ∧ ∃ e : Exc, r = .error e ∧ e.quotesUpstream = false)

/-- The full pipeline on a call that just arrived. -/
theorem full_spec (toolCall : ToolCall) (canBlock : Bool) :
    (ledger σ s).Spec i [] { call := toolCall, canBlock := canBlock } (Pipeline.run (full s []))
      fun r _ marks => Called s marks r := by
  have hauthorized : (ledger σ s).Spec i [] { call := toolCall, canBlock := canBlock }
      (Pipeline.run (audited Authorize "authorize" :: audited (ApprovalGate s.gate) "approval" ::
        postApproval s [])) fun r _ marks => Called s marks r := by
    refine audited_spec (authorize_spec (by simp) (fun grant => audited_spec ?_)
      fun e he => Or.inr ⟨rfl, e, rfl, he⟩)
    have hpassive : ∀ m ∈ [Mark.consulted toolCall grant], m.passive = true := by
      simp [Mark.passive]
    exact (approvalGate_spec hpassive (by simp) rfl rfl List.mem_cons_self).mono
      fun r _ marks h => Or.inl h
  rw [full_nil]
  cases hlimited : s.limited with
  | false => exact hauthorized
  | true => exact audited_spec (rateLimit_spec hauthorized fun e he => Or.inr ⟨rfl, e, rfl, he⟩)

-- ============================================================================
-- Entry points
-- ============================================================================

theorem within_spec {ctx : CallContext} {m : StepM σ α}
    {mid : Except Exc α → CallContext → List Mark → Prop} {post : Except Exc α → Unit → List Mark → Prop}
    (h : (ledger σ s).Spec i pre ctx m mid)
    (hpost : ∀ r ctx' marks, mid r ctx' marks → post r () marks) :
    (ledger σ s).Spec i pre () (GatewayM.within ctx m) post := by
  refine .lift_bind h ?_
  rintro ⟨r, ctx'⟩ marks hmid
  cases r with
  | ok a => exact .pure (hpost _ _ _ hmid)
  | error e => exact .throw (hpost _ _ _ hmid)

/-- What `call` tells its caller. -/
def callReply : Except Exc ToolResult → Except Exc Reply
  | .ok r => .ok (.result r)
  | .error (.gateway (.pendingApproval t)) => .ok (.pending t)
  | .error e => .error e

theorem call_spec (toolCall : ToolCall) (canBlock : Bool) :
    (ledger σ s).Spec i [] () (call s [] toolCall canBlock) fun reply _ marks =>
      ∃ r, reply = callReply r ∧ Called s marks r := by
  have hrun : (ledger σ s).Spec i [] { call := toolCall, canBlock := canBlock }
      (do return .result (← Pipeline.run (full s [])) : StepM σ Reply) fun reply _ marks =>
        ∃ r : Except Exc ToolResult, reply = r.map Reply.result ∧ Called s marks r := by
    refine (full_spec toolCall canBlock).bind (fun r ctx' marks h => ?_) fun e ctx' marks h => ?_
    · exact .pure ⟨.ok r, rfl, h⟩
    · exact ⟨.error e, rfl, h⟩
  refine within_spec (.tryCatch hrun ?_ ?_)
    fun r ctx' marks (h : ∃ x, r = callReply x ∧ Called s marks x) => h
  · rintro reply ctx' marks ⟨r, hr, hcalled⟩
    cases r with
    | ok a => exact ⟨.ok a, hr, hcalled⟩
    | error e => cases hr
  · rintro e ctx' marks ⟨r, hr, hcalled⟩
    cases r with
    | ok a => cases hr
    | error e' =>
        cases hr
        split
        · next t => exact .pure ⟨_, rfl, hcalled⟩
        · next hne =>
            refine .throw ⟨_, ?_, hcalled⟩
            rw [callReply]
            exact hne

theorem resume_spec {t : TicketId} (hpassive : ∀ m ∈ pre, m.passive = true)
    (hunacted : ∀ t' d, .acted t' d ∉ pre) (hfirst : ∀ call grant, .consulted call grant ∉ pre) :
    (ledger σ s).Spec i pre () (resume s [] t : GatewayM σ ToolResult) fun r _ marks =>
      Served s t marks r ∧ Polled t marks r := by
  refine .lift_bind (getTicket_spec t) ?_
  rintro found marks (⟨ticket, rfl, rfl⟩ | ⟨rfl, rfl⟩)
  swap
  · refine .throw ⟨.refused _ _ (passive_cons rfl hpassive) rfl fun t' d hm => ?_,
      Or.inl List.mem_cons_self⟩
    simp only [List.mem_cons, reduceCtorEq, false_or] at hm
    exact absurd hm (hunacted t' d)
  have hread : ∀ m ∈ Mark.read t ticket :: pre, m.passive = true := passive_cons rfl hpassive
  have hquiet : ∀ t' d, Mark.acted t' d ∉ Mark.read t ticket :: pre := fun t' d hm =>
    (List.mem_cons.mp hm).elim (fun h => by cases h) (hunacted t' d)
  cases hresult : ticket.result with
  | some r =>
      simp only [hresult]
      exact .pure ⟨.stored _ ticket r hread hquiet List.mem_cons_self hresult,
        Or.inr ⟨ticket, List.mem_cons_self, fun stored h => by rw [hresult] at h; cases h; rfl⟩⟩
  | none =>
      -- whatever happens from here on, the first reading showed no result
      have hpolled : ∀ {marks : List Mark} {r : Except Exc ToolResult},
          .read t ticket ∈ marks → Polled t marks r := fun hm =>
        Or.inr ⟨ticket, hm, fun stored h => by rw [hresult] at h; cases h⟩
      have hrefused : ∀ e : Exc, e.quotesUpstream = false →
          Served s t (.read t ticket :: pre) (.error e) := fun e hlocal =>
        .refused _ e hread hlocal fun t' d hm => absurd hm (hquiet t' d)
      by_cases hpending : ticket.decision.status = .pending
      · simp only [hresult, hpending, if_true]
        exact .throw ⟨hrefused _ rfl, hpolled List.mem_cons_self⟩
      simp only [hresult, hpending, if_false]
      refine .lift_bind (grantFor_spec ticket.call fun call grant hm => ?_) ?_
      · simp only [List.mem_cons, reduceCtorEq, false_or] at hm
        exact hfirst call grant hm
      rintro answer marks (⟨grant, rfl, rfl⟩ | ⟨hanswer, hmarks⟩)
      swap
      · rw [hmarks]
        refine orRaise_bind (fun granted hgranted => ?_) fun e _ =>
          ⟨hrefused _ rfl, hpolled List.mem_cons_self⟩
        rcases hanswer with hnone | ⟨e, he⟩
        · rw [hnone] at hgranted
          cases hgranted
          exact .throw ⟨hrefused _ rfl, hpolled List.mem_cons_self⟩
        · rw [he] at hgranted
          cases hgranted
      refine orRaise_bind (fun granted hgranted => ?_) fun e he => by cases he
      cases hgranted
      refine within_spec (.lift_bind (note_spec rfl fun trail hlegal hown => ?_) ?_)
        fun r ctx' marks (h : Served s t marks r ∧ Polled t marks r) => h
      · have hmem : ∀ m ∈ Mark.consulted ticket.call grant :: .read t ticket :: pre,
            (i, m) ∈ trail := fun m hm => mem_own.mp (hown ▸ hm)
        obtain ⟨c₀, c, rfl, hc, hev⟩ := cell_of_read hlegal (hmem (.read t ticket) (by simp))
        refine ⟨hpending, c, hc, hev.decision hpending, ?_⟩
        rw [hev.call]
        exact ⟨⟨grant, hmem _ List.mem_cons_self⟩, Or.inr ⟨grant, [], _, hown, c₀.ticket,
          List.mem_cons_self, rfl⟩⟩
      rintro ⟨⟩ marks rfl
      have hunacted' : ∀ t' d, Mark.acted t' d ∉
          Mark.consulted ticket.call grant :: .read t ticket :: pre := fun t' d hm =>
        (List.mem_cons.mp hm).elim (fun h => by cases h) (hquiet t' d)
      exact Discipline.Spec.mono (applyDecision_bind (passive_cons rfl hread) hunacted' rfl
        List.mem_cons_self fun ctx' post h => audit_bind h) fun r _ marks h =>
          ⟨h.1, hpolled (h.2 _ (by simp))⟩

/-- What `check` makes of how `resume` ended. -/
def checkReply (t : TicketId) : Except Exc ToolResult → Except Exc Reply
  | .ok r => .ok (.result r)
  | .error (.gateway (.pendingApproval _)) => .ok (.pending t)
  | .error (.gateway (.approvalDenied d)) =>
      .ok (.text ("Approval denied: " ++ (GatewayError.approvalDenied d).str) true)
  | .error (.gateway e) => .error (.mcpError GATEWAY_ERROR e.str)
  | .error (.unknownTicket t') => .error (.mcpError GATEWAY_ERROR t')
  | .error e => .error e

/-- How `check` ends. -/
def Checked (s : Settings) (agentId : String) (t : TicketId) (reply : Except Exc Reply)
    (marks : List Mark) : Prop :=
  (reply = .error (.mcpError NO_TICKET ("no such ticket: " ++ t)) ∧ (marks = [.missed t] ∨
      ∃ ticket, marks = [.read t ticket] ∧ ticket.call.agentId ≠ agentId)) ∨
    (reply = .ok (.pending t) ∧
      ∃ ticket, marks = [.read t ticket] ∧ ticket.decision.status = .pending) ∨
    ∃ r, reply = checkReply t r ∧ Served s t marks r ∧ Polled t marks r

theorem check_spec (agentId : String) (t : TicketId) :
    (ledger σ s).Spec i [] () (check s [] agentId t : GatewayM σ Reply) fun reply _ marks =>
      Checked s agentId t reply marks := by
  refine .lift_bind (getTicket_spec t) ?_
  rintro found marks (⟨ticket, rfl, rfl⟩ | ⟨rfl, rfl⟩)
  swap
  · exact .throw (Or.inl ⟨rfl, Or.inl rfl⟩)
  by_cases hagent : ticket.call.agentId = agentId
  swap
  · simp only [hagent, ne_eq, not_false_eq_true, if_true]
    exact .throw (Or.inl ⟨rfl, Or.inr ⟨ticket, rfl, hagent⟩⟩)
  simp only [hagent, ne_eq, not_true_eq_false, if_false]
  by_cases hpending : ticket.decision.status = .pending
  · simp only [hpending, if_true]
    exact .pure (Or.inr (Or.inl ⟨rfl, ticket, rfl, hpending⟩))
  simp only [hpending, if_false]
  have hresume : (ledger σ s).Spec i [.read t ticket] ()
      (do return .result (← resume s [] t) : GatewayM σ Reply) fun reply _ marks =>
        ∃ r : Except Exc ToolResult, reply = r.map Reply.result ∧ Served s t marks r ∧
          Polled t marks r := by
    refine (resume_spec (by simp [Mark.passive, Mark.watching]) (by simp) (by simp)).bind
      (fun r _ marks h => ?_) fun e _ marks h => ?_
    · exact .pure ⟨.ok r, rfl, h⟩
    · exact ⟨.error e, rfl, h⟩
  refine .tryCatch hresume ?_ ?_
  · rintro reply _ marks ⟨r, hr, hserved⟩
    cases r with
    | ok a => exact Or.inr (Or.inr ⟨.ok a, hr, hserved⟩)
    | error e => cases hr
  · rintro e _ marks ⟨r, hr, hserved⟩
    cases r with
    | ok a => cases hr
    | error e' =>
        cases hr
        have hchecked : ∀ reply, reply = checkReply t (.error e) → Checked s agentId t reply marks :=
          fun reply hreply => Or.inr (Or.inr ⟨.error e, hreply, hserved⟩)
        cases e with
        | gateway e => cases e <;> first | exact .pure (hchecked _ rfl) | exact .throw (hchecked _ rfl)
        | _ => exact .throw (hchecked _ rfl)

theorem decide_spec (t : TicketId) (d : Decision) :
    (ledger σ s).Spec i [] () (ToolGateway.decide t d : GatewayM σ Reply) fun reply _ marks =>
      (∀ m ∈ marks, m.watching = true) ∧ (reply = .ok .done ↔ .decided t d ∈ marks) := by
  by_cases hstatus : d.status = .approved ∨ d.status = .rejected
  swap
  · rw [ToolGateway.decide, if_neg hstatus]
    exact .throw ⟨by simp, by simp⟩
  rw [ToolGateway.decide, if_pos hstatus]
  have hpending : d.status ≠ .pending := by
    intro hp
    rw [hp] at hstatus
    rcases hstatus with h | h <;> cases h
  refine .lift_bind (getTicket_spec t) ?_
  rintro found marks (⟨ticket, rfl, rfl⟩ | ⟨rfl, rfl⟩)
  swap
  · exact .throw ⟨by simp [Mark.watching], by simp⟩
  refine .lift_bind (decideTicket_spec t hpending) ?_
  rintro won marks (⟨rfl, rfl⟩ | ⟨rfl, rfl⟩)
  swap
  · exact .throw ⟨by simp [Mark.watching], by simp⟩
  refine .lift_bind (quiet_spec fun slot w x w' hb => by cases hb; exact ⟨rfl, rfl, rfl⟩) ?_
  rintro ⟨⟩ marks rfl
  refine .lift_bind (auditEvent_spec _ _ _) ?_
  rintro ⟨⟩ marks rfl
  exact .pure ⟨by simp [Mark.watching], by simp⟩

theorem setPolicy_spec (grants : GrantResolver) :
    (ledger σ s).Spec i [] () (setPolicy grants : GatewayM σ Reply) fun _ _ marks =>
      marks = [.policy grants] := by
  refine .lift_bind (setPolicy_block_spec grants) ?_
  rintro ⟨⟩ marks rfl
  exact .pure rfl

end ToolGateway
