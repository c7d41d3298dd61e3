/-
  ToolGateway.Gateway.Tracks

  The gateway keeps the discipline of provenance: one lemma for each step and
  each entry point, as for the ledger.
-/

import ToolGateway.Gateway.Provenance
import ToolGateway.Gateway.Rules

namespace ToolGateway

open Coroutine Py

variable {σ : Type} [TicketStore σ] [LawfulTicketStore σ] {s : Settings} {ok : Input → Prop}
  {T : TrailOf Mark} {actors : List Actor} {i : ℕ} {actor : Actor} {pre : List Mark}

-- ============================================================================
-- Rules for steps
-- ============================================================================

/-- What a program of thread `i` with these marks and this context ends with, in a run
    that ends with the trail `T`. -/
abbrev Tracks {γ α : Type} (s : Settings) (ok : Input → Prop) (T : TrailOf Mark)
    (actors : List Actor) (i : ℕ) (pre : List Mark) (c : γ) (m : Prog Exc γ Input (World σ) α)
    (post : Except Exc α → γ → List Mark → Prop) : Prop :=
  (provenance σ ok actors).SpecGiven (Along s ok T) i pre c m post

section
variable {ctx : CallContext} {α β γ : Type}

theorem ignoresAudit (hactor : actors[i]? = some actor) :
    IgnoresAudit (provenance σ ok actors) (Along s ok T) i :=
  fun _ event call fields => auditEvent_traced hactor event call fields

-- ============================================================================
-- The pipeline after the approval
-- ============================================================================

theorem dispatch_tracks (hactor : actors[i]? = some actor) {call : ToolCall} {refs : List String}
    {callNext : StepM σ ToolResult} (hhanded : Handed pre call ctx.bag.editNote)
    (hresolved : .resolved (.ok (ctx.call.arguments, refs)) ∈ pre)
    (hcall : ctx.call = { call with arguments := ctx.call.arguments }) :
    Tracks s ok T actors i pre ctx (Dispatch.handleCall callNext) fun _ _ marks => Adds pre marks := by
  refine .get_bind (.lift_bind (traced_block (fun _ marks => marks = .dispatched ctx.call :: pre)
    hactor fun slot w x w' _ _ hme hb => ?_) ?_)
  · cases hb
    subst hme
    exact Or.inr ⟨_, rfl, ⟨call, _, refs, hhanded, hresolved, hcall⟩, rfl⟩
  rintro started marks rfl
  refine .lift_bind (traced_block
    (fun x marks => marks = .answered x.1 :: .dispatched ctx.call :: pre) hactor
    fun slot w x w' halong _ hme hb => ?_) ?_
  · cases hb
    subst hme
    exact Or.inr ⟨_, rfl, ⟨ctx.call, slot.input, List.mem_cons_self, halong.input, rfl⟩, rfl⟩
  rintro ⟨answer, now⟩ marks rfl
  have hadds : Adds pre (.answered answer :: .dispatched ctx.call :: pre) :=
    (Adds.cons rfl).trans (.cons rfl)
  cases answer with
  | raised typeName text => exact audit_given (ignoresAudit hactor) (.throw hadds)
  | result r =>
      refine .lift_bind (note_traced hactor ?_) ?_
      · exact ⟨call, ctx.bag.editNote, r, _, hhanded.adds hadds, List.mem_cons_self, rfl⟩
      rintro ⟨⟩ marks rfl
      exact audit_given (ignoresAudit hactor) (.pure (hadds.trans (.cons rfl)))

theorem redact_tracks (hactor : actors[i]? = some actor)
    {redact : ToolResult → String → Except Exc ToolResult} {callNext : StepM σ ToolResult}
    (h : Tracks s ok T actors i pre ctx callNext fun _ _ marks => Adds pre marks) :
    Tracks s ok T actors i pre ctx ((Redact redact).handleCall callNext)
      fun _ _ marks => Adds pre marks := by
  refine .bind h (fun r ctx' marks hmid => .get_bind ?_) fun _ _ _ hmid => hmid
  split
  · exact .pure hmid
  · exact audit_given (ignoresAudit hactor) (.throw hmid)
  · exact .throw hmid

theorem materialize_tracks (hactor : actors[i]? = some actor) {callNext : StepM σ ToolResult}
    (hhanded : Handed pre ctx.call ctx.bag.editNote)
    (hnext : ∀ arguments refs (ctx' : CallContext),
      ctx'.call = { ctx.call with arguments := arguments } → ctx'.bag.editNote = ctx.bag.editNote →
        Tracks s ok T actors i (.resolved (.ok (arguments, refs)) :: pre) ctx' callNext
          fun _ _ marks => Adds pre marks) :
    Tracks s ok T actors i pre ctx (MaterializeSecrets.handleCall callNext)
      fun _ _ marks => Adds pre marks := by
  refine .get_bind (.lift_bind (traced_block (fun answer marks => marks = .resolved answer :: pre)
    hactor fun slot w x w' halong _ hme hb => ?_) ?_)
  · cases hb
    subst hme
    exact Or.inr ⟨_, rfl, ⟨ctx.call, _, slot.input, hhanded, halong.input, rfl⟩, rfl⟩
  rintro answer marks rfl
  cases answer with
  | error e => exact .throw (.cons rfl)
  | ok found =>
      obtain ⟨materialized, refs⟩ := found
      refine .modify_bind ?_
      by_cases hrefs : refs = []
      · simp only [hrefs, ne_eq, not_true_eq_false, if_false]
        exact hnext materialized [] _ rfl rfl
      · simp only [hrefs, ne_eq, not_false_eq_true, if_true]
        exact .modify_bind (audit_given (ignoresAudit hactor) (hnext materialized refs _ rfl rfl))

/-- The pipeline on the call it was handed. -/
theorem postApproval_tracks (hactor : actors[i]? = some actor)
    (hhanded : Handed pre ctx.call ctx.bag.editNote) :
    Tracks s ok T actors i pre ctx (Pipeline.run (postApproval s []) : StepM σ ToolResult)
      fun _ _ marks => Adds pre marks := by
  rw [postApproval_nil]
  refine audited_given (ignoresAudit hactor) (.get_bind ?_)
  refine orRaise_given (fun errors _ => ?_) fun e _ => .refl pre
  by_cases hempty : errors = []
  swap
  · simp only [hempty, if_false]
    exact .throw (.refl pre)
  simp only [hempty, if_true]
  refine .lift_bind (note_traced hactor trivial) ?_
  rintro ⟨⟩ marks rfl
  have hvalidated : Adds pre (.validated ctx.call.arguments ctx.inputSchema :: pre) :=
    .cons rfl
  refine .mono (audited_given (ignoresAudit hactor) (materialize_tracks hactor (hhanded.adds hvalidated)
    fun arguments refs ctx' hcall hnote => ?_)) fun _ _ _ h => hvalidated.trans h
  have hresolved : Adds (.validated ctx.call.arguments ctx.inputSchema :: pre)
      (.resolved (.ok (arguments, refs)) :: .validated ctx.call.arguments ctx.inputSchema :: pre) :=
    .cons rfl
  have harguments : ctx'.call.arguments = arguments := by rw [hcall]
  have hhanded' : Handed (.resolved (.ok (arguments, refs)) :: .validated ctx.call.arguments
      ctx.inputSchema :: pre) ctx.call ctx'.bag.editNote := by
    rw [hnote]
    exact (hhanded.adds hvalidated).adds hresolved
  have hmem : .resolved (.ok (ctx'.call.arguments, refs)) ∈ Mark.resolved (.ok (arguments, refs)) ::
      .validated ctx.call.arguments ctx.inputSchema :: pre := by
    rw [harguments]
    exact List.mem_cons_self
  exact .mono (redact_tracks hactor (dispatch_tracks hactor hhanded' hmem (by rw [harguments, hcall])))
    fun _ _ _ h => hresolved.trans h

-- ============================================================================
-- The verdict
-- ============================================================================

theorem applyDecision_tracks (d : Decision) (hnote : ctx.bag.editNote = none) :
    Tracks s ok T actors i pre ctx (applyDecision d : StepM σ Unit) fun r ctx' marks => marks = pre ∧
      ((r = .ok () ∧ d.verdictOn ctx.call = .ok (ctx'.call, ctx'.bag.editNote)) ∨
        ∃ e, r = .error e ∧ d.verdictOn ctx.call = .error e) := by
  by_cases happroved : d.approved = true
  swap
  · rw [applyDecision, if_neg happroved]
    exact .throw ⟨rfl, Or.inr ⟨_, rfl, by rw [Decision.verdictOn, if_neg happroved]⟩⟩
  rw [applyDecision, if_pos happroved]
  refine .get_bind ?_
  by_cases hedits : d.edits ctx.call.arguments = true
  swap
  · rw [if_neg hedits]
    refine .pure ⟨rfl, Or.inl ⟨rfl, ?_⟩⟩
    rw [Decision.verdictOn, if_pos happroved, if_neg hedits, hnote]
  rw [if_pos hedits]
  refine orRaise_given (fun changed hchanged => ?_) fun e he => ⟨rfl, Or.inr ⟨_, rfl, ?_⟩⟩
  · refine Discipline.Triple.ret ⟨rfl, Or.inl ⟨rfl, ?_⟩⟩
    rw [Decision.verdictOn, if_pos happroved, if_pos hedits, hchanged]
  · rw [Decision.verdictOn, if_pos happroved, if_pos hedits, he]

/-- The claim of thread `i` failed: by then the ticket was claimed or had its result. -/
def ClaimFailed (s : Settings) (T : TrailOf Mark) (i : ℕ) (t : TicketId) (d : Decision) : Prop :=
  ∃ pre trail, Moment s T i pre trail ∧ .acted t d ∈ pre ∧
    ∀ c, cellOf t trail = some c → c.claimedAt.isSome ∨ c.result.isSome

/-- A verdict that stops the call is what the caller is told; any other leads it to claim
    the ticket. -/
def Decisive (s : Settings) (T : TrailOf Mark) (i : ℕ) (marks : List Mark)
    (r : Except Exc ToolResult) : Prop :=
  ∀ t d, .acted t d ∈ marks → ∃ call grant, .consulted call grant ∈ marks ∧
    (∀ e, d.verdictOn call = .error e → r = .error e) ∧
    ∀ handed, d.verdictOn call = .ok handed →
      (∃ now, .claimed t now ∈ marks) ∨ ClaimFailed s T i t d

omit [TicketStore σ] [LawfulTicketStore σ] in
theorem Decisive.of_unacted {marks : List Mark} {r : Except Exc ToolResult}
    (h : ∀ t d, .acted t d ∉ marks) : Decisive s T i marks r :=
  fun t d hm => absurd hm (h t d)

theorem lostClaim_tracks (hactor : actors[i]? = some actor) {t : TicketId} (lease : Time)
    (hserves : Serves actor t pre) :
    Tracks s ok T actors i pre ctx (lostClaim t lease : StepM σ ToolResult)
      fun _ _ marks => Adds pre marks := by
  have hclose : ∀ m : Mark, m.minor = true → Tracks s ok T actors i (m :: pre) ctx
      (do
        if ← Prog.lift (closeStaleClaim t lease interrupted) then return interrupted
        else throw (.gateway (.pendingApproval t)) : StepM σ ToolResult)
      fun _ _ marks => Adds pre marks := by
    intro m hm
    refine .lift_bind (closeStaleClaim_traced hactor (hserves.adds (.cons hm))) ?_
    intro closed marks hadds
    cases closed with
    | true => exact .pure ((Adds.cons hm).trans hadds)
    | false => exact .throw ((Adds.cons hm).trans hadds)
  refine .lift_bind (getTicket_traced hactor t) ?_
  rintro found marks (⟨ticket, rfl, rfl⟩ | ⟨rfl, rfl⟩)
  · cases hresult : ticket.result with
    | some r =>
        simp only [Option.bind_some, hresult]
        exact .pure (.cons rfl)
    | none =>
        simp only [Option.bind_some, hresult]
        exact hclose _ rfl
  · exact hclose _ rfl

/-- The execution of a claimed ticket. -/
theorem claimed_tracks (hactor : actors[i]? = some actor) {t : TicketId}
    (hhanded : Handed pre ctx.call ctx.bag.editNote) :
    Tracks s ok T actors i pre ctx
      (do
        let ctx ← get
        Prog.lift (note (.started t ctx.call.arguments))
        let result ← tryCatch (Pipeline.run (postApproval s [])) (keepError t)
        orRaise (← Prog.lift (completeTicket t (.ok result)))
        return result : StepM σ ToolResult)
      fun _ _ marks => Adds pre marks := by
  refine .get_bind (.lift_bind (note_traced hactor ⟨_, _, hhanded, rfl⟩) ?_)
  rintro ⟨⟩ marks' rfl
  have hstarted : Adds pre (.started t ctx.call.arguments :: pre) := .cons rfl
  have hstore : ∀ (outcome : Except GatewayError ToolResult) (marks : List Mark)
      (ctx' : CallContext) (f : Except PyError Unit → StepM σ ToolResult), Adds pre marks →
      (∀ r marks', Adds pre marks' → Tracks s ok T actors i marks' ctx' (f r) fun _ _ marks =>
        Adds pre marks) →
      Tracks s ok T actors i marks ctx' (Prog.lift (completeTicket t outcome) >>= f)
        fun _ _ marks => Adds pre marks := by
    intro outcome marks ctx' f hadds hf
    exact .lift_bind (completeTicket_traced hactor t outcome) fun r marks' h =>
      hf r marks' (hadds.trans h)
  have hrun : Tracks s ok T actors i (.started t ctx.call.arguments :: pre) ctx
      (tryCatch (Pipeline.run (postApproval s [])) (keepError t) : StepM σ ToolResult)
      fun _ _ marks => Adds pre marks := by
    refine .tryCatch (.mono (postApproval_tracks hactor (hhanded.adds hstarted))
      fun _ _ _ h => hstarted.trans h) (fun _ _ _ h => h) fun e ctx' marks hadds => ?_
    cases e with
    | gateway e =>
        refine hstore _ _ _ _ hadds fun r marks' hadds' => ?_
        exact orRaise_given (fun _ _ => .throw hadds') fun _ _ => hadds'
    | _ => exact .throw hadds
  refine .bind hrun (fun r ctx' marks hadds => ?_) fun _ _ _ h => h
  refine hstore _ _ _ _ hadds fun r' marks' hadds' => ?_
  exact orRaise_given (fun _ _ => .pure hadds') fun _ _ => hadds'

theorem runOnce_tracks (hactor : actors[i]? = some actor) {t : TicketId} (lease : Time)
    (hserves : Serves actor t pre) (hhanded : Handed pre ctx.call ctx.bag.editNote) :
    Tracks s ok T actors i pre ctx
      (runOnce t lease (Pipeline.run (postApproval s [])) : StepM σ ToolResult)
      fun _ _ marks => Adds pre marks ∧ ((∃ now, .claimed t now ∈ marks) ∨
        ∃ trail, Moment s T i pre trail ∧
          ∀ c, cellOf t trail = some c → c.claimedAt.isSome ∨ c.result.isSome) := by
  refine .lift_bind (claimTicket_traced hactor t) ?_
  rintro won marks (⟨rfl, now, rfl⟩ | ⟨rfl, rfl, hfailed⟩)
  · have hclaimed : Adds pre (.claimed t now :: pre) := .cons rfl
    refine .mono (claimed_tracks hactor (hhanded.adds hclaimed)) fun _ _ _ h => ?_
    exact ⟨hclaimed.trans h, Or.inl ⟨now, h.mem List.mem_cons_self⟩⟩
  · exact .mono (lostClaim_tracks hactor lease hserves) fun _ _ _ h => ⟨h, Or.inr hfailed⟩

/-- Past the verdict on a call that was granted. -/
theorem verdict_tracks (hactor : actors[i]? = some actor) {t : TicketId} {d : Decision}
    {grant : Grant} {k : Unit → StepM σ ToolResult} (hunacted : ∀ t' d', .acted t' d' ∉ pre)
    (hnote : ctx.bag.editNote = none) (hconsulted : .consulted ctx.call grant ∈ pre)
    (hserves : Serves actor t pre)
    (hk : ∀ ctx' post, Tracks s ok T actors i (.acted t d :: pre) ctx'
        (runOnce t s.gate.lease (Pipeline.run (postApproval s [])) : StepM σ ToolResult) post →
      Tracks s ok T actors i (.acted t d :: pre) ctx' (k ()) post) :
    Tracks s ok T actors i (.acted t d :: pre) ctx (applyDecision d >>= k)
      fun r _ marks => Adds (.acted t d :: pre) marks ∧ Decisive s T i marks r := by
  have hmem : Mark.consulted ctx.call grant ∈ .acted t d :: pre := List.mem_cons_of_mem _ hconsulted
  have honly : ∀ t' d', Mark.acted t' d' ∈ Mark.acted t d :: pre → t' = t ∧ d' = d := by
    intro t' d' hm
    rcases List.mem_cons.mp hm with heq | hm
    · cases heq
      exact ⟨rfl, rfl⟩
    · exact absurd hm (hunacted t' d')
  have hserves' : Serves actor t (.acted t d :: pre) := by
    rcases hserves with h | h | ⟨call, hcall, hm⟩
    · exact Or.inl h
    · exact Or.inr (Or.inl h)
    · exact Or.inr (Or.inr ⟨call, hcall, List.mem_cons_of_mem _ hm⟩)
  refine .bind (applyDecision_tracks d hnote) ?_ ?_
  · rintro ⟨⟩ ctx' marks ⟨rfl, ⟨-, hverdict⟩ | ⟨e, he, -⟩⟩
    · refine hk ctx' _ (.mono (runOnce_tracks hactor _ hserves'
        (.gated ctx.call _ _ grant t d hmem List.mem_cons_self hverdict)) ?_)
      rintro r _ marks ⟨hadds, hclaim⟩
      refine ⟨hadds, fun t' d' hm => ?_⟩
      obtain ⟨rfl, rfl⟩ := honly t' d' (hadds.acted hm)
      refine ⟨ctx.call, grant, hadds.mem hmem, fun e he => ?_, fun _ _ => ?_⟩
      · rw [hverdict] at he
        cases he
      · exact hclaim.imp_right fun ⟨trail, hmoment, htaken⟩ =>
          ⟨_, trail, hmoment, List.mem_cons_self, htaken⟩
    · cases he
  · rintro e ctx' marks ⟨rfl, ⟨he, -⟩ | ⟨e', he, hverdict⟩⟩
    · cases he
    · cases he
      refine ⟨.refl _, fun t' d' hm => ?_⟩
      obtain ⟨-, rfl⟩ := honly t' d' hm
      refine ⟨ctx.call, grant, hmem, fun e' he' => ?_, fun _ hok => ?_⟩
      · rw [hverdict] at he'
        cases he'
        rfl
      · rw [hverdict] at hok
        cases hok

-- ============================================================================
-- The gate
-- ============================================================================

theorem awaitDecision_tracks (hactor : actors[i]? = some actor) (t : TicketId) (deadline : Time)
    (rechecks : ℕ) :
    Tracks s ok T actors i pre ctx (awaitDecision t deadline rechecks : StepM σ Decision)
      fun r ctx' marks => ctx' = ctx ∧ Adds pre marks ∧ (∀ e, r = .error e → .missed t ∈ marks) ∧
        ∀ d, r = .ok d → Learned t d marks := by
  induction rechecks generalizing pre with
  | zero =>
      have hnever : (provenance σ ok actors).Triple i pre
          ((Co.atomic fun _ _ => none : Task σ Decision).given (Along s ok T)) fun _ _ => False :=
        traced_block _ hactor fun slot w x w' _ _ _ hb => by cases hb
      exact .lift hnever fun a marks h => h.elim
  | succ rechecks ih =>
      refine .lift_bind (getTicket_traced hactor t) ?_
      rintro found marks (⟨ticket, rfl, rfl⟩ | ⟨rfl, rfl⟩)
      swap
      · exact .throw ⟨rfl, .cons rfl, fun _ _ => List.mem_cons_self, fun d hd => by cases hd⟩
      have hread : Adds pre (.read t ticket :: pre) := .cons rfl
      by_cases hpending : ticket.decision.status = .pending
      swap
      · simp only [ne_eq, hpending, not_false_eq_true, if_true]
        refine .pure ⟨rfl, hread, nofun, fun d hd => ?_⟩
        cases hd
        exact Or.inr ⟨ticket, List.mem_cons_self, rfl⟩
      simp only [hpending, ne_eq, not_true_eq_false, if_false]
      refine .lift_bind (readClock_traced hactor) ?_
      rintro now marks rfl
      by_cases hdue : deadline - now ≤ 0
      · rw [if_pos hdue]
        refine .pure ⟨rfl, hread, nofun, fun d hd => ?_⟩
        cases hd
        exact Or.inl rfl
      rw [if_neg hdue]
      refine .lift_bind (traced_quiet hactor fun slot w x w' hb => by cases hb; rfl) ?_
      rintro ⟨⟩ marks rfl
      exact .mono ih fun _ _ _ h => ⟨h.1, hread.trans h.2.1, h.2.2⟩

theorem settle_tracks (hactor : actors[i]? = some actor) (t : TicketId) {awaited : Decision}
    (hlearned : Learned t awaited pre) :
    Tracks s ok T actors i pre ctx (settle t awaited : StepM σ Decision)
      fun r ctx' marks => ctx' = ctx ∧ Adds pre marks ∧ (∀ e, r = .error e → .missed t ∈ marks) ∧
        ∀ d, r = .ok d → Learned t d marks := by
  by_cases htimeout : awaited.status = .timeout
  swap
  · rw [settle, if_neg htimeout]
    refine .pure ⟨rfl, .refl pre, fun e he => ?_, fun d hd => ?_⟩
    · cases he
    · cases hd
      exact hlearned
  rw [settle, if_pos htimeout]
  refine .lift_bind (decideTicket_traced hactor t awaited) ?_
  intro won marks hadds
  cases won with
  | true =>
      refine .pure ⟨rfl, hadds, fun e he => ?_, fun d hd => ?_⟩
      · cases he
      · cases hd
        exact Or.inl htimeout
  | false =>
      refine .lift_bind (getTicket_traced hactor t) ?_
      rintro found marks' (⟨ticket, rfl, rfl⟩ | ⟨rfl, rfl⟩)
      · refine .pure ⟨rfl, hadds.trans (.cons rfl), fun e he => ?_, fun d hd => ?_⟩
        · cases he
        · cases hd
          exact Or.inr ⟨ticket, List.mem_cons_self, rfl⟩
      · exact .throw ⟨rfl, hadds.trans (.cons rfl), fun _ _ => List.mem_cons_self,
          fun d hd => by cases hd⟩

/-- A caller that filed a ticket got past its verdict, unless it found no ticket or was
    not to wait. -/
def Waited (actor : Actor) (marks : List Mark) : Prop :=
  ∀ t call, .created t call ∈ marks → (∃ d, .acted t d ∈ marks) ∨ .missed t ∈ marks ∨
    (∃ toolCall, actor = .call toolCall false) ∨
    ∃ grant, .consulted call grant ∈ marks ∧ grant.approvalMode = .async

/-- What a caller knows of its ticket in the end. -/
def CallEnds (s : Settings) (T : TrailOf Mark) (i : ℕ) (actor : Actor) (marks : List Mark)
    (r : Except Exc ToolResult) : Prop :=
  Decisive s T i marks r ∧ Waited actor marks

omit [TicketStore σ] [LawfulTicketStore σ] in
/-- Without a ticket there is nothing to know. -/
theorem CallEnds.of_adds {marks : List Mark} {r : Except Exc ToolResult}
    (hminor : ∀ m ∈ pre, m.minor = true) (h : Adds pre marks) : CallEnds s T i actor marks r := by
  constructor
  · intro t d hm
    cases hminor _ (h.acted hm)
  · intro t call hm
    cases hminor _ (h.major hm rfl)

/-- The wait for the verdict, and what follows. -/
theorem waiter_tracks (hactor : actors[i]? = some actor) {t : TicketId} {grant : Grant}
    (hcall : actor = .call ctx.call true) (hunacted : ∀ t' d', .acted t' d' ∉ pre)
    (hnote : ctx.bag.editNote = none) (hconsulted : .consulted ctx.call grant ∈ pre)
    (hcreated : .created t ctx.call ∈ pre) :
    Tracks s ok T actors i pre ctx
      (waitForVerdict s.gate t (Pipeline.run (postApproval s [])) : StepM σ ToolResult)
      fun r _ marks => Decisive s T i marks r ∧
        ((.missed t ∈ marks ∧ Adds pre marks) ∨
          ∃ d mid, Adds pre mid ∧ Adds (.acted t d :: mid) marks) := by
  have hundecided : ∀ {marks : List Mark} {r : Except Exc ToolResult}, Adds pre marks →
      Decisive s T i marks r := fun h => .of_unacted fun t d hm => hunacted t d (h.acted hm)
  refine .lift_bind (readClock_traced hactor) ?_
  rintro start marks rfl
  refine .bind (awaitDecision_tracks hactor t _ _) ?_ fun e ctx' marks h =>
    ⟨hundecided h.2.1, Or.inl ⟨h.2.2.1 e rfl, h.2.1⟩⟩
  rintro awaited ctx' marks ⟨rfl, hawaited, -, hlearned⟩
  refine .bind (settle_tracks hactor t (hlearned awaited rfl)) ?_ fun e ctx' marks' h =>
    ⟨hundecided (hawaited.trans h.2.1), Or.inl ⟨h.2.2.1 e rfl, hawaited.trans h.2.1⟩⟩
  rintro d ctx'' marks' ⟨rfl, hsettled, -, hsettles⟩
  have hadds := hawaited.trans hsettled
  have hserves : Serves actor t marks' := Or.inr (Or.inr ⟨ctx''.call, hcall, hadds.mem hcreated⟩)
  have hunacted' : ∀ t' d', Mark.acted t' d' ∉ marks' := fun t' d' hm =>
    hunacted t' d' (hadds.acted hm)
  refine audit_given (ignoresAudit hactor) (.lift_bind (note_traced hactor
    ⟨hserves, hunacted', hsettles d rfl⟩) ?_)
  rintro ⟨⟩ marks'' rfl
  refine .mono (verdict_tracks hactor hunacted' hnote (hadds.mem hconsulted) hserves
    fun _ _ h => h) fun r _ marks h => ?_
  exact ⟨h.2, Or.inr ⟨d, marks', hadds, h.1⟩⟩

omit [TicketStore σ] [LawfulTicketStore σ] in
/-- The ticket just filed is the only one of its thread. -/
theorem only_filed (hminor : ∀ m ∈ pre, m.minor = true) {t t' : TicketId} {call call' : ToolCall}
    {marks : List Mark} (h : Adds (.created t call :: pre) marks)
    (hm : .created t' call' ∈ marks) : t' = t ∧ call' = call := by
  rcases List.mem_cons.mp (h.major hm rfl) with heq | hm
  · cases heq
    exact ⟨rfl, rfl⟩
  · cases hminor _ hm

/-- The gate behind the notice, for a call whose ticket was just filed. -/
theorem fromNotice_tracks (hactor : actors[i]? = some actor) {t : TicketId} {grant : Grant}
    (hcall : actor = .call ctx.call ctx.canBlock) (hminor : ∀ m ∈ pre, m.minor = true)
    (hnote : ctx.bag.editNote = none) (hconsulted : .consulted ctx.call grant ∈ pre) :
    Tracks s ok T actors i (.created t ctx.call :: pre) ctx
      (fromNotice s.gate t grant.approvalMode ctx.canBlock (Pipeline.run (postApproval s [])) :
        StepM σ ToolResult)
      fun r _ marks => CallEnds s T i actor marks r := by
  have hfiled : ∀ t' d', Mark.acted t' d' ∉ Mark.created t ctx.call :: pre := fun t' d' hm =>
    (List.mem_cons.mp hm).elim (fun h => by cases h) fun h => by cases hminor _ h
  rw [fromNotice]
  by_cases hhandle : grant.approvalMode = .async ∨ ctx.canBlock = false
  · rw [if_pos hhandle]
    refine .throw ⟨.of_unacted hfiled, fun t' call hm => ?_⟩
    obtain ⟨-, rfl⟩ := only_filed hminor (.refl _) hm
    rcases hhandle with hasync | hnoblock
    · exact Or.inr (Or.inr (Or.inr ⟨grant, List.mem_cons_of_mem _ hconsulted, hasync⟩))
    · exact Or.inr (Or.inr (Or.inl ⟨ctx.call, hnoblock ▸ hcall⟩))
  rw [if_neg hhandle]
  have hblock : ctx.canBlock = true := by
    simpa using fun h => hhandle (Or.inr h)
  refine .mono (waiter_tracks hactor (hblock ▸ hcall) hfiled hnote
    (List.mem_cons_of_mem _ hconsulted) List.mem_cons_self) fun r _ marks h => ⟨h.1, ?_⟩
  intro t' call hm
  rcases h.2 with ⟨hmissed, hadds⟩ | ⟨d, mid, hmid, hadds⟩
  · obtain ⟨rfl, -⟩ := only_filed hminor hadds hm
    exact Or.inr (Or.inl hmissed)
  · have hin : Mark.created t' call ∈ mid := by
      simpa using hadds.major hm rfl
    obtain ⟨rfl, -⟩ := only_filed hminor hmid hin
    exact Or.inl ⟨d, hadds.mem List.mem_cons_self⟩

/-- The gate on a call that was granted. -/
theorem approvalGate_tracks (hactor : actors[i]? = some actor) {grant : Grant}
    (hcall : actor = .call ctx.call ctx.canBlock) (hminor : ∀ m ∈ pre, m.minor = true)
    (hnote : ctx.bag.editNote = none) (hgrant : ctx.grant = some grant)
    (hconsulted : .consulted ctx.call grant ∈ pre) (hfresh : ∀ t, .missed t ∉ pre) :
    Tracks s ok T actors i pre ctx
      ((ApprovalGate s.gate).handleCall (Pipeline.run (postApproval s [])) : StepM σ ToolResult)
      fun r _ marks => CallEnds s T i actor marks r := by
  have hunacted : ∀ t' d', Mark.acted t' d' ∉ pre := fun t' d' hm => by cases hminor _ hm
  refine .get_bind ?_
  simp only [hgrant, Option.map_some, Option.getD_some]
  by_cases hauto : grant.approvalMode = .auto
  · rw [if_pos hauto]
    refine .mono (postApproval_tracks hactor ?_) fun _ _ _ h => .of_adds hminor h
    rw [hnote]
    exact .ungated ctx.call grant hconsulted hunacted
  rw [if_neg hauto]
  refine .lift_bind (createTicket_traced hactor hcall hconsulted hfresh) ?_
  rintro created marks (⟨t, rfl, rfl⟩ | ⟨⟨e, rfl⟩, hmarks⟩)
  swap
  · rw [hmarks]
    exact .throw (.of_adds hminor (.refl pre))
  refine orRaise_given (fun a ha => ?_) fun e he => by cases he
  cases ha
  refine audit_given (ignoresAudit hactor) ?_
  have hgate : Tracks s ok T actors i (.created t ctx.call :: pre) ctx
      (fromNotice s.gate t grant.approvalMode ctx.canBlock (Pipeline.run (postApproval s [])) :
        StepM σ ToolResult)
      fun r _ marks => CallEnds s T i actor marks r :=
    fromNotice_tracks hactor hcall hminor hnote hconsulted
  by_cases hnotifies : s.gate.notifies = true
  · rw [if_pos hnotifies]
    refine .lift_bind (traced_quiet hactor fun slot w x w' hb => by cases hb; rfl) ?_
    rintro failure marks hmarks
    rw [hmarks]
    cases failure with
    | some error => exact audit_given (ignoresAudit hactor) hgate
    | none => exact hgate
  · rw [if_neg hnotifies]
    exact hgate

-- ============================================================================
-- Entry points
-- ============================================================================

/-- The full pipeline on a call that just arrived. -/
theorem full_tracks (hactor : actors[i]? = some actor) {toolCall : ToolCall}
    {canBlock : Bool} (hcall : actor = .call toolCall canBlock) :
    Tracks s ok T actors i [] { call := toolCall, canBlock := canBlock }
      (Pipeline.run (full s []) : StepM σ ToolResult) fun r _ marks =>
        CallEnds s T i actor marks r := by
  have hnothing : ∀ {r : Except Exc ToolResult}, CallEnds s T i actor [] r :=
    .of_adds (fun m hm => absurd hm List.not_mem_nil) (.refl [])
  have hauthorized : Tracks s ok T actors i [] { call := toolCall, canBlock := canBlock }
      (Pipeline.run (audited Authorize "authorize" :: audited (ApprovalGate s.gate) "approval" ::
        postApproval s []) : StepM σ ToolResult) fun r _ marks => CallEnds s T i actor marks r := by
    refine audited_given (ignoresAudit hactor) (.get_bind (.lift_bind (grantFor_traced hactor fun grant =>
      Or.inl ⟨canBlock, hcall⟩) ?_))
    rintro answer marks (⟨grant, rfl, rfl⟩ | ⟨hanswer, hmarks, -⟩)
    · refine orRaise_given (fun found hfound => ?_) fun e he => by cases he
      cases hfound
      refine .modify_bind (audit_given (ignoresAudit hactor) (audited_given (ignoresAudit hactor) ?_))
      exact approvalGate_tracks hactor hcall (by simp [Mark.minor]) rfl rfl List.mem_cons_self
        (by simp)
    · rw [hmarks]
      refine orRaise_given (fun found hfound => ?_) fun e _ => hnothing
      cases found with
      | none => exact .throw hnothing
      | some grant => exact absurd hfound (hanswer grant)
  rw [full_nil]
  cases hlimited : s.limited with
  | false => exact hauthorized
  | true =>
      refine audited_given (ignoresAudit hactor) (.get_bind (.lift_bind
        (traced_quiet hactor fun slot w x w' hb => by cases hb; rfl) ?_))
      rintro admitted marks hmarks
      rw [hmarks]
      cases admitted with
      | true => exact hauthorized
      | false => exact .throw hnothing

theorem call_tracks (hactor : actors[i]? = some actor) {toolCall : ToolCall}
    {canBlock : Bool} (hcall : actor = .call toolCall canBlock) :
    Tracks s ok T actors i [] () (call s [] toolCall canBlock : GatewayM σ Reply)
      fun reply _ marks => ∃ r, reply = callReply r ∧ CallEnds s T i actor marks r := by
  have hrun : Tracks s ok T actors i [] { call := toolCall, canBlock := canBlock }
      (do return .result (← Pipeline.run (full s [])) : StepM σ Reply) fun reply _ marks =>
        ∃ r : Except Exc ToolResult, reply = r.map Reply.result ∧ CallEnds s T i actor marks r := by
    refine .bind (full_tracks hactor hcall) (fun r ctx' marks h => ?_) fun e ctx' marks h => ?_
    · exact .pure ⟨.ok r, rfl, h⟩
    · exact ⟨.error e, rfl, h⟩
  refine within_given (.tryCatch hrun ?_ ?_) fun r ctx' marks
    (h : ∃ x, r = callReply x ∧ CallEnds s T i actor marks x) => h
  · rintro reply ctx' marks ⟨r, hr, hends⟩
    cases r with
    | ok a => exact ⟨.ok a, hr, hends⟩
    | error e => cases hr
  · rintro e ctx' marks ⟨r, hr, hends⟩
    cases r with
    | ok a => cases hr
    | error e' =>
        cases hr
        split
        · next t => exact .pure ⟨_, rfl, hends⟩
        · next hne =>
            refine .throw ⟨_, ?_, hends⟩
            rw [callReply]
            exact hne

/-- A resumer found no ticket, or first read one that had its result or no verdict or a
    call that the policy did not grant, or else it got past the verdict. -/
def Resumed (s : Settings) (T : TrailOf Mark) (i : ℕ) (t : TicketId) (pre marks : List Mark) :
    Prop :=
  .missed t ∈ marks ∨ ∃ ticket new, marks = new ++ .read t ticket :: pre ∧
    (ticket.result.isSome ∨ ticket.decision.status = .pending ∨ .acted t ticket.decision ∈ marks ∨
      ∃ trail, Moment s T i (.read t ticket :: pre) trail ∧
        ∀ grant, inForce trail ticket.call ≠ .ok (some grant))

theorem resume_tracks (hactor : actors[i]? = some actor) {t : TicketId}
    (hserves : actor = .resume t ∨ ∃ agentId, actor = .check agentId t)
    (hunacted : ∀ t' d, .acted t' d ∉ pre) :
    Tracks s ok T actors i pre () (resume s [] t : GatewayM σ ToolResult)
      fun r _ marks => Decisive s T i marks r ∧ Resumed s T i t pre marks := by
  have hundecided : ∀ {marks : List Mark} {r : Except Exc ToolResult}, Adds pre marks →
      Decisive s T i marks r := fun h => .of_unacted fun t' d hm => hunacted t' d (h.acted hm)
  refine .lift_bind (getTicket_traced hactor t) ?_
  rintro found marks (⟨ticket, rfl, rfl⟩ | ⟨rfl, rfl⟩)
  swap
  · exact .throw ⟨hundecided (.cons rfl), Or.inl List.mem_cons_self⟩
  have hread : Adds pre (.read t ticket :: pre) := .cons rfl
  cases hresult : ticket.result with
  | some r =>
      simp only [hresult]
      refine .pure ⟨hundecided hread, Or.inr ⟨ticket, [], rfl, Or.inl ?_⟩⟩
      rw [hresult]
      rfl
  | none =>
      by_cases hpending : ticket.decision.status = .pending
      · simp only [hresult, hpending, if_true]
        exact .throw ⟨hundecided hread, Or.inr ⟨ticket, [], rfl, Or.inr (Or.inl hpending)⟩⟩
      simp only [hresult, hpending, if_false]
      refine .lift_bind (grantFor_traced hactor fun grant =>
        Or.inr ⟨t, ticket, hserves, List.mem_cons_self, rfl⟩) ?_
      rintro answer marks (⟨grant, rfl, rfl⟩ | ⟨hanswer, hmarks, hrefused⟩)
      swap
      · rw [hmarks]
        have hresumed : Resumed s T i t pre (.read t ticket :: pre) :=
          Or.inr ⟨ticket, [], rfl, Or.inr (Or.inr (Or.inr hrefused))⟩
        refine orRaise_given (fun granted hgranted => ?_) fun e _ => ⟨hundecided hread, hresumed⟩
        cases granted with
        | none => exact .throw ⟨hundecided hread, hresumed⟩
        | some grant => exact absurd hgranted (hanswer grant)
      refine orRaise_given (fun granted hgranted => ?_) fun e he => by cases he
      cases hgranted
      have hserves' : Serves actor t (.consulted ticket.call grant :: .read t ticket :: pre) :=
        hserves.imp id Or.inl
      have hconsulted : Adds pre (.consulted ticket.call grant :: .read t ticket :: pre) :=
        hread.trans (.cons rfl)
      have hunacted' : ∀ t' d', Mark.acted t' d' ∉
          Mark.consulted ticket.call grant :: .read t ticket :: pre := fun t' d' hm =>
        hunacted t' d' (hconsulted.acted hm)
      have hlearned : Learned t ticket.decision
          (.consulted ticket.call grant :: .read t ticket :: pre) := Or.inr ⟨ticket, by simp, rfl⟩
      refine within_given (.lift_bind (note_traced hactor ⟨hserves', hunacted', hlearned⟩) ?_)
        fun r ctx' marks (h : Decisive s T i marks r ∧ Resumed s T i t pre marks) => h
      rintro ⟨⟩ marks' rfl
      refine .mono (verdict_tracks hactor hunacted' rfl List.mem_cons_self hserves'
        fun _ _ h => audit_given (ignoresAudit hactor) h) fun r _ marks h => ⟨h.2, Or.inr ⟨ticket, ?_⟩⟩
      obtain ⟨⟨new, hnew, -⟩, -⟩ := h
      refine ⟨new ++ [.acted t ticket.decision, .consulted ticket.call grant], by simp [hnew],
        Or.inr (Or.inr (Or.inl ?_))⟩
      rw [hnew]
      exact List.mem_append_right _ List.mem_cons_self

theorem check_tracks (hactor : actors[i]? = some actor) {agentId : String}
    {t : TicketId} (hcheck : actor = .check agentId t) :
    Tracks s ok T actors i [] () (check s [] agentId t : GatewayM σ Reply) fun _ _ _ => True := by
  refine .lift_bind (getTicket_traced hactor t) ?_
  rintro found marks (⟨ticket, rfl, rfl⟩ | ⟨rfl, rfl⟩)
  swap
  · exact .throw trivial
  by_cases hagent : ticket.call.agentId = agentId
  swap
  · simp only [hagent, ne_eq, not_false_eq_true, if_true]
    exact .throw trivial
  simp only [hagent, ne_eq, not_true_eq_false, if_false]
  by_cases hpending : ticket.decision.status = .pending
  · simp only [hpending, if_true]
    exact .pure trivial
  simp only [hpending, if_false]
  have hresume : Tracks s ok T actors i [.read t ticket] ()
      (do return .result (← resume s [] t) : GatewayM σ Reply) fun _ _ _ => True :=
    .bind (resume_tracks hactor (Or.inr ⟨agentId, hcheck⟩) (by simp)) (fun _ _ _ _ => .pure trivial)
      fun _ _ _ _ => trivial
  refine .tryCatch hresume (fun _ _ _ _ => trivial) fun e _ marks _ => ?_
  cases e with
  | gateway e => cases e <;> first | exact .pure trivial | exact .throw trivial
  | _ => exact .throw trivial

theorem decide_tracks (hactor : actors[i]? = some actor) (t : TicketId) (d : Decision) :
    Tracks s ok T actors i [] () (ToolGateway.decide t d : GatewayM σ Reply) fun _ _ _ => True := by
  by_cases hstatus : d.status = .approved ∨ d.status = .rejected
  swap
  · rw [ToolGateway.decide, if_neg hstatus]
    exact .throw trivial
  rw [ToolGateway.decide, if_pos hstatus]
  refine .lift_bind (getTicket_traced hactor t) ?_
  rintro found marks (⟨ticket, rfl, rfl⟩ | ⟨rfl, rfl⟩)
  swap
  · exact .throw trivial
  refine .lift_bind (decideTicket_traced hactor t d) ?_
  intro won marks _
  cases won with
  | false => exact .throw trivial
  | true =>
      refine .lift_bind (traced_quiet hactor fun slot w x w' hb => by cases hb; rfl) ?_
      intro _ marks' _
      refine .lift_bind (auditEvent_traced hactor _ _ _) ?_
      intro _ marks'' _
      exact .pure trivial

theorem setPolicy_tracks {grants : GrantResolver} (hactor : actors[i]? = some (.setPolicy grants)) :
    Tracks s ok T actors i [] () (setPolicy grants : GatewayM σ Reply) fun _ _ _ => True := by
  refine .lift_bind (traced_block (fun _ _ => True) hactor fun slot w x w' _ _ hme hb => ?_) ?_
  · cases hb
    subst hme
    exact Or.inr ⟨_, rfl, rfl, trivial⟩
  · intro _ marks _
    exact .pure trivial

/-- What is known of an actor that is through. -/
def Actor.Decides (s : Settings) (T : TrailOf Mark) (i : ℕ) (actor : Actor)
    (reply : Except Exc Reply) (marks : List Mark) : Prop :=
  match actor with
  | .call .. => ∃ r, reply = actor.tells r ∧ CallEnds s T i actor marks r
  | .resume t => ∃ r, reply = actor.tells r ∧ Decisive s T i marks r ∧ Resumed s T i t [] marks
  | _ => True

theorem Actor.program_tracks (hactor : actors[i]? = some actor) :
    (provenance σ ok actors).Triple i [] ((actor.program s).given (Along s ok T))
      fun reply marks => actor.Decides s T i reply marks := by
  have hentry : Tracks s ok T actors i [] () (actor.entry s : GatewayM σ Reply)
      fun reply _ marks => actor.Decides s T i reply marks := by
    cases actor with
    | call toolCall canBlock => exact call_tracks hactor rfl
    | resume t =>
        refine .bind (resume_tracks hactor (Or.inl rfl) (by simp)) (fun r _ marks h => ?_)
          fun e _ marks h => ?_
        · exact .pure ⟨.ok r, rfl, h⟩
        · exact ⟨.error e, rfl, h⟩
    | check agentId t => exact check_tracks hactor rfl
    | decide t d => exact decide_tracks hactor t d
    | setPolicy grants => exact setPolicy_tracks hactor
  show (provenance σ ok actors).Triple i [] (Co.given _ ((actor.entry s).exec () >>= _)) _
  rw [Co.given_bind]
  refine Discipline.Triple.bind hentry ?_
  rintro ⟨reply, _⟩ marks hdecides
  exact Discipline.Triple.ret hdecides

end

-- ============================================================================
-- Every run
-- ============================================================================

section
variable {es : List (Event Input)}

/-- What the ledger says at each step of a run. -/
theorem known_along (hok : ∀ i input, .step i input ∈ es → ok input) {es₁ es₂ : List (Event Input)}
    {e : Event Input} (hes : es = es₁ ++ e :: es₂) :
    ((gateway σ s actors).run es₁).Known (Along s ok (worldAfter σ s actors es).trail) e := by
  cases e with
  | kill i => trivial
  | step i input =>
      obtain ⟨hlegal, hagrees, -⟩ := gateway_run σ s actors es₁
      obtain ⟨new, hnew⟩ := run_grows σ s actors es₁ (.step i input :: es₂)
      refine ⟨hok i input (by simp [hes]), ⟨hlegal, hagrees⟩, new, ?_⟩
      rw [hes, hnew]
      rfl

variable (σ s actors) in
/-- Every run whose inputs are of the kind keeps the discipline. -/
theorem provenance_run (hok : ∀ i input, .step i input ∈ es → ok input) :
    Legal (provenance σ ok actors).guard (worldAfter σ s actors es).trail ∧
      ∀ i reply, toldAfter σ s actors es i = some reply → ∀ actor, actors[i]? = some actor →
        actor.Decides s (worldAfter σ s actors es).trail i reply
          (own i (worldAfter σ s actors es).trail) := by
  have hthreads : ∀ i co, ((gateway σ s actors).given
      (Along s ok (worldAfter σ s actors es).trail)).threads[i]? = some (some co) →
      (provenance σ ok actors).Triple i [] co fun reply marks => ∀ actor, actors[i]? = some actor →
        actor.Decides s (worldAfter σ s actors es).trail i reply marks := by
    intro i co hi
    rw [Config.getElem?_given] at hi
    obtain ⟨t, ht, hco⟩ := Option.map_eq_some_iff.mp hi
    obtain ⟨co₀, rfl, rfl⟩ := Option.map_eq_some_iff.mp hco
    rw [gateway, List.getElem?_map, Option.map_eq_some_iff] at ht
    obtain ⟨actor, hactor, hprogram⟩ := ht
    cases hprogram
    refine (actor.program_tracks hactor).mono fun reply marks hdecides actor' hactor' => ?_
    rw [hactor] at hactor'
    cases hactor'
    exact hdecides
  have hrun := Discipline.run (D := provenance σ ok actors)
    (c := (gateway σ s actors).given (Along s ok (worldAfter σ s actors es).trail)) trivial rfl
    hthreads es
  rw [Config.run_given _ fun es₁ e es₂ hes => known_along hok hes] at hrun
  refine ⟨hrun.1, fun i reply htold => hrun.2.2 i reply ?_⟩
  rw [Config.outcome_given]
  exact htold

omit [TicketStore σ] [LawfulTicketStore σ] in
/-- What a thread had done when it made one of its marks. -/
theorem traced_of_own {trail : TrailOf Mark} (h : Legal (provenance σ ok actors).guard trail)
    (hactor : actors[i]? = some actor) {m : Mark} {later before : List Mark}
    (hown : own i trail = later ++ m :: before) : Traced ok actor m before := by
  obtain ⟨new, old, rfl, -, hold⟩ := own_split hown
  obtain ⟨actor', hactor', htraced⟩ := h.of_append.1
  rw [hactor] at hactor'
  cases hactor'
  rw [← hold]
  exact htraced

omit [TicketStore σ] [LawfulTicketStore σ] in
theorem traced_of_mem {trail : TrailOf Mark} (h : Legal (provenance σ ok actors).guard trail)
    (hactor : actors[i]? = some actor) {m : Mark} (hm : (i, m) ∈ trail) :
    ∃ before, (∀ m' ∈ before, (i, m') ∈ trail) ∧ Traced ok actor m before := by
  obtain ⟨later, before, hown⟩ := List.append_of_mem (mem_own.mpr hm)
  refine ⟨before, fun m' hm' => mem_own.mp ?_, traced_of_own h hactor hown⟩
  rw [hown]
  exact List.mem_append_right _ (List.mem_cons_of_mem _ hm')

omit [TicketStore σ] [LawfulTicketStore σ] in
/-- Marks are made by actors. -/
theorem actor_of_mem {trail : TrailOf Mark} (h : Legal (provenance σ ok actors).guard trail)
    {m : Mark} (hm : (i, m) ∈ trail) : ∃ actor, actors[i]? = some actor := by
  obtain ⟨later, before, rfl, ⟨actor, hactor, -⟩, -⟩ := h.split hm
  exact ⟨actor, hactor⟩

end

end ToolGateway
