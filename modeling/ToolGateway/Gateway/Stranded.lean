/-
  ToolGateway.Gateway.Stranded

  Claims left without a result.  `run_once` stores the outcome of a pipeline that
  ends with a result or a GatewayError.  Any other exception passes through it,
  and the claim stays until it is closed as stale: whatever the pipeline is, whoever
  raises it, and a cancellation too.  In the gateway's own pipeline this is what
  happens exactly when the validator, the secret store or the redactor raise one.
-/

import ToolGateway.Coroutine.Paths
import ToolGateway.Gateway.Polling
import ToolGateway.Policy.Compile

namespace ToolGateway

open Coroutine Py

/-- The pipeline ended with a result or a GatewayError. -/
def EndsHandled (r : Except Exc ToolResult) : Prop := ∀ e, r = .error e → e.foreign = false

theorem endsHandled_iff {r : Except Exc ToolResult} : EndsHandled r ↔ ∃ outcome, r = handedOn outcome := by
  constructor
  · intro h
    cases r with
    | ok x => exact ⟨.ok x, rfl⟩
    | error e =>
        cases e with
        | gateway e => exact ⟨.error e, rfl⟩
        | _ => cases h _ rfl
  · rintro ⟨outcome, rfl⟩ e he
    cases outcome with
    | ok x => cases he
    | error e' =>
        cases he
        rfl

-- ============================================================================
-- Any pipeline
-- ============================================================================

section
variable {σ : Type} [TicketStore σ]

/-- The result the store has for the ticket. -/
def resultIn (t : TicketId) (w : World σ) : Option ToolResult :=
  (TicketStore.get w.tickets t).bind Ticket.result

variable [LawfulTicketStore σ] {t : TicketId} {ctx ctx' : CallContext}
  {ds : List (Doing Input (World σ))}

/-- A known ticket takes its result. -/
theorem takes_completeTicket {outcome : Except GatewayError ToolResult} {x : Except PyError Unit}
    (h : (completeTicket t outcome).Takes ds x)
    (hknown : ∀ d ∈ ds, (TicketStore.get d.before.tickets t).isSome) :
    ∃ d, ds = [d] ∧ x = .ok () ∧ resultIn t d.after = some (storedResult outcome) := by
  obtain ⟨⟨slot, w, w'⟩, _, _, rfl, hb, rfl, rfl⟩ := h
  refine ⟨_, rfl, ?_⟩
  obtain ⟨ticket, hget⟩ := Option.isSome_iff_exists.mp (hknown _ List.mem_cons_self)
  rw [LawfulTicketStore.get_eq, Option.map_eq_some_iff] at hget
  obtain ⟨c, hc, -⟩ := hget
  obtain ⟨tickets, hcomplete, hcells⟩ :=
    LawfulTicketStore.complete_known w.tickets t (storedResult outcome) c hc
  beta_reduce at hb
  rw [hcomplete] at hb
  obtain ⟨rfl, hafter⟩ := Prod.mk.inj (Option.some.inj hb)
  refine ⟨rfl, ?_⟩
  rw [← hafter]
  show (TicketStore.get tickets t).bind Ticket.result = _
  rw [LawfulTicketStore.get_eq, hcells, Function.update_self]
  rfl

omit [LawfulTicketStore σ] in
/-- The claim is one step, and tells whether it was won. -/
theorem takes_claim {x : Bool} (h : (claimTicket t : Task σ Bool).Takes ds x) :
    ∃ d, ds = [d] ∧ x = (TicketStore.claim d.before.tickets t d.slot.input.now).1 := by
  obtain ⟨⟨slot, w, w'⟩, _, _, rfl, hb, rfl, rfl⟩ := h
  refine ⟨_, rfl, ?_⟩
  beta_reduce at hb
  cases hclaim : TicketStore.claim w.tickets t slot.input.now with
  | mk won tickets =>
      rw [hclaim] at hb
      cases won with
      | true => exact (Prod.mk.inj (Option.some.inj hb)).1.symm
      | false => exact (Prod.mk.inj (Option.some.inj hb)).1.symm

/-- Past the claim: the pipeline, then one step that stores its outcome, or none. -/
theorem takes_runOnce_won {lease : Time} {run : StepM σ ToolResult} {told : Except Exc ToolResult}
    {won : Doing Input (World σ)}
    (h : ((runOnce t lease run).exec ctx).Takes (won :: ds) (told, ctx'))
    (hwon : (TicketStore.claim won.before.tickets t won.slot.input.now).1 = true)
    (hknown : ∀ d ∈ ds, (TicketStore.get d.before.tickets t).isSome) :
    ∃ begun inside r ctx₁ stored, ds = begun :: (inside ++ stored) ∧
      (run.exec ctx).Takes inside (r, ctx₁) ∧
      ((∃ outcome d, r = handedOn outcome ∧ stored = [d] ∧
          resultIn t d.after = some (storedResult outcome)) ∨ ¬ EndsHandled r ∧ stored = []) := by
  obtain ⟨ds₁, x, ds₂, hds, hclaim, h₁⟩ := Prog.takes_lift_bind.mp h
  obtain ⟨d, rfl, rfl⟩ := takes_claim hclaim
  obtain ⟨rfl, rfl⟩ := List.cons.inj hds
  rw [if_pos hwon] at h₁
  obtain ⟨ds₃, _, ds₄, rfl, hnote, h₂⟩ := Prog.takes_lift_bind.mp h₁
  obtain ⟨begun, rfl⟩ := List.length_eq_one_iff.mp (Co.takes_atomic hnote)
  rw [Prog.tryCatch_eq_attempt] at h₂
  obtain ⟨ds₅, y, ctx₂, ds₆, rfl, htried, h₃⟩ := Prog.takes_bind.mp h₂
  rw [Prog.exec_attempt] at htried
  obtain ⟨inside, ⟨r, ctx₁⟩, caught, rfl, hrun, hcaught⟩ := Co.takes_bind.mp htried
  have hsteps : ∀ d ∈ caught ++ ds₆, (TicketStore.get d.before.tickets t).isSome := fun d hd =>
    hknown d (by simp only [List.mem_append] at hd ⊢; tauto)
  refine ⟨begun, inside, r, ctx₁, caught ++ ds₆, by simp, hrun, ?_⟩
  by_cases hkept : EndsHandled r
  · obtain ⟨outcome, rfl⟩ := endsHandled_iff.mp hkept
    refine Or.inl ⟨outcome, ?_⟩
    cases outcome with
    | ok x =>
        -- a result: stored behind the `try`
        obtain ⟨rfl, heq⟩ := hcaught
        obtain ⟨rfl, rfl⟩ := Prod.mk.inj heq
        obtain ⟨a, ha, h₄⟩ | ⟨e, he, -⟩ := h₃
        · obtain rfl := Except.ok.inj ha
          obtain ⟨ds₇, answer, ds₈, rfl, hcomplete, h₅⟩ := Prog.takes_lift_bind.mp h₄
          obtain ⟨d, rfl, rfl, hstored⟩ := takes_completeTicket hcomplete fun d hd =>
            hsteps d (by simp [hd])
          obtain ⟨rfl, -⟩ := h₅
          exact ⟨d, rfl, by simp, hstored⟩
        · cases he
    | error e =>
        -- a GatewayError: stored by the handler, and raised again
        obtain ⟨ds₇, answer, ds₈, rfl, hcomplete, h₅⟩ := Prog.takes_lift_bind.mp hcaught
        obtain ⟨d, rfl, rfl, hstored⟩ := takes_completeTicket hcomplete fun d hd =>
          hsteps d (by simp [hd])
        obtain ⟨rfl, heq⟩ := h₅
        obtain ⟨rfl, rfl⟩ := Prod.mk.inj heq
        obtain ⟨a, ha, -⟩ | ⟨e', -, rfl, -⟩ := h₃
        · cases ha
        · exact ⟨d, rfl, by simp, hstored⟩
  · refine Or.inr ⟨hkept, ?_⟩
    obtain ⟨e, rfl, hforeign⟩ : ∃ e : Exc, r = .error e ∧ e.foreign = true := by
      by_contra hno
      exact hkept fun e he => Bool.eq_false_iff.mpr fun hforeign => hno ⟨e, he, hforeign⟩
    have hthrown : (Prog.rescued (keepError t) (.error e) : StepM σ ToolResult) = throw e := by
      cases e with
      | gateway e => cases hforeign
      | _ => rfl
    rw [hthrown] at hcaught
    obtain ⟨rfl, heq⟩ := hcaught
    obtain ⟨rfl, rfl⟩ := Prod.mk.inj heq
    obtain ⟨a, ha, -⟩ | ⟨e', -, rfl, -⟩ := h₃
    · cases ha
    · rfl

/-- The world that a thread leaves with the last of its steps. -/
def leftBy (first : Doing Input (World σ)) (ds : List (Doing Input (World σ))) : World σ :=
  (ds.getLastD first).after

/-- A caller that won the claim leaves the ticket with a result exactly if its pipeline
    was kept, or left the ticket with one. -/
theorem executor_result_iff {lease : Time} {run : StepM σ ToolResult}
    {c : Config Input (World σ) (Except Exc ToolResult × CallContext)} {i : ℕ}
    {es : List (Event Input)} {told : Except Exc ToolResult × CallContext}
    {won : Doing Input (World σ)}
    (hthread : c.threads[i]? = some (some ((runOnce t lease run).exec ctx)))
    (hleft : (c.run es).outcome i = some told) (hdoings : c.doings i es = won :: ds)
    (hwon : (TicketStore.claim won.before.tickets t won.slot.input.now).1 = true)
    (hknown : ∀ d ∈ ds, (TicketStore.get d.before.tickets t).isSome) :
    ∃ begun inside stored r ctx₁, ds = begun :: (inside ++ stored) ∧
      (run.exec ctx).Takes inside (r, ctx₁) ∧
      ((resultIn t (leftBy won ds)).isSome ↔
        EndsHandled r ∨ (resultIn t (leftBy begun inside)).isSome) := by
  have htakes := Config.takes_doings hthread hleft
  rw [hdoings] at htakes
  obtain ⟨begun, inside, r, ctx₁, stored, rfl, hrun, hends⟩ := takes_runOnce_won htakes hwon hknown
  refine ⟨begun, inside, stored, r, ctx₁, rfl, hrun, ?_⟩
  obtain ⟨outcome, d, hr, rfl, hstored⟩ | ⟨hforeign, rfl⟩ := hends
  · have hlast : leftBy won (begun :: (inside ++ [d])) = d.after := by
      rw [leftBy, ← List.cons_append, List.getLastD_concat]
    rw [hlast, hstored]
    exact iff_of_true rfl (Or.inl (endsHandled_iff.mpr ⟨outcome, hr⟩))
  · have hlast : leftBy won (begun :: (inside ++ [])) = leftBy begun inside := by
      rw [List.append_nil, leftBy, List.getLastD_cons, leftBy]
    rw [hlast]
    exact ⟨Or.inr, fun h => h.resolve_left hforeign⟩

end

/-- Neither the validator nor the secret resolver raised anything but a GatewayError
    on what thread `i` gave them for ticket `t`. -/
structure Contained (s : Settings) (i : ℕ) (t : TicketId) (trail : TrailOf Mark) : Prop where
  validator : ∀ arguments call grant e, (i, .started t arguments) ∈ trail →
    (i, .consulted call grant) ∈ trail → s.checkArgs arguments grant.inputSchema ≠ .error e
  materialize : ∀ e : Exc, (i, .resolved (.error e)) ∈ trail → e.foreign = false
  redact : ∀ call grant r e, (i, .consulted call grant) ∈ trail → (i, .returned r) ∈ trail →
    s.redact r call.upstreamId = .error e → e.foreign = false

theorem foreign_of_handedOn {outcome : Except GatewayError ToolResult} {e : Exc}
    (h : handedOn outcome = .error e) : e.foreign = false := by
  cases outcome with
  | ok r => cases h
  | error e' =>
      cases h
      rfl

/-- The pipeline ends with an exception of another kind exactly when one of its
    services raised it. -/
theorem Ended.foreign_iff {s : Settings} {call : ToolCall} {schema : Json} {editNote : Option String}
    {new : List Mark} {r : Except Exc ToolResult} (h : Ended s call schema editNote new r) :
    (∃ e : Exc, r = .error e ∧ e.foreign = true) ↔
      (∃ e, s.checkArgs call.arguments schema = .error e) ∨
      (∃ e : Exc, .resolved (.error e) ∈ new ∧ e.foreign = true) ∨
      ∃ x, ∃ e : Exc, .returned x ∈ new ∧ s.redact x call.upstreamId = .error e ∧
        e.foreign = true := by
  cases h with
  | unchecked e hcheck => simp [hcheck, Exc.foreign]
  | invalid errors hcheck => simp [hcheck, Exc.foreign]
  | unresolved e hcheck => simp [hcheck]
  | unavailable arguments refs typeName text hcheck => simp [hcheck, Exc.foreign]
  | answered arguments refs x elapsed hcheck => simp [hcheck]

/-- An execution in which every service kept to GatewayErrors. -/
theorem Executed.contained_iff {s : Settings} {t : TicketId} {i : ℕ} {trail : TrailOf Mark}
    {r : Except Exc ToolResult} (hlegal : Legal (Allowed s) trail)
    (h : Executed s t (own i trail) r) :
    Contained s i t trail ↔ ¬ ∃ e : Exc, r = .error e ∧ e.foreign = true := by
  generalize hmarks : own i trail = marks at h
  have hown : ∀ m, (i, m) ∈ trail ↔ m ∈ marks := fun m => by rw [← hmarks, mem_own]
  obtain ⟨base, new, stored, now, call, d, grant, editNote, r, hpassive, hconsulted, hended,
    hstored⟩ := h
  have hinside : ∀ m, m.inside = true → ((i, m) ∈ trail ↔ m ∈ new) := by
    intro m hm
    have hbase : m ∉ base := fun hmem => by
      have hidle := hpassive m hmem
      cases m <;> first | (cases hm; done) | cases hidle
    have hout : m ∉ stored := fun hmem => by
      rcases hstored with ⟨rfl, -⟩ | ⟨outcome, rfl, -⟩
      · cases hmem
      · rw [List.mem_singleton.mp hmem] at hm
        cases hm
    rw [hown]
    simp only [List.mem_append, List.mem_cons, hbase, hout, or_false, false_or]
    refine ⟨fun hm' => ?_, Or.inl⟩
    rcases hm' with hnew | rfl | rfl
    · exact hnew
    · cases hm
    · cases hm
  have hstarted : ∀ a, (i, .started t a) ∈ trail → a = d.effective call.arguments := by
    intro a ha
    rw [hown] at ha
    have hbase : Mark.started t a ∉ base := fun hmem => by cases hpassive _ hmem
    have hnew : Mark.started t a ∉ new := fun hmem => by cases hended.inside _ hmem
    have hout : Mark.started t a ∉ stored := fun hmem => by
      rcases hstored with ⟨rfl, -⟩ | ⟨outcome, rfl, -⟩ <;> simp at hmem
    simpa [hbase, hnew, hout] using ha
  have hbegun : (i, .started t (d.effective call.arguments)) ∈ trail := (hown _).mpr (by simp)
  have hgranted : (i, .consulted call grant) ∈ trail := (hown _).mpr (by simp [hconsulted])
  rw [hended.foreign_iff]
  constructor
  · rintro hcontained (⟨e, he⟩ | ⟨e, hmem, hforeign⟩ | ⟨x, e, hmem, hredact, hforeign⟩)
    · exact hcontained.validator _ call grant e hbegun hgranted he
    · rw [hcontained.materialize e ((hinside _ rfl).mpr hmem)] at hforeign
      cases hforeign
    · rw [hcontained.redact call grant x e hgranted ((hinside _ rfl).mpr hmem) hredact] at hforeign
      cases hforeign
  · intro hkept
    refine ⟨fun a call' grant' e ha hcall' he => ?_, fun e hmem => ?_,
      fun call' grant' x e hcall' hmem hredact => ?_⟩
    · obtain ⟨-, rfl⟩ := consulted_unique hlegal hgranted hcall'
      rw [hstarted a ha] at he
      exact hkept (Or.inl ⟨e, he⟩)
    · by_contra hforeign
      exact hkept (Or.inr (Or.inl ⟨e, (hinside _ rfl).mp hmem, by simpa using hforeign⟩))
    · obtain ⟨rfl, -⟩ := consulted_unique hlegal hgranted hcall'
      by_contra hforeign
      exact hkept (Or.inr (Or.inr ⟨x, e, (hinside _ rfl).mp hmem, hredact, by simpa using hforeign⟩))

/-- A ticket that got a result has one. -/
theorem stored_of_written {s : Settings} {t : TicketId} {later written : TrailOf Mark}
    (h : Legal (Allowed s) (later ++ written)) {c : Cell} {r : ToolResult}
    (hc : cellOf t written = some c) (hr : c.result = some r) :
    ∃ r' c', cellOf t (later ++ written) = some c' ∧ c'.result = some r' := by
  obtain ⟨c', hc', hev⟩ := cellOf_append h hc
  have hsome : c'.result.isSome := hev.result (by rw [hr]; rfl)
  obtain ⟨r', hr'⟩ := Option.isSome_iff_exists.mp hsome
  exact ⟨r', c', hc', hr'⟩

section
variable {σ : Type} [TicketStore σ] [LawfulTicketStore σ]

/-- Of the gateway's own pipeline: the caller that won the claim is through, and the
    ticket has a result exactly if the services kept to GatewayErrors, or somebody
    closed the claim. -/
theorem gateway_result_iff (s : Settings) (actors : List Actor) (es : List (Event Input))
    (t : TicketId) (i : ℕ) (actor : Actor) (reply : Except Exc Reply)
    (hactor : actors[i]? = some actor) (htold : toldAfter σ s actors es i = some reply)
    (hwon : claimant t (worldAfter σ s actors es).trail = some i) :
    (∃ r, storedAfter σ s actors es t = some r) ↔
      Contained s i t (worldAfter σ s actors es).trail ∨
        ∃ j ownerLive, (j, .closed t ownerLive) ∈ (worldAfter σ s actors es).trail := by
  have hlegal : Legal (Allowed s) (worldAfter σ s actors es).trail := run_legal
  obtain ⟨now, hclaimed⟩ := claimed_of_claimant hwon
  have hown := mem_own.mpr hclaimed
  obtain ⟨r, -, ⟨-, hinside⟩ | ⟨t', hexecuted⟩⟩ := (run_ends hactor htold).executed hown rfl
  · cases hinside
  obtain rfl := hexecuted.claimed hown
  have hcontained := hexecuted.contained_iff hlegal
  constructor
  · rintro ⟨x, hx⟩
    obtain ⟨c, hc, hresult⟩ := run_stored.mp hx
    rcases result_origin hlegal hc hresult with ⟨j, outcome, hmem, -⟩ | ⟨-, hclosed⟩
    · have hj := claimant_of_completed hlegal hmem
      rw [hwon] at hj
      cases hj
      refine Or.inl (hcontained.mpr ?_)
      rintro ⟨e, he, hforeign⟩
      have hr := hexecuted.completed (mem_own.mpr hmem)
      rw [he] at hr
      rw [foreign_of_handedOn hr.symm] at hforeign
      cases hforeign
    · exact Or.inr hclosed
  · rintro (hkept | ⟨j, ownerLive, hclosed⟩)
    · obtain ⟨outcome, hmem⟩ := hexecuted.stored (hcontained.mp hkept)
      obtain ⟨later, written, htrail, c, hc, hr⟩ := written_of_completed hlegal (mem_own.mp hmem)
      obtain ⟨x, hx⟩ := stored_of_written (htrail ▸ hlegal) hc hr
      exact ⟨x, run_stored.mpr (htrail ▸ hx)⟩
    · obtain ⟨later, written, htrail, c, hc, hr⟩ := written_of_closed hlegal hclosed
      obtain ⟨x, hx⟩ := stored_of_written (htrail ▸ hlegal) hc hr
      exact ⟨x, run_stored.mpr (htrail ▸ hx)⟩

/-- Whoever wins the claim leaves the ticket with a result exactly if the pipeline ends
    with a result or a GatewayError, or had left one itself: whatever the pipeline does
    and whatever other threads do meanwhile, as long as the store keeps the ticket.  In
    the gateway's own pipeline it ends so exactly if the services keep to GatewayErrors. -/
theorem result_left_iff (t : TicketId) :
    (∀ (lease : Time) (run : StepM σ ToolResult) (ctx : CallContext)
      (c : Config Input (World σ) (Except Exc ToolResult × CallContext)) (i : ℕ)
      (es : List (Event Input)) (told : Except Exc ToolResult × CallContext)
      (won : Doing Input (World σ)) (ds : List (Doing Input (World σ))),
      c.threads[i]? = some (some ((runOnce t lease run).exec ctx)) →
      (c.run es).outcome i = some told → c.doings i es = won :: ds →
      (TicketStore.claim won.before.tickets t won.slot.input.now).1 = true →
      (∀ d ∈ ds, (TicketStore.get d.before.tickets t).isSome) →
        ∃ begun inside stored r ctx₁, ds = begun :: (inside ++ stored) ∧
          (run.exec ctx).Takes inside (r, ctx₁) ∧
          ((resultIn t (leftBy won ds)).isSome ↔
            EndsHandled r ∨ (resultIn t (leftBy begun inside)).isSome)) ∧
    ∀ (s : Settings) (actors : List Actor) (es : List (Event Input)) (i : ℕ) (actor : Actor)
      (reply : Except Exc Reply),
      actors[i]? = some actor → toldAfter σ s actors es i = some reply →
      claimant t (worldAfter σ s actors es).trail = some i →
        ((∃ r, storedAfter σ s actors es t = some r) ↔
          Contained s i t (worldAfter σ s actors es).trail ∨
            ∃ j ownerLive, (j, .closed t ownerLive) ∈ (worldAfter σ s actors es).trail) :=
  ⟨fun _ _ _ _ _ _ _ _ _ hthread hleft hdoings hwon hknown =>
      executor_result_iff hthread hleft hdoings hwon hknown,
    fun s actors es i actor reply hactor htold hwon =>
      gateway_result_iff s actors es t i actor reply hactor htold hwon⟩

end

/-- An approved ticket. -/
def approvedTicket : World MemoryTicketStore :=
  { World.fresh MemoryTicketStore with
    tickets := MemoryTicketStore.empty.withTicket "tkt-1"
      { call := pullRequest, decision := { status := .approved } } }

/-- Its executor, whose pipeline is cancelled at once. -/
def cancelledExecutor :
    Config Input (World MemoryTicketStore) (Except Exc ToolResult × CallContext) :=
  { world := approvedTicket
    threads := [some ((runOnce "tkt-1" plain.gate.lease
      (throw (.other "CancelledError" "")) : StepM MemoryTicketStore ToolResult).exec
        { call := pullRequest })] }

/-- The cancelled executor leaves no result; one that went through left its own. -/
theorem result_left_iff_through :
    (∃ won ds, cancelledExecutor.doings 0 (goes 0 2 {}) = won :: ds ∧
      ¬ (resultIn "tkt-1" (leftBy won ds)).isSome) ∧
    ((∃ r, storedAfter MemoryTicketStore plain pollers (dispatched ++ goes 3 4 {}) "tkt-1" = some r) ↔
      Contained plain 3 "tkt-1"
          (worldAfter MemoryTicketStore plain pollers (dispatched ++ goes 3 4 {})).trail ∨
        ∃ j ownerLive, (j, .closed "tkt-1" ownerLive) ∈
          (worldAfter MemoryTicketStore plain pollers (dispatched ++ goes 3 4 {})).trail) := by
  obtain ⟨hany, hgateway⟩ := result_left_iff (σ := MemoryTicketStore) "tkt-1"
  constructor
  · have hknown : ∀ d ∈ (cancelledExecutor.doings 0 (goes 0 2 {})).tail,
        (TicketStore.get d.before.tickets "tkt-1").isSome := by decide +kernel
    obtain ⟨begun, inside, stored, r, ctx₁, hds, ⟨rfl, hr⟩, hiff⟩ :=
      hany plain.gate.lease _ { call := pullRequest } cancelledExecutor 0 (goes 0 2 {}) _ _ _ rfl rfl rfl
        rfl hknown
    refine ⟨_, _, rfl, fun hresult => ?_⟩
    rcases hiff.mp hresult with hkept | hbefore
    · obtain ⟨rfl, -⟩ := Prod.mk.inj hr
      cases hkept _ rfl
    · obtain ⟨rfl, -⟩ := List.cons.inj hds
      cases hbefore
  · have htold :
        (toldAfter MemoryTicketStore plain pollers (dispatched ++ goes 3 4 {}) 3).isSome = true := by
      decide +kernel
    have hwon : claimant "tkt-1"
        (worldAfter MemoryTicketStore plain pollers (dispatched ++ goes 3 4 {})).trail = some 3 := by
      decide +kernel
    obtain ⟨reply, hreply⟩ := Option.isSome_iff_exists.mp htold
    exact hgateway plain pollers (dispatched ++ goes 3 4 {}) 3 (.resume "tkt-1") reply rfl hreply hwon

-- ============================================================================
-- A schema that is not an object
-- ============================================================================

/-- A policy whose `input_schema` is a list of the required fields. -/
def titleListed : Json :=
  .dict [("rules", .list [.dict [("tool", .str "github.*"), ("mode", .str "async"),
    ("input_schema", .list [.str "title"])]])]

/-- A rule whose input schema is no object. -/
def titleListedRule : Policy.Rule :=
  { tool := "github.*"
    agents := ["*"]
    conds := []
    hints := []
    deny := false
    mode := some .async
    inputSchema := .list [.str "title"]
    mode_isSome := fun _ => rfl }

/-- The policy, the agent, the operator, and one who resumes the ticket. -/
def resumersOf (p : Policy.Compiled) (toolCall : ToolCall) : List Actor :=
  [.setPolicy p.grantFor, .call toolCall false, .decide "tkt-1" { status := .approved },
    .resume "tkt-1"]

/-- `schema.get` of a list is an AttributeError, after the claim was won. -/
theorem claim_can_be_stranded :
    ¬ ∀ (doc : Json) (p : Policy.Compiled), @Policy.compilePolicy .ascii doc = .ok p →
      ∀ (toolCall : ToolCall) (es : List (Event Input)) (t : TicketId) (i : ℕ)
        (reply : Except Exc Reply),
        toldAfter MemoryTicketStore plain (resumersOf p toolCall) es i = some reply →
        claimant t (worldAfter MemoryTicketStore plain (resumersOf p toolCall) es).trail = some i →
        ∃ r, storedAfter MemoryTicketStore plain (resumersOf p toolCall) es t = some r := by
  intro law
  have htold : (toldAfter MemoryTicketStore plain
      (resumersOf ⟨[titleListedRule], none, []⟩ pullRequest) dispatched 3).isSome = true := by
    decide +kernel
  have hwon : claimant "tkt-1" (worldAfter MemoryTicketStore plain
      (resumersOf ⟨[titleListedRule], none, []⟩ pullRequest) dispatched).trail = some 3 := by
    decide +kernel
  have hnone : (storedAfter MemoryTicketStore plain
      (resumersOf ⟨[titleListedRule], none, []⟩ pullRequest) dispatched "tkt-1").isSome = false := by
    decide +kernel
  obtain ⟨reply, hreply⟩ := Option.isSome_iff_exists.mp htold
  obtain ⟨r, hr⟩ := law titleListed ⟨[titleListedRule], none, []⟩ rfl pullRequest dispatched "tkt-1" 3
    reply hreply hwon
  rw [hr] at hnone
  cases hnone

end ToolGateway
