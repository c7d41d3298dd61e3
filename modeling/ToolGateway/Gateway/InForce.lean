/-
  ToolGateway.Gateway.InForce

  Under which policy a gated call executes.  A caller that waits keeps the grant
  it got when its call arrived; `resume` asks for a new one, but for the call as
  it was filed.  Neither looks at the policy again once the verdict has put the
  arguments in their final form.  So the call executes under the policy in force
  where nobody replaced the policy that was asked, or it was asked after the verdict,
  and an edit does not take the call to another rule's schema.
-/

import Mathlib.Data.List.Infix
import ToolGateway.Gateway.OneOutcome
import ToolGateway.Gateway.Tracks

namespace ToolGateway

open Coroutine Py

/-- The trail at a moment between thread `i`'s reading of the approval of ticket
    `t` and its call of the upstream. -/
structure Between (i : ℕ) (t : TicketId) (before trail : TrailOf Mark) : Prop where
  earlier : before <:+ trail
  approved : ∃ ticket, (i, .read t ticket) ∈ before ∧ ticket.decision.approved = true
  undispatched : ∀ call, (i, .dispatched call) ∉ before

/-- The policy in force between the verdict and the upstream grants the call with
    these arguments, and they passed the schema of the rule that does. -/
def ExecutedInForce (i : ℕ) (t : TicketId) (call : ToolCall) (arguments : Json)
    (trail : TrailOf Mark) : Prop :=
  ∃ before grant, Between i t before trail ∧
    inForce before { call with arguments := arguments } = .ok (some grant) ∧
    (i, .validated arguments grant.inputSchema) ∈ trail

/-- Every policy in force between the verdict and the upstream answers this call as the
    policy did that was in force when thread `i` asked for its grant. -/
def Unreplaced (i : ℕ) (t : TicketId) (call : ToolCall) (asked trail : TrailOf Mark) : Prop :=
  ∀ before, Between i t before trail → inForce before call = inForce asked call

/-- The policy that granted the call as it was filed grants it with these arguments, and
    under the same schema. -/
def KeepsSchema (call : ToolCall) (granted : Grant) (arguments : Json) (asked : TrailOf Mark) :
    Prop :=
  ∃ grant, inForce asked { call with arguments := arguments } = .ok (some grant) ∧
    grant.inputSchema = granted.inputSchema

-- ============================================================================
-- Legal trails
-- ============================================================================

section
variable {s : Settings} {t : TicketId} {i : ℕ} {trail : TrailOf Mark}

/-- Nobody gets to an upstream without a grant. -/
theorem consulted_of_dispatched (h : Legal (Allowed s) trail) {call : ToolCall}
    (hmem : (i, .dispatched call) ∈ trail) :
    ∃ call' grant arguments, (i, .consulted call' grant) ∈ trail ∧
      (i, .validated arguments grant.inputSchema) ∈ trail := by
  obtain ⟨later, before, rfl, ⟨arguments, schema, hvalidated⟩, hbefore⟩ := h.split hmem
  obtain ⟨later', before', rfl, ⟨-, call', grant, hconsulted, rfl, -⟩, -⟩ := hbefore.split hvalidated
  exact ⟨call', grant, arguments, by simp [hconsulted], by simp⟩

/-- What the executor of a ticket validated: the arguments it started with, against
    the schema of its own grant. -/
theorem validated_of_started (h : Legal (Allowed s) trail) {c : Cell} (hc : cellOf t trail = some c)
    {arguments arguments' schema : Json} (hstarted : (i, .started t arguments) ∈ trail)
    (hvalidated : (i, .validated arguments' schema) ∈ trail) :
    arguments' = arguments ∧ ∃ granted, (i, .consulted c.call granted) ∈ trail ∧
      schema = granted.inputSchema := by
  obtain ⟨later, before, rfl, ⟨-, call, granted, hconsulted, rfl, hargs⟩, hbefore, hbegun⟩ :=
    h.split_after hvalidated hstarted (by simp) fun _ hallowed => hallowed.2.2.2 _ _
  have howner := claimant_of_started hbefore hbegun
  obtain ⟨c₀, hc₀, -⟩ := cell_of_claimant hbefore howner
  obtain ⟨-, hacted⟩ := acted_of_claimant hbefore howner hc₀
  obtain ⟨grant, hgrant⟩ := consulted_of_acted hbefore hacted hc₀
  obtain ⟨rfl, rfl⟩ := consulted_unique hbefore hgrant hconsulted
  obtain ⟨c₁, hc₁, hstart⟩ := cell_of_started hbefore hbegun
  obtain ⟨c', hc', hev⟩ := cellOf_append h hc₀
  rw [hc] at hc'
  cases hc'
  rw [hc₀] at hc₁
  cases hc₁
  rw [hargs t c₀.decision hacted, hstart, hev.call]
  exact ⟨rfl, grant, by simp [hconsulted], rfl⟩

/-- A thread asks for a grant once. -/
theorem inForce_of_asked (h : Legal (Allowed s) trail) {call : ToolCall} {granted : Grant}
    {asked : TrailOf Mark} (hasked : (i, .consulted call granted) :: asked <:+ trail) :
    inForce asked call = .ok (some granted) ∧
      ∀ call' grant', (i, .consulted call' grant') ∉ asked := by
  obtain ⟨later, rfl⟩ := hasked
  exact h.of_append.1

/-- A resumer looked at the policy after it had read the verdict. -/
theorem between_of_resumed (h : Legal (Allowed s) trail) {d : Decision} {call : ToolCall}
    (happroved : d.approved = true) {before : TrailOf Mark} (hbefore : before <:+ trail)
    (hgranted : GrantedAfterVerdict i t d call before) :
    ∃ asked granted, (i, .consulted call granted) :: asked <:+ trail ∧ Between i t asked trail := by
  obtain ⟨grant, later, old, hown, ticket, hread, hdecision⟩ := hgranted
  obtain ⟨new, asked, rfl, -, hmoment⟩ := own_split hown
  have hasked : (i, .consulted call grant) :: asked <:+ trail :=
    (List.suffix_append new _).trans hbefore
  obtain ⟨-, hfirst⟩ := inForce_of_asked h hasked
  obtain ⟨newer, rfl⟩ := hasked
  refine ⟨asked, grant, List.suffix_append newer _, ?_, ?_, fun call' hdispatched => ?_⟩
  · exact (List.suffix_cons _ asked).trans (List.suffix_append newer _)
  · exact ⟨ticket, mem_own.mp (hmoment ▸ hread), by rw [hdecision, happroved]⟩
  · obtain ⟨call'', grant'', -, hearlier, -⟩ := consulted_of_dispatched h.of_append.2 hdispatched
    exact hfirst call'' grant'' hearlier

/-- The executor of an approved ticket has read the approval before it starts, and has
    called nothing yet. -/
theorem between_of_started {σ : Type} {ok : Input → Prop} {actors : List Actor}
    (h : Legal (Allowed s) trail) (htraced : Legal (provenance σ ok actors).guard trail)
    {arguments : Json} (hstarted : (i, .started t arguments) ∈ trail) :
    ∃ before, Between i t before trail := by
  obtain ⟨later, before, rfl, ⟨-, howner, -, hunvalidated⟩, hbefore⟩ := h.split hstarted
  obtain ⟨c, hc, -, happroved⟩ := cell_of_claimant hbefore howner
  obtain ⟨-, hacted⟩ := acted_of_claimant hbefore howner hc
  have hearlier : Legal (provenance σ ok actors).guard before := htraced.of_append.2
  obtain ⟨actor, hactor⟩ := actor_of_mem hearlier hacted
  obtain ⟨marks, hmarks, -, -, hlearned⟩ := traced_of_mem hearlier hactor hacted
  refine ⟨before, ⟨later ++ [(i, .started t arguments)], by simp⟩, ?_, fun call hdispatched => ?_⟩
  · rcases hlearned with htimeout | ⟨ticket, hread, hdecision⟩
    · rw [Decision.approved, htimeout] at happroved
      cases happroved
    · exact ⟨ticket, hmarks _ hread, by rw [hdecision, happroved]⟩
  · obtain ⟨call', grant, arguments', -, hvalidated⟩ := consulted_of_dispatched hbefore hdispatched
    exact hunvalidated _ _ hvalidated

/-- The executor validated the arguments it started with against its own grant. -/
theorem validated_of_dispatched (h : Legal (Allowed s) trail) {c : Cell}
    (hc : cellOf t trail = some c) {arguments : Json} {call : ToolCall} {granted : Grant}
    (hstarted : (i, .started t arguments) ∈ trail) (hdispatched : (i, .dispatched call) ∈ trail)
    {call' : ToolCall} (hconsulted : (i, .consulted call' granted) ∈ trail) :
    (i, .validated arguments granted.inputSchema) ∈ trail := by
  obtain ⟨call'', granted', arguments', hgrant, hvalidated⟩ := consulted_of_dispatched h hdispatched
  obtain ⟨-, rfl⟩ := consulted_unique h hgrant hconsulted
  obtain ⟨rfl, -⟩ := validated_of_started h hc hstarted hvalidated
  exact hvalidated

/-- The executor that did not file the ticket resumed it. -/
theorem resumed_of_started (h : Legal (Allowed s) trail) {c : Cell} (hc : cellOf t trail = some c)
    {arguments : Json} (hstarted : (i, .started t arguments) ∈ trail)
    (hother : ∀ filed, (i, .created t filed) ∉ trail) :
    ∃ before, before <:+ trail ∧ GrantedAfterVerdict i t c.decision c.call before := by
  obtain ⟨-, hacted⟩ := acted_of_claimant h (claimant_of_started h hstarted) hc
  obtain ⟨later, before, rfl, ⟨-, c₀, hc₀, hdecision, -, hcreated | hgranted⟩, -⟩ := h.split hacted
  · exact absurd (List.mem_append_right _ (List.mem_cons_of_mem _ hcreated)) (hother c₀.call)
  · obtain ⟨c', hc', hev⟩ := cellOf_append h hc₀
    rw [hc] at hc'
    cases hc'
    rw [hev.call]
    exact ⟨before, ⟨later ++ [(i, .acted t c.decision)], by simp⟩, hgranted⟩

/-- When the executor of a ticket asked for its grant: a resumer, after the verdict. -/
theorem asked_of_started (h : Legal (Allowed s) trail) {c : Cell} (hc : cellOf t trail = some c)
    {arguments : Json} {call : ToolCall} (hstarted : (i, .started t arguments) ∈ trail)
    (hdispatched : (i, .dispatched call) ∈ trail) :
    ∃ granted asked, (i, .consulted c.call granted) :: asked <:+ trail ∧
      ((∀ filed, (i, .created t filed) ∉ trail) → Between i t asked trail) := by
  by_cases hother : ∀ filed, (i, .created t filed) ∉ trail
  · obtain ⟨c', hc', -, happroved⟩ := cell_of_claimant h (claimant_of_started h hstarted)
    obtain rfl : c = c' := Option.some.inj (hc.symm.trans hc')
    obtain ⟨before, hbefore, hgranted⟩ := resumed_of_started h hc hstarted hother
    obtain ⟨asked, granted, hasked, hbetween⟩ := between_of_resumed h happroved hbefore hgranted
    exact ⟨granted, asked, hasked, fun _ => hbetween⟩
  · obtain ⟨call', granted, arguments', -, hvalidated⟩ := consulted_of_dispatched h hdispatched
    obtain ⟨-, granted', hconsulted, -⟩ := validated_of_started h hc hstarted hvalidated
    obtain ⟨later, asked, rfl⟩ := List.append_of_mem hconsulted
    exact ⟨granted', asked, List.suffix_append later _, fun hno => absurd hno hother⟩

end

-- ============================================================================
-- Runs
-- ============================================================================

section
variable {σ : Type} [TicketStore σ] [LawfulTicketStore σ]

/-- Where the policies in force between the verdict and the upstream answer the call as
    the one did that its executor asked, it executes under the policy in force exactly if
    its edit keeps the schema.  A resumed call, whose executor asks after the verdict,
    does so whenever its edit keeps the schema; a call that was not edited keeps it. -/
theorem executed_in_force_iff (s : Settings) (actors : List Actor) (es : List (Event Input))
    (t : TicketId) (i : ℕ) (arguments : Json) (call : ToolCall) (ticket : Ticket)
    (hget : TicketStore.get (worldAfter σ s actors es).tickets t = some ticket)
    (hstarted : (i, .started t arguments) ∈ (worldAfter σ s actors es).trail)
    (hdispatched : (i, .dispatched call) ∈ (worldAfter σ s actors es).trail) :
    ∃ granted asked,
      (i, .consulted ticket.call granted) :: asked <:+ (worldAfter σ s actors es).trail ∧
      (Unreplaced i t { ticket.call with arguments := arguments } asked
          (worldAfter σ s actors es).trail →
        (ExecutedInForce i t ticket.call arguments (worldAfter σ s actors es).trail ↔
          KeepsSchema ticket.call granted arguments asked)) ∧
      ((∀ filed, (i, .created t filed) ∉ (worldAfter σ s actors es).trail) →
        KeepsSchema ticket.call granted arguments asked →
          ExecutedInForce i t ticket.call arguments (worldAfter σ s actors es).trail) ∧
      (arguments = ticket.call.arguments → KeepsSchema ticket.call granted arguments asked) := by
  rw [run_get, Option.map_eq_some_iff] at hget
  obtain ⟨c, hc, rfl⟩ := hget
  have hlegal : Legal (Allowed s) (worldAfter σ s actors es).trail := run_legal
  have htraced : Legal (provenance σ (fun _ => True) actors).guard (worldAfter σ s actors es).trail :=
    (provenance_run σ s actors fun _ _ _ => trivial).1
  obtain ⟨granted, asked, hasked, hresumed⟩ := asked_of_started hlegal hc hstarted hdispatched
  have hconsulted : (i, .consulted c.call granted) ∈ (worldAfter σ s actors es).trail :=
    hasked.subset List.mem_cons_self
  obtain ⟨hinforce, -⟩ := inForce_of_asked hlegal hasked
  refine ⟨granted, asked, hasked, fun hunreplaced => ⟨?_, ?_⟩, fun hother => ?_, fun hunedited => ?_⟩
  · rintro ⟨before, grant, hbetween, hgrants, hvalidated⟩
    obtain ⟨-, granted', hconsulted', hschema⟩ := validated_of_started hlegal hc hstarted hvalidated
    obtain ⟨-, rfl⟩ := consulted_unique hlegal hconsulted hconsulted'
    exact ⟨grant, (hunreplaced before hbetween).symm.trans hgrants, hschema⟩
  · rintro ⟨grant, hgrants, hschema⟩
    obtain ⟨before, hbetween⟩ := between_of_started hlegal htraced hstarted
    refine ⟨before, grant, hbetween, (hunreplaced before hbetween).trans hgrants, ?_⟩
    rw [hschema]
    exact validated_of_dispatched hlegal hc hstarted hdispatched hconsulted
  · rintro ⟨grant, hgrants, hschema⟩
    refine ⟨asked, grant, hresumed hother, hgrants, ?_⟩
    rw [hschema]
    exact validated_of_dispatched hlegal hc hstarted hdispatched hconsulted
  · rw [hunedited]
    exact ⟨granted, hinforce, rfl⟩

end

/-- The call of an upstream by thread `i`. -/
def dispatches (i : ℕ) : ℕ × Mark → Bool
  | (i', .dispatched _) => i' == i
  | _ => false

theorem dispatched_of_any {i : ℕ} {trail : TrailOf Mark} (h : trail.any (dispatches i) = true) :
    ∃ call, (i, .dispatched call) ∈ trail := by
  obtain ⟨⟨j, m⟩, hmem, hm⟩ := List.any_eq_true.mp h
  cases m with
  | dispatched call =>
      obtain rfl : j = i := by simpa [dispatches] using hm
      exact ⟨call, hmem⟩
  | _ => cases hm

/-- Thread 3 starts the pipeline on ticket "tkt-1". -/
def resumes : ℕ × Mark → Bool
  | (3, .started "tkt-1" _) => true
  | _ => false

/-- Thread 3 files it. -/
def files : ℕ × Mark → Bool
  | (3, .created "tkt-1" _) => true
  | _ => false

/-- A resumed call that nobody edited, waiting for its upstream. -/
theorem executed_in_force_iff_resumed :
    ∃ ticket arguments,
      TicketStore.get (worldAfter MemoryTicketStore plain pollers dispatched).tickets "tkt-1" =
        some ticket ∧
      ExecutedInForce 3 "tkt-1" ticket.call arguments
        (worldAfter MemoryTicketStore plain pollers dispatched).trail := by
  have hget : (TicketStore.get (worldAfter MemoryTicketStore plain pollers dispatched).tickets
      "tkt-1").any (fun ticket => !ticket.decision.edits ticket.call.arguments) = true := by
    decide +kernel
  have hcalled :
      (worldAfter MemoryTicketStore plain pollers dispatched).trail.any (dispatches 3) = true := by
    decide +kernel
  have hbegun : (worldAfter MemoryTicketStore plain pollers dispatched).trail.any resumes = true := by
    decide +kernel
  have hother : (worldAfter MemoryTicketStore plain pollers dispatched).trail.any files = false := by
    decide +kernel
  obtain ⟨ticket, hticket, hunedited⟩ := (Option.any_eq_true _ _).mp hget
  obtain ⟨call, hdispatched⟩ := dispatched_of_any hcalled
  obtain ⟨⟨i, m⟩, hmem, hm⟩ := List.any_eq_true.mp hbegun
  unfold resumes at hm
  split at hm
  · next arguments heq =>
      cases heq
      obtain ⟨granted, asked, -, -, hresumed, hkeeps⟩ := executed_in_force_iff plain pollers dispatched
        "tkt-1" 3 arguments call ticket hticket hmem hdispatched
      refine ⟨ticket, arguments, hticket, hresumed (fun filed hfiled => ?_) (hkeeps ?_)⟩
      · have hno := List.any_eq_false.mp hother _ hfiled
        exact hno rfl
      · obtain ⟨c, hc, hargs⟩ := cell_of_started run_legal hmem
        rw [run_get, hc, Option.map_some, Option.some.injEq] at hticket
        subst hticket
        have hkept : c.decision.edits c.call.arguments = false :=
          (Bool.not_eq_true' _).mp hunedited
        rw [hargs, Decision.effective, hkept]
        rfl
  · cases hm

-- ============================================================================
-- A policy that was replaced while a caller waited
-- ============================================================================

/-- The policy asks for an approval; a caller waits for it, the policy is replaced
    by one that denies everything, and the operator approves. -/
def waiting : List Actor :=
  [.setPolicy fun _ => .ok (some { approvalMode := .interactive }), .call pullRequest true,
    .setPolicy fun _ => .ok none, .decide "tkt-1" { status := .approved }]

/-- The policy is replaced while the caller waits at its gate. -/
def replaced : List (Event Input) :=
  goes 0 1 {} ++ goes 1 6 { uuid := "1" } ++ goes 2 1 {} ++ goes 3 4 {} ++ goes 1 20 {}

/-- The caller reads that its ticket is approved. -/
def readsApproval : ℕ × Mark → Bool
  | (1, .read "tkt-1" ticket) => ticket.decision.approved
  | _ => false

/-- The caller executed its ticket although every policy in force since it read the
    approval denies the call. -/
def executesDenied (ticket : Ticket) (trail : TrailOf Mark) : ℕ × Mark → Bool
  | (1, .started "tkt-1" arguments) =>
      trail.tails.all fun before => !before.any readsApproval ||
        match inForce before { ticket.call with arguments := arguments } with
        | .ok none => true
        | _ => false
  | _ => false

theorem not_executedInForce {ticket : Ticket} {trail : TrailOf Mark}
    (h : trail.any (executesDenied ticket trail) = true) :
    ∃ arguments, (1, .started "tkt-1" arguments) ∈ trail ∧
      ¬ ExecutedInForce 1 "tkt-1" ticket.call arguments trail := by
  obtain ⟨⟨i, m⟩, hmem, hm⟩ := List.any_eq_true.mp h
  unfold executesDenied at hm
  split at hm
  · next arguments heq =>
      cases heq
      refine ⟨arguments, hmem, ?_⟩
      rintro ⟨before, grant, hbetween, hinforce, -⟩
      obtain ⟨ticket', hread, happroved⟩ := hbetween.approved
      have hreads : before.any readsApproval = true :=
        List.any_eq_true.mpr ⟨_, hread, happroved⟩
      have hdenied := List.all_eq_true.mp hm before ((List.mem_tails _ _).mpr hbetween.earlier)
      rw [hreads, hinforce] at hdenied
      cases hdenied
  · cases hm

/-- The caller that waits executes under the grant it got on arrival, though the
    policy in force denies its call since before the approval. -/
theorem replaced_policy_is_not_asked :
    ¬ ∀ (s : Settings) (actors : List Actor) (es : List (Event Input)) (t : TicketId) (i : ℕ)
      (arguments : Json) (call : ToolCall) (ticket : Ticket),
      TicketStore.get (worldAfter MemoryTicketStore s actors es).tickets t = some ticket →
      (i, .started t arguments) ∈ (worldAfter MemoryTicketStore s actors es).trail →
      (i, .dispatched call) ∈ (worldAfter MemoryTicketStore s actors es).trail →
        ExecutedInForce i t ticket.call arguments
          (worldAfter MemoryTicketStore s actors es).trail := by
  intro law
  have hget : (TicketStore.get (worldAfter MemoryTicketStore plain waiting replaced).tickets
      "tkt-1").any (fun ticket => (worldAfter MemoryTicketStore plain waiting replaced).trail.any
        (executesDenied ticket (worldAfter MemoryTicketStore plain waiting replaced).trail)) =
          true := by
    decide +kernel
  have hcalled :
      (worldAfter MemoryTicketStore plain waiting replaced).trail.any (dispatches 1) = true := by
    decide +kernel
  obtain ⟨ticket, hticket, hany⟩ := (Option.any_eq_true _ _).mp hget
  obtain ⟨arguments, hstarted, hdenied⟩ := not_executedInForce hany
  obtain ⟨call, hdispatched⟩ := dispatched_of_any hcalled
  exact hdenied (law plain waiting replaced "tkt-1" 1 arguments call ticket hticket hstarted
    hdispatched)

end ToolGateway
