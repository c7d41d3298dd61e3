/-
  ToolGateway.Gateway.Accepted

  Whether a verdict that was accepted can be carried out.  An operator's edit travels
  unchecked from the request body to `apply_decision`, the validator and the secret
  store, and all of them take it for an object.  Where it is one, whoever resumes the
  ticket or waits for it ends with a result or a GatewayError; any other value can leave
  a verdict behind on which every attempt raises something else.

  A third discipline on the trail, for runs whose services answer when they are given
  objects: what is in the store can be carried out, and stays there.
-/

import ToolGateway.Gateway.Polling
import ToolGateway.Gateway.Rules

namespace ToolGateway

open Coroutine Py

-- ============================================================================
-- What the gateway counts on
-- ============================================================================

/-- The value is an object. -/
def Json.IsObject (v : Json) : Prop := ∃ fs, v = .dict fs

/-- An approval without an edit, or with one that puts an object in place of the
    arguments. -/
def Decision.Carriable (d : Decision) : Prop :=
  d.approved = true → d.editedArguments = .null ∨ Json.IsObject d.editedArguments

/-- The validator reads the schema of the grant, whatever object it is to check. -/
def Grant.Readable (s : Settings) (grant : Grant) : Prop :=
  ∀ arguments, Json.IsObject arguments → ∃ errors, s.checkArgs arguments grant.inputSchema = .ok errors

/-- The policy answers for the call, with a schema that can be read. -/
def Settings.Answers (s : Settings) (grants : GrantResolver) (call : ToolCall) : Prop :=
  ∃ granted, grants call = .ok granted ∧ ∀ grant, granted = some grant → grant.Readable s

/-- The secret store resolves the references in an object, or says what it lacks. -/
def Input.Materializes (input : Input) : Prop :=
  ∀ arguments upstreamId agentId e, Json.IsObject arguments →
    input.materialize arguments upstreamId agentId = .error e → e.foreign = false

/-- The redactor hands a result on, or says what it found. -/
def Settings.Redacts (s : Settings) : Prop :=
  ∀ r upstreamId e, s.redact r upstreamId = .error e → e.foreign = false

/-- A result, or an error of the gateway. -/
def EndsWell {α : Type} (r : Except Exc α) : Prop := ∀ e, r = .error e → e.foreign = false

theorem endsWell_ok {α : Type} (a : α) : EndsWell (.ok a) := fun e he => by cases he

theorem endsWell_gateway {α : Type} (e : GatewayError) :
    EndsWell (.error (.gateway e) : Except Exc α) := by
  intro e' he
  cases he
  rfl

-- ============================================================================
-- The discipline
-- ============================================================================

/-- The ticket that the mark shows to be in the store. -/
def Mark.found : Mark → Option TicketId
  | .created t _ | .read t _ | .claimed t _ => some t
  | _ => none

/-- The policy in force answers for these calls, and the store holds them only, with
    verdicts that can be carried out. -/
structure CanCarryOut {σ : Type} [TicketStore σ] [LawfulTicketStore σ] (s : Settings)
    (calls : ToolCall → Prop) (w : World σ) : Prop where
  answers : ∀ call, calls call → s.Answers w.grants call
  filed : ∀ t c, LawfulTicketStore.cell w.tickets t = some c → calls c.call ∧ c.decision.Carriable
  found : ∀ i m t, (i, m) ∈ w.trail → m.found = some t →
    (LawfulTicketStore.cell w.tickets t).isSome

/-- The discipline of what can be carried out; anybody may make any mark. -/
def orderly (σ : Type) [TicketStore σ] [LawfulTicketStore σ] (s : Settings)
    (calls : ToolCall → Prop) : Discipline (World σ) Mark where
  trail := World.trail
  guard _ _ _ := True
  agrees := CanCarryOut s calls
  strikes _ _ _ := False

/-- The inputs of a run whose secret store answers. -/
def materializing {σ : Type} (slot : Slot Input) (_ : World σ) : Prop := slot.input.Materializes

section
variable {σ : Type} [TicketStore σ] [LawfulTicketStore σ] {s : Settings} {calls : ToolCall → Prop}
  {i : ℕ} {pre : List Mark} {w w' : World σ} {m : Mark} {t : TicketId}

/-- The store and the policy are the same, and the trail has at most one more mark. -/
theorem CanCarryOut.mark (h : CanCarryOut s calls w) (htickets : w'.tickets = w.tickets)
    (hgrants : w'.grants = w.grants) (htrail : w'.trail = (i, m) :: w.trail)
    (hfound : ∀ t, m.found = some t → (LawfulTicketStore.cell w.tickets t).isSome) :
    CanCarryOut s calls w' where
  answers := by
    rw [hgrants]
    exact h.answers
  filed := by
    rw [htickets]
    exact h.filed
  found j m' t' hm' ht' := by
    rw [htrail] at hm'
    rw [htickets]
    rcases List.mem_cons.mp hm' with heq | hm'
    · cases heq
      exact hfound t' ht'
    · exact h.found j m' t' hm' ht'

/-- An operation on one ticket keeps its call, and leaves a verdict that can be carried
    out. -/
theorem CanCarryOut.acts {op : Cell → Bool × Cell} {res : Bool × σ} (h : CanCarryOut s calls w)
    (hacts : ActsOn LawfulTicketStore.cell op w.tickets t res)
    (hop : ∀ c, c.decision.Carriable → (op c).2.call = c.call ∧ (op c).2.decision.Carriable) :
    CanCarryOut s calls { w with tickets := res.2 } where
  answers := h.answers
  filed t' c' hc' := by
    have hcells : LawfulTicketStore.cell res.2 t' = some c' := hc'
    rw [hacts.cells] at hcells
    by_cases ht : t' = t
    · subst ht
      rw [Function.update_self] at hcells
      obtain ⟨c, hc, rfl⟩ := Option.map_eq_some_iff.mp hcells
      obtain ⟨hcall, hdecision⟩ := h.filed t' c hc
      obtain ⟨hsame, hcarriable⟩ := hop c hdecision
      rw [hsame]
      exact ⟨hcall, hcarriable⟩
    · rw [Function.update_of_ne ht] at hcells
      exact h.filed t' c' hcells
  found j m' t' hm' ht' := by
    have hold := h.found j m' t' hm' ht'
    show (LawfulTicketStore.cell res.2 t').isSome
    rw [hacts.cells]
    by_cases ht : t' = t
    · subst ht
      rw [Function.update_self, Option.isSome_map]
      exact hold
    · rw [Function.update_of_ne ht]
      exact hold

-- ============================================================================
-- Await points
-- ============================================================================

/-- A block of a thread that has made the marks `pre`. -/
theorem orderly_block {β : Type} {block : Slot Input → World σ → Option (β × World σ)}
    (post : β → List Mark → Prop)
    (h : ∀ slot w x w', Input.Materializes slot.input → CanCarryOut s calls w →
      own i w.trail = pre → slot.me = i → block slot w = some (x, w') →
      CanCarryOut s calls w' ∧ ((w'.trail = w.trail ∧ post x pre) ∨
        ∃ m, w'.trail = (i, m) :: w.trail ∧ post x (m :: pre))) :
    (orderly σ s calls).Triple i pre ((Co.atomic block).given materializing) post := by
  refine Discipline.Triple.mark_given fun slot w x w' hinput hinv hk hme hb => ?_
  obtain ⟨hkept, hquiet | ⟨m, htrail, hpost⟩⟩ := h slot w x w' hinput hinv.2 hk.own hme hb
  · exact ⟨hkept, Or.inl hquiet⟩
  · exact ⟨hkept, Or.inr ⟨m, htrail, trivial, fun _ hstrikes => hstrikes.elim, hpost⟩⟩

/-- A block that leaves store, policy and trail alone. -/
theorem orderly_quiet {β : Type} {block : Slot Input → World σ → Option (β × World σ)}
    (h : ∀ slot w x w', block slot w = some (x, w') →
      w'.tickets = w.tickets ∧ w'.grants = w.grants ∧ w'.trail = w.trail) :
    (orderly σ s calls).Triple i pre ((Co.atomic block).given materializing)
      fun _ marks => marks = pre := by
  refine orderly_block _ fun slot w x w' _ hcan _ _ hb => ?_
  obtain ⟨htickets, hgrants, htrail⟩ := h slot w x w' hb
  have hkept : CanCarryOut s calls w' := by
    refine ⟨?_, ?_, ?_⟩
    · rw [hgrants]
      exact hcan.answers
    · rw [htickets]
      exact hcan.filed
    · rw [htickets, htrail]
      exact hcan.found
  exact ⟨hkept, Or.inl ⟨htrail, rfl⟩⟩

theorem orderly_ignoresAudit : IgnoresAudit (orderly σ s calls) materializing i :=
  fun _ event call fields => orderly_quiet fun slot w x w' hb => by
    cases hb
    exact ⟨rfl, rfl, rfl⟩

theorem readClock_orderly :
    (orderly σ s calls).Triple i pre ((readClock : Task σ Time).given materializing)
      fun _ marks => marks = pre :=
  orderly_quiet fun slot w x w' hb => by
    cases hb
    exact ⟨rfl, rfl, rfl⟩

theorem note_orderly (hfound : m.found = none) :
    (orderly σ s calls).Triple i pre ((note m : Task σ Unit).given materializing)
      fun _ marks => marks = m :: pre :=
  orderly_block _ fun slot w x w' _ hcan _ hme hb => by
    cases hb
    subst hme
    refine ⟨hcan.mark rfl rfl rfl fun t ht => ?_, Or.inr ⟨m, rfl, rfl⟩⟩
    rw [hfound] at ht
    cases ht

theorem grantFor_orderly {call : ToolCall} (hcall : calls call) :
    (orderly σ s calls).Triple i pre
      ((grantFor call : Task σ (Except PyError (Option Grant))).given materializing)
      fun answer marks => ∃ granted, answer = .ok granted ∧
        (∀ grant, granted = some grant → grant.Readable s) ∧ ∀ m ∈ pre, m ∈ marks := by
  refine orderly_block _ fun slot w x w' _ hcan _ hme hb => ?_
  subst hme
  obtain ⟨granted, hgranted, hreadable⟩ := hcan.answers call hcall
  cases granted with
  | none =>
      simp only [hgranted] at hb
      cases hb
      exact ⟨hcan, Or.inl ⟨rfl, none, rfl, hreadable, fun m hm => hm⟩⟩
  | some grant =>
      simp only [hgranted] at hb
      cases hb
      exact ⟨hcan.mark rfl rfl rfl (fun t ht => by cases ht), Or.inr ⟨_, rfl, some grant, rfl,
        hreadable, fun m hm => List.mem_cons_of_mem _ hm⟩⟩

theorem createTicket_orderly {call : ToolCall} (hcall : calls call) :
    (orderly σ s calls).Triple i pre
      ((createTicket call : Task σ (Except PyError TicketId)).given materializing)
      fun r marks => ∃ t, r = .ok t ∧ marks = .created t call :: pre := by
  refine orderly_block _ fun slot w x w' _ hcan _ hme hb => ?_
  subst hme
  dsimp only at hb
  split at hb
  · cases hb
  next hget =>
    have hfree : LawfulTicketStore.cell w.tickets ("tkt-" ++ slot.input.uuid) = none := by
      rw [LawfulTicketStore.get_eq] at hget
      exact Option.map_eq_none_iff.mp hget
    obtain ⟨tickets, hcreate, hcells⟩ :=
      LawfulTicketStore.create_fresh w.tickets _ call slot.input.now hfree
    rw [hcreate] at hb
    cases hb
    refine ⟨⟨hcan.answers, fun t' c' hc' => ?_, fun j m' t' hm' ht' => ?_⟩,
      Or.inr ⟨_, rfl, _, rfl, rfl⟩⟩
    · have hcell : LawfulTicketStore.cell tickets t' = some c' := hc'
      rw [hcells] at hcell
      by_cases ht : t' = "tkt-" ++ slot.input.uuid
      · rw [ht, Function.update_self] at hcell
        cases hcell
        exact ⟨hcall, fun happroved => by cases happroved⟩
      · rw [Function.update_of_ne ht] at hcell
        exact hcan.filed t' c' hcell
    · show (LawfulTicketStore.cell tickets t').isSome
      rw [hcells]
      by_cases ht : t' = "tkt-" ++ slot.input.uuid
      · rw [ht, Function.update_self]
        rfl
      · rw [Function.update_of_ne ht]
        rcases List.mem_cons.mp hm' with heq | hm'
        · cases heq
          cases ht'
          exact absurd rfl ht
        · exact hcan.found j m' t' hm' ht'

/-- A ticket the thread has met is there. -/
theorem getTicket_orderly (t : TicketId) :
    (orderly σ s calls).Triple i pre
      ((getTicket t : Task σ (Option Ticket)).given materializing) fun found marks =>
        (∃ ticket, found = some ticket ∧ marks = .read t ticket :: pre ∧ calls ticket.call ∧
          ticket.decision.Carriable) ∨
        (found = none ∧ marks = .missed t :: pre ∧ ∀ m ∈ pre, m.found ≠ some t) := by
  refine orderly_block _ fun slot w x w' _ hcan hown hme hb => ?_
  subst hme
  have hget := LawfulTicketStore.get_eq w.tickets t
  cases hc : LawfulTicketStore.cell w.tickets t with
  | some c =>
      rw [hc, Option.map_some] at hget
      simp only [hget] at hb
      cases hb
      refine ⟨hcan.mark rfl rfl rfl fun t' ht' => ?_,
        Or.inr ⟨_, rfl, Or.inl ⟨_, rfl, rfl, hcan.filed t c hc⟩⟩⟩
      cases ht'
      rw [hc]
      rfl
  | none =>
      rw [hc, Option.map_none] at hget
      simp only [hget] at hb
      cases hb
      refine ⟨hcan.mark rfl rfl rfl (fun t' ht' => by cases ht'), Or.inr ⟨_, rfl, Or.inr ⟨rfl, rfl,
        fun m hm hfound => ?_⟩⟩⟩
      have hthere := hcan.found _ m t (mem_own.mp (hown ▸ hm)) hfound
      rw [hc] at hthere
      cases hthere

theorem decideTicket_orderly {t : TicketId} {d : Decision} (hd : d.Carriable) :
    (orderly σ s calls).Triple i pre ((decideTicket t d : Task σ Bool).given materializing)
      fun _ marks => ∀ m ∈ pre, m ∈ marks := by
  refine orderly_block _ fun slot w x w' _ hcan _ hme hb => ?_
  subst hme
  have hkept := hcan.acts (LawfulTicketStore.decide_acts w.tickets t d) fun c hc => by
    unfold Cell.decide
    split
    · exact ⟨rfl, hd⟩
    · exact ⟨rfl, hc⟩
  cases hdecide : TicketStore.decide w.tickets t d with
  | mk won tickets =>
      rw [hdecide] at hkept
      simp only [hdecide] at hb
      cases won with
      | true =>
          cases hb
          exact ⟨hkept.mark rfl rfl rfl (fun t' ht' => by cases ht'),
            Or.inr ⟨_, rfl, fun m hm => List.mem_cons_of_mem _ hm⟩⟩
      | false =>
          cases hb
          exact ⟨hkept.mark rfl rfl rfl (fun t' ht' => by cases ht'),
            Or.inr ⟨_, rfl, fun m hm => List.mem_cons_of_mem _ hm⟩⟩

theorem claimTicket_orderly (t : TicketId) :
    (orderly σ s calls).Triple i pre ((claimTicket t : Task σ Bool).given materializing)
      fun won marks => (won = true ∧ ∃ now, marks = .claimed t now :: pre) ∨
        (won = false ∧ marks = pre) := by
  refine orderly_block _ fun slot w x w' _ hcan _ hme hb => ?_
  subst hme
  have hacts := LawfulTicketStore.claim_acts w.tickets t slot.input.now
  have hkept := hcan.acts hacts fun c hc => by
    unfold Cell.claim
    split <;> exact ⟨rfl, hc⟩
  cases hclaim : TicketStore.claim w.tickets t slot.input.now with
  | mk won tickets =>
      rw [hclaim] at hkept hacts
      simp only [hclaim] at hb
      cases won with
      | true =>
          cases hb
          refine ⟨hkept.mark rfl rfl rfl fun t' ht' => ?_,
            Or.inr ⟨_, rfl, Or.inl ⟨rfl, _, rfl⟩⟩⟩
          cases ht'
          obtain ⟨c, -, -, hcells⟩ := hacts.of_true
          show (LawfulTicketStore.cell tickets t).isSome
          rw [hcells, Function.update_self]
          rfl
      | false =>
          cases hb
          exact ⟨hkept, Or.inl ⟨rfl, Or.inr ⟨rfl, rfl⟩⟩⟩

theorem closeStaleClaim_orderly (t : TicketId) (older : Time) (result : ToolResult) :
    (orderly σ s calls).Triple i pre
      ((closeStaleClaim t older result : Task σ Bool).given materializing)
      fun _ marks => ∀ m ∈ pre, m ∈ marks := by
  refine orderly_block _ fun slot w x w' _ hcan _ hme hb => ?_
  subst hme
  have hkept := hcan.acts
    (LawfulTicketStore.closeStaleClaim_acts w.tickets t slot.input.now older result) fun c hc => by
      unfold Cell.closeStaleClaim
      split <;> exact ⟨rfl, hc⟩
  cases hclose : TicketStore.closeStaleClaim w.tickets t slot.input.now older result with
  | mk closed tickets =>
      rw [hclose] at hkept
      simp only [hclose] at hb
      cases closed with
      | true =>
          cases hb
          exact ⟨hkept.mark rfl rfl rfl (fun t' ht' => by cases ht'),
            Or.inr ⟨_, rfl, fun m hm => List.mem_cons_of_mem _ hm⟩⟩
      | false =>
          cases hb
          exact ⟨hkept, Or.inl ⟨rfl, fun m hm => hm⟩⟩

/-- Whoever won the claim can store its outcome. -/
theorem completeTicket_orderly {t : TicketId} {now : Time} (hclaimed : .claimed t now ∈ pre)
    (outcome : Except GatewayError ToolResult) :
    (orderly σ s calls).Triple i pre
      ((completeTicket t outcome : Task σ (Except PyError Unit)).given materializing)
      fun r marks => r = .ok () ∧ ∀ m ∈ pre, m ∈ marks := by
  refine orderly_block _ fun slot w x w' _ hcan hown hme hb => ?_
  subst hme
  obtain ⟨c, hc⟩ := Option.isSome_iff_exists.mp
    (hcan.found _ _ t (mem_own.mp (hown ▸ hclaimed)) rfl)
  obtain ⟨tickets, hcomplete, hcells⟩ :=
    LawfulTicketStore.complete_known w.tickets t (storedResult outcome) c hc
  simp only [hcomplete] at hb
  cases hb
  have hacts : ActsOn LawfulTicketStore.cell (fun c => (true, c.complete (storedResult outcome)))
      w.tickets t (true, tickets) := .of_done hc rfl hcells
  have hkept := hcan.acts hacts fun c hc => ⟨rfl, hc⟩
  exact ⟨hkept.mark rfl rfl rfl (fun t' ht' => by cases ht'),
    Or.inr ⟨_, rfl, rfl, fun m hm => List.mem_cons_of_mem _ hm⟩⟩

-- ============================================================================
-- The pipeline after the approval
-- ============================================================================

variable {ctx : CallContext} {α γ : Type}

/-- What a program ends with, in a run whose services answer. -/
abbrev Carries (s : Settings) (calls : ToolCall → Prop) (i : ℕ) (pre : List Mark) (c : γ)
    (m : Prog Exc γ Input (World σ) α) (post : Except Exc α → γ → List Mark → Prop) : Prop :=
  (orderly σ s calls).SpecGiven materializing i pre c m post

/-- Ended with a result or a GatewayError, with the marks it had. -/
def Through (pre : List Mark) (r : Except Exc α) (_ : γ) (marks : List Mark) : Prop :=
  EndsWell r ∧ ∀ m ∈ pre, m ∈ marks

omit [TicketStore σ] [LawfulTicketStore σ] in
theorem Through.of_cons {r : Except Exc α} {c : γ} {marks : List Mark}
    (h : Through (m :: pre) r c marks) : Through pre r c marks :=
  ⟨h.1, fun m' hm' => h.2 m' (List.mem_cons_of_mem _ hm')⟩

omit [TicketStore σ] [LawfulTicketStore σ] in
theorem Through.of_subset {mid : List Mark} {r : Except Exc α} {c : γ} {marks : List Mark}
    (h : Through mid r c marks) (hsubset : ∀ m ∈ pre, m ∈ mid) : Through pre r c marks :=
  ⟨h.1, fun m hm => h.2 m (hsubset m hm)⟩

theorem dispatch_carries {callNext : StepM σ ToolResult} :
    Carries s calls i pre ctx (Dispatch.handleCall callNext) (Through pre) := by
  refine .get_bind (.lift_bind (orderly_block (fun _ marks => ∀ m ∈ pre, m ∈ marks)
    fun slot w x w' _ hcan _ hme hb => ?_) ?_)
  · cases hb
    subst hme
    exact ⟨hcan.mark rfl rfl rfl (fun t ht => by cases ht),
      Or.inr ⟨_, rfl, fun m hm => List.mem_cons_of_mem _ hm⟩⟩
  intro started marks hmarks
  refine .lift_bind (orderly_block (fun _ marks => ∀ m ∈ pre, m ∈ marks)
    fun slot w x w' _ hcan _ hme hb => ?_) ?_
  · cases hb
    subst hme
    exact ⟨hcan.mark rfl rfl rfl (fun t ht => by cases ht),
      Or.inr ⟨_, rfl, fun m hm => List.mem_cons_of_mem _ (hmarks m hm)⟩⟩
  rintro ⟨answer, now⟩ marks' hmarks'
  cases answer with
  | raised typeName text =>
      exact audit_given orderly_ignoresAudit (.throw ⟨endsWell_gateway _, hmarks'⟩)
  | result r =>
      refine .lift_bind (note_orderly rfl) ?_
      rintro ⟨⟩ marks'' rfl
      exact audit_given orderly_ignoresAudit
        (.pure ⟨endsWell_ok _, fun m hm => List.mem_cons_of_mem _ (hmarks' m hm)⟩)

theorem redact_carries (hredacts : s.Redacts) {callNext : StepM σ ToolResult}
    (h : Carries s calls i pre ctx callNext (Through pre)) :
    Carries s calls i pre ctx ((Redact s.redact).handleCall callNext) (Through pre) := by
  refine .bind h (fun r ctx' marks hmid => .get_bind ?_) fun e ctx' marks hmid => ?_
  · split
    · exact .pure ⟨endsWell_ok _, hmid.2⟩
    · exact audit_given orderly_ignoresAudit (.throw ⟨endsWell_gateway _, hmid.2⟩)
    · next e _ he =>
        refine .throw ⟨fun e' he' => ?_, hmid.2⟩
        cases he'
        exact hredacts _ _ _ he
  · exact ⟨fun e' he' => hmid.1 e' (by cases he'; rfl), hmid.2⟩

theorem materialize_carries {callNext : StepM σ ToolResult} (hobject : Json.IsObject ctx.call.arguments)
    (h : ∀ marks ctx', Carries s calls i marks ctx' callNext (Through marks)) :
    Carries s calls i pre ctx (MaterializeSecrets.handleCall callNext) (Through pre) := by
  refine .get_bind (.lift_bind
    (orderly_block (fun answer marks => EndsWell answer ∧ ∀ m ∈ pre, m ∈ marks)
      fun slot w x w' hinput hcan _ hme hb => ?_) ?_)
  · cases hb
    subst hme
    exact ⟨hcan.mark rfl rfl rfl (fun t ht => by cases ht), Or.inr ⟨_, rfl,
      fun e he => hinput _ _ _ e hobject he, fun m hm => List.mem_cons_of_mem _ hm⟩⟩
  rintro answer marks ⟨hproper, hmarks⟩
  cases answer with
  | error e => exact .throw ⟨fun e' he' => hproper e' (by cases he'; rfl), hmarks⟩
  | ok found =>
      obtain ⟨materialized, refs⟩ := found
      refine .modify_bind ?_
      by_cases hrefs : refs = []
      · simp only [hrefs, ne_eq, not_true_eq_false, if_false]
        exact .mono (h marks _) fun _ _ _ hthrough => hthrough.of_subset hmarks
      · simp only [hrefs, ne_eq, not_false_eq_true, if_true]
        exact .modify_bind (audit_given orderly_ignoresAudit
          (.mono (h marks _) fun _ _ _ hthrough => hthrough.of_subset hmarks))

/-- The pipeline on an object, for a grant with a schema that can be read. -/
theorem postApproval_carries (hredacts : s.Redacts) {grant : Grant} (hgrant : ctx.grant = some grant)
    (hreadable : grant.Readable s) (hobject : Json.IsObject ctx.call.arguments) :
    Carries s calls i pre ctx (Pipeline.run (postApproval s []) : StepM σ ToolResult)
      (Through pre) := by
  rw [postApproval_nil]
  have hschema : ctx.inputSchema = grant.inputSchema := by rw [CallContext.inputSchema, hgrant]
  refine audited_given orderly_ignoresAudit (.get_bind ?_)
  rw [hschema]
  obtain ⟨errors, herrors⟩ := hreadable _ hobject
  refine orRaise_given (fun errors' _ => ?_) fun e he => by rw [herrors] at he; cases he
  by_cases hempty : errors' = []
  · simp only [hempty, if_true]
    refine .lift_bind (note_orderly rfl) ?_
    rintro ⟨⟩ marks rfl
    refine .mono (audited_given orderly_ignoresAudit (materialize_carries hobject
      fun marks ctx' => ?_)) fun _ _ _ hthrough => hthrough.of_cons
    exact redact_carries hredacts dispatch_carries
  · simp only [hempty, if_false]
    exact .throw ⟨endsWell_gateway _, fun m hm => hm⟩

-- ============================================================================
-- The verdict
-- ============================================================================

omit [TicketStore σ] [LawfulTicketStore σ] in
/-- An edit of one object to another can be adopted. -/
theorem adoptable_of_carriable {d : Decision} (hd : d.Carriable) (happroved : d.approved = true)
    {arguments : Json} (hobject : Json.IsObject arguments) : d.Adoptable arguments := by
  intro hedits
  obtain ⟨before, rfl⟩ := hobject
  rcases hd happroved with hnull | ⟨after, hafter⟩
  · rw [Decision.edits, hnull] at hedits
    cases hedits
  · obtain ⟨changed, hchanged, -⟩ := changedFields_dict before after
    exact ⟨changed, by rw [hafter, hchanged]⟩

/-- The verdict is told, or the call goes on with an object. -/
theorem applyDecision_carries {d : Decision} (hd : d.Carriable)
    (hobject : Json.IsObject ctx.call.arguments) :
    Carries s calls i pre ctx (applyDecision d : StepM σ Unit) fun r ctx' marks =>
      marks = pre ∧ EndsWell r ∧
        (r = .ok () → ctx'.grant = ctx.grant ∧ Json.IsObject ctx'.call.arguments) := by
  have hret : ∀ r ctx', (applyDecision d : StepM σ Unit).exec ctx = .ret (r, ctx') →
      (EndsWell r ∧ (r = .ok () → ctx'.grant = ctx.grant ∧ Json.IsObject ctx'.call.arguments)) →
      Carries s calls i pre ctx (applyDecision d : StepM σ Unit) fun r ctx' marks =>
        marks = pre ∧ EndsWell r ∧
          (r = .ok () → ctx'.grant = ctx.grant ∧ Json.IsObject ctx'.call.arguments) := by
    intro r ctx' hexec hpost
    show (orderly σ s calls).Triple i pre (Co.given _ (Prog.exec _ ctx)) _
    rw [hexec]
    exact Discipline.Triple.ret ⟨rfl, hpost⟩
  cases happroved : d.approved with
  | false =>
      refine hret _ _ (applyDecision_denied happroved) ⟨endsWell_gateway _, fun hr => ?_⟩
      cases hr
  | true =>
      cases hedits : d.edits ctx.call.arguments with
      | false =>
          exact hret _ _ (applyDecision_unedited happroved hedits)
            ⟨endsWell_ok _, fun _ => ⟨rfl, hobject⟩⟩
      | true =>
          obtain ⟨changed, hchanged⟩ := adoptable_of_carriable hd happroved hobject hedits
          refine hret _ _ (applyDecision_edited happroved hedits hchanged)
            ⟨endsWell_ok _, fun _ => ⟨rfl, ?_⟩⟩
          rcases hd happroved with hnull | hafter
          · rw [Decision.edits, hnull] at hedits
            cases hedits
          · exact hafter

theorem lostClaim_carries (lease : Time) :
    Carries s calls i pre ctx (lostClaim t lease : StepM σ ToolResult) (Through pre) := by
  have hclose : ∀ m, Carries s calls i (m :: pre) ctx
      (do
        if ← Prog.lift (closeStaleClaim t lease interrupted) then return interrupted
        else throw (.gateway (.pendingApproval t)) : StepM σ ToolResult) (Through pre) := by
    intro m
    refine .lift_bind (closeStaleClaim_orderly t lease interrupted) ?_
    intro closed marks hmarks
    have hpre : ∀ m ∈ pre, m ∈ marks := fun m' hm' => hmarks m' (List.mem_cons_of_mem _ hm')
    cases closed with
    | true => exact .pure ⟨endsWell_ok _, hpre⟩
    | false => exact .throw ⟨endsWell_gateway _, hpre⟩
  refine .lift_bind (getTicket_orderly t) ?_
  rintro found marks (⟨ticket, rfl, rfl, -⟩ | ⟨rfl, rfl, -⟩)
  · cases hresult : ticket.result with
    | some r =>
        simp only [Option.bind_some, hresult]
        exact .pure ⟨endsWell_ok _, fun m hm => List.mem_cons_of_mem _ hm⟩
    | none =>
        simp only [Option.bind_some, hresult]
        exact hclose _
  · exact hclose _

theorem runOnce_carries (hredacts : s.Redacts) {grant : Grant} (hgrant : ctx.grant = some grant)
    (hreadable : grant.Readable s) (hobject : Json.IsObject ctx.call.arguments) (lease : Time) :
    Carries s calls i pre ctx
      (runOnce t lease (Pipeline.run (postApproval s [])) : StepM σ ToolResult) (Through pre) := by
  refine .lift_bind (claimTicket_orderly t) ?_
  rintro won marks (⟨rfl, now, rfl⟩ | ⟨rfl, rfl⟩)
  swap
  · exact lostClaim_carries lease
  refine .get_bind (.lift_bind (note_orderly rfl) ?_)
  rintro ⟨⟩ marks rfl
  -- the claim stays among the marks, so the outcome can be stored
  have hstore : ∀ (outcome : Except GatewayError ToolResult) (marks : List Mark) (ctx' : CallContext)
      (f : Except PyError Unit → StepM σ ToolResult),
      (∀ m ∈ Mark.started t ctx.call.arguments :: .claimed t now :: pre, m ∈ marks) →
      (∀ marks', (∀ m ∈ marks, m ∈ marks') → Carries s calls i marks' ctx' (f (.ok ())) (Through marks)) →
      Carries s calls i marks ctx' (Prog.lift (completeTicket t outcome) >>= f) (Through marks) := by
    intro outcome marks ctx' f hmarks hf
    refine .lift_bind (completeTicket_orderly (hmarks (.claimed t now) (by simp)) outcome) ?_
    rintro r marks' ⟨rfl, hmarks'⟩
    exact hf marks' hmarks'
  have hrun : Carries s calls i (.started t ctx.call.arguments :: .claimed t now :: pre) ctx
      (tryCatch (Pipeline.run (postApproval s [])) (keepError t) : StepM σ ToolResult)
      (Through (.started t ctx.call.arguments :: .claimed t now :: pre)) := by
    refine .tryCatch (postApproval_carries hredacts hgrant hreadable hobject)
      (fun _ _ _ h => h) fun e ctx' marks h => ?_
    cases e with
    | gateway e =>
        refine .mono (hstore _ marks ctx' _ h.2 fun marks' hmarks' => ?_) fun _ _ _ hend =>
          hend.of_subset h.2
        exact .throw ⟨endsWell_gateway _, hmarks'⟩
    | _ =>
        have hforeign := h.1 _ rfl
        cases hforeign
  refine .bind hrun (fun r ctx' marks h => ?_) fun e _ _ h => ⟨fun e' he' => h.1 e' (by
    cases he'; rfl), (h.of_cons).of_cons.2⟩
  refine .mono (hstore _ marks ctx' _ h.2 fun marks' hmarks' => ?_) fun _ _ _ hend =>
    (hend.of_subset h.2).of_cons.of_cons
  exact .pure ⟨endsWell_ok _, hmarks'⟩

-- ============================================================================
-- The gate
-- ============================================================================

/-- A caller that waits for the verdict on its own ticket is always told one. -/
theorem awaitDecision_carries {call : ToolCall} (hcreated : .created t call ∈ pre) (deadline : Time)
    (rechecks : ℕ) :
    Carries s calls i pre ctx (awaitDecision t deadline rechecks : StepM σ Decision)
      fun r ctx' marks => ctx' = ctx ∧ (∀ m ∈ pre, m ∈ marks) ∧
        ∃ d : Decision, r = .ok d ∧ d.Carriable := by
  induction rechecks generalizing pre with
  | zero =>
      have hnever : (orderly σ s calls).Triple i pre
          ((Co.atomic fun _ _ => none : Task σ Decision).given materializing) fun _ _ => False :=
        orderly_block _ fun slot w x w' _ _ _ _ hb => by cases hb
      exact .lift hnever fun a marks h => h.elim
  | succ rechecks ih =>
      refine .lift_bind (getTicket_orderly t) ?_
      rintro found marks (⟨ticket, rfl, rfl, -, hcarriable⟩ | ⟨rfl, rfl, hnone⟩)
      swap
      · exact absurd rfl (hnone _ hcreated)
      by_cases hpending : ticket.decision.status = .pending
      swap
      · simp only [ne_eq, hpending, not_false_eq_true, if_true]
        exact .pure ⟨rfl, fun m hm => List.mem_cons_of_mem _ hm, _, rfl, hcarriable⟩
      simp only [hpending, ne_eq, not_true_eq_false, if_false]
      refine .lift_bind readClock_orderly ?_
      rintro now marks rfl
      by_cases hdue : deadline - now ≤ 0
      · rw [if_pos hdue]
        refine .pure ⟨rfl, fun m hm => List.mem_cons_of_mem _ hm, _, rfl, fun happroved => ?_⟩
        cases happroved
      rw [if_neg hdue]
      refine .lift_bind (orderly_quiet fun slot w x w' hb => by cases hb; exact ⟨rfl, rfl, rfl⟩) ?_
      rintro ⟨⟩ marks rfl
      exact .mono (ih (List.mem_cons_of_mem _ hcreated)) fun _ _ _ h =>
        ⟨h.1, fun m hm => h.2.1 m (List.mem_cons_of_mem _ hm), h.2.2⟩

theorem settle_carries {call : ToolCall} (hcreated : .created t call ∈ pre) {awaited : Decision}
    (hawaited : awaited.Carriable) :
    Carries s calls i pre ctx (settle t awaited : StepM σ Decision)
      fun r ctx' marks => ctx' = ctx ∧ (∀ m ∈ pre, m ∈ marks) ∧
        ∃ d : Decision, r = .ok d ∧ d.Carriable := by
  by_cases htimeout : awaited.status = .timeout
  swap
  · rw [settle, if_neg htimeout]
    exact .pure ⟨rfl, fun m hm => hm, _, rfl, hawaited⟩
  rw [settle, if_pos htimeout]
  refine .lift_bind (decideTicket_orderly hawaited) ?_
  intro won marks hmarks
  cases won with
  | true => exact .pure ⟨rfl, hmarks, _, rfl, hawaited⟩
  | false =>
      refine .lift_bind (getTicket_orderly t) ?_
      rintro found marks' (⟨ticket, rfl, rfl, -, hcarriable⟩ | ⟨rfl, rfl, hnone⟩)
      · exact .pure ⟨rfl, fun m hm => List.mem_cons_of_mem _ (hmarks m hm), _, rfl, hcarriable⟩
      · exact absurd rfl (hnone _ (hmarks _ hcreated))

/-- The verdict on a granted call, and its execution. -/
theorem enforce_carries (hredacts : s.Redacts) {d : Decision} (hd : d.Carriable) {grant : Grant}
    (hgrant : ctx.grant = some grant) (hreadable : grant.Readable s)
    (hobject : Json.IsObject ctx.call.arguments) {k : Unit → StepM σ ToolResult}
    (hk : ∀ marks ctx', Carries s calls i marks ctx'
        (runOnce t s.gate.lease (Pipeline.run (postApproval s [])) : StepM σ ToolResult)
        (Through marks) →
      Carries s calls i marks ctx' (k ()) (Through marks)) :
    Carries s calls i pre ctx (applyDecision d >>= k) (Through pre) := by
  refine .bind (applyDecision_carries hd hobject) ?_ ?_
  · rintro ⟨⟩ ctx' marks ⟨rfl, -, hgo⟩
    obtain ⟨hgrant', hobject'⟩ := hgo rfl
    exact hk _ _ (runOnce_carries hredacts (hgrant'.trans hgrant) hreadable hobject' _)
  · rintro e ctx' marks ⟨rfl, hproper, -⟩
    exact ⟨fun e' he' => hproper e' (by cases he'; rfl), fun m hm => hm⟩

/-- The gate on a granted call. -/
theorem approvalGate_carries (hredacts : s.Redacts) (hcall : calls ctx.call) {grant : Grant}
    (hgrant : ctx.grant = some grant) (hreadable : grant.Readable s)
    (hobject : Json.IsObject ctx.call.arguments) :
    Carries s calls i pre ctx
      ((ApprovalGate s.gate).handleCall (Pipeline.run (postApproval s [])) : StepM σ ToolResult)
      (Through pre) := by
  refine .get_bind ?_
  simp only [hgrant, Option.map_some, Option.getD_some]
  by_cases hauto : grant.approvalMode = .auto
  · rw [if_pos hauto]
    exact postApproval_carries hredacts hgrant hreadable hobject
  rw [if_neg hauto]
  refine .lift_bind (createTicket_orderly hcall) ?_
  rintro created marks ⟨t, rfl, rfl⟩
  refine orRaise_given (fun a ha => ?_) fun e he => by cases he
  cases ha
  refine audit_given orderly_ignoresAudit ?_
  have hgate : Carries s calls i (.created t ctx.call :: pre) ctx
      (fromNotice s.gate t grant.approvalMode ctx.canBlock (Pipeline.run (postApproval s [])) :
        StepM σ ToolResult)
      (Through pre) := by
    rw [fromNotice]
    by_cases hhandle : grant.approvalMode = .async ∨ ctx.canBlock = false
    · rw [if_pos hhandle]
      exact .throw ⟨endsWell_gateway _, fun m hm => List.mem_cons_of_mem _ hm⟩
    rw [if_neg hhandle]
    refine .lift_bind readClock_orderly ?_
    rintro start marks rfl
    refine .bind (awaitDecision_carries List.mem_cons_self _ _) ?_ ?_
    swap
    · rintro e _ marks ⟨-, -, d, hd, -⟩
      cases hd
    rintro awaited ctx' marks ⟨rfl, hmarks, _, hd, hawaited⟩
    cases hd
    refine .bind (settle_carries (hmarks _ List.mem_cons_self) hawaited) ?_ ?_
    swap
    · rintro e _ marks ⟨-, -, d, hd, -⟩
      cases hd
    rintro d ctx'' marks' ⟨rfl, hmarks', _, hd, hcarriable⟩
    cases hd
    refine audit_given orderly_ignoresAudit (.lift_bind (note_orderly rfl) ?_)
    rintro ⟨⟩ marks'' rfl
    refine .mono (enforce_carries hredacts hcarriable hgrant hreadable hobject fun _ _ h => h)
      fun _ _ _ h => h.of_cons.of_subset fun m hm => ?_
    exact hmarks' m (hmarks m (List.mem_cons_of_mem _ hm))
  by_cases hnotifies : s.gate.notifies = true
  · rw [if_pos hnotifies]
    refine .lift_bind (orderly_quiet fun slot w x w' hb => by cases hb; exact ⟨rfl, rfl, rfl⟩) ?_
    rintro failure marks hmarks
    rw [hmarks]
    cases failure with
    | some error => exact audit_given orderly_ignoresAudit hgate
    | none => exact hgate
  · rw [if_neg hnotifies]
    exact hgate

-- ============================================================================
-- Entry points
-- ============================================================================

theorem call_carries (hredacts : s.Redacts) {toolCall : ToolCall} (hcall : calls toolCall)
    (hobject : Json.IsObject toolCall.arguments) (canBlock : Bool) :
    Carries s calls i pre () (call s [] toolCall canBlock : GatewayM σ Reply)
      fun reply _ _ => EndsWell reply := by
  have hauthorized : Carries s calls i pre { call := toolCall, canBlock := canBlock }
      (Pipeline.run (audited Authorize "authorize" :: audited (ApprovalGate s.gate) "approval" ::
        postApproval s []) : StepM σ ToolResult) (Through pre) := by
    refine audited_given orderly_ignoresAudit
      (.get_bind (.lift_bind (grantFor_orderly hcall) ?_))
    rintro answer marks ⟨granted, rfl, hreadable, hmarks⟩
    refine orRaise_given (fun found hfound => ?_) fun e he => by cases he
    cases hfound
    cases granted with
    | none => exact .throw ⟨endsWell_gateway _, hmarks⟩
    | some grant =>
        refine .modify_bind (audit_given orderly_ignoresAudit
          (audited_given orderly_ignoresAudit ?_))
        exact .mono (approvalGate_carries hredacts hcall rfl (hreadable grant rfl) hobject)
          fun _ _ _ h => h.of_subset hmarks
  have hfull : Carries s calls i pre { call := toolCall, canBlock := canBlock }
      (Pipeline.run (full s []) : StepM σ ToolResult) (Through pre) := by
    rw [full_nil]
    cases hlimited : s.limited with
    | false => exact hauthorized
    | true =>
        refine audited_given orderly_ignoresAudit (.get_bind (.lift_bind
          (orderly_quiet fun slot w x w' hb => by cases hb; exact ⟨rfl, rfl, rfl⟩) ?_))
        rintro admitted marks hmarks
        rw [hmarks]
        cases admitted with
        | true => exact hauthorized
        | false => exact .throw ⟨endsWell_gateway _, fun m hm => hm⟩
  have hrun : Carries s calls i pre { call := toolCall, canBlock := canBlock }
      (do return .result (← Pipeline.run (full s [])) : StepM σ Reply)
      fun reply _ _ => EndsWell reply := by
    refine .bind hfull (fun r ctx' marks _ => .pure (endsWell_ok _)) fun e ctx' marks h => ?_
    exact fun e' he' => h.1 e' (by cases he'; rfl)
  refine within_given (.tryCatch hrun (fun _ _ _ h => h) ?_) fun r ctx' marks (h : EndsWell r) => h
  intro e ctx' marks h
  have hrethrow : Carries s calls i marks ctx' (throw e : StepM σ Reply)
      fun reply _ _ => EndsWell reply := .throw h
  cases e with
  | gateway e =>
      cases e with
      | pendingApproval t => exact .pure (endsWell_ok _)
      | _ => exact hrethrow
  | _ => exact hrethrow

/-- Whoever resumes a ticket finds none, or is told a result or a GatewayError. -/
theorem resume_carries (hredacts : s.Redacts)
    (hobjects : ∀ call, calls call → Json.IsObject call.arguments) (t : TicketId) :
    Carries s calls i pre () (resume s [] t : GatewayM σ ToolResult)
      fun r _ marks => EndsWell r ∨ .missed t ∈ marks := by
  refine .lift_bind (getTicket_orderly t) ?_
  rintro found marks (⟨ticket, rfl, rfl, hcall, hcarriable⟩ | ⟨rfl, rfl, -⟩)
  swap
  · exact .throw (Or.inr List.mem_cons_self)
  cases hresult : ticket.result with
  | some r =>
      simp only [hresult]
      exact .pure (Or.inl (endsWell_ok r))
  | none =>
      by_cases hpending : ticket.decision.status = .pending
      · simp only [hresult, hpending, if_true]
        exact .throw (Or.inl (endsWell_gateway _))
      simp only [hresult, hpending, if_false]
      refine .lift_bind (grantFor_orderly hcall) ?_
      rintro answer marks ⟨granted, rfl, hreadable, -⟩
      refine orRaise_given (fun found hfound => ?_) fun e he => by cases he
      cases hfound
      cases granted with
      | none => exact .throw (Or.inl (endsWell_gateway _))
      | some grant =>
          refine within_given (.lift_bind (note_orderly rfl) ?_)
            fun r _ marks (h : EndsWell r ∨ .missed t ∈ marks) => h
          rintro ⟨⟩ marks' rfl
          exact .mono (enforce_carries hredacts hcarriable rfl (hreadable grant rfl)
            (hobjects _ hcall) fun _ _ h => audit_given orderly_ignoresAudit h)
            fun _ _ _ h => Or.inl h.1

theorem check_carries (hredacts : s.Redacts)
    (hobjects : ∀ call, calls call → Json.IsObject call.arguments) (agentId : String)
    (t : TicketId) :
    Carries s calls i [] () (check s [] agentId t : GatewayM σ Reply) fun _ _ _ => True := by
  refine .lift_bind (getTicket_orderly t) ?_
  rintro found marks (⟨ticket, rfl, rfl, -⟩ | ⟨rfl, rfl, -⟩)
  swap
  · exact .throw trivial
  by_cases hagent : ticket.call.agentId = agentId
  swap
  · simp only [hagent, ne_eq, not_false_eq_true, if_true]
    exact .throw trivial
  simp only [hagent, ne_eq, not_true_eq_false, if_false]
  by_cases hpending : ticket.decision.status = .pending
  · simp only [hpending, if_true]
    exact .pure trivial
  simp only [hpending, if_false]
  have hresume : Carries s calls i [.read t ticket] ()
      (do return .result (← resume s [] t) : GatewayM σ Reply) fun _ _ _ => True :=
    .bind (resume_carries hredacts hobjects t) (fun _ _ _ _ => .pure trivial)
      fun _ _ _ _ => trivial
  refine .tryCatch hresume (fun _ _ _ _ => trivial) fun e _ marks _ => ?_
  cases e with
  | gateway e => cases e <;> first | exact .pure trivial | exact .throw trivial
  | _ => exact .throw trivial

theorem decide_carries {d : Decision} (hd : d.status = .approved → d.Carriable) (t : TicketId) :
    Carries s calls i pre () (ToolGateway.decide t d : GatewayM σ Reply) fun _ _ _ => True := by
  by_cases hstatus : d.status = .approved ∨ d.status = .rejected
  swap
  · rw [ToolGateway.decide, if_neg hstatus]
    exact .throw trivial
  have hcarriable : d.Carriable := fun happroved =>
    hd (Decision.status_of_approved happroved) happroved
  rw [ToolGateway.decide, if_pos hstatus]
  refine .lift_bind (getTicket_orderly t) ?_
  rintro found marks (⟨ticket, rfl, rfl, -⟩ | ⟨rfl, rfl, -⟩)
  swap
  · exact .throw trivial
  refine .lift_bind (decideTicket_orderly hcarriable) ?_
  intro won marks _
  cases won with
  | false => exact .throw trivial
  | true =>
      refine .lift_bind (orderly_quiet fun slot w x w' hb => by cases hb; exact ⟨rfl, rfl, rfl⟩) ?_
      intro _ marks' _
      refine .lift_bind (orderly_ignoresAudit _ _ _ _) ?_
      intro _ marks'' _
      exact .pure trivial

theorem setPolicy_carries {grants : GrantResolver}
    (hanswers : ∀ call, calls call → s.Answers grants call) :
    Carries s calls i pre () (setPolicy grants : GatewayM σ Reply) fun _ _ _ => True := by
  refine .lift_bind (orderly_block (fun _ _ => True) fun slot w x w' _ hcan _ hme hb => ?_)
    fun _ _ _ => .pure trivial
  cases hb
  subst hme
  refine ⟨⟨hanswers, hcan.filed, fun j m t hm ht => ?_⟩, Or.inr ⟨_, rfl, trivial⟩⟩
  rcases List.mem_cons.mp hm with heq | hm
  · cases heq
    cases ht
  · exact hcan.found j m t hm ht

end

-- ============================================================================
-- Runs
-- ============================================================================

/-- Every call of the run has an object for its arguments, every verdict an edit that is
    one, and the services answer when they are given objects. -/
structure Serviceable (s : Settings) (actors : List Actor) (es : List (Event Input)) : Prop where
  calls : ∀ toolCall canBlock, Actor.call toolCall canBlock ∈ actors →
    Json.IsObject toolCall.arguments
  edits : ∀ t d, Actor.decide t d ∈ actors → d.Carriable
  policies : ∀ grants toolCall canBlock, Actor.setPolicy grants ∈ actors →
    Actor.call toolCall canBlock ∈ actors → s.Answers grants toolCall
  inputs : ∀ i input, .step i input ∈ es → input.Materializes
  redactor : s.Redacts

/-- How an actor is left. -/
def Actor.LeftWell (actor : Actor) (reply : Except Exc Reply) (marks : List Mark) : Prop :=
  match actor with
  | .call .. => EndsWell reply
  | .resume t => EndsWell reply ∨ .missed t ∈ marks
  | _ => True

/-- One of the actors calls it. -/
def CalledBy (actors : List Actor) (call : ToolCall) : Prop :=
  ∃ canBlock, Actor.call call canBlock ∈ actors

section
variable {σ : Type} [TicketStore σ] [LawfulTicketStore σ] {s : Settings} {actors : List Actor}
  {es es' : List (Event Input)} {i : ℕ}

theorem Actor.entry_carries (h : Serviceable s actors es) {actor : Actor} (hactor : actor ∈ actors) :
    Carries s (CalledBy actors) i [] () (actor.entry s : GatewayM σ Reply)
      fun reply _ marks => actor.LeftWell reply marks := by
  have hobjects : ∀ call, CalledBy actors call → Json.IsObject call.arguments :=
    fun call ⟨canBlock, hcall⟩ => h.calls call canBlock hcall
  cases actor with
  | call toolCall canBlock =>
      exact call_carries h.redactor ⟨canBlock, hactor⟩ (h.calls _ _ hactor) canBlock
  | resume t =>
      refine .bind (resume_carries h.redactor hobjects t) (fun r _ marks _ => ?_)
        fun e _ marks hend => ?_
      · exact .pure (Or.inl (endsWell_ok _))
      · exact hend.imp_left fun hproper e' he' => hproper e' (by cases he'; rfl)
  | check agentId t => exact check_carries h.redactor hobjects agentId t
  | decide t d => exact decide_carries (fun _ => h.edits t d hactor) t
  | setPolicy grants =>
      exact setPolicy_carries fun call ⟨canBlock, hcall⟩ => h.policies grants call canBlock hactor hcall

theorem Actor.program_carries (h : Serviceable s actors es) {actor : Actor}
    (hactor : actor ∈ actors) :
    (orderly σ s (CalledBy actors)).Triple i [] ((actor.program s).given materializing)
      fun reply marks => actor.LeftWell reply marks := by
  show (orderly σ s (CalledBy actors)).Triple i [] (Co.given _ ((actor.entry s).exec () >>= _)) _
  rw [Co.given_bind]
  refine Discipline.Triple.bind (Actor.entry_carries h hactor) ?_
  rintro ⟨reply, _⟩ marks hleft
  exact Discipline.Triple.ret hleft

theorem fresh_canCarryOut (calls : ToolCall → Prop) : CanCarryOut s calls (World.fresh σ) where
  answers call _ := ⟨none, rfl, fun grant h => by cases h⟩
  filed t c hc := by
    rw [show LawfulTicketStore.cell (World.fresh σ).tickets t = none from
      LawfulTicketStore.cell_empty t] at hc
    cases hc
  found i m t hm := by cases hm

/-- How the actors of a serviceable run are left. -/
theorem left_well (h : Serviceable s actors es) {actor : Actor} (hactor : actors[i]? = some actor)
    {reply : Except Exc Reply} (htold : toldAfter σ s actors es i = some reply) :
    actor.LeftWell reply (own i (worldAfter σ s actors es).trail) := by
  have hthreads : ∀ i co, ((gateway σ s actors).given materializing).threads[i]? = some (some co) →
      (orderly σ s (CalledBy actors)).Triple i [] co fun reply marks =>
        ∀ actor, actors[i]? = some actor → actor.LeftWell reply marks := by
    intro i co hi
    rw [Config.getElem?_given] at hi
    obtain ⟨t, ht, hco⟩ := Option.map_eq_some_iff.mp hi
    obtain ⟨co₀, rfl, rfl⟩ := Option.map_eq_some_iff.mp hco
    rw [gateway, List.getElem?_map, Option.map_eq_some_iff] at ht
    obtain ⟨actor, hactor, hprogram⟩ := ht
    cases hprogram
    refine (Actor.program_carries h (List.mem_of_getElem? hactor)).mono
      fun reply marks hleft actor' hactor' => ?_
    rw [hactor] at hactor'
    cases hactor'
    exact hleft
  have hrun := Discipline.run (D := orderly σ s (CalledBy actors))
    (c := (gateway σ s actors).given materializing) (fresh_canCarryOut _) rfl hthreads es
  have hknown : ∀ es₁ e es₂, es = es₁ ++ e :: es₂ →
      ((gateway σ s actors).run es₁).Known materializing e := by
    intro es₁ e es₂ hes
    cases e with
    | kill j => trivial
    | step j input => exact h.inputs j input (by simp [hes])
  rw [Config.run_given _ hknown] at hrun
  exact hrun.2.2 i reply (by rw [Config.outcome_given]; exact htold) actor hactor

/-- In every serviceable run, whoever resumes a ticket that was there, and whoever calls and
    waits for the verdict, ends with a result, a ticket to poll or a GatewayError. -/
theorem accepted_carried_out (h : Serviceable s actors (es ++ es')) {t : TicketId} {c : Cell}
    (hc : LawfulTicketStore.cell (worldAfter σ s actors es).tickets t = some c)
    {reply : Except Exc Reply} (htold : toldAfter σ s actors (es ++ es') i = some reply)
    (hattempt : (actors[i]? = some (.resume t) ∧ own i (worldAfter σ s actors es).trail = []) ∨
      ∃ toolCall canBlock, actors[i]? = some (.call toolCall canBlock)) :
    EndsWell reply := by
  obtain ⟨hactor, hunbegun⟩ | ⟨toolCall, canBlock, hactor⟩ := hattempt
  swap
  · exact left_well h hactor htold
  refine (left_well h hactor htold).resolve_right fun hmissed => ?_
  obtain ⟨new, hnew⟩ := run_grows σ s actors es es'
  have hlegal : Legal (Allowed s) (worldAfter σ s actors (es ++ es')).trail := run_legal
  rw [hnew] at hmissed hlegal
  have hlate : (i, .missed t) ∈ new := by
    rcases List.mem_append.mp (mem_own.mp hmissed) with hlate | hearly
    · exact hlate
    · rw [← mem_own, hunbegun] at hearly
      cases hearly
  have hcell : cellOf t (worldAfter σ s actors es).trail = some c := by rw [← run_cell, hc]
  exact late_missed hlegal hcell hlate

end

-- ============================================================================
-- An edit that is not an object
-- ============================================================================

/-- A call that is gated, the operator's verdict on it, and an agent that resumes. -/
def editing (d : Decision) : List Actor :=
  [.setPolicy fun _ => .ok (some { approvalMode := .async }), .call pullRequest false,
    .decide "tkt-1" d, .resume "tkt-1"]

/-- The ticket is filed and decided. -/
def filedAndDecided : List (Event Input) :=
  goes 0 1 {} ++ goes 1 6 { uuid := "1" } ++ goes 2 4 {}

theorem plain_checkArgs_null (arguments : Json) : plain.checkArgs arguments .null = .ok [] := rfl

theorem plain_redacts : plain.Redacts := by
  intro r upstreamId e he
  have hredact : @DictSecretResolver.redact PrintTables.ascii [] r = .error e := he
  unfold DictSecretResolver.redact at hredact
  split at hredact
  · cases hredact
    rfl
  · cases hredact

/-- An approval that puts an object in place of the arguments. -/
theorem editing_serviceable {d : Decision} (hd : d.Carriable) {es : List (Event Input)}
    (hes : ∀ i input, .step i input ∈ es → input.Materializes) :
    Serviceable plain (editing d) es where
  calls toolCall canBlock hmem := by
    simp only [editing, List.mem_cons, reduceCtorEq, Actor.call.injEq, false_or, List.not_mem_nil,
      or_false] at hmem
    rw [hmem.1]
    exact ⟨[], rfl⟩
  edits t d' hmem := by
    simp only [editing, List.mem_cons, reduceCtorEq, Actor.decide.injEq, false_or, List.not_mem_nil,
      or_false] at hmem
    rw [hmem.2]
    exact hd
  policies grants toolCall canBlock hmem _ := by
    simp only [editing, List.mem_cons, reduceCtorEq, Actor.setPolicy.injEq, List.not_mem_nil,
      or_false] at hmem
    rw [hmem]
    refine ⟨_, rfl, fun grant hgrant arguments _ => ⟨[], ?_⟩⟩
    cases hgrant
    exact plain_checkArgs_null arguments
  inputs := hes
  redactor := plain_redacts

/-- The operator gives the pull request a title. -/
theorem accepted_carried_out_titled :
    ∃ reply, toldAfter MemoryTicketStore plain (editing (approvedEdit [("title", .str "fixed")]))
      (filedAndDecided ++ goes 3 14 {}) 3 = some reply ∧ EndsWell reply := by
  have htold : (toldAfter MemoryTicketStore plain (editing (approvedEdit [("title", .str "fixed")]))
      (filedAndDecided ++ goes 3 14 {}) 3).isSome = true := by
    decide +kernel
  have hfiled : (LawfulTicketStore.cell (worldAfter MemoryTicketStore plain
      (editing (approvedEdit [("title", .str "fixed")])) filedAndDecided).tickets "tkt-1").isSome =
        true := by
    decide +kernel
  have hinputs : ∀ i input, .step i input ∈ filedAndDecided ++ goes 3 14 {} →
      input.Materializes := by
    intro i input hmem arguments upstreamId agentId e _ he
    simp only [filedAndDecided, goes, List.mem_append, List.mem_replicate, Event.step.injEq] at hmem
    have hdefault : input.materialize = fun arguments _ _ => .ok (arguments, []) := by
      rcases hmem with ((h | h) | h) | h
      · rw [h.2.2]
      · rw [h.2.2]
      · rw [h.2.2]
      · rw [h.2.2]
    rw [hdefault] at he
    cases he
  obtain ⟨reply, hreply⟩ := Option.isSome_iff_exists.mp htold
  obtain ⟨c, hc⟩ := Option.isSome_iff_exists.mp hfiled
  exact ⟨reply, hreply, accepted_carried_out (editing_serviceable (fun _ => Or.inr ⟨_, rfl⟩) hinputs)
    hc hreply (Or.inl ⟨rfl, rfl⟩)⟩

/-- The operator edits the call to `5`: whoever resumes it meets a TypeError. -/
theorem accepted_can_brick :
    ¬ ∀ (d : Decision) (es : List (Event Input)) (i : ℕ) (reply : Except Exc Reply),
      d.status = .approved → toldAfter MemoryTicketStore plain (editing d) es i = some reply →
        EndsWell reply := by
  intro law
  have hbricked := law { status := .approved, editedArguments := .int 5 }
    (filedAndDecided ++ goes 3 3 {}) 3 (.error (.python .typeError)) rfl rfl
  have hforeign := hbricked _ rfl
  cases hforeign

end ToolGateway
