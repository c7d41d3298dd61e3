/-
  ToolGateway.Gateway.Provenance

  Where the values on the trail come from: which call a thread asks the policy
  about, what it hands to the secret store and to the upstream, and what it does
  with their answers.  A second discipline on the same trail as the ledger's; its
  rules are about a thread's own marks alone.

  It is kept given what the ledger says of the run: at each step the store and the
  policy in force are what the trail tells, and the trail is a part of the one that
  the run ends with.  `ok` restricts the inputs, for runs in which the services are
  known.
-/

import ToolGateway.Coroutine.Given
import ToolGateway.Gateway.Runs

namespace ToolGateway

open Coroutine Py

-- ============================================================================
-- What a thread works on
-- ============================================================================

/-- What `apply_decision` makes of a call, with the note it leaves. -/
def Decision.verdictOn (d : Decision) (call : ToolCall) : Except Exc (ToolCall × Option String) :=
  if d.approved then
    if d.edits call.arguments then
      match changedFields call.arguments d.editedArguments with
      | .ok changed => .ok ({ call with arguments := d.editedArguments }, some (editNote d changed))
      | .error e => .error (.python e)
    else .ok (call, none)
  else .error (.gateway (.approvalDenied d))

/-- The call that a thread with these marks hands to the pipeline, and the note on it. -/
inductive Handed (marks : List Mark) : ToolCall → Option String → Prop
  | ungated (call : ToolCall) (grant : Grant) (hconsulted : .consulted call grant ∈ marks)
      (hunacted : ∀ t d, .acted t d ∉ marks) : Handed marks call none
  | gated (call call' : ToolCall) (note : Option String) (grant : Grant) (t : TicketId) (d : Decision)
      (hconsulted : .consulted call grant ∈ marks) (hacted : .acted t d ∈ marks)
      (hverdict : d.verdictOn call = .ok (call', note)) : Handed marks call' note

/-- The actor runs ticket `t`: it was told to, or it waits for its own approval. -/
def Serves (actor : Actor) (t : TicketId) (marks : List Mark) : Prop :=
  actor = .resume t ∨ (∃ agentId, actor = .check agentId t) ∨
    ∃ call, actor = .call call true ∧ .created t call ∈ marks

/-- Anything but filing a ticket and acting on a verdict. -/
def Mark.minor : Mark → Bool
  | .created .. | .acted .. => false
  | _ => true

/-- The marks only grew, by minor ones. -/
def Adds (pre marks : List Mark) : Prop :=
  ∃ new, marks = new ++ pre ∧ ∀ m ∈ new, m.minor = true

theorem Adds.refl (pre : List Mark) : Adds pre pre :=
  ⟨[], rfl, fun _ hm => absurd hm List.not_mem_nil⟩

theorem Adds.cons {pre : List Mark} {m : Mark} (hm : m.minor = true) : Adds pre (m :: pre) :=
  ⟨[m], rfl, fun _ hm' => List.mem_singleton.mp hm' ▸ hm⟩

theorem Adds.trans {pre mid marks : List Mark} (h : Adds pre mid) (h' : Adds mid marks) :
    Adds pre marks := by
  obtain ⟨new, rfl, hnew⟩ := h
  obtain ⟨new', rfl, hnew'⟩ := h'
  refine ⟨new' ++ new, by rw [List.append_assoc], fun m hm => ?_⟩
  exact (List.mem_append.mp hm).elim (hnew' m) (hnew m)

theorem Adds.mem {pre marks : List Mark} (h : Adds pre marks) {m : Mark} (hm : m ∈ pre) :
    m ∈ marks := by
  obtain ⟨new, rfl, -⟩ := h
  exact List.mem_append_right new hm

/-- What is not minor was there before. -/
theorem Adds.major {pre marks : List Mark} (h : Adds pre marks) {m : Mark} (hm : m ∈ marks)
    (hmajor : m.minor = false) : m ∈ pre := by
  obtain ⟨new, rfl, hnew⟩ := h
  refine (List.mem_append.mp hm).resolve_left fun hin => ?_
  rw [hnew m hin] at hmajor
  cases hmajor

theorem Adds.acted {pre marks : List Mark} (h : Adds pre marks) {t : TicketId} {d : Decision}
    (hm : .acted t d ∈ marks) : .acted t d ∈ pre := h.major hm rfl

theorem Handed.adds {pre marks : List Mark} {call : ToolCall} {note : Option String}
    (h : Handed pre call note) (hadds : Adds pre marks) : Handed marks call note := by
  cases h with
  | ungated _ grant hconsulted hunacted =>
      exact .ungated call grant (hadds.mem hconsulted) fun t d hm => hunacted t d (hadds.acted hm)
  | gated call₀ _ _ grant t d hconsulted hacted hverdict =>
      exact .gated call₀ call note grant t d (hadds.mem hconsulted) (hadds.mem hacted) hverdict

theorem Serves.adds {pre marks : List Mark} {actor : Actor} {t : TicketId} (h : Serves actor t pre)
    (hadds : Adds pre marks) : Serves actor t marks := by
  rcases h with h | h | ⟨call, hactor, hm⟩
  · exact Or.inl h
  · exact Or.inr (Or.inl h)
  · exact Or.inr (Or.inr ⟨call, hactor, hadds.mem hm⟩)

-- ============================================================================
-- The rules
-- ============================================================================

/-- Who made these marks read this verdict, or it is a timeout of its own. -/
def Learned (t : TicketId) (d : Decision) (marks : List Mark) : Prop :=
  d.status = .timeout ∨ ∃ ticket, .read t ticket ∈ marks ∧ ticket.decision = d

theorem Learned.adds {pre marks : List Mark} {t : TicketId} {d : Decision} (h : Learned t d pre)
    (hadds : Adds pre marks) : Learned t d marks :=
  h.imp id fun ⟨ticket, hread, hdecision⟩ => ⟨ticket, hadds.mem hread, hdecision⟩

/-- An actor with these marks may make this one. -/
def Traced (ok : Input → Prop) (actor : Actor) : Mark → List Mark → Prop
  | .policy grants, _ => actor = .setPolicy grants
  | .consulted call _, marks =>
      (∃ canBlock, actor = .call call canBlock) ∨
        ∃ t ticket, (actor = .resume t ∨ ∃ agentId, actor = .check agentId t) ∧
          .read t ticket ∈ marks ∧ ticket.call = call
  | .created t call, marks => (∃ canBlock, actor = .call call canBlock) ∧
      (∃ grant, .consulted call grant ∈ marks) ∧ .missed t ∉ marks
  | .acted t d, marks => Serves actor t marks ∧ (∀ t' d', .acted t' d' ∉ marks) ∧ Learned t d marks
  | .closed t _, marks => Serves actor t marks
  | .started _ arguments, marks => ∃ call note, Handed marks call note ∧ arguments = call.arguments
  | .resolved answer, marks => ∃ call note input, Handed marks call note ∧ ok input ∧
      answer = input.materialize call.arguments call.upstreamId call.agentId
  | .dispatched call', marks => ∃ call note refs, Handed marks call note ∧
      .resolved (.ok (call'.arguments, refs)) ∈ marks ∧
      call' = { call with arguments := call'.arguments }
  | .answered a, marks => ∃ call input, .dispatched call ∈ marks ∧ ok input ∧ a = input.upstream call
  | .returned x, marks => ∃ call note a elapsed, Handed marks call note ∧
      .answered (.result a) ∈ marks ∧ x = noted a elapsed note
  | _, _ => True

/-- The discipline of provenance. -/
def provenance (σ : Type) (ok : Input → Prop) (actors : List Actor) : Discipline (World σ) Mark where
  trail := World.trail
  guard i m trail := ∃ actor, actors[i]? = some actor ∧ Traced ok actor m (own i trail)
  agrees _ := True
  strikes _ _ _ := False

section
variable {σ : Type} [TicketStore σ] [LawfulTicketStore σ]

/-- A step of a run that ends with the trail `T`. -/
structure Along (s : Settings) (ok : Input → Prop) (T : TrailOf Mark) (slot : Slot Input)
    (w : World σ) : Prop where
  input : ok slot.input
  ledger : (ledger σ s).protocol.inv w
  past : w.trail <:+ T

end

/-- A moment of the run at which thread `i` had made the marks `pre`. -/
structure Moment (s : Settings) (T : TrailOf Mark) (i : ℕ) (pre : List Mark)
    (trail : TrailOf Mark) : Prop where
  legal : Legal (Allowed s) trail
  past : trail <:+ T
  own : own i trail = pre

variable {σ : Type} [TicketStore σ] [LawfulTicketStore σ] {s : Settings} {ok : Input → Prop}
  {T : TrailOf Mark} {actors : List Actor} {i : ℕ} {actor : Actor} {pre : List Mark}

/-- Now is such a moment. -/
theorem Along.moment {slot : Slot Input} {w : World σ} (h : Along s ok T slot w)
    (hown : own i w.trail = pre) : Moment s T i pre w.trail :=
  ⟨h.ledger.1, h.past, hown⟩

-- ============================================================================
-- Await points
-- ============================================================================

/-- A block that makes a mark with a known provenance, or none. -/
theorem traced_block {β : Type} {block : Slot Input → World σ → Option (β × World σ)}
    (post : β → List Mark → Prop) (hactor : actors[i]? = some actor)
    (h : ∀ (slot : Slot Input) (w : World σ) (x : β) (w' : World σ), Along s ok T slot w →
      own i w.trail = pre → slot.me = i →
      block slot w = some (x, w') → (w'.trail = w.trail ∧ post x pre) ∨
        ∃ m, w'.trail = (i, m) :: w.trail ∧ Traced ok actor m pre ∧ post x (m :: pre)) :
    (provenance σ ok actors).Triple i pre ((Co.atomic block).given (Along s ok T)) post := by
  refine Discipline.Triple.mark_given fun slot w x w' halong hinv hk hme hb => ⟨trivial, ?_⟩
  rcases h slot w x w' halong hk.own hme hb with hquiet | ⟨m, htrail, htraced, hpost⟩
  · exact Or.inl hquiet
  · exact Or.inr ⟨m, htrail, ⟨actor, hactor, hk.own ▸ htraced⟩, fun _ h => h.elim, hpost⟩

theorem traced_quiet {β : Type} {block : Slot Input → World σ → Option (β × World σ)}
    (hactor : actors[i]? = some actor)
    (h : ∀ slot w x w', block slot w = some (x, w') → w'.trail = w.trail) :
    (provenance σ ok actors).Triple i pre ((Co.atomic block).given (Along s ok T))
      fun _ marks => marks = pre :=
  traced_block _ hactor fun slot w x w' _ _ _ hb => Or.inl ⟨h slot w x w' hb, rfl⟩

theorem auditEvent_traced (hactor : actors[i]? = some actor) (event : String) (call : ToolCall)
    (fields : Fields) :
    (provenance σ ok actors).Triple i pre ((auditEvent event call fields : Task σ Unit).given
      (Along s ok T)) fun _ marks => marks = pre :=
  traced_quiet hactor fun slot w x w' hb => by cases hb; rfl

theorem readClock_traced (hactor : actors[i]? = some actor) :
    (provenance σ ok actors).Triple i pre ((readClock : Task σ Time).given (Along s ok T))
      fun _ marks => marks = pre :=
  traced_quiet hactor fun slot w x w' hb => by cases hb; rfl

theorem note_traced (hactor : actors[i]? = some actor) {m : Mark} (h : Traced ok actor m pre) :
    (provenance σ ok actors).Triple i pre ((note m : Task σ Unit).given (Along s ok T))
      fun _ marks => marks = m :: pre :=
  traced_block _ hactor fun slot w x w' _ _ hme hb => by
    cases hb
    subst hme
    exact Or.inr ⟨m, rfl, h, rfl⟩

theorem grantFor_traced (hactor : actors[i]? = some actor) {call : ToolCall}
    (h : ∀ grant, Traced ok actor (.consulted call grant) pre) :
    (provenance σ ok actors).Triple i pre
      ((grantFor call : Task σ (Except PyError (Option Grant))).given (Along s ok T))
      fun answer marks => (∃ grant, answer = .ok (some grant) ∧ marks = .consulted call grant :: pre) ∨
        ((∀ grant, answer ≠ .ok (some grant)) ∧ marks = pre ∧
          ∃ trail, Moment s T i pre trail ∧ ∀ grant, inForce trail call ≠ .ok (some grant)) := by
  refine traced_block _ hactor fun slot w x w' halong hown hme hb => ?_
  subst hme
  split at hb
  · next grant hgrant =>
      cases hb
      exact Or.inr ⟨_, rfl, h grant, Or.inl ⟨grant, rfl, rfl⟩⟩
  · next answer hanswer =>
      cases hb
      refine Or.inl ⟨rfl, Or.inr ⟨fun grant heq => hanswer grant heq, rfl, w.trail,
        halong.moment hown, fun grant heq => hanswer grant ?_⟩⟩
      rw [← heq, halong.ledger.2.2]

theorem createTicket_traced (hactor : actors[i]? = some actor) {call : ToolCall} {canBlock : Bool}
    (h : actor = .call call canBlock) {grant : Grant} (hconsulted : .consulted call grant ∈ pre)
    (hfresh : ∀ t, .missed t ∉ pre) :
    (provenance σ ok actors).Triple i pre
      ((createTicket call : Task σ (Except PyError TicketId)).given (Along s ok T)) fun r marks =>
        (∃ t, r = .ok t ∧ marks = .created t call :: pre) ∨ ((∃ e, r = .error e) ∧ marks = pre) := by
  refine traced_block _ hactor fun slot w x w' _ _ hme hb => ?_
  subst hme
  dsimp only at hb
  split at hb
  · cases hb
  · split at hb
    · cases hb
      exact Or.inr ⟨_, rfl, ⟨⟨canBlock, h⟩, ⟨grant, hconsulted⟩, hfresh _⟩, Or.inl ⟨_, rfl, rfl⟩⟩
    · next e _ =>
        cases hb
        exact Or.inl ⟨rfl, Or.inr ⟨⟨e, rfl⟩, rfl⟩⟩

theorem getTicket_traced (hactor : actors[i]? = some actor) (t : TicketId) :
    (provenance σ ok actors).Triple i pre
      ((getTicket t : Task σ (Option Ticket)).given (Along s ok T)) fun found marks =>
        (∃ ticket, found = some ticket ∧ marks = .read t ticket :: pre) ∨
          (found = none ∧ marks = .missed t :: pre) := by
  refine traced_block _ hactor fun slot w x w' _ _ hme hb => ?_
  subst hme
  split at hb
  · cases hb
    exact Or.inr ⟨_, rfl, trivial, Or.inl ⟨_, rfl, rfl⟩⟩
  · cases hb
    exact Or.inr ⟨_, rfl, trivial, Or.inr ⟨rfl, rfl⟩⟩

theorem decideTicket_traced (hactor : actors[i]? = some actor) (t : TicketId) (d : Decision) :
    (provenance σ ok actors).Triple i pre ((decideTicket t d : Task σ Bool).given (Along s ok T))
      fun _ marks => Adds pre marks := by
  refine traced_block _ hactor fun slot w x w' _ _ hme hb => ?_
  subst hme
  split at hb
  · cases hb
    exact Or.inr ⟨_, rfl, trivial, .cons rfl⟩
  · cases hb
    exact Or.inr ⟨_, rfl, trivial, .cons rfl⟩

/-- A claim that fails was made when the ticket was claimed or had its result. -/
theorem claimTicket_traced (hactor : actors[i]? = some actor) (t : TicketId) :
    (provenance σ ok actors).Triple i pre ((claimTicket t : Task σ Bool).given (Along s ok T))
      fun won marks => (won = true ∧ ∃ now, marks = .claimed t now :: pre) ∨
        (won = false ∧ marks = pre ∧ ∃ trail, Moment s T i pre trail ∧
          ∀ c, cellOf t trail = some c → c.claimedAt.isSome ∨ c.result.isSome) := by
  refine traced_block _ hactor fun slot w x w' halong hown hme hb => ?_
  subst hme
  have hacts := LawfulTicketStore.claim_acts w.tickets t slot.input.now
  split at hb
  · cases hb
    exact Or.inr ⟨_, rfl, trivial, Or.inl ⟨rfl, _, rfl⟩⟩
  · next tickets hclaim =>
      cases hb
      rw [hclaim] at hacts
      refine Or.inl ⟨rfl, Or.inr ⟨rfl, rfl, w.trail, halong.moment hown, fun c hc => ?_⟩⟩
      have hcell : LawfulTicketStore.cell w.tickets t = some c := by rw [halong.ledger.2.1, ← hc]
      have hanswer := hacts.answer
      rw [hcell] at hanswer
      exact Cell.taken_of_claim hanswer.symm

theorem closeStaleClaim_traced (hactor : actors[i]? = some actor) {t : TicketId} {older : Time}
    {result : ToolResult} (h : Serves actor t pre) :
    (provenance σ ok actors).Triple i pre
      ((closeStaleClaim t older result : Task σ Bool).given (Along s ok T))
      fun _ marks => Adds pre marks := by
  refine traced_block _ hactor fun slot w x w' _ _ hme hb => ?_
  subst hme
  split at hb
  · cases hb
    exact Or.inr ⟨_, rfl, h, .cons rfl⟩
  · cases hb
    exact Or.inl ⟨rfl, .refl _⟩

theorem completeTicket_traced (hactor : actors[i]? = some actor) (t : TicketId)
    (outcome : Except GatewayError ToolResult) :
    (provenance σ ok actors).Triple i pre
      ((completeTicket t outcome : Task σ (Except PyError Unit)).given (Along s ok T))
      fun _ marks => Adds pre marks := by
  refine traced_block _ hactor fun slot w x w' _ _ hme hb => ?_
  subst hme
  split at hb
  · cases hb
    exact Or.inr ⟨_, rfl, trivial, .cons rfl⟩
  · cases hb
    exact Or.inl ⟨rfl, .refl _⟩

end ToolGateway
