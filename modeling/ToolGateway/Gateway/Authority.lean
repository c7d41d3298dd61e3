/-
  ToolGateway.Gateway.Authority

  What gets to an upstream.  Whatever is sent, the policy in force granted the call it
  comes from, and either asked for no approval, or an operator approved that call on a
  ticket; what is sent is that call with its arguments, or with those the operator put
  in their place, when the secrets in them are resolved.
-/

import ToolGateway.Gateway.CarryOut
import ToolGateway.Gateway.InForce
import ToolGateway.Gateway.Timeline

namespace ToolGateway

open Coroutine Py

-- ============================================================================
-- What a thread may hand to the pipeline
-- ============================================================================

/-- The executor of ticket `t` with this call, which was filed and approved. -/
structure Approves (i : ℕ) (t : TicketId) (c : Cell) (trail : TrailOf Mark) : Prop where
  started : ∃ arguments, (i, .started t arguments) ∈ trail
  filed : cellOf t trail = some c
  granted : ∃ grant, (i, .consulted c.call grant) ∈ trail
  acted : (i, .acted t c.decision) ∈ trail
  approved : c.decision.approved = true

/-- Thread `i` was granted the call without an approval, and needed none. -/
def Ungated (i : ℕ) (call : ToolCall) (trail : TrailOf Mark) : Prop :=
  (∃ grant, (i, .consulted call grant) ∈ trail ∧ grant.approvalMode = .auto) ∧
    ∀ t d, (i, .acted t d) ∉ trail

/-- The call is authorised: it needs no approval, or has one for these arguments. -/
def Authorised (i : ℕ) (trail : TrailOf Mark) (call : ToolCall) : Prop :=
  Ungated i call trail ∨ ∃ t c, Approves i t c trail ∧
    call = { c.call with arguments := c.decision.effective c.call.arguments }

section
variable {σ : Type} {s : Settings} {ok : Input → Prop} {actors : List Actor} {i : ℕ}
  {t : TicketId} {trail : TrailOf Mark}

/-- Whoever has started a ticket got past its verdict. -/
theorem approves_of_started (h : Legal (Allowed s) trail) {arguments : Json}
    (hstarted : (i, .started t arguments) ∈ trail) : ∃ c, Approves i t c trail := by
  have howner := claimant_of_started h hstarted
  obtain ⟨c, hc, -⟩ := cell_of_claimant h howner
  obtain ⟨happroved, hacted⟩ := acted_of_claimant h howner hc
  exact ⟨c, ⟨arguments, hstarted⟩, hc, consulted_of_acted h hacted hc, hacted, happroved⟩

/-- What a licensed thread works on is authorised. -/
theorem authorised_of_handed (h : Legal (Allowed s) trail)
    (h' : Legal (provenance σ ok actors).guard trail) {deeds : List Deed}
    (hown : own i trail = marksOf deeds) (hlicensed : Licensed deeds) {call : ToolCall}
    {note : Option String} (hhanded : Handed (own i trail) call note) :
    Authorised i trail call := by
  rw [Licensed, ← hown] at hlicensed
  rcases hlicensed with ⟨call', grant, hconsulted, hauto, hunacted⟩ | ⟨t, arguments, hstarted⟩
  · cases hhanded with
    | ungated _ grant' hconsulted' _ =>
        obtain ⟨rfl, -⟩ := consulted_unique h (mem_own.mp hconsulted') (mem_own.mp hconsulted)
        exact Or.inl ⟨⟨grant, mem_own.mp hconsulted, hauto⟩,
          fun t d hm => hunacted t d (mem_own.mpr hm)⟩
    | gated _ _ _ _ t d _ hacted _ => exact absurd hacted (hunacted t d)
  · obtain ⟨c, happroves⟩ := approves_of_started h (mem_own.mp hstarted)
    obtain ⟨grant, hgrant⟩ := happroves.granted
    have hverdict := handed_of_acted h h' hgrant (mem_own.mpr happroves.acted) (List.Subset.refl _)
      hhanded
    exact Or.inr ⟨t, c, happroves, Decision.verdictOn_effective hverdict⟩

/-- A thread resolves secrets and sends for one call: what is authorised when it has
    validated is what was before. -/
theorem authorised_unique {new : TrailOf Mark} (h : Legal (Allowed s) (new ++ trail))
    (h' : Legal (provenance σ ok actors).guard (new ++ trail)) {arguments schema : Json}
    (hvalidated : (i, .validated arguments schema) ∈ trail) {call call' : ToolCall}
    (hbefore : Authorised i trail call) (hafter : Authorised i (new ++ trail) call') :
    call = call' := by
  have hin : ∀ {m : Mark}, (i, m) ∈ trail → (i, m) ∈ new ++ trail := List.mem_append_right new
  rcases hbefore with ⟨⟨grant, hconsulted, -⟩, hunacted⟩ | ⟨t, c, hc, rfl⟩
  · rcases hafter with ⟨⟨grant', hconsulted', -⟩, -⟩ | ⟨t, c, hc, rfl⟩
    · exact (consulted_unique h (hin hconsulted) hconsulted').1
    · -- an execution is not started after the arguments were validated
      obtain ⟨arguments', hstarted⟩ := hc.started
      rcases List.mem_append.mp hstarted with hnew | hold
      · obtain ⟨later, between, rfl⟩ := List.append_of_mem hnew
        rw [List.append_assoc, List.cons_append] at h
        obtain ⟨-, -, -, hunvalidated⟩ := h.of_append.1
        exact absurd (List.mem_append_right between hvalidated) (hunvalidated _ _)
      · obtain ⟨c', hc'⟩ := approves_of_started h.of_append hold
        exact absurd hc'.acted (hunacted t _)
  · rcases hafter with ⟨-, hunacted⟩ | ⟨t', c', hc', rfl⟩
    · exact absurd (hin hc.acted) (hunacted t _)
    · obtain ⟨rfl, hdecision⟩ := acted_unique h' (hin hc.acted) hc'.acted
      obtain ⟨grant, hgrant⟩ := hc.granted
      obtain ⟨grant', hgrant'⟩ := hc'.granted
      obtain ⟨hcall, -⟩ := consulted_unique h (hin hgrant) hgrant'
      rw [hdecision, hcall]

/-- A verdict that is on a ticket was recorded. -/
theorem decided_of_cell (h : Legal (Allowed s) trail) {c : Cell} (hc : cellOf t trail = some c)
    (hdecided : c.decision.status ≠ .pending) : ∃ j, (j, .decided t c.decision) ∈ trail := by
  obtain ⟨k, hcreated⟩ := created_of_cell h hc
  obtain ⟨later, before, rfl, -, -⟩ := h.split hcreated
  have hfiled : cellOf t ((k, .created t c.call) :: before) = some (Cell.filed c.call) := by
    simp [Mark.apply]
  rcases decided_between h hfiled hc with hsame | ⟨j, hj⟩
  · rw [hsame] at hdecided
    exact absurd rfl hdecided
  · exact ⟨j, by simp [hj]⟩

end

-- ============================================================================
-- Runs
-- ============================================================================

section
variable {σ : Type} [TicketStore σ] [LawfulTicketStore σ] {s : Settings} {actors : List Actor}
  {i : ℕ} {es : List (Event Input)}

/-- The inputs of this run. -/
def Occurs (es : List (Event Input)) (input : Input) : Prop := ∃ k, .step k input ∈ es

variable (σ s actors es) in
theorem run_traced : Legal (provenance σ (Occurs es) actors).guard (worldAfter σ s actors es).trail :=
  (provenance_run σ s actors fun k _ hmem => ⟨k, hmem⟩).1

/-- Secrets are resolved, and tools called, for what is authorised. -/
theorem authorised_of_mark {m : Mark} (h : (i, m) ∈ (worldAfter σ s actors es).trail)
    (hm : (∃ answer, m = .resolved answer) ∨ ∃ sent, m = .dispatched sent) :
    ∃ es₁ input es₂, es = es₁ ++ .step i input :: es₂ ∧
      (i, m) :: (worldAfter σ s actors es₁).trail <:+ (worldAfter σ s actors es).trail ∧
      (∃ actor, Traced (Occurs es) actor m (own i (worldAfter σ s actors es₁).trail)) ∧
      ∀ call note, Handed (own i (worldAfter σ s actors es₁).trail) call note →
        Authorised i (worldAfter σ s actors es₁).trail call := by
  obtain ⟨es₁, input, es₂, deeds, rfl, hnew, -, hown, hearned⟩ := made_of_mem h
  obtain ⟨later, hgrows⟩ := run_grows σ s actors (es₁ ++ [.step i input]) es₂
  rw [List.append_assoc, List.singleton_append, hnew] at hgrows
  have htraced := run_traced σ s actors (es₁ ++ .step i input :: es₂)
  rw [hgrows] at htraced ⊢
  have hlicensed : Licensed deeds := by
    rcases hm with ⟨answer, rfl⟩ | ⟨sent, rfl⟩
    · exact hearned
    · exact hearned
  obtain ⟨⟨actor, -, hactor⟩, hbefore⟩ := htraced.of_append
  exact ⟨es₁, input, es₂, rfl, List.suffix_append later _, ⟨actor, hactor⟩,
    fun call note hhanded => authorised_of_handed run_legal hbefore hown hlicensed hhanded⟩

/-- What was sent, for a call that was authorised then, are the arguments of that call
    with their secrets resolved. -/
theorem resolved_of_dispatched {sent : ToolCall}
    (h : (i, .dispatched sent) ∈ (worldAfter σ s actors es).trail) :
    ∃ es₁ call refs k input, (i, .dispatched sent) :: (worldAfter σ s actors es₁).trail <:+
        (worldAfter σ s actors es).trail ∧
      Authorised i (worldAfter σ s actors es₁).trail call ∧ .step k input ∈ es ∧
      input.materialize call.arguments call.upstreamId call.agentId = .ok (sent.arguments, refs) ∧
      sent = { call with arguments := sent.arguments } := by
  obtain ⟨es₁, input, es₂, rfl, hsuffix, ⟨-, call, note, refs, hhanded, hresolved, hsent⟩,
    hauthorised⟩ := authorised_of_mark h (Or.inr ⟨sent, rfl⟩)
  obtain ⟨es₀, input₀, between, rfl, hbefore,
    ⟨-, call₀, note₀, resolver, hhanded₀, ⟨k, hk⟩, hanswer⟩, hauthorised₀⟩ :=
    authorised_of_mark (mem_own.mp hresolved) (Or.inl ⟨_, rfl⟩)
  obtain ⟨new, hnew⟩ := hbefore
  have hlegal : Legal (Allowed s) (worldAfter σ s actors (es₀ ++ .step i input₀ :: between)).trail :=
    run_legal
  have htraced := run_traced σ s actors (es₀ ++ .step i input₀ :: between)
  have hafter := hauthorised call note hhanded
  rw [← hnew] at hlegal htraced hafter
  obtain ⟨arguments, schema, hvalidated⟩ := hlegal.of_append.1
  rw [List.append_cons new] at hlegal htraced hafter
  obtain rfl := authorised_unique hlegal htraced hvalidated (hauthorised₀ call₀ note₀ hhanded₀) hafter
  exact ⟨_, call₀, refs, k, resolver, hsuffix, hauthorised call₀ note hhanded,
    List.mem_append_left _ hk, hanswer.symm, hsent⟩

/-- In every run, whatever is sent to an upstream comes from a call that the policy in
    force granted the sender, its secrets resolved.  If that asked for no approval, the
    arguments are the call's.  Otherwise the sender holds the claim on a ticket with
    this call, on which an operator's request recorded an approval, and the arguments
    are what that approval makes of them. -/
theorem sent_is_authorised {sent : ToolCall}
    (h : (i, .dispatched sent) ∈ (worldAfter σ s actors es).trail) :
    ∃ call grant arguments refs k input,
      (i, .consulted call grant) ∈ (worldAfter σ s actors es).trail ∧ .step k input ∈ es ∧
      input.materialize arguments call.upstreamId call.agentId = .ok (sent.arguments, refs) ∧
      sent = { call with arguments := sent.arguments } ∧
      (grant.approvalMode = .auto ∧ arguments = call.arguments ∨
        ∃ t ticket, TicketStore.get (worldAfter σ s actors es).tickets t = some ticket ∧
          ticket.call = call ∧ claimant t (worldAfter σ s actors es).trail = some i ∧
          ticket.decision.status = .approved ∧
          (∃ j : ℕ, actors[j]? = some (Actor.decide t ticket.decision)) ∧
          arguments = ticket.decision.effective call.arguments) := by
  obtain ⟨es₁, call, refs, k, input, ⟨later, hlater⟩, hauthorised, hk, hanswer, hsent⟩ :=
    resolved_of_dispatched h
  have hlegal : Legal (Allowed s) (worldAfter σ s actors es).trail := run_legal
  rw [← hlater, List.append_cons later] at hlegal
  have hpast : ∀ {m : Mark}, (i, m) ∈ (worldAfter σ s actors es₁).trail →
      (i, m) ∈ (worldAfter σ s actors es).trail := by
    intro m hm
    rw [← hlater]
    exact List.mem_append_right later (List.mem_cons_of_mem _ hm)
  rcases hauthorised with ⟨⟨grant, hconsulted, hauto⟩, -⟩ | ⟨t, c, happroves, rfl⟩
  · exact ⟨call, grant, call.arguments, refs, k, input, hpast hconsulted, hk, hanswer, hsent,
      Or.inl ⟨hauto, rfl⟩⟩
  · obtain ⟨grant, hgrant⟩ := happroves.granted
    obtain ⟨arguments, hstarted⟩ := happroves.started
    obtain ⟨c', hc', hev⟩ := cellOf_append hlegal happroves.filed
    rw [← List.append_cons later, hlater] at hc' hlegal
    have happroved : c'.decision.status = .approved := by
      have hstatus := Decision.status_of_approved happroves.approved
      rw [hev.decision (by rw [hstatus]; nofun), hstatus]
    have hdecision : c'.decision = c.decision := hev.decision (by
      rw [Decision.status_of_approved happroves.approved]
      nofun)
    obtain ⟨j, hdecided⟩ := decided_of_cell hlegal hc' (by rw [happroved]; nofun)
    have hoperator : ∃ j : ℕ, actors[j]? = some (Actor.decide t c'.decision) := by
      obtain ⟨-, -, -, -, -, -, -, -, ⟨hmem, -⟩ | ⟨htimeout, -⟩⟩ := made_of_mem hdecided
      · exact ⟨j, hmem⟩
      · rw [happroved] at htimeout
        cases htimeout
    refine ⟨c.call, grant, c.decision.effective c.call.arguments, refs, k, input, hpast hgrant, hk,
      hanswer, hsent, Or.inr ⟨t, c'.ticket, by rw [run_get, hc', Option.map_some], hev.call,
        claimant_of_started hlegal (hpast hstarted), happroved, hoperator, ?_⟩⟩
    rw [← hdecision]
    rfl

end

/-- The call that was approved, and is being executed. -/
theorem sent_is_authorised_resumed :
    ∃ sent call grant arguments refs k, ∃ input : Input, .step k input ∈ dispatched ∧
      (3, .dispatched sent) ∈ (worldAfter MemoryTicketStore plain pollers dispatched).trail ∧
      (3, .consulted call grant) ∈ (worldAfter MemoryTicketStore plain pollers dispatched).trail ∧
      input.materialize arguments call.upstreamId call.agentId = .ok (sent.arguments, refs) ∧
      sent = { call with arguments := sent.arguments } := by
  have hcalled : (worldAfter MemoryTicketStore plain pollers dispatched).trail.any (dispatches 3)
      = true := by
    decide +kernel
  obtain ⟨sent, hsent⟩ := dispatched_of_any hcalled
  obtain ⟨call, grant, arguments, refs, k, input, hgranted, hk, hanswer, hcall, -⟩ :=
    sent_is_authorised hsent
  exact ⟨sent, call, grant, arguments, refs, k, input, hk, hsent, hgranted, hanswer, hcall⟩

end ToolGateway
