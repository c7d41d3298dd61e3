/-
  ToolGateway.Gateway.Runs

  Runs of a whole gateway: any number of callers, agents polling, operators and
  policy changes, scheduled in any order, each of them killed at any moment.
  The applications' own steps are left out (`steps = []`).
-/

import ToolGateway.Gateway.EntryPoints

namespace ToolGateway

open Coroutine Py

/-- Someone who uses the gateway, once. -/
inductive Actor where
  | call (toolCall : ToolCall) (canBlock : Bool)
  | resume (t : TicketId)
  | check (agentId : String) (t : TicketId)
  | decide (t : TicketId) (d : Decision)
  | setPolicy (grants : GrantResolver)

namespace Actor

section
variable {σ : Type} [TicketStore σ]

/-- What an actor runs, without steps of the application. -/
def entry (s : Settings) : Actor → GatewayM σ Reply
  | .call toolCall canBlock => ToolGateway.call s [] toolCall canBlock
  | .resume t => do return .result (← ToolGateway.resume s [] t)
  | .check agentId t => ToolGateway.check s [] agentId t
  | .decide t d => ToolGateway.decide t d
  | .setPolicy grants => ToolGateway.setPolicy grants

/-- What it is told or raises in the end. -/
def program (s : Settings) (actor : Actor) : Task σ (Except Exc Reply) := do
  let (reply, _) ← (actor.entry s).exec ()
  return reply

end

/-- How the outcome of a call or of a resumed ticket reaches it. -/
def tells : Actor → Except Exc ToolResult → Except Exc Reply
  | .call _ _ => callReply
  | .check _ t => checkReply t
  | _ => fun r => r.map Reply.result

/-- What it has done and was told once it is through. -/
def Ends (s : Settings) (reply : Except Exc Reply) (marks : List Mark) : Actor → Prop
  | .call _ _ => ∃ r, reply = callReply r ∧ Called s marks r
  | .resume t => ∃ r : Except Exc ToolResult, reply = r.map Reply.result ∧ Served s t marks r ∧
      Polled t marks r
  | .check agentId t => Checked s agentId t reply marks
  | .decide t d => (∀ m ∈ marks, m.watching = true) ∧ (reply = .ok .done ↔ .decided t d ∈ marks)
  | .setPolicy grants => marks = [.policy grants]

/-- Only a result is told as a result. -/
theorem tells_result {actor : Actor} {r : Except Exc ToolResult} {x : ToolResult}
    (h : actor.tells r = .ok (.result x)) : r = .ok x := by
  cases r with
  | ok y => cases actor <;> (cases h; rfl)
  | error e =>
      cases actor with
      | call toolCall canBlock =>
          cases e with
          | gateway e => cases e <;> cases h
          | _ => cases h
      | check agentId t =>
          cases e with
          | gateway e => cases e <;> cases h
          | _ => cases h
      | _ => cases h

/-- Whoever did more than watch or set a policy was served about a ticket, or
    called without one. -/
theorem Ends.through {s : Settings} {actor : Actor} {reply : Except Exc Reply} {marks : List Mark}
    (h : actor.Ends s reply marks) {m : Mark} (hm : m ∈ marks) (hkind : m.watching = false)
    (hpolicy : ∀ grants, m ≠ .policy grants) :
    ∃ r, reply = actor.tells r ∧ (Direct s marks r ∨ ∃ t, Served s t marks r) := by
  cases actor with
  | call toolCall canBlock =>
      obtain ⟨r, hreply, hgated | ⟨rfl, -⟩⟩ := h
      · exact ⟨r, hreply, hgated⟩
      · cases hm
  | resume t =>
      obtain ⟨r, hreply, hserved, -⟩ := h
      exact ⟨r, hreply, Or.inr ⟨t, hserved⟩⟩
  | check agentId t =>
      obtain ⟨-, rfl | ⟨ticket, rfl, -⟩⟩ | ⟨-, ticket, rfl, -⟩ | ⟨r, hreply, hserved, -⟩ := h
      · rw [List.mem_singleton.mp hm] at hkind
        cases hkind
      · rw [List.mem_singleton.mp hm] at hkind
        cases hkind
      · rw [List.mem_singleton.mp hm] at hkind
        cases hkind
      · exact ⟨r, hreply, Or.inr ⟨t, hserved⟩⟩
  | decide t d =>
      rw [h.1 m hm] at hkind
      cases hkind
  | setPolicy grants =>
      rw [show marks = [.policy grants] from h] at hm
      exact absurd (List.mem_singleton.mp hm) (hpolicy grants)

/-- Whoever executed won the claim on a ticket, or needed none. -/
theorem Ends.executed {s : Settings} {actor : Actor} {reply : Except Exc Reply} {marks : List Mark}
    (h : actor.Ends s reply marks) {m : Mark} (hm : m ∈ marks) (hkind : m.executing = true) :
    ∃ r, reply = actor.tells r ∧
      ((Direct s marks r ∧ m.inside = true) ∨ ∃ t, Executed s t marks r) := by
  have hbusy : m.watching = false := by cases m <;> first | rfl | cases hkind
  have hpolicy : ∀ grants, m ≠ .policy grants := by
    rintro grants rfl
    cases hkind
  obtain ⟨r, hreply, hdirect | ⟨t, hserved⟩⟩ := h.through hm hbusy hpolicy
  · exact ⟨r, hreply, Or.inl ⟨hdirect, hdirect.inside hm hkind⟩⟩
  · exact ⟨r, hreply, Or.inr ⟨t, hserved.executed hm hkind⟩⟩

/-- Whoever got past a verdict was served about a ticket. -/
theorem Ends.served {s : Settings} {actor : Actor} {reply : Except Exc Reply} {marks : List Mark}
    (h : actor.Ends s reply marks) {t : TicketId} {d : Decision} (hacted : .acted t d ∈ marks) :
    ∃ r t', reply = actor.tells r ∧ Served s t' marks r := by
  obtain ⟨r, hreply, hdirect | ⟨t', hserved⟩⟩ := h.through hacted rfl (by simp)
  · exact absurd hacted (hdirect.unacted t d)
  · exact ⟨r, t', hreply, hserved⟩

variable {σ : Type} [TicketStore σ] [LawfulTicketStore σ] {s : Settings} {i : ℕ}

theorem entry_spec (actor : Actor) :
    (ledger σ s).Spec i [] () (actor.entry s) fun reply _ marks => actor.Ends s reply marks := by
  cases actor with
  | call toolCall canBlock => exact call_spec toolCall canBlock
  | resume t =>
      refine (resume_spec (by simp) (by simp) (by simp)).bind (fun r _ marks h => ?_)
        fun e _ marks h => ?_
      · exact .pure ⟨.ok r, rfl, h⟩
      · exact ⟨.error e, rfl, h⟩
  | check agentId t => exact check_spec agentId t
  | decide t d => exact decide_spec t d
  | setPolicy grants => exact setPolicy_spec grants

theorem program_spec (actor : Actor) :
    (ledger σ s).Triple i [] (actor.program s) fun reply marks => actor.Ends s reply marks := by
  refine Discipline.Triple.bind actor.entry_spec ?_
  rintro ⟨reply, _⟩ marks hends
  exact Discipline.Triple.ret hends

end Actor

-- ============================================================================
-- A gateway and its runs
-- ============================================================================

/-- A gateway without tickets and policy, and everybody who is going to use it. -/
def gateway (σ : Type) [TicketStore σ] (s : Settings) (actors : List Actor) :
    Config Input (World σ) (Except Exc Reply) :=
  { world := World.fresh σ, threads := actors.map fun actor => some (actor.program s) }

/-- The world after a run of that gateway. -/
def worldAfter (σ : Type) [TicketStore σ] (s : Settings) (actors : List Actor)
    (es : List (Event Input)) : World σ := ((gateway σ s actors).run es).world

/-- What actor `i` was told or raised, if it is through. -/
def toldAfter (σ : Type) [TicketStore σ] (s : Settings) (actors : List Actor)
    (es : List (Event Input)) (i : ℕ) : Option (Except Exc Reply) :=
  ((gateway σ s actors).run es).outcome i

/-- The result on ticket `t` after a run. -/
def storedAfter (σ : Type) [TicketStore σ] (s : Settings) (actors : List Actor)
    (es : List (Event Input)) (t : TicketId) : Option ToolResult :=
  (TicketStore.get (worldAfter σ s actors es).tickets t).bind Ticket.result

/-- Actor `i` runs, up to `n` steps. -/
def goes (i n : ℕ) (input : Input) : List (Event Input) := List.replicate n (.step i input)

section
variable {σ : Type} [TicketStore σ] [LawfulTicketStore σ] {s : Settings} {actors : List Actor}
  {es es' : List (Event Input)}

theorem fresh_agrees : (ledger σ s).agrees (World.fresh σ) := by
  refine ⟨?_, rfl⟩
  funext t
  exact LawfulTicketStore.cell_empty t

theorem gateway_threads (i : ℕ) (co : Task σ (Except Exc Reply))
    (hi : (gateway σ s actors).threads[i]? = some (some co)) :
    (ledger σ s).Triple i [] co fun reply marks =>
      ∀ actor, actors[i]? = some actor → actor.Ends s reply marks := by
  rw [gateway, List.getElem?_map, Option.map_eq_some_iff] at hi
  obtain ⟨actor, hactor, hco⟩ := hi
  cases hco
  refine actor.program_spec.mono fun reply marks hends actor' hactor' => ?_
  rw [hactor] at hactor'
  cases hactor'
  exact hends

variable (σ s actors es) in
/-- Every run keeps the discipline. -/
theorem gateway_run :
    Legal (Allowed s) (worldAfter σ s actors es).trail ∧
      (ledger σ s).agrees (worldAfter σ s actors es) ∧
      ∀ i reply, toldAfter σ s actors es i = some reply → ∀ actor, actors[i]? = some actor →
        actor.Ends s reply (own i (worldAfter σ s actors es).trail) :=
  Discipline.run fresh_agrees rfl gateway_threads es

/-- The trail of a run is legal. -/
theorem run_legal : Legal (Allowed s) (worldAfter σ s actors es).trail :=
  (gateway_run σ s actors es).1

/-- The store is what the trail says. -/
theorem run_cell (t : TicketId) :
    LawfulTicketStore.cell (worldAfter σ s actors es).tickets t =
      cellOf t (worldAfter σ s actors es).trail := by
  rw [(gateway_run σ s actors es).2.1.1]

theorem run_get (t : TicketId) :
    TicketStore.get (worldAfter σ s actors es).tickets t =
      (cellOf t (worldAfter σ s actors es).trail).map Cell.ticket := by
  rw [LawfulTicketStore.get_eq, run_cell]

theorem run_stored {t : TicketId} {r : ToolResult} :
    storedAfter σ s actors es t = some r ↔
      ∃ c, cellOf t (worldAfter σ s actors es).trail = some c ∧ c.result = some r := by
  rw [storedAfter, run_get, Option.bind_map, Option.bind_eq_some_iff]
  rfl

/-- Whoever is through did what its program says. -/
theorem run_ends {i : ℕ} {actor : Actor} {reply : Except Exc Reply}
    (hactor : actors[i]? = some actor) (htold : toldAfter σ s actors es i = some reply) :
    actor.Ends s reply (own i (worldAfter σ s actors es).trail) :=
  (gateway_run σ s actors es).2.2 i reply htold actor hactor

variable (σ s actors es es') in
/-- What was marked stays marked. -/
theorem run_grows : ∃ new, (worldAfter σ s actors (es ++ es')).trail =
    new ++ (worldAfter σ s actors es).trail :=
  Discipline.run_suffix (D := ledger σ s) fresh_agrees rfl gateway_threads es es'

end

end ToolGateway
