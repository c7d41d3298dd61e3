/-
  ToolGateway.Gateway.Operators

  The operators' HTTP surface (`http.py`): verdicts are recorded and approved tickets
  resumed there, by holders of the operator role.  The subject of the verified token
  is the approver, never a field of the body.

  A controller takes no step of its own around the gateway's entry point.  So the
  surface has the runs of the gateway under it, and what is known of these holds of
  operators and agents together.
-/

import ToolGateway.Coroutine.Retold
import ToolGateway.Gateway.Authority

namespace ToolGateway

open Coroutine Py

/-- What `TicketController.decide` reads off a request body, with its defaults. -/
structure DecideBody where
  status : Json := .str ""
  reason : String := ""
  editedArguments : Json := .null

/-- The verdict that a body asks for. -/
def DecideBody.decision (body : DecideBody) (sub : String) : Option Decision :=
  (DecisionStatus.ofJson? body.status).map fun status =>
    { status := status, approver := sub, reason := body.reason,
      editedArguments := body.editedArguments }

/-- It asks for this approval or rejection. -/
def DecideBody.Asks (body : DecideBody) (sub : String) (d : Decision) : Prop :=
  body.decision sub = some d ∧ (d.status = .approved ∨ d.status = .rejected)

/-- What a controller's method comes to, other exceptions apart. -/
inductive Response where
  | returned (body : Fields)
  /-- an HTTPException -/
  | raised (status : ℕ) (detail : String)

namespace TicketController

/-- `{"status": …, "approver": …}` -/
def decided (d : Decision) : Response :=
  .returned [("status", .str d.status.value), ("approver", .str d.approver)]

/-- The ticket is not there. -/
def noSuchTicket : Response := .raised 404 "no such ticket"

/-- The ticket has a verdict. -/
def alreadyDecided : Response := .raised 409 "ticket already decided"

/-- The body has no verdict. -/
def noVerdict : Response := .raised 422 "status must be 'approved' or 'rejected'"

/-- `{"status": "ok", …}` -/
def resumed (r : ToolResult) : Response :=
  .returned [("status", .str "ok"), ("content", r.content), ("is_error", .bool r.isError),
    ("notes", .list (r.notes.map Json.str))]

section
variable {σ : Type}

/-- The `except` clauses of `decide`. -/
def undecided : Exc → GatewayM σ Response
  | .unknownTicket _ => pure noSuchTicket
  | .ticketAlreadyDecided _ => pure alreadyDecided
  | .python .valueError => pure noVerdict
  | exc => throw exc

/-- The `except` clauses of `resume`. -/
def unresumed : Exc → GatewayM σ Response
  | .unknownTicket _ => pure noSuchTicket
  | .gateway e => pure (.raised 422 e.str)
  | exc => throw exc

variable [TicketStore σ]

/-- `TicketController.decide`, by the verified operator -/
protected def decide (sub : String) (t : TicketId) (body : DecideBody) : GatewayM σ Response :=
  match body.decision sub with
  | none => pure noVerdict
  | some decision =>
      tryCatch (do
        let _ ← ToolGateway.decide t decision
        return decided decision) undecided

/-- `TicketController.resume` -/
protected def resume (s : Settings) (t : TicketId) : GatewayM σ Response :=
  tryCatch (do return resumed (← ToolGateway.resume s [] t)) unresumed

end

end TicketController

-- ============================================================================
-- Clients
-- ============================================================================

/-- Someone who uses the gateway, once: an agent, the policy's publisher, or an operator
    over HTTP. -/
inductive Client where
  | call (toolCall : ToolCall) (canBlock : Bool)
  | check (agentId : String) (t : TicketId)
  | setPolicy (grants : GrantResolver)
  | decide (sub : String) (t : TicketId) (body : DecideBody)
  | resume (t : TicketId)

/-- What a client is told. -/
inductive ToldBack where
  | reply (r : Reply)
  | response (r : Response)

namespace Client

section
variable {σ : Type} [TicketStore σ]

/-- What a client's request runs. -/
def entry (s : Settings) : Client → GatewayM σ ToldBack
  | .call toolCall canBlock => do return .reply (← ToolGateway.call s [] toolCall canBlock)
  | .check agentId t => do return .reply (← ToolGateway.check s [] agentId t)
  | .setPolicy grants => do return .reply (← ToolGateway.setPolicy grants)
  | .decide sub t body => do return .response (← TicketController.decide sub t body)
  | .resume t => do return .response (← TicketController.resume s t)

/-- What it is told or raises in the end. -/
def program (s : Settings) (client : Client) : Task σ (Except Exc ToldBack) := do
  let (told, _) ← (client.entry s).exec ()
  return told

end

/-- The gateway's entry point behind it.  A body without a status gets no further than
    the check of the status. -/
def actor : Client → Actor
  | .call toolCall canBlock => .call toolCall canBlock
  | .check agentId t => .check agentId t
  | .setPolicy grants => .setPolicy grants
  | .decide sub t body => .decide t ((body.decision sub).getD { status := .pending })
  | .resume t => .resume t

/-- Its words for what the entry point comes to. -/
def tells : Client → Except Exc Reply → Except Exc ToldBack
  | .decide sub _ body, .ok _ =>
      .ok (.response (((body.decision sub).map TicketController.decided).getD
        TicketController.noVerdict))
  | .decide .., .error (.unknownTicket _) => .ok (.response TicketController.noSuchTicket)
  | .decide .., .error (.ticketAlreadyDecided _) => .ok (.response TicketController.alreadyDecided)
  | .decide .., .error (.python .valueError) => .ok (.response TicketController.noVerdict)
  | .resume _, .ok (.result r) => .ok (.response (TicketController.resumed r))
  | .resume _, .error (.unknownTicket _) => .ok (.response TicketController.noSuchTicket)
  | .resume _, .error (.gateway e) => .ok (.response (.raised 422 e.str))
  | _, r => r.map ToldBack.reply

end Client

section
variable {σ α β : Type}

/-- A program that goes on without a step tells what the first part comes to, in other
    words. -/
theorem exec_attempt_retold {m : GatewayM σ α} {k : Except Exc α → GatewayM σ β}
    {f : Except Exc α → Except Exc β} (hk : ∀ r, (k r).exec () = Co.ret (f r, ())) :
    ((Prog.attempt m k).exec () >>= fun x => Co.ret x.1) =
      (m.exec () >>= fun x => Co.ret x.1).retold f := by
  rw [Prog.exec_attempt, Co.retold, Co.bind_assoc, Co.bind_assoc]
  refine congrArg _ (funext fun x => ?_)
  obtain ⟨r, ⟨⟩⟩ := x
  show (k r).exec () >>= _ = _
  rw [hk]
  rfl

variable [TicketStore σ] {s : Settings}

/-- A client's program is that of the entry point behind it, in the client's words. -/
theorem Client.program_eq (client : Client) :
    (client.program s : Task σ (Except Exc ToldBack)) =
      (client.actor.program s).retold client.tells := by
  cases client with
  | call toolCall canBlock =>
      show ((ToolGateway.call s [] toolCall canBlock >>= fun r => pure (ToldBack.reply r)).exec () >>= _)
        = _
      rw [Prog.bind_eq_attempt]
      exact exec_attempt_retold fun r => by cases r <;> rfl
  | check agentId t =>
      show ((ToolGateway.check s [] agentId t >>= fun r => pure (ToldBack.reply r)).exec () >>= _) = _
      rw [Prog.bind_eq_attempt]
      exact exec_attempt_retold fun r => by cases r <;> rfl
  | setPolicy grants =>
      show ((ToolGateway.setPolicy grants >>= fun r => pure (ToldBack.reply r)).exec () >>= _) = _
      rw [Prog.bind_eq_attempt]
      exact exec_attempt_retold fun r => by cases r <;> rfl
  | decide sub t body =>
      cases hd : body.decision sub with
      | none =>
          have hcontroller : (TicketController.decide sub t body : GatewayM σ Response) =
              pure TicketController.noVerdict := by
            unfold TicketController.decide
            rw [hd]
          have hentry : (ToolGateway.decide t { status := .pending } : GatewayM σ Reply) =
              throw (.python .valueError) := rfl
          show ((TicketController.decide sub t body >>= fun r => pure (ToldBack.response r)).exec () >>= _)
            = Co.retold _ ((ToolGateway.decide t ((body.decision sub).getD _)).exec () >>= _)
          rw [hcontroller, hd, Option.getD_none, hentry]
          rfl
      | some d =>
          have hcontroller : (TicketController.decide sub t body : GatewayM σ Response) =
              tryCatch (ToolGateway.decide t d >>= fun _ => pure (TicketController.decided d))
                TicketController.undecided := by
            unfold TicketController.decide
            rw [hd]
          show ((TicketController.decide sub t body >>= fun r => pure (ToldBack.response r)).exec () >>= _)
            = Co.retold _ ((ToolGateway.decide t ((body.decision sub).getD _)).exec () >>= _)
          rw [hcontroller, hd, Option.getD_some, Prog.tryCatch_eq_attempt, Prog.bind_eq_attempt,
            Prog.bind_eq_attempt, Prog.attempt_assoc, Prog.attempt_assoc]
          refine exec_attempt_retold fun r => ?_
          cases r with
          | ok x =>
              show _ = Co.ret (Client.tells (.decide sub t body) (.ok x), ())
              rw [Client.tells, hd]
              rfl
          | error e =>
              cases e with
              | python e => cases e <;> rfl
              | _ => rfl
  | resume t =>
      show ((TicketController.resume s t >>= fun r => pure (ToldBack.response r)).exec () >>= _) =
        Co.retold _ ((ToolGateway.resume s [] t >>= fun r => pure (Reply.result r)).exec () >>= _)
      rw [TicketController.resume, Prog.tryCatch_eq_attempt, Prog.bind_eq_attempt,
        Prog.bind_eq_attempt, Prog.attempt_assoc, Prog.attempt_assoc, Prog.bind_eq_attempt]
      have hreply : ∀ r : Except Exc ToolResult,
          (Prog.onward (fun x => (pure (Reply.result x) : GatewayM σ Reply)) r).exec () =
            Co.ret (r.map Reply.result, ()) := fun r => by cases r <;> rfl
      refine Eq.trans ?_ (congrArg (Co.retold _) (exec_attempt_retold hreply)).symm
      rw [Co.retold_retold]
      refine exec_attempt_retold fun r => ?_
      cases r with
      | ok x => rfl
      | error e => cases e <;> rfl

end

-- ============================================================================
-- The surface and the gateway under it
-- ============================================================================

/-- A gateway without tickets and policy, and everybody who is going to use it. -/
def surface (σ : Type) [TicketStore σ] (s : Settings) (clients : List Client) :
    Config Input (World σ) (Except Exc ToldBack) :=
  { world := World.fresh σ, threads := clients.map fun client => some (client.program s) }

/-- The words of client `i`. -/
def wordsOf (clients : List Client) (i : ℕ) : Except Exc Reply → Except Exc ToldBack :=
  (clients[i]?.map Client.tells).getD fun r => r.map ToldBack.reply

section
variable {σ : Type} [TicketStore σ] {s : Settings} {clients : List Client}

theorem surface_eq :
    surface σ s clients = (gateway σ s (clients.map Client.actor)).retold (wordsOf clients) := by
  show Config.mk (World.fresh σ) _ = Config.mk (World.fresh σ) _
  congr 1
  refine List.ext_getElem? fun i => ?_
  rw [List.getElem?_mapIdx, gateway, List.getElem?_map, List.getElem?_map, List.getElem?_map,
    wordsOf]
  cases clients[i]? with
  | none => rfl
  | some client => exact congrArg (some ∘ some) client.program_eq

/-- The surface does to the world what the gateway under it does. -/
theorem surface_world (es : List (Event Input)) :
    ((surface σ s clients).run es).world = worldAfter σ s (clients.map Client.actor) es := by
  rw [surface_eq, Config.run_retold]
  rfl

/-- A client is told what the entry point behind it comes to, in its words. -/
theorem surface_outcome {client : Client} {i : ℕ} (hclient : clients[i]? = some client)
    (es : List (Event Input)) :
    ((surface σ s clients).run es).outcome i =
      (toldAfter σ s (clients.map Client.actor) es i).map client.tells := by
  rw [surface_eq, Config.run_retold, Config.outcome_retold, wordsOf, hclient]
  rfl

end

-- ============================================================================
-- How a decide ends
-- ============================================================================

/-- What an operator's decide did and came to. -/
inductive Ruled (t : TicketId) (d : Decision) : Except Exc Reply → List Mark → Prop where
  | unfit (h : ¬ (d.status = .approved ∨ d.status = .rejected)) :
      Ruled t d (.error (.python .valueError)) []
  | unknown (h : d.status = .approved ∨ d.status = .rejected) :
      Ruled t d (.error (.unknownTicket t)) [.missed t]
  | late (ticket : Ticket) (h : d.status = .approved ∨ d.status = .rejected) :
      Ruled t d (.error (.ticketAlreadyDecided t)) [.refused t, .read t ticket]
  | recorded (ticket : Ticket) (h : d.status = .approved ∨ d.status = .rejected) :
      Ruled t d (.ok .done) [.decided t d, .read t ticket]

section
variable {σ : Type} [TicketStore σ] [LawfulTicketStore σ] {s : Settings} {actors : List Actor}
  {es : List (Event Input)} {i : ℕ} {t : TicketId} {d : Decision}

theorem decide_ruled : (ledger σ s).Spec i [] () (ToolGateway.decide t d : GatewayM σ Reply)
    fun reply _ marks => Ruled t d reply marks := by
  by_cases hstatus : d.status = .approved ∨ d.status = .rejected
  swap
  · rw [ToolGateway.decide, if_neg hstatus]
    exact .throw (.unfit hstatus)
  rw [ToolGateway.decide, if_pos hstatus]
  have hpending : d.status ≠ .pending := by
    intro hp
    rw [hp] at hstatus
    rcases hstatus with h | h <;> cases h
  refine .lift_bind (getTicket_spec t) ?_
  rintro found marks (⟨ticket, rfl, rfl⟩ | ⟨rfl, rfl⟩)
  swap
  · exact .throw (.unknown hstatus)
  refine .lift_bind (decideTicket_spec t hpending) ?_
  rintro won marks (⟨rfl, rfl⟩ | ⟨rfl, rfl⟩)
  swap
  · exact .throw (.late ticket hstatus)
  refine .lift_bind (quiet_spec fun slot w x w' hb => by cases hb; exact ⟨rfl, rfl, rfl⟩) ?_
  rintro ⟨⟩ marks rfl
  refine .lift_bind (auditEvent_spec _ _ _) ?_
  rintro ⟨⟩ marks rfl
  exact .pure (.recorded ticket hstatus)

/-- Every decide of a run that is through ended in one of these ways. -/
theorem run_ruled {reply : Except Exc Reply} (hactor : actors[i]? = some (.decide t d))
    (htold : toldAfter σ s actors es i = some reply) :
    Ruled t d reply (own i (worldAfter σ s actors es).trail) := by
  have hthreads : ∀ i co, (gateway σ s actors).threads[i]? = some (some co) →
      (ledger σ s).Triple i [] co fun reply marks =>
        ∀ t d, actors[i]? = some (.decide t d) → Ruled t d reply marks := by
    intro i co hi
    rw [gateway, List.getElem?_map, Option.map_eq_some_iff] at hi
    obtain ⟨actor, hactor, hco⟩ := hi
    cases hco
    by_cases hdecide : ∃ t d, actor = .decide t d
    · obtain ⟨t, d, rfl⟩ := hdecide
      refine Discipline.Triple.bind decide_ruled ?_
      rintro ⟨reply, _⟩ marks hruled
      refine Discipline.Triple.ret fun t' d' heq => ?_
      rw [hactor] at heq
      cases heq
      exact hruled
    · refine actor.program_spec.mono fun reply marks _ t d heq => ?_
      rw [hactor] at heq
      cases heq
      exact absurd ⟨t, d, rfl⟩ hdecide
  exact (Discipline.run fresh_agrees rfl hthreads es).2.2 i reply htold t d hactor

/-- A ticket gets one verdict. -/
theorem decided_unique {trail : TrailOf Mark} (h : Legal (Allowed s) trail) {j : ℕ} {d' : Decision}
    (hmem : (i, .decided t d) ∈ trail) (hmem' : (j, .decided t d') ∈ trail) : i = j ∧ d = d' := by
  have hfirst : ∀ {k k' : ℕ} {e e' : Decision} {before : TrailOf Mark},
      Allowed s k (.decided t e) before → Legal (Allowed s) before →
      (k', .decided t e') ∉ before := by
    rintro k k' e e' before ⟨-, c, hc, hpending⟩ hbefore hin
    obtain ⟨c', hc', hdecision, hdecided⟩ := cell_of_decided hbefore hin
    rw [hc] at hc'
    cases hc'
    exact hdecided (hdecision ▸ hpending)
  obtain ⟨later, before, rfl, hallowed, hbefore⟩ := h.split hmem
  rcases List.mem_append.mp hmem' with hin | hin
  · obtain ⟨new, mid, rfl⟩ := List.append_of_mem hin
    rw [List.append_assoc, List.cons_append] at h
    have hthen := h.of_append
    exact absurd (List.mem_append_right mid List.mem_cons_self) (hfirst hthen.1 hthen.2)
  · rcases List.mem_cons.mp hin with heq | hin
    · cases heq
      exact ⟨rfl, rfl⟩
    · exact absurd hin (hfirst hallowed hbefore)

/-- A verdict came too late: another one is on the ticket. -/
theorem ruled_before {ticket : Ticket}
    (hown : own i (worldAfter σ s actors es).trail = [.refused t, .read t ticket]) :
    ∃ j d, j ≠ i ∧ (j, .decided t d) ∈ (worldAfter σ s actors es).trail := by
  have hlegal : Legal (Allowed s) (worldAfter σ s actors es).trail := run_legal
  obtain ⟨new, old, htrail, -, hold⟩ := own_split (hown.trans (List.nil_append _).symm)
  rw [htrail] at hlegal
  have hread' : (i, .read t ticket) ∈ old := mem_own.mp (hold ▸ List.mem_cons_self)
  obtain ⟨hopen, hbefore⟩ := hlegal.of_append
  obtain ⟨-, c, -, hc, -⟩ := cell_of_read hbefore hread'
  obtain ⟨j, hdecided⟩ := decided_of_cell hbefore hc (hopen c hc)
  refine ⟨j, c.decision, ?_, htrail ▸ List.mem_append_right new (List.mem_cons_of_mem _ hdecided)⟩
  rintro rfl
  have hmine := mem_own.mpr hdecided
  rw [hold] at hmine
  simp at hmine

end

-- ============================================================================
-- Accountability
-- ============================================================================

/-- Operators' verdicts, on every run of operators and agents.  A verdict that is no
    timeout is what one decide request asked for, under the subject of its token.  A
    decide request that is through is answered 200 if its verdict is the ticket's, for
    good; 409 if another one is; 404 if there was no ticket; and 422 exactly if it
    asked for neither an approval nor a rejection.  One request for a ticket is
    answered 200. -/
theorem verdicts_accountable (σ : Type) [TicketStore σ] [LawfulTicketStore σ] (s : Settings)
    (clients : List Client) (es : List (Event Input)) (t : TicketId) :
    (∀ i d, (i, .decided t d) ∈ ((surface σ s clients).run es).world.trail → d.status ≠ .timeout →
      ∃ sub body, clients[i]? = some (.decide sub t body) ∧ body.Asks sub d) ∧
    (∀ i sub body answer, clients[i]? = some (.decide sub t body) →
      ((surface σ s clients).run es).outcome i = some answer →
        (∃ d, body.Asks sub d ∧
          ((answer = .ok (.response (TicketController.decided d)) ∧
              (i, .decided t d) ∈ ((surface σ s clients).run es).world.trail ∧
              ∃ ticket, TicketStore.get ((surface σ s clients).run es).world.tickets t = some ticket ∧
                ticket.decision = d) ∨
            (answer = .ok (.response TicketController.alreadyDecided) ∧
              ∃ j d', j ≠ i ∧ (j, .decided t d') ∈ ((surface σ s clients).run es).world.trail) ∨
            (answer = .ok (.response TicketController.noSuchTicket) ∧
              (i, .missed t) ∈ ((surface σ s clients).run es).world.trail))) ∨
        (answer = .ok (.response TicketController.noVerdict) ∧ ∀ d, ¬ body.Asks sub d)) ∧
    ∀ i j d d', (i, .decided t d) ∈ ((surface σ s clients).run es).world.trail →
      (j, .decided t d') ∈ ((surface σ s clients).run es).world.trail → i = j ∧ d = d' := by
  rw [surface_world]
  refine ⟨fun i d hmem hstatus => ?_, fun i sub body answer hclient houtcome => ?_,
    fun i j d d' hmem hmem' => decided_unique (s := s) run_legal hmem hmem'⟩
  · obtain ⟨-, -, -, -, -, -, -, -, ⟨hactor, hverdict⟩ | ⟨htimeout, -⟩⟩ := made_of_mem hmem
    swap
    · exact absurd htimeout hstatus
    rw [List.getElem?_map, Option.map_eq_some_iff] at hactor
    obtain ⟨client, hclient, hactor⟩ := hactor
    cases client with
    | decide sub t' body =>
        cases hd : body.decision sub with
        | none =>
            rw [Client.actor, hd] at hactor
            cases hactor
            rcases hverdict with h | h <;> cases h
        | some d' =>
            rw [Client.actor, hd] at hactor
            cases hactor
            exact ⟨sub, body, hclient, hd, hverdict⟩
    | _ => cases hactor
  · rw [surface_outcome hclient, Option.map_eq_some_iff] at houtcome
    obtain ⟨reply, htold, rfl⟩ := houtcome
    have hactor : (clients.map Client.actor)[i]? =
        some (.decide t ((body.decision sub).getD { status := .pending })) := by
      rw [List.getElem?_map, hclient]
      rfl
    have hruled := run_ruled hactor htold
    generalize hown : own i (worldAfter σ s (clients.map Client.actor) es).trail = marks at hruled
    cases hd : body.decision sub with
    | none =>
        have hasks : ∀ d, ¬ body.Asks sub d := by
          rintro d ⟨hsome, -⟩
          rw [hd] at hsome
          cases hsome
        rw [hd, Option.getD_none] at hruled
        cases hruled with
        | unfit h => exact Or.inr ⟨rfl, hasks⟩
        | unknown h | late ticket h | recorded ticket h => rcases h with h | h <;> cases h
    | some d =>
        have hasks : ∀ h : d.status = .approved ∨ d.status = .rejected, body.Asks sub d :=
          fun h => ⟨hd, h⟩
        rw [hd, Option.getD_some] at hruled
        cases hruled with
        | unfit h =>
            refine Or.inr ⟨rfl, ?_⟩
            rintro d' ⟨hsome, hstatus⟩
            rw [hd] at hsome
            cases hsome
            exact h hstatus
        | unknown h =>
            exact Or.inl ⟨d, hasks h, Or.inr (Or.inr ⟨rfl, mem_own.mp (hown ▸ List.mem_cons_self)⟩)⟩
        | late ticket h => exact Or.inl ⟨d, hasks h, Or.inr (Or.inl ⟨rfl, ruled_before hown⟩)⟩
        | recorded ticket h =>
            have hmem : (i, .decided t d) ∈ (worldAfter σ s (clients.map Client.actor) es).trail :=
              mem_own.mp (hown ▸ List.mem_cons_self)
            obtain ⟨c, hc, hdecision, -⟩ := cell_of_decided (s := s) run_legal hmem
            refine Or.inl ⟨d, hasks h, Or.inl ⟨?_, hmem, c.ticket, ?_, hdecision⟩⟩
            · rw [Client.tells, hd]
              rfl
            · rw [run_get, hc, Option.map_some]

end ToolGateway
