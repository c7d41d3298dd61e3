/-
  ToolGateway.Gateway.Secrecy

  Which texts of an upstream reach a caller or a ticket.  `Redact` looks at the
  content of a result only: the text of an exception leaves the pipeline in
  UpstreamUnavailable, and the notes of a result leave with it.  So a secret gets
  out exactly when it stands in one of these.
-/

import ToolGateway.Gateway.OneOutcome

namespace ToolGateway

open Coroutine Py

/-- What it is for a text, and for the content of a result, to contain an active
    secret. -/
structure ActiveSecrets where
  inText : String → Prop
  inContent : Json → Prop

namespace ActiveSecrets

variable (secrets : ActiveSecrets) (redact : ToolResult → String → Except Exc ToolResult)

/-- The redactor rejects every result whose content contains a secret, in its own
    words. -/
def Rejected : Prop :=
  ∀ upstreamId, ∃ e, ∀ r : ToolResult, secrets.inContent r.content → redact r upstreamId = .error e

/-- It hands on the others as they are. -/
def HandsOnOthers : Prop :=
  ∀ (r : ToolResult) upstreamId, ¬ secrets.inContent r.content → redact r upstreamId = .ok r

/-- The upstream puts no secret where nobody looks for one: not in the text of an
    exception, nor in the notes of a result without one. -/
def Discreet : Answer → Prop
  | .result x => ¬ secrets.inContent x.content → ∀ text ∈ x.notes, ¬ secrets.inText text
  | .raised _ text => ¬ secrets.inText text

/-- A pipeline that ends like this tells a text of the upstream's answer that
    contains a secret. -/
inductive Reveals : Answer → Except Exc ToolResult → Prop
  | content (x r : ToolResult) (hsecret : secrets.inContent x.content)
      (hsame : r.content = x.content) : Reveals (.result x) (.ok r)
  | note (x r : ToolResult) (text : String) (hsecret : secrets.inText text)
      (hfrom : text ∈ x.notes) (hin : text ∈ r.notes) : Reveals (.result x) (.ok r)
  | failure (typeName text : String) (e : GatewayError) (hsecret : secrets.inText text)
      (hin : text.toList <:+: e.str.toList) :
      Reveals (.raised typeName text) (.error (.gateway e))

end ActiveSecrets

-- ============================================================================
-- The pipeline
-- ============================================================================

section
variable {s : Settings} {secrets : ActiveSecrets} {a : Answer} {r : Except Exc ToolResult}

theorem mem_notes_noted {x : ToolResult} {text : String} (h : text ∈ x.notes) (elapsed : ℤ)
    (editNote : Option String) : text ∈ (noted x elapsed editNote).notes := by
  cases editNote with
  | none => exact h
  | some note =>
      by_cases hnote : note = ""
      · simp [noted, hnote, h]
      · simp [noted, hnote, h]

theorem unavailable_str (msg : String) (cause : Option String) :
    (GatewayError.upstreamUnavailable msg cause).str = msg := rfl

/-- A result whose content contains a secret does not get out. -/
theorem Settings.Yields.clean (hrejected : secrets.Rejected s.redact) {x y : ToolResult}
    (h : s.Yields (.result x) (.ok y)) : ¬ secrets.inContent x.content := by
  intro hsecret
  obtain ⟨elapsed, editNote, upstreamId, hout⟩ := h
  obtain ⟨e, he⟩ := hrejected upstreamId
  rw [he (noted x elapsed editNote) hsecret] at hout
  cases hout

theorem Settings.Yields.kept (hrejected : secrets.Rejected s.redact) {y : Except Exc ToolResult}
    (h : s.Yields a r) (hsame : ∀ x, y = .ok x → r = .ok x) (hdiscreet : secrets.Discreet a) :
    ¬ secrets.Reveals a y := by
  intro hreveals
  cases hreveals with
  | content x z hsecret =>
      have hyields := h
      rw [hsame z rfl] at hyields
      exact hyields.clean hrejected hsecret
  | note x z text hsecret hfrom =>
      have hyields := h
      rw [hsame z rfl] at hyields
      exact hdiscreet (hyields.clean hrejected) text hfrom hsecret
  | failure typeName text e hsecret => exact hdiscreet hsecret

theorem Settings.Yields.reveals (hothers : secrets.HandsOnOthers s.redact) (h : s.Yields a r)
    (hindiscreet : ¬ secrets.Discreet a) : secrets.Reveals a r := by
  cases a with
  | raised typeName text =>
      rw [show r = .error (.gateway (.upstreamUnavailable ("tool call failed: " ++ text) text)) from h]
      refine .failure typeName text _ (not_not.mp hindiscreet) ?_
      rw [unavailable_str, String.toList_append]
      exact (List.suffix_append _ text.toList).isInfix
  | result x =>
      obtain ⟨elapsed, editNote, upstreamId, hout⟩ := h
      simp only [ActiveSecrets.Discreet, not_forall, not_not] at hindiscreet
      obtain ⟨hclean, text, hfrom, hsecret⟩ := hindiscreet
      rw [hothers (noted x elapsed editNote) upstreamId hclean] at hout
      rw [hout]
      exact .note x _ text hsecret hfrom (mem_notes_noted hfrom elapsed editNote)

/-- A pipeline that did not get to the upstream tells nothing of one. -/
theorem Ended.unanswered {call : ToolCall} {schema : Json} {editNote : Option String}
    {new : List Mark} (h : Ended s call schema editNote new r) (hno : ∀ a, .answered a ∉ new) :
    ∃ e : Exc, r = .error e ∧ (e.quotesUpstream = false ∨ .resolved (.error e) ∈ new) := by
  cases h with
  | unchecked e => exact ⟨_, rfl, Or.inl rfl⟩
  | invalid errors => exact ⟨_, rfl, Or.inl rfl⟩
  | unresolved e => exact ⟨e, rfl, Or.inr List.mem_cons_self⟩
  | unavailable => exact absurd List.mem_cons_self (hno _)
  | answered => exact absurd (List.mem_cons_of_mem _ List.mem_cons_self) (hno _)

-- ============================================================================
-- The caller that executed
-- ============================================================================

theorem Direct.yields {marks : List Mark} (h : Direct s marks r) (hmem : .answered a ∈ marks) :
    s.Yields a r := by
  obtain ⟨base, new, call, grant, _, hpassive, _, _, hended⟩ := h
  rcases List.mem_append.mp hmem with hnew | hbase
  · exact hended.yields hnew
  · cases hpassive _ hbase

theorem Executed.yields {t : TicketId} {marks : List Mark} (h : Executed s t marks r)
    (hmem : .answered a ∈ marks) : s.Yields a r := by
  obtain ⟨base, new, stored, now, call, d, grant, editNote, _, hpassive, -, hended, hstored⟩ := h
  have hbase : Mark.answered a ∉ base := fun hm => by cases hpassive _ hm
  have hout : Mark.answered a ∉ stored := fun hm => by
    rcases hstored with ⟨rfl, -⟩ | ⟨outcome, rfl, -⟩ <;> simp at hm
  simp only [List.mem_append, List.mem_cons, hout, hbase, reduceCtorEq, or_false, false_or] at hmem
  exact hended.yields hmem

/-- Whoever called an upstream ends with what the pipeline made of its answer. -/
theorem Actor.Ends.yields {actor : Actor} {reply : Except Exc Reply} {marks : List Mark}
    (h : actor.Ends s reply marks) (hmem : .answered a ∈ marks) :
    ∃ r, reply = actor.tells r ∧ s.Yields a r := by
  obtain ⟨r, hreply, ⟨hdirect, -⟩ | ⟨t, hexecuted⟩⟩ := h.executed hmem rfl
  · exact ⟨r, hreply, hdirect.yields hmem⟩
  · exact ⟨r, hreply, hexecuted.yields hmem⟩

theorem yields_of_completed {trail : TrailOf Mark} (h : Legal (Allowed s) trail) {i : ℕ}
    {t : TicketId} {outcome : Except GatewayError ToolResult}
    (hcompleted : (i, .completed t outcome) ∈ trail) (hanswered : (i, .answered a) ∈ trail) :
    s.Yields a (handedOn outcome) := by
  rcases h.order hcompleted hanswered with heq | ⟨before, hallowed, hmem⟩ | ⟨before, hallowed, hmem⟩
  · cases heq
  · exact hallowed.2.2.2.2 a hmem
  · exact absurd hmem (hallowed.2 t outcome)

end

-- ============================================================================
-- Everybody else
-- ============================================================================

/-- What an executor stored, or what closing its claim did. -/
def LeftOnTicket (trail : TrailOf Mark) (x : ToolResult) : Prop :=
  x = interrupted ∨ ∃ j t outcome, (j, .completed t outcome) ∈ trail ∧ x = storedResult outcome

/-- Not the words of an upstream that thread `i` called. -/
def Secondhand (i : ℕ) (trail : TrailOf Mark) : Except Exc ToolResult → Prop
  | .ok x => LeftOnTicket trail x
  | .error e => e.quotesUpstream = false ∨ (i, .resolved (.error e)) ∈ trail

section
variable {s : Settings} {t : TicketId} {i : ℕ} {trail : TrailOf Mark} {x : ToolResult}
  {r : Except Exc ToolResult}

theorem left_of_cell (h : Legal (Allowed s) trail) {c : Cell} (hc : cellOf t trail = some c)
    (hr : c.result = some x) : LeftOnTicket trail x := by
  rcases result_origin h hc hr with ⟨j, outcome, hmem, hx⟩ | ⟨hx, -⟩
  · exact Or.inr ⟨j, t, outcome, hmem, hx⟩
  · exact Or.inl hx

theorem left_of_read (h : Legal (Allowed s) trail) {ticket : Ticket}
    (hmem : (i, .read t ticket) ∈ trail) (hr : ticket.result = some x) : LeftOnTicket trail x := by
  obtain ⟨later, before, rfl, ⟨c, hc, rfl⟩, hbefore⟩ := h.split hmem
  refine (left_of_cell hbefore hc hr).imp_right ?_
  rintro ⟨j, t', outcome, hcompleted, hx⟩
  exact ⟨j, t', outcome, List.mem_append_right _ (List.mem_cons_of_mem _ hcompleted), hx⟩

theorem Ended.secondhand {call : ToolCall} {schema : Json} {editNote : Option String}
    {new : List Mark} (h : Ended s call schema editNote new r)
    (hnew : ∀ m ∈ new, (i, m) ∈ trail) (hno : ∀ a, (i, .answered a) ∉ trail) :
    Secondhand i trail r := by
  obtain ⟨e, rfl, hlocal | hresolved⟩ := h.unanswered fun a hm => hno a (hnew _ hm)
  · exact Or.inl hlocal
  · exact Or.inr (hnew _ hresolved)

/-- A caller that did not get to an upstream itself. -/
theorem Served.secondhand (hlegal : Legal (Allowed s) trail) (h : Served s t (own i trail) r)
    (hno : ∀ a, (i, .answered a) ∉ trail) : Secondhand i trail r := by
  generalize hmarks : own i trail = marks at h
  have hmem : ∀ m ∈ marks, (i, m) ∈ trail := fun m hm => mem_own.mp (hmarks ▸ hm)
  cases h with
  | gated base _ d call grant editNote _ _ _ _ _ _ htried =>
      cases htried with
      | completed now new outcome hended =>
          exact hended.secondhand (fun m hm => hmem m (by simp [hm])) hno
      | stranded now new e hforeign hended =>
          exact hended.secondhand (fun m hm => hmem m (by simp [hm])) hno
      | stored ticket x hresult => exact left_of_read hlegal (hmem _ List.mem_cons_self) hresult
      | closed => exact Or.inl rfl
      | pending => exact Or.inl rfl
  | stored _ ticket x _ _ hread hresult => exact left_of_read hlegal (hmem _ hread) hresult
  | refused _ e _ hlocal => exact Or.inl hlocal

theorem Direct.secondhand (h : Direct s (own i trail) r) (hno : ∀ a, (i, .answered a) ∉ trail) :
    Secondhand i trail r := by
  generalize hmarks : own i trail = marks at h
  obtain ⟨base, new, call, grant, _, _, _, _, hended⟩ := h
  refine hended.secondhand (fun m hm => ?_) hno
  rw [← mem_own, hmarks]
  exact List.mem_append_left _ hm

end

/-- A client that calls a tool, or resumes a ticket. -/
inductive Actor.Client : Actor → Prop
  | call (toolCall : ToolCall) (canBlock : Bool) : Client (.call toolCall canBlock)
  | resume (t : TicketId) : Client (.resume t)

theorem Actor.Ends.secondhand {s : Settings} {i : ℕ} {trail : TrailOf Mark} {actor : Actor}
    {reply : Except Exc Reply} (hlegal : Legal (Allowed s) trail) (hclient : actor.Client)
    (h : actor.Ends s reply (own i trail)) (hno : ∀ a, (i, .answered a) ∉ trail) :
    ∃ r, reply = actor.tells r ∧ Secondhand i trail r := by
  cases hclient with
  | call toolCall canBlock =>
      obtain ⟨r, hreply, (hdirect | ⟨t, hserved⟩) | ⟨-, e, rfl, hlocal⟩⟩ := h
      · exact ⟨r, hreply, hdirect.secondhand hno⟩
      · exact ⟨r, hreply, hserved.secondhand hlegal hno⟩
      · exact ⟨_, hreply, Or.inl hlocal⟩
  | resume t =>
      obtain ⟨r, hreply, hserved, -⟩ := h
      exact ⟨r, hreply, hserved.secondhand hlegal hno⟩

-- ============================================================================
-- Runs
-- ============================================================================

section
variable {σ : Type} [TicketStore σ] [LawfulTicketStore σ]

/-- How thread `i` ended its pipeline got out: it was told, or it is what was
    stored. -/
inductive Released (σ : Type) [TicketStore σ] (s : Settings) (actors : List Actor)
    (es : List (Event Input)) (i : ℕ) : Except Exc ToolResult → Prop
  | told (actor : Actor) (r : Except Exc ToolResult) (hactor : actors[i]? = some actor)
      (htold : toldAfter σ s actors es i = some (actor.tells r)) : Released σ s actors es i r
  | stored (t : TicketId) (outcome : Except GatewayError ToolResult)
      (hstored : (i, .completed t outcome) ∈ (worldAfter σ s actors es).trail) :
      Released σ s actors es i (handedOn outcome)

/-- What an upstream answered gets out as the pipeline made it. -/
theorem Released.yields {s : Settings} {actors : List Actor} {es : List (Event Input)} {i : ℕ}
    {a : Answer} {r : Except Exc ToolResult} (h : Released σ s actors es i r)
    (hmem : (i, .answered a) ∈ (worldAfter σ s actors es).trail) :
    ∃ r', Released σ s actors es i r' ∧ s.Yields a r' ∧ ∀ x, r = .ok x → r' = .ok x := by
  cases h with
  | told actor r hactor htold =>
      obtain ⟨r', hreply, hyields⟩ := (run_ends hactor htold).yields (mem_own.mpr hmem)
      refine ⟨r', .told actor r' hactor (hreply ▸ htold), hyields, fun x hx => ?_⟩
      rw [hx] at hreply
      refine Actor.tells_result (hreply.symm.trans ?_)
      cases actor <;> rfl
  | stored t outcome hstored =>
      exact ⟨_, .stored t outcome hstored, yields_of_completed run_legal hstored hmem, fun x hx => hx⟩

/-- A redactor that rejects what has a secret in its content keeps the upstream's
    secrets from callers and tickets exactly if the upstream is discreet: texts of
    its exceptions, and notes, are not looked at. -/
theorem secret_kept_iff (s : Settings) (actors : List Actor) (es : List (Event Input))
    (secrets : ActiveSecrets) (hrejected : secrets.Rejected s.redact) :
    (∀ i a, (i, .answered a) ∈ (worldAfter σ s actors es).trail →
      (secrets.Discreet a → ∀ r, Released σ s actors es i r → ¬ secrets.Reveals a r) ∧
      (secrets.HandsOnOthers s.redact → ¬ secrets.Discreet a →
        (∃ r, Released σ s actors es i r) →
          ∃ r, Released σ s actors es i r ∧ secrets.Reveals a r)) ∧
    (∀ t x, storedAfter σ s actors es t = some x →
      LeftOnTicket (worldAfter σ s actors es).trail x) ∧
    ∀ i actor reply, actors[i]? = some actor → actor.Client →
      toldAfter σ s actors es i = some reply →
      (∀ a, (i, .answered a) ∉ (worldAfter σ s actors es).trail) →
        ∃ r, reply = actor.tells r ∧ Secondhand i (worldAfter σ s actors es).trail r := by
  refine ⟨fun i a hmem => ⟨fun hdiscreet r hreleased => ?_,
    fun hothers hindiscreet ⟨r, hreleased⟩ => ?_⟩, fun t x hx => ?_,
    fun i actor reply hactor hclient htold hno => ?_⟩
  · obtain ⟨r', -, hyields, hsame⟩ := hreleased.yields hmem
    exact hyields.kept hrejected hsame hdiscreet
  · obtain ⟨r', hreleased', hyields, -⟩ := hreleased.yields hmem
    exact ⟨r', hreleased', hyields.reveals hothers hindiscreet⟩
  · obtain ⟨c, hc, hresult⟩ := run_stored.mp hx
    exact left_of_cell run_legal hc hresult
  · exact (run_ends hactor htold).secondhand run_legal hclient hno

end

-- ============================================================================
-- The in-memory secret resolver
-- ============================================================================

/-- The secrets it keeps, found in the text of a content. -/
def DictSecretResolver.active [PrintTables] (secrets : Dict String) : ActiveSecrets where
  inText := Leaks secrets
  inContent content := Leaks secrets content.toStr

theorem DictSecretResolver.rejected [PrintTables] (secrets : Dict String) :
    (active secrets).Rejected (inMemory secrets).redact :=
  fun _ => ⟨.gateway (.secretLeak LEAK), fun _ h => if_pos h⟩

theorem DictSecretResolver.handsOnOthers [PrintTables] (secrets : Dict String) :
    (active secrets).HandsOnOthers (inMemory secrets).redact :=
  fun _ _ h => if_neg h

/-- A token, and a call that refers to it. -/
def tokens : Dict String := [("token", "s3cret")]

/-- A call that names a secret. -/
def withToken : ToolCall :=
  { pullRequest with arguments := .dict [("token", .str "secret://token")] }

/-- A policy that needs no approval, and the caller. -/
def caller : List Actor :=
  [.setPolicy fun _ => .ok (some { approvalMode := .auto }), .call withToken false]

/-- The call gets this answer from the upstream. -/
def answeredWith (a : Answer) : List (Event Input) :=
  goes 0 1 {} ++ goes 1 12
    { materialize := fun arguments _ _ => DictSecretResolver.materialize tokens arguments
      upstream := fun _ => a }

/-- Its gateway, whose console prints ASCII. -/
def guarded : Settings := @inMemory .ascii tokens

/-- The secrets the upstream must not echo. -/
def guardedSecrets : ActiveSecrets := @DictSecretResolver.active .ascii tokens

/-- The caller's upstream put the token into the content of its result. -/
def echoed : ℕ × Mark → Bool
  | (1, .answered (.result x)) =>
      x.notes.isEmpty && decide (DictSecretResolver.Leaks tokens (@Json.toStr .ascii x.content))
  | _ => false

/-- A token that is echoed in the content stays inside. -/
theorem secret_kept_iff_echoed :
    ∃ a, (1, .answered a) ∈ (worldAfter MemoryTicketStore guarded caller
        (answeredWith (.result { content := .dict [("echo", .str "s3cret")] }))).trail ∧
      ∀ r, Released MemoryTicketStore guarded caller
        (answeredWith (.result { content := .dict [("echo", .str "s3cret")] })) 1 r →
          ¬ guardedSecrets.Reveals a r := by
  have hechoed : (worldAfter MemoryTicketStore guarded caller
      (answeredWith (.result { content := .dict [("echo", .str "s3cret")] }))).trail.any echoed =
        true := by
    decide +kernel
  obtain ⟨⟨i, m⟩, hmem, hm⟩ := List.any_eq_true.mp hechoed
  unfold echoed at hm
  split at hm
  · next x heq =>
      cases heq
      rw [Bool.and_eq_true, decide_eq_true_iff] at hm
      refine ⟨_, hmem, ((secret_kept_iff guarded caller _ guardedSecrets
        (@DictSecretResolver.rejected .ascii tokens)).1 1 _ hmem).1 fun hclean => ?_⟩
      exact absurd hm.2 hclean
  · cases hm

/-- It put the token into the text of an exception. -/
def quoted : ℕ × Mark → Bool
  | (1, .answered (.raised _ text)) => decide (DictSecretResolver.Leaks tokens text)
  | _ => false

/-- An upstream that quotes the token in its exception: redaction does not see it. -/
theorem secret_can_leak :
    ¬ ∀ (s : Settings) (actors : List Actor) (es : List (Event Input)) (secrets : ActiveSecrets),
      secrets.Rejected s.redact → ∀ i a r,
        (i, .answered a) ∈ (worldAfter MemoryTicketStore s actors es).trail →
        Released MemoryTicketStore s actors es i r → ¬ secrets.Reveals a r := by
  intro law
  have hquoted : (worldAfter MemoryTicketStore guarded caller
      (answeredWith (.raised "ValueError" "bad token s3cret"))).trail.any quoted = true := by
    decide +kernel
  have htold : (toldAfter MemoryTicketStore guarded caller
      (answeredWith (.raised "ValueError" "bad token s3cret")) 1).isSome = true := by
    decide +kernel
  obtain ⟨reply, hreply⟩ := Option.isSome_iff_exists.mp htold
  obtain ⟨⟨i, m⟩, hmem, hm⟩ := List.any_eq_true.mp hquoted
  unfold quoted at hm
  split at hm
  · next typeName text heq =>
      cases heq
      have hleaks := of_decide_eq_true hm
      have hends : (Actor.call withToken false).Ends guarded reply
          (own 1 (worldAfter MemoryTicketStore guarded caller
            (answeredWith (.raised "ValueError" "bad token s3cret"))).trail) :=
        run_ends rfl hreply
      obtain ⟨r, rfl, hyields⟩ := hends.yields (mem_own.mpr hmem)
      refine law guarded caller _ guardedSecrets (@DictSecretResolver.rejected .ascii tokens) 1 _ r
        hmem (.told _ r rfl hreply) (hyields.reveals
          (@DictSecretResolver.handsOnOthers .ascii tokens) ?_)
      exact fun hdiscreet => hdiscreet hleaks
  · cases hm

end ToolGateway
