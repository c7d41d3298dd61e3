/-
  ToolGateway.Gateway.CarryOut

  What a verdict on a call comes to, when the policy, the secret store and the
  upstream answer the same whenever they are asked: `Services.carryOut`, a function
  of the call, the grant, the verdict and the time the upstream takes.  Whoever runs
  a ticket alone, its waiting caller or a resumer, does exactly that.
-/

import ToolGateway.Gateway.OneOutcome
import ToolGateway.Gateway.Tracks

namespace ToolGateway

open Coroutine Py

-- ============================================================================
-- What a verdict on a call comes to
-- ============================================================================

/-- A policy and services that answer the same whenever they are asked. -/
structure Services where
  grants : GrantResolver
  materialize : Json → String → String → Except Exc (Json × List String)
  upstream : ToolCall → Answer

/-- The services as a step meets them. -/
def Services.Answers (v : Services) (input : Input) : Prop :=
  input.materialize = v.materialize ∧ input.upstream = v.upstream

/-- What is sent to the upstream, how it ends, and what is kept on the ticket. -/
structure Execution where
  sent : List ToolCall
  outcome : Except Exc ToolResult
  kept : Option ToolResult

/-- A result, or a `GatewayError`, is kept; any other exception is not. -/
def keptOf : Except Exc ToolResult → Option ToolResult
  | .ok r => some r
  | .error (.gateway e) => some (storedResult (.error e))
  | .error _ => none

/-- What the upstream's answer comes to. -/
def Settings.answered (s : Settings) (call : ToolCall) (editNote : Option String) (elapsed : ℤ) :
    Answer → Except Exc ToolResult
  | .raised _ text =>
      .error (.gateway (.upstreamUnavailable ("tool call failed: " ++ text) (some text)))
  | .result r => s.redact (noted r elapsed editNote) call.upstreamId

/-- The pipeline on a call, when the upstream takes `elapsed` milliseconds. -/
def Services.execute (v : Services) (s : Settings) (call : ToolCall) (schema : Json)
    (editNote : Option String) (elapsed : ℤ) : List ToolCall × Except Exc ToolResult :=
  match s.checkArgs call.arguments schema with
  | .error e => ([], .error (.python e))
  | .ok [] =>
      match v.materialize call.arguments call.upstreamId call.agentId with
      | .error e => ([], .error e)
      | .ok (arguments, _) =>
          let sent := { call with arguments := arguments }
          ([sent], s.answered call editNote elapsed (v.upstream sent))
  | .ok errors => ([], .error (.gateway (.schemaInvalid errors)))

/-- A verdict on a granted call: a denial, or the execution of what it lets through. -/
def Services.carryOut (v : Services) (s : Settings) (call : ToolCall) (grant : Grant)
    (d : Decision) (elapsed : ℤ) : Execution :=
  match d.verdictOn call with
  | .error e => { sent := [], outcome := .error e, kept := none }
  | .ok (call', editNote) =>
      let r := v.execute s call' grant.inputSchema editNote elapsed
      { sent := r.1, outcome := r.2, kept := keptOf r.2 }

-- ============================================================================
-- The time it took aside
-- ============================================================================

/-- Same content, error flag and notes. -/
def SameResult (r r' : ToolResult) : Prop :=
  r.content = r'.content ∧ r.isError = r'.isError ∧ r.notes = r'.notes

/-- Both results are the same, or both errors. -/
def SameOutcome : Except Exc ToolResult → Except Exc ToolResult → Prop
  | .ok r, .ok r' => SameResult r r'
  | .error e, .error e' => e = e'
  | _, _ => False

/-- Both are kept or neither, and what is kept is the same. -/
def SameKept : Option ToolResult → Option ToolResult → Prop
  | some r, some r' => SameResult r r'
  | none, none => True
  | _, _ => False

/-- The redactor looks at what a result says, not at the time it took. -/
def Settings.RedactsContent (s : Settings) : Prop :=
  ∀ r r' upstreamId, SameResult r r' → SameOutcome (s.redact r upstreamId) (s.redact r' upstreamId)

theorem SameOutcome.refl (r : Except Exc ToolResult) : SameOutcome r r := by
  cases r with
  | ok r => exact ⟨rfl, rfl, rfl⟩
  | error e => rfl

theorem SameOutcome.kept {r r' : Except Exc ToolResult} (h : SameOutcome r r') :
    SameKept (keptOf r) (keptOf r') := by
  cases r with
  | ok x =>
      cases r' with
      | ok x' => exact h
      | error e => exact h.elim
  | error e =>
      cases r' with
      | ok x' => exact h.elim
      | error e' =>
          obtain rfl : e = e' := h
          cases e with
          | gateway e => exact ⟨rfl, rfl, rfl⟩
          | _ => trivial

section
variable {s : Settings}

theorem Settings.answered_same (hredact : s.RedactsContent) (call : ToolCall)
    (editNote : Option String) (elapsed elapsed' : ℤ) (a : Answer) :
    SameOutcome (s.answered call editNote elapsed a) (s.answered call editNote elapsed' a) := by
  cases a with
  | raised typeName text => exact .refl _
  | result r => exact hredact _ _ _ ⟨rfl, rfl, rfl⟩

theorem Services.execute_same (v : Services) (hredact : s.RedactsContent) (call : ToolCall)
    (schema : Json) (editNote : Option String) (elapsed elapsed' : ℤ) :
    (v.execute s call schema editNote elapsed).1 = (v.execute s call schema editNote elapsed').1 ∧
      SameOutcome (v.execute s call schema editNote elapsed).2
        (v.execute s call schema editNote elapsed').2 := by
  unfold execute
  split
  · exact ⟨rfl, rfl⟩
  · split
    · exact ⟨rfl, rfl⟩
    · exact ⟨rfl, s.answered_same hredact call editNote elapsed elapsed' _⟩
  · exact ⟨rfl, rfl⟩

/-- The time the upstream takes changes nothing else. -/
theorem Services.carryOut_same (v : Services) (hredact : s.RedactsContent) (call : ToolCall)
    (grant : Grant) (d : Decision) (elapsed elapsed' : ℤ) :
    (v.carryOut s call grant d elapsed).sent = (v.carryOut s call grant d elapsed').sent ∧
      SameOutcome (v.carryOut s call grant d elapsed).outcome
        (v.carryOut s call grant d elapsed').outcome ∧
      SameKept (v.carryOut s call grant d elapsed).kept
        (v.carryOut s call grant d elapsed').kept := by
  unfold carryOut
  split
  · exact ⟨rfl, rfl, trivial⟩
  · next call' editNote _ =>
      obtain ⟨hsent, houtcome⟩ :=
        v.execute_same hredact call' grant.inputSchema editNote elapsed elapsed'
      exact ⟨hsent, houtcome, houtcome.kept⟩

end

-- ============================================================================
-- An execution, by its marks
-- ============================================================================

/-- The calls a thread sent to the upstream. -/
def sentBy (marks : List Mark) : List ToolCall :=
  marks.filterMap fun
    | .dispatched call => some call
    | _ => none

theorem sentBy_append (marks marks' : List Mark) :
    sentBy (marks ++ marks') = sentBy marks ++ sentBy marks' :=
  List.filterMap_append

/-- A pipeline whose services answer as they do has done what they do. -/
theorem Ended.executes {v : Services} {s : Settings} {call : ToolCall} {schema : Json}
    {editNote editNote' : Option String} {marks : List Mark} {r : Except Exc ToolResult}
    (h : Ended s call schema editNote marks r)
    (hresolved : ∀ answer, .resolved answer ∈ marks →
      answer = v.materialize call.arguments call.upstreamId call.agentId)
    (hanswered : ∀ a, .answered a ∈ marks → ∃ sent, .dispatched sent ∈ marks ∧ a = v.upstream sent)
    (hreturned : ∀ x, .returned x ∈ marks →
      ∃ a elapsed, .answered (.result a) ∈ marks ∧ x = noted a elapsed editNote') :
    ∃ elapsed, v.execute s call schema editNote' elapsed = (sentBy marks, r) := by
  cases h with
  | unchecked e hcheck =>
      refine ⟨0, ?_⟩
      rw [Services.execute, hcheck]
      rfl
  | invalid errors hcheck hne =>
      refine ⟨0, ?_⟩
      rw [Services.execute, hcheck]
      cases errors with
      | nil => exact absurd rfl hne
      | cons error errors => rfl
  | unresolved e hcheck =>
      refine ⟨0, ?_⟩
      have hanswer := hresolved (.error e) (by simp)
      rw [Services.execute, hcheck]
      simp only [← hanswer]
      rfl
  | unavailable arguments refs typeName text hcheck =>
      refine ⟨0, ?_⟩
      have hanswer := hresolved (.ok (arguments, refs)) (by simp)
      obtain ⟨sent, hsent, hraised⟩ := hanswered (.raised typeName text) (by simp)
      obtain rfl : sent = { call with arguments := arguments } := by simpa using hsent
      rw [Services.execute, hcheck]
      simp only [← hanswer, ← hraised]
      rfl
  | answered arguments refs x elapsed hcheck =>
      have hanswer := hresolved (.ok (arguments, refs)) (by simp)
      obtain ⟨sent, hsent, hresult⟩ := hanswered (.result x) (by simp)
      obtain rfl : sent = { call with arguments := arguments } := by simpa using hsent
      obtain ⟨x', elapsed', hx', hnoted⟩ := hreturned (noted x elapsed editNote) (by simp)
      obtain rfl : x' = x := by simpa using hx'
      refine ⟨elapsed', ?_⟩
      rw [Services.execute, hcheck]
      simp only [← hanswer, ← hresult, Settings.answered, ← hnoted]
      rfl

/-- A thread that tried nothing sent nothing. -/
theorem sentBy_passive {marks : List Mark} (h : ∀ m ∈ marks, m.passive = true) :
    sentBy marks = [] := by
  refine List.filterMap_eq_nil_iff.mpr fun m hm => ?_
  have hpassive := h m hm
  cases m with
  | dispatched call => cases hpassive
  | _ => rfl

/-- The call that a verdict lets through. -/
theorem Decision.verdictOn_effective {d : Decision} {call call' : ToolCall} {note : Option String}
    (h : d.verdictOn call = .ok (call', note)) :
    call' = { call with arguments := d.effective call.arguments } := by
  rw [Decision.verdictOn] at h
  by_cases happroved : d.approved
  swap
  · rw [if_neg happroved] at h
    cases h
  rw [if_pos happroved] at h
  by_cases hedits : d.edits call.arguments
  · rw [if_pos hedits] at h
    cases hchanged : changedFields call.arguments d.editedArguments with
    | error e =>
        rw [hchanged] at h
        cases h
    | ok changed =>
        rw [hchanged] at h
        cases h
        rw [Decision.effective, if_pos hedits]
  · rw [if_neg hedits] at h
    cases h
    rw [Decision.effective, if_neg hedits]

-- ============================================================================
-- Who runs a ticket
-- ============================================================================

section
variable {σ : Type} {s : Settings} {ok : Input → Prop} {T : TrailOf Mark}
  {actors : List Actor} {i : ℕ} {actor : Actor} {t : TicketId} {d : Decision}

/-- Nobody but thread `i` got past the verdict on ticket `t`, or closed a claim on it. -/
structure SoleRunner (T : TrailOf Mark) (t : TicketId) (i : ℕ) : Prop where
  acted : ∀ j d, (j, .acted t d) ∈ T → j = i
  closed : ∀ j ownerLive, (j, .closed t ownerLive) ∈ T → j = i

/-- Whoever got past a verdict on the ticket, or closed a claim on it, serves it. -/
theorem serves_of_mem (h : Legal (provenance σ ok actors).guard T) {m : Mark}
    (hm : (∃ d, m = .acted t d) ∨ ∃ ownerLive, m = .closed t ownerLive) {j : ℕ}
    (hmem : (j, m) ∈ T) : ∃ actor, actors[j]? = some actor ∧ Serves actor t (own j T) := by
  obtain ⟨actor, hactor⟩ := actor_of_mem h hmem
  obtain ⟨before, hbefore, htraced⟩ := traced_of_mem h hactor hmem
  have hserves : Serves actor t before := by
    rcases hm with ⟨d, rfl⟩ | ⟨ownerLive, rfl⟩
    · exact htraced.1
    · exact htraced
  refine ⟨actor, hactor, ?_⟩
  rcases hserves with h | h | ⟨call, hcall, hcreated⟩
  · exact Or.inl h
  · exact Or.inr (Or.inl h)
  · exact Or.inr (Or.inr ⟨call, hcall, mem_own.mpr (hbefore _ hcreated)⟩)

theorem SoleRunner.of_serves (h : Legal (provenance σ ok actors).guard T)
    (hserves : ∀ j actor, actors[j]? = some actor → Serves actor t (own j T) → j = i) :
    SoleRunner T t i := by
  constructor
  · intro j d hmem
    obtain ⟨actor, hactor, hserve⟩ := serves_of_mem h (Or.inl ⟨d, rfl⟩) hmem
    exact hserves j actor hactor hserve
  · intro j ownerLive hmem
    obtain ⟨actor, hactor, hserve⟩ := serves_of_mem h (Or.inr ⟨ownerLive, rfl⟩) hmem
    exact hserves j actor hactor hserve

/-- A thread gets past one verdict. -/
theorem acted_unique (h : Legal (provenance σ ok actors).guard T) {t' : TicketId} {d' : Decision}
    (hmem : (i, .acted t d) ∈ T) (hmem' : (i, .acted t' d') ∈ T) : t = t' ∧ d = d' := by
  rcases h.order hmem hmem' with heq | ⟨before, ⟨actor, -, -, hfirst, -⟩, hbefore⟩ |
    ⟨before, ⟨actor, -, -, hfirst, -⟩, hbefore⟩
  · cases heq
    exact ⟨rfl, rfl⟩
  · exact absurd (mem_own.mpr hbefore) (hfirst t' d')
  · exact absurd (mem_own.mpr hbefore) (hfirst t d)

/-- A claim on the ticket is that of its runner. -/
theorem SoleRunner.claimant (hsole : SoleRunner T t i) (h : Legal (Allowed s) T) {c : Cell}
    (hc : cellOf t T = some c) (hclaimed : c.claimedAt.isSome) : ∃ now, (i, .claimed t now) ∈ T := by
  rw [(sound_of_cell h hc).owner] at hclaimed
  obtain ⟨j, hj⟩ := Option.isSome_iff_exists.mp hclaimed
  obtain ⟨now, hmem⟩ := claimed_of_claimant hj
  have hrunner : j = i := hsole.acted j _ (acted_of_claimant h hj hc).2
  exact ⟨now, hrunner ▸ hmem⟩

/-- The runner's claim does not fail. -/
theorem SoleRunner.claimed (hsole : SoleRunner T t i) (h : ClaimFailed s T i t d) :
    ∃ now, (i, .claimed t now) ∈ T := by
  obtain ⟨pre, trail, ⟨hlegal, ⟨new, rfl⟩, hown⟩, hacted, htaken⟩ := h
  obtain ⟨c, hc, -, -⟩ := cell_of_acted hlegal (mem_own.mp (hown ▸ hacted))
  have hclaimed : c.claimedAt.isSome :=
    (htaken c hc).elim id (sound_of_cell hlegal hc).claimed
  have hearlier : SoleRunner trail t i :=
    ⟨fun j d hm => hsole.acted j d (List.mem_append_right new hm),
      fun j ownerLive hm => hsole.closed j ownerLive (List.mem_append_right new hm)⟩
  obtain ⟨now, hmem⟩ := hearlier.claimant hlegal hc hclaimed
  exact ⟨now, List.mem_append_right new hmem⟩

-- ============================================================================
-- What the runner did
-- ============================================================================

/-- A thread made each of its marks after those that were there before. -/
theorem traced_above (h : Legal (provenance σ ok actors).guard T) (hactor : actors[i]? = some actor)
    {above base : List Mark} (hown : own i T = above ++ base) {m : Mark} (hm : m ∈ above) :
    ∃ before, base ⊆ before ∧ before ⊆ own i T ∧ Traced ok actor m before := by
  obtain ⟨later, between, rfl⟩ := List.append_of_mem hm
  have hsplit : own i T = later ++ m :: (between ++ base) := by
    rw [hown, List.append_assoc, List.cons_append]
  refine ⟨between ++ base, List.subset_append_right between base, fun x hx => ?_,
    traced_of_own h hactor hsplit⟩
  rw [hsplit]
  exact List.mem_append_right later (List.mem_cons_of_mem m hx)

/-- Past a verdict a thread hands on what the verdict lets through. -/
theorem handed_of_acted (h : Legal (Allowed s) T) (h' : Legal (provenance σ ok actors).guard T)
    {c call : ToolCall} {grant : Grant} {note : Option String} {before : List Mark}
    (hconsulted : (i, .consulted c grant) ∈ T) (hacted : .acted t d ∈ before)
    (hbefore : before ⊆ own i T) (hhanded : Handed before call note) :
    d.verdictOn c = .ok (call, note) := by
  have hpast : ∀ {m : Mark}, m ∈ before → (i, m) ∈ T := fun hm => mem_own.mp (hbefore hm)
  cases hhanded with
  | ungated _ grant' hconsulted' hunacted => exact absurd hacted (hunacted t d)
  | gated call₀ _ _ grant' t' d' hconsulted' hacted' hverdict =>
      obtain ⟨-, rfl⟩ := acted_unique h' (hpast hacted) (hpast hacted')
      obtain ⟨rfl, -⟩ := consulted_unique h hconsulted (hpast hconsulted')
      exact hverdict

/-- Whoever executed after a verdict on a ticket executed that ticket. -/
theorem Actor.Ends.executed_acted {reply : Except Exc Reply} {marks : List Mark}
    (h : actor.Ends s reply marks) (hacted : .acted t d ∈ marks) {m : Mark} (hm : m ∈ marks)
    (hkind : m.executing = true) : ∃ r t', reply = actor.tells r ∧ Executed s t' marks r := by
  obtain ⟨r, hreply, ⟨hdirect, -⟩ | ⟨t', hexecuted⟩⟩ := h.executed hm hkind
  · exact absurd hacted (hdirect.unacted t d)
  · exact ⟨r, t', hreply, hexecuted⟩

/-- The marks of the pipeline stand between those of its start and of its end. -/
theorem mem_new_of_inside {base new stored : List Mark} {now : Time} {arguments : Json}
    {r : Except Exc ToolResult} (hpassive : ∀ m ∈ base, m.passive = true)
    (hstored : (stored = [] ∧ ∃ e : Exc, r = .error e ∧ e.foreign = true) ∨
      ∃ outcome, stored = [.completed t outcome] ∧ r = handedOn outcome)
    {m : Mark} (hm : m ∈ stored ++ new ++ .started t arguments :: .claimed t now :: base)
    (hinside : m.inside = true) : m ∈ new := by
  simp only [List.mem_append, List.mem_cons] at hm
  rcases hm with (hm | hm) | rfl | rfl | hm
  · rcases hstored with ⟨rfl, -⟩ | ⟨outcome, rfl, -⟩
    · cases hm
    · rw [List.mem_singleton.mp hm] at hinside
      cases hinside
  · exact hm
  · cases hinside
  · cases hinside
  · have hidle := hpassive m hm
    cases m <;> first | (cases hidle; done) | cases hinside

theorem sentBy_executed {base new stored : List Mark} {now : Time} {arguments : Json}
    {r : Except Exc ToolResult} (hpassive : ∀ m ∈ base, m.passive = true)
    (hstored : (stored = [] ∧ ∃ e : Exc, r = .error e ∧ e.foreign = true) ∨
      ∃ outcome, stored = [.completed t outcome] ∧ r = handedOn outcome) :
    sentBy (stored ++ new ++ .started t arguments :: .claimed t now :: base) = sentBy new := by
  have hbase : sentBy (.started t arguments :: .claimed t now :: base) = [] := by
    show sentBy base = []
    exact sentBy_passive hpassive
  have hout : sentBy stored = [] := by
    rcases hstored with ⟨rfl, -⟩ | ⟨outcome, rfl, -⟩ <;> rfl
  rw [sentBy_append, sentBy_append, hbase, hout, List.nil_append, List.append_nil]

/-- An execution after a verdict is that of the call it lets through. -/
theorem Executed.carries {v : Services} (h : Legal (Allowed s) T)
    (h' : Legal (provenance σ v.Answers actors).guard T) (hactor : actors[i]? = some actor)
    {c : ToolCall} {grant : Grant} {r : Except Exc ToolResult}
    (hconsulted : (i, .consulted c grant) ∈ T) (hacted : (i, .acted t d) ∈ T) {t' : TicketId}
    (hexecuted : Executed s t' (own i T) r) :
    ∃ call note elapsed, d.verdictOn c = .ok (call, note) ∧
      v.execute s call grant.inputSchema note elapsed = (sentBy (own i T), r) := by
  generalize hmarks : own i T = marks at hexecuted
  obtain ⟨base, new, stored, now, c', d', grant', editNote, r, hpassive, hbase, hended, hstored⟩ :=
    hexecuted
  have hmem : ∀ {m : Mark}, m ∈ base → (i, m) ∈ T := fun hm => mem_own.mp (by simp [hmarks, hm])
  obtain ⟨rfl, rfl⟩ := consulted_unique h hconsulted (hmem hbase)
  have hacted' : .acted t d ∈ base := by
    have hin : .acted t d ∈ own i T := mem_own.mpr hacted
    have hnew : Mark.acted t d ∉ new := fun hm => by cases hended.inside _ hm
    have hout : Mark.acted t d ∉ stored := fun hm => by
      rcases hstored with ⟨rfl, -⟩ | ⟨outcome, rfl, -⟩ <;> simp at hm
    simpa [hmarks, hnew, hout] using hin
  -- whatever was made above `base` was made of the call that the verdict lets through
  have hown : own i T = (stored ++ new ++ [.started t' (d'.effective c.arguments),
      .claimed t' now]) ++ base := by
    rw [hmarks, List.append_assoc _ _ base]
    rfl
  have htraced : ∀ {m : Mark}, m ∈ stored ++ new ++ [.started t' (d'.effective c.arguments),
      .claimed t' now] → ∃ before, before ⊆ own i T ∧ Traced v.Answers actor m before ∧
        ∀ call note, Handed before call note → d.verdictOn c = .ok (call, note) := by
    intro m hm
    obtain ⟨before, hbefore, hpast, htraced⟩ := traced_above h' hactor hown hm
    exact ⟨before, hpast, htraced, fun call note hhanded =>
      handed_of_acted h h' hconsulted (hbefore hacted') hpast hhanded⟩
  have hnew : ∀ {m : Mark}, m ∈ own i T → m.inside = true → m ∈ new := fun hm hinside =>
    mem_new_of_inside hpassive hstored (hmarks ▸ hm) hinside
  obtain ⟨before, -, ⟨call, note, hhanded, harguments⟩, hverdict⟩ :=
    htraced (m := .started t' (d'.effective c.arguments)) (by simp)
  have hcall := hverdict call note hhanded
  have heffective : { c with arguments := d'.effective c.arguments } = call := by
    rw [Decision.verdictOn_effective hcall] at harguments ⊢
    rw [harguments]
  rw [heffective] at hended
  have honly : ∀ {call' : ToolCall} {note' : Option String},
      d.verdictOn c = .ok (call', note') → call' = call ∧ note' = note := by
    intro call' note' hother
    rw [hcall] at hother
    cases hother
    exact ⟨rfl, rfl⟩
  have hexecutes : ∃ elapsed, v.execute s call grant.inputSchema note elapsed = (sentBy new, r) := by
    refine hended.executes (fun answer hm => ?_) (fun a hm => ?_) fun x hm => ?_
    · obtain ⟨before, -, ⟨call', note', input, hhanded', ⟨hmaterialize, -⟩, hanswer⟩, hother⟩ :=
        htraced (by simp [hm] : .resolved answer ∈ _)
      obtain ⟨rfl, -⟩ := honly (hother call' note' hhanded')
      rw [hanswer, hmaterialize]
    · obtain ⟨before, hpast, ⟨sent, input, hsent, ⟨-, hupstream⟩, ha⟩, -⟩ :=
        htraced (by simp [hm] : .answered a ∈ _)
      exact ⟨sent, hnew (hpast hsent) rfl, by rw [ha, hupstream]⟩
    · obtain ⟨before, hpast, ⟨call', note', a, elapsed, hhanded', hanswered, hx⟩, hother⟩ :=
        htraced (by simp [hm] : .returned x ∈ _)
      obtain ⟨-, rfl⟩ := honly (hother call' note' hhanded')
      exact ⟨a, elapsed, hnew (hpast hanswered) rfl, hx⟩
  obtain ⟨elapsed, hexecute⟩ := hexecutes
  exact ⟨call, note, elapsed, hcall, by rw [hexecute, sentBy_executed hpassive hstored]⟩

-- ============================================================================
-- What it left on the ticket
-- ============================================================================

theorem Executed.unclosed {t t' : TicketId} {marks : List Mark} {r : Except Exc ToolResult}
    {ownerLive : Bool} (h : Executed s t marks r) : .closed t' ownerLive ∉ marks := by
  obtain ⟨base, new, stored, now, call, d, grant, editNote, r, hpassive, -, hended, hstored⟩ := h
  intro hm
  have hnew : Mark.closed t' ownerLive ∉ new := fun hm => by cases hended.inside _ hm
  have hbase : Mark.closed t' ownerLive ∉ base := fun hm => by cases hpassive _ hm
  simp only [List.mem_append, List.mem_cons, hnew, hbase, reduceCtorEq, or_false] at hm
  rcases hstored with ⟨rfl, -⟩ | ⟨outcome, rfl, -⟩
  · cases hm
  · cases List.mem_singleton.mp hm

theorem keptOf_handedOn (outcome : Except GatewayError ToolResult) :
    keptOf (handedOn outcome) = some (storedResult outcome) := by
  cases outcome <;> rfl

/-- The outcome of the runner's execution is kept on the ticket. -/
theorem Executed.keeps {r : Except Exc ToolResult} (hexecuted : Executed s t (own i T) r)
    (h : Legal (Allowed s) T) (hsole : SoleRunner T t i) {now : Time}
    (hclaimed : (i, .claimed t now) ∈ T) {c : Cell} (hc : cellOf t T = some c) :
    c.result = keptOf r := by
  have hopen : ∀ j ownerLive, (j, .closed t ownerLive) ∉ T := by
    intro j ownerLive hmem
    obtain rfl := hsole.closed j ownerLive hmem
    exact hexecuted.unclosed (mem_own.mpr hmem)
  by_cases hforeign : ∃ e : Exc, r = .error e ∧ e.foreign = true
  swap
  · obtain ⟨outcome, hcompleted⟩ := hexecuted.stored hforeign
    obtain ⟨c', hc', hresult⟩ :=
      result_of_completed h (fun j => hopen j true) (mem_own.mp hcompleted)
    rw [hc] at hc'
    cases hc'
    rw [hresult, hexecuted.completed hcompleted, keptOf_handedOn]
  obtain ⟨e, rfl, he⟩ := hforeign
  have hnone : keptOf (.error e) = none := by
    cases e with
    | gateway e => cases he
    | _ => rfl
  rw [hnone]
  cases hresult : c.result with
  | none => rfl
  | some x =>
      rcases result_origin h hc hresult with ⟨j, outcome, hmem, -⟩ | ⟨-, j, ownerLive, hmem⟩
      · have howner := claimant_of_completed h hmem
        rw [claimant_of_claimed h hclaimed] at howner
        cases howner
        have hkept := keptOf_handedOn outcome
        rw [← hexecuted.completed (mem_own.mpr hmem), hnone] at hkept
        cases hkept
      · exact absurd hmem (hopen j ownerLive)

/-- Whoever runs a ticket alone, and got past the verdict on it, carried that out. -/
theorem carried_out {v : Services} (h : Legal (Allowed s) T)
    (h' : Legal (provenance σ v.Answers actors).guard T) (hsole : SoleRunner T t i)
    (hactor : actors[i]? = some actor) (hacted : (i, .acted t d) ∈ T) {reply : Except Exc Reply}
    (hends : actor.Ends s reply (own i T)) {r : Except Exc ToolResult} (hreply : reply = actor.tells r)
    (hdecisive : Decisive s T i (own i T) r) :
    ∃ c grant r elapsed, cellOf t T = some c ∧ c.decision = d ∧ (i, .consulted c.call grant) ∈ T ∧
      reply = actor.tells r ∧
      v.carryOut s c.call grant d elapsed = ⟨sentBy (own i T), r, c.result⟩ := by
  obtain ⟨c, hc, hdecision, -⟩ := cell_of_acted h hacted
  obtain ⟨grant, hconsulted⟩ := consulted_of_acted h hacted hc
  obtain ⟨call₀, grant₀, hconsulted₀, hstops, hclaims⟩ := hdecisive t d (mem_own.mpr hacted)
  obtain ⟨rfl, rfl⟩ := consulted_unique h (mem_own.mp hconsulted₀) hconsulted
  have hexecuted : ∀ {m : Mark}, m ∈ own i T → m.executing = true →
      ∃ r t', reply = actor.tells r ∧ Executed s t' (own i T) r ∧ ∃ call note elapsed,
        d.verdictOn c.call = .ok (call, note) ∧
        v.execute s call grant₀.inputSchema note elapsed = (sentBy (own i T), r) := by
    intro m hm hkind
    obtain ⟨r, t', hr, hexecuted⟩ := hends.executed_acted (mem_own.mpr hacted) hm hkind
    exact ⟨r, t', hr, hexecuted, hexecuted.carries h h' hactor hconsulted hacted⟩
  cases hverdict : d.verdictOn c.call with
  | error e =>
      have hidle : ∀ m ∈ own i T, m.executing = false := by
        intro m hm
        by_contra hkind
        obtain ⟨-, -, -, -, call, note, -, hother, -⟩ :=
          hexecuted hm (by simpa using hkind)
        rw [hverdict] at hother
        cases hother
      have hsent : sentBy (own i T) = [] := by
        refine List.filterMap_eq_nil_iff.mpr fun m hm => ?_
        have hkind := hidle m hm
        cases m with
        | dispatched call => cases hkind
        | _ => rfl
      have hresult : c.result = none := by
        cases hr : c.result with
        | none => rfl
        | some x =>
            obtain ⟨now, hclaimed⟩ :=
              hsole.claimant h hc ((sound_of_cell h hc).claimed (by rw [hr]; rfl))
            cases hidle _ (mem_own.mpr hclaimed)
      refine ⟨c, grant₀, .error e, 0, hc, hdecision, hconsulted, ?_, ?_⟩
      · rw [hreply, hstops e hverdict]
      · rw [Services.carryOut, hverdict, hsent, hresult]
  | ok handed =>
      have hclaimed : ∃ now, (i, .claimed t now) ∈ T :=
        (hclaims handed hverdict).elim (fun ⟨now, hm⟩ => ⟨now, mem_own.mp hm⟩) hsole.claimed
      obtain ⟨now, hclaimed⟩ := hclaimed
      obtain ⟨r, t', hr, hexecuted, call, note, elapsed, hother, hexecute⟩ :=
        hexecuted (mem_own.mpr hclaimed) rfl
      obtain rfl := hexecuted.claimed (mem_own.mpr hclaimed)
      rw [hverdict] at hother
      cases hother
      refine ⟨c, grant₀, r, elapsed, hc, hdecision, hconsulted, hr, ?_⟩
      rw [Services.carryOut, hverdict]
      dsimp only
      rw [hexecute, hexecuted.keeps h hsole hclaimed hc]

end

end ToolGateway
