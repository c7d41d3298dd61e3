/-
  ToolGateway.Gateway.Arrangement

  Every assembly keeps the built-in steps in their order.  The steps of a stage are
  sorted stably, the built-in ones first among equals; so whatever an application adds,
  an execution that gets to the upstream has entered the built-in steps in their order,
  and what the upstream answers passes the redactor before anyone placed before it is
  told.
-/

import ToolGateway.Gateway.Visits

namespace ToolGateway

open Coroutine Py

-- ============================================================================
-- Codes
-- ============================================================================

namespace Code

section
variable {σ α : Type} {budget : ℕ}

theorem calls_onward {f : α → Code σ} (h : ∀ a, (f a).Calls budget) (r : Except Exc α) :
    (onward f r).Calls budget := by
  cases r with
  | ok a => exact h a
  | error e => trivial

theorem calls_await {m : StepM σ α} {f : α → Code σ} (h : ∀ a, (f a).Calls budget) :
    (await m f).Calls budget :=
  calls_onward h

theorem calls_next_onward {f : ToolResult → Code σ} (h : ∀ r, (f r).Calls 0) :
    (next (onward f)).Calls 1 :=
  ⟨by decide, calls_onward h⟩

theorem calls_callNext : (callNext : Code σ).Calls 1 :=
  calls_next_onward fun _ => trivial

theorem calls_recorded (event : String) (exc : Exc) :
    (recorded event exc : Code σ).Calls budget := by
  cases exc with
  | gateway e => exact calls_await fun _ => trivial
  | _ => trivial

/-- The audit wrapper does not call `call_next`. -/
theorem Calls.audited {code : Code σ} (h : code.Calls budget) (event : String) :
    (code.audited event).Calls budget := by
  induction code generalizing budget with
  | ret r => trivial
  | raise e => exact calls_recorded event e
  | own m k ih => exact fun r => ih r (h r)
  | next k ih => exact ⟨h.1, fun r => ih r (h.2 r)⟩

-- Each built-in step calls it at most once.

theorem calls_rateLimit : (rateLimit : Code σ).Calls 1 := by
  refine calls_await fun ctx => calls_await fun admitted => ?_
  cases admitted with
  | true => exact calls_callNext
  | false => trivial

theorem calls_authorize : (authorize : Code σ).Calls 1 := by
  refine calls_await fun ctx => calls_await fun answer => calls_await fun granted => ?_
  cases granted with
  | none => trivial
  | some grant => exact calls_await fun _ => calls_await fun _ => calls_callNext

theorem calls_validateSchema (checkArgs : Json → Json → Except PyError (List String)) :
    (validateSchema checkArgs : Code σ).Calls 1 := by
  refine calls_await fun ctx => calls_await fun errors => ?_
  split
  · exact calls_await fun _ => calls_callNext
  · trivial

theorem calls_materializeSecrets : (materializeSecrets : Code σ).Calls 1 := by
  refine calls_await fun ctx => calls_await fun answer => ?_
  cases answer with
  | error e => trivial
  | ok resolved =>
      refine calls_await fun _ => ?_
      split
      · exact calls_await fun _ => calls_await fun _ => calls_callNext
      · exact calls_callNext

theorem calls_redact (check : ToolResult → String → Except Exc ToolResult) :
    (redact check : Code σ).Calls 1 := by
  refine calls_next_onward fun result => calls_await fun ctx => ?_
  split
  · trivial
  · exact calls_await fun _ => trivial
  · trivial

theorem calls_dispatch : (dispatch : Code σ).Calls 1 := by
  refine calls_await fun ctx => calls_await fun started => calls_await fun x => ?_
  split
  · exact calls_await fun _ => trivial
  · exact calls_await fun _ => calls_await fun _ => trivial

theorem calls_runOnce [TicketStore σ] (t : TicketId) (lease : Time) :
    (runOnce t lease : Code σ).Calls 1 := by
  refine calls_await fun won => ?_
  split
  · refine calls_await fun ctx => calls_await fun _ => ⟨by decide, fun r => ?_⟩
    cases r with
    | ok result => exact calls_await fun _ => calls_await fun _ => trivial
    | error exc =>
        exact calls_await fun _ => calls_await fun _ => calls_await fun _ => trivial
  · exact calls_await fun _ => trivial

theorem calls_enforce [TicketStore σ] (t : TicketId) (d : Decision) (lease : Time) :
    (enforce t d lease : Code σ).Calls 1 :=
  calls_await fun _ => calls_await fun _ => calls_await fun _ => calls_runOnce t lease

theorem calls_approvalGate [TicketStore σ] (s : GateSettings) :
    (approvalGate s : Code σ).Calls 1 := by
  have hrun : ∀ t ctx mode, (decideAndRun s t ctx mode : Code σ).Calls 1 := by
    intro t ctx mode
    unfold decideAndRun
    split
    · trivial
    · exact calls_await fun _ => calls_await fun _ => calls_await fun _ => calls_await fun _ =>
        calls_await fun _ => calls_await fun _ => calls_runOnce t s.lease
  refine calls_await fun ctx => ?_
  dsimp only
  split
  · exact calls_callNext
  · refine calls_await fun answer => calls_await fun t => calls_await fun _ => ?_
    split
    · refine calls_await fun failure => ?_
      cases failure with
      | none => exact hrun t ctx _
      | some error => exact calls_await fun _ => hrun t ctx _
    · exact hrun t ctx _

/-- What leaves the redactor as a result is what `redact` returned. -/
theorem redact_returns (check : ToolResult → String → Except Exc ToolResult) :
    (redact check : Code σ).Returns fun r => ∃ x upstreamId, check x upstreamId = .ok r := by
  intro r
  cases r with
  | error e => trivial
  | ok result =>
      intro answer
      cases answer with
      | error e => trivial
      | ok ctx =>
          simp only [onward]
          split
          · rename_i r hr
            exact ⟨result, ctx.call.upstreamId, hr⟩
          · intro audited
            cases audited <;> trivial
          · trivial

end

end Code

-- ============================================================================
-- The order of a stage
-- ============================================================================

section
variable {σ : Type}

/-- The steps of a stage are ordered by `order`. -/
theorem ofStage_ordered (stage : Stage) (steps : List (Step σ)) :
    (ofStage stage steps).Pairwise fun a b => a.order ≤ b.order :=
  List.pairwise_insertionSort (fun a b : Step σ => a.order ≤ b.order) _

/-- A built-in step comes before an extra step of no lower order. -/
theorem builtin_first (s : Settings) (steps : List (ExtraStep σ)) {stage : Stage} {a b : Step σ}
    (ha : a ∈ builtin s) (hb : b ∈ steps.map ExtraStep.audited) (hstage : a.stage = some stage)
    (hstage' : b.stage = some stage) (horder : a.order ≤ b.order) :
    [a, b].Sublist (ofStage stage (chain s steps)) := by
  refine List.pair_sublist_insertionSort (r := fun a b : Step σ => a.order ≤ b.order) horder ?_
  have hpair : ([a] ++ [b]).Sublist (chain s steps) :=
    (List.singleton_sublist.mpr ha).append (List.singleton_sublist.mpr hb)
  have hkept := hpair.filter fun step => step.stage = some stage
  simpa [hstage, hstage'] using hkept

-- Tags ---------------------------------------------------------------------------

theorem tag_extraPlaced {n : ℕ} {scripts : List (Script σ)} {p : Placed σ}
    (hp : p ∈ extraPlaced n scripts) : ∃ m, n ≤ m ∧ p.tag = .extra m := by
  induction scripts generalizing n with
  | nil => simp [extraPlaced] at hp
  | cons script scripts ih =>
      rw [extraPlaced, List.mem_cons] at hp
      rcases hp with rfl | hp
      · exact ⟨n, le_rfl, rfl⟩
      · obtain ⟨m, hm, htag⟩ := ih hp
        exact ⟨m, by omega, htag⟩

theorem nodup_extraPlaced (n : ℕ) (scripts : List (Script σ)) :
    ((extraPlaced n scripts).map Placed.tag).Nodup := by
  induction scripts generalizing n with
  | nil => exact List.nodup_nil
  | cons script scripts ih =>
      rw [extraPlaced, List.map_cons, List.nodup_cons]
      refine ⟨fun hmem => ?_, ih (n + 1)⟩
      obtain ⟨p, hp, htag⟩ := List.mem_map.mp hmem
      obtain ⟨m, hm, htag'⟩ := tag_extraPlaced hp
      have heq : m = n := by simpa using htag'.symm.trans htag
      omega

/-- The tags of the built-in steps. -/
theorem tags_builtinPlaced (s : Settings) :
    ((builtinPlaced s : List (Placed σ)).map Placed.tag)
      = [.authorize, .validate, .materialize, .redact] ++ if s.limited then [.rateLimit] else [] := by
  unfold builtinPlaced
  cases s.limited <;> rfl

theorem nodup_placed (s : Settings) (scripts : List (Script σ)) :
    ((placed s scripts).map Placed.tag).Nodup := by
  rw [placed, List.map_append, List.nodup_append, tags_builtinPlaced]
  refine ⟨?_, nodup_extraPlaced 0 scripts, fun a ha b hb hab => ?_⟩
  · cases s.limited <;> decide
  · obtain ⟨p, hp, rfl⟩ := List.mem_map.mp hb
    obtain ⟨m, -, htag⟩ := tag_extraPlaced hp
    rw [hab, htag] at ha
    revert ha
    cases s.limited <;> simp

/-- Neither the gate nor the dispatch is one of them. -/
theorem tag_placed {s : Settings} {scripts : List (Script σ)} {tag : Tag}
    (htag : tag ∈ (placed s scripts).map Placed.tag) :
    tag ≠ .gate ∧ tag ≠ .dispatch ∧ tag ≠ .enforce := by
  rw [placed, List.map_append, tags_builtinPlaced, List.mem_append] at htag
  rcases htag with hbuiltin | hextra
  · cases hlimited : s.limited <;>
      (simp only [hlimited] at hbuiltin; revert tag; decide)
  · obtain ⟨p, hp, rfl⟩ := List.mem_map.mp hextra
    obtain ⟨m, -, heq⟩ := tag_extraPlaced hp
    rw [heq]
    simp

/-- The tags of one stage. -/
def tagsOf (stage : Stage) (s : Settings) (scripts : List (Script σ)) : List Tag :=
  (arranged stage (placed s scripts)).map Placed.tag

theorem mem_arranged {stage : Stage} {ps : List (Placed σ)} {p : Placed σ} :
    p ∈ arranged stage ps ↔ p ∈ ps ∧ p.stage = some stage := by
  rw [arranged, List.mem_insertionSort, List.mem_filter, decide_eq_true_eq]

theorem tagsOf_subset {stage : Stage} {s : Settings} {scripts : List (Script σ)} {tag : Tag}
    (htag : tag ∈ tagsOf stage s scripts) : tag ∈ (placed s scripts).map Placed.tag := by
  obtain ⟨p, hp, rfl⟩ := List.mem_map.mp htag
  exact List.mem_map.mpr ⟨p, (mem_arranged.mp hp).1, rfl⟩

theorem nodup_tagsOf (stage : Stage) (s : Settings) (scripts : List (Script σ)) :
    (tagsOf stage s scripts).Nodup := by
  have hperm := (List.perm_insertionSort (fun p q : Placed σ => p.order ≤ q.order)
    ((placed s scripts).filter fun p => p.stage = some stage)).map Placed.tag
  refine hperm.nodup_iff.mpr ?_
  exact (nodup_placed s scripts).sublist (List.filter_sublist.map Placed.tag)

/-- No step is in both stages. -/
theorem tagsOf_disjoint {s : Settings} {scripts : List (Script σ)} {tag : Tag}
    (hbefore : tag ∈ tagsOf .beforeApproval s scripts)
    (hafter : tag ∈ tagsOf .afterApproval s scripts) : False := by
  obtain ⟨p, hp, rfl⟩ := List.mem_map.mp hbefore
  obtain ⟨q, hq, htag⟩ := List.mem_map.mp hafter
  obtain ⟨hp, hstage⟩ := mem_arranged.mp hp
  obtain ⟨hq, hstage'⟩ := mem_arranged.mp hq
  have heq : q = p := List.inj_on_of_nodup_map (nodup_placed s scripts) hq hp htag
  rw [heq, hstage] at hstage'
  cases hstage'

theorem tags_postPlan (s : Settings) (scripts : List (Script σ)) :
    (postPlan s scripts).map Placed.tag = tagsOf .afterApproval s scripts ++ [.dispatch] := by
  rw [postPlan, List.map_append]
  rfl

theorem nodup_postPlan (s : Settings) (scripts : List (Script σ)) :
    ((postPlan s scripts).map Placed.tag).Nodup := by
  rw [tags_postPlan, List.nodup_append]
  refine ⟨nodup_tagsOf .afterApproval s scripts, List.nodup_singleton _, fun a ha b hb hab => ?_⟩
  rw [hab, List.mem_singleton.mp hb] at ha
  exact (tag_placed (tagsOf_subset ha)).2.1 rfl

/-- The built-in steps after the gate keep their order, whatever stands between them. -/
theorem builtin_sublist_after (s : Settings) (scripts : List (Script σ)) :
    [Tag.validate, .materialize, .redact, .dispatch].Sublist ((postPlan s scripts).map Placed.tag) := by
  have hafter : (((alwaysPlaced s : List (Placed σ)).filter fun p => p.stage = some .afterApproval)).Sublist
      ((placed s scripts).filter fun p => p.stage = some .afterApproval) := by
    refine List.Sublist.filter _ ?_
    rw [placed, builtinPlaced, List.append_assoc]
    exact List.sublist_append_left ..
  have hsorted : ((alwaysPlaced s : List (Placed σ)).filter fun p =>
      p.stage = some .afterApproval).Pairwise fun p q => p.order ≤ q.order := by
    simp [alwaysPlaced]
  have hkept := (List.sublist_insertionSort (r := fun p q : Placed σ => p.order ≤ q.order)
    hsorted hafter).map Placed.tag
  rw [tags_postPlan]
  exact hkept.append (List.Sublist.refl [Tag.dispatch])

variable [TicketStore σ]

theorem tags_fullPlan (s : Settings) (scripts : List (Script σ)) :
    (fullPlan s scripts).map Placed.tag
      = tagsOf .beforeApproval s scripts ++ .gate :: (postPlan s scripts).map Placed.tag := by
  rw [fullPlan, List.map_append]
  rfl

theorem nodup_fullPlan (s : Settings) (scripts : List (Script σ)) :
    ((fullPlan s scripts).map Placed.tag).Nodup := by
  have hgate : ∀ stage, .gate ∉ tagsOf stage s scripts := fun stage hmem =>
    (tag_placed (tagsOf_subset hmem)).1 rfl
  rw [tags_fullPlan, tags_postPlan, List.nodup_append, List.nodup_cons]
  refine ⟨nodup_tagsOf .beforeApproval s scripts, ⟨?_, tags_postPlan s scripts ▸ nodup_postPlan s scripts⟩,
    fun a ha b hb hab => ?_⟩
  · rw [List.mem_append, List.mem_singleton, not_or]
    exact ⟨hgate .afterApproval, by decide⟩
  · subst hab
    rw [List.mem_cons, List.mem_append, List.mem_singleton] at hb
    rcases hb with rfl | hb | rfl
    · exact hgate .beforeApproval ha
    · exact tagsOf_disjoint ha hb
    · exact (tag_placed (tagsOf_subset ha)).2.1 rfl

/-- And so do all of them. -/
theorem builtin_sublist (s : Settings) (scripts : List (Script σ)) :
    [Tag.authorize, .gate, .validate, .materialize, .redact, .dispatch].Sublist
      ((fullPlan s scripts).map Placed.tag) := by
  have hauthorize : Tag.authorize ∈ tagsOf .beforeApproval s scripts := by
    refine List.mem_map.mpr ⟨{ tag := .authorize, stage := some .beforeApproval, order := 100
                               code := Code.authorize.audited "authorize" }, ?_, rfl⟩
    exact mem_arranged.mpr ⟨by simp [placed, builtinPlaced, alwaysPlaced], rfl⟩
  rw [tags_fullPlan]
  exact (List.singleton_sublist.mpr hauthorize).append ((builtin_sublist_after s scripts).cons_cons .gate)

-- ============================================================================
-- Every execution
-- ============================================================================

omit [TicketStore σ] in
/-- No built-in step calls `call_next` twice, nor does an extra step that its author
    wrote so. -/
theorem calls_placed (s : Settings) {scripts : List (Script σ)}
    (honce : ∀ script ∈ scripts, script.code.Calls 1) :
    ∀ p ∈ placed s scripts, p.code.Calls 1 := by
  have hextra : ∀ n, ∀ p ∈ extraPlaced n scripts, p.code.Calls 1 := by
    intro n p hp
    induction scripts generalizing n with
    | nil => simp [extraPlaced] at hp
    | cons script scripts ih =>
        rw [extraPlaced, List.mem_cons] at hp
        rcases hp with rfl | hp
        · exact (honce script (List.mem_cons_self ..)).audited _
        · exact ih (fun q hq => honce q (List.mem_cons_of_mem script hq)) (n + 1) hp
  intro p hp
  rw [placed, builtinPlaced, alwaysPlaced, List.mem_append, List.mem_append] at hp
  rcases hp with (hp | hp) | hp
  · simp only [List.mem_cons, List.not_mem_nil, or_false] at hp
    rcases hp with rfl | rfl | rfl | rfl
    · exact Code.calls_authorize.audited _
    · exact (Code.calls_validateSchema _).audited _
    · exact Code.calls_materializeSecrets.audited _
    · exact Code.calls_redact _
  · split at hp
    · rw [List.mem_singleton.mp hp]
      exact Code.calls_rateLimit.audited _
    · simp at hp
  · exact hextra 0 p hp

omit [TicketStore σ] in
/-- The redactor of the chain is the built-in one. -/
theorem code_of_redact {s : Settings} {scripts : List (Script σ)} {p : Placed σ}
    (hp : p ∈ placed s scripts) (htag : p.tag = .redact) : p.code = Code.redact s.redact := by
  have hmem : ({ tag := .redact, stage := some .afterApproval, order := 300
                 code := Code.redact s.redact } : Placed σ) ∈ placed s scripts := by
    simp [placed, builtinPlaced, alwaysPlaced]
  rw [List.inj_on_of_nodup_map (nodup_placed s scripts) hp hmem htag]

/-- The steps placed before the redactor. -/
def front (plan : List (Placed σ)) (tag : Tag) : Prop :=
  tag ∈ (plan.map Placed.tag).takeWhile (· ≠ .redact)

/-- The order of the built-in steps in every execution of a chain. -/
structure InOrder (s : Settings) (scripts : List (Script σ)) (plan : List (Placed σ))
    (builtins : List Tag) : Prop where
  /-- an execution that gets to the dispatch has entered the steps of the chain in their
      order, once each, the built-in ones among them -/
  once : (∀ script ∈ scripts, script.code.Calls 1) → ∀ ctx ds log out, Runs plan ctx ds log out →
    .entered .dispatch ∈ log →
      entries log = plan.map Placed.tag ∧ builtins.Sublist (entries log) ∧ (entries log).Nodup
  /-- no step placed before the redactor is told anything between the answer of the
      upstream and the end of the redactor -/
  shielded : ∀ ctx ds log out, Runs plan ctx ds log out → Shielded (front plan) false log
  /-- what leaves the redactor as a result is what `redact` returned -/
  redacted : ∀ ctx ds log out, Runs plan ctx ds log out → ∀ r, .left .redact (.ok r) ∈ log →
    ∃ x upstreamId, s.redact x upstreamId = .ok r

omit [TicketStore σ] in
theorem inOrder {s : Settings} {scripts : List (Script σ)} {body : List (Placed σ)}
    {builtins : List Tag} (hnodup : ((body ++ [dispatchPlaced]).map Placed.tag).Nodup)
    (hbuiltins : builtins.Sublist ((body ++ [dispatchPlaced]).map Placed.tag))
    (honce : (∀ script ∈ scripts, script.code.Calls 1) → ∀ p ∈ body, p.code.Calls 1)
    {red : Placed σ} (hred : red ∈ body) (htag : red.tag = .redact)
    (hcode : ∀ p ∈ body, p.tag = .redact → p.code = Code.redact s.redact) :
    InOrder s scripts (body ++ [dispatchPlaced]) builtins := by
  have hlast : Tag.dispatch ∉ body.map Placed.tag := by
    rw [List.map_append, List.nodup_append] at hnodup
    exact fun hmem => hnodup.2.2 _ hmem _ (List.mem_singleton.mpr rfl) rfl
  refine ⟨fun hscripts ctx ds log out hruns hreached => ?_, fun ctx ds log out hruns => ?_,
    fun ctx ds log out hruns => hruns.returns fun p hp hptag => ?_⟩
  · have hcalls : ∀ p ∈ body ++ [dispatchPlaced], p.code.Calls 1 := by
      intro p hp
      rcases List.mem_append.mp hp with hp | hp
      · exact honce hscripts p hp
      · rw [List.mem_singleton.mp hp]
        exact Code.calls_dispatch
    have hentries : entries log = (body ++ [dispatchPlaced]).map Placed.tag :=
      Runs.entries_eq hcalls hlast hruns hreached
    rw [hentries]
    exact ⟨rfl, hbuiltins, hnodup⟩
  · obtain ⟨pre, post, rfl⟩ := List.append_of_mem hred
    have hplan : pre ++ red :: post ++ [dispatchPlaced] = pre ++ red :: (post ++ [dispatchPlaced]) :=
      List.append_assoc ..
    rw [hplan] at hnodup hruns ⊢
    rw [List.map_append, List.nodup_append] at hnodup
    have hbefore : ∀ p ∈ pre, p.tag ≠ .redact := by
      intro p hp heq
      exact hnodup.2.2 _ (List.mem_map.mpr ⟨p, hp, rfl⟩) _
        (List.mem_map.mpr ⟨red, List.mem_cons_self .., rfl⟩) (heq.trans htag.symm)
    have hfront : ∀ tag, front (pre ++ red :: (post ++ [dispatchPlaced])) tag →
        tag ∈ pre.map Placed.tag := by
      intro tag hmem
      rw [front, List.map_append, List.map_cons, htag, List.takeWhile_append_of_pos,
        List.takeWhile_cons_of_neg (by simp), List.append_nil] at hmem
      · exact hmem
      · intro t ht
        obtain ⟨p, hp, rfl⟩ := List.mem_map.mp ht
        simpa using hbefore p hp
    refine (Runs.settles htag (fun p hp hin => ?_) (fun p hp => ⟨fun heq => ?_, hbefore p hp⟩)
      hruns).1
    · exact hnodup.2.2 _ (hfront _ hin) _ (List.mem_map.mpr ⟨p, hp, rfl⟩) rfl
    · exact hlast (List.mem_map.mpr ⟨p, List.mem_append_left _ hp, heq⟩)
  · rcases List.mem_append.mp hp with hp | hp
    · rw [hcode p hp hptag]
      exact Code.redact_returns s.redact
    · rw [List.mem_singleton.mp hp] at hptag
      cases hptag

-- The two chains -----------------------------------------------------------------

omit [TicketStore σ] in
theorem redact_mem_after (s : Settings) (scripts : List (Script σ)) :
    ∃ red ∈ arranged .afterApproval (placed s scripts), red.tag = Tag.redact := by
  refine ⟨{ tag := .redact, stage := some .afterApproval, order := 300
            code := Code.redact s.redact }, mem_arranged.mpr ⟨?_, rfl⟩, rfl⟩
  simp [placed, builtinPlaced, alwaysPlaced]

theorem fullPlan_inOrder (s : Settings) (scripts : List (Script σ)) :
    InOrder s scripts (fullPlan s scripts)
      [.authorize, .gate, .validate, .materialize, .redact, .dispatch] := by
  obtain ⟨red, hred, htag⟩ := redact_mem_after s scripts
  have hplan : fullPlan s scripts = (arranged .beforeApproval (placed s scripts) ++ gatePlaced s ::
      arranged .afterApproval (placed s scripts)) ++ [dispatchPlaced] := by
    rw [fullPlan, postPlan, List.append_assoc, List.cons_append]
  have hnodup := nodup_fullPlan s scripts
  have hbuiltins := builtin_sublist s scripts
  rw [hplan] at hnodup hbuiltins ⊢
  refine inOrder hnodup hbuiltins (fun honce p hp => ?_) (List.mem_append_right _
    (List.mem_cons_of_mem _ hred)) htag fun p hp hptag => ?_
  · rcases List.mem_append.mp hp with hp | hp
    · exact calls_placed s honce p (mem_arranged.mp hp).1
    · rcases List.mem_cons.mp hp with rfl | hp
      · exact (Code.calls_approvalGate s.gate).audited _
      · exact calls_placed s honce p (mem_arranged.mp hp).1
  · rcases List.mem_append.mp hp with hp | hp
    · exact code_of_redact (mem_arranged.mp hp).1 hptag
    · rcases List.mem_cons.mp hp with rfl | hp
      · cases hptag
      · exact code_of_redact (mem_arranged.mp hp).1 hptag

/-- `resume` on a ticket with this verdict, once the policy has granted the call. -/
def resumePlan (t : TicketId) (d : Decision) (s : Settings) (scripts : List (Script σ)) :
    List (Placed σ) :=
  { tag := .enforce, code := Code.enforce t d s.gate.lease } :: postPlan s scripts

theorem resumePlan_inOrder (t : TicketId) (d : Decision) (s : Settings)
    (scripts : List (Script σ)) :
    InOrder s scripts (resumePlan t d s scripts)
      [.enforce, .validate, .materialize, .redact, .dispatch] := by
  obtain ⟨red, hred, htag⟩ := redact_mem_after s scripts
  have hnodup : ((resumePlan t d s scripts).map Placed.tag).Nodup := by
    rw [resumePlan, List.map_cons, List.nodup_cons]
    refine ⟨fun hmem => ?_, nodup_postPlan s scripts⟩
    rw [tags_postPlan, List.mem_append, List.mem_singleton] at hmem
    rcases hmem with hmem | heq
    · exact (tag_placed (tagsOf_subset hmem)).2.2 rfl
    · cases heq
  have hbuiltins : [Tag.enforce, .validate, .materialize, .redact, .dispatch].Sublist
      ((resumePlan t d s scripts).map Placed.tag) :=
    (builtin_sublist_after s scripts).cons_cons .enforce
  show InOrder s scripts (({ tag := .enforce, code := Code.enforce t d s.gate.lease } ::
    arranged .afterApproval (placed s scripts)) ++ [dispatchPlaced]) _
  refine inOrder hnodup hbuiltins (fun honce p hp => ?_)
    (List.mem_cons_of_mem _ hred) htag fun p hp hptag => ?_
  · rcases List.mem_cons.mp hp with rfl | hp
    · exact Code.calls_enforce t d s.gate.lease
    · exact calls_placed s honce p (mem_arranged.mp hp).1
  · rcases List.mem_cons.mp hp with rfl | hp
    · cases hptag
    · exact code_of_redact (mem_arranged.mp hp).1 hptag

-- The entry points ----------------------------------------------------------------

/-- What `call` does is a run of its chain. -/
theorem call_runs (s : Settings) (scripts : List (Script σ)) {toolCall : ToolCall}
    {canBlock : Bool} {ds : List (Doing Input (World σ))}
    {c : Co Input (World σ) (Except Exc Reply × Unit)}
    (h : ((call s (scripts.map Script.extra) toolCall canBlock).exec ()).Path ds c) :
    ∃ log out, Runs (fullPlan s scripts) { call := toolCall, canBlock := canBlock } ds log out := by
  -- what `call` makes of the outcome takes no step
  have hwithin := h
  rw [call, GatewayM.within, Prog.exec_lift_bind] at hwithin
  obtain ⟨c₁, hcaught⟩ := Co.path_bind_quiet (fun x => by
    obtain ⟨r, ctx⟩ := x
    cases r <;> exact ⟨_, rfl⟩) hwithin
  rw [Prog.tryCatch_eq_attempt, Prog.exec_attempt] at hcaught
  obtain ⟨c₂, hresult⟩ := Co.path_bind_quiet (fun x => by
    obtain ⟨r, ctx⟩ := x
    cases r with
    | ok reply => exact ⟨_, rfl⟩
    | error e =>
        cases e with
        | gateway e => cases e <;> exact ⟨_, rfl⟩
        | _ => exact ⟨_, rfl⟩) hcaught
  rw [Prog.bind_eq_attempt, Prog.exec_attempt] at hresult
  obtain ⟨c₃, hrun⟩ := Co.path_bind_quiet (fun x => by
    obtain ⟨r, ctx⟩ := x
    cases r <;> exact ⟨_, rfl⟩) hresult
  rw [← fullPlan_step] at hrun
  obtain ⟨log, hlog⟩ := runs_of_path hrun
  exact ⟨log, _, hlog⟩

/-- What `resume` does, once it has read the ticket and asked the policy, is a run of its
    chain. -/
theorem resume_runs (s : Settings) (scripts : List (Script σ)) {t : TicketId}
    {ds : List (Doing Input (World σ))} {c : Co Input (World σ) (Except Exc ToolResult × Unit)}
    (h : ((resume s (scripts.map Script.extra) t).exec ()).Path ds c) :
    ds.length ≤ 2 ∨ ∃ (ticket : Ticket) (grant : Grant) (ds₀ ds₁ : List (Doing Input (World σ)))
      (log : List Visit) (out : Outcome), ds = ds₀ ++ ds₁ ∧ ds₀.length = 2 ∧
        Runs (resumePlan t ticket.decision s scripts) { call := ticket.call, grant := grant }
          ds₁ log out := by
  rw [resume, Prog.exec_lift_bind] at h
  obtain ⟨c₁, hread, -, -⟩ | ⟨ds₁, found, ds₂, rfl, hread, h⟩ := Co.path_bind h
  · have hone := Co.path_atomic hread
    exact Or.inl (by omega)
  have hone := Co.takes_atomic hread
  -- it ends here, with nothing more done
  have hshort : ∀ {r}, (Co.ret r : Co Input (World σ) (Except Exc ToolResult × Unit)).Path ds₂ c →
      (ds₁ ++ ds₂).length ≤ 2 := by
    intro r hret
    obtain ⟨rfl, -⟩ := Co.path_ret hret
    rw [List.append_nil]
    omega
  cases found with
  | none => exact Or.inl (hshort h)
  | some ticket =>
      cases hresult : ticket.result with
      | some result =>
          simp only [hresult] at h
          exact Or.inl (hshort h)
      | none =>
          by_cases hpending : ticket.decision.status = .pending
          · simp only [hresult, if_pos hpending] at h
            exact Or.inl (hshort h)
          simp only [hresult, if_neg hpending] at h
          rw [Prog.exec_lift_bind] at h
          obtain ⟨c₁, hasked, -, -⟩ | ⟨ds₃, answer, ds₄, rfl, hasked, h⟩ := Co.path_bind h
          · have hone' := Co.path_atomic hasked
            left
            rw [List.length_append]
            omega
          have hone' := Co.takes_atomic hasked
          have hshort' : ∀ {r},
              (Co.ret r : Co Input (World σ) (Except Exc ToolResult × Unit)).Path ds₄ c →
                (ds₁ ++ (ds₃ ++ ds₄)).length ≤ 2 := by
            intro r hret
            obtain ⟨rfl, -⟩ := Co.path_ret hret
            rw [List.append_nil, List.length_append]
            omega
          cases answer with
          | error e => exact Or.inl (hshort' h)
          | ok granted =>
              cases granted with
              | none => exact Or.inl (hshort' h)
              | some grant =>
                  right
                  obtain ⟨c₁, hrun⟩ := Co.path_bind_quiet (fun x => by
                    obtain ⟨r, ctx⟩ := x
                    cases r <;> exact ⟨_, rfl⟩) ((Prog.exec_lift_bind _ _ _) ▸ h)
                  rw [← postPlan_step, ← Code.handle_enforce] at hrun
                  have hplan : ((Pipeline.run ((resumePlan t ticket.decision s scripts).map
                      Placed.step)).exec { call := ticket.call, grant := grant }).Path ds₄ c₁ := hrun
                  obtain ⟨log, hlog⟩ := runs_of_path hplan
                  refine ⟨ticket, grant, ds₁ ++ ds₃, ds₄, log, _, ?_, ?_, hlog⟩
                  · rw [List.append_assoc]
                  · rw [List.length_append]
                    omega

-- ============================================================================
-- Every assembly
-- ============================================================================

/-- The built-in steps of a gateway with these extra steps keep their order. -/
structure KeepsOrder (s : Settings) (scripts : List (Script σ)) : Prop where
  /-- the chain of `resume` is what follows the gate in that of `call`; before the gate
      stand the steps of the other stage -/
  resumed : ∃ before, full s (scripts.map Script.extra) = before ++
      audited (ApprovalGate s.gate) "approval" :: postApproval s (scripts.map Script.extra) ∧
    ∀ step ∈ before, step.stage = some .beforeApproval
  /-- each stage is ordered by `order` -/
  ordered : ∀ stage, (ofStage stage (chain s (scripts.map Script.extra))).Pairwise
    fun a b => a.order ≤ b.order
  /-- at equal order a built-in step comes first -/
  builtinFirst : ∀ stage, ∀ a ∈ builtin s, ∀ b ∈ (scripts.map Script.extra).map ExtraStep.audited,
    a.stage = some stage → b.stage = some stage → a.order = b.order →
      [a, b].Sublist (ofStage stage (chain s (scripts.map Script.extra)))
  /-- whatever `call` has done, cut off anywhere, is a run of its chain -/
  called : ∀ toolCall canBlock ds c,
    ((call s (scripts.map Script.extra) toolCall canBlock).exec ()).Path ds c →
      ∃ log out, Runs (fullPlan s scripts) { call := toolCall, canBlock := canBlock } ds log out
  callInOrder : (fullPlan s scripts).map Placed.step = full s (scripts.map Script.extra) ∧
    InOrder s scripts (fullPlan s scripts)
      [.authorize, .gate, .validate, .materialize, .redact, .dispatch]
  /-- whatever `resume` has done, once it has read the ticket and asked the policy, is a
      run of its chain -/
  polled : ∀ t ds c, ((resume s (scripts.map Script.extra) t).exec ()).Path ds c → ds.length ≤ 2 ∨
    ∃ (ticket : Ticket) (grant : Grant) (ds₀ ds₁ : List (Doing Input (World σ)))
      (log : List Visit) (out : Outcome), ds = ds₀ ++ ds₁ ∧ ds₀.length = 2 ∧
        Runs (resumePlan t ticket.decision s scripts) { call := ticket.call, grant := grant }
          ds₁ log out
  resumeInOrder : (postPlan s scripts).map Placed.step = postApproval s (scripts.map Script.extra) ∧
    ∀ t d, InOrder s scripts (resumePlan t d s scripts)
      [.enforce, .validate, .materialize, .redact, .dispatch]

/-- Every assembly keeps the built-in order: with or without a rate limiter, for every list
    of extra steps at any place. -/
theorem assembly_keeps_order (s : Settings) (scripts : List (Script σ)) :
    KeepsOrder s scripts where
  resumed := by
    refine ⟨ofStage .beforeApproval (chain s (scripts.map Script.extra)), rfl, fun step hstep => ?_⟩
    rw [ofStage, List.mem_insertionSort, List.mem_filter, decide_eq_true_eq] at hstep
    exact hstep.2
  ordered := fun stage => ofStage_ordered stage _
  builtinFirst := fun _ _ ha _ hb hstage hstage' horder =>
    builtin_first s _ ha hb hstage hstage' (le_of_eq horder)
  called := fun _ _ _ _ h => call_runs s scripts h
  callInOrder := ⟨fullPlan_step s scripts, fullPlan_inOrder s scripts⟩
  polled := fun _ _ _ h => resume_runs s scripts h
  resumeInOrder := ⟨postPlan_step s scripts, fun t d => resumePlan_inOrder t d s scripts⟩

end

end ToolGateway
