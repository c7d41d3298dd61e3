/-
  ToolGateway.Policy.VersionRuns

  Runs of one replica: any operations, interleaved at every await point, with
  any clock, a source that may fail at any step, and publications by other
  replicas in between.
-/

import ToolGateway.Policy.Order

namespace ToolGateway.Policy

open Coroutine Py

variable {S V : Type}

-- ============================================================================
-- The operations keep the protocol
-- ============================================================================

section
variable [LinearOrder V] [PolicySource S V]

namespace DeclarativePolicy

theorem acquire_evolves {slot : Slot PolicyInput} {w w' : PolicyWorld S V}
    {x : Option (WithBot V)} (h : acquire slot w = some (x, w')) : Evolves slot.me w w' := by
  unfold acquire at h
  split at h
  · cases h
  · split at h
    · cases h
      exact .quiet rfl rfl rfl
    · cases h
      exact .quiet rfl rfl rfl

theorem load_evolves [OrderedPolicySource S V] {version : WithBot V} {slot : Slot PolicyInput}
    {w w' : PolicyWorld S V} {x : Option (V × Json)} (h : load version slot w = some (x, w')) :
    Evolves slot.me w w' := by
  unfold load at h
  split at h
  · cases h
    exact .quiet rfl rfl rfl
  · split at h
    · next v doc hload =>
        cases h
        exact .answered v (OrderedPolicySource.load_latest _ _ _ _ hload) rfl rfl rfl
    · cases h
      exact .quiet rfl rfl rfl

theorem publishToSource_evolves [OrderedPolicySource S V] {doc : Json} {slot : Slot PolicyInput}
    {w w' : PolicyWorld S V} {x : Option V} (h : publishToSource doc slot w = some (x, w')) :
    Evolves slot.me w w' := by
  unfold publishToSource at h
  split at h
  · cases h
    exact .quiet rfl rfl rfl
  · cases h
    exact .stored _ (OrderedPolicySource.publish_newer w.source doc)
      (OrderedPolicySource.publish_latest w.source doc) rfl rfl

end DeclarativePolicy

variable {i : ℕ} {w : PolicyWorld S V} {β : Type} {Q : β → PolicyWorld S V → Prop}

/-- An await point whose block is a step of the replica. -/
theorem wp_of_evolves {block : Slot PolicyInput → PolicyWorld S V → Option (β × PolicyWorld S V)}
    (hblock : ∀ slot w x w', block slot w = some (x, w') → Evolves slot.me w w')
    (hQ : ∀ x w', Q x w') : Wp (policyProtocol S V) i (Co.atomic block) Q w :=
  Wp.atomic fun w₁ _ hinv slot _ _ x w₂ hb => ⟨(hblock slot w₁ x w₂ hb).guarantee hinv, hQ x w₂⟩

/-- An await point that touches neither source, version nor trail. -/
theorem wp_quiet {f : Slot PolicyInput → PolicyWorld S V → β × PolicyWorld S V}
    (hf : ∀ slot w, (f slot w).2.source = w.source ∧
      (f slot w).2.policy.version = w.policy.version ∧ (f slot w).2.trail = w.trail)
    (hQ : ∀ x w', Q x w') :
    Wp (policyProtocol S V) i (Co.atomic fun slot w => some (f slot w)) Q w := by
  refine wp_of_evolves (fun slot w x w' h => ?_) hQ
  have hw : (f slot w).2 = w' := by rw [Option.some.inj h]
  obtain ⟨hsource, hversion, htrail⟩ := hf slot w
  exact .quiet (by rw [← hw, hsource]) (by rw [← hw, hversion]) (by rw [← hw, htrail])

namespace DeclarativePolicy

theorem wp_release {Q : Unit → PolicyWorld S V → Prop} (hQ : ∀ w', Q () w') :
    Wp (policyProtocol S V) i (Co.atomic release) Q w :=
  wp_quiet (fun _ _ => ⟨rfl, rfl, rfl⟩) fun _ => hQ

theorem wp_decideWith (answer : Option Compiled → PolicyOutcome V)
    {Q : PolicyOutcome V → PolicyWorld S V → Prop} (hQ : ∀ o w', Q o w') :
    Wp (policyProtocol S V) i (Co.atomic (decideWith answer)) Q w := by
  refine wp_of_evolves (fun slot w x w' h => ?_) hQ
  cases h
  exact .decided rfl rfl rfl

variable [PrintTables] [OrderedPolicySource S V]

theorem wp_refreshLocked {Q : Unit → PolicyWorld S V → Prop} (hQ : ∀ w', Q () w') :
    Wp (policyProtocol S V) i refreshLocked Q w := by
  refine Wp.bind (wp_of_evolves (fun _ _ _ _ => acquire_evolves) fun version w₂ => ?_)
  split
  · exact hQ w₂
  refine Wp.bind (wp_of_evolves (fun _ _ _ _ => load_evolves) fun loaded w₃ => ?_)
  unfold settle
  split
  · exact wp_release hQ
  · split
    · exact wp_release hQ
    · refine wp_of_evolves (fun slot w x w' h => ?_) fun _ => hQ
      cases h
      exact .applied _ rfl rfl rfl

theorem wp_refreshIfDue {Q : Unit → PolicyWorld S V → Prop} (hQ : ∀ w', Q () w') :
    Wp (policyProtocol S V) i refreshIfDue Q w := by
  refine Wp.bind (wp_quiet (fun _ _ => ⟨rfl, rfl, rfl⟩) fun fresh w₁ => ?_)
  split
  · exact hQ w₁
  · exact wp_refreshLocked hQ

theorem wp_publish (doc : Json) {Q : PolicyOutcome V → PolicyWorld S V → Prop}
    (hQ : ∀ o w', Q o w') : Wp (policyProtocol S V) i (publish doc) Q w := by
  unfold publish
  split
  · exact hQ _ _
  · refine Wp.bind (wp_of_evolves (fun _ _ _ _ => publishToSource_evolves) fun stored w₁ => ?_)
    split
    · exact hQ _ _
    · refine Wp.bind (wp_of_evolves (fun slot w x w' h => ?_) fun _ => hQ _)
      cases h
      exact .applied _ rfl rfl rfl

end DeclarativePolicy

variable [PrintTables] [OrderedPolicySource S V]

theorem PolicyOp.wp_program (op : PolicyOp) {Q : PolicyOutcome V → PolicyWorld S V → Prop}
    (hQ : ∀ o w', Q o w') : Wp (policyProtocol S V) i op.program Q w := by
  cases op with
  | publish doc => exact DeclarativePolicy.wp_publish doc hQ
  | refresh =>
      refine Wp.bind (wp_quiet (fun _ _ => ⟨rfl, rfl, rfl⟩) fun _ _ => ?_)
      exact Wp.bind (DeclarativePolicy.wp_refreshLocked fun _ => hQ _ _)
  | grantFor call =>
      exact Wp.bind (DeclarativePolicy.wp_refreshIfDue fun _ =>
        DeclarativePolicy.wp_decideWith _ hQ)
  | mayCall call =>
      exact Wp.bind (DeclarativePolicy.wp_refreshIfDue fun _ =>
        DeclarativePolicy.wp_decideWith _ hQ)
  | foreignPublish doc =>
      refine wp_of_evolves (fun slot w x w' h => ?_) hQ
      cases h
      refine .foreign ?_ rfl rfl
      have hnewer := OrderedPolicySource.publish_newer (V := V) w.source doc
      have hlatest := OrderedPolicySource.publish_latest (V := V) w.source doc
      exact hnewer.le.trans hlatest.ge

end

-- ============================================================================
-- Runs
-- ============================================================================

/-- A replica as it is before any of the operations: its version is one its
    source has published. -/
structure PolicyStart (S V : Type) [LinearOrder V] [PolicySource S V] where
  source : S
  policy : DeclarativePolicy V
  version_le : policy.version ≤ PolicySource.latest source

section
variable [LinearOrder V] [PolicySource S V] [PrintTables]

/-- These operations, to be run on it. -/
def PolicyStart.config (start : PolicyStart S V) (ops : List PolicyOp) :
    Config PolicyInput (PolicyWorld S V) (PolicyOutcome V) :=
  { world := { source := start.source, policy := start.policy, trail := [] }
    threads := ops.map fun op => some op.program }

/-- Between two moments of a run the version in force did not decrease, and no
    call was decided with a version older than one applied before. -/
def NeverGoesBack (c : Config PolicyInput (PolicyWorld S V) (PolicyOutcome V))
    (es es' : List (Event PolicyInput)) : Prop :=
  (c.run es).world.policy.version ≤ (c.run (es ++ es')).world.policy.version ∧
    Steady (c.run (es ++ es')).world.trail

theorem PolicyStart.keeps [OrderedPolicySource S V] (start : PolicyStart S V)
    (ops : List PolicyOp) :
    (start.config ops).Keeps (policyProtocol S V) fun _ _ _ => True where
  inv _ := ⟨List.Pairwise.nil, nofun, nofun, start.version_le, nofun, List.Pairwise.nil⟩
  threads i co hi := by
    simp only [PolicyStart.config, List.getElem?_map, Option.map_eq_some_iff] at hi
    obtain ⟨op, -, hop⟩ := hi
    rw [← Option.some.inj hop]
    exact op.wp_program fun _ _ => trivial

/-- In every run in which answers of the source are applied in the order in which
    it gave them, the replica's version never decreases, and every call is
    decided with the newest version applied so far or a newer one. -/
theorem version_never_goes_back [OrderedPolicySource S V] (start : PolicyStart S V)
    (ops : List PolicyOp) (es es' : List (Event PolicyInput))
    (hin : InOrder ((start.config ops).run (es ++ es')).world.trail) :
    NeverGoesBack (start.config ops) es es' := by
  have hmid := (start.keeps ops).run (fun _ _ _ _ _ _ => trivial) es
  have hend := (start.keeps ops).run (fun _ _ _ _ _ _ => trivial) (es ++ es')
  have hrely := hmid.rely_run (fun _ _ _ _ _ _ => trivial) le_rfl es'
  rw [← Config.run_append] at hrely
  exact ⟨hrely.2 hin, (hend.inv hin).steady⟩

end

/-- One policy published before the replica started. -/
def startedLate : PolicyStart SqlPolicySource ℕ where
  source := (SqlPolicySource.empty.publishPolicy (.dict [])).2
  policy := .ofSource ℕ 5000000
  version_le := bot_le

/-- A refresh and a publication on it. -/
def refreshAndPublish : Config PolicyInput (PolicyWorld SqlPolicySource ℕ) (PolicyOutcome ℕ) :=
  letI := PrintTables.ascii
  startedLate.config [.refresh, .publish (.dict [])]

/-- A step of the thread, at second zero. -/
def at0 (thread : ℕ) : Event PolicyInput := .step thread { now := 0 }

/-- One after the other, the publication ends in force. -/
theorem version_never_goes_back_in_sequence :
    NeverGoesBack refreshAndPublish [at0 0, at0 0, at0 0, at0 0] [at0 1, at0 1] := by
  have htrail : (refreshAndPublish.run
      ([at0 0, at0 0, at0 0, at0 0] ++ [at0 1, at0 1])).world.trail
        = [.applied 1 2, .fetched 1 2, .applied 0 1, .fetched 0 1] := by
    decide +kernel
  refine @version_never_goes_back SqlPolicySource ℕ _ _ .ascii _ startedLate _ _ _ ?_
  unfold refreshAndPublish at htrail
  rw [htrail]
  exact ⟨by decide, by decide, trivial⟩

/-- A refresh that was given version 1 applies it after the publication has put
    version 2 in force. -/
theorem version_can_go_back :
    ¬ ∀ (_ : PrintTables) (start : PolicyStart SqlPolicySource ℕ) (ops : List PolicyOp)
      (es es' : List (Event PolicyInput)), NeverGoesBack (start.config ops) es es' := by
  intro law
  have hback : NeverGoesBack refreshAndPublish
      [at0 0, at0 0, at0 0, at0 1, at0 1] [at0 0] := law .ascii startedLate _ _ _
  have hbefore : (refreshAndPublish.run
      [at0 0, at0 0, at0 0, at0 1, at0 1]).world.policy.version = WithBot.some 2 := by
    decide +kernel
  have hafter : (refreshAndPublish.run
      ([at0 0, at0 0, at0 0, at0 1, at0 1] ++ [at0 0])).world.policy.version
        = WithBot.some 1 := by
    decide +kernel
  have hle := hback.1
  rw [hbefore, hafter] at hle
  exact absurd (WithBot.coe_le_coe.mp hle) (by decide)

end ToolGateway.Policy
