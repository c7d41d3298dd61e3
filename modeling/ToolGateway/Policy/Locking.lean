/-
  ToolGateway.Policy.Locking

  What a thread does at the lock of a replica, one step at a time.  Each thread is
  watched: whether it has the lock, what the source told it, and which version the
  source had when it dropped the stamp.
-/

import ToolGateway.Coroutine.Monitor
import ToolGateway.Policy.Order

namespace ToolGateway.Policy

open Coroutine DeclarativePolicy Py

-- ============================================================================
-- The watch on a thread
-- ============================================================================

/-- Where a thread stands to the lock. -/
inductive Stage (V : Type) where
  | out
  /-- it has the lock, and asks for what is newer than this version -/
  | asking (version : WithBot V)
  /-- it has the lock, and puts this document in force -/
  | applying (v : V) (doc : Json)
  /-- it has the lock, and nothing to apply -/
  | releasing
  /-- it has left the lock -/
  | past

/-- It has the lock. -/
def Stage.holds {V : Type} : Stage V → Prop
  | .out | .past => False
  | _ => True

namespace Stage

variable {V : Type} {stage : Stage V}

theorem not_holds_of_out (h : stage = .out) : ¬ stage.holds := by
  rw [h]
  exact id

theorem not_holds_of_past (h : stage = .past) : ¬ stage.holds := by
  rw [h]
  exact id

theorem holds_of_asking {version : WithBot V} (h : stage = .asking version) : stage.holds := by
  rw [h]
  trivial

theorem holds_of_applying {v : V} {doc : Json} (h : stage = .applying v doc) : stage.holds := by
  rw [h]
  trivial

theorem holds_of_releasing (h : stage = .releasing) : stage.holds := by
  rw [h]
  trivial

end Stage

/-- What is known of a call that is watched. -/
structure Watched (V : Type) where
  /-- the newest version when it dropped the stamp -/
  need : Option (WithBot V) := none
  stage : Stage V := .out
  /-- what it read off the replica -/
  shown : Option (WithBot V × Option Json) := none

section
variable {S V : Type} [PolicySource S V] [PrintTables]

/-- The steps of whoever publishes nothing. -/
inductive Move (p : Watched V) (slot : Slot PolicyInput) (w w' : PolicyWorld S V) : Watched V → Prop where
  | idle (stage : ¬ p.stage.holds) (source : w'.source = w.source) (policy : w'.policy = w.policy) :
      Move p slot w w' p
  | read (stage : p.stage = .past) (need : p.need.isSome) (source : w'.source = w.source)
      (policy : w'.policy = w.policy) :
      Move p slot w w' { p with shown := some (w.policy.version, w.policy.doc) }
  | drop (stage : p.stage = .out) (source : w'.source = w.source)
      (policy : w'.policy = { w.policy with checked := none }) :
      Move p slot w w' { p with need := some (PolicySource.latest w.source) }
  /-- somebody else has stamped the policy meanwhile -/
  | skip (stage : p.stage = .out) (free : w.policy.lock.any slot.live = false)
      (stamped : w.policy.checked ≠ none) (same : w' = w) :
      Move p slot w w' { p with stage := .past }
  | take (stage : p.stage = .out) (free : w.policy.lock.any slot.live = false)
      (source : w'.source = w.source)
      (policy : w'.policy = { w.policy with
        lock := some slot.me, checked := some slot.input.stamp }) :
      Move p slot w w' { p with stage := .asking w.policy.version }
  | answered (version : WithBot V) (v : V) (doc : Json) (stage : p.stage = .asking version)
      (load : PolicySource.loadPolicy w.source (newerThan version) = some (v, doc))
      (source : w'.source = w.source) (policy : w'.policy = w.policy) :
      Move p slot w w' { p with stage := .applying v doc }
  | unanswered (version : WithBot V) (stage : p.stage = .asking version)
      (load : slot.input.fails = true ∨
        PolicySource.loadPolicy w.source (newerThan version) = none ∨
        ∃ v doc, PolicySource.loadPolicy w.source (newerThan version) = some (v, doc) ∧
          compile? doc = none)
      (source : w'.source = w.source) (policy : w'.policy = w.policy) :
      Move p slot w w' { p with stage := .releasing }
  | apply (v : V) (doc : Json) (compiled : Compiled) (stage : p.stage = .applying v doc)
      (source : w'.source = w.source)
      (policy : w'.policy = { w.policy with
        compiled := some compiled, doc := some doc, version := v, lock := none }) :
      Move p slot w w' { p with stage := .past }
  | release (stage : p.stage = .releasing) (source : w'.source = w.source)
      (policy : w'.policy = { w.policy with lock := none }) :
      Move p slot w w' { p with stage := .past }

-- ============================================================================
-- The programs
-- ============================================================================

variable {p : Watched V}

theorem load_move {version : WithBot V} (hstage : p.stage = .asking version)
    {slot : Slot PolicyInput} {w w' : PolicyWorld S V} {x : Option (V × Json)}
    (hb : load version slot w = some (x, w')) :
    ∃ q, Move p slot w w' q ∧ q.need = p.need ∧ q.shown = p.shown ∧
      ((∃ v doc, x = some (v, doc) ∧ (compile? doc).isSome ∧ q.stage = .applying v doc) ∨
        (∀ v doc, x = some (v, doc) → compile? doc = none) ∧ q.stage = .releasing) := by
  unfold load at hb
  split at hb
  · next hfails =>
      cases hb
      exact ⟨_, .unanswered version hstage (Or.inl hfails) rfl rfl, rfl, rfl, Or.inr ⟨nofun, rfl⟩⟩
  · split at hb
    · next v doc hload =>
        cases hb
        cases hcompile : compile? doc with
        | none =>
            refine ⟨_, .unanswered version hstage (Or.inr (Or.inr ⟨v, doc, hload, hcompile⟩)) rfl
              rfl, rfl, rfl, Or.inr ⟨fun v' doc' heq => ?_, rfl⟩⟩
            cases heq
            exact hcompile
        | some compiled =>
            refine ⟨_, .answered version v doc hstage hload rfl rfl, rfl, rfl,
              Or.inl ⟨v, doc, rfl, ?_, rfl⟩⟩
            rw [hcompile]
            rfl
    · next hload =>
        cases hb
        exact ⟨_, .unanswered version hstage (Or.inr (Or.inl hload)) rfl rfl, rfl, rfl,
          Or.inr ⟨nofun, rfl⟩⟩

/-- Nothing that the statements speak of was changed but the stage. -/
def Passed (p q : Watched V) : Prop := q.stage = .past ∧ q.need = p.need ∧ q.shown = p.shown

theorem release_passes (hstage : p.stage = .releasing) :
    (Co.atomic (release (S := S))).Passes Move (fun q _ => Passed p q) p := by
  refine Co.Passes.atomic fun slot w x w' hb => ?_
  cases hb
  exact ⟨_, .release hstage rfl rfl, rfl, rfl, rfl⟩

/-- From the lock on: the thread has left it again. -/
theorem refreshLocked_passes (hstage : p.stage = .out) :
    (refreshLocked (S := S) (V := V)).Passes Move (fun q _ => Passed p q) p := by
  refine Co.Passes.bind (Co.Passes.atomic fun slot w x w' hb => ?_)
  unfold acquire at hb
  split at hb
  · cases hb
  · next hfree =>
      have hfree' := Bool.eq_false_iff.mpr hfree
      split at hb
      · next hfresh =>
          cases hb
          refine ⟨_, .skip hstage hfree' (fun hnone => ?_) rfl, rfl, rfl, rfl⟩
          rw [DeclarativePolicy.fresh, hnone] at hfresh
          cases hfresh
      · cases hb
        refine ⟨_, .take hstage hfree' rfl rfl, Co.Passes.bind (Co.Passes.atomic ?_)⟩
        intro slot₂ w₂ x₂ w₂' hb₂
        have hasking : ({ p with stage := .asking w.policy.version } : Watched V).stage
            = .asking w.policy.version := rfl
        obtain ⟨q, hmove, hneed, hshown, hnext⟩ := load_move hasking hb₂
        refine ⟨q, hmove, ?_⟩
        have hkept : ∀ r, Passed q r → Passed p r := fun r hr =>
          ⟨hr.1, hr.2.1.trans hneed, hr.2.2.trans hshown⟩
        rcases hnext with ⟨v, doc, rfl, hcompiles, hq⟩ | ⟨huseless, hq⟩
        · obtain ⟨compiled, hcompiled⟩ := Option.isSome_iff_exists.mp hcompiles
          simp only [settle, hcompiled]
          refine Co.Passes.atomic fun slot₃ w₃ x₃ w₃' hb₃ => ?_
          cases hb₃
          exact ⟨_, .apply v doc compiled hq rfl rfl, hkept _ ⟨rfl, rfl, rfl⟩⟩
        · cases x₂ with
          | none => exact (release_passes hq).mono fun r _ => hkept r
          | some e =>
              obtain ⟨v, doc⟩ := e
              simp only [settle, huseless v doc rfl]
              exact (release_passes hq).mono fun r _ => hkept r

/-- `_refresh_if_due` may find the policy fresh at once. -/
theorem refreshIfDue_passes (hstage : p.stage = .out) :
    (refreshIfDue (S := S) (V := V)).Passes Move
      (fun q _ => ¬ q.stage.holds ∧ q.shown = p.shown) p := by
  have hout : ¬ p.stage.holds := Stage.not_holds_of_out hstage
  refine Co.Passes.bind (Co.Passes.atomic fun slot w x w' hb => ?_)
  cases hb
  refine ⟨p, .idle hout rfl rfl, ?_⟩
  split
  · exact ⟨hout, rfl⟩
  · exact (refreshLocked_passes hstage).mono fun q _ hq => ⟨Stage.not_holds_of_past hq.1, hq.2.2⟩

theorem decideWith_passes (hstage : ¬ p.stage.holds) (answer : Option Compiled → PolicyOutcome V) :
    (Co.atomic (decideWith (S := S) answer)).Passes Move (fun q _ => q = p) p := by
  refine Co.Passes.atomic fun slot w x w' hb => ?_
  cases hb
  exact ⟨p, .idle hstage rfl rfl, rfl⟩

theorem deciding_passes (hstage : p.stage = .out) (answer : Option Compiled → PolicyOutcome V) :
    (refreshIfDue >>= fun _ => Co.atomic (decideWith (S := S) answer)).Passes Move
      (fun q _ => ¬ q.stage.holds) p := by
  refine Co.Passes.bind ((refreshIfDue_passes hstage).mono fun q _ hq => ?_)
  refine (decideWith_passes hq.1 answer).mono fun r _ hr => ?_
  rw [hr]
  exact hq.1

theorem dropStamp_passes (hstage : p.stage = .out) :
    (Co.atomic (dropStamp (S := S))).Passes Move
      (fun q _ => q.stage = .out ∧ q.need.isSome) p := by
  refine Co.Passes.atomic fun slot w x w' hb => ?_
  cases hb
  exact ⟨_, .drop hstage rfl rfl, hstage, rfl⟩

theorem refresh_passes (hstage : p.stage = .out) :
    (refresh (S := S)).Passes Move (fun q _ => q.stage = .past ∧ q.need.isSome) p := by
  refine Co.Passes.bind ((dropStamp_passes hstage).mono fun q _ hq => ?_)
  refine Co.Passes.bind ((refreshLocked_passes hq.1).mono fun r _ hr => ?_)
  exact ⟨hr.1, by rw [hr.2.1]; exact hq.2⟩

end

end ToolGateway.Policy
