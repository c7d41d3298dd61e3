/-
  ToolGateway.Policy.Order

  The version a replica applies.  An operation that reached the source holds an
  answer until it applies it; nothing stops a later answer from being applied in
  between.  In the runs where that does not happen (`InOrder`) the applied
  version never decreases.

  Every block of every operation is one of six steps (`Evolves`); the invariant
  is derived from these.
-/

import ToolGateway.Policy.Replica

namespace ToolGateway.Policy

open Coroutine Py

variable {S V : Type}

-- ============================================================================
-- Answers in the order of the source
-- ============================================================================

section
variable [DecidableEq V]

/-- The answers of the source that were neither applied nor overtaken by a later
    one that was, oldest first. -/
def pendingAnswers : List (PolicyMark V) → List (ℕ × V)
  | [] => []
  | .fetched i v :: trail => pendingAnswers trail ++ [(i, v)]
  | .applied i v :: trail => ((pendingAnswers trail).dropWhile (· ≠ (i, v))).tail
  | .decided _ _ :: trail => pendingAnswers trail

/-- Answers are applied in the order in which the source gave them: none is
    applied that a later one has overtaken. -/
def InOrder : List (PolicyMark V) → Prop
  | [] => True
  | .fetched _ _ :: trail => InOrder trail
  | .applied i v :: trail => (i, v) ∈ pendingAnswers trail ∧ InOrder trail
  | .decided _ _ :: trail => InOrder trail

theorem InOrder.tail {m : PolicyMark V} {trail : List (PolicyMark V)} (h : InOrder (m :: trail)) :
    InOrder trail := by
  cases m with
  | fetched i v => exact h
  | applied i v => exact h.2
  | decided i v => exact h

theorem InOrder.of_append {new trail : List (PolicyMark V)} (h : InOrder (new ++ trail)) :
    InOrder trail := by
  induction new with
  | nil => exact h
  | cons m ms ih => exact ih (InOrder.tail h)

end

/-- What follows the first occurrence of an element. -/
theorem dropWhile_ne_eq_cons {α : Type} [DecidableEq α] {a : α} {l : List α} (h : a ∈ l) :
    l.dropWhile (· ≠ a) = a :: (l.dropWhile (· ≠ a)).tail := by
  induction l with
  | nil => cases h
  | cons b l ih =>
      by_cases hb : b = a
      · simp [hb]
      · have hmem : a ∈ l := (List.mem_cons.mp h).resolve_left (Ne.symm hb)
        simpa [List.dropWhile_cons, hb] using ih hmem

-- ============================================================================
-- What a block can do
-- ============================================================================

section
variable [LinearOrder V] [PolicySource S V]

/-- One block of thread `i`: what it does to the source, the version in force and
    the trail. -/
inductive Evolves (i : ℕ) (w w' : PolicyWorld S V) : Prop where
  | quiet (source : w'.source = w.source) (version : w'.policy.version = w.policy.version)
      (trail : w'.trail = w.trail)
  | answered (v : V) (latest : PolicySource.latest w.source = (v : WithBot V))
      (source : w'.source = w.source) (version : w'.policy.version = w.policy.version)
      (trail : w'.trail = .fetched i v :: w.trail)
  | stored (v : V) (newer : PolicySource.latest w.source < (v : WithBot V))
      (latest : PolicySource.latest w'.source = (v : WithBot V))
      (version : w'.policy.version = w.policy.version)
      (trail : w'.trail = .fetched i v :: w.trail)
  | foreign (newer : PolicySource.latest w.source ≤ PolicySource.latest w'.source)
      (version : w'.policy.version = w.policy.version) (trail : w'.trail = w.trail)
  | applied (v : V) (source : w'.source = w.source) (version : w'.policy.version = v)
      (trail : w'.trail = .applied i v :: w.trail)
  | decided (source : w'.source = w.source) (version : w'.policy.version = w.policy.version)
      (trail : w'.trail = .decided i w.policy.version :: w.trail)

/-- A decision is made with no version older than one applied before it. -/
def Steady (trail : List (PolicyMark V)) : Prop :=
  trail.Pairwise fun later earlier =>
    ∀ (i : ℕ) (v : V) (j : ℕ) (v' : WithBot V),
      earlier = .applied i v → later = .decided j v' → (v : WithBot V) ≤ v'

/-- What holds of the world as long as answers were applied in order. -/
structure Ordered (w : PolicyWorld S V) : Prop where
  sorted : (pendingAnswers w.trail).Pairwise fun a b => a.2 ≤ b.2
  version_le : ∀ a ∈ pendingAnswers w.trail, w.policy.version ≤ (a.2 : WithBot V)
  le_latest : ∀ a ∈ pendingAnswers w.trail, (a.2 : WithBot V) ≤ PolicySource.latest w.source
  version_le_latest : w.policy.version ≤ PolicySource.latest w.source
  applied_le : ∀ i v, PolicyMark.applied i v ∈ w.trail → (v : WithBot V) ≤ w.policy.version
  steady : Steady w.trail

namespace Ordered

variable {w w' : PolicyWorld S V}

/-- Only the source moved on. -/
theorem of_source_le (h : Ordered w)
    (hlatest : PolicySource.latest w.source ≤ PolicySource.latest w'.source)
    (hversion : w'.policy.version = w.policy.version) (htrail : w'.trail = w.trail) :
    Ordered w' where
  sorted := by rw [htrail]; exact h.sorted
  version_le := by rw [htrail, hversion]; exact h.version_le
  le_latest := by
    rw [htrail]
    exact fun a ha => (h.le_latest a ha).trans hlatest
  version_le_latest := by rw [hversion]; exact h.version_le_latest.trans hlatest
  applied_le := by rw [htrail, hversion]; exact h.applied_le
  steady := by rw [htrail]; exact h.steady

/-- A mark that is not a decision keeps the decisions steady. -/
theorem steady_cons {trail : List (PolicyMark V)} {m : PolicyMark V} (h : Steady trail)
    (hm : ∀ j v, m ≠ .decided j v) : Steady (m :: trail) :=
  List.Pairwise.cons (fun _ _ _ _ j v' _ hlater => absurd hlater (hm j v')) h

/-- The source answered with its latest version. -/
theorem fetch {i : ℕ} {v : V} (h : Ordered w)
    (hle : PolicySource.latest w.source ≤ (v : WithBot V))
    (hlatest : PolicySource.latest w'.source = (v : WithBot V))
    (hversion : w'.policy.version = w.policy.version)
    (htrail : w'.trail = .fetched i v :: w.trail) : Ordered w' := by
  have hmem : ∀ a ∈ pendingAnswers w'.trail, a ∈ pendingAnswers w.trail ∨ a = (i, v) := by
    intro a ha
    rw [htrail] at ha
    simpa [pendingAnswers] using ha
  have hbound : ∀ a ∈ pendingAnswers w.trail, (a.2 : WithBot V) ≤ v :=
    fun a ha => (h.le_latest a ha).trans hle
  refine ⟨?_, ?_, ?_, ?_, ?_, ?_⟩
  · rw [htrail]
    refine List.pairwise_append.mpr ⟨h.sorted, List.pairwise_singleton _ _, ?_⟩
    intro a ha b hb
    rw [List.mem_singleton.mp hb]
    exact WithBot.coe_le_coe.mp (hbound a ha)
  · intro a ha
    rw [hversion]
    rcases hmem a ha with hold | rfl
    · exact h.version_le a hold
    · exact h.version_le_latest.trans hle
  · intro a ha
    rw [hlatest]
    rcases hmem a ha with hold | rfl
    · exact hbound a hold
    · exact le_rfl
  · rw [hversion, hlatest]
    exact h.version_le_latest.trans hle
  · intro j u hu
    rw [hversion]
    exact h.applied_le j u (by simpa [htrail] using hu)
  · rw [htrail]
    exact steady_cons h.steady fun _ _ hm => nomatch hm

/-- An answer that was not overtaken is put in force. -/
theorem apply {i : ℕ} {v : V} (h : Ordered w) (hin : (i, v) ∈ pendingAnswers w.trail)
    (hsource : w'.source = w.source) (hversion : w'.policy.version = v)
    (htrail : w'.trail = .applied i v :: w.trail) : Ordered w' := by
  -- `rest`: the answers younger than the one applied
  obtain ⟨rest, hrest⟩ : ∃ rest, (pendingAnswers w.trail).dropWhile (· ≠ (i, v)) = (i, v) :: rest :=
    ⟨_, dropWhile_ne_eq_cons hin⟩
  have hsub : ((i, v) :: rest).Sublist (pendingAnswers w.trail) := by
    rw [← hrest]
    exact (List.dropWhile_suffix _).sublist
  have hpending : pendingAnswers w'.trail = rest := by
    rw [htrail, pendingAnswers, hrest]
    rfl
  have hsorted := h.sorted.sublist hsub
  have hmem : ∀ a ∈ rest, a ∈ pendingAnswers w.trail := fun a ha =>
    hsub.subset (List.mem_cons_of_mem _ ha)
  have hup : w.policy.version ≤ (v : WithBot V) := h.version_le _ hin
  refine ⟨?_, ?_, ?_, ?_, ?_, ?_⟩
  · rw [hpending]
    exact (List.pairwise_cons.mp hsorted).2
  · intro a ha
    rw [hpending] at ha
    rw [hversion]
    exact WithBot.coe_le_coe.mpr ((List.pairwise_cons.mp hsorted).1 a ha)
  · intro a ha
    rw [hpending] at ha
    rw [hsource]
    exact h.le_latest a (hmem a ha)
  · rw [hversion, hsource]
    exact h.le_latest _ hin
  · intro j u hu
    rw [hversion]
    rw [htrail] at hu
    rcases List.mem_cons.mp hu with heq | hold
    · cases heq
      exact le_rfl
    · exact (h.applied_le j u hold).trans hup
  · rw [htrail]
    exact steady_cons h.steady fun _ _ hm => nomatch hm

/-- A call is decided under the version in force. -/
theorem decide {i : ℕ} (h : Ordered w) (hsource : w'.source = w.source)
    (hversion : w'.policy.version = w.policy.version)
    (htrail : w'.trail = .decided i w.policy.version :: w.trail) : Ordered w' := by
  have hpending : pendingAnswers w'.trail = pendingAnswers w.trail := by
    rw [htrail]
    rfl
  refine ⟨?_, ?_, ?_, ?_, ?_, ?_⟩
  · rw [hpending]
    exact h.sorted
  · rw [hpending, hversion]
    exact h.version_le
  · rw [hpending, hsource]
    exact h.le_latest
  · rw [hversion, hsource]
    exact h.version_le_latest
  · intro j u hu
    rw [hversion]
    exact h.applied_le j u (by simpa [htrail] using hu)
  · rw [htrail]
    refine List.Pairwise.cons ?_ h.steady
    intro m hm j v k v' hearlier hlater
    cases hlater
    exact h.applied_le j v (hearlier ▸ hm)

end Ordered

/-- Threads of a replica rely on the trail growing, and on the version in force
    not decreasing as long as answers are applied in order. -/
def policyProtocol (S V : Type) [LinearOrder V] [PolicySource S V] : Protocol (PolicyWorld S V) where
  inv w := InOrder w.trail → Ordered w
  rely _ _ w w' := (∃ new, w'.trail = new ++ w.trail) ∧
    (InOrder w'.trail → w.policy.version ≤ w'.policy.version)
  refl _ _ w := ⟨⟨[], rfl⟩, fun _ => le_rfl⟩
  trans := by
    rintro _ _ w₁ w₂ w₃ ⟨⟨new, h₁⟩, hle₁⟩ ⟨⟨new', h₂⟩, hle₂⟩
    refine ⟨⟨new' ++ new, by rw [h₂, h₁, List.append_assoc]⟩, fun hin => ?_⟩
    have hmid : InOrder w₂.trail := InOrder.of_append (h₂ ▸ hin)
    exact (hle₁ hmid).trans (hle₂ hin)

/-- Every step keeps the protocol. -/
theorem Evolves.guarantee {slot : Slot PolicyInput} {w w' : PolicyWorld S V}
    (h : Evolves slot.me w w') (hinv : (policyProtocol S V).inv w) :
    (policyProtocol S V).Guarantee slot w w' := by
  cases h with
  | quiet source version trail =>
      refine ⟨fun hin => ?_, fun j _ => ⟨⟨[], trail⟩, fun _ => version.ge⟩⟩
      exact (hinv (trail ▸ hin)).of_source_le (by rw [source]) version trail
  | foreign newer version trail =>
      refine ⟨fun hin => ?_, fun j _ => ⟨⟨[], trail⟩, fun _ => version.ge⟩⟩
      exact (hinv (trail ▸ hin)).of_source_le newer version trail
  | answered v latest source version trail =>
      refine ⟨fun hin => ?_, fun j _ => ⟨⟨[.fetched slot.me v], trail⟩, fun _ => version.ge⟩⟩
      rw [trail] at hin
      exact (hinv hin.tail).fetch latest.le (by rw [source, latest]) version trail
  | stored v newer latest version trail =>
      refine ⟨fun hin => ?_, fun j _ => ⟨⟨[.fetched slot.me v], trail⟩, fun _ => version.ge⟩⟩
      rw [trail] at hin
      exact (hinv hin.tail).fetch newer.le latest version trail
  | applied v source version trail =>
      refine ⟨fun hin => ?_, fun j _ => ⟨⟨[.applied slot.me v], trail⟩, fun hin => ?_⟩⟩
      · rw [trail] at hin
        exact (hinv hin.2).apply hin.1 source version trail
      · rw [trail] at hin
        rw [version]
        exact (hinv hin.2).version_le _ hin.1
  | decided source version trail =>
      refine ⟨fun hin => ?_, fun j _ =>
        ⟨⟨[.decided slot.me w.policy.version], trail⟩, fun _ => version.ge⟩⟩
      rw [trail] at hin
      exact (hinv hin.tail).decide source version trail

end

end ToolGateway.Policy
