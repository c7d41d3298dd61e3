/-
  ToolGateway.Policy.Replicas

  Any number of replicas on one policy source.  Each operation runs on one
  replica, as `Replica` has it, and sees of the others only what they do to the
  source.

  The world keeps, for the statements alone, what each replica's operations did
  (its trail) and every document the source has held under a version.
-/

import Mathlib.Logic.Function.Basic
import ToolGateway.Coroutine.Views
import ToolGateway.Policy.Replica

namespace ToolGateway.Policy

open Coroutine Py

-- ============================================================================
-- Sources
-- ============================================================================

/-- A source that answers with what was published last, as it was published. -/
class FaithfulPolicySource (S V : Type) [LinearOrder V] [PolicySource S V] : Prop
    extends OrderedPolicySource S V where
  load_newest : ∀ (s : S) (newerThan : Option V) (e : V × Json),
    PolicySource.loadPolicy s newerThan = some e → PolicySource.loadPolicy s none = some e
  /-- no answer: the reader has the newest version, if there is one -/
  load_none : ∀ (s : S) (newerThan : Option V), PolicySource.loadPolicy s newerThan = none →
    PolicySource.loadPolicy s none = none ∨
      ∃ e, PolicySource.loadPolicy s none = some e ∧ newerThan = some e.1
  publish_load : ∀ (s : S) (doc : Json), PolicySource.loadPolicy (PolicySource.publishPolicy s doc).2 none
    = some ((PolicySource.publishPolicy s doc).1, doc)

instance : FaithfulPolicySource MemoryPolicySource ℕ where
  load_newest s newerThan e h := by
    cases hdoc : s.doc with
    | none => simp [PolicySource.loadPolicy, MemoryPolicySource.loadPolicy, hdoc] at h
    | some doc =>
        simp only [PolicySource.loadPolicy, MemoryPolicySource.loadPolicy, hdoc] at h ⊢
        split at h
        · cases h
        · exact h
  load_none s newerThan h := by
    cases hdoc : s.doc with
    | none => simp [PolicySource.loadPolicy, MemoryPolicySource.loadPolicy, hdoc]
    | some doc =>
        simp only [PolicySource.loadPolicy, MemoryPolicySource.loadPolicy, hdoc] at h ⊢
        split at h
        · next hsame => exact Or.inr ⟨(s.version, doc), rfl, hsame.symm⟩
        · cases h
  publish_load _ _ := rfl

instance : FaithfulPolicySource SqlPolicySource ℕ where
  load_newest s newerThan e h := by
    cases hrows : s.rows with
    | nil => simp [PolicySource.loadPolicy, SqlPolicySource.loadPolicy, hrows] at h
    | cons r rs =>
        simp only [PolicySource.loadPolicy, SqlPolicySource.loadPolicy, hrows] at h ⊢
        split at h
        · cases h
        · exact h
  load_none s newerThan h := by
    cases hrows : s.rows with
    | nil => simp [PolicySource.loadPolicy, SqlPolicySource.loadPolicy, hrows]
    | cons r rs =>
        simp only [PolicySource.loadPolicy, SqlPolicySource.loadPolicy, hrows] at h ⊢
        split at h
        · next hsame => exact Or.inr ⟨(r.id, r.doc), rfl, hsame.symm⟩
        · cases h
  publish_load _ _ := rfl

-- ============================================================================
-- The replicas
-- ============================================================================

/-- What a replica decides calls by: `_compiled`, `_doc` and `_version`. -/
structure InForce (V : Type) where
  compiled : Option Compiled
  doc : Option Json
  version : WithBot V

/-- What decides, and what an operator is shown. -/
def DeclarativePolicy.inForce {V : Type} (p : DeclarativePolicy V) : InForce V :=
  ⟨p.compiled, p.doc, p.version⟩

/-- Replicas on a source. -/
structure Cluster (S V : Type) where
  source : S
  replicas : ℕ → DeclarativePolicy V
  trails : ℕ → List (PolicyMark V)
  /-- what the source has held, newest first -/
  stored : List (V × Json)

namespace Cluster

variable {S V : Type} [PolicySource S V]

/-- What an operation on replica `k` acts on. -/
def view (k : ℕ) (w : Cluster S V) : PolicyWorld S V :=
  { source := w.source, policy := w.replicas k, trail := w.trails k }

/-- The replica as it is now, with the source it left; what is in the source has been stored. -/
def put (k : ℕ) (pw : PolicyWorld S V) (w : Cluster S V) : Cluster S V :=
  { source := pw.source
    replicas := Function.update w.replicas k pw.policy
    trails := Function.update w.trails k pw.trail
    stored := (PolicySource.loadPolicy pw.source none).toList ++ w.stored }

@[simp] theorem trails_put_self (k : ℕ) (pw : PolicyWorld S V) (w : Cluster S V) :
    (w.put k pw).trails k = pw.trail := by simp [put]

@[simp] theorem replicas_put_self (k : ℕ) (pw : PolicyWorld S V) (w : Cluster S V) :
    (w.put k pw).replicas k = pw.policy := by simp [put]

theorem trails_put_ne {k l : ℕ} (h : l ≠ k) (pw : PolicyWorld S V) (w : Cluster S V) :
    (w.put k pw).trails l = w.trails l := by simp [put, h]

theorem replicas_put_ne {k l : ℕ} (h : l ≠ k) (pw : PolicyWorld S V) (w : Cluster S V) :
    (w.put k pw).replicas l = w.replicas l := by simp [put, h]

end Cluster

/-- An operation on one of the replicas. -/
structure ReplicaOp where
  replica : ℕ
  op : PolicyOp

section
variable {S V : Type} [PolicySource S V] [PrintTables]

/-- What it runs, on its replica. -/
def ReplicaOp.program (o : ReplicaOp) : Co PolicyInput (Cluster S V) (PolicyOutcome V) :=
  o.op.program.zoom (Cluster.view o.replica) (Cluster.put o.replica)

/-- Operations on the replicas of a cluster. -/
def Cluster.config (w : Cluster S V) (ops : List ReplicaOp) :
    Config PolicyInput (Cluster S V) (PolicyOutcome V) :=
  { world := w, threads := ops.map fun o => some o.program }

end

-- ============================================================================
-- Coherence
-- ============================================================================

section
variable {S V : Type} [PrintTables]

/-- The policy in force is the document that was stored under its version. -/
def Loaded (stored : List (V × Json)) (v : V) (p : InForce V) : Prop :=
  ∃ doc compiled, (v, doc) ∈ stored ∧ compilePolicy doc = .ok compiled ∧
    p = ⟨some compiled, some doc, (v : WithBot V)⟩

/-- Nothing was loaded, or a stored document is in force. -/
def Coherent (stored : List (V × Json)) (p : InForce V) : Prop :=
  p = ⟨none, none, ⊥⟩ ∨ ∃ v, Loaded stored v p

theorem Loaded.mono {stored stored' : List (V × Json)} {v : V} {p : InForce V}
    (h : Loaded stored v p) (hsub : ∀ e ∈ stored, e ∈ stored') : Loaded stored' v p := by
  obtain ⟨doc, compiled, hmem, hcompiles, hp⟩ := h
  exact ⟨doc, compiled, hsub _ hmem, hcompiles, hp⟩

variable [LinearOrder V] [PolicySource S V]

/-- What holds of the replicas and their source at every moment. -/
structure Sound (w : Cluster S V) : Prop where
  /-- what the source answers was recorded -/
  newest : ∀ e, PolicySource.loadPolicy w.source none = some e → e ∈ w.stored
  le_latest : ∀ e ∈ w.stored, (e.1 : WithBot V) ≤ PolicySource.latest w.source
  /-- a version stands for one document -/
  unique : ∀ e ∈ w.stored, ∀ e' ∈ w.stored, e.1 = e'.1 → e = e'
  coherent : ∀ k, Coherent w.stored (w.replicas k).inForce

variable {w : Cluster S V} {k : ℕ} {pw : PolicyWorld S V}

/-- A block that leaves the source alone adds nothing new to what was stored. -/
theorem stored_put_same (h : Sound w) (hsource : pw.source = w.source)
    (e : V × Json) : e ∈ (w.put k pw).stored ↔ e ∈ w.stored := by
  show e ∈ (PolicySource.loadPolicy pw.source none).toList ++ w.stored ↔ _
  rw [hsource, List.mem_append]
  refine ⟨fun hmem => hmem.elim (fun hnew => ?_) id, Or.inr⟩
  exact h.newest e (Option.mem_toList.mp hnew)

omit [PrintTables] in
theorem stored_put_publish [FaithfulPolicySource S V] {doc : Json}
    (hsource : pw.source = (PolicySource.publishPolicy w.source doc).2) :
    (w.put k pw).stored = ((PolicySource.publishPolicy w.source doc).1, doc) :: w.stored := by
  show (PolicySource.loadPolicy pw.source none).toList ++ w.stored = _
  rw [hsource, FaithfulPolicySource.publish_load]
  rfl

theorem coherent_put (h : Sound w) (hsub : ∀ e ∈ w.stored, e ∈ (w.put k pw).stored)
    (hk : Coherent (w.put k pw).stored pw.policy.inForce) (l : ℕ) :
    Coherent (w.put k pw).stored ((w.put k pw).replicas l).inForce := by
  by_cases hl : l = k
  · rw [hl, Cluster.replicas_put_self]
    exact hk
  · rw [Cluster.replicas_put_ne hl]
    exact (h.coherent l).imp id fun ⟨v, hloaded⟩ => ⟨v, hloaded.mono hsub⟩

/-- The source stayed as it is. -/
theorem Sound.put_same (h : Sound w) (hsource : pw.source = w.source)
    (hk : Coherent w.stored pw.policy.inForce) : Sound (w.put k pw) := by
  have hstored := stored_put_same (k := k) h hsource
  refine ⟨fun e he => ?_, fun e he => ?_, fun e he e' he' => ?_, ?_⟩
  · rw [hstored]
    exact h.newest e (hsource ▸ he)
  · show _ ≤ PolicySource.latest pw.source
    rw [hsource]
    exact h.le_latest e ((hstored e).mp he)
  · exact h.unique e ((hstored e).mp he) e' ((hstored e').mp he')
  · exact coherent_put h (fun e he => (hstored e).mpr he)
      (hk.imp id fun ⟨v, hloaded⟩ => ⟨v, hloaded.mono fun e he => (hstored e).mpr he⟩)

/-- A version that the source has just given out stands for nothing else. -/
theorem Sound.put_publish [FaithfulPolicySource S V] {doc : Json} (h : Sound w)
    (hsource : pw.source = (PolicySource.publishPolicy w.source doc).2)
    (hk : Coherent w.stored pw.policy.inForce) : Sound (w.put k pw) := by
  have hstored := stored_put_publish (k := k) hsource
  have hsub : ∀ e ∈ w.stored, e ∈ (w.put k pw).stored := by
    intro e he
    rw [hstored]
    exact List.mem_cons_of_mem _ he
  have hnewer := OrderedPolicySource.publish_newer (V := V) w.source doc
  have hlatest : PolicySource.latest (w.put k pw).source
      = ((PolicySource.publishPolicy w.source doc).1 : WithBot V) := by
    show PolicySource.latest pw.source = _
    rw [hsource]
    exact OrderedPolicySource.publish_latest w.source doc
  have hfresh : ∀ e ∈ w.stored, e.1 ≠ (PolicySource.publishPolicy w.source doc).1 := by
    intro e he heq
    have hlt : (e.1 : WithBot V) < _ := (h.le_latest e he).trans_lt hnewer
    rw [heq] at hlt
    exact lt_irrefl _ hlt
  refine ⟨fun e he => ?_, fun e he => ?_, fun e he e' he' hver => ?_, ?_⟩
  · have hload : PolicySource.loadPolicy pw.source none = some e := he
    rw [hsource, FaithfulPolicySource.publish_load] at hload
    rw [hstored, ← Option.some.inj hload]
    exact List.mem_cons_self
  · rw [hlatest]
    rw [hstored] at he
    rcases List.mem_cons.mp he with rfl | hold
    · exact le_rfl
    · exact (h.le_latest e hold).trans hnewer.le
  · rw [hstored] at he he'
    rcases List.mem_cons.mp he with rfl | hold
    · rcases List.mem_cons.mp he' with rfl | hold'
      · rfl
      · exact absurd hver.symm (hfresh e' hold')
    · rcases List.mem_cons.mp he' with rfl | hold'
      · exact absurd hver (hfresh e hold)
      · exact h.unique e hold e' hold' hver
  · exact coherent_put h hsub (hk.imp id fun ⟨v, hloaded⟩ => ⟨v, hloaded.mono hsub⟩)

end

end ToolGateway.Policy
