/-
  ToolGateway.Policy.Source

  Where the declarative policy lives (`PolicySource`): a store of documents under
  opaque versions.  The memory source counts its publications; the SQL source
  keeps every publication as a row under an increasing id.  In both the versions
  are ordered by publication (`OrderedPolicySource`).
-/

import ToolGateway.Python.Value
import Mathlib.Order.WithBot

namespace ToolGateway.Policy

open Py

/-- A policy source with versions `V`; each operation is one atomic step. -/
class PolicySource (S : Type) (V : outParam Type) where
  /-- `load_policy(newer_than)` -/
  loadPolicy : S → Option V → Option (V × Json)
  /-- `publish_policy(doc)` -/
  publishPolicy : S → Json → V × S

/-- The version a reader without one is given. -/
def PolicySource.latest {S V : Type} [PolicySource S V] (s : S) : WithBot V :=
  match PolicySource.loadPolicy s none with
  | some (v, _) => (v : WithBot V)
  | none => ⊥

/-- Versions are ordered by publication. -/
class OrderedPolicySource (S V : Type) [LinearOrder V] [PolicySource S V] : Prop where
  load_latest : ∀ (s : S) (newerThan : Option V) (v : V) (doc : Json),
    PolicySource.loadPolicy s newerThan = some (v, doc) → PolicySource.latest s = (v : WithBot V)
  publish_newer : ∀ (s : S) (doc : Json),
    PolicySource.latest s < ((PolicySource.publishPolicy s doc).1 : WithBot V)
  publish_latest : ∀ (s : S) (doc : Json),
    PolicySource.latest (PolicySource.publishPolicy s doc).2
      = ((PolicySource.publishPolicy s doc).1 : WithBot V)

-- ============================================================================
-- The memory source
-- ============================================================================

/-- One process only; versions are decimal numerals, kept as the number. -/
structure MemoryPolicySource where
  doc : Option Json
  version : ℕ

namespace MemoryPolicySource

/-- `MemoryPolicySource(doc)` -/
def ofDoc (doc : Option Json) : MemoryPolicySource :=
  { doc := doc, version := if doc.isSome then 1 else 0 }

/-- `load_policy(newer_than)`: nothing when that is still the version. -/
def loadPolicy (s : MemoryPolicySource) (newerThan : Option ℕ) : Option (ℕ × Json) :=
  match s.doc with
  | none => none
  | some doc => if some s.version = newerThan then none else some (s.version, doc)

/-- `publish_policy`: the next version. -/
def publishPolicy (s : MemoryPolicySource) (doc : Json) : ℕ × MemoryPolicySource :=
  (s.version + 1, { doc := some doc, version := s.version + 1 })

instance : PolicySource MemoryPolicySource ℕ := ⟨loadPolicy, publishPolicy⟩

theorem latest_eq (s : MemoryPolicySource) :
    PolicySource.latest s = if s.doc.isSome then WithBot.some s.version else ⊥ := by
  cases hdoc : s.doc with
  | none => simp [PolicySource.latest, PolicySource.loadPolicy, loadPolicy, hdoc]
  | some doc => simp [PolicySource.latest, PolicySource.loadPolicy, loadPolicy, hdoc]

instance : OrderedPolicySource MemoryPolicySource ℕ where
  load_latest := by
    intro s newerThan v doc h
    rw [latest_eq]
    cases hdoc : s.doc with
    | none => simp [PolicySource.loadPolicy, loadPolicy, hdoc] at h
    | some d =>
        simp only [PolicySource.loadPolicy, loadPolicy, hdoc] at h
        split at h
        · cases h
        · have hv : s.version = v := congrArg Prod.fst (Option.some.inj h)
          rw [← hv]
          rfl
  publish_newer := by
    intro s doc
    rw [latest_eq]
    split
    · exact WithBot.coe_lt_coe.mpr (Nat.lt_succ_self s.version)
    · exact WithBot.bot_lt_coe _
  publish_latest := by
    intro s doc
    rw [latest_eq]
    rfl

end MemoryPolicySource

-- ============================================================================
-- The SQL source
-- ============================================================================

/-- A row of `tool_gateway_policy`. -/
structure PolicyRow where
  id : ℕ
  doc : Json

/-- The policy table, newest row first, and the sequence behind its primary key. -/
structure SqlPolicySource where
  rows : List PolicyRow
  nextId : ℕ
  ids_lt : ∀ r ∈ rows, r.id < nextId
  ids_desc : rows.Pairwise fun newer older => older.id < newer.id

namespace SqlPolicySource

/-- No policy was published. -/
def empty : SqlPolicySource := ⟨[], 1, by simp, List.Pairwise.nil⟩

/-- `ORDER BY id DESC LIMIT 1` is the head of the table. -/
def loadPolicy (s : SqlPolicySource) (newerThan : Option ℕ) : Option (ℕ × Json) :=
  match s.rows with
  | [] => none
  | r :: _ => if some r.id = newerThan then none else some (r.id, r.doc)

/-- Insert a row under the next id. -/
def publishPolicy (s : SqlPolicySource) (doc : Json) : ℕ × SqlPolicySource :=
  (s.nextId,
    { rows := { id := s.nextId, doc := doc } :: s.rows
      nextId := s.nextId + 1
      ids_lt := by
        intro r hr
        rcases List.mem_cons.mp hr with rfl | hold
        · exact Nat.lt_succ_self _
        · exact Nat.lt_succ_of_lt (s.ids_lt r hold)
      ids_desc := List.Pairwise.cons s.ids_lt s.ids_desc })

instance : PolicySource SqlPolicySource ℕ := ⟨loadPolicy, publishPolicy⟩

theorem latest_eq (s : SqlPolicySource) :
    PolicySource.latest s = match s.rows with
      | r :: _ => WithBot.some r.id
      | [] => ⊥ := by
  cases hrows : s.rows with
  | nil => simp [PolicySource.latest, PolicySource.loadPolicy, loadPolicy, hrows]
  | cons r rs => simp [PolicySource.latest, PolicySource.loadPolicy, loadPolicy, hrows]

instance : OrderedPolicySource SqlPolicySource ℕ where
  load_latest := by
    intro s newerThan v doc h
    rw [latest_eq]
    cases hrows : s.rows with
    | nil => simp [PolicySource.loadPolicy, loadPolicy, hrows] at h
    | cons r rs =>
        simp only [PolicySource.loadPolicy, loadPolicy, hrows] at h
        split at h
        · cases h
        · have hv : r.id = v := congrArg Prod.fst (Option.some.inj h)
          rw [← hv]
  publish_newer := by
    intro s doc
    rw [latest_eq]
    cases hrows : s.rows with
    | nil => exact WithBot.bot_lt_coe _
    | cons r rs => exact WithBot.coe_lt_coe.mpr (s.ids_lt r (by simp [hrows]))
  publish_latest := by
    intro s doc
    rw [latest_eq]
    rfl

end SqlPolicySource

end ToolGateway.Policy
