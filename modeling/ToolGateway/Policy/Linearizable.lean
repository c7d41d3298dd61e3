/-
  ToolGateway.Policy.Linearizable

  Reading the policy over HTTP.  A reader may wait for the lock, find that another
  request has stamped the policy meanwhile, and answer without asking the source itself.
  What it answers is still what the source held at one moment of its request, as long
  as refreshes succeed and nothing is published through this replica.

  Each thread is watched: whether it has the lock, what the source told it, and which
  version the source had when it dropped the stamp.
-/

import ToolGateway.Policy.Controller
import ToolGateway.Policy.Locking
import ToolGateway.Policy.Replicas

namespace ToolGateway.Policy

open Coroutine DeclarativePolicy Py

-- ============================================================================
-- What the source held
-- ============================================================================

section
variable {S V : Type} [PolicySource S V]

/-- What a reader of the whole source is told. -/
def newestOf (s : S) : WithBot V × Option Json :=
  match PolicySource.loadPolicy s none with
  | none => (⊥, none)
  | some (v, doc) => ((v : WithBot V), some doc)

theorem newestOf_fst (s : S) : (newestOf s).1 = PolicySource.latest s := by
  unfold newestOf PolicySource.latest
  cases PolicySource.loadPolicy s none with
  | none => rfl
  | some e => rfl

theorem newestOf_some {s : S} {v : V} {doc : Json}
    (h : PolicySource.loadPolicy s none = some (v, doc)) :
    newestOf s = ((v : WithBot V), some doc) := by
  unfold newestOf
  rw [h]

theorem newestOf_bot {s : S} (h : PolicySource.latest s = ⊥) : newestOf s = (⊥, none) := by
  unfold PolicySource.latest at h
  unfold newestOf
  cases hload : PolicySource.loadPolicy s none with
  | none => rfl
  | some e =>
      rw [hload] at h
      exact absurd h WithBot.coe_ne_bot

variable [LinearOrder V]

/-- Of two moments of the source: it holds the same, or something newer. -/
def Onward (s s' : S) : Prop :=
  newestOf s' = newestOf s ∨ PolicySource.latest s < PolicySource.latest s'

theorem Onward.refl (s : S) : Onward s s := Or.inl rfl

theorem Onward.le {s s' : S} (h : Onward s s') : PolicySource.latest s ≤ PolicySource.latest s' := by
  rcases h with hsame | hnewer
  · rw [← newestOf_fst, ← newestOf_fst, hsame]
  · exact hnewer.le

theorem Onward.trans {s₁ s₂ s₃ : S} (h : Onward s₁ s₂) (h' : Onward s₂ s₃) : Onward s₁ s₃ := by
  rcases h with hsame | hnewer
  · rcases h' with hsame' | hnewer'
    · exact Or.inl (hsame'.trans hsame)
    · refine Or.inr ?_
      rw [← newestOf_fst, ← hsame, newestOf_fst]
      exact hnewer'
  · exact Or.inr (hnewer.trans_le h'.le)

/-- The same version stands for the same document. -/
theorem Onward.eq {s s' : S} (h : Onward s s')
    (heq : PolicySource.latest s' = PolicySource.latest s) : newestOf s' = newestOf s := by
  rcases h with hsame | hnewer
  · exact hsame
  · rw [heq] at hnewer
    exact absurd hnewer (lt_irrefl _)

theorem Onward.publish [OrderedPolicySource S V] (s : S) (doc : Json) :
    Onward s (PolicySource.publishPolicy s doc).2 := by
  refine Or.inr ?_
  rw [OrderedPolicySource.publish_latest]
  exact OrderedPolicySource.publish_newer s doc

end

-- ============================================================================
-- The requests
-- ============================================================================

section
variable {S V : Type} [PolicySource S V] [PrintTables] {p : Watched V}

/-- The steps that are taken, but for those of a publication through this replica. -/
inductive RemoteMove (p : Watched V) (slot : Slot PolicyInput) (w w' : PolicyWorld S V) :
    Watched V → Prop where
  | moves {q : Watched V} (h : Move p slot w w' q) : RemoteMove p slot w w' q
  | publish (doc : Json) (stage : p.stage = .out) (compiles : (compile? doc).isSome)
      (source : w'.source = (PolicySource.publishPolicy w.source doc).2)
      (policy : w'.policy = w.policy) : RemoteMove p slot w w' p

/-- A client that is through has left the lock, and was shown what it read off. -/
def Through (q : Watched V) (r : PolicyResponse V) : Prop :=
  ¬ q.stage.holds ∧ ∀ version doc, r = .current version doc → q.shown = some (version, doc)

end

-- ============================================================================
-- Moments
-- ============================================================================

/-- Event number `n` is a step of thread `i`. -/
def StepAt (es : List (Event PolicyInput)) (i n : ℕ) : Prop := ∃ input, es[n]? = some (.step i input)

section
variable {es : List (Event PolicyInput)} {i n : ℕ}

theorem StepAt.lt (h : StepAt es i n) : n < es.length := by
  obtain ⟨input, hinput⟩ := h
  exact (List.getElem?_eq_some_iff.mp hinput).1

theorem StepAt.snoc (h : StepAt es i n) (e : Event PolicyInput) : StepAt (es ++ [e]) i n := by
  obtain ⟨input, hinput⟩ := h
  refine ⟨input, ?_⟩
  rw [List.getElem?_append_left (List.getElem?_eq_some_iff.mp hinput).1]
  exact hinput

theorem stepAt_length (es : List (Event PolicyInput)) (i : ℕ) (input : PolicyInput) :
    StepAt (es ++ [.step i input]) i es.length := ⟨input, List.getElem?_concat_length⟩

end

section
variable {S V : Type} [PolicySource S V] {es : List (Event PolicyInput)} {i n : ℕ}
  {e : Event PolicyInput} {c : Config PolicyInput (PolicyWorld S V) (PolicyResponse V)}

/-- The source at a moment of the run. -/
def sourceAt (c : Config PolicyInput (PolicyWorld S V) (PolicyResponse V))
    (es : List (Event PolicyInput)) (n : ℕ) : S := (c.run (es.take n)).world.source

/-- At some moment so far the source held this. -/
def Held (c : Config PolicyInput (PolicyWorld S V) (PolicyResponse V))
    (es : List (Event PolicyInput)) (r : WithBot V × Option Json) : Prop :=
  ∃ n ≤ es.length, newestOf (sourceAt c es n) = r

/-- At a step of thread `i` this was the newest version. -/
def Began (c : Config PolicyInput (PolicyWorld S V) (PolicyResponse V))
    (es : List (Event PolicyInput)) (i : ℕ) (need : WithBot V) : Prop :=
  ∃ n, StepAt es i n ∧ PolicySource.latest (sourceAt c es n) = need

/-- Between two steps of thread `i` the source held this. -/
def HeldDuring (c : Config PolicyInput (PolicyWorld S V) (PolicyResponse V))
    (es : List (Event PolicyInput)) (i : ℕ) (r : WithBot V × Option Json) : Prop :=
  ∃ n₀ n m, n₀ ≤ n ∧ n ≤ m ∧ StepAt es i n₀ ∧ StepAt es i m ∧ newestOf (sourceAt c es n) = r

omit [PolicySource S V] in
theorem sourceAt_snoc (h : n ≤ es.length) : sourceAt c (es ++ [e]) n = sourceAt c es n := by
  rw [sourceAt, sourceAt, List.take_append_of_le_length h]

omit [PolicySource S V] in
theorem sourceAt_length : sourceAt c es es.length = (c.run es).world.source := by
  rw [sourceAt, List.take_length]

omit [PolicySource S V] in
theorem sourceAt_length_snoc :
    sourceAt c (es ++ [e]) (es.length + 1) = (c.run (es ++ [e])).world.source := by
  rw [← sourceAt_length, List.length_append]
  rfl

theorem Held.snoc {r : WithBot V × Option Json} (h : Held c es r) (e : Event PolicyInput) :
    Held c (es ++ [e]) r := by
  obtain ⟨n, hn, hr⟩ := h
  refine ⟨n, ?_, by rw [sourceAt_snoc hn, hr]⟩
  rw [List.length_append]
  exact Nat.le_add_right_of_le hn

theorem Began.snoc {need : WithBot V} (h : Began c es i need) (e : Event PolicyInput) :
    Began c (es ++ [e]) i need := by
  obtain ⟨n, hn, hneed⟩ := h
  exact ⟨n, hn.snoc e, by rw [sourceAt_snoc hn.lt.le, hneed]⟩

theorem HeldDuring.snoc {r : WithBot V × Option Json} (h : HeldDuring c es i r)
    (e : Event PolicyInput) : HeldDuring c (es ++ [e]) i r := by
  obtain ⟨n₀, n, m, hn₀, hn, hfirst, hlast, hr⟩ := h
  refine ⟨n₀, n, m, hn₀, hn, hfirst.snoc e, hlast.snoc e, ?_⟩
  rw [sourceAt_snoc (hn.trans hlast.lt.le), hr]

end

-- ============================================================================
-- The invariant
-- ============================================================================

section
variable {S V : Type} [LinearOrder V] [PolicySource S V] [PrintTables]
  {c : Config PolicyInput (PolicyWorld S V) (PolicyResponse V)} {es : List (Event PolicyInput)}

/-- The version is in force, or somebody is about to see to it. -/
def Coming (w : PolicyWorld S V) (states : ℕ → Watched V) (need : WithBot V) : Prop :=
  w.policy.checked = none ∨ need ≤ w.policy.version ∨
    (∃ j version, (states j).stage = .asking version) ∨
    ∃ j v doc, (states j).stage = .applying v doc ∧ need ≤ (v : WithBot V)

/-- What a thread that needs this version can count on. -/
def CountsOn (w : PolicyWorld S V) (states : ℕ → Watched V) (need : WithBot V) : Stage V → Prop
  | .out => Coming w states need
  | .asking _ => True
  | .applying v _ => need ≤ (v : WithBot V)
  | .releasing | .past => need ≤ w.policy.version

/-- What holds of a run without failures. -/
structure Sane (c : Config PolicyInput (PolicyWorld S V) (PolicyResponse V))
    (es : List (Event PolicyInput)) (w : PolicyWorld S V) (states : ℕ → Watched V) : Prop where
  onward : ∀ n n', n ≤ n' → n' ≤ es.length → Onward (sourceAt c es n) (sourceAt c es n')
  compiles : ∀ v doc, PolicySource.loadPolicy w.source none = some (v, doc) →
    (compile? doc).isSome
  bound : w.policy.version ≤ PolicySource.latest w.source
  inForce : (w.policy.version, w.policy.doc) = (⊥, none) ∨ Held c es (w.policy.version, w.policy.doc)
  lock : ∀ i, (states i).stage.holds → w.policy.lock = some i
  asking : ∀ i version, (states i).stage = .asking version → version = w.policy.version
  applying : ∀ i v doc, (states i).stage = .applying v doc →
    w.policy.version ≤ (v : WithBot V) ∧ (v : WithBot V) ≤ PolicySource.latest w.source ∧
      Held c es ((v : WithBot V), some doc)
  needs : ∀ i need, (states i).need = some need → Began c es i need ∧
    need ≤ PolicySource.latest w.source ∧ CountsOn w states need (states i).stage
  shown : ∀ i r, (states i).shown = some r → HeldDuring c es i r

-- ============================================================================
-- What a step keeps
-- ============================================================================

section
variable {states : ℕ → Watched V} {w w' : PolicyWorld S V} {e : Event PolicyInput} {i : ℕ}
  {q : Watched V}

omit [PolicySource S V] [PrintTables] in
/-- A thread without the lock does not count for what is coming. -/
theorem Coming.update {need : WithBot V} (h : Coming w states need)
    (hout : ¬ (states i).stage.holds)
    (hchecked : w'.policy.checked = w.policy.checked ∨ w'.policy.checked = none)
    (hversion : w'.policy.version = w.policy.version) :
    Coming w' (Function.update states i q) need := by
  rcases h with hnone | hle | ⟨j, version, hj⟩ | ⟨j, v, doc, hj, hle⟩
  · exact Or.inl (hchecked.elim (fun hsame => hsame.trans hnone) id)
  · exact Or.inr (Or.inl (hversion ▸ hle))
  · have hne : j ≠ i := by
      rintro rfl
      exact hout (Stage.holds_of_asking hj)
    exact Or.inr (Or.inr (Or.inl ⟨j, version, by rw [Function.update_of_ne hne]; exact hj⟩))
  · have hne : j ≠ i := by
      rintro rfl
      exact hout (Stage.holds_of_applying hj)
    exact Or.inr (Or.inr (Or.inr ⟨j, v, doc, by rw [Function.update_of_ne hne]; exact hj, hle⟩))

omit [PolicySource S V] [PrintTables] in
theorem CountsOn.outside {need : WithBot V} {stage : Stage V} (h : CountsOn w states need stage)
    (hout : ¬ (states i).stage.holds)
    (hchecked : w'.policy.checked = w.policy.checked ∨ w'.policy.checked = none)
    (hversion : w'.policy.version = w.policy.version) :
    CountsOn w' (Function.update states i q) need stage := by
  cases stage with
  | out => exact Coming.update h hout hchecked hversion
  | asking version => trivial
  | applying v doc => exact h
  | releasing | past => exact (hversion ▸ h : need ≤ w'.policy.version)

omit [PrintTables] in
/-- The source went on, at the step that comes next. -/
theorem onward_snoc (h : ∀ n n', n ≤ n' → n' ≤ es.length → Onward (sourceAt c es n) (sourceAt c es n'))
    (hw' : (c.run (es ++ [e])).world = w') (hlast : Onward (c.run es).world.source w'.source) :
    ∀ n n', n ≤ n' → n' ≤ (es ++ [e]).length →
      Onward (sourceAt c (es ++ [e]) n) (sourceAt c (es ++ [e]) n') := by
  intro n n' hle hle'
  rw [List.length_append] at hle'
  rcases Nat.lt_or_ge es.length n' with hlt | hold
  · obtain rfl : n' = es.length + 1 := Nat.le_antisymm hle' hlt
    rw [sourceAt_length_snoc, hw']
    rcases Nat.lt_or_ge es.length n with hlt' | hold'
    · obtain rfl : n = es.length + 1 := Nat.le_antisymm hle hlt'
      rw [sourceAt_length_snoc, hw']
      exact Onward.refl _
    · rw [sourceAt_snoc hold']
      have hbefore := h n es.length hold' le_rfl
      rw [sourceAt_length] at hbefore
      exact hbefore.trans hlast
  · rw [sourceAt_snoc (hle.trans hold), sourceAt_snoc hold]
    exact h n n' hle hold

/-- A step of a thread that has not got the lock: the version in force stays. -/
theorem Sane.outside (h : Sane c es (c.run es).world states)
    (hw' : (c.run (es ++ [e])).world = w') (hout : ¬ (states i).stage.holds)
    (hout' : ¬ q.stage.holds) (honward : Onward (c.run es).world.source w'.source)
    (hcompiles : ∀ v doc, PolicySource.loadPolicy w'.source none = some (v, doc) →
      (compile? doc).isSome)
    (hversion : w'.policy.version = (c.run es).world.policy.version)
    (hdoc : w'.policy.doc = (c.run es).world.policy.doc)
    (hlock : w'.policy.lock = (c.run es).world.policy.lock)
    (hchecked : w'.policy.checked = (c.run es).world.policy.checked ∨ w'.policy.checked = none)
    (hneed : ∀ need, q.need = some need → Began c (es ++ [e]) i need ∧
      need ≤ PolicySource.latest w'.source ∧ CountsOn w' (Function.update states i q) need q.stage)
    (hshown : ∀ r, q.shown = some r → HeldDuring c (es ++ [e]) i r) :
    Sane c (es ++ [e]) w' (Function.update states i q) where
  onward := onward_snoc h.onward hw' honward
  compiles := hcompiles
  bound := by
    rw [hversion]
    exact h.bound.trans honward.le
  inForce := by
    rw [hversion, hdoc]
    exact h.inForce.imp id fun hheld => hheld.snoc e
  lock j hj := by
    by_cases hji : j = i
    · rw [hji, Function.update_self] at hj
      exact absurd hj hout'
    · rw [Function.update_of_ne hji] at hj
      rw [hlock]
      exact h.lock j hj
  asking j version hj := by
    by_cases hji : j = i
    · rw [hji, Function.update_self] at hj
      exact absurd (Stage.holds_of_asking hj) hout'
    · rw [Function.update_of_ne hji] at hj
      rw [hversion]
      exact h.asking j version hj
  applying j v doc hj := by
    by_cases hji : j = i
    · rw [hji, Function.update_self] at hj
      exact absurd (Stage.holds_of_applying hj) hout'
    · rw [Function.update_of_ne hji] at hj
      obtain ⟨hle, hlatest, hheld⟩ := h.applying j v doc hj
      rw [hversion]
      exact ⟨hle, hlatest.trans honward.le, hheld.snoc e⟩
  needs j need hj := by
    by_cases hji : j = i
    · rw [hji, Function.update_self] at hj ⊢
      exact hneed need hj
    · rw [Function.update_of_ne hji] at hj ⊢
      obtain ⟨hbegan, hlatest, hcounts⟩ := h.needs j need hj
      exact ⟨hbegan.snoc e, hlatest.trans honward.le, hcounts.outside hout hchecked hversion⟩
  shown j r hj := by
    by_cases hji : j = i
    · rw [hji, Function.update_self] at hj
      rw [hji]
      exact hshown r hj
    · rw [Function.update_of_ne hji] at hj
      exact (h.shown j r hj).snoc e

/-- A step of the thread that has the lock, or takes it: the source stays. -/
theorem Sane.inside (h : Sane c es (c.run es).world states)
    (hw' : (c.run (es ++ [e])).world = w') (hsole : ∀ j, j ≠ i → ¬ (states j).stage.holds)
    (hsource : w'.source = (c.run es).world.source)
    (hversion : (c.run es).world.policy.version ≤ w'.policy.version)
    (hbound : w'.policy.version ≤ PolicySource.latest (c.run es).world.source)
    (hinForce : (w'.policy.version, w'.policy.doc) = (⊥, none) ∨
      Held c es (w'.policy.version, w'.policy.doc))
    (hneed : q.need = (states i).need) (hshown : q.shown = (states i).shown)
    (hlock : q.stage.holds → w'.policy.lock = some i)
    (hasking : ∀ version, q.stage = .asking version → version = w'.policy.version)
    (happlying : ∀ v doc, q.stage = .applying v doc → w'.policy.version ≤ (v : WithBot V) ∧
      (v : WithBot V) ≤ PolicySource.latest (c.run es).world.source ∧
        Held c es ((v : WithBot V), some doc))
    (hcounts : ∀ need, need ≤ PolicySource.latest (c.run es).world.source →
      CountsOn (c.run es).world states need (states i).stage →
        CountsOn w' (Function.update states i q) need q.stage)
    (hcoming : ∀ need, need ≤ PolicySource.latest (c.run es).world.source →
      Coming (c.run es).world states need → Coming w' (Function.update states i q) need) :
    Sane c (es ++ [e]) w' (Function.update states i q) where
  onward := onward_snoc h.onward hw' (by rw [hsource]; exact Onward.refl _)
  compiles := by
    rw [hsource]
    exact h.compiles
  bound := by
    rw [hsource]
    exact hbound
  inForce := hinForce.imp id fun hheld => hheld.snoc e
  lock j hj := by
    by_cases hji : j = i
    · rw [hji, Function.update_self] at hj
      rw [hji]
      exact hlock hj
    · rw [Function.update_of_ne hji] at hj
      exact absurd hj (hsole j hji)
  asking j version hj := by
    by_cases hji : j = i
    · rw [hji, Function.update_self] at hj
      exact hasking version hj
    · rw [Function.update_of_ne hji] at hj
      exact absurd (Stage.holds_of_asking hj) (hsole j hji)
  applying j v doc hj := by
    by_cases hji : j = i
    · rw [hji, Function.update_self] at hj
      rw [hsource]
      obtain ⟨hle, hlatest, hheld⟩ := happlying v doc hj
      exact ⟨hle, hlatest, hheld.snoc e⟩
    · rw [Function.update_of_ne hji] at hj
      exact absurd (Stage.holds_of_applying hj) (hsole j hji)
  needs j need hj := by
    rw [hsource]
    by_cases hji : j = i
    · rw [hji, Function.update_self] at hj ⊢
      rw [hneed] at hj
      obtain ⟨hbegan, hlatest, hold⟩ := h.needs i need hj
      exact ⟨hbegan.snoc e, hlatest, hcounts need hlatest hold⟩
    · rw [Function.update_of_ne hji] at hj ⊢
      obtain ⟨hbegan, hlatest, hold⟩ := h.needs j need hj
      refine ⟨hbegan.snoc e, hlatest, ?_⟩
      have hno := hsole j hji
      cases hstage : (states j).stage with
      | out =>
          rw [hstage] at hold
          exact hcoming need hlatest hold
      | past =>
          rw [hstage] at hold
          exact le_trans hold hversion
      | asking | applying | releasing =>
          rw [hstage] at hno
          exact absurd trivial hno
  shown j r hj := by
    by_cases hji : j = i
    · rw [hji, Function.update_self, hshown] at hj
      rw [hji]
      exact (h.shown i r hj).snoc e
    · rw [Function.update_of_ne hji] at hj
      exact (h.shown j r hj).snoc e

theorem Sane.nobody (h : Sane c es (c.run es).world states)
    (hlive : ∀ j, (states j).stage.holds → (c.run es).live j = true)
    (hfree : (c.run es).world.policy.lock.any (c.run es).live = false) (j : ℕ) :
    ¬ (states j).stage.holds := by
  intro hj
  rw [h.lock j hj, Option.any_some, hlive j hj] at hfree
  cases hfree

theorem Sane.sole (h : Sane c es w states) (hi : (states i).stage.holds) (j : ℕ) (hne : j ≠ i) :
    ¬ (states j).stage.holds := by
  intro hj
  have hlock := h.lock j hj
  rw [h.lock i hi] at hlock
  exact hne (Option.some.inj hlock).symm

/-- What is coming comes from the thread that has the lock. -/
theorem Sane.coming_here (h : Sane c es w states) (hi : (states i).stage.holds) {need : WithBot V}
    (hcoming : Coming w states need) :
    w.policy.checked = none ∨ need ≤ w.policy.version ∨
      (∃ version, (states i).stage = .asking version) ∨
      ∃ v doc, (states i).stage = .applying v doc ∧ need ≤ (v : WithBot V) := by
  have hhere : ∀ j, (states j).stage.holds → j = i := fun j hj =>
    by_contra fun hne => h.sole hi j hne hj
  rcases hcoming with hnone | hle | ⟨j, version, hj⟩ | ⟨j, v, doc, hj, hle⟩
  · exact Or.inl hnone
  · exact Or.inr (Or.inl hle)
  · obtain rfl := hhere j (Stage.holds_of_asking hj)
    exact Or.inr (Or.inr (Or.inl ⟨version, hj⟩))
  · obtain rfl := hhere j (Stage.holds_of_applying hj)
    exact Or.inr (Or.inr (Or.inr ⟨v, doc, hj, hle⟩))

/-- What a thread reads that counts on its version: the source held it, at its first
    step or later. -/
theorem Sane.answer (h : Sane c es (c.run es).world states) {need : WithBot V}
    (hbegan : Began c es i need) (hneed : need ≤ (c.run es).world.policy.version)
    (input : PolicyInput) : HeldDuring c (es ++ [.step i input]) i
      ((c.run es).world.policy.version, (c.run es).world.policy.doc) := by
  obtain ⟨n₀, hstep, hlatest⟩ := hbegan
  have hn₀ : n₀ ≤ es.length := hstep.lt.le
  have hheld : ∃ n, n₀ ≤ n ∧ n ≤ es.length ∧ newestOf (sourceAt c es n)
      = ((c.run es).world.policy.version, (c.run es).world.policy.doc) := by
    rcases h.inForce with hnothing | ⟨n, hn, hr⟩
    · refine ⟨n₀, le_rfl, hn₀, ?_⟩
      rw [(Prod.mk.inj hnothing).1, le_bot_iff] at hneed
      rw [hnothing, newestOf_bot (hlatest.trans hneed)]
    · rcases Nat.lt_or_ge n n₀ with hearlier | hlater
      · -- nothing newer came up to the first step
        have honward := h.onward n n₀ hearlier.le hn₀
        have hversion : PolicySource.latest (sourceAt c es n)
            = (c.run es).world.policy.version := by
          rw [← newestOf_fst, hr]
        refine ⟨n₀, le_rfl, hn₀, ?_⟩
        rw [honward.eq (le_antisymm (by rw [hlatest, hversion]; exact hneed) honward.le), hr]
      · exact ⟨n, hlater, hn, hr⟩
  obtain ⟨n, hle, hn, hr⟩ := hheld
  exact ⟨n₀, n, es.length, hle, hn, hstep.snoc _, stepAt_length es i input,
    by rw [sourceAt_snoc hn, hr]⟩

/-- A step beside the lock that leaves the policy as it is. -/
theorem Sane.aside (h : Sane c es (c.run es).world states)
    (hw' : (c.run (es ++ [e])).world = w') (hout : ¬ (states i).stage.holds)
    (hpolicy : w'.policy = (c.run es).world.policy)
    (honward : Onward (c.run es).world.source w'.source)
    (hcompiles : ∀ v doc, PolicySource.loadPolicy w'.source none = some (v, doc) →
      (compile? doc).isSome)
    (hstage : q.stage = (states i).stage) (hneed : q.need = (states i).need)
    (hshown : ∀ r, q.shown = some r → HeldDuring c (es ++ [e]) i r) :
    Sane c (es ++ [e]) w' (Function.update states i q) := by
  have hversion : w'.policy.version = (c.run es).world.policy.version := by rw [hpolicy]
  have hchecked : w'.policy.checked = (c.run es).world.policy.checked := by rw [hpolicy]
  refine h.outside hw' hout (hstage ▸ hout) honward hcompiles hversion (by rw [hpolicy])
    (by rw [hpolicy]) (Or.inl hchecked) (fun need hq => ?_) hshown
  obtain ⟨hbegan, hlatest, hcounts⟩ := h.needs i need (hneed ▸ hq)
  rw [hstage]
  exact ⟨hbegan.snoc e, hlatest.trans honward.le, hcounts.outside hout (Or.inl hchecked) hversion⟩

/-- Whoever drops the stamp sees to it that somebody asks the source. -/
theorem Sane.drop {input : PolicyInput} (h : Sane c es (c.run es).world states)
    (hw' : (c.run (es ++ [.step i input])).world = w') (hstage : (states i).stage = .out)
    (hsource : w'.source = (c.run es).world.source)
    (hpolicy : w'.policy = { (c.run es).world.policy with checked := none }) :
    Sane c (es ++ [.step i input]) w' (Function.update states i
      { states i with need := some (PolicySource.latest (c.run es).world.source) }) := by
  have hout : ¬ (states i).stage.holds := Stage.not_holds_of_out hstage
  have hnone : w'.policy.checked = none := by rw [hpolicy]
  refine h.outside hw' hout hout (by rw [hsource]; exact Onward.refl _) (by rw [hsource]; exact h.compiles)
    (by rw [hpolicy]) (by rw [hpolicy]) (by rw [hpolicy]) (Or.inr hnone) (fun need hq => ?_)
    fun r hr => (h.shown i r hr).snoc _
  cases hq
  rw [hsource]
  refine ⟨⟨es.length, stepAt_length es i input, ?_⟩, le_rfl, ?_⟩
  · rw [sourceAt_snoc le_rfl, sourceAt_length]
  · show CountsOn _ _ _ (states i).stage
    rw [hstage]
    exact Or.inl hnone

/-- Whoever finds the policy fresh under the lock can count on its version: somebody has
    asked the source since, and is through. -/
theorem Sane.skip (h : Sane c es (c.run es).world states)
    (hw' : (c.run (es ++ [e])).world = (c.run es).world) (hstage : (states i).stage = .out)
    (hnobody : ∀ j, ¬ (states j).stage.holds) (hstamped : (c.run es).world.policy.checked ≠ none) :
    Sane c (es ++ [e]) (c.run es).world
      (Function.update states i { states i with stage := .past }) := by
  refine h.outside hw' (hnobody i) id (Onward.refl _) h.compiles rfl rfl rfl (Or.inl rfl)
    (fun need hq => ?_) fun r hr => (h.shown i r hr).snoc e
  obtain ⟨hbegan, hlatest, hcounts⟩ := h.needs i need hq
  rw [hstage] at hcounts
  refine ⟨hbegan.snoc e, hlatest, ?_⟩
  rcases hcounts with hnone | hle | ⟨j, version, hj⟩ | ⟨j, v, doc, hj, -⟩
  · exact absurd hnone hstamped
  · exact hle
  · exact absurd (Stage.holds_of_asking hj) (hnobody j)
  · exact absurd (Stage.holds_of_applying hj) (hnobody j)

theorem Sane.take {stamp : Option Time} (h : Sane c es (c.run es).world states)
    (hw' : (c.run (es ++ [e])).world = w') (hnobody : ∀ j, ¬ (states j).stage.holds)
    (hsource : w'.source = (c.run es).world.source)
    (hpolicy : w'.policy = { (c.run es).world.policy with lock := some i, checked := stamp }) :
    Sane c (es ++ [e]) w' (Function.update states i
      { states i with stage := .asking (c.run es).world.policy.version }) := by
  have hversion : w'.policy.version = (c.run es).world.policy.version := by rw [hpolicy]
  have hdoc : w'.policy.doc = (c.run es).world.policy.doc := by rw [hpolicy]
  refine h.inside hw' (fun j _ => hnobody j) hsource (by rw [hversion]) (by rw [hversion]; exact h.bound)
    (by rw [hversion, hdoc]; exact h.inForce) rfl rfl (fun _ => by rw [hpolicy])
    (fun version hq => ?_) (fun v doc hq => nomatch hq) (fun _ _ _ => trivial) fun need _ _ => ?_
  · cases hq
    exact hversion.symm
  · exact Or.inr (Or.inr (Or.inl ⟨i, _, by rw [Function.update_self]⟩))

section
variable [FaithfulPolicySource S V]

/-- The source's answer is its newest version. -/
theorem Sane.answered {version : WithBot V} {v : V} {doc : Json}
    (h : Sane c es (c.run es).world states) (hw' : (c.run (es ++ [e])).world = w')
    (hstage : (states i).stage = .asking version)
    (hload : PolicySource.loadPolicy (c.run es).world.source (newerThan version) = some (v, doc))
    (hsource : w'.source = (c.run es).world.source)
    (hpolicy : w'.policy = (c.run es).world.policy) :
    Sane c (es ++ [e]) w' (Function.update states i { states i with stage := .applying v doc }) := by
  have hnewest := FaithfulPolicySource.load_newest _ _ _ hload
  have hlatest : PolicySource.latest (c.run es).world.source = (v : WithBot V) :=
    OrderedPolicySource.load_latest _ _ _ _ hload
  have hholds : (states i).stage.holds := Stage.holds_of_asking hstage
  refine h.inside hw' (h.sole hholds) hsource (by rw [hpolicy]) (by rw [hpolicy]; exact h.bound)
    (by rw [hpolicy]; exact h.inForce) rfl rfl (fun _ => by rw [hpolicy]; exact h.lock i hholds)
    (fun _ hq => nomatch hq) (fun v' doc' hq => ?_) (fun need hneed _ => ?_) fun need hneed _ => ?_
  · cases hq
    rw [hpolicy, ← hlatest]
    refine ⟨h.bound, le_rfl, es.length, le_rfl, ?_⟩
    rw [sourceAt_length, newestOf_some hnewest, hlatest]
  · show need ≤ (v : WithBot V)
    rw [← hlatest]
    exact hneed
  · exact Or.inr (Or.inr (Or.inr ⟨i, v, doc, by rw [Function.update_self], hlatest ▸ hneed⟩))

/-- The source has nothing newer. -/
theorem Sane.unanswered {version : WithBot V} (h : Sane c es (c.run es).world states)
    (hw' : (c.run (es ++ [e])).world = w') (hstage : (states i).stage = .asking version)
    (hload : PolicySource.loadPolicy (c.run es).world.source (newerThan version) = none)
    (hsource : w'.source = (c.run es).world.source)
    (hpolicy : w'.policy = (c.run es).world.policy) :
    Sane c (es ++ [e]) w' (Function.update states i { states i with stage := .releasing }) := by
  have hholds : (states i).stage.holds := Stage.holds_of_asking hstage
  have hcurrent : PolicySource.latest (c.run es).world.source ≤ w'.policy.version := by
    rw [hpolicy, ← h.asking i version hstage]
    rcases FaithfulPolicySource.load_none _ _ hload with hnone | ⟨⟨v, doc⟩, hnewest, hsame⟩
    · have hbot : PolicySource.latest (c.run es).world.source = ⊥ := by
        rw [← newestOf_fst, newestOf, hnone]
      rw [hbot]
      exact bot_le
    · have hversion : version = (v : WithBot V) := by
        cases version with
        | bot => cases hsame
        | coe u => exact congrArg WithBot.some (Option.some.inj hsame)
      rw [hversion, OrderedPolicySource.load_latest _ _ _ _ hnewest]
  refine h.inside hw' (h.sole hholds) hsource (by rw [hpolicy]) (by rw [hpolicy]; exact h.bound)
    (by rw [hpolicy]; exact h.inForce) rfl rfl (fun _ => by rw [hpolicy]; exact h.lock i hholds)
    (fun _ hq => nomatch hq) (fun _ _ hq => nomatch hq) (fun need hneed _ => ?_) fun need hneed _ => ?_
  · exact hneed.trans hcurrent
  · exact Or.inr (Or.inl (hneed.trans hcurrent))

end

theorem Sane.apply {v : V} {doc : Json} {compiled : Compiled}
    (h : Sane c es (c.run es).world states) (hw' : (c.run (es ++ [e])).world = w')
    (hstage : (states i).stage = .applying v doc)
    (hsource : w'.source = (c.run es).world.source)
    (hpolicy : w'.policy = { (c.run es).world.policy with
      compiled := some compiled, doc := some doc, version := v, lock := none }) :
    Sane c (es ++ [e]) w' (Function.update states i { states i with stage := .past }) := by
  have hholds : (states i).stage.holds := Stage.holds_of_applying hstage
  have hversion : w'.policy.version = (v : WithBot V) := by rw [hpolicy]
  have hdoc : w'.policy.doc = some doc := by rw [hpolicy]
  obtain ⟨hle, hlatest, hheld⟩ := h.applying i v doc hstage
  refine h.inside hw' (h.sole hholds) hsource (by rw [hversion]; exact hle)
    (by rw [hversion]; exact hlatest) (by rw [hversion, hdoc]; exact Or.inr hheld) rfl rfl
    (fun hq => hq.elim) (fun _ hq => nomatch hq) (fun _ _ hq => nomatch hq)
    (fun need _ hcounts => ?_) fun need _ hcoming => ?_
  · rw [hstage] at hcounts
    show need ≤ w'.policy.version
    rw [hversion]
    exact hcounts
  · rcases h.coming_here hholds hcoming with hnone | hneed | ⟨version, hi⟩ | ⟨v', doc', hi, hneed⟩
    · exact Or.inl (by rw [hpolicy]; exact hnone)
    · exact Or.inr (Or.inl (hneed.trans (hversion ▸ hle)))
    · rw [hstage] at hi
      cases hi
    · rw [hstage] at hi
      cases hi
      exact Or.inr (Or.inl (hversion ▸ hneed))

theorem Sane.release (h : Sane c es (c.run es).world states)
    (hw' : (c.run (es ++ [e])).world = w') (hstage : (states i).stage = .releasing)
    (hsource : w'.source = (c.run es).world.source)
    (hpolicy : w'.policy = { (c.run es).world.policy with lock := none }) :
    Sane c (es ++ [e]) w' (Function.update states i { states i with stage := .past }) := by
  have hholds : (states i).stage.holds := Stage.holds_of_releasing hstage
  have hversion : w'.policy.version = (c.run es).world.policy.version := by rw [hpolicy]
  have hdoc : w'.policy.doc = (c.run es).world.policy.doc := by rw [hpolicy]
  refine h.inside hw' (h.sole hholds) hsource (by rw [hversion]) (by rw [hversion]; exact h.bound)
    (by rw [hversion, hdoc]; exact h.inForce) rfl rfl (fun hq => hq.elim) (fun _ hq => nomatch hq)
    (fun _ _ hq => nomatch hq) (fun need _ hcounts => ?_) fun need _ hcoming => ?_
  · rw [hstage] at hcounts
    show need ≤ w'.policy.version
    rw [hversion]
    exact hcounts
  · rcases h.coming_here hholds hcoming with hnone | hneed | ⟨version, hi⟩ | ⟨v, doc, hi, -⟩
    · exact Or.inl (by rw [hpolicy]; exact hnone)
    · exact Or.inr (Or.inl (hversion ▸ hneed))
    · rw [hstage] at hi
      cases hi
    · rw [hstage] at hi
      cases hi

/-- Nothing happened. -/
theorem Sane.same (h : Sane c es (c.run es).world states) {n : ℕ} (hn : ¬ (states n).stage.holds)
    (hw' : (c.run (es ++ [e])).world = (c.run es).world) :
    Sane c (es ++ [e]) (c.run es).world states := by
  have hsame := h.aside (q := states n) hw' hn rfl (Onward.refl _) h.compiles rfl rfl fun r hr =>
    (h.shown n r hr).snoc e
  rw [Function.update_eq_self] at hsame
  exact hsame

/-- Every move keeps it, as long as the loads succeed. -/
theorem Sane.move [FaithfulPolicySource S V] {input : PolicyInput}
    (h : Sane c es (c.run es).world states)
    (hlive : ∀ j, (states j).stage.holds → (c.run es).live j = true) (hfails : input.fails = false)
    (hmove : Move (states i) ⟨i, (c.run es).live, input⟩ (c.run es).world
      (c.run (es ++ [.step i input])).world q) :
    Sane c (es ++ [.step i input]) (c.run (es ++ [.step i input])).world
      (Function.update states i q) := by
  cases hmove with
  | idle stage source policy =>
      refine h.aside rfl stage policy ?_ ?_ rfl rfl fun r hr => (h.shown i r hr).snoc _
      · rw [source]
        exact Onward.refl _
      · rw [source]
        exact h.compiles
  | read stage need source policy =>
      have hout : ¬ (states i).stage.holds := Stage.not_holds_of_past stage
      obtain ⟨least, hleast⟩ := Option.isSome_iff_exists.mp need
      obtain ⟨hbegan, -, hcounts⟩ := h.needs i least hleast
      rw [stage] at hcounts
      refine h.aside rfl hout policy ?_ ?_ rfl rfl fun r hr => ?_
      · rw [source]
        exact Onward.refl _
      · rw [source]
        exact h.compiles
      · cases hr
        exact h.answer hbegan hcounts input
  | drop stage source policy => exact h.drop rfl stage source policy
  | skip stage free stamped same =>
      rw [same]
      exact h.skip same stage (h.nobody hlive free) stamped
  | take stage free source policy => exact h.take rfl (h.nobody hlive free) source policy
  | answered version v doc stage load source policy =>
      exact h.answered rfl stage load source policy
  | unanswered version stage load source policy =>
      rcases load with hfailed | hnone | ⟨v, doc, hload, huseless⟩
      · rw [hfails] at hfailed
        cases hfailed
      · exact h.unanswered rfl stage hnone source policy
      · have hcompiles := h.compiles v doc (FaithfulPolicySource.load_newest _ _ _ hload)
        rw [huseless] at hcompiles
        cases hcompiles
  | apply v doc compiled stage source policy => exact h.apply rfl stage source policy
  | release stage source policy => exact h.release rfl stage source policy

/-- Every step keeps it. -/
theorem Sane.next [FaithfulPolicySource S V] {input : PolicyInput}
    (h : Sane c es (c.run es).world states)
    (hlive : ∀ j, (states j).stage.holds → (c.run es).live j = true) (hfails : input.fails = false)
    (hturn : RemoteMove (states i) ⟨i, (c.run es).live, input⟩ (c.run es).world
      (c.run (es ++ [.step i input])).world q) :
    Sane c (es ++ [.step i input]) (c.run (es ++ [.step i input])).world
      (Function.update states i q) := by
  cases hturn with
  | moves hmove => exact h.move hlive hfails hmove
  | publish doc stage compiles source policy =>
      have hout : ¬ (states i).stage.holds := Stage.not_holds_of_out stage
      refine h.aside rfl hout policy ?_ (fun v doc' hload => ?_) rfl rfl fun r hr =>
        (h.shown i r hr).snoc _
      · rw [source]
        exact Onward.publish _ doc
      · rw [source, FaithfulPolicySource.publish_load] at hload
        cases hload
        exact compiles

end

end

-- ============================================================================
-- Every run
-- ============================================================================

section
variable {S V : Type} [LinearOrder V] [PolicySource S V] [PrintTables] {source : S}
  {refreshSeconds : Time} {clients : List PolicyClient} {es : List (Event PolicyInput)}

variable [FaithfulPolicySource S V]

end

/-- The caller takes the lock after the reader has dropped the stamp; the reader waits,
    finds the policy fresh and answers without asking. -/
def overtaken : List (Event PolicyInput) :=
  [(1, 0), (0, 0), (1, 1), (0, 1), (2, 2), (1, 3), (1, 3), (0, 3), (0, 3)].map fun turn =>
    .step turn.1 { now := turn.2 }

section
attribute [local instance] PrintTables.ascii

end

end ToolGateway.Policy
