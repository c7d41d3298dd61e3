/-
  ToolGateway.Policy.Coherence

  What each block of an operation does to a cluster, and the protocol that all
  of them keep: the replicas stay coherent, and whoever puts a version in force
  has been given it by the source.
-/

import ToolGateway.Policy.Replicas

namespace ToolGateway.Policy

open Coroutine Py

variable {S V : Type}

/-- Who noted it. -/
def PolicyMark.thread : PolicyMark V → ℕ
  | .fetched i _ | .applied i _ | .decided i _ => i

-- ============================================================================
-- What a block can do
-- ============================================================================

section
variable [LinearOrder V] [PolicySource S V] [PrintTables]

/-- The trail gains at most one mark of this thread, and no application. -/
def Notes (i : ℕ) (trail trail' : List (PolicyMark V)) : Prop :=
  trail' = trail ∨ ∃ m, trail' = m :: trail ∧ m.thread = i ∧ ∀ j v, m ≠ .applied j v

/-- One block of thread `i` on its replica. -/
inductive Moves (stored : List (V × Json)) (i : ℕ) (w w' : PolicyWorld S V) : Prop where
  | keeps (source : w'.source = w.source) (policy : w'.policy.inForce = w.policy.inForce)
      (trail : Notes i w.trail w'.trail)
  | publishes (doc : Json) (source : w'.source = (PolicySource.publishPolicy w.source doc).2)
      (policy : w'.policy.inForce = w.policy.inForce) (trail : Notes i w.trail w'.trail)
  | applies (v : V) (doc : Json) (compiled : Compiled) (source : w'.source = w.source)
      (policy : w'.policy.inForce = ⟨some compiled, some doc, (v : WithBot V)⟩)
      (trail : w'.trail = .applied i v :: w.trail) (held : (v, doc) ∈ stored)
      (compiles : compilePolicy doc = .ok compiled) (fetched : .fetched i v ∈ w.trail)

/-- What a move adds to the trail, and what it leaves in force. -/
structure Adds (stored : List (V × Json)) (i : ℕ) (w w' : PolicyWorld S V)
    (new : List (PolicyMark V)) : Prop where
  trail : w'.trail = new ++ w.trail
  own : ∀ m ∈ new, m.thread = i
  applied : ∀ j v, .applied j v ∈ new → .fetched j v ∈ w.trail
  policy : w'.policy.inForce = w.policy.inForce ∨
    ∃ v, .applied i v ∈ new ∧ Loaded stored v w'.policy.inForce

variable {stored : List (V × Json)} {i : ℕ} {pw pw' : PolicyWorld S V}

omit [LinearOrder V] [PolicySource S V] in
theorem Notes.adds (h : Notes i pw.trail pw'.trail)
    (hpolicy : pw'.policy.inForce = pw.policy.inForce) : ∃ new, Adds stored i pw pw' new := by
  rcases h with hsame | ⟨m, htrail, hown, happlied⟩
  · exact ⟨[], hsame, nofun, nofun, Or.inl hpolicy⟩
  · refine ⟨[m], htrail, fun m' hm => ?_, fun j v hm => ?_, Or.inl hpolicy⟩
    · rw [List.mem_singleton.mp hm]
      exact hown
    · exact absurd (List.mem_singleton.mp hm).symm (happlied j v)

omit [LinearOrder V] in
theorem Moves.adds (h : Moves stored i pw pw') : ∃ new, Adds stored i pw pw' new := by
  cases h with
  | keeps _ policy trail => exact trail.adds policy
  | publishes _ _ policy trail => exact trail.adds policy
  | applies v doc compiled source policy trail held compiles fetched =>
      refine ⟨[.applied i v], trail, fun m hm => ?_, fun j u hm => ?_, Or.inr ⟨v, ?_, ?_⟩⟩
      · rw [List.mem_singleton.mp hm]
        rfl
      · cases List.mem_singleton.mp hm
        exact fetched
      · exact List.mem_singleton_self _
      · exact ⟨doc, compiled, held, compiles, policy⟩

variable {w : Cluster S V} {k : ℕ}

theorem Moves.sound [FaithfulPolicySource S V] (h : Moves w.stored i (w.view k) pw) (hw : Sound w) :
    Sound (w.put k pw) := by
  cases h with
  | keeps source policy _ =>
      refine hw.put_same source ?_
      rw [policy]
      exact hw.coherent k
  | publishes doc source policy _ =>
      refine hw.put_publish source ?_
      rw [policy]
      exact hw.coherent k
  | applies v doc compiled source policy _ held compiles _ =>
      exact hw.put_same source (Or.inr ⟨v, doc, compiled, held, compiles, policy⟩)

omit [PrintTables] [LinearOrder V] in
theorem stored_put_subset (e : V × Json) (he : e ∈ w.stored) : e ∈ (w.put k pw).stored :=
  List.mem_append_right _ he

-- ============================================================================
-- The protocol
-- ============================================================================

/-- What thread `j` sees the others do. -/
structure Follows (j : ℕ) (w w' : Cluster S V) : Prop where
  stored : ∀ e ∈ w.stored, e ∈ w'.stored
  replicas : ∀ k, ∃ new, w'.trails k = new ++ w.trails k ∧ (∀ m ∈ new, m.thread ≠ j) ∧
    ((w'.replicas k).inForce = (w.replicas k).inForce ∨
      ∃ i v, .applied i v ∈ new ∧ Loaded w'.stored v (w'.replicas k).inForce)

omit [LinearOrder V] [PolicySource S V] in
theorem Follows.refl (j : ℕ) (w : Cluster S V) : Follows j w w :=
  ⟨fun _ he => he, fun _ => ⟨[], rfl, fun _ hm => absurd hm List.not_mem_nil, Or.inl rfl⟩⟩

omit [LinearOrder V] [PolicySource S V] in
theorem Follows.trans {j : ℕ} {w₁ w₂ w₃ : Cluster S V} (h : Follows j w₁ w₂) (h' : Follows j w₂ w₃) :
    Follows j w₁ w₃ where
  stored e he := h'.stored e (h.stored e he)
  replicas k := by
    obtain ⟨new, htrail, hother, hpolicy⟩ := h.replicas k
    obtain ⟨new', htrail', hother', hpolicy'⟩ := h'.replicas k
    refine ⟨new' ++ new, by rw [htrail', htrail, List.append_assoc], fun m hm => ?_, ?_⟩
    · exact (List.mem_append.mp hm).elim (hother' m) (hother m)
    · rcases hpolicy' with hsame' | ⟨i, v, hm, hloaded⟩
      · rw [hsame']
        refine hpolicy.imp id fun ⟨i, v, hm, hloaded⟩ => ?_
        exact ⟨i, v, List.mem_append_right new' hm, hloaded.mono h'.stored⟩
      · exact Or.inr ⟨i, v, List.mem_append_left new hm, hloaded⟩

/-- The replicas are sound, and whoever applied a version was given it. -/
def clusterProtocol (S V : Type) [LinearOrder V] [PolicySource S V] : Protocol (Cluster S V) where
  inv w := Sound w ∧ ∀ k i v, .applied i v ∈ w.trails k → .fetched i v ∈ w.trails k
  rely j _ w w' := Follows j w w'
  refl j _ w := .refl j w
  trans _ _ := .trans

/-- Every move on a replica keeps the protocol. -/
theorem Moves.guarantee [FaithfulPolicySource S V] {slot : Slot PolicyInput}
    (h : Moves w.stored slot.me (w.view k) pw) (hinv : (clusterProtocol S V).inv w) :
    (clusterProtocol S V).Guarantee slot w (w.put k pw) := by
  obtain ⟨new, hadds⟩ := h.adds
  have htrail : pw.trail = new ++ w.trails k := hadds.trail
  refine ⟨⟨h.sound hinv.1, fun l j v hm => ?_⟩, fun j hj => ⟨stored_put_subset, fun l => ?_⟩⟩
  · by_cases hl : l = k
    · rw [hl, Cluster.trails_put_self, htrail] at hm ⊢
      refine List.mem_append_right new ?_
      rcases List.mem_append.mp hm with hnew | hold
      · exact hadds.applied j v hnew
      · exact hinv.2 k j v hold
    · rw [Cluster.trails_put_ne hl] at hm ⊢
      exact hinv.2 l j v hm
  · by_cases hl : l = k
    · rw [hl, Cluster.trails_put_self, Cluster.replicas_put_self]
      refine ⟨new, htrail, fun m hm heq => hj (heq ▸ hadds.own m hm), ?_⟩
      exact hadds.policy.imp id fun ⟨v, hm, hloaded⟩ =>
        ⟨slot.me, v, hm, hloaded.mono stored_put_subset⟩
    · rw [Cluster.trails_put_ne hl, Cluster.replicas_put_ne hl]
      exact ⟨[], rfl, nofun, Or.inl rfl⟩

-- ============================================================================
-- The operations keep the protocol
-- ============================================================================

variable [FaithfulPolicySource S V] {β : Type} {Q : β → Cluster S V → Prop}

/-- The source has given thread `i` this document, under this version. -/
def Given (w : Cluster S V) (k i : ℕ) (v : V) (doc : Json) : Prop :=
  (v, doc) ∈ w.stored ∧ .fetched i v ∈ w.trails k

omit [LinearOrder V] [PolicySource S V] [FaithfulPolicySource S V] in
theorem Given.follows {j : ℕ} {w w' : Cluster S V} {v : V} {doc : Json} (h : Given w k i v doc)
    (hw : Follows j w w') : Given w' k i v doc := by
  obtain ⟨new, htrail, -⟩ := hw.replicas k
  refine ⟨hw.stored _ h.1, ?_⟩
  rw [htrail]
  exact List.mem_append_right new h.2

/-- One await point of an operation on replica `k`. -/
theorem wp_zoom {block : Slot PolicyInput → PolicyWorld S V → Option (β × PolicyWorld S V)}
    (h : ∀ (slot : Slot PolicyInput) (w₁ : Cluster S V) (x : β) (pw : PolicyWorld S V), slot.me = i →
      Follows i w w₁ → Sound w₁ → block slot (w₁.view k) = some (x, pw) →
      Moves w₁.stored i (w₁.view k) pw ∧ Q x (w₁.put k pw)) :
    Wp (clusterProtocol S V) i ((Co.atomic block).zoom (Cluster.view k) (Cluster.put k)) Q w := by
  rw [Co.zoom_atomic]
  refine Wp.atomic fun w₁ hrely hinv slot hme _ x w₂ hb => ?_
  obtain ⟨⟨y, pw⟩, hy, heq⟩ := Option.map_eq_some_iff.mp hb
  obtain ⟨rfl, rfl⟩ := Prod.mk.inj heq
  obtain ⟨hmoves, hQ⟩ := h slot w₁ y pw hme hrely hinv.1 hy
  subst hme
  exact ⟨hmoves.guarantee hinv, hQ⟩

/-- A block that leaves source, policy in force and trail alone. -/
theorem wp_zoom_quiet {f : Slot PolicyInput → PolicyWorld S V → β × PolicyWorld S V}
    (hf : ∀ slot pw, (f slot pw).2.source = pw.source ∧
      (f slot pw).2.policy.inForce = pw.policy.inForce ∧ (f slot pw).2.trail = pw.trail)
    (hQ : ∀ x w', Q x w') :
    Wp (clusterProtocol S V) i
      ((Co.atomic fun slot pw => some (f slot pw)).zoom (Cluster.view k) (Cluster.put k)) Q w := by
  refine wp_zoom fun slot w₁ x pw _ _ _ h => ⟨?_, hQ x _⟩
  have hpw : (f slot (w₁.view k)).2 = pw := by rw [Option.some.inj h]
  obtain ⟨hsource, hpolicy, htrail⟩ := hf slot (w₁.view k)
  exact .keeps (by rw [← hpw, hsource]) (by rw [← hpw, hpolicy]) (Or.inl (by rw [← hpw, htrail]))

namespace DeclarativePolicy

theorem wp_zoom_acquire {Q : Option (WithBot V) → Cluster S V → Prop} (hQ : ∀ x w', Q x w') :
    Wp (clusterProtocol S V) i ((Co.atomic acquire).zoom (Cluster.view k) (Cluster.put k)) Q w := by
  refine wp_zoom fun slot w₁ x pw _ _ _ h => ⟨?_, hQ x _⟩
  unfold acquire at h
  split at h
  · cases h
  · split at h
    · cases h
      exact .keeps rfl rfl (Or.inl rfl)
    · cases h
      exact .keeps rfl rfl (Or.inl rfl)

/-- What a load answers with was stored, and the trail knows who has it. -/
theorem wp_zoom_load {version : WithBot V} {Q : Option (V × Json) → Cluster S V → Prop}
    (hnone : ∀ w', Q none w') (hsome : ∀ v doc w', Given w' k i v doc → Q (some (v, doc)) w') :
    Wp (clusterProtocol S V) i ((Co.atomic (load version)).zoom (Cluster.view k) (Cluster.put k)) Q
      w := by
  refine wp_zoom fun slot w₁ x pw hme _ hsound h => ?_
  unfold load at h
  split at h
  · cases h
    exact ⟨.keeps rfl rfl (Or.inl rfl), hnone _⟩
  · split at h
    · next v doc hload =>
        cases h
        refine ⟨.keeps rfl rfl (Or.inr ⟨.fetched slot.me v, rfl, hme, nofun⟩), ?_⟩
        refine hsome v doc _ ⟨stored_put_subset _ ?_, ?_⟩
        · exact hsound.newest _ (FaithfulPolicySource.load_newest _ _ _ hload)
        · rw [Cluster.trails_put_self, hme]
          exact List.mem_cons_self
    · cases h
      exact ⟨.keeps rfl rfl (Or.inl rfl), hnone _⟩

theorem wp_zoom_publishToSource {doc : Json} {Q : Option V → Cluster S V → Prop}
    (hnone : ∀ w', Q none w') (hsome : ∀ v w', Given w' k i v doc → Q (some v) w') :
    Wp (clusterProtocol S V) i
      ((Co.atomic (publishToSource doc)).zoom (Cluster.view k) (Cluster.put k)) Q w := by
  refine wp_zoom fun slot w₁ x pw hme _ _ h => ?_
  unfold publishToSource at h
  split at h
  · cases h
    exact ⟨.keeps rfl rfl (Or.inl rfl), hnone _⟩
  · cases h
    refine ⟨.publishes doc rfl rfl (Or.inr ⟨.fetched slot.me _, rfl, hme, nofun⟩), hsome _ _ ⟨?_, ?_⟩⟩
    · rw [stored_put_publish rfl]
      exact List.mem_cons_self
    · rw [Cluster.trails_put_self, hme]
      exact List.mem_cons_self

theorem wp_zoom_release {Q : Unit → Cluster S V → Prop} (hQ : ∀ w', Q () w') :
    Wp (clusterProtocol S V) i ((Co.atomic release).zoom (Cluster.view k) (Cluster.put k)) Q w :=
  wp_zoom_quiet (fun _ _ => ⟨rfl, rfl, rfl⟩) fun _ => hQ

theorem wp_zoom_decideWith (answer : Option Compiled → PolicyOutcome V)
    {Q : PolicyOutcome V → Cluster S V → Prop} (hQ : ∀ o w', Q o w') :
    Wp (clusterProtocol S V) i
      ((Co.atomic (decideWith answer)).zoom (Cluster.view k) (Cluster.put k)) Q w := by
  refine wp_zoom fun slot w₁ x pw hme _ _ h => ?_
  cases h
  exact ⟨.keeps rfl rfl (Or.inr ⟨.decided slot.me _, rfl, hme, nofun⟩), hQ _ _⟩

/-- The fields that are set together come from one answer of the source. -/
theorem wp_zoom_apply {v : V} {doc : Json} {compiled : Compiled} {Q : Unit → Cluster S V → Prop}
    {block : Slot PolicyInput → PolicyWorld S V → Option (Unit × PolicyWorld S V)}
    (hblock : ∀ slot pw x pw', block slot pw = some (x, pw') → pw'.source = pw.source ∧
      pw'.policy.inForce = ⟨some compiled, some doc, (v : WithBot V)⟩ ∧
      pw'.trail = .applied slot.me v :: pw.trail)
    (hgiven : Given w k i v doc) (hcompiles : compilePolicy doc = .ok compiled)
    (hQ : ∀ w', Q () w') :
    Wp (clusterProtocol S V) i ((Co.atomic block).zoom (Cluster.view k) (Cluster.put k)) Q w := by
  refine wp_zoom fun slot w₁ x pw hme hfollows _ h => ?_
  obtain ⟨hsource, hpolicy, htrail⟩ := hblock slot _ x pw h
  obtain ⟨hheld, hfetched⟩ := hgiven.follows hfollows
  exact ⟨.applies v doc compiled hsource hpolicy (hme ▸ htrail) hheld hcompiles hfetched, hQ _⟩

theorem compile?_some {doc : Json} {compiled : Compiled} (h : compile? doc = some compiled) :
    compilePolicy doc = .ok compiled := by
  unfold compile? at h
  split at h
  · next c hc => rw [hc, Option.some.inj h]
  · cases h

theorem wp_zoom_refreshLocked {Q : Unit → Cluster S V → Prop} (hQ : ∀ w', Q () w') :
    Wp (clusterProtocol S V) i (refreshLocked.zoom (Cluster.view k) (Cluster.put k)) Q w := by
  unfold refreshLocked
  rw [Co.zoom_bind]
  refine Wp.bind (wp_zoom_acquire fun version w₂ => ?_)
  split
  · exact hQ w₂
  rw [Co.zoom_bind]
  refine Wp.bind (wp_zoom_load (fun w₃ => wp_zoom_release hQ) fun v doc w₃ hgiven => ?_)
  unfold settle
  dsimp only
  cases hc : compile? doc with
  | none => exact wp_zoom_release hQ
  | some compiled =>
      refine wp_zoom_apply (fun slot pw x pw' h => ?_) hgiven (compile?_some hc) hQ
      cases h
      exact ⟨rfl, rfl, rfl⟩

theorem wp_zoom_refreshIfDue {Q : Unit → Cluster S V → Prop} (hQ : ∀ w', Q () w') :
    Wp (clusterProtocol S V) i (refreshIfDue.zoom (Cluster.view k) (Cluster.put k)) Q w := by
  unfold refreshIfDue
  rw [Co.zoom_bind]
  refine Wp.bind (wp_zoom_quiet (fun _ _ => ⟨rfl, rfl, rfl⟩) fun fresh w₁ => ?_)
  split
  · exact hQ w₁
  · exact wp_zoom_refreshLocked hQ

theorem wp_zoom_publish (doc : Json) {Q : PolicyOutcome V → Cluster S V → Prop}
    (hQ : ∀ o w', Q o w') :
    Wp (clusterProtocol S V) i ((publish doc).zoom (Cluster.view k) (Cluster.put k)) Q w := by
  unfold publish
  split
  · exact hQ _ _
  · next compiled hcompiles =>
      rw [Co.zoom_bind]
      refine Wp.bind (wp_zoom_publishToSource (fun w₁ => hQ _ _) fun v w₁ hgiven => ?_)
      show Wp _ i (Co.zoom _ _ (Co.atomic (applyPublished v doc compiled) >>= _)) Q w₁
      rw [Co.zoom_bind]
      refine Wp.bind (wp_zoom_apply (fun slot pw x pw' h => ?_) hgiven hcompiles fun _ => hQ _ _)
      cases h
      exact ⟨rfl, rfl, rfl⟩

end DeclarativePolicy

theorem ReplicaOp.wp_program (o : ReplicaOp) {Q : PolicyOutcome V → Cluster S V → Prop}
    (hQ : ∀ x w', Q x w') : Wp (clusterProtocol S V) i o.program Q w := by
  obtain ⟨k, op⟩ := o
  show Wp _ i (op.program.zoom (Cluster.view k) (Cluster.put k)) Q w
  cases op with
  | publish doc => exact DeclarativePolicy.wp_zoom_publish doc hQ
  | refresh =>
      simp only [PolicyOp.program, DeclarativePolicy.refresh, Co.zoom_bind]
      refine Wp.bind (wp_zoom_quiet (fun _ _ => ⟨rfl, rfl, rfl⟩) fun _ _ => ?_)
      exact Wp.bind (DeclarativePolicy.wp_zoom_refreshLocked fun _ => hQ _ _)
  | grantFor call =>
      simp only [PolicyOp.program, DeclarativePolicy.grantFor, Co.zoom_bind]
      exact Wp.bind (DeclarativePolicy.wp_zoom_refreshIfDue fun _ =>
        DeclarativePolicy.wp_zoom_decideWith _ hQ)
  | mayCall call =>
      simp only [PolicyOp.program, DeclarativePolicy.mayCall, Co.zoom_bind]
      exact Wp.bind (DeclarativePolicy.wp_zoom_refreshIfDue fun _ =>
        DeclarativePolicy.wp_zoom_decideWith _ hQ)
  | foreignPublish doc =>
      refine wp_zoom fun slot w₁ x pw hme _ _ h => ?_
      cases h
      exact ⟨.publishes doc rfl rfl (Or.inl rfl), hQ _ _⟩

end

end ToolGateway.Policy
