/-
  ToolGateway.Policy.Convergence

  Every run of a cluster: the replicas are coherent at every moment, a thread that
  got nothing that compiles from the source changes no policy, and a refresh
  after everything else has come to rest brings a replica to the newest version,
  whoever refreshes beside it, as long as no load fails.

  The last part follows the threads at the locks (`Locking`): as long as a replica is
  behind, its policy is unstamped, or somebody has its lock and the load under way.
-/

import ToolGateway.Policy.Coherence
import ToolGateway.Policy.Locking

namespace ToolGateway.Policy

open Coroutine Py

variable {S V : Type} [PolicySource S V]

/-- The policy of a document, under a version. -/
def InForce.of (v : V) (doc : Json) (compiled : Compiled) : InForce V :=
  ⟨some compiled, some doc, (v : WithBot V)⟩

omit [PolicySource S V] in
theorem InForce.version_of {p : DeclarativePolicy V} {v : V} {doc : Json} {compiled : Compiled}
    (h : p.inForce = .of v doc compiled) : p.version = (v : WithBot V) :=
  congrArg InForce.version h

-- ============================================================================
-- Runs
-- ============================================================================

section
variable [PrintTables]

/-- A refresh of the replica. -/
def ReplicaOp.refreshing (k : ℕ) : ReplicaOp := ⟨k, .refresh⟩

/-- The thread was given nothing that compiles, as far as replica `k` is concerned. -/
def GivenNothing (w : Cluster S V) (k i : ℕ) : Prop :=
  ∀ v doc, .fetched i v ∈ w.trails k → (v, doc) ∈ w.stored →
    ∀ compiled, compilePolicy doc ≠ .ok compiled

/-- Operations, and after them a refresh of each of some replicas. -/
def Cluster.refreshedAfter (w : Cluster S V) (ops : List ReplicaOp) (replicas : List ℕ) :
    Config PolicyInput (Cluster S V) (PolicyOutcome V) :=
  w.config (ops ++ replicas.map .refreshing)

variable [LinearOrder V] [FaithfulPolicySource S V] {w : Cluster S V}

omit [FaithfulPolicySource S V] in
/-- A replica with the latest version has the latest document: a version stands
    for one of them. -/
theorem Sound.inForce_of_version {k : ℕ} {v : V} {doc : Json} {compiled : Compiled} (hw : Sound w)
    (hload : PolicySource.loadPolicy w.source none = some (v, doc))
    (hcompiles : compilePolicy doc = .ok compiled)
    (hversion : (w.replicas k).version = (v : WithBot V)) :
    (w.replicas k).inForce = .of v doc compiled := by
  have hver : (w.replicas k).inForce.version = (v : WithBot V) := hversion
  rcases hw.coherent k with hnothing | ⟨v', doc', compiled', hheld, hcompiles', hpolicy⟩
  · rw [hnothing] at hver
    cases hver
  · rw [hpolicy] at hver
    have hv : v' = v := WithBot.coe_injective hver
    have hsame := hw.unique _ hheld _ (hw.newest _ hload) hv
    have hdoc : doc' = doc := congrArg Prod.snd hsame
    rw [hdoc, hcompiles] at hcompiles'
    rw [hpolicy, hv, hdoc, Except.ok.inj hcompiles']
    rfl

theorem cluster_keeps (hw : Sound w) (htrails : ∀ k, w.trails k = []) (ops : List ReplicaOp) :
    (w.config ops).Keeps (clusterProtocol S V) fun _ _ _ => True where
  inv := by
    refine ⟨hw, fun k i v hm => ?_⟩
    have hnil : PolicyMark.applied i v ∈ w.trails k := hm
    rw [htrails k] at hnil
    cases hnil
  threads i co hi := by
    simp only [Cluster.config, List.getElem?_map, Option.map_eq_some_iff] at hi
    obtain ⟨o, -, ho⟩ := hi
    rw [← Option.some.inj ho]
    exact o.wp_program fun _ _ => trivial

/-- Only a thread that was given a document that compiles changes a policy. -/
theorem inForce_unchanged (hw : Sound w) (htrails : ∀ k, w.trails k = []) (ops : List ReplicaOp)
    (es : List (Event PolicyInput)) (i : ℕ) (input : PolicyInput) (k : ℕ)
    (hnothing : GivenNothing ((w.config ops).run (es ++ [.step i input])).world k i) :
    (((w.config ops).run (es ++ [.step i input])).world.replicas k).inForce
      = (((w.config ops).run es).world.replicas k).inForce := by
  have hbefore := (cluster_keeps hw htrails ops).run (fun _ _ _ _ _ _ => trivial) es
  have hafter := hbefore.step (fun _ _ _ _ _ _ => trivial) (.step i input)
  rw [Config.run_append] at hnothing ⊢
  have hsees : ∀ j, j ≠ i → Follows j ((w.config ops).run es).world
      (((w.config ops).run es).step (.step i input)).world :=
    fun j hj => hbefore.rely_others fun input' heq => hj (by cases heq; rfl)
  obtain ⟨new, htrail, -, hpolicy⟩ := (hsees (i + 1) (by omega)).replicas k
  rcases hpolicy with hsame | ⟨j, v, hm, doc, compiled, hheld, hcompiles, -⟩
  · exact hsame
  · -- the thread that applied a version is the one that ran, and it was given the version
    have hji : j = i := by
      by_contra hne
      obtain ⟨new', htrail', hother, -⟩ := (hsees j hne).replicas k
      have hnew : new = new' := List.append_cancel_right (htrail.symm.trans htrail')
      exact hother _ (hnew ▸ hm) rfl
    rw [hji] at hm
    have happlied : PolicyMark.applied i v ∈
        ((((w.config ops).run es).step (.step i input)).world.trails k) := by
      rw [htrail]
      exact List.mem_append_left _ hm
    exact absurd hcompiles (hnothing v doc (hafter.inv.2 k i v happlied) hheld compiled)

end

-- ============================================================================
-- At rest
-- ============================================================================

section
variable [PrintTables]

/-- What is left of an operation that is in no load and in no publication: it has not
    begun, waits for the lock, or has its decision left to make. -/
inductive Resting : Co PolicyInput (PolicyWorld S V) (PolicyOutcome V) → Prop where
  | refresh : Resting DeclarativePolicy.refresh
  | refreshing : Resting (DeclarativePolicy.refreshLocked >>= fun _ => return .refreshed)
  | call (answer : Option Compiled → PolicyOutcome V) :
      Resting (DeclarativePolicy.refreshIfDue >>= fun _ =>
        Co.atomic (DeclarativePolicy.decideWith answer))
  | waiting (answer : Option Compiled → PolicyOutcome V) :
      Resting (DeclarativePolicy.refreshLocked >>= fun _ =>
        Co.atomic (DeclarativePolicy.decideWith answer))
  | deciding (answer : Option Compiled → PolicyOutcome V) :
      Resting (Co.atomic (DeclarativePolicy.decideWith answer))

/-- The thread rests, on this replica. -/
def Rests (c : Config PolicyInput (Cluster S V) (PolicyOutcome V)) (i k : ℕ) : Prop :=
  ∃ co, Resting co ∧ c.threads[i]? = some (some (co.zoom (Cluster.view k) (Cluster.put k)))

/-- In `es` only the operations ran, and no publication and no load is in flight;
    `v` and `doc` are the latest. -/
structure Settled (w : Cluster S V) (ops : List ReplicaOp) (replicas : List ℕ)
    (es : List (Event PolicyInput)) (v : V) (doc : Json) : Prop where
  first : ∀ e ∈ es, e.thread < ops.length
  idle : ∀ i o, ops[i]? = some o → ((w.refreshedAfter ops replicas).run es).live i = true →
    Rests ((w.refreshedAfter ops replicas).run es) i o.replica
  latest : PolicySource.loadPolicy ((w.refreshedAfter ops replicas).run es).world.source none
    = some (v, doc)

omit [PolicySource S V] [PrintTables] in
/-- No load fails, and nobody is cancelled who has a lock. -/
structure Calm (c : Config PolicyInput (Cluster S V) (PolicyOutcome V))
    (es : List (Event PolicyInput)) : Prop where
  answers : ∀ i input, .step i input ∈ es → input.fails = false
  spared : ∀ es₁ i es₂, es = es₁ ++ .kill i :: es₂ → ∀ k,
    ((c.run es₁).world.replicas k).lock ≠ some i

end

-- ============================================================================
-- The last refreshes
-- ============================================================================

/-- It has the lock, and the load is under way. -/
def Stage.loads : Stage V → Prop
  | .asking _ | .applying _ _ => True
  | _ => False

omit [PolicySource S V] in
theorem Stage.loads.holds {stage : Stage V} (h : stage.loads) : stage.holds := by
  cases stage with
  | asking | applying => trivial
  | out | releasing | past => exact h.elim

/-- The replica has the latest version, or somebody is about to see to it. -/
def CatchingUp (v : V) (on : ℕ → ℕ) (w : Cluster S V) (states : ℕ → Watched V) (k : ℕ) : Prop :=
  (w.replicas k).checked = none ∨ (w.replicas k).version = (v : WithBot V) ∨
    ∃ j, on j = k ∧ (states j).stage.loads

/-- What a refresh can count on. -/
def Assured (v : V) (on : ℕ → ℕ) (w : Cluster S V) (states : ℕ → Watched V) (k : ℕ) :
    Stage V → Prop
  | .out => CatchingUp v on w states k
  | .asking _ | .applying _ _ => True
  | .releasing | .past => (w.replicas k).version = (v : WithBot V)

/-- While the source stays as it is, with `v` the latest: thread `i` is `on` its replica. -/
structure Settling (v : V) (on : ℕ → ℕ) (s : S) (w : Cluster S V) (states : ℕ → Watched V) :
    Prop where
  source : w.source = s
  lock : ∀ i, (states i).stage.holds → (w.replicas (on i)).lock = some i
  asking : ∀ i version, (states i).stage = .asking version →
    version = (w.replicas (on i)).version
  applying : ∀ i u doc, (states i).stage = .applying u doc → u = v
  needs : ∀ i, (states i).need.isSome → Assured v on w states (on i) (states i).stage

section
variable {v : V} {on : ℕ → ℕ} {s : S} {w : Cluster S V} {states : ℕ → Watched V} {i : ℕ}
  {q : Watched V} {pw : PolicyWorld S V}

omit [PolicySource S V] in
/-- Nobody has the lock yet. -/
theorem Settling.start (v : V) (on : ℕ → ℕ) (hsource : w.source = s) :
    Settling v on s w fun _ => {} where
  source := hsource
  lock _ hi := hi.elim
  asking i version hi := by cases hi
  applying i u doc hi := by cases hi
  needs i hi := by cases hi

/-- A thread that does not load does not count for what is coming. -/
theorem CatchingUp.aside {k : ℕ} (h : CatchingUp v on w states k) (hi : ¬ (states i).stage.loads)
    (hchecked : pw.policy.checked = (w.replicas (on i)).checked ∨ pw.policy.checked = none)
    (hversion : pw.policy.version = (w.replicas (on i)).version) :
    CatchingUp v on (w.put (on i) pw) (Function.update states i q) k := by
  have hreplica : (w.put (on i) pw).replicas k = if k = on i then pw.policy else w.replicas k := by
    split
    · next hk => rw [hk, Cluster.replicas_put_self]
    · next hk => rw [Cluster.replicas_put_ne hk]
  unfold CatchingUp
  rw [hreplica]
  rcases h with hnone | hlatest | ⟨j, hj, hloads⟩
  · left
    split
    · next hk => exact hchecked.elim (fun hsame => hsame.trans (hk ▸ hnone)) id
    · exact hnone
  · right; left
    split
    · next hk => exact hversion.trans (hk ▸ hlatest)
    · exact hlatest
  · have hne : j ≠ i := by
      rintro rfl
      exact hi hloads
    exact Or.inr (Or.inr ⟨j, hj, by rwa [Function.update_of_ne hne]⟩)

/-- What is counted on at a replica is not touched elsewhere. -/
theorem Assured.elsewhere {stage : Stage V} {k : ℕ} (h : Assured v on w states k stage)
    (hk : k ≠ on i) : Assured v on (w.put (on i) pw) (Function.update states i q) k stage := by
  cases stage with
  | out =>
      show CatchingUp _ _ _ _ _
      unfold CatchingUp
      rw [Cluster.replicas_put_ne hk]
      refine h.imp_right fun h => h.imp_right fun ⟨l, hl, hloads⟩ => ⟨l, hl, ?_⟩
      have hli : l ≠ i := by
        rintro rfl
        exact hk hl.symm
      rwa [Function.update_of_ne hli]
  | asking | applying => trivial
  | releasing | past =>
      show ((w.put (on i) pw).replicas k).version = (v : WithBot V)
      rw [Cluster.replicas_put_ne hk]
      exact h

/-- Nor is it lost where a replica keeps its version or gets the latest. -/
theorem Assured.there {stage : Stage V} (h : Assured v on w states (on i) stage)
    (hversion : pw.policy.version = (w.replicas (on i)).version ∨
      pw.policy.version = (v : WithBot V))
    (hcoming : CatchingUp v on w states (on i) →
      CatchingUp v on (w.put (on i) pw) (Function.update states i q) (on i)) :
    Assured v on (w.put (on i) pw) (Function.update states i q) (on i) stage := by
  cases stage with
  | out => exact hcoming h
  | asking | applying => trivial
  | releasing | past =>
      show ((w.put (on i) pw).replicas (on i)).version = (v : WithBot V)
      rw [Cluster.replicas_put_self]
      exact hversion.elim (fun hsame => hsame.trans h) id

/-- A step of thread `i` on its replica. -/
theorem Settling.put (h : Settling v on s w states) (hsource : pw.source = s)
    (hversion : pw.policy.version = (w.replicas (on i)).version ∨
      pw.policy.version = (v : WithBot V))
    (hothers : ∀ j, j ≠ i → on j = on i → (states j).stage.holds →
      pw.policy.lock = (w.replicas (on i)).lock ∧
        pw.policy.version = (w.replicas (on i)).version)
    (hlock : q.stage.holds → pw.policy.lock = some i)
    (hasking : ∀ version, q.stage = .asking version → version = pw.policy.version)
    (happlying : ∀ u doc, q.stage = .applying u doc → u = v)
    (hcoming : CatchingUp v on w states (on i) →
      CatchingUp v on (w.put (on i) pw) (Function.update states i q) (on i))
    (hneeds : q.need.isSome →
      Assured v on (w.put (on i) pw) (Function.update states i q) (on i) q.stage) :
    Settling v on s (w.put (on i) pw) (Function.update states i q) where
  source := hsource
  lock j hj := by
    by_cases hji : j = i
    · rw [hji, Function.update_self] at hj
      rw [hji, Cluster.replicas_put_self]
      exact hlock hj
    · rw [Function.update_of_ne hji] at hj
      by_cases hon : on j = on i
      · rw [hon, Cluster.replicas_put_self, (hothers j hji hon hj).1, ← hon]
        exact h.lock j hj
      · rw [Cluster.replicas_put_ne hon]
        exact h.lock j hj
  asking j version hj := by
    by_cases hji : j = i
    · rw [hji, Function.update_self] at hj
      rw [hji, Cluster.replicas_put_self]
      exact hasking version hj
    · rw [Function.update_of_ne hji] at hj
      by_cases hon : on j = on i
      · rw [hon, Cluster.replicas_put_self,
          (hothers j hji hon (Stage.holds_of_asking hj)).2, ← hon]
        exact h.asking j version hj
      · rw [Cluster.replicas_put_ne hon]
        exact h.asking j version hj
  applying j u doc hj := by
    by_cases hji : j = i
    · rw [hji, Function.update_self] at hj
      exact happlying u doc hj
    · rw [Function.update_of_ne hji] at hj
      exact h.applying j u doc hj
  needs j hj := by
    by_cases hji : j = i
    · rw [hji, Function.update_self] at hj ⊢
      exact hneeds hj
    · rw [Function.update_of_ne hji] at hj ⊢
      have hassured := h.needs j hj
      by_cases hon : on j = on i
      · rw [hon] at hassured ⊢
        exact hassured.there hversion hcoming
      · exact hassured.elsewhere hon

omit [PolicySource S V] in
theorem Settling.sole (h : Settling v on s w states) (hi : (states i).stage.holds) (j : ℕ)
    (hne : j ≠ i) (hon : on j = on i) : ¬ (states j).stage.holds := by
  intro hj
  have hlock := h.lock j hj
  rw [hon, h.lock i hi] at hlock
  exact hne (Option.some.inj hlock).symm

omit [PolicySource S V] in
theorem Settling.nobody (h : Settling v on s w states) {k : ℕ} {live : ℕ → Bool}
    (hlive : ∀ j, (states j).stage.holds → live j = true)
    (hfree : (w.replicas k).lock.any live = false) (j : ℕ) (hon : on j = k) :
    ¬ (states j).stage.holds := by
  intro hj
  rw [← hon, h.lock j hj, Option.any_some, hlive j hj] at hfree
  cases hfree

/-- A step of a thread without the lock that changes nothing but the stamp. -/
theorem Settling.aside (h : Settling v on s w states) (hi : ¬ (states i).stage.holds)
    (hstage : q.stage = (states i).stage) (hneed : q.need = (states i).need)
    (hsource : pw.source = w.source) (hpolicy : pw.policy = w.replicas (on i)) :
    Settling v on s (w.put (on i) pw) (Function.update states i q) := by
  have hversion : pw.policy.version = (w.replicas (on i)).version := by rw [hpolicy]
  have hchecked : pw.policy.checked = (w.replicas (on i)).checked := by rw [hpolicy]
  have hcoming : CatchingUp v on w states (on i) →
      CatchingUp v on (w.put (on i) pw) (Function.update states i q) (on i) :=
    fun hc => hc.aside (fun hl => hi hl.holds) (Or.inl hchecked) hversion
  refine h.put (hsource.trans h.source) (Or.inl hversion)
    (fun j _ _ _ => ⟨by rw [hpolicy], hversion⟩) (fun hq => absurd (hstage ▸ hq) hi)
    (fun version hq => absurd (Stage.holds_of_asking (hstage ▸ hq)) hi)
    (fun u doc hq => absurd (Stage.holds_of_applying (hstage ▸ hq)) hi) hcoming fun hq => ?_
  rw [hstage]
  exact (h.needs i (hneed ▸ hq)).there (Or.inl hversion) hcoming

/-- A step of the thread that has the lock, to a stage that no load is behind. -/
theorem Settling.held (h : Settling v on s w states) (hi : (states i).stage.holds)
    (hsource : pw.source = w.source)
    (hversion : pw.policy.version = (w.replicas (on i)).version ∨
      pw.policy.version = (v : WithBot V))
    (hlock : q.stage.holds → pw.policy.lock = some i) (hloads : ¬ q.stage.loads)
    (hcoming : CatchingUp v on w states (on i) →
      CatchingUp v on (w.put (on i) pw) (Function.update states i q) (on i))
    (hneeds : q.need.isSome →
      Assured v on (w.put (on i) pw) (Function.update states i q) (on i) q.stage) :
    Settling v on s (w.put (on i) pw) (Function.update states i q) := by
  refine h.put (hsource.trans h.source) hversion
    (fun j hne hon hj => absurd hj (h.sole hi j hne hon)) hlock (fun version hq => ?_)
    (fun u doc hq => ?_) hcoming hneeds
  · rw [hq] at hloads
    exact absurd trivial hloads
  · rw [hq] at hloads
    exact absurd trivial hloads

omit [PolicySource S V] in
/-- Who finds the policy stamped and nobody at the lock, finds the latest. -/
theorem CatchingUp.caught_up {k : ℕ} (h : CatchingUp v on w states k)
    (hstamped : (w.replicas k).checked ≠ none)
    (hnobody : ∀ j, on j = k → ¬ (states j).stage.holds) :
    (w.replicas k).version = (v : WithBot V) := by
  rcases h with hnone | hlatest | ⟨j, hj, hloads⟩
  · exact absurd hnone hstamped
  · exact hlatest
  · exact absurd hloads.holds (hnobody j hj)

end

section
variable [LinearOrder V] [PrintTables] [FaithfulPolicySource S V]
  {v : V} {doc : Json} {compiled : Compiled} {on : ℕ → ℕ} {s : S} {w : Cluster S V}
  {states : ℕ → Watched V} {i : ℕ} {q : Watched V} {pw : PolicyWorld S V}

omit [PrintTables] in
/-- Asked for what is newer than `version`, the source answers with the newest document,
    or the caller has it. -/
theorem answered_cases (hload : PolicySource.loadPolicy s none = some (v, doc))
    {version : WithBot V} {loaded : Option (V × Json)}
    (h : PolicySource.loadPolicy s (DeclarativePolicy.newerThan version) = loaded) :
    loaded = some (v, doc) ∨ (loaded = none ∧ version = (v : WithBot V)) := by
  cases loaded with
  | none =>
      refine Or.inr ⟨rfl, ?_⟩
      rcases FaithfulPolicySource.load_none s _ h with hnothing | ⟨e, he, hnewer⟩
      · rw [hload] at hnothing
        cases hnothing
      · have hev : e.1 = v := congrArg Prod.fst (Option.some.inj (he.symm.trans hload))
        cases version with
        | bot => cases hnewer
        | coe u => exact congrArg WithBot.some ((Option.some.inj hnewer).trans hev)
  | some e => exact Or.inl ((FaithfulPolicySource.load_newest s _ e h).symm.trans hload)

/-- Who asks and gets nothing to apply has the latest. -/
theorem Settling.nothing_newer (h : Settling v on s w states)
    (hload : PolicySource.loadPolicy s none = some (v, doc))
    (hcompiles : compilePolicy doc = .ok compiled) {version : WithBot V}
    (hstage : (states i).stage = .asking version)
    (hnothing : PolicySource.loadPolicy s (DeclarativePolicy.newerThan version) = none ∨
      ∃ u d, PolicySource.loadPolicy s (DeclarativePolicy.newerThan version) = some (u, d) ∧
        DeclarativePolicy.compile? d = none) :
    (w.replicas (on i)).version = (v : WithBot V) := by
  rw [← h.asking i version hstage]
  rcases hnothing with hnone | ⟨u, d, hsome, huseless⟩
  · rcases answered_cases hload hnone with hsome | ⟨-, hversion⟩
    · cases hsome
    · exact hversion
  · rcases answered_cases hload hsome with hsame | ⟨hnone, -⟩
    · have hdoc : d = doc := congrArg Prod.snd (Option.some.inj hsame)
      rw [hdoc, DeclarativePolicy.compile?, hcompiles] at huseless
      cases huseless
    · cases hnone

/-- Every move keeps it, as long as the loads succeed. -/
theorem Settling.next (h : Settling v on s w states)
    (hload : PolicySource.loadPolicy s none = some (v, doc))
    (hcompiles : compilePolicy doc = .ok compiled) {live : ℕ → Bool} {input : PolicyInput}
    (hlive : ∀ j, (states j).stage.holds → live j = true) (hfails : input.fails = false)
    (hmove : Move (states i) ⟨i, live, input⟩ (w.view (on i)) pw q) :
    Settling v on s (w.put (on i) pw) (Function.update states i q) := by
  have hsource : (w.view (on i)).source = s := h.source
  cases hmove with
  | idle stage source policy => exact h.aside stage rfl rfl source policy
  | read stage need source policy =>
      exact h.aside (Stage.not_holds_of_past stage) rfl rfl source policy
  | drop stage source policy =>
      have hout := Stage.not_holds_of_out stage
      have hversion : pw.policy.version = (w.replicas (on i)).version := by rw [policy]; rfl
      have hnone : ((w.put (on i) pw).replicas (on i)).checked = none := by
        rw [Cluster.replicas_put_self, policy]
      refine h.put (source.trans h.source) (Or.inl hversion)
        (fun j _ _ _ => ⟨by rw [policy]; rfl, hversion⟩) (fun hq => absurd hq hout)
        (fun version hq => absurd (Stage.holds_of_asking hq) hout)
        (fun u d hq => absurd (Stage.holds_of_applying hq) hout) (fun _ => Or.inl hnone) fun _ => ?_
      show Assured _ _ _ _ _ (states i).stage
      rw [stage]
      exact Or.inl hnone
  | skip stage free stamped same =>
      have hnobody := h.nobody hlive free
      have hlatest : CatchingUp v on w states (on i) →
          ((w.put (on i) pw).replicas (on i)).version = (v : WithBot V) := by
        intro hc
        rw [Cluster.replicas_put_self, same]
        exact hc.caught_up stamped hnobody
      refine h.put (by rw [same]; exact h.source) (Or.inl (by rw [same]; rfl))
        (fun j _ hon hj => absurd hj (hnobody j hon)) (fun hq => hq.elim)
        (fun _ hq => nomatch hq) (fun _ _ hq => nomatch hq)
        (fun hc => Or.inr (Or.inl (hlatest hc))) fun hq => ?_
      have hassured := h.needs i hq
      rw [stage] at hassured
      exact hlatest hassured
  | take stage free source policy =>
      have hversion : pw.policy.version = (w.replicas (on i)).version := by rw [policy]; rfl
      refine h.put (source.trans h.source) (Or.inl hversion)
        (fun j _ hon hj => absurd hj (h.nobody hlive free j hon)) (fun _ => by rw [policy])
        (fun version hq => ?_) (fun _ _ hq => nomatch hq) (fun _ => ?_) fun _ => trivial
      · cases hq
        exact hversion.symm
      · exact Or.inr (Or.inr ⟨i, rfl, by rw [Function.update_self]; trivial⟩)
  | answered version u d stage load source policy =>
      have hholds := Stage.holds_of_asking stage
      refine h.put (source.trans h.source) (Or.inl (by rw [policy]; rfl))
        (fun j hne hon hj => absurd hj (h.sole hholds j hne hon))
        (fun _ => by rw [policy]; exact h.lock i hholds) (fun _ hq => nomatch hq)
        (fun u' d' hq => ?_) (fun _ => ?_) fun _ => trivial
      · cases hq
        rcases answered_cases hload (hsource ▸ load) with hsame | ⟨hnone, -⟩
        · exact congrArg Prod.fst (Option.some.inj hsame)
        · cases hnone
      · exact Or.inr (Or.inr ⟨i, rfl, by rw [Function.update_self]; trivial⟩)
  | unanswered version stage load source policy =>
      have hholds := Stage.holds_of_asking stage
      have hnothing := load.resolve_left (by rw [hfails]; exact Bool.false_ne_true)
      have hlatest : ((w.put (on i) pw).replicas (on i)).version = (v : WithBot V) := by
        rw [Cluster.replicas_put_self, policy]
        exact h.nothing_newer hload hcompiles stage (hsource ▸ hnothing)
      exact h.held hholds source (Or.inl (by rw [policy]; rfl))
        (fun _ => by rw [policy]; exact h.lock i hholds) id (fun _ => Or.inr (Or.inl hlatest))
        fun _ => hlatest
  | apply u d compiled' stage source policy =>
      have hversion : pw.policy.version = (v : WithBot V) := by
        rw [policy, ← h.applying i u d stage]
      have hlatest : ((w.put (on i) pw).replicas (on i)).version = (v : WithBot V) := by
        rw [Cluster.replicas_put_self]
        exact hversion
      exact h.held (Stage.holds_of_applying stage) source (Or.inr hversion) (fun hq => hq.elim) id
        (fun _ => Or.inr (Or.inl hlatest)) fun _ => hlatest
  | release stage source policy =>
      have hversion : pw.policy.version = (w.replicas (on i)).version := by rw [policy]; rfl
      have hcoming : CatchingUp v on w states (on i) → CatchingUp v on (w.put (on i) pw)
          (Function.update states i { states i with stage := .past }) (on i) := by
        refine fun hc => hc.aside (fun hl => ?_) (Or.inl (by rw [policy]; rfl)) hversion
        rw [stage] at hl
        exact hl
      refine h.held (Stage.holds_of_releasing stage) source (Or.inl hversion) (fun hq => hq.elim) id
        hcoming fun hq => ?_
      have hassured : Assured v on w states (on i) .past := by
        have hreleasing := h.needs i hq
        rw [stage] at hreleasing
        exact hreleasing
      exact hassured.there (Or.inl hversion) hcoming

end

-- ============================================================================
-- From rest on
-- ============================================================================

/-- The replica that the thread works on. -/
def replicaOf (ops : List ReplicaOp) (i : ℕ) : ℕ := (ops[i]?.map ReplicaOp.replica).getD 0

theorem replicaOf_eq {ops : List ReplicaOp} {i : ℕ} {o : ReplicaOp} (h : ops[i]? = some o) :
    replicaOf ops i = o.replica := by
  rw [replicaOf, h]
  rfl

/-- A thread that is through has left the lock; a refresh of those from number `n` on has
    been there since it dropped the stamp. -/
def Served (n i : ℕ) (q : Watched V) (_ : PolicyOutcome V) : Prop :=
  ¬ q.stage.holds ∧ (n ≤ i → q.stage = .past ∧ q.need.isSome)

section
variable [PrintTables] {w : Cluster S V} {ops : List ReplicaOp} {replicas : List ℕ}
  {es es' : List (Event PolicyInput)} {v : V} {doc : Json}

theorem Resting.passes {co : Co PolicyInput (PolicyWorld S V) (PolicyOutcome V)}
    (h : Resting co) : co.Passes Move (fun q _ => ¬ q.stage.holds) {} := by
  cases h with
  | refresh => exact (refresh_passes rfl).mono fun q _ hq => Stage.not_holds_of_past hq.1
  | refreshing =>
      exact Co.Passes.bind ((refreshLocked_passes rfl).mono fun q _ hq =>
        Stage.not_holds_of_past hq.1)
  | call answer => exact deciding_passes rfl answer
  | waiting answer =>
      refine Co.Passes.bind ((refreshLocked_passes rfl).mono fun q _ hq => ?_)
      have hout := Stage.not_holds_of_past hq.1
      refine (decideWith_passes hout answer).mono fun r _ hr => ?_
      rw [hr]
      exact hout
  | deciding answer =>
      refine (decideWith_passes id answer).mono fun r _ hr => ?_
      rw [hr]
      exact id

/-- The steps of the threads, each on its replica. -/
abbrev onReplicas (S : Type) [PolicySource S V] (ops : List ReplicaOp) (i : ℕ) :
    Monitor (Watched V) PolicyInput (Cluster S V) :=
  Monitor.zoom (Cluster.view (replicaOf ops i)) (Cluster.put (replicaOf ops i)) Move

/-- Nobody has the lock when everything has come to rest. -/
theorem Settled.monitored (h : Settled w ops replicas es v doc) :
    ((w.refreshedAfter ops replicas).run es).Monitored
      (onReplicas S (ops ++ replicas.map .refreshing)) (Served ops.length) fun _ => {} := by
  intro i co hi
  by_cases hn : i < ops.length
  · have hserved : ∀ (q : Watched V) (o : PolicyOutcome V), ¬ q.stage.holds →
        Served ops.length i q o := fun q o hq => ⟨hq, fun hle => absurd hn (by omega)⟩
    cases co with
    | ret o => exact hserved _ o id
    | await block rest =>
        have hlive : ((w.refreshedAfter ops replicas).run es).live i = true := by
          simp [Config.live, hi]
        have ho : ops[i]? = some (ops[i]) := List.getElem?_eq_getElem hn
        obtain ⟨co, hrests, hthread⟩ := h.idle i _ ho hlive
        rw [Option.some.inj (Option.some.inj (hi.symm.trans hthread)), onReplicas,
          replicaOf_eq ((List.getElem?_append_left hn).trans ho)]
        exact (hrests.passes.zoom _ _).mono hserved
  · -- a refresh, which has not begun
    have hstart : (w.refreshedAfter ops replicas).threads[i]? = some (some co) := by
      rw [← hi]
      refine (Config.thread_run (fun e he heq => ?_) _).symm
      have hfirst := h.first e he
      omega
    simp only [Cluster.refreshedAfter, Cluster.config, List.getElem?_map,
      Option.map_eq_some_iff] at hstart
    obtain ⟨o, ho, hco⟩ := hstart
    rw [onReplicas, replicaOf_eq ho, ← Option.some.inj hco]
    rw [List.getElem?_append_right (by omega), List.getElem?_map] at ho
    obtain ⟨k, -, rfl⟩ := Option.map_eq_some_iff.mp ho
    refine ((refresh_passes rfl).zoom _ _).mono fun q o hq => ?_
    exact ⟨Stage.not_holds_of_past hq.1, fun _ => hq⟩

omit [PolicySource S V] [PrintTables] in
theorem Calm.before {c : Config PolicyInput (Cluster S V) (PolicyOutcome V)}
    {e : Event PolicyInput} (h : Calm c (es ++ [e])) : Calm c es where
  answers i input hi := h.answers i input (List.mem_append_left _ hi)
  spared es₁ i es₂ hes := h.spared es₁ i (es₂ ++ [e]) (by rw [hes, List.append_assoc]; rfl)

variable [LinearOrder V] [FaithfulPolicySource S V] {compiled : Compiled}

theorem Settled.run (h : Settled w ops replicas es v doc) (hcompiles : compilePolicy doc = .ok compiled)
    (hcalm : Calm ((w.refreshedAfter ops replicas).run es) es') :
    ∃ states : ℕ → Watched V,
      Settling v (replicaOf (ops ++ replicas.map .refreshing))
          ((w.refreshedAfter ops replicas).run es).world.source
          (((w.refreshedAfter ops replicas).run es).run es').world states ∧
        (((w.refreshedAfter ops replicas).run es).run es').Monitored
          (onReplicas S (ops ++ replicas.map .refreshing)) (Served ops.length) states ∧
        ∀ i, (states i).stage.holds →
          ∃ co, (((w.refreshedAfter ops replicas).run es).run es').threads[i]? = some (some co) := by
  induction es' using List.reverseRecOn with
  | nil =>
      exact ⟨fun _ => {}, .start v _ rfl, h.monitored, fun i hi => hi.elim⟩
  | append_singleton es' e ih =>
      obtain ⟨states, hsettling, hmonitored, hthere⟩ := ih hcalm.before
      -- who has the lock is running: one that has returned has left it
      have hlive : ∀ j, (states j).stage.holds →
          (((w.refreshedAfter ops replicas).run es).run es').live j = true := by
        intro j hj
        obtain ⟨co, hco⟩ := hthere j hj
        cases co with
        | ret o => exact absurd hj (hmonitored j _ hco).1
        | await block rest => simp [Config.live, hco]
      have hspared : ∀ j, (states j).stage.holds → e ≠ .kill j := by
        rintro j hj rfl
        exact hcalm.spared es' j [] rfl _ (hsettling.lock j hj)
      rw [Config.run_append]
      rcases hmonitored.step e with
        ⟨hworld, hafter⟩ | ⟨i, input, q, rfl, -, hi, ⟨pw, hput, hmove⟩, hafter⟩
      · refine ⟨states, ?_, hafter, fun j hj => ?_⟩
        · rw [show (((w.refreshedAfter ops replicas).run es).run es').run [e] =
            (((w.refreshedAfter ops replicas).run es).run es').step e from rfl, hworld]
          exact hsettling
        · obtain ⟨co, hco⟩ := hthere j hj
          exact Config.spared_step hco (hspared j hj)
      · have hfails := hcalm.answers i input (List.mem_append_right _ List.mem_cons_self)
        refine ⟨_, ?_, hafter, fun j hj => ?_⟩
        · rw [show (((w.refreshedAfter ops replicas).run es).run es').run [.step i input] =
            (((w.refreshedAfter ops replicas).run es).run es').step (.step i input) from rfl, hput]
          exact hsettling.next h.latest hcompiles hlive hfails hmove
        · have hthread : ∃ co,
              (((w.refreshedAfter ops replicas).run es).run es').threads[j]? = some (some co) := by
            by_cases hji : j = i
            · rw [hji]
              exact Config.thread_of_live hi
            · rw [Function.update_of_ne hji] at hj
              exact hthere j hj
          obtain ⟨co, hco⟩ := hthread
          have hstep : Event.step i input ≠ .kill j := by simp
          exact Config.spared_step hco hstep

/-- A refresh that completes after everything has come to rest leaves its replica on
    the latest version, which is still the latest. -/
theorem Settled.converges (h : Settled w ops replicas es v doc) (hw : Sound w)
    (htrails : ∀ k, w.trails k = []) (hcompiles : compilePolicy doc = .ok compiled)
    (hcalm : Calm ((w.refreshedAfter ops replicas).run es) es') {m k : ℕ} {o : PolicyOutcome V}
    (hk : replicas[m]? = some k)
    (ho : ((w.refreshedAfter ops replicas).run (es ++ es')).outcome (ops.length + m) = some o) :
    (((w.refreshedAfter ops replicas).run (es ++ es')).world.replicas k).inForce
        = .of v doc compiled ∧
      PolicySource.loadPolicy ((w.refreshedAfter ops replicas).run (es ++ es')).world.source none
        = some (v, doc) := by
  have hsound := ((cluster_keeps hw htrails (ops ++ replicas.map .refreshing)).run
    (fun _ _ _ _ _ _ => trivial) (es ++ es')).inv.1
  have hsound : Sound ((w.refreshedAfter ops replicas).run (es ++ es')).world := hsound
  rw [Config.run_append] at ho hsound ⊢
  obtain ⟨states, hsettling, hmonitored, -⟩ := h.run hcompiles hcalm
  have hload := h.latest
  rw [← hsettling.source] at hload
  obtain ⟨hstage, hneed⟩ := (hmonitored.outcome ho).2 (Nat.le_add_right _ _)
  have hassured := hsettling.needs _ hneed
  have hop : (ops ++ replicas.map .refreshing)[ops.length + m]? = some (.refreshing k) := by
    rw [List.getElem?_append_right (Nat.le_add_right _ _), Nat.add_sub_cancel_left,
      List.getElem?_map, hk]
    rfl
  rw [hstage, replicaOf_eq hop] at hassured
  exact ⟨hsound.inForce_of_version hload hcompiles hassured, hload⟩

end

-- ============================================================================
-- Every cluster
-- ============================================================================

/-- A cluster before any of the operations. -/
structure ClusterStart (S V : Type) [PrintTables] [LinearOrder V] [PolicySource S V] where
  world : Cluster S V
  sound : Sound world
  trails : ∀ k, world.trails k = []

section
variable [PrintTables] [LinearOrder V]

/-- Replicas that have loaded nothing yet, on any source. -/
def ClusterStart.ofSource [OrderedPolicySource S V] (source : S) (refreshSeconds : ℕ → Time) :
    ClusterStart S V where
  world := {
    source := source
    replicas := fun k => .ofSource V (refreshSeconds k)
    trails := fun _ => []
    stored := (PolicySource.loadPolicy source none).toList }
  sound := by
    refine ⟨fun e he => Option.mem_toList.mpr he, fun e he => ?_, fun e he e' he' _ => ?_,
      fun k => Or.inl rfl⟩
    · have hload : PolicySource.loadPolicy source none = some (e.1, e.2) := Option.mem_toList.mp he
      exact (OrderedPolicySource.load_latest source none _ _ hload).ge
    · exact Option.mem_unique (Option.mem_toList.mp he) (Option.mem_toList.mp he')
  trails _ := rfl

omit [LinearOrder V] in
/-- A replica with an inline ruleset, and others that share its source. -/
def ClusterStart.inline (doc : Json) (compiled : Compiled) (h : compilePolicy doc = .ok compiled)
    (refreshSeconds : ℕ → Time) (now : Time) : ClusterStart MemoryPolicySource ℕ where
  world := {
    source := .ofDoc (some doc)
    replicas := Function.update (fun k => .ofSource ℕ (refreshSeconds k)) 0
      (.inline doc compiled (refreshSeconds 0) now)
    trails := fun _ => []
    stored := [(1, doc)] }
  sound := by
    refine ⟨fun e he => ?_, fun e he => ?_, fun e he e' he' _ => ?_, fun k => ?_⟩
    · exact List.mem_singleton.mpr (Option.some.inj he).symm
    · rw [List.mem_singleton.mp he]
      exact le_rfl
    · rw [List.mem_singleton.mp he, List.mem_singleton.mp he']
    · by_cases hk : k = 0
      · exact Or.inr ⟨1, doc, compiled, List.mem_singleton_self _, h, by rw [hk]; rfl⟩
      · exact Or.inl (by simp only [Function.update_of_ne hk]; rfl)
  trails _ := rfl

/-- In every run of operations on any number of replicas: each replica has
    nothing loaded, or the document its source stored under its version, compiled;
    a step of a thread that the source gave nothing that compiles changes no
    policy; and once no publication or load is in flight and the latest document
    compiles, every refresh that completes leaves its replica on the latest version,
    whoever refreshes or decides beside it and in whatever order, as long as no load
    fails and none is cancelled. -/
theorem policy_coherent_and_converges [FaithfulPolicySource S V] (start : ClusterStart S V)
    (ops : List ReplicaOp) :
    (∀ es, Sound ((start.world.config ops).run es).world) ∧
    (∀ es i input k,
      GivenNothing ((start.world.config ops).run (es ++ [.step i input])).world k i →
      (((start.world.config ops).run (es ++ [.step i input])).world.replicas k).inForce
        = (((start.world.config ops).run es).world.replicas k).inForce) ∧
    ∀ (replicas : List ℕ) (es es' : List (Event PolicyInput)) (v : V) (doc : Json)
        (compiled : Compiled),
      Settled start.world ops replicas es v doc → compilePolicy doc = .ok compiled →
      Calm ((start.world.refreshedAfter ops replicas).run es) es' →
      ∀ m k o, replicas[m]? = some k →
        ((start.world.refreshedAfter ops replicas).run (es ++ es')).outcome (ops.length + m)
          = some o →
        (((start.world.refreshedAfter ops replicas).run (es ++ es')).world.replicas k).inForce
            = .of v doc compiled ∧
          PolicySource.loadPolicy
            ((start.world.refreshedAfter ops replicas).run (es ++ es')).world.source none
            = some (v, doc) := by
  refine ⟨fun es => ?_, fun es i input k => ?_, fun replicas es es' v doc compiled => ?_⟩
  · exact ((cluster_keeps start.sound start.trails ops).run (fun _ _ _ _ _ _ => trivial) es).inv.1
  · exact inForce_unchanged start.sound start.trails ops es i input k
  · intro hsettled hcompiles hcalm m k o hk ho
    exact hsettled.converges start.sound start.trails hcompiles hcalm hk ho

end

/-- A step of the thread, with the clock at this reading; the source may fail. -/
def turn (thread : ℕ) (now : Time) (fails : Bool) : Event PolicyInput :=
  .step thread { now := now, fails := fails }

section
attribute [local instance] PrintTables.ascii

/-- Replicas that share an empty table. -/
def onEmptyTable : ClusterStart SqlPolicySource ℕ := .ofSource .empty fun _ => 5

/-- A call to ask about. -/
def aCall : ToolCall := ⟨"1", "alice", "bank", "wire", .dict [], []⟩

/-- Two callers on replica 0, and a publication elsewhere. -/
def callersAndPublication : List ReplicaOp :=
  [⟨0, .grantFor aCall⟩, ⟨0, .grantFor aCall⟩, ⟨0, .foreignPublish (.dict [])⟩]

/-- The first caller asks the empty source; the other one comes to the lock meanwhile, when
    the policy is due again, and waits. -/
def oneWaiting : List (Event PolicyInput) :=
  [turn 0 0 false, turn 0 0 false, turn 1 6 false, turn 0 6 false, turn 0 6 false,
    turn 0 6 false, turn 2 6 false]

/-- The refresh drops the stamp and waits behind the caller, then finds the policy fresh. -/
def overtakenBy (fails : Bool) : List (Event PolicyInput) :=
  [turn 3 6 false, turn 1 6 false, turn 1 6 fails, turn 1 6 false, turn 3 6 false]

theorem oneWaiting_settled :
    Settled onEmptyTable.world callersAndPublication [0] oneWaiting 1 (.dict []) where
  first := by decide
  idle i o ho hlive := by
    have hlt : i < 3 := (List.getElem?_eq_some_iff.mp ho).1
    have hended : ∀ j, j = 0 ∨ j = 2 →
        ((onEmptyTable.world.refreshedAfter callersAndPublication [0]).run oneWaiting).live j
          = false := by
      rintro j (rfl | rfl) <;> decide +kernel
    obtain rfl | rfl | rfl : i = 0 ∨ i = 1 ∨ i = 2 := by omega
    · rw [hended 0 (Or.inl rfl)] at hlive
      cases hlive
    · cases ho
      exact ⟨_, .waiting _, rfl⟩
    · rw [hended 2 (Or.inr rfl)] at hlive
      cases hlive
  latest := rfl

/-- The caller's load brings the version that the refresh is answered with. -/
theorem policy_coherent_and_converges_overtaken : ∃ compiled,
    compilePolicy (.dict []) = .ok compiled ∧
      (((onEmptyTable.world.refreshedAfter callersAndPublication [0]).run
        (oneWaiting ++ overtakenBy false)).world.replicas 0).inForce
          = .of 1 (.dict []) compiled := by
  obtain ⟨compiled, hcompiles⟩ : ∃ compiled, compilePolicy (.dict []) = .ok compiled := ⟨_, rfl⟩
  have hcompletes : (((onEmptyTable.world.refreshedAfter callersAndPublication [0]).run
      (oneWaiting ++ overtakenBy false)).outcome 3).isSome = true := by
    decide +kernel
  obtain ⟨o, ho⟩ := Option.isSome_iff_exists.mp hcompletes
  have hcalm : Calm ((onEmptyTable.world.refreshedAfter callersAndPublication [0]).run oneWaiting)
      (overtakenBy false) := by
    refine ⟨fun i input hi => ?_, fun es₁ i es₂ heq => ?_⟩
    · simp only [overtakenBy, turn, List.mem_cons, List.not_mem_nil, or_false] at hi
      rcases hi with heq | heq | heq | heq | heq <;> cases heq <;> rfl
    · have hkill : Event.kill i ∈ overtakenBy false := by
        rw [heq]
        exact List.mem_append_right _ List.mem_cons_self
      simp [overtakenBy, turn] at hkill
  refine ⟨compiled, hcompiles, ?_⟩
  exact ((policy_coherent_and_converges onEmptyTable callersAndPublication).2.2 [0] oneWaiting
    (overtakenBy false) 1 (.dict []) compiled oneWaiting_settled hcompiles hcalm 0 0 o rfl ho).1

/-- The caller's load fails, and the refresh comes to nothing. -/
theorem refresh_can_come_to_nothing :
    ¬ ∀ (start : ClusterStart SqlPolicySource ℕ) (ops : List ReplicaOp) (replicas : List ℕ)
      (es es' : List (Event PolicyInput)) (v : ℕ) (doc : Json) (compiled : Compiled),
      Settled start.world ops replicas es v doc → compilePolicy doc = .ok compiled →
      ∀ m k o, replicas[m]? = some k →
        ((start.world.refreshedAfter ops replicas).run (es ++ es')).outcome (ops.length + m)
          = some o →
        (((start.world.refreshedAfter ops replicas).run (es ++ es')).world.replicas k).inForce
            = .of v doc compiled := by
  intro law
  obtain ⟨compiled, hcompiles⟩ : ∃ compiled, compilePolicy (.dict []) = .ok compiled := ⟨_, rfl⟩
  have hcompletes : (((onEmptyTable.world.refreshedAfter callersAndPublication [0]).run
      (oneWaiting ++ overtakenBy true)).outcome 3).isSome = true := by
    decide +kernel
  obtain ⟨o, ho⟩ := Option.isSome_iff_exists.mp hcompletes
  have hlatest := law onEmptyTable callersAndPublication [0] oneWaiting (overtakenBy true) 1
    (.dict []) compiled oneWaiting_settled hcompiles 0 0 o rfl ho
  have hnothing : (((onEmptyTable.world.refreshedAfter callersAndPublication [0]).run
      (oneWaiting ++ overtakenBy true)).world.replicas 0).version = ⊥ := by
    decide +kernel
  exact WithBot.bot_ne_coe (hnothing.symm.trans (InForce.version_of hlatest))

end

end ToolGateway.Policy
