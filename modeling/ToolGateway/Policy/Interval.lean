/-
  ToolGateway.Policy.Interval

  How often one replica asks its source.  `_refresh_if_due` looks at the clock, waits
  for the lock and looks again; whoever still finds the policy due stamps `_checked`
  and calls `load_policy` in the same step.  The call is in flight until the caller's
  next step, and the lock is given up in the one after.

  Over every run of callers and publications whose clock does not go back, one call is
  in flight at most, and the stamps of any two are an interval apart.  A publication
  stamps `_checked` as well, without the lock: it can only put the next call off.
-/

import ToolGateway.Coroutine.Paths
import ToolGateway.Policy.Replica

namespace ToolGateway.Policy

open Coroutine Py

variable {S V : Type}

/-- One step of a thread on the replica. -/
abbrev PolicyDoing (S V : Type) := Doing PolicyInput (PolicyWorld S V)

-- ============================================================================
-- Calls of the source
-- ============================================================================

/-- The step finds the policy due. -/
def Due (d : PolicyDoing S V) : Prop := d.before.policy.fresh d.slot.input.now = false

/-- The step takes the lock, stamps `_checked` and calls `load_policy`. -/
def Asks (d : PolicyDoing S V) : Prop :=
  ∃ version, DeclarativePolicy.acquire d.slot d.before = some (some version, d.after)

/-- Among the steps of a caller is a call of `load_policy`, at `d`: the caller found the
    policy due, and again under the lock. -/
def Called (ds : List (PolicyDoing S V)) (d : PolicyDoing S V) : Prop :=
  ∃ first rest, ds = first :: d :: rest ∧ Due first ∧ Asks d

/-- The caller has called `load_policy` and not left the lock. -/
def Holds (ds : List (PolicyDoing S V)) : Prop := ∃ d, Called ds d ∧ ds.length < 4

/-- `grant_for` and `may_call` refresh before they decide. -/
def PolicyOp.Refreshes : PolicyOp → Prop
  | .grantFor _ | .mayCall _ => True
  | _ => False

section
variable [PolicySource S V]

/-- The operations on one replica. -/
def PolicyWorld.config [PrintTables] (w : PolicyWorld S V) (ops : List PolicyOp) :
    Config PolicyInput (PolicyWorld S V) (PolicyOutcome V) :=
  { world := w, threads := ops.map fun o => some o.program }

/-- In the run, thread `i` has called `load_policy` at its step `d`. -/
structure LoadCall [PrintTables] (w : PolicyWorld S V) (ops : List PolicyOp)
    (es : List (Event PolicyInput)) (i : ℕ) (d : PolicyDoing S V) : Prop where
  refreshes : ∃ o, ops[i]? = some o ∧ o.Refreshes
  called : Called ((w.config ops).doings i es) d

/-- The call is in flight: the thread is still running and waits for the answer. -/
structure InFlight [PrintTables] (w : PolicyWorld S V) (ops : List PolicyOp)
    (es : List (Event PolicyInput)) (i : ℕ) (d : PolicyDoing S V) : Prop
    extends LoadCall w ops es i d where
  running : ((w.config ops).run es).live i = true
  waits : ((w.config ops).doings i es).length = 2

end

/-- What the clock reads, step after step. -/
def readings (es : List (Event PolicyInput)) : List Time :=
  es.flatMap fun
    | .step _ input => [input.now, input.stamp]
    | .kill _ => []

/-- The clock does not go back. -/
def Forward (es : List (Event PolicyInput)) : Prop := (readings es).Pairwise (· ≤ ·)

-- ============================================================================
-- What a step can do
-- ============================================================================

theorem not_called_nil {d : PolicyDoing S V} : ¬ Called [] d := by
  rintro ⟨first, rest, h, -⟩
  cases h

theorem not_called_singleton {d₁ d : PolicyDoing S V} : ¬ Called [d₁] d := by
  rintro ⟨first, rest, h, -⟩
  cases h

theorem called_cons_cons {d₁ d₂ d : PolicyDoing S V} {rest : List (PolicyDoing S V)} :
    Called (d₁ :: d₂ :: rest) d ↔ d = d₂ ∧ Due d₁ ∧ Asks d₂ := by
  constructor
  · rintro ⟨first, rest', h, hdue, hasks⟩
    cases h
    exact ⟨rfl, hdue, hasks⟩
  · rintro ⟨rfl, hdue, hasks⟩
    exact ⟨d₁, rest, rfl, hdue, hasks⟩

/-- The step leaves lock and stamp alone. -/
structure Quiet (d : PolicyDoing S V) : Prop where
  lock : d.after.policy.lock = d.before.policy.lock
  checked : d.after.policy.checked = d.before.policy.checked
  interval : d.after.policy.refreshSeconds = d.before.policy.refreshSeconds

/-- The step gives up the lock. -/
structure Leaves (d : PolicyDoing S V) : Prop where
  lock : d.after.policy.lock = none
  checked : d.after.policy.checked = d.before.policy.checked
  interval : d.after.policy.refreshSeconds = d.before.policy.refreshSeconds

/-- One more step of a caller. -/
inductive Turn (ds : List (PolicyDoing S V)) (d : PolicyDoing S V) : Prop where
  | quiet (quiet : Quiet d) (called : ∀ d', Called (ds ++ [d]) d' → Called ds d')
      (holds : Holds (ds ++ [d]) → Holds ds)
  | asks (asked : Asks d) (called : ∀ d', Called (ds ++ [d]) d' → d' = d)
  | leaves (held : Holds ds) (leaves : Leaves d) (left : ¬ Holds (ds ++ [d]))
      (called : ∀ d', Called (ds ++ [d]) d' → Called ds d')

section
variable {ds : List (PolicyDoing S V)} {d : PolicyDoing S V}

/-- Steps of a caller that makes no call. -/
theorem Turn.of_none (hquiet : Quiet d) (hnone : ∀ d', ¬ Called (ds ++ [d]) d') : Turn ds d :=
  .quiet hquiet (fun d' h => absurd h (hnone d')) fun ⟨d', h, _⟩ => absurd h (hnone d')

/-- A step that leaves the policy as it is. -/
theorem Quiet.of_same {α : Type} {x y : α} {w : PolicyWorld S V}
    (h : some (x, w) = some (y, d.after)) (hpolicy : w.policy = d.before.policy) : Quiet d := by
  obtain ⟨-, hw⟩ := Prod.mk.inj (Option.some.inj h)
  rw [hw] at hpolicy
  exact ⟨by rw [hpolicy], by rw [hpolicy], by rw [hpolicy]⟩

/-- No step is left where the program has returned. -/
theorem not_path_ret {x : PolicyOutcome V}
    {rest : Co PolicyInput (PolicyWorld S V) (PolicyOutcome V)} :
    ¬(Co.ret x).Path (ds ++ [d]) rest := by
  intro h
  obtain ⟨hnil, -⟩ := Co.path_ret h
  simp at hnil

/-- A step of the source: nothing on the replica changes. -/
theorem quiet_load [PolicySource S V] {version : WithBot V} {x : Option (V × Json)}
    (h : DeclarativePolicy.load version d.slot d.before = some (x, d.after)) : Quiet d := by
  unfold DeclarativePolicy.load at h
  split at h
  · exact .of_same h rfl
  · split at h
    · exact .of_same h rfl
    · exact .of_same h rfl

theorem quiet_publishToSource [PolicySource S V] {doc : Json} {x : Option V}
    (h : DeclarativePolicy.publishToSource doc d.slot d.before = some (x, d.after)) : Quiet d := by
  unfold DeclarativePolicy.publishToSource at h
  split at h
  · exact .of_same h rfl
  · exact .of_same h rfl

/-- What is left of `grant_for` or `may_call` after the refresh. -/
theorem path_decideWith {answer : Option Compiled → PolicyOutcome V}
    {rest : Co PolicyInput (PolicyWorld S V) (PolicyOutcome V)}
    (h : (Co.atomic (DeclarativePolicy.decideWith answer)).Path (ds ++ [d]) rest) :
    ds = [] ∧ Quiet d := by
  cases ds with
  | nil =>
      obtain ⟨x, hb, -⟩ := h
      exact ⟨rfl, .of_same hb rfl⟩
  | cons d₁ ds =>
      obtain ⟨x, -, h⟩ := h
      exact absurd h not_path_ret

/-- The step after the answer gives up the lock. -/
theorem path_leaving {block : Slot PolicyInput → PolicyWorld S V → Option (Unit × PolicyWorld S V)}
    {answer : Option Compiled → PolicyOutcome V}
    (hblock : ∀ d : PolicyDoing S V, block d.slot d.before = some ((), d.after) → Leaves d)
    {rest : Co PolicyInput (PolicyWorld S V) (PolicyOutcome V)}
    (h : (Co.atomic block >>= fun _ => Co.atomic (DeclarativePolicy.decideWith answer)).Path
      (ds ++ [d]) rest) :
    (ds = [] ∧ Leaves d) ∨ (∃ d₁, ds = [d₁]) ∧ Quiet d := by
  cases ds with
  | nil =>
      obtain ⟨x, hb, -⟩ := h
      exact .inl ⟨rfl, hblock d hb⟩
  | cons d₁ ds =>
      obtain ⟨x, -, h⟩ := h
      obtain ⟨rfl, hquiet⟩ := path_decideWith h
      exact .inr ⟨⟨d₁, rfl⟩, hquiet⟩

theorem leaves_release (d : PolicyDoing S V)
    (h : DeclarativePolicy.release d.slot d.before = some ((), d.after)) : Leaves d := by
  obtain ⟨-, hw⟩ := Prod.mk.inj (Option.some.inj h)
  exact ⟨by rw [← hw], by rw [← hw], by rw [← hw]⟩

theorem leaves_applyLoaded {v : V} {doc : Json} {compiled : Compiled} (d : PolicyDoing S V)
    (h : DeclarativePolicy.applyLoaded v doc compiled d.slot d.before = some ((), d.after)) :
    Leaves d := by
  obtain ⟨-, hw⟩ := Prod.mk.inj (Option.some.inj h)
  exact ⟨by rw [← hw], by rw [← hw], by rw [← hw]⟩

/-- The caller that found the policy due and took the lock has called the source. -/
theorem called_of_asks {d₁ d₂ : PolicyDoing S V} (hdue : Due d₁) (hasks : Asks d₂)
    (rest : List (PolicyDoing S V)) : Called (d₁ :: d₂ :: rest) d₂ :=
  ⟨d₁, rest, rfl, hdue, hasks⟩

/-- Whoever left the lock free did not call the source. -/
theorem not_asks {d : PolicyDoing S V}
    (h : DeclarativePolicy.acquire d.slot d.before = some (none, d.after)) : Quiet d ∧ ¬ Asks d := by
  constructor
  · unfold DeclarativePolicy.acquire at h
    split at h
    · cases h
    · split at h
      · exact .of_same h rfl
      · cases h
  · rintro ⟨version, hv⟩
    rw [h] at hv
    cases hv

/-- The steps after a call: the answer, the end of the lock, the decision. -/
theorem Turn.of_called {d₁ d₂ : PolicyDoing S V} (hdue : Due d₁) (hasks : Asks d₂)
    {d₃ : PolicyDoing S V}
    (h : (ds = [] ∧ Leaves d) ∨ (∃ d₄, ds = [d₄]) ∧ Quiet d) :
    Turn (d₁ :: d₂ :: d₃ :: ds) d := by
  have hcalled : ∀ (more : List (PolicyDoing S V)) (d' : PolicyDoing S V),
      Called (d₁ :: d₂ :: more) d' → d' = d₂ := fun more d' h => (called_cons_cons.mp h).1
  obtain ⟨rfl, hleaves⟩ | ⟨⟨d₄, rfl⟩, hquiet⟩ := h
  · refine .leaves ⟨d₂, called_of_asks hdue hasks _, by simp⟩ hleaves ?_ fun d' hd' => ?_
    · rintro ⟨d', -, hshort⟩
      simp at hshort
    · rw [hcalled _ d' hd']
      exact called_of_asks hdue hasks _
  · refine .quiet hquiet (fun d' hd' => ?_) ?_
    · rw [hcalled _ d' hd']
      exact called_of_asks hdue hasks _
    · rintro ⟨d', -, hshort⟩
      simp at hshort

variable [PolicySource S V] [PrintTables]

/-- One more step of `grant_for` or `may_call`. -/
theorem turn_refreshing {answer : Option Compiled → PolicyOutcome V}
    {rest : Co PolicyInput (PolicyWorld S V) (PolicyOutcome V)}
    (h : (DeclarativePolicy.refreshIfDue >>= fun _ =>
      Co.atomic (DeclarativePolicy.decideWith answer)).Path (ds ++ [d]) rest) : Turn ds d := by
  cases ds with
  | nil =>
      obtain ⟨fresh, hb, -⟩ := h
      exact .of_none (.of_same hb rfl) fun _ => not_called_singleton
  | cons d₁ ds =>
      obtain ⟨fresh, hb, h⟩ := h
      obtain ⟨hfresh, -⟩ := Prod.mk.inj (Option.some.inj hb)
      cases fresh with
      | true =>
          obtain ⟨rfl, hquiet⟩ := path_decideWith h
          refine .of_none hquiet fun d' hd' => ?_
          obtain ⟨-, hdue, -⟩ := called_cons_cons.mp hd'
          rw [Due, hfresh] at hdue
          cases hdue
      | false =>
          have hdue : Due d₁ := hfresh
          cases ds with
          | nil =>
              obtain ⟨version, hb, -⟩ := h
              cases version with
              | none =>
                  obtain ⟨hquiet, hno⟩ := not_asks hb
                  exact .of_none hquiet fun d' hd' => hno (called_cons_cons.mp hd').2.2
              | some version => exact .asks ⟨version, hb⟩ fun d' hd' => (called_cons_cons.mp hd').1
          | cons d₂ ds =>
              obtain ⟨version, hb, h⟩ := h
              cases version with
              | none =>
                  obtain ⟨rfl, hquiet⟩ := path_decideWith h
                  exact .of_none hquiet fun d' hd' => (not_asks hb).2 (called_cons_cons.mp hd').2.2
              | some version =>
                  have hasks : Asks d₂ := ⟨version, hb⟩
                  cases ds with
                  | nil =>
                      obtain ⟨loaded, hb, -⟩ := h
                      refine .quiet (quiet_load hb) (fun d' hd' => ?_) fun _ =>
                        ⟨d₂, called_of_asks hdue hasks _, by simp⟩
                      rw [(called_cons_cons.mp hd').1]
                      exact called_of_asks hdue hasks _
                  | cons d₃ ds =>
                      obtain ⟨loaded, -, h⟩ := h
                      refine .of_called hdue hasks ?_
                      cases loaded with
                      | none => exact path_leaving leaves_release h
                      | some answered =>
                          obtain ⟨v, doc⟩ := answered
                          cases hcompiled : DeclarativePolicy.compile? doc with
                          | none =>
                              simp only [DeclarativePolicy.settle, Co.bind, hcompiled] at h
                              exact path_leaving leaves_release h
                          | some compiled =>
                              simp only [DeclarativePolicy.settle, Co.bind, hcompiled] at h
                              exact path_leaving leaves_applyLoaded h

/-- A publication stamps `_checked`, without the lock. -/
structure Stamps (d : PolicyDoing S V) : Prop where
  lock : d.after.policy.lock = d.before.policy.lock
  checked : d.after.policy.checked = some d.slot.input.now
  interval : d.after.policy.refreshSeconds = d.before.policy.refreshSeconds

/-- A step of a publication, on this replica or another. -/
theorem turn_publishing {o : PolicyOp} (hno : ¬ o.Refreshes) (hrefresh : o ≠ .refresh)
    {rest : Co PolicyInput (PolicyWorld S V) (PolicyOutcome V)}
    (h : o.program.Path (ds ++ [d]) rest) : Quiet d ∨ Stamps d := by
  cases o with
  | refresh => exact absurd rfl hrefresh
  | grantFor call => exact absurd trivial hno
  | mayCall call => exact absurd trivial hno
  | foreignPublish doc =>
      cases ds with
      | nil =>
          obtain ⟨x, hb, -⟩ := h
          exact .inl (.of_same hb rfl)
      | cons d₁ ds =>
          obtain ⟨x, -, h⟩ := h
          exact absurd h not_path_ret
  | publish doc =>
      simp only [PolicyOp.program, DeclarativePolicy.publish] at h
      cases hcompiled : compilePolicy doc with
      | error e =>
          rw [hcompiled] at h
          exact absurd h not_path_ret
      | ok compiled =>
          rw [hcompiled] at h
          cases ds with
          | nil =>
              obtain ⟨x, hb, -⟩ := h
              exact .inl (quiet_publishToSource hb)
          | cons d₁ ds =>
              obtain ⟨stored, -, h⟩ := h
              cases stored with
              | none =>
                  exact absurd h not_path_ret
              | some v =>
                  cases ds with
                  | nil =>
                      obtain ⟨x, hb, -⟩ := h
                      obtain ⟨-, hw⟩ := Prod.mk.inj (Option.some.inj hb)
                      exact .inr ⟨by rw [← hw], by rw [← hw], by rw [← hw]⟩
                  | cons d₂ ds =>
                      obtain ⟨x, -, h⟩ := h
                      exact absurd h not_path_ret

end

/-- What a step that asks has found, and what it does. -/
theorem Asks.acquired {d : PolicyDoing S V} (h : Asks d) :
    (∀ i, d.before.policy.lock = some i → d.slot.live i = false) ∧ Due d ∧
      d.after.policy.lock = some d.slot.me ∧ d.after.policy.checked = some d.slot.input.stamp ∧
      d.after.policy.refreshSeconds = d.before.policy.refreshSeconds := by
  obtain ⟨version, h⟩ := h
  unfold DeclarativePolicy.acquire at h
  split at h
  · cases h
  · rename_i hfree
    split at h
    · cases h
    · rename_i hdue
      obtain ⟨-, hw⟩ := Prod.mk.inj (Option.some.inj h)
      refine ⟨fun i hi => ?_, by simpa [Due] using hdue, by rw [← hw], by rw [← hw], by rw [← hw]⟩
      simpa [hi] using hfree

/-- A policy that is due was last checked an interval ago. -/
theorem Due.elapsed {d : PolicyDoing S V} (h : Due d) {t : Time}
    (ht : d.before.policy.checked = some t) :
    d.before.policy.refreshSeconds ≤ d.slot.input.now - t := by
  unfold Due DeclarativePolicy.fresh at h
  rw [ht] at h
  simpa using h

-- ============================================================================
-- Runs
-- ============================================================================

section
variable [PolicySource S V] [PrintTables] {w : PolicyWorld S V} {ops : List PolicyOp}
  {es : List (Event PolicyInput)}

/-- What holds of the calls at every moment of a run. -/
structure Spaced (w : PolicyWorld S V) (ops : List PolicyOp) (es : List (Event PolicyInput))
    : Prop where
  /-- whoever is running between its call and the end of the lock holds the lock -/
  holds : ∀ i o, ops[i]? = some o → o.Refreshes → ((w.config ops).run es).live i = true →
    Holds ((w.config ops).doings i es) → ((w.config ops).run es).world.policy.lock = some i
  /-- no call was stamped later than `_checked` -/
  stamped : ∀ i d, LoadCall w ops es i d → ∃ t,
    ((w.config ops).run es).world.policy.checked = some t ∧ d.slot.input.stamp ≤ t
  interval : ((w.config ops).run es).world.policy.refreshSeconds = w.policy.refreshSeconds
  apart : ∀ i j d d', i ≠ j → LoadCall w ops es i d → LoadCall w ops es j d' →
    w.policy.refreshSeconds ≤ d'.slot.input.stamp - d.slot.input.stamp ∨
      w.policy.refreshSeconds ≤ d.slot.input.stamp - d'.slot.input.stamp

theorem spaced_nil : Spaced w ops [] where
  holds i o _ _ _ h := by
    obtain ⟨d, hd, -⟩ := h
    exact absurd hd not_called_nil
  stamped i d h := absurd h.called not_called_nil
  interval := rfl
  apart i j d d' _ h _ := absurd h.called not_called_nil

/-- The stamp of a step is a reading of the clock. -/
theorem stamp_mem_readings {i : ℕ} {d : PolicyDoing S V} (h : d ∈ (w.config ops).doings i es) :
    d.slot.input.stamp ∈ readings es := by
  obtain ⟨-, hmem⟩ := Config.mem_doings h
  exact List.mem_flatMap.mpr ⟨_, hmem, by simp⟩

theorem LoadCall.mem_doings {i : ℕ} {d : PolicyDoing S V} (h : LoadCall w ops es i d) :
    d ∈ (w.config ops).doings i es := by
  obtain ⟨first, rest, hds, -, -⟩ := h.called
  rw [hds]
  simp

/-- The operation of a thread that is running. -/
theorem op_of_live {i : ℕ} (hlive : ((w.config ops).run es).live i = true) :
    ∃ o, ops[i]? = some o := by
  have hlength : ((w.config ops).run es).threads.length = ops.length := by
    rw [Config.length_run]
    exact List.length_map ..
  have hlt : i < ops.length := by
    rw [← hlength]
    by_contra hge
    rw [Config.live, List.getElem?_eq_none (Nat.not_lt.mp hge)] at hlive
    cases hlive
  exact ⟨ops[i], List.getElem?_eq_getElem hlt⟩

theorem path_op {i : ℕ} {o : PolicyOp} (ho : ops[i]? = some o) :
    ∃ rest, o.program.Path ((w.config ops).doings i es) rest := by
  have hthread : (w.config ops).threads[i]? = some (some o.program) := by
    simp [PolicyWorld.config, ho]
  obtain ⟨rest, hpath, -⟩ := Config.path_doings hthread es
  exact ⟨rest, hpath⟩

/-- What thread `i` has done after one more event. -/
theorem doings_snoc (i : ℕ) (e : Event PolicyInput) : (w.config ops).doings i (es ++ [e]) =
    (w.config ops).doings i es ++ (((w.config ops).run es).doing i e).toList := by
  rw [Config.doings_append]
  exact congrArg _ (List.append_nil _)

theorem doings_snoc_other {i j : ℕ} {input : PolicyInput} (hij : i ≠ j) :
    (w.config ops).doings i (es ++ [.step j input]) = (w.config ops).doings i es := by
  rw [doings_snoc, Config.doing_other _ (Ne.symm hij), Option.toList_none, List.append_nil]

/-- What another thread does adds no call to those of thread `i`. -/
theorem LoadCall.of_other {i j : ℕ} {input : PolicyInput} {d : PolicyDoing S V} (hij : i ≠ j)
    (h : LoadCall w ops (es ++ [.step j input]) i d) : LoadCall w ops es i d := by
  have hsame : (w.config ops).doings i (es ++ [.step j input]) = (w.config ops).doings i es :=
    doings_snoc_other hij
  exact ⟨h.refreshes, hsame ▸ h.called⟩

/-- Nothing was done, and nobody came to life. -/
theorem Spaced.idle (h : Spaced w ops es) {e : Event PolicyInput}
    (hdoings : ∀ i, (w.config ops).doings i (es ++ [e]) = (w.config ops).doings i es)
    (hworld : (((w.config ops).run es).step e).world = ((w.config ops).run es).world)
    (hlive : ∀ i, (((w.config ops).run es).step e).live i = true →
      ((w.config ops).run es).live i = true) :
    Spaced w ops (es ++ [e]) := by
  have hcall : ∀ i d, LoadCall w ops (es ++ [e]) i d → LoadCall w ops es i d :=
    fun i d hd => ⟨hd.refreshes, hdoings i ▸ hd.called⟩
  have hrun : (w.config ops).run (es ++ [e]) = ((w.config ops).run es).step e := Config.run_append ..
  refine ⟨?_, ?_, ?_, ?_⟩
  · intro i o ho hrefreshes hrunning hholds
    rw [hrun] at hrunning ⊢
    rw [hdoings i] at hholds
    rw [hworld]
    exact h.holds i o ho hrefreshes (hlive i hrunning) hholds
  · intro i d hd
    rw [hrun, hworld]
    exact h.stamped i d (hcall i d hd)
  · rw [hrun, hworld]
    exact h.interval
  · exact fun i j d d' hij hd hd' => h.apart i j d d' hij (hcall i d hd) (hcall j d' hd')

/-- A step of thread `j` that makes no call, and leaves the lock to whoever holds it. -/
theorem Spaced.calm (h : Spaced w ops es) {j : ℕ} {input : PolicyInput} {world : PolicyWorld S V}
    (hworld : (((w.config ops).run es).step (.step j input)).world = world)
    (hcall : ∀ d, LoadCall w ops (es ++ [.step j input]) j d → LoadCall w ops es j d)
    (hlock : ∀ i o, ops[i]? = some o → o.Refreshes →
      (((w.config ops).run es).step (.step j input)).live i = true →
      Holds ((w.config ops).doings i (es ++ [.step j input])) → world.policy.lock = some i)
    (hchecked : ∀ i d, LoadCall w ops es i d → ∃ t, world.policy.checked = some t ∧
      d.slot.input.stamp ≤ t)
    (hinterval : world.policy.refreshSeconds = ((w.config ops).run es).world.policy.refreshSeconds) :
    Spaced w ops (es ++ [.step j input]) := by
  have hrun : (w.config ops).run (es ++ [.step j input]) =
      ((w.config ops).run es).step (.step j input) := Config.run_append ..
  have hcalls : ∀ i d, LoadCall w ops (es ++ [.step j input]) i d → LoadCall w ops es i d := by
    intro i d hd
    by_cases hij : i = j
    · subst hij
      exact hcall d hd
    · exact hd.of_other hij
  refine ⟨?_, ?_, ?_, ?_⟩
  · intro i o ho hrefreshes hrunning hholds
    rw [hrun] at hrunning ⊢
    rw [hworld]
    exact hlock i o ho hrefreshes hrunning hholds
  · intro i d hd
    rw [hrun, hworld]
    exact hchecked i d (hcalls i d hd)
  · rw [hrun, hworld, hinterval]
    exact h.interval
  · exact fun i k d d' hik hd hd' => h.apart i k d d' hik (hcalls i d hd) (hcalls k d' hd')

omit [PolicySource S V] [PrintTables] in
/-- A thread that runs after a step of another ran before it. -/
theorem live_of_other {c : Config PolicyInput (PolicyWorld S V) (PolicyOutcome V)} {i j : ℕ}
    {input : PolicyInput} (hij : i ≠ j) (h : (c.step (.step j input)).live i = true) :
    c.live i = true := by
  have hsame : (c.step (.step j input)).threads[i]? = c.threads[i]? :=
    Config.thread_step (Ne.symm hij) c
  rw [Config.live, hsame] at h
  exact h

/-- Another thread than the one that stepped: it holds the lock if it did. -/
theorem Spaced.holds_other (h : Spaced w ops es) {i j : ℕ} {input : PolicyInput} (hij : i ≠ j)
    {o : PolicyOp} (ho : ops[i]? = some o) (hrefreshes : o.Refreshes)
    (hrunning : (((w.config ops).run es).step (.step j input)).live i = true)
    (hholds : Holds ((w.config ops).doings i (es ++ [.step j input]))) :
    ((w.config ops).run es).world.policy.lock = some i := by
  rw [doings_snoc_other hij] at hholds
  exact h.holds i o ho hrefreshes (live_of_other hij hrunning) hholds

omit [PolicySource S V] [PrintTables] in
/-- The readings of the last step are the latest. -/
theorem Forward.last {j : ℕ} {input : PolicyInput} (h : Forward (es ++ [.step j input])) :
    (∀ t ∈ readings es, t ≤ input.now) ∧ input.now ≤ input.stamp := by
  have hreadings : readings (es ++ [.step j input]) = readings es ++ [input.now, input.stamp] := by
    simp [readings]
  unfold Forward at h
  rw [hreadings, List.pairwise_append] at h
  obtain ⟨-, hlast, hbefore⟩ := h
  refine ⟨fun t ht => hbefore t ht input.now (by simp), ?_⟩
  simpa using hlast

section
variable {j : ℕ} {input : PolicyInput} {o : PolicyOp} {d : PolicyDoing S V}

/-- The step that asks comes an interval after every call before it. -/
theorem Spaced.since_call (h : Spaced w ops es) (hclock : Forward (es ++ [.step j input]))
    (hslot : d.slot = ⟨j, ((w.config ops).run es).live, input⟩)
    (hbefore : d.before = ((w.config ops).run es).world) (hasked : Asks d) (i : ℕ)
    (d' : PolicyDoing S V) (hd' : LoadCall w ops es i d') :
    w.policy.refreshSeconds ≤ input.stamp - d'.slot.input.stamp := by
  obtain ⟨-, hdue, -⟩ := hasked.acquired
  -- the call was stamped at most at `_checked`, which is an interval old
  obtain ⟨t, ht, hle⟩ := h.stamped i d' hd'
  rw [← hbefore] at ht
  have hsince := hdue.elapsed ht
  rw [hslot, hbefore, h.interval] at hsince
  exact Int.le_trans hsince (Int.sub_le_sub hclock.last.2 hle)

/-- The step of a caller that asks: it was alone, and the last call is an interval ago. -/
theorem Spaced.ask (h : Spaced w ops es) (hclock : Forward (es ++ [.step j input]))
    (hslot : d.slot = ⟨j, ((w.config ops).run es).live, input⟩)
    (hbefore : d.before = ((w.config ops).run es).world)
    (hafter : d.after = (((w.config ops).run es).step (.step j input)).world)
    (hasked : Asks d)
    (hcalled : ∀ d', Called ((w.config ops).doings j (es ++ [.step j input])) d' → d' = d) :
    Spaced w ops (es ++ [.step j input]) := by
  obtain ⟨hfree, -, hlock, hchecked, hinterval⟩ := hasked.acquired
  obtain ⟨hlatest, hstamp⟩ := hclock.last
  rw [hslot] at hfree hlock hchecked
  rw [hbefore] at hfree hinterval
  rw [hafter] at hlock hchecked hinterval
  have hrun : (w.config ops).run (es ++ [.step j input]) =
      ((w.config ops).run es).step (.step j input) := Config.run_append ..
  have hmine : ∀ d', LoadCall w ops (es ++ [.step j input]) j d' → d'.slot.input = input := by
    intro d' hd'
    rw [hcalled d' hd'.called, hslot]
  have helapsed : ∀ i d', LoadCall w ops es i d' →
      w.policy.refreshSeconds ≤ input.stamp - d'.slot.input.stamp :=
    h.since_call hclock hslot hbefore hasked
  refine ⟨?_, ?_, ?_, ?_⟩
  · intro i o ho hrefreshes hrunning hholds
    rw [hrun] at hrunning ⊢
    by_cases hij : i = j
    · rw [hij]
      exact hlock
    · have hheld := h.holds_other hij ho hrefreshes hrunning hholds
      have hdead : ((w.config ops).run es).live i = false := hfree i hheld
      rw [live_of_other hij hrunning] at hdead
      cases hdead
  · intro i d' hd'
    rw [hrun]
    refine ⟨input.stamp, hchecked, ?_⟩
    by_cases hij : i = j
    · subst hij
      rw [hmine d' hd']
    · have hearlier := hlatest _ (stamp_mem_readings (hd'.of_other hij).mem_doings)
      exact Int.le_trans hearlier hstamp
  · rw [hrun, hinterval]
    exact h.interval
  · intro i k d₁ d₂ hik hd₁ hd₂
    by_cases hij : i = j
    · subst hij
      have hkold := hd₂.of_other (Ne.symm hik)
      rw [hmine d₁ hd₁]
      exact .inr (helapsed k d₂ hkold)
    · have hiold := hd₁.of_other hij
      by_cases hkj : k = j
      · subst hkj
        rw [hmine d₂ hd₂]
        exact .inl (helapsed i d₁ hiold)
      · exact h.apart i k d₁ d₂ hik hiold (hd₂.of_other hkj)

/-- The step of a caller. -/
theorem Spaced.turn (h : Spaced w ops es) (hclock : Forward (es ++ [.step j input]))
    (hlive : ((w.config ops).run es).live j = true) (ho : ops[j]? = some o) (hrefreshes : o.Refreshes)
    (hd : d = ⟨⟨j, ((w.config ops).run es).live, input⟩, ((w.config ops).run es).world,
      (((w.config ops).run es).step (.step j input)).world⟩)
    (hds : (w.config ops).doings j (es ++ [.step j input]) = (w.config ops).doings j es ++ [d])
    (hturn : Turn ((w.config ops).doings j es) d) : Spaced w ops (es ++ [.step j input]) := by
  have hholds := h.holds j o ho hrefreshes hlive
  have hcall : (∀ d', Called ((w.config ops).doings j es ++ [d]) d' →
      Called ((w.config ops).doings j es) d') →
      ∀ d', LoadCall w ops (es ++ [.step j input]) j d' → LoadCall w ops es j d' :=
    fun hcalled d' hd' => ⟨hd'.refreshes, hcalled d' (hds ▸ hd'.called)⟩
  cases hturn with
  | asks hasked hcalled =>
      exact h.ask hclock (by rw [hd]) (by rw [hd]) (by rw [hd]) hasked (hds ▸ hcalled)
  | quiet hquiet hcalled hkept =>
      subst hd
      refine h.calm rfl (hcall hcalled) ?_ ?_ hquiet.interval
      · intro i o' ho' hrefreshes' hrunning hheld
        rw [hquiet.lock]
        by_cases hij : i = j
        · subst hij
          rw [hds] at hheld
          exact hholds (hkept hheld)
        · exact h.holds_other hij ho' hrefreshes' hrunning hheld
      · rw [hquiet.checked]
        exact h.stamped
  | leaves hheld hleaves hleft hcalled =>
      subst hd
      refine h.calm rfl (hcall hcalled) ?_ ?_ hleaves.interval
      · intro i o' ho' hrefreshes' hrunning hheld'
        by_cases hij : i = j
        · subst hij
          rw [hds] at hheld'
          exact absurd hheld' hleft
        · -- two threads would hold the lock
          have hlock := h.holds_other hij ho' hrefreshes' hrunning hheld'
          exact absurd (Option.some.inj (hlock.symm.trans (hholds hheld))) hij
      · rw [hleaves.checked]
        exact h.stamped

/-- The step of a publication. -/
theorem Spaced.publishing (h : Spaced w ops es) (hclock : Forward (es ++ [.step j input]))
    (ho : ops[j]? = some o) (hno : ¬ o.Refreshes)
    (hd : d = ⟨⟨j, ((w.config ops).run es).live, input⟩, ((w.config ops).run es).world,
      (((w.config ops).run es).step (.step j input)).world⟩)
    (hstep : Quiet d ∨ Stamps d) : Spaced w ops (es ++ [.step j input]) := by
  have hnone : ∀ d', ¬ LoadCall w ops (es ++ [.step j input]) j d' := by
    intro d' hd'
    obtain ⟨o', ho', hrefreshes⟩ := hd'.refreshes
    obtain rfl : o = o' := Option.some.inj (ho.symm.trans ho')
    exact hno hrefreshes
  have hlock : d.after.policy.lock = d.before.policy.lock := by
    obtain hquiet | hstamps := hstep
    · exact hquiet.lock
    · exact hstamps.lock
  have hinterval : d.after.policy.refreshSeconds = d.before.policy.refreshSeconds := by
    obtain hquiet | hstamps := hstep
    · exact hquiet.interval
    · exact hstamps.interval
  subst hd
  refine h.calm rfl (fun d' hd' => absurd hd' (hnone d')) ?_ ?_ hinterval
  · intro i o' ho' hrefreshes' hrunning hheld
    rw [hlock]
    by_cases hij : i = j
    · subst hij
      obtain rfl : o = o' := Option.some.inj (ho.symm.trans ho')
      exact absurd hrefreshes' hno
    · exact h.holds_other hij ho' hrefreshes' hrunning hheld
  · intro i d' hd'
    obtain hquiet | hstamps := hstep
    · rw [hquiet.checked]
      exact h.stamped i d' hd'
    · exact ⟨input.now, hstamps.checked, hclock.last.1 _ (stamp_mem_readings hd'.mem_doings)⟩

end

/-- One event of a run without an explicit refresh. -/
theorem Spaced.step (h : Spaced w ops es) (hops : ∀ o ∈ ops, o ≠ .refresh) {e : Event PolicyInput}
    (hclock : Forward (es ++ [e])) : Spaced w ops (es ++ [e]) := by
  cases e with
  | kill j =>
      refine h.idle (fun i => ?_) ?_ fun i hi => ?_
      · rw [doings_snoc]
        exact List.append_nil _
      · by_cases hlive : ((w.config ops).run es).live j = true
        · simp [Config.step, hlive]
        · simp [Config.step, hlive]
      · by_cases hij : i = j
        · subst hij
          by_contra hdead
          have hsame : ((w.config ops).run es).step (.kill i) = (w.config ops).run es := if_neg hdead
          rw [hsame] at hi
          exact hdead hi
        · have hsame : (((w.config ops).run es).step (.kill j)).threads[i]? =
              ((w.config ops).run es).threads[i]? := Config.thread_step (Ne.symm hij) _
          rw [Config.live, hsame] at hi
          exact hi
  | step j input =>
      obtain ⟨hnone, hstep⟩ | ⟨hsome, hlive⟩ := ((w.config ops).run es).doing_cases j input
      · refine h.idle (fun i => ?_) (by rw [hstep]) fun i hi => by rwa [hstep] at hi
        by_cases hij : i = j
        · rw [hij, doings_snoc, hnone]
          exact List.append_nil _
        · exact doings_snoc_other hij
      · obtain ⟨o, ho⟩ := op_of_live hlive
        have hds : (w.config ops).doings j (es ++ [.step j input]) = (w.config ops).doings j es ++
            (((w.config ops).run es).doing j (.step j input)).toList := doings_snoc j _
        rw [hsome, Option.toList_some] at hds
        obtain ⟨rest, hpath⟩ : ∃ rest,
            o.program.Path ((w.config ops).doings j (es ++ [.step j input])) rest := path_op ho
        rw [hds] at hpath
        cases o with
        | refresh => exact absurd rfl (hops _ (List.mem_of_getElem? ho))
        | grantFor call => exact h.turn hclock hlive ho trivial rfl hds (turn_refreshing hpath)
        | mayCall call => exact h.turn hclock hlive ho trivial rfl hds (turn_refreshing hpath)
        | publish doc =>
            exact h.publishing hclock ho id rfl (turn_publishing id (fun h => by cases h) hpath)
        | foreignPublish doc =>
            exact h.publishing hclock ho id rfl (turn_publishing id (fun h => by cases h) hpath)

theorem Spaced.run (hops : ∀ o ∈ ops, o ≠ .refresh) (hclock : Forward es) : Spaced w ops es := by
  induction es using List.reverseRecOn with
  | nil => exact spaced_nil
  | append_singleton es e ih =>
      have hbefore : Forward es := by
        have hreadings : readings (es ++ [e]) = readings es ++ readings [e] := List.flatMap_append ..
        unfold Forward at hclock ⊢
        rw [hreadings] at hclock
        exact (List.pairwise_append.mp hclock).1
      exact (ih hbefore).step hops hclock

/-- A caller that has just asked waits for the answer. -/
theorem path_asked {answer : Option Compiled → PolicyOutcome V}
    {d₁ d : PolicyDoing S V} (hdue : Due d₁)
    (hasks : Asks d) {rest : Co PolicyInput (PolicyWorld S V) (PolicyOutcome V)}
    (h : (DeclarativePolicy.refreshIfDue >>= fun _ =>
      Co.atomic (DeclarativePolicy.decideWith answer)).Path [d₁, d] rest) :
    ∃ version k, some (some rest) = some (some (Co.await (DeclarativePolicy.load version) k)) := by
  obtain ⟨fresh, hb, h⟩ := h
  obtain ⟨hfresh, -⟩ := Prod.mk.inj (Option.some.inj hb)
  have hstale : fresh = false := hfresh.symm.trans hdue
  subst hstale
  obtain ⟨version, hb, h⟩ := h
  obtain ⟨version', hb'⟩ := hasks
  have hversion : version = some version' :=
    congrArg Prod.fst (Option.some.inj (hb.symm.trans hb'))
  subst hversion
  exact ⟨version', _, congrArg _ (congrArg _ (Co.path_nil.mp h))⟩

/-- What is in flight is a call of `load_policy`: its answer is what the thread waits for. -/
theorem InFlight.awaits_load {i : ℕ} {d : PolicyDoing S V} (h : InFlight w ops es i d) :
    ∃ version k, ((w.config ops).run es).threads[i]? =
      some (some (.await (DeclarativePolicy.load version) k)) := by
  obtain ⟨t, ht⟩ : ∃ t, ((w.config ops).run es).threads[i]? = some (some t) := by
    have hrunning := h.running
    unfold Config.live at hrunning
    split at hrunning
    · exact ⟨_, ‹_›⟩
    · cases hrunning
  obtain ⟨o, ho, hrefreshes⟩ := h.refreshes
  obtain ⟨first, rest, hds, hdue, hasks⟩ := h.called
  have hwaits := h.waits
  rw [hds] at hwaits
  obtain rfl : rest = [] := by simpa using hwaits
  have hthread : (w.config ops).threads[i]? = some (some o.program) := by
    simp [PolicyWorld.config, ho]
  obtain ⟨rest, hpath, hend⟩ := Config.path_doings hthread es
  rw [hds] at hpath
  rw [ht, hend t ht]
  cases o with
  | publish doc => exact hrefreshes.elim
  | refresh => exact hrefreshes.elim
  | foreignPublish doc => exact hrefreshes.elim
  | grantFor call => exact path_asked hdue hasks hpath
  | mayCall call => exact path_asked hdue hasks hpath

/-- On one replica, in every run of callers and publications without an explicit refresh and
    with a clock that does not go back: two calls of `load_policy` are never in flight at
    once, and any two are at least `refresh_seconds` apart. -/
theorem source_asked_once_per_interval (w : PolicyWorld S V) (ops : List PolicyOp)
    (hops : ∀ o ∈ ops, o ≠ .refresh) (es : List (Event PolicyInput)) (hclock : Forward es) :
    (∀ i j d d', InFlight w ops es i d → InFlight w ops es j d' → i = j) ∧
      ∀ i j d d', i ≠ j → LoadCall w ops es i d → LoadCall w ops es j d' →
        w.policy.refreshSeconds ≤ d'.slot.input.stamp - d.slot.input.stamp ∨
          w.policy.refreshSeconds ≤ d.slot.input.stamp - d'.slot.input.stamp := by
  have hspaced : Spaced w ops es := .run hops hclock
  have hlocked : ∀ i d, InFlight w ops es i d →
      ((w.config ops).run es).world.policy.lock = some i := by
    intro i d h
    obtain ⟨o, ho, hrefreshes⟩ := h.refreshes
    have hheld : Holds ((w.config ops).doings i es) := ⟨d, h.called, by rw [h.waits]; decide⟩
    exact hspaced.holds i o ho hrefreshes h.running hheld
  refine ⟨fun i j d d' h h' => ?_, hspaced.apart⟩
  exact Option.some.inj ((hlocked i d h).symm.trans (hlocked j d' h'))

end

/-- A replica that has loaded nothing, and asks every five seconds. -/
def unasked : PolicyWorld MemoryPolicySource ℕ :=
  { source := .ofDoc (some (.dict [])), policy := .ofSource ℕ 5000000, trail := [] }

/-- Two callers and a publication. -/
def callers : List PolicyOp :=
  [.grantFor ⟨"1", "alice", "bank", "wire", .dict [], []⟩,
    .mayCall ⟨"2", "bob", "bank", "wire", .dict [], []⟩, .publish (.dict [])]

/-- Both callers find the policy due; the first takes the lock, the second waits for it. -/
def begun : List (Event PolicyInput) :=
  [.step 0 { now := 0 }, .step 1 { now := 1 }, .step 0 { now := 2, stamp := 3 }, .step 1 { now := 4 }]

/-- The first caller's load is in flight, and it is the only one. -/
theorem source_asked_once_per_interval_begun :
    letI := PrintTables.ascii
    (∃ d, InFlight unasked callers begun 0 d) ∧
      ∀ j d, InFlight unasked callers begun j d → j = 0 := by
  let tables : PrintTables := PrintTables.ascii
  have hfirst : ∃ d, InFlight unasked callers begun 0 d :=
    ⟨_, ⟨⟨_, rfl, trivial⟩, ⟨_, _, rfl, rfl, _, rfl⟩⟩, rfl, rfl⟩
  refine ⟨hfirst, fun j d h => ?_⟩
  obtain ⟨d₀, h₀⟩ := hfirst
  have hops : ∀ o ∈ callers, o ≠ .refresh := by
    intro o ho hrefresh
    subst hrefresh
    simp [callers] at ho
  have hclock : Forward begun := by
    show [(0 : ℤ), 0, 1, 1, 2, 3, 4, 4].Pairwise (· ≤ ·)
    decide
  exact (source_asked_once_per_interval unasked callers hops begun hclock).1 j 0 d d₀ h h₀

end ToolGateway.Policy
