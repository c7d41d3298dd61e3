/-
  ToolGateway.Coroutine.Given

  Programs that only go on where a fact is known of the step and the world.  A run
  in which the fact holds at every step is a run of the threads so restricted, and
  a specification of a restricted program may use the fact at each of its await
  points: what is already known of the runs, or of the services behind them.
  `SpecGiven` is `Spec` for restricted programs, with the same rules.
-/

import ToolGateway.Coroutine.Steps

namespace Coroutine

variable {ε σ ι W α β M : Type}

-- ============================================================================
-- Restricted programs
-- ============================================================================

namespace Co

open Classical in
/-- The block that waits where the fact does not hold. -/
noncomputable def restrict (fact : Slot ι → W → Prop) (block : Slot ι → W → Option (β × W))
    (slot : Slot ι) (w : W) : Option (β × W) :=
  if fact slot w then block slot w else none

/-- The program that waits where the fact does not hold. -/
noncomputable def given (fact : Slot ι → W → Prop) : Co ι W α → Co ι W α
  | .ret a => .ret a
  | .await block k => .await (restrict fact block) fun x => (k x).given fact

variable {fact : Slot ι → W → Prop}

theorem restrict_pos {block : Slot ι → W → Option (β × W)} {slot : Slot ι} {w : W}
    (h : fact slot w) : restrict fact block slot w = block slot w := if_pos h

theorem restrict_neg {block : Slot ι → W → Option (β × W)} {slot : Slot ι} {w : W}
    (h : ¬ fact slot w) : restrict fact block slot w = none := if_neg h

@[simp] theorem given_ret (a : α) : (ret a : Co ι W α).given fact = ret a := rfl

@[simp] theorem given_bind (c : Co ι W α) (g : α → Co ι W β) :
    (c >>= g).given fact = c.given fact >>= fun a => (g a).given fact := by
  induction c with
  | ret a => rfl
  | await block k ih =>
      show await _ (fun x => ((k x) >>= g).given fact) = await _ fun x => _
      exact congrArg _ (funext ih)

end Co

namespace Config

/-- All threads restricted. -/
noncomputable def given (fact : Slot ι → W → Prop) (c : Config ι W α) : Config ι W α :=
  { world := c.world, threads := c.threads.map (Option.map (Co.given fact)) }

variable {fact : Slot ι → W → Prop} (c : Config ι W α)

@[simp] theorem world_given : (c.given fact).world = c.world := rfl

theorem getElem?_given (i : ℕ) :
    (c.given fact).threads[i]? = c.threads[i]?.map (Option.map (Co.given fact)) :=
  List.getElem?_map

theorem live_given : (c.given fact).live = c.live := by
  funext i
  unfold live
  rw [getElem?_given]
  cases c.threads[i]? with
  | none => rfl
  | some t =>
      cases t with
      | none => rfl
      | some co => cases co <;> rfl

theorem outcome_given (i : ℕ) : (c.given fact).outcome i = c.outcome i := by
  unfold outcome
  rw [getElem?_given]
  cases c.threads[i]? with
  | none => rfl
  | some t =>
      cases t with
      | none => rfl
      | some co => cases co <;> rfl

/-- The fact holds at this event. -/
def Known (fact : Slot ι → W → Prop) (c : Config ι W α) : Event ι → Prop
  | .step i input => fact ⟨i, c.live, input⟩ c.world
  | .kill _ => True

/-- One step of the restricted threads. -/
theorem step_given {e : Event ι} (h : c.Known fact e) : (c.given fact).step e = (c.step e).given fact := by
  cases e with
  | kill i =>
      show (if (c.given fact).live i then _ else _) = Config.given fact (if c.live i then _ else _)
      rw [live_given]
      split
      · show Config.mk c.world _ = Config.mk c.world _
        rw [given, List.map_set]
        rfl
      · rfl
  | step i input =>
      have hfact : fact ⟨i, c.live, input⟩ c.world := h
      simp only [step, getElem?_given, live_given]
      cases hi : c.threads[i]? with
      | none => rfl
      | some t =>
          cases t with
          | none => rfl
          | some co =>
              cases co with
              | ret a => rfl
              | await block k =>
                  simp only [Option.map_some, Co.given, world_given]
                  rw [Co.restrict_pos hfact]
                  cases block ⟨i, c.live, input⟩ c.world with
                  | none => rfl
                  | some r => simp [given, List.map_set]

/-- A run in which the fact holds at every step is one of the restricted threads. -/
theorem run_given {es : List (Event ι)}
    (h : ∀ es₁ e es₂, es = es₁ ++ e :: es₂ → (c.run es₁).Known fact e) :
    (c.given fact).run es = (c.run es).given fact := by
  induction es generalizing c with
  | nil => rfl
  | cons e es ih =>
      rw [run_cons, step_given c (h [] e es rfl), ih]
      · rfl
      · intro es₁ e' es₂ heq
        exact h (e :: es₁) e' es₂ (by rw [heq]; rfl)

end Config

-- ============================================================================
-- Rules
-- ============================================================================

namespace Discipline

variable {D : Discipline W M} {fact : Slot ι → W → Prop} {i : ℕ} {pre : List M} {s : σ}

/-- An await point that makes a mark, or makes none, where the fact is known. -/
theorem Triple.mark_given {block : Slot ι → W → Option (β × W)} {post : β → List M → Prop}
    (h : ∀ (slot : Slot ι) (w : W) (x : β) (w' : W), fact slot w → D.protocol.inv w →
      D.Knows i pre w → slot.me = i → block slot w = some (x, w') → D.agrees w' ∧
        ((D.trail w' = D.trail w ∧ post x pre) ∨
          ∃ m, D.trail w' = (i, m) :: D.trail w ∧ D.guard i m (D.trail w) ∧
            (∀ j, D.strikes m (D.trail w) j → slot.live j = false) ∧ post x (m :: pre))) :
    D.Triple i pre ((Co.atomic block).given fact) post := by
  show D.Triple i pre (Co.atomic (Co.restrict fact block)) post
  refine Triple.mark fun slot w x w' hinv hk hme hb => ?_
  by_cases hfact : fact slot w
  · rw [Co.restrict_pos hfact] at hb
    exact h slot w x w' hfact hinv hk hme hb
  · rw [Co.restrict_neg hfact] at hb
    cases hb

variable (D fact) in
/-- `Spec` for the restricted program. -/
def SpecGiven (i : ℕ) (pre : List M) (s : σ) (m : Prog ε σ ι W α)
    (post : Except ε α → σ → List M → Prop) : Prop :=
  D.Triple i pre ((m.exec s).given fact) fun r marks => post r.1 r.2 marks

namespace SpecGiven

theorem pure {a : α} {post : Except ε α → σ → List M → Prop} (h : post (.ok a) s pre) :
    D.SpecGiven fact i pre s (pure a : Prog ε σ ι W α) post :=
  Triple.ret h

theorem throw {e : ε} {post : Except ε α → σ → List M → Prop} (h : post (.error e) s pre) :
    D.SpecGiven fact i pre s (throw e : Prog ε σ ι W α) post :=
  Triple.ret h

theorem mono {m : Prog ε σ ι W α} {post post' : Except ε α → σ → List M → Prop}
    (h : D.SpecGiven fact i pre s m post)
    (hpost : ∀ r s' marks, post r s' marks → post' r s' marks) :
    D.SpecGiven fact i pre s m post' :=
  Triple.mono h fun r marks hp => hpost r.1 r.2 marks hp

theorem bind {m : Prog ε σ ι W α} {g : α → Prog ε σ ι W β}
    {mid : Except ε α → σ → List M → Prop} {post : Except ε β → σ → List M → Prop}
    (h : D.SpecGiven fact i pre s m mid)
    (hok : ∀ a s' marks, mid (.ok a) s' marks → D.SpecGiven fact i marks s' (g a) post)
    (herror : ∀ e s' marks, mid (.error e) s' marks → post (.error e) s' marks) :
    D.SpecGiven fact i pre s (m >>= g) post := by
  show D.Triple i pre (Co.given fact (m.exec s >>= _)) _
  rw [Co.given_bind]
  refine Triple.bind h ?_
  rintro ⟨r, s'⟩ marks hmid
  cases r with
  | ok a => exact hok a s' marks hmid
  | error e => exact Triple.ret (herror e s' marks hmid)

theorem tryCatch {m : Prog ε σ ι W α} {handler : ε → Prog ε σ ι W α}
    {mid post : Except ε α → σ → List M → Prop} (h : D.SpecGiven fact i pre s m mid)
    (hok : ∀ a s' marks, mid (.ok a) s' marks → post (.ok a) s' marks)
    (herror : ∀ e s' marks, mid (.error e) s' marks →
      D.SpecGiven fact i marks s' (handler e) post) :
    D.SpecGiven fact i pre s (tryCatch m handler) post := by
  show D.Triple i pre (Co.given fact (m.exec s >>= _)) _
  rw [Co.given_bind]
  refine Triple.bind h ?_
  rintro ⟨r, s'⟩ marks hmid
  cases r with
  | ok a => exact Triple.ret (hok a s' marks hmid)
  | error e => exact herror e s' marks hmid

theorem lift {c : Co ι W α} {mid : α → List M → Prop} {post : Except ε α → σ → List M → Prop}
    (h : D.Triple i pre (c.given fact) mid)
    (hpost : ∀ a marks, mid a marks → post (.ok a) s marks) :
    D.SpecGiven fact i pre s (Prog.lift c : Prog ε σ ι W α) post := by
  show D.Triple i pre (Co.given fact ((c >>= _) >>= _)) _
  rw [Co.given_bind, Co.given_bind]
  refine Triple.bind (Triple.bind h fun a marks hmid => ?_) fun _ _ hp => Triple.ret hp
  exact Triple.ret (hpost a marks hmid)

/-- The first statement is a coroutine without exceptions. -/
theorem lift_bind {c : Co ι W α} {g : α → Prog ε σ ι W β} {mid : α → List M → Prop}
    {post : Except ε β → σ → List M → Prop} (h : D.Triple i pre (c.given fact) mid)
    (hg : ∀ a marks, mid a marks → D.SpecGiven fact i marks s (g a) post) :
    D.SpecGiven fact i pre s (Prog.lift c >>= g) post := by
  have hlift : D.SpecGiven fact i pre s (Prog.lift c : Prog ε σ ι W α) fun r s' marks =>
      ∃ a, r = .ok a ∧ s' = s ∧ mid a marks := lift h fun a marks hmid => ⟨a, rfl, rfl, hmid⟩
  refine bind hlift ?_ ?_
  · rintro a s' marks ⟨_, hr, rfl, hmid⟩
    cases hr
    exact hg a marks hmid
  · rintro e s' marks ⟨_, hr, -⟩
    cases hr

theorem get_bind {g : σ → Prog ε σ ι W β} {post : Except ε β → σ → List M → Prop}
    (h : D.SpecGiven fact i pre s (g s) post) :
    D.SpecGiven fact i pre s (MonadState.get >>= g) post := by
  have hget : D.SpecGiven fact i pre s (MonadState.get : Prog ε σ ι W σ) fun r s' marks =>
      r = .ok s ∧ s' = s ∧ marks = pre := Triple.ret ⟨rfl, rfl, rfl⟩
  refine bind hget ?_ ?_
  · rintro a s' marks ⟨hr, rfl, rfl⟩
    cases hr
    exact h
  · rintro e s' marks ⟨hr, -⟩
    cases hr

theorem modify_bind {u : σ → σ} {g : PUnit → Prog ε σ ι W β}
    {post : Except ε β → σ → List M → Prop} (h : D.SpecGiven fact i pre (u s) (g ⟨⟩) post) :
    D.SpecGiven fact i pre s ((modify u : Prog ε σ ι W PUnit) >>= g) post := by
  have hmodify : D.SpecGiven fact i pre s (modify u : Prog ε σ ι W PUnit) fun r s' marks =>
      r = .ok ⟨⟩ ∧ s' = u s ∧ marks = pre := Triple.ret ⟨rfl, rfl, rfl⟩
  refine bind hmodify ?_ ?_
  · rintro a s' marks ⟨-, rfl, rfl⟩
    exact h
  · rintro e s' marks ⟨hr, -⟩
    cases hr

end SpecGiven

end Discipline

end Coroutine
