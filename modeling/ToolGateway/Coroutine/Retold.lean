/-
  ToolGateway.Coroutine.Retold

  Threads that put what they come to in other words.  A layer over a program that
  takes no step of its own, such as an edge that turns outcomes into responses, has
  the runs of the program under it: the world is the same after the same events, and
  each thread's outcome is that one, put in the layer's words.
-/

import ToolGateway.Coroutine.Program

namespace Coroutine

variable {ι W α β γ : Type}

namespace Co

/-- The program, its result put in other words. -/
def retold (f : α → β) (c : Co ι W α) : Co ι W β := c >>= fun a => ret (f a)

variable {f : α → β}

@[simp] theorem retold_ret (a : α) : (ret a : Co ι W α).retold f = ret (f a) := rfl

theorem retold_retold (c : Co ι W α) (g : β → γ) : (c.retold f).retold g = c.retold (g ∘ f) := by
  induction c with
  | ret a => rfl
  | await block k ih =>
      show await block _ = await block _
      exact congrArg _ (funext ih)

end Co

namespace Config

/-- Each thread's result in the words for it. -/
def retold (f : ℕ → α → β) (c : Config ι W α) : Config ι W β :=
  { world := c.world, threads := c.threads.mapIdx fun i t => t.map (Co.retold (f i)) }

variable {f : ℕ → α → β} (c : Config ι W α)

@[simp] theorem world_retold : (c.retold f).world = c.world := rfl

theorem getElem?_retold (i : ℕ) :
    (c.retold f).threads[i]? = c.threads[i]?.map (Option.map (Co.retold (f i))) :=
  List.getElem?_mapIdx

theorem live_retold : (c.retold f).live = c.live := by
  funext i
  unfold live
  rw [getElem?_retold]
  cases c.threads[i]? with
  | none => rfl
  | some t =>
      cases t with
      | none => rfl
      | some co => cases co <;> rfl

theorem outcome_retold (i : ℕ) : (c.retold f).outcome i = (c.outcome i).map (f i) := by
  unfold outcome
  rw [getElem?_retold]
  cases c.threads[i]? with
  | none => rfl
  | some t =>
      cases t with
      | none => rfl
      | some co => cases co <;> rfl

theorem retold_set (w : W) (i : ℕ) (t : Option (Co ι W α)) :
    (Config.mk w (c.threads.set i t)).retold f =
      ⟨w, (c.retold f).threads.set i (t.map (Co.retold (f i)))⟩ := by
  show Config.mk w _ = Config.mk w _
  congr 1
  refine List.ext_getElem? fun j => ?_
  rw [List.getElem?_mapIdx, List.getElem?_set, List.getElem?_set, retold, List.length_mapIdx,
    List.getElem?_mapIdx]
  by_cases hij : i = j
  · subst hij
    by_cases hlt : i < c.threads.length
    · simp [hlt]
    · simp [hlt]
  · simp [hij]

/-- One step. -/
theorem step_retold (e : Event ι) : (c.retold f).step e = (c.step e).retold f := by
  cases e with
  | kill i =>
      show (if (c.retold f).live i then _ else _) = Config.retold f (if c.live i then _ else _)
      rw [live_retold]
      by_cases hlive : c.live i = true
      · rw [if_pos hlive, if_pos hlive, retold_set]
        rfl
      · rw [if_neg hlive, if_neg hlive]
  | step i input =>
      simp only [step, getElem?_retold, live_retold]
      cases hi : c.threads[i]? with
      | none => rfl
      | some t =>
          cases t with
          | none => rfl
          | some co =>
              cases co with
              | ret a => rfl
              | await block k =>
                  simp only [Option.map_some, Co.retold, Co.await_bind, world_retold]
                  cases block ⟨i, c.live, input⟩ c.world with
                  | none => rfl
                  | some r => exact (retold_set c r.2 i (some (k r.1))).symm

/-- Every run. -/
theorem run_retold (es : List (Event ι)) : (c.retold f).run es = (c.run es).retold f := by
  induction es generalizing c with
  | nil => rfl
  | cons e es ih => rw [run_cons, run_cons, step_retold, ih]

end Config

end Coroutine
