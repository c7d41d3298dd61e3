/-
  ToolGateway.Coroutine.Program

  Cooperative concurrency over a shared world.

  A coroutine is a tree of await points.  At each of them the scheduler may run
  other threads for any length of time; when it comes back, one atomic block
  acts on the world and the coroutine goes on to its next await point.  A block
  that is not enabled keeps the thread waiting.  Whatever the outside world does
  (its answers, the clock) reaches a block as the input of the step.

  A run is a list of scheduler events: a step of one thread, or its death.
-/

import Mathlib.Data.List.Basic

namespace Coroutine

/-- What a block sees besides the world: the thread it runs in, which threads
    are still running, and the input of the step. -/
structure Slot (ι : Type) where
  me : ℕ
  live : ℕ → Bool
  input : ι

/-- A program of one thread. -/
inductive Co (ι W α : Type) : Type 1 where
  | ret (a : α)
  | await {β : Type} (block : Slot ι → W → Option (β × W)) (k : β → Co ι W α)

namespace Co

variable {ι W α β γ : Type}

/-- One after the other. -/
def bind : Co ι W α → (α → Co ι W β) → Co ι W β
  | ret a, f => f a
  | await block k, f => await block fun x => (k x).bind f

instance : Monad (Co ι W) where
  pure := ret
  bind := bind

/-- One await point. -/
def atomic (block : Slot ι → W → Option (β × W)) : Co ι W β := await block ret

@[simp] theorem pure_eq (a : α) : (pure a : Co ι W α) = ret a := rfl

@[simp] theorem ret_bind (a : α) (f : α → Co ι W β) : ret a >>= f = f a := rfl

@[simp] theorem await_bind (block : Slot ι → W → Option (γ × W)) (k : γ → Co ι W α)
    (f : α → Co ι W β) : await block k >>= f = await block fun x => k x >>= f := rfl

end Co

-- ============================================================================
-- Runs
-- ============================================================================

variable {ι W α : Type}

/-- A thread is a program, or nothing once it was killed. -/
structure Config (ι W α : Type) where
  world : W
  threads : List (Option (Co ι W α))

/-- A step of a thread, with the input that comes to it there, or its end. -/
inductive Event (ι : Type) where
  | step (thread : ℕ) (input : ι)
  | kill (thread : ℕ)

/-- The thread the event is about. -/
def Event.thread : Event ι → ℕ
  | .step i _ | .kill i => i

namespace Config

/-- The thread has neither finished nor been killed. -/
def live (c : Config ι W α) (i : ℕ) : Bool :=
  match c.threads[i]? with
  | some (some (.await _ _)) => true
  | _ => false

/-- What the thread returned. -/
def outcome (c : Config ι W α) (i : ℕ) : Option α :=
  match c.threads[i]? with
  | some (some (.ret a)) => some a
  | _ => none

/-- One scheduler event. -/
def step (c : Config ι W α) : Event ι → Config ι W α
  | .step i input =>
      match c.threads[i]? with
      | some (some (.await block k)) =>
          match block ⟨i, c.live, input⟩ c.world with
          | some (x, w) => { world := w, threads := c.threads.set i (some (k x)) }
          | none => c
      | _ => c
  | .kill i => if c.live i then { c with threads := c.threads.set i none } else c

/-- A whole schedule. -/
def run (c : Config ι W α) (events : List (Event ι)) : Config ι W α := events.foldl step c

@[simp] theorem run_nil (c : Config ι W α) : c.run [] = c := rfl

@[simp] theorem run_cons (c : Config ι W α) (e : Event ι) (es : List (Event ι)) :
    c.run (e :: es) = (c.step e).run es := rfl

theorem run_append (c : Config ι W α) (es es' : List (Event ι)) :
    c.run (es ++ es') = (c.run es).run es' := List.foldl_append

/-- What one event can do: nothing, let one live thread run its block, or kill
    one. -/
theorem step_cases (c : Config ι W α) (e : Event ι) :
    c.step e = c ∨
    (∃ (i : ℕ) (input : ι) (β : Type) (block : Slot ι → W → Option (β × W)) (k : β → Co ι W α)
        (x : β) (w : W),
      c.threads[i]? = some (some (.await block k)) ∧ c.live i = true ∧
        block ⟨i, c.live, input⟩ c.world = some (x, w) ∧
        c.step e = { world := w, threads := c.threads.set i (some (k x)) }) ∨
    (∃ i, c.live i = true ∧ c.step e = { c with threads := c.threads.set i none }) := by
  cases e with
  | kill i =>
      by_cases h : c.live i = true
      · exact Or.inr (Or.inr ⟨i, h, by simp [step, h]⟩)
      · exact Or.inl (by simp [step, h])
  | step i input =>
      cases ht : c.threads[i]? with
      | none => exact Or.inl (by simp [step, ht])
      | some t =>
          cases t with
          | none => exact Or.inl (by simp [step, ht])
          | some co =>
              cases co with
              | ret a => exact Or.inl (by simp [step, ht])
              | await block k =>
                  have hlive : c.live i = true := by simp [live, ht]
                  cases hb : block ⟨i, c.live, input⟩ c.world with
                  | none => exact Or.inl (by simp [step, ht, hb])
                  | some xw =>
                      obtain ⟨x, w⟩ := xw
                      exact Or.inr (Or.inl
                        ⟨i, input, _, block, k, x, w, ht, hlive, hb, by simp [step, ht, hb]⟩)

/-- A step leaves the other threads where they are. -/
theorem thread_step {i : ℕ} {e : Event ι} (h : e.thread ≠ i) (c : Config ι W α) :
    (c.step e).threads[i]? = c.threads[i]? := by
  cases e with
  | kill j =>
      by_cases hlive : c.live j = true
      · simp only [step, hlive, if_true]
        exact List.getElem?_set_ne h
      · simp only [step, hlive]
        rfl
  | step j input =>
      simp only [step]
      cases ht : c.threads[j]? with
      | none => rfl
      | some t =>
          cases t with
          | none => rfl
          | some co =>
              cases co with
              | ret a => rfl
              | await block k =>
                  cases hb : block ⟨j, c.live, input⟩ c.world with
                  | none => simp only [hb]
                  | some r =>
                      simp only [hb]
                      exact List.getElem?_set_ne h

theorem thread_of_live {c : Config ι W α} {i : ℕ} (h : c.live i = true) :
    ∃ co, c.threads[i]? = some (some co) := by
  unfold live at h
  split at h
  · next block k ht => exact ⟨_, ht⟩
  · cases h

/-- An event cancels no thread but the one that it kills. -/
theorem spared_step {c : Config ι W α} {i : ℕ} {co : Co ι W α} (h : c.threads[i]? = some (some co))
    {e : Event ι} (he : e ≠ .kill i) : ∃ co', (c.step e).threads[i]? = some (some co') := by
  by_cases hthread : e.thread = i
  · cases e with
    | kill j => exact absurd (congrArg Event.kill hthread) he
    | step j input =>
        obtain rfl : j = i := hthread
        have hlt : j < c.threads.length := (List.getElem?_eq_some_iff.mp h).1
        simp only [step, h]
        cases co with
        | ret a => exact ⟨.ret a, h⟩
        | await block k =>
            cases hb : block ⟨j, c.live, input⟩ c.world with
            | none => exact ⟨.await block k, by simp only [hb, h]⟩
            | some r =>
                refine ⟨k r.1, ?_⟩
                simp only [hb]
                exact List.getElem?_set_self hlt
  · exact ⟨co, (thread_step hthread c).trans h⟩

/-- A thread that no event is about stays where it is. -/
theorem thread_run {i : ℕ} {es : List (Event ι)} (h : ∀ e ∈ es, e.thread ≠ i) (c : Config ι W α) :
    (c.run es).threads[i]? = c.threads[i]? := by
  induction es generalizing c with
  | nil => rfl
  | cons e es ih =>
      have hne : e.thread ≠ i := h e List.mem_cons_self
      rw [run_cons, ih fun e' he' => h e' (List.mem_cons_of_mem e he')]
      exact thread_step hne c

end Config

end Coroutine
