/-
  ToolGateway.Coroutine.Rely

  Rely-guarantee reasoning for coroutines.

  A protocol is an invariant of the world and, for each thread, what it may rely
  on about the steps of the others; the relation may say more while the thread
  is live.  `Wp P i c Q w` holds when thread `i`, running `c` from the world `w`
  among threads that keep the protocol, keeps it as well and reaches `Q` with
  what it returns.  `run_keeps` turns this into a statement about every run.
-/

import ToolGateway.Coroutine.Program

namespace Coroutine

variable {ι W α β : Type}

/-- What all threads keep, and what each of them may rely on while others run. -/
structure Protocol (W : Type) where
  inv : W → Prop
  /-- what the other threads may do, as seen by thread `i` (live or not) -/
  rely : ℕ → Bool → W → W → Prop
  refl : ∀ i live w, rely i live w w
  trans : ∀ i live {w₁ w₂ w₃}, rely i live w₁ w₂ → rely i live w₂ w₃ → rely i live w₁ w₃

namespace Protocol

/-- The thread's own step keeps the protocol. -/
structure Guarantee (P : Protocol W) (slot : Slot ι) (w w' : W) : Prop where
  inv : P.inv w'
  others : ∀ j, j ≠ slot.me → P.rely j (slot.live j) w w'

/-- A step that leaves the world alone keeps the protocol. -/
theorem Guarantee.refl {P : Protocol W} (slot : Slot ι) {w : W} (h : P.inv w) :
    P.Guarantee slot w w :=
  ⟨h, fun j _ => P.refl j _ w⟩

end Protocol

/-- Weakest precondition of a program of thread `i` under a protocol. -/
def Wp (P : Protocol W) (i : ℕ) : Co ι W α → (α → W → Prop) → W → Prop
  | .ret a, Q, w => Q a w
  | .await block k, Q, w =>
      ∀ w₁, P.rely i true w w₁ → P.inv w₁ →
        ∀ slot : Slot ι, slot.me = i → slot.live i = true →
          ∀ x w₂, block slot w₁ = some (x, w₂) →
            P.Guarantee slot w₁ w₂ ∧ Wp P i (k x) Q w₂

section
variable {P : Protocol W} {i : ℕ} {w : W}

/-- While a thread waits, the others may go on. -/
theorem Wp.await_stable {block : Slot ι → W → Option (β × W)} {k : β → Co ι W α}
    {Q : α → W → Prop} {w' : W} (h : Wp P i (.await block k) Q w) (hrely : P.rely i true w w') :
    Wp P i (.await block k) Q w' :=
  fun w₁ hr => h w₁ (P.trans i true hrely hr)

theorem Wp.mono {Q Q' : α → W → Prop} {c : Co ι W α} (h : Wp P i c Q w) (hinv : P.inv w)
    (hQ : ∀ a w', P.inv w' → Q a w' → Q' a w') : Wp P i c Q' w := by
  induction c generalizing w with
  | ret a => exact hQ a w hinv h
  | await block k ih =>
      intro w₁ hr hi slot hme hlive x w₂ hb
      obtain ⟨hg, hk⟩ := h w₁ hr hi slot hme hlive x w₂ hb
      exact ⟨hg, ih x hk hg.inv⟩

theorem Wp.bind {c : Co ι W α} {f : α → Co ι W β} {Q : β → W → Prop}
    (h : Wp P i c (fun a w' => Wp P i (f a) Q w') w) : Wp P i (c >>= f) Q w := by
  induction c generalizing w with
  | ret a => exact h
  | await block k ih =>
      intro w₁ hr hi slot hme hlive x w₂ hb
      obtain ⟨hg, hk⟩ := h w₁ hr hi slot hme hlive x w₂ hb
      exact ⟨hg, ih x hk⟩

/-- One await point. -/
theorem Wp.atomic {block : Slot ι → W → Option (β × W)} {Q : β → W → Prop}
    (h : ∀ w₁, P.rely i true w w₁ → P.inv w₁ →
      ∀ slot : Slot ι, slot.me = i → slot.live i = true →
        ∀ x w₂, block slot w₁ = some (x, w₂) → P.Guarantee slot w₁ w₂ ∧ Q x w₂) :
    Wp P i (Co.atomic block) Q w :=
  h

end

-- ============================================================================
-- Runs
-- ============================================================================

/-- The world satisfies the invariant, and every thread that was not killed its
    precondition: with what it returned, `Q`. -/
structure Config.Keeps (P : Protocol W) (Q : ℕ → α → W → Prop) (c : Config ι W α) : Prop where
  inv : P.inv c.world
  threads : ∀ i co, c.threads[i]? = some (some co) → Wp P i co (Q i) c.world

namespace Config.Keeps

variable {P : Protocol W} {Q : ℕ → α → W → Prop}

theorem outcome {c : Config ι W α} (h : c.Keeps P Q) {i : ℕ} {a : α}
    (ha : c.outcome i = some a) : Q i a c.world := by
  unfold Config.outcome at ha
  split at ha
  · next b hb =>
      have hab : b = a := by simpa using ha
      have hwp := h.threads i _ hb
      rw [hab] at hwp
      exact hwp
  · cases ha

/-- A thread other than the one that ran still has its precondition. -/
theorem other {c : Config ι W α} (h : c.Keeps P Q)
    (hQ : ∀ i a w w', P.rely i false w w' → Q i a w → Q i a w') {w : W} {j : ℕ} {co : Co ι W α}
    (hj : c.threads[j]? = some (some co)) (hrely : P.rely j (c.live j) c.world w) :
    Wp P j co (Q j) w := by
  have hwp := h.threads j co hj
  cases co with
  | ret a =>
      have hdone : c.live j = false := by simp [Config.live, hj]
      rw [hdone] at hrely
      exact hQ j a c.world w hrely hwp
  | await block k =>
      have hlive : c.live j = true := by simp [Config.live, hj]
      rw [hlive] at hrely
      exact hwp.await_stable hrely

theorem step {c : Config ι W α} (h : c.Keeps P Q)
    (hQ : ∀ i a w w', P.rely i false w w' → Q i a w → Q i a w') (e : Event ι) :
    (c.step e).Keeps P Q := by
  rcases c.step_cases e with hsame | ⟨i, input, β, block, k, x, w, ht, hlive, hb, hstep⟩ |
    ⟨i, _, hstep⟩
  · rw [hsame]
    exact h
  · have hi : i < c.threads.length := (List.getElem?_eq_some_iff.mp ht).1
    obtain ⟨hg, hk⟩ := h.threads i _ ht c.world (P.refl i true _) h.inv ⟨i, c.live, input⟩ rfl
      hlive x w hb
    rw [hstep]
    refine ⟨hg.inv, fun j co hj => ?_⟩
    by_cases hij : i = j
    · subst hij
      have hco : k x = co := by simpa [List.getElem?_set_self hi] using hj
      rw [← hco]
      exact hk
    · have hj' : c.threads[j]? = some (some co) := by
        simpa [List.getElem?_set_ne hij] using hj
      exact h.other hQ hj' (hg.others j (Ne.symm hij))
  · rw [hstep]
    refine ⟨h.inv, fun j co hj => ?_⟩
    by_cases hij : i = j
    · subst hij
      rw [List.getElem?_set] at hj
      simp only [if_true] at hj
      split at hj <;> simp at hj
    · exact h.threads j co (by simpa [List.getElem?_set_ne hij] using hj)

/-- Every run of threads that keep the protocol keeps it. -/
theorem run {c : Config ι W α} (h : c.Keeps P Q)
    (hQ : ∀ i a w w', P.rely i false w w' → Q i a w → Q i a w') (es : List (Event ι)) :
    (c.run es).Keeps P Q := by
  induction es generalizing c with
  | nil => exact h
  | cons e es ih => exact ih (h.step hQ e)

/-- What a step does, as everybody sees it but the thread that takes it. -/
theorem rely_others {c : Config ι W α} (h : c.Keeps P Q) {e : Event ι} {j : ℕ}
    (hj : ∀ input, e ≠ .step j input) : P.rely j (c.live j) c.world (c.step e).world := by
  cases e with
  | kill i =>
      have hsame : (c.step (.kill i)).world = c.world := by
        by_cases hlive : c.live i = true
        · simp [Config.step, hlive]
        · simp [Config.step, hlive]
      rw [hsame]
      exact P.refl j _ _
  | step i input =>
      cases ht : c.threads[i]? with
      | none =>
          simp only [Config.step, ht]
          exact P.refl j _ _
      | some t =>
          cases t with
          | none =>
              simp only [Config.step, ht]
              exact P.refl j _ _
          | some co =>
              cases co with
              | ret a =>
                  simp only [Config.step, ht]
                  exact P.refl j _ _
              | await block k =>
                  simp only [Config.step, ht]
                  cases hb : block ⟨i, c.live, input⟩ c.world with
                  | none => exact P.refl j _ _
                  | some r =>
                      have hlive : c.live i = true := by simp [Config.live, ht]
                      obtain ⟨hg, -⟩ := h.threads i _ ht c.world (P.refl i true _) h.inv
                        ⟨i, c.live, input⟩ rfl hlive r.1 r.2 hb
                      exact hg.others j fun heq => hj input (heq ▸ rfl)

/-- What an outsider relies on holds between two moments of a run. -/
theorem rely_step {c : Config ι W α} (h : c.Keeps P Q) {j : ℕ} (hj : c.threads.length ≤ j)
    (e : Event ι) : P.rely j false c.world (c.step e).world := by
  rcases c.step_cases e with hsame | ⟨i, input, β, block, k, x, w, ht, hlive, hb, hstep⟩ |
    ⟨i, _, hstep⟩
  · rw [hsame]
    exact P.refl j false _
  · have hi : i < c.threads.length := (List.getElem?_eq_some_iff.mp ht).1
    obtain ⟨hg, -⟩ := h.threads i _ ht c.world (P.refl i true _) h.inv ⟨i, c.live, input⟩ rfl
      hlive x w hb
    have hout : c.live j = false := by simp [Config.live, List.getElem?_eq_none hj]
    have hrely := hg.others j (show j ≠ i by omega)
    rw [hstep, ← hout]
    exact hrely
  · rw [hstep]
    exact P.refl j false _

theorem length_step (c : Config ι W α) (e : Event ι) :
    (c.step e).threads.length = c.threads.length := by
  rcases c.step_cases e with hsame | ⟨i, input, β, block, k, x, w, ht, hlive, hb, hstep⟩ |
    ⟨i, _, hstep⟩
  · rw [hsame]
  · rw [hstep]
    exact List.length_set
  · rw [hstep]
    exact List.length_set

theorem rely_run {c : Config ι W α} (h : c.Keeps P Q)
    (hQ : ∀ i a w w', P.rely i false w w' → Q i a w → Q i a w') {j : ℕ}
    (hj : c.threads.length ≤ j) (es : List (Event ι)) :
    P.rely j false c.world (c.run es).world := by
  induction es generalizing c with
  | nil => exact P.refl j false _
  | cons e es ih =>
      have hlen : (c.step e).threads.length ≤ j := by
        rw [length_step]
        exact hj
      exact P.trans j false (h.rely_step hj e) (ih (h.step hQ e) hlen)

end Config.Keeps

end Coroutine
