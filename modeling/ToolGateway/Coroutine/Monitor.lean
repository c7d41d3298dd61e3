/-
  ToolGateway.Coroutine.Monitor

  Monitors.  A monitor watches the steps of one thread and keeps a state of its own:
  what the thread has done so far, as far as it matters for what it may do next.
  `Passes` says that every step of a program is one that the monitor lets through,
  whatever world the step finds; a run of programs that pass has a state for each of
  its threads, and what is said of the run so far and of these states holds all
  along if every step that is let through keeps it.

  Nothing is said about what the others do in between.  What a thread may rely on
  is the business of `Rely` and `Trail`.
-/

import Mathlib.Data.List.Induction
import Mathlib.Logic.Function.Basic
import ToolGateway.Coroutine.Paths
import ToolGateway.Coroutine.Views

namespace Coroutine

variable {ε σ ι W W' α β κ : Type}

/-- In this state the step may be taken, and leads to that one. -/
abbrev Monitor (κ ι W : Type) := κ → Slot ι → W → W → κ → Prop

/-- The same steps, on the part of the world that `view` shows. -/
def Monitor.zoom (view : W' → W) (put : W → W' → W') (M : Monitor κ ι W) : Monitor κ ι W' :=
  fun p slot w w' q => ∃ w₁, w' = put w₁ w ∧ M p slot (view w) w₁ q

variable {M : Monitor κ ι W} {p : κ}

-- ============================================================================
-- Programs
-- ============================================================================

namespace Co

/-- Every step of the program is let through, and its result fits the state that it
    ends in. -/
def Passes (M : Monitor κ ι W) (Q : κ → α → Prop) : Co ι W α → κ → Prop
  | ret a, p => Q p a
  | await block k, p => ∀ (slot : Slot ι) (w : W) x w', block slot w = some (x, w') →
      ∃ q, M p slot w w' q ∧ (k x).Passes M Q q

namespace Passes

theorem mono {Q Q' : κ → α → Prop} {c : Co ι W α} (h : c.Passes M Q p)
    (hQ : ∀ q a, Q q a → Q' q a) : c.Passes M Q' p := by
  induction c generalizing p with
  | ret a => exact hQ p a h
  | await block k ih =>
      intro slot w x w' hb
      obtain ⟨q, hM, hk⟩ := h slot w x w' hb
      exact ⟨q, hM, ih x hk⟩

theorem bind {Q : κ → β → Prop} {c : Co ι W α} {f : α → Co ι W β}
    (h : c.Passes M (fun q a => (f a).Passes M Q q) p) : (c >>= f).Passes M Q p := by
  induction c generalizing p with
  | ret a => exact h
  | await block k ih =>
      intro slot w x w' hb
      obtain ⟨q, hM, hk⟩ := h slot w x w' hb
      exact ⟨q, hM, ih x hk⟩

theorem zoom {Q : κ → α → Prop} {c : Co ι W α} (h : c.Passes M Q p) (view : W' → W)
    (put : W → W' → W') : (c.zoom view put).Passes (M.zoom view put) Q p := by
  induction c generalizing p with
  | ret a => exact h
  | await block k ih =>
      intro slot w x w' hb
      obtain ⟨⟨y, w₁⟩, hy, heq⟩ := Option.map_eq_some_iff.mp hb
      obtain ⟨rfl, rfl⟩ := Prod.mk.inj heq
      obtain ⟨q, hM, hk⟩ := h slot (view w) y w₁ hy
      exact ⟨q, ⟨w₁, rfl, hM⟩, ih y hk⟩

/-- One await point. -/
theorem atomic {Q : κ → β → Prop} {block : Slot ι → W → Option (β × W)}
    (h : ∀ (slot : Slot ι) (w : W) x w', block slot w = some (x, w') →
      ∃ q, M p slot w w' q ∧ Q q x) : (Co.atomic block).Passes M Q p :=
  h

end Passes

end Co

namespace Prog

/-- `Co.Passes`, for a program with exceptions and a context. -/
def Passes (M : Monitor κ ι W) (p : κ) (s : σ) (m : Prog ε σ ι W α)
    (post : κ → Except ε α → σ → Prop) : Prop :=
  (m.exec s).Passes M (fun q r => post q r.1 r.2) p

namespace Passes

variable {s : σ} {post : κ → Except ε β → σ → Prop}

theorem pure {b : β} (h : post p (.ok b) s) :
    Passes M p s (pure b : Prog ε σ ι W β) post := h

theorem throw {e : ε} (h : post p (.error e) s) :
    Passes M p s (throw e : Prog ε σ ι W β) post := h

theorem update {u : σ → σ} {post : κ → Except ε PUnit → σ → Prop} (h : post p (.ok ⟨⟩) (u s)) :
    Passes M p s (modify u : Prog ε σ ι W PUnit) post := h

theorem mono {m : Prog ε σ ι W β} {mid : κ → Except ε β → σ → Prop} (h : Passes M p s m mid)
    (hpost : ∀ q r s', mid q r s' → post q r s') : Passes M p s m post :=
  Co.Passes.mono h fun q r hmid => hpost q r.1 r.2 hmid

theorem bind {m : Prog ε σ ι W α} {f : α → Prog ε σ ι W β} {mid : κ → Except ε α → σ → Prop}
    (h : Passes M p s m mid)
    (hok : ∀ q a s', mid q (.ok a) s' → Passes M q s' (f a) post)
    (herror : ∀ q e s', mid q (.error e) s' → post q (.error e) s') :
    Passes M p s (m >>= f) post := by
  refine Co.Passes.bind (Co.Passes.mono h ?_)
  rintro q ⟨r, s'⟩ hmid
  cases r with
  | ok a => exact hok q a s' hmid
  | error e => exact herror q e s' hmid

theorem tryCatch {m : Prog ε σ ι W β} {handler : ε → Prog ε σ ι W β}
    {mid : κ → Except ε β → σ → Prop} (h : Passes M p s m mid)
    (hok : ∀ q b s', mid q (.ok b) s' → post q (.ok b) s')
    (herror : ∀ q e s', mid q (.error e) s' → Passes M q s' (handler e) post) :
    Passes M p s (tryCatch m handler) post := by
  refine Co.Passes.bind (Co.Passes.mono h ?_)
  rintro q ⟨r, s'⟩ hmid
  cases r with
  | ok b => exact hok q b s' hmid
  | error e => exact herror q e s' hmid

theorem lift {c : Co ι W β} (h : c.Passes M (fun q b => post q (.ok b) s) p) :
    Passes M p s (Prog.lift c : Prog ε σ ι W β) post :=
  Co.Passes.bind (Co.Passes.bind (h.mono fun _ _ hpost => hpost))

/-- The first statement is a coroutine without exceptions. -/
theorem lift_bind {c : Co ι W α} {f : α → Prog ε σ ι W β}
    (h : c.Passes M (fun q a => Passes M q s (f a) post) p) :
    Passes M p s (Prog.lift c >>= f) post :=
  Co.Passes.bind (Co.Passes.bind (Co.Passes.bind (h.mono fun _ _ hf => hf)))

theorem get_bind {f : σ → Prog ε σ ι W β} (h : Passes M p s (f s) post) :
    Passes M p s (MonadState.get >>= f) post := h

theorem modify_bind {u : σ → σ} {f : PUnit → Prog ε σ ι W β} (h : Passes M p (u s) (f ⟨⟩) post) :
    Passes M p s ((modify u : Prog ε σ ι W PUnit) >>= f) post := h

end Passes

end Prog

-- ============================================================================
-- Runs
-- ============================================================================

namespace Config

/-- Each thread that was not killed passes its monitor from the state that is kept for
    it. -/
def Monitored (M : ℕ → Monitor κ ι W) (Q : ℕ → κ → α → Prop) (states : ℕ → κ)
    (c : Config ι W α) : Prop :=
  ∀ (i : ℕ) (co : Co ι W α), c.threads[i]? = some (some co) → co.Passes (M i) (Q i) (states i)

namespace Monitored

variable {M : ℕ → Monitor κ ι W} {Q : ℕ → κ → α → Prop} {states : ℕ → κ} {c : Config ι W α}

/-- What a thread returned fits its state. -/
theorem outcome (h : c.Monitored M Q states) {i : ℕ} {a : α} (ha : c.outcome i = some a) :
    Q i (states i) a := by
  unfold Config.outcome at ha
  split at ha
  · next b hb =>
      have hfits : Q i (states i) b := h i _ hb
      rw [← Option.some.inj ha]
      exact hfits
  · cases ha

/-- An event leaves the world and the states alone, or it is a step that was let through. -/
theorem step (h : c.Monitored M Q states) (e : Event ι) :
    ((c.step e).world = c.world ∧ (c.step e).Monitored M Q states) ∨
    ∃ i input q, e = .step i input ∧ i < c.threads.length ∧ c.live i = true ∧
      M i (states i) ⟨i, c.live, input⟩ c.world (c.step e).world q ∧
      (c.step e).Monitored M Q (Function.update states i q) := by
  cases e with
  | kill i =>
      refine Or.inl ?_
      by_cases hlive : c.live i = true
      · refine ⟨by simp [Config.step, hlive], fun j co hj => ?_⟩
        rw [Config.step, if_pos hlive, List.getElem?_set] at hj
        split at hj
        · split at hj <;> cases hj
        · exact h j co hj
      · rw [Config.step, if_neg hlive]
        exact ⟨rfl, h⟩
  | step i input =>
      cases ht : c.threads[i]? with
      | none => exact Or.inl (by simp only [Config.step, ht, h, and_self])
      | some t =>
          cases t with
          | none => exact Or.inl (by simp only [Config.step, ht, h, and_self])
          | some co =>
              cases co with
              | ret a => exact Or.inl (by simp only [Config.step, ht, h, and_self])
              | await block k =>
                  cases hb : block ⟨i, c.live, input⟩ c.world with
                  | none => exact Or.inl (by simp only [Config.step, ht, hb, h, and_self])
                  | some r =>
                      have hlt : i < c.threads.length := (List.getElem?_eq_some_iff.mp ht).1
                      obtain ⟨q, hM, hk⟩ := h i _ ht _ _ r.1 r.2 hb
                      have hlive : c.live i = true := by simp [Config.live, ht]
                      refine Or.inr ⟨i, input, q, rfl, hlt, hlive, ?_, fun j co hj => ?_⟩
                      · simp only [Config.step, ht, hb]
                        exact hM
                      · simp only [Config.step, ht, hb] at hj
                        by_cases hij : i = j
                        · subst hij
                          rw [List.getElem?_set_self hlt] at hj
                          rw [Function.update_self, ← Option.some.inj (Option.some.inj hj)]
                          exact hk
                        · rw [List.getElem?_set_ne hij] at hj
                          rw [Function.update_of_ne (Ne.symm hij)]
                          exact h j co hj

/-- Every run of threads that pass has a state for each of them, and what is said of
    the events so far and of these states is kept up if the steps keep it up that are
    let through. -/
theorem run (h : c.Monitored M Q states) (inv : List (Event ι) → (ℕ → κ) → Prop)
    (hinv : inv [] states)
    (hidle : ∀ es e states, (c.run (es ++ [e])).world = (c.run es).world → inv es states →
      inv (es ++ [e]) states)
    (hstep : ∀ es states i input q, i < c.threads.length → inv es states →
      M i (states i) ⟨i, (c.run es).live, input⟩ (c.run es).world
        (c.run (es ++ [.step i input])).world q →
      inv (es ++ [.step i input]) (Function.update states i q)) (es : List (Event ι)) :
    ∃ states', inv es states' ∧ (c.run es).Monitored M Q states' := by
  induction es using List.reverseRecOn with
  | nil => exact ⟨states, hinv, h⟩
  | append_singleton es e ih =>
      obtain ⟨states', hinv', hafter⟩ := ih
      have hnext : c.run (es ++ [e]) = (c.run es).step e := run_append c es [e]
      rcases hafter.step e with ⟨hworld, hmonitored⟩ | ⟨i, input, q, rfl, hlt, -, hM, hmonitored⟩
      · exact ⟨states', hidle es e states' (hnext ▸ hworld) hinv', hnext ▸ hmonitored⟩
      · rw [length_run] at hlt
        exact ⟨_, hstep es states' i input q hlt hinv' (hnext ▸ hM), hnext ▸ hmonitored⟩

end Monitored

end Config

end Coroutine
