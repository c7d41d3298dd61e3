/-
  ToolGateway.Coroutine.Follow

  One thread of a run, by its own steps.  Its blocks act on a world that the others
  change in between; `Config.doings` lists what it did, step by step, and `Co.Takes`
  says which lists of steps take a program to a result.  What a thread returned it
  returned by taking the steps listed, so a fact known at each of them can be used
  all along the program.
-/

import ToolGateway.Coroutine.Steps

namespace Coroutine

variable {ε σ ι W α β γ : Type}

/-- One step a thread took: what it saw, the world it found and the one it left. -/
structure Doing (ι W : Type) where
  slot : Slot ι
  before : W
  after : W

namespace Co

/-- These steps take the program to this result. -/
def Takes : Co ι W α → List (Doing ι W) → α → Prop
  | ret a, ds, b => ds = [] ∧ a = b
  | await block k, ds, b => ∃ d ds' x, ds = d :: ds' ∧ block d.slot d.before = some (x, d.after) ∧
      (k x).Takes ds' b

/-- One after the other. -/
theorem takes_bind {c : Co ι W α} {f : α → Co ι W β} {ds : List (Doing ι W)} {b : β} :
    (c >>= f).Takes ds b ↔ ∃ ds₁ a ds₂, ds = ds₁ ++ ds₂ ∧ c.Takes ds₁ a ∧ (f a).Takes ds₂ b := by
  induction c generalizing ds with
  | ret a =>
      show (f a).Takes ds b ↔ _
      constructor
      · intro h
        exact ⟨[], a, ds, rfl, ⟨rfl, rfl⟩, h⟩
      · rintro ⟨_, _, ds₂, rfl, ⟨rfl, rfl⟩, h⟩
        exact h
  | await block k ih =>
      show (∃ d ds' x, ds = d :: ds' ∧ _ ∧ (k x >>= f).Takes ds' b) ↔ _
      constructor
      · rintro ⟨d, ds', x, rfl, hb, h⟩
        obtain ⟨ds₁, a, ds₂, rfl, h₁, h₂⟩ := (ih x).mp h
        exact ⟨d :: ds₁, a, ds₂, rfl, ⟨d, ds₁, x, rfl, hb, h₁⟩, h₂⟩
      · rintro ⟨_, a, ds₂, rfl, ⟨d, ds₁, x, rfl, hb, h₁⟩, h₂⟩
        exact ⟨d, ds₁ ++ ds₂, x, rfl, hb, (ih x).mpr ⟨ds₁, a, ds₂, rfl, h₁, h₂⟩⟩

end Co

namespace Prog

variable {s : σ} {ds : List (Doing ι W)} {r : Except ε β × σ}

theorem exec_lift_bind (c : Co ι W α) (f : α → Prog ε σ ι W β) (s : σ) :
    (lift c >>= f).exec s = c >>= fun a => (f a).exec s := by
  induction c with
  | ret a => rfl
  | await block k ih =>
      show Co.await block _ = Co.await block _
      exact congrArg _ (funext ih)

/-- A coroutine without exceptions comes first. -/
theorem takes_lift_bind {c : Co ι W α} {f : α → Prog ε σ ι W β} :
    ((lift c >>= f).exec s).Takes ds r ↔
      ∃ ds₁ a ds₂, ds = ds₁ ++ ds₂ ∧ c.Takes ds₁ a ∧ ((f a).exec s).Takes ds₂ r := by
  rw [exec_lift_bind]
  exact Co.takes_bind

/-- A result is handed on; an exception ends the program. -/
theorem takes_bind {m : Prog ε σ ι W α} {f : α → Prog ε σ ι W β} :
    ((m >>= f).exec s).Takes ds r ↔
      ∃ ds₁ x s' ds₂, ds = ds₁ ++ ds₂ ∧ (m.exec s).Takes ds₁ (x, s') ∧
        ((∃ a, x = .ok a ∧ ((f a).exec s').Takes ds₂ r) ∨
          ∃ e, x = .error e ∧ ds₂ = [] ∧ r = (.error e, s')) := by
  show (m.exec s >>= _).Takes ds r ↔ _
  rw [Co.takes_bind]
  constructor
  · rintro ⟨ds₁, ⟨x, s'⟩, ds₂, rfl, h₁, h₂⟩
    refine ⟨ds₁, x, s', ds₂, rfl, h₁, ?_⟩
    cases x with
    | ok a => exact Or.inl ⟨a, rfl, h₂⟩
    | error e =>
        obtain ⟨rfl, hr⟩ := h₂
        exact Or.inr ⟨e, rfl, rfl, hr.symm⟩
  · rintro ⟨ds₁, _, s', ds₂, rfl, h₁, ⟨a, rfl, h₂⟩ | ⟨e, rfl, rfl, rfl⟩⟩
    · exact ⟨ds₁, _, ds₂, rfl, h₁, h₂⟩
    · exact ⟨ds₁, _, [], rfl, h₁, rfl, rfl⟩

end Prog

-- ============================================================================
-- Runs
-- ============================================================================

namespace Config

/-- What thread `i` does at this event, if it does anything. -/
def doing (c : Config ι W α) (i : ℕ) : Event ι → Option (Doing ι W)
  | .kill _ => none
  | .step j input =>
      if j = i then
        match c.threads[i]? with
        | some (some (.await block _)) =>
            (block ⟨i, c.live, input⟩ c.world).map fun r => ⟨⟨i, c.live, input⟩, c.world, r.2⟩
        | _ => none
      else none

/-- What thread `i` did in the run. -/
def doings (c : Config ι W α) (i : ℕ) : List (Event ι) → List (Doing ι W)
  | [] => []
  | e :: es => (c.doing i e).toList ++ (c.step e).doings i es

theorem doing_other (c : Config ι W α) {i : ℕ} {e : Event ι} (h : e.thread ≠ i) :
    c.doing i e = none := by
  cases e with
  | kill j => rfl
  | step j input => exact if_neg h

/-- A thread that is through, or dead, stays so. -/
theorem thread_settled {c : Config ι W α} {i : ℕ} {t : Option (Co ι W α)}
    (h : c.threads[i]? = some t) (hdone : t = none ∨ ∃ a, t = some (.ret a)) (e : Event ι) :
    (c.step e).threads[i]? = some t := by
  have hdead : c.live i = false := by
    rcases hdone with rfl | ⟨a, rfl⟩ <;> rw [live, h]
  by_cases hi : e.thread = i
  · cases e with
    | kill j =>
        obtain rfl : j = i := hi
        rw [step, hdead]
        exact h
    | step j input =>
        obtain rfl : j = i := hi
        rcases hdone with rfl | ⟨a, rfl⟩ <;> (simp only [step, h])
  · rw [thread_step hi, h]

theorem thread_settled_run {c : Config ι W α} {i : ℕ} {t : Option (Co ι W α)}
    (h : c.threads[i]? = some t) (hdone : t = none ∨ ∃ a, t = some (.ret a)) (es : List (Event ι)) :
    (c.run es).threads[i]? = some t := by
  induction es generalizing c with
  | nil => exact h
  | cons e es ih => exact ih (thread_settled h hdone e)

/-- A thread that is through does nothing more. -/
theorem doings_returned {c : Config ι W α} {i : ℕ} {a : α} (h : c.threads[i]? = some (some (.ret a)))
    (es : List (Event ι)) : c.doings i es = [] := by
  induction es generalizing c with
  | nil => rfl
  | cons e es ih =>
      have hnone : c.doing i e = none := by
        cases e with
        | kill j => rfl
        | step j input => simp only [doing, h, ite_self]
      rw [doings, hnone, ih (thread_settled h (Or.inr ⟨a, rfl⟩) e)]
      rfl

/-- What a thread returned it returned by doing what it did. -/
theorem takes_doings {c : Config ι W α} {i : ℕ} {co : Co ι W α} (h : c.threads[i]? = some (some co))
    {es : List (Event ι)} {a : α} (ha : (c.run es).outcome i = some a) :
    co.Takes (c.doings i es) a := by
  induction es generalizing c co with
  | nil =>
      rw [run_nil, outcome, h] at ha
      cases co with
      | ret b => exact ⟨rfl, by simpa using ha⟩
      | await block k => cases ha
  | cons e es ih =>
      cases co with
      | ret b =>
          rw [outcome, thread_settled_run h (Or.inr ⟨b, rfl⟩)] at ha
          exact ⟨doings_returned h _, by simpa using ha⟩
      | await block k =>
          by_cases hi : e.thread = i
          swap
          · rw [doings, doing_other c hi]
            exact ih (by rw [thread_step hi, h]) ha
          have hlt : i < c.threads.length := (List.getElem?_eq_some_iff.mp h).1
          cases e with
          | kill j =>
              obtain rfl : j = i := hi
              have hlive : c.live j = true := by rw [live, h]
              have hkilled : (c.step (.kill j)).threads[j]? = some none := by
                rw [step, if_pos hlive]
                exact List.getElem?_set_self hlt
              rw [run_cons, outcome, thread_settled_run hkilled (Or.inl rfl)] at ha
              cases ha
          | step j input =>
              obtain rfl : j = i := hi
              cases hb : block ⟨j, c.live, input⟩ c.world with
              | none =>
                  have hwaits : c.step (.step j input) = c := by simp only [step, h, hb]
                  have hnone : c.doing j (.step j input) = none := by
                    simp only [doing, h, hb, if_true, Option.map_none]
                  rw [run_cons, hwaits] at ha
                  rw [doings, hnone, hwaits]
                  exact ih h ha
              | some r =>
                  have hthread : (c.step (.step j input)).threads[j]? = some (some (k r.1)) := by
                    simp only [step, h, hb]
                    exact List.getElem?_set_self hlt
                  have hsome : c.doing j (.step j input)
                      = some ⟨⟨j, c.live, input⟩, c.world, r.2⟩ := by
                    simp only [doing, h, hb, if_true, Option.map_some]
                  rw [doings, hsome]
                  exact ⟨_, _, r.1, rfl, hb, ih hthread ha⟩

/-- A thread that has returned leaves the world as it is. -/
theorem step_returned {c : Config ι W α} {e : Event ι} {a : α}
    (h : c.threads[e.thread]? = some (some (.ret a))) : c.step e = c := by
  have hdead : c.live e.thread = false := by rw [live, h]
  cases e with
  | kill j => exact if_neg (by simpa [Event.thread] using hdead)
  | step j input =>
      have hthread : c.threads[j]? = some (some (.ret a)) := h
      simp only [step, hthread]

/-- A thread whose next block is always enabled, and which returns in the run, runs
    that block at its first event. -/
theorem first_step {c : Config ι W α} {i : ℕ} {β : Type} {block : Slot ι → W → Option (β × W)}
    {k : β → Co ι W α} (h : c.threads[i]? = some (some (.await block k)))
    (henabled : ∀ slot w, ∃ r, block slot w = some r) {es : List (Event ι)} {a : α}
    (ha : (c.run es).outcome i = some a) :
    ∃ before input after x w, es = before ++ .step i input :: after ∧
      (∀ e ∈ before, e.thread ≠ i) ∧
      block ⟨i, (c.run before).live, input⟩ (c.run before).world = some (x, w) ∧
      ((c.run before).step (.step i input)).world = w ∧
      ((c.run before).step (.step i input)).threads[i]? = some (some (k x)) := by
  induction es generalizing c with
  | nil =>
      rw [run_nil, outcome, h] at ha
      cases ha
  | cons e es ih =>
      by_cases hi : e.thread = i
      · have hlt : i < c.threads.length := (List.getElem?_eq_some_iff.mp h).1
        cases e with
        | kill j =>
            obtain rfl : j = i := hi
            have hlive : c.live j = true := by rw [live, h]
            have hkilled : (c.step (.kill j)).threads[j]? = some none := by
              rw [step, if_pos hlive]
              exact List.getElem?_set_self hlt
            rw [run_cons, outcome, thread_settled_run hkilled (Or.inl rfl)] at ha
            cases ha
        | step j input =>
            obtain rfl : j = i := hi
            obtain ⟨⟨x, w⟩, hblock⟩ := henabled ⟨j, c.live, input⟩ c.world
            have hstep : c.step (.step j input)
                = { world := w, threads := c.threads.set j (some (k x)) } := by
              simp only [step, h, hblock]
            refine ⟨[], input, es, x, w, rfl, by simp, hblock, ?_, ?_⟩
            · rw [run_nil, hstep]
            · rw [run_nil, hstep]
              exact List.getElem?_set_self hlt
      · obtain ⟨before, input, after, x, w, rfl, hbefore, hrest⟩ :=
          ih (by rw [thread_step hi, h]) ha
        exact ⟨e :: before, input, after, x, w, rfl, List.forall_mem_cons.mpr ⟨hi, hbefore⟩, hrest⟩

end Config

end Coroutine
