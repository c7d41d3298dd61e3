/-
  ToolGateway.Python.Raise

  Computations that may raise, put in sequence: what it says about the parts
  that the whole returned, or raised.  A walk over a list that may stop early
  gets to an element when it goes on past all those before it; a comprehension
  over a function that may raise fails at the first element it fails on.
-/

import Mathlib.Data.List.Forall2

namespace Py

-- ============================================================================
-- Walks over a list
-- ============================================================================

section
variable {α : Type}

/-- A walk over the list that goes on past an element when `go` holds of it gets
    to `x`. -/
def Reaches (go : α → Prop) (xs : List α) (x : α) : Prop :=
  ∃ before after, xs = before ++ x :: after ∧ ∀ y ∈ before, go y

theorem not_reaches_nil {go : α → Prop} {x : α} : ¬ Reaches go [] x := by
  rintro ⟨before, after, hsplit, -⟩
  simp at hsplit

theorem reaches_cons {go : α → Prop} {y x : α} {ys : List α} :
    Reaches go (y :: ys) x ↔ x = y ∨ go y ∧ Reaches go ys x := by
  constructor
  · rintro ⟨before, after, hsplit, hbefore⟩
    cases before with
    | nil => exact Or.inl (List.cons.inj hsplit).1.symm
    | cons z before =>
        obtain ⟨rfl, hys⟩ := List.cons.inj hsplit
        have hrest : ∀ w ∈ before, go w := fun w hw => hbefore w (List.mem_cons_of_mem _ hw)
        exact Or.inr ⟨hbefore y List.mem_cons_self, before, after, hys, hrest⟩
  · rintro (rfl | ⟨hy, before, after, rfl, hbefore⟩)
    · exact ⟨[], ys, rfl, fun w hw => by cases hw⟩
    · exact ⟨y :: before, after, rfl, List.forall_mem_cons.mpr ⟨hy, hbefore⟩⟩

/-- Nothing a walk reaches is bad: neither the first element nor, when the walk
    goes on past it, anything it reaches behind. -/
theorem forall_reaches_cons {go good : α → Prop} {y : α} {ys : List α} :
    (∀ x, Reaches go (y :: ys) x → good x) ↔ good y ∧ (go y → ∀ x, Reaches go ys x → good x) := by
  simp only [reaches_cons]
  constructor
  · intro h
    exact ⟨h y (Or.inl rfl), fun hy x hx => h x (Or.inr ⟨hy, hx⟩)⟩
  · rintro ⟨hy, hrest⟩ x (rfl | ⟨hgo, hx⟩)
    · exact hy
    · exact hrest hgo x hx

end

-- ============================================================================
-- Computations that may raise
-- ============================================================================

section
variable {ε α β : Type}

theorem bind_eq_ok {x : Except ε α} {f : α → Except ε β} {b : β} :
    (x >>= f) = .ok b ↔ ∃ a, x = .ok a ∧ f a = .ok b := by
  cases x with
  | error e => simp [bind, Except.bind]
  | ok a => simp [bind, Except.bind]

theorem bind_eq_error {x : Except ε α} {f : α → Except ε β} {e : ε} :
    (x >>= f) = .error e ↔ x = .error e ∨ ∃ a, x = .ok a ∧ f a = .error e := by
  cases x with
  | error e' => simp [bind, Except.bind]
  | ok a => simp [bind, Except.bind]

theorem mapM_eq_ok {f : α → Except ε β} {xs : List α} {ys : List β} :
    xs.mapM f = .ok ys ↔ List.Forall₂ (fun x y => f x = .ok y) xs ys := by
  induction xs generalizing ys with
  | nil =>
      rw [List.mapM_nil, List.forall₂_nil_left_iff]
      exact ⟨fun h => (Except.ok.inj h).symm, fun h => congrArg Except.ok h.symm⟩
  | cons x xs ih =>
      rw [List.mapM_cons, List.forall₂_cons_left_iff, bind_eq_ok]
      constructor
      · rintro ⟨y, hy, hrest⟩
        obtain ⟨rest, hxs, hys⟩ := bind_eq_ok.mp hrest
        exact ⟨y, rest, hy, ih.mp hxs, (Except.ok.inj hys).symm⟩
      · rintro ⟨y, rest, hy, hxs, rfl⟩
        exact ⟨y, hy, bind_eq_ok.mpr ⟨rest, ih.mpr hxs, rfl⟩⟩

/-- The comprehension returns as soon as the function returns on every element. -/
theorem mapM_isOk_of_forall {f : α → Except ε β} {xs : List α}
    (h : ∀ x ∈ xs, ∃ y, f x = .ok y) : ∃ ys, xs.mapM f = .ok ys := by
  induction xs with
  | nil => exact ⟨[], rfl⟩
  | cons x xs ih =>
      obtain ⟨y, hy⟩ := h x (by simp)
      obtain ⟨ys, hys⟩ := ih fun x' hx' => h x' (by simp [hx'])
      exact ⟨y :: ys, mapM_eq_ok.mpr (.cons hy (mapM_eq_ok.mp hys))⟩

theorem forall_isOk_of_mapM {f : α → Except ε β} {xs : List α} {ys : List β}
    (h : xs.mapM f = .ok ys) : ∀ x ∈ xs, ∃ y, f x = .ok y := by
  have hall := mapM_eq_ok.mp h
  clear h
  induction hall with
  | nil => exact fun x hx => by cases hx
  | cons hy _ ih => exact List.forall_mem_cons.mpr ⟨⟨_, hy⟩, ih⟩

/-- The comprehension raises what the function raises on the first element it
    fails on. -/
theorem mapM_eq_error {f : α → Except ε β} {xs : List α} {e : ε} :
    xs.mapM f = .error e ↔ ∃ x, Reaches (fun y => ∃ b, f y = .ok b) xs x ∧ f x = .error e := by
  induction xs with
  | nil =>
      rw [List.mapM_nil]
      constructor
      · exact fun h => by cases h
      · rintro ⟨x, hx, -⟩
        exact absurd hx not_reaches_nil
  | cons x xs ih =>
      rw [List.mapM_cons, bind_eq_error]
      constructor
      · rintro (hx | ⟨y, hy, hrest⟩)
        · exact ⟨x, reaches_cons.mpr (Or.inl rfl), hx⟩
        · rcases bind_eq_error.mp hrest with hxs | ⟨ys, -, hpure⟩
          · obtain ⟨x', hreach, hx'⟩ := ih.mp hxs
            exact ⟨x', reaches_cons.mpr (Or.inr ⟨⟨y, hy⟩, hreach⟩), hx'⟩
          · cases hpure
      · rintro ⟨x', hreach, hx'⟩
        rcases reaches_cons.mp hreach with rfl | ⟨⟨y, hy⟩, hreach⟩
        · exact Or.inl hx'
        · exact Or.inr ⟨y, hy, bind_eq_error.mpr (Or.inl (ih.mpr ⟨x', hreach, hx'⟩))⟩

end

end Py
