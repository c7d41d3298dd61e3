/-
  ToolGateway.Gateway.Accounting

  The audit log accounts for what happened: tickets filed, verdicts recorded, tools
  run.  A thread that did such a thing owes an entry about it, makes it before it
  does another, and is not through before it is made; so at every moment of every
  run the entries are as many as the things done, but for one of each thread that
  has not finished.  Such a thread is at work, or was killed in between.
-/

import Mathlib.Algebra.BigOperators.Group.Finset.Piecewise
import ToolGateway.Gateway.Watched

namespace ToolGateway

open Coroutine Py

section
variable {σ : Type} [TicketStore σ] [LawfulTicketStore σ] {s : Settings}

-- ============================================================================
-- What is owed
-- ============================================================================

/-- 1 if this is what the thread owes. -/
def owes (a : Account) (deeds : List Deed) : ℕ := if owed deeds = some a then 1 else 0

/-- Whoever owes an entry has made the mark. -/
theorem marked_of_owed {a : Account} {deeds : List Deed} (h : owed deeds = some a) :
    ∃ m ∈ marksOf deeds, m.account = some a := by
  induction deeds with
  | nil => cases h
  | cons d deeds ih =>
      obtain ⟨now, act⟩ := d
      cases act with
      | quiet => exact ih h
      | marks m =>
          cases hm : m.account with
          | none =>
              rw [owed_marks_none hm] at h
              obtain ⟨m', hm', ha⟩ := ih h
              exact ⟨m', List.mem_cons_of_mem m hm', ha⟩
          | some b =>
              rw [owed_marks_some hm] at h
              exact ⟨m, List.mem_cons_self, hm.trans h⟩
      | tells e =>
          cases he : e.account with
          | none =>
              rw [owed_tells_none he] at h
              exact ih h
          | some b =>
              rw [owed_tells_some (by rw [he]; rfl)] at h
              cases h

/-- The marks that are accounted for as `a`. -/
def marked (a : Account) (trail : TrailOf Mark) : ℕ :=
  trail.countP fun e => e.2.account = some a

/-- The entries that account for `a`. -/
def entered (a : Account) (audit : List AuditEvent) : ℕ :=
  audit.countP fun e => e.account = some a

/-- What one thread does, it owes or enters. -/
theorem balance_step {a : Account} {deeds : List Deed} {slot : Slot Input} {w w' : World σ}
    {deeds' : List Deed} {verdict : TicketId → Decision → Prop}
    (h : watch σ s verdict deeds slot w w' deeds') :
    marked a w'.trail + owes a deeds + entered a w.audit =
      marked a w.trail + owes a deeds' + entered a w'.audit := by
  obtain ⟨act, rfl, htakes, hfitting⟩ := h
  cases act with
  | quiet =>
      obtain ⟨htrail, haudit⟩ := htakes
      rw [htrail, haudit, owes, owes, owed_quiet]
  | marks m =>
      obtain ⟨htrail, haudit⟩ := htakes
      rw [htrail, haudit, marked, List.countP_cons]
      cases hm : m.account with
      | none => simp only [owes, owed_marks_none hm, marked]; simp
      | some b =>
          have hclear : owed deeds = none := hfitting.1 (by rw [hm]; rfl)
          simp only [owes, owed_marks_some hm, hclear, marked, Option.some.injEq, decide_eq_true_eq]
          simp
  | tells e =>
      obtain ⟨htrail, haudit⟩ := htakes
      rw [htrail, haudit, entered, entered, List.countP_append, List.countP_singleton]
      cases he : e.account with
      | none => simp only [owes, owed_tells_none he]; simp
      | some b =>
          have howed : owed deeds = some b := hfitting b he
          simp only [owes, owed_tells_some (show e.account.isSome by rw [he]; rfl), howed,
            Option.some.injEq, decide_eq_true_eq]
          simp
          omega

-- ============================================================================
-- All threads
-- ============================================================================

/-- The books are balanced, and the marks that the threads remember are in the trail. -/
structure Balanced (a : Account) (n : ℕ) (states : ℕ → List Deed) (w : World σ) : Prop where
  sums : marked a w.trail = entered a w.audit + ∑ i ∈ Finset.range n, owes a (states i)
  remembered : ∀ i m, m ∈ marksOf (states i) → (i, m) ∈ w.trail

theorem owes_update (a : Account) {n i : ℕ} (hi : i < n) (states : ℕ → List Deed)
    (deeds : List Deed) :
    ∑ j ∈ Finset.range n, owes a (Function.update states i deeds j) + owes a (states i) =
      ∑ j ∈ Finset.range n, owes a (states j) + owes a deeds := by
  have hmem : i ∈ Finset.range n := Finset.mem_range.mpr hi
  rw [← Finset.add_sum_erase _ _ hmem, ← Finset.add_sum_erase _ (fun j => owes a (states j)) hmem,
    Function.update_self]
  have hrest : ∑ j ∈ (Finset.range n).erase i, owes a (Function.update states i deeds j) =
      ∑ j ∈ (Finset.range n).erase i, owes a (states j) := by
    refine Finset.sum_congr rfl fun j hj => ?_
    rw [Function.update_of_ne (Finset.ne_of_mem_erase hj)]
  rw [hrest]
  omega

theorem Balanced.step {a : Account} {n : ℕ} {states : ℕ → List Deed} {slot : Slot Input}
    {w w' : World σ} {deeds : List Deed} {verdict : TicketId → Decision → Prop}
    (h : Balanced a n states w) (hlt : slot.me < n)
    (hwatch : watch σ s verdict (states slot.me) slot w w' deeds) :
    Balanced a n (Function.update states slot.me deeds) w' := by
  constructor
  · have hstep := balance_step (a := a) hwatch
    have hsum := owes_update a hlt states deeds
    have hbefore := h.sums
    omega
  · intro i m hm
    obtain ⟨act, rfl, htakes, -⟩ := hwatch
    have hkept : w.trail <:+ w'.trail := by
      cases act with
      | marks m => exact htakes.1 ▸ List.suffix_cons _ _
      | _ => exact htakes.1 ▸ List.suffix_rfl
    by_cases hi : i = slot.me
    · subst hi
      rw [Function.update_self] at hm
      cases act with
      | marks m' =>
          rcases List.mem_cons.mp hm with rfl | hm
          · rw [htakes.1]
            exact List.mem_cons_self
          · exact hkept.subset (h.remembered _ m hm)
      | _ => exact hkept.subset (h.remembered _ m hm)
    · rw [Function.update_of_ne hi] at hm
      exact hkept.subset (h.remembered i m hm)

end

-- ============================================================================
-- Runs
-- ============================================================================

/-- In every run of a gateway the audit log accounts for what was done: of each thing
    there are as many entries as there are marks, but for one of each thread that has
    made such a mark and is not through. -/
theorem audit_accounts (σ : Type) [TicketStore σ] [LawfulTicketStore σ] (s : Settings)
    (actors : List Actor) (es : List (Event Input)) (a : Account) :
    ∃ unfinished : Finset ℕ,
      marked a (worldAfter σ s actors es).trail =
        entered a (worldAfter σ s actors es).audit + unfinished.card ∧
      ∀ i ∈ unfinished, toldAfter σ s actors es i = none ∧
        ∃ m, (i, m) ∈ (worldAfter σ s actors es).trail ∧ m.account = some a := by
  have hfresh : Balanced a actors.length (fun _ => []) (World.fresh σ) := by
    refine ⟨?_, fun i m hm => by cases hm⟩
    show 0 = 0 + _
    exact (Nat.zero_add _).symm ▸ (Finset.sum_eq_zero fun i _ => rfl).symm
  have hlength : (gateway σ s actors).threads.length = actors.length := List.length_map _
  obtain ⟨states, hbalanced, hmonitored⟩ := gateway_watched.run
    (fun es states => Balanced a actors.length states (worldAfter σ s actors es)) hfresh
    (fun es e states hworld hbalanced => by rw [worldAfter, hworld]; exact hbalanced)
    (fun es states i input deeds hlt hbalanced hwatch => hbalanced.step (hlength ▸ hlt) hwatch) es
  refine ⟨(Finset.range actors.length).filter fun i => owed (states i) = some a, ?_, ?_⟩
  · rw [Finset.card_filter]
    exact hbalanced.sums
  · intro i hi
    obtain ⟨-, howed⟩ := Finset.mem_filter.mp hi
    constructor
    · cases htold : toldAfter σ s actors es i with
      | none => rfl
      | some r =>
          have hclear := hmonitored.outcome htold
          rw [howed] at hclear
          cases hclear
    · obtain ⟨m, hm, hma⟩ := marked_of_owed howed
      exact ⟨m, hbalanced.remembered i m hm, hma⟩

end ToolGateway
