/-
  ToolGateway.FixedWindow

  Counting per key in one shared window.  An event falls in a window; the counters
  start over whenever the window is another one than that of the event before, and an
  event of a key is admitted while the key's counter is below the limit.

  Histories are newest first.  A key is admitted too often in a window exactly when it
  has more events there than the limit and an event of another window stands between
  two of them.
-/

import Mathlib.Data.List.Count
import Mathlib.Data.List.Sort

namespace FixedWindow

variable {κ ω : Type} [DecidableEq κ] [DecidableEq ω]

-- ============================================================================
-- Definitions
-- ============================================================================

/-- The events of `k` since the window last changed, if that window is `w`. -/
def counted (k : κ) (w : ω) : List (κ × ω) → ℕ
  | [] => 0
  | e :: h => if e.2 = w then counted k w h + (if e.1 = k then 1 else 0) else 0

/-- The event is admitted after this history. -/
abbrev Admits (limit : ℕ) (h : List (κ × ω)) (e : κ × ω) : Prop := counted e.1 e.2 h < limit

/-- How many events of `k` in `w` have been admitted. -/
def admitted (limit : ℕ) (k : κ) (w : ω) : List (κ × ω) → ℕ
  | [] => 0
  | e :: h => admitted limit k w h + (if e = (k, w) ∧ Admits limit h e then 1 else 0)

/-- An event of another window stands between two events of `k` in `w`. -/
def Scattered (k : κ) (w : ω) (h : List (κ × ω)) : Prop :=
  ∃ e : κ × ω, e.2 ≠ w ∧ [(k, w), e, (k, w)].Sublist h

/-- `k` has at most `limit` events in `w`, or no other window interrupts them. -/
def Tame (limit : ℕ) (k : κ) (w : ω) (h : List (κ × ω)) : Prop :=
  h.count (k, w) ≤ limit ∨ ¬ Scattered k w h

variable {limit : ℕ} {k : κ} {w : ω} {h h' : List (κ × ω)}

-- ============================================================================
-- The counter and the whole history
-- ============================================================================

omit [DecidableEq κ] [DecidableEq ω] in
theorem Scattered.mono (hsub : h'.Sublist h) (hs : Scattered k w h') : Scattered k w h := by
  obtain ⟨e, hne, he⟩ := hs
  exact ⟨e, hne, he.trans hsub⟩

omit [DecidableEq κ] [DecidableEq ω] in
theorem Scattered.reverse (hs : Scattered k w h) : Scattered k w h.reverse := by
  obtain ⟨e, hne, he⟩ := hs
  exact ⟨e, hne, he.reverse⟩

theorem Tame.mono (hsub : h'.Sublist h) (ht : Tame limit k w h) : Tame limit k w h' := by
  obtain hfew | hwhole := ht
  · have hcount : h'.count (k, w) ≤ h.count (k, w) := hsub.count_le (k, w)
    exact .inl (hcount.trans hfew)
  · exact .inr fun hs => hwhole (hs.mono hsub)

/-- Where the history is newest first does not matter to it. -/
theorem tame_reverse : Tame limit k w h.reverse ↔ Tame limit k w h := by
  have hscattered : Scattered k w h.reverse ↔ Scattered k w h := by
    constructor
    · intro hs
      have hback : Scattered k w h.reverse.reverse := hs.reverse
      rwa [List.reverse_reverse] at hback
    · exact Scattered.reverse
  unfold Tame
  rw [List.count_reverse, hscattered]

theorem counted_le_count : counted k w h ≤ h.count (k, w) := by
  induction h with
  | nil => exact Nat.le_refl _
  | cons e h ih =>
      obtain ⟨k', w'⟩ := e
      rw [counted, List.count_cons]
      by_cases hw : w' = w
      · by_cases hk : k' = k
        · simp [hw, hk, ih]
        · simp [hw, hk, ih]
      · simp [hw]

/-- The counter misses an event exactly when another window came after it. -/
theorem counted_lt_count_iff :
    counted k w h < h.count (k, w) ↔ ∃ e : κ × ω, e.2 ≠ w ∧ [e, (k, w)].Sublist h := by
  induction h with
  | nil => simp [counted]
  | cons f h ih =>
      obtain ⟨k', w'⟩ := f
      rw [counted, List.count_cons]
      by_cases hw : w' = w
      · subst hw
        have hgrow : counted k w' h + (if k' = k then 1 else 0) <
            h.count (k, w') + (if ((k', w') == (k, w')) = true then 1 else 0) ↔
              counted k w' h < h.count (k, w') := by
          by_cases hk : k' = k
          · simp [hk]
          · simp [hk]
        rw [if_pos rfl, hgrow, ih]
        constructor
        · rintro ⟨e, hne, he⟩
          exact ⟨e, hne, he.cons _⟩
        · rintro ⟨e, hne, he⟩
          obtain he | ⟨rfl, -⟩ := List.cons_sublist_cons'.mp he
          · exact ⟨e, hne, he⟩
          · exact absurd rfl hne
      · have hdiffer : ((k', w') == (k, w)) = false := by simp [hw]
        rw [if_neg hw, hdiffer]
        constructor
        · intro hpos
          have hmem : (k, w) ∈ h := List.count_pos_iff.mp (by simpa using hpos)
          exact ⟨(k', w'), hw, (List.singleton_sublist.mpr hmem).cons_cons _⟩
        · rintro ⟨e, -, he⟩
          have hmem : (k, w) ∈ h := by
            obtain he | ⟨-, he⟩ := List.cons_sublist_cons'.mp he
            · exact he.subset (List.mem_cons_of_mem _ (List.mem_singleton_self _))
            · exact List.singleton_sublist.mp he
          have hpos : 0 < h.count (k, w) := List.count_pos_iff.mpr hmem
          simpa using hpos

/-- A new event of `k` in `w` scatters them exactly when the counter has missed one. -/
theorem scattered_cons_self :
    Scattered k w ((k, w) :: h) ↔ counted k w h < h.count (k, w) := by
  rw [counted_lt_count_iff]
  constructor
  · rintro ⟨e, hne, he⟩
    obtain he | ⟨-, he⟩ := List.cons_sublist_cons'.mp he
    · exact ⟨e, hne, (List.sublist_cons_self _ _).trans he⟩
    · exact ⟨e, hne, he⟩
  · rintro ⟨e, hne, he⟩
    exact ⟨e, hne, he.cons_cons _⟩

omit [DecidableEq κ] [DecidableEq ω] in
theorem scattered_cons_of_ne {e : κ × ω} (he : e ≠ (k, w)) :
    Scattered k w (e :: h) ↔ Scattered k w h := by
  constructor
  · rintro ⟨f, hne, hf⟩
    obtain hf | ⟨heq, -⟩ := List.cons_sublist_cons'.mp hf
    · exact ⟨f, hne, hf⟩
    · exact absurd heq.symm he
  · exact Scattered.mono (List.sublist_cons_self _ _)

/-- Where the counter has an event and has missed one, they are scattered. -/
theorem scattered_of_counted_pos (hpos : 0 < counted k w h) (hlt : counted k w h < h.count (k, w)) :
    Scattered k w h := by
  induction h with
  | nil => simp [counted] at hpos
  | cons e h ih =>
      obtain ⟨k', w'⟩ := e
      by_cases hw : w' = w
      · subst hw
        by_cases hk : k' = k
        · subst hk
          rw [List.count_cons_self, counted, if_pos rfl, if_pos rfl] at hlt
          exact scattered_cons_self.mpr (by omega)
        · have hne : (k', w') ≠ (k, w') := by simp [hk]
          rw [List.count_cons_of_ne hne, counted, if_pos rfl, if_neg hk] at hlt
          rw [counted, if_pos rfl, if_neg hk] at hpos
          exact (ih hpos hlt).mono (List.sublist_cons_self _ _)
      · rw [counted, if_neg hw] at hpos
        omega

-- ============================================================================
-- How many are admitted
-- ============================================================================

theorem admitted_cons_of_ne {e : κ × ω} (he : e ≠ (k, w)) :
    admitted limit k w (e :: h) = admitted limit k w h := by
  simp [admitted, he]

theorem admitted_cons_self :
    admitted limit k w ((k, w) :: h) = admitted limit k w h + if counted k w h < limit then 1 else 0 := by
  simp [admitted, Admits]

theorem count_cons_of_ne {e : κ × ω} (he : e ≠ (k, w)) : (e :: h).count (k, w) = h.count (k, w) :=
  List.count_cons_of_ne he

/-- Uninterrupted events are admitted up to the limit. -/
theorem admitted_of_not_scattered (hs : ¬ Scattered k w h) :
    admitted limit k w h = min limit (h.count (k, w)) := by
  induction h with
  | nil => simp [admitted]
  | cons e h ih =>
      have hbefore : ¬ Scattered k w h := fun h' => hs (h'.mono (List.sublist_cons_self _ _))
      have hadmitted := ih hbefore
      by_cases he : e = (k, w)
      · subst he
        have hall : counted k w h = h.count (k, w) := by
          have hle : counted k w h ≤ h.count (k, w) := counted_le_count
          have hnot : ¬ counted k w h < h.count (k, w) := fun hlt => hs (scattered_cons_self.mpr hlt)
          omega
        rw [admitted_cons_self, hadmitted, hall, List.count_cons_self]
        split <;> omega
      · rw [admitted_cons_of_ne he, count_cons_of_ne he, hadmitted]

theorem admitted_le_count : admitted limit k w h ≤ h.count (k, w) := by
  induction h with
  | nil => exact Nat.le_refl _
  | cons e h ih =>
      by_cases he : e = (k, w)
      · subst he
        rw [admitted_cons_self, List.count_cons_self]
        split <;> omega
      · rw [admitted_cons_of_ne he, count_cons_of_ne he]
        exact ih

/-- Up to the limit, every event is admitted. -/
theorem le_admitted : min limit (h.count (k, w)) ≤ admitted limit k w h := by
  induction h with
  | nil => simp [admitted]
  | cons e h ih =>
      by_cases he : e = (k, w)
      · subst he
        have hle : counted k w h ≤ h.count (k, w) := counted_le_count
        rw [admitted_cons_self, List.count_cons_self]
        split <;> omega
      · rw [admitted_cons_of_ne he, count_cons_of_ne he]
        exact ih

/-- Interrupted events are admitted past the limit. -/
theorem Scattered.le_admitted (hpos : 0 < limit) (hs : Scattered k w h) :
    min (limit + 1) (h.count (k, w)) ≤ admitted limit k w h := by
  induction h with
  | nil =>
      obtain ⟨e, -, he⟩ := hs
      cases he
  | cons e h ih =>
      by_cases he : e = (k, w)
      · subst he
        have hmissed : counted k w h < h.count (k, w) := scattered_cons_self.mp hs
        rw [admitted_cons_self, List.count_cons_self]
        by_cases hbefore : Scattered k w h
        · have hle := ih hbefore
          split <;> omega
        · -- the first event after the interruption: its counter is at zero
          have hmin : min limit (h.count (k, w)) ≤ admitted limit k w h := FixedWindow.le_admitted
          have hzero : counted k w h = 0 := by
            by_contra hne
            exact hbefore (scattered_of_counted_pos (Nat.pos_of_ne_zero hne) hmissed)
          rw [hzero, if_pos hpos]
          omega
      · rw [admitted_cons_of_ne he, count_cons_of_ne he]
        exact ih ((scattered_cons_of_ne he).mp hs)

/-- A key is admitted at most `limit` times in a window exactly when it is tame there. -/
theorem admitted_le_iff (hpos : 0 < limit) : admitted limit k w h ≤ limit ↔ Tame limit k w h := by
  constructor
  · intro hle
    by_contra hwild
    obtain ⟨hmany, hscattered⟩ := not_or.mp hwild
    have hpast := (not_not.mp hscattered).le_admitted hpos
    omega
  · rintro (hfew | hwhole)
    · exact admitted_le_count.trans hfew
    · rw [admitted_of_not_scattered hwhole]
      exact Nat.min_le_left _ _

-- ============================================================================
-- Other keys' events
-- ============================================================================

/-- The events of one key. -/
def eventsOf (k : κ) (h : List (κ × ω)) : List (κ × ω) := h.filter (·.1 = k)

theorem count_eventsOf : (eventsOf k h).count (k, w) = h.count (k, w) :=
  List.count_filter (by simp)

/-- Leaving out other keys' events changes nothing for an event of `k`, if `k` is tame. -/
theorem admits_iff_of_sublist (hsub : h'.Sublist h) (hsame : eventsOf k h' = eventsOf k h)
    (ht : Tame limit k w ((k, w) :: h)) : Admits limit h' (k, w) ↔ Admits limit h (k, w) := by
  have hcount : h'.count (k, w) = h.count (k, w) := by
    rw [← count_eventsOf, hsame, count_eventsOf]
  have hle : counted k w h ≤ h.count (k, w) := counted_le_count
  have hle' : counted k w h' ≤ h'.count (k, w) := counted_le_count
  show counted k w h' < limit ↔ counted k w h < limit
  obtain hfew | hwhole := ht
  · rw [List.count_cons_self] at hfew
    omega
  · have hall : ¬ counted k w h < h.count (k, w) := fun hlt => hwhole (scattered_cons_self.mpr hlt)
    have hall' : ¬ counted k w h' < h'.count (k, w) := fun hlt =>
      hwhole ((scattered_cons_self.mpr hlt).mono (hsub.cons_cons _))
    omega

/-- The events with their answers, one after the other, after the history `h`. -/
def answers (limit : ℕ) : List (κ × ω) → List (κ × ω) → List ((κ × ω) × Bool)
  | _, [] => []
  | h, e :: es => (e, decide (Admits limit h e)) :: answers limit (e :: h) es

/-- The answers to the events of one key. -/
def answersTo (k : κ) (l : List ((κ × ω) × Bool)) : List Bool :=
  (l.filter (·.1.1 = k)).map Prod.snd

theorem countP_answers {es : List (κ × ω)} :
    (answers limit h es).countP (fun a => a.1 = (k, w) ∧ a.2 = true) + admitted limit k w h =
      admitted limit k w (es.reverse ++ h) := by
  induction es generalizing h with
  | nil => simp [answers]
  | cons e es ih =>
      have hrest := ih (h := e :: h)
      rw [List.reverse_cons, List.append_assoc, List.singleton_append, ← hrest, answers,
        List.countP_cons, admitted]
      simp only [decide_eq_true_eq]
      omega

/-- A sequence without some of the other keys' events answers those of `k` alike, if `k`
    is tame in the whole of it. -/
theorem answersTo_of_sublist {es es' : List (κ × ω)} (hes : es'.Sublist es)
    (hsameEvents : eventsOf k es' = eventsOf k es) (hsub : h'.Sublist h)
    (hsame : eventsOf k h' = eventsOf k h) (ht : ∀ w, Tame limit k w (es.reverse ++ h)) :
    answersTo k (answers limit h' es') = answersTo k (answers limit h es) := by
  induction hes generalizing h h' with
  | slnil => rfl
  | @cons es' es e hes ih =>
      -- the event is left out, so it is another key's
      have hother : e.1 ≠ k := by
        intro hk
        have hlength := congrArg List.length hsameEvents
        have hle : (eventsOf k es').length ≤ (eventsOf k es).length := (hes.filter _).length_le
        simp [eventsOf, hk] at hlength hle
        omega
      have hskip : eventsOf k (e :: es) = eventsOf k es := by simp [eventsOf, hother]
      have hskip' : eventsOf k (e :: h) = eventsOf k h := by simp [eventsOf, hother]
      have hrest := ih (hsameEvents.trans hskip) (hsub.cons e) (hsame.trans hskip'.symm)
        (fun w => by simpa using ht w)
      simpa [answers, answersTo, hother] using hrest
  | @cons_cons es' es e hes ih =>
      have htail : ∀ w, Tame limit k w (es.reverse ++ e :: h) := fun w => by simpa using ht w
      have hevents : eventsOf k es' = eventsOf k es := by
        by_cases hk : e.1 = k <;> simpa [eventsOf, hk] using hsameEvents
      have hgrown : eventsOf k (e :: h') = eventsOf k (e :: h) := by
        by_cases hk : e.1 = k <;> simpa [eventsOf, hk] using hsame
      have hrest := ih hevents (hsub.cons_cons e) hgrown htail
      by_cases hk : e.1 = k
      · have hanswer : Admits limit h' e ↔ Admits limit h e := by
          subst hk
          exact admits_iff_of_sublist hsub hsame ((htail e.2).mono (List.sublist_append_right _ _))
        simpa [answers, answersTo, hk] using And.intro hanswer hrest
      · simpa [answers, answersTo, hk] using hrest

-- ============================================================================
-- Windows that do not come back
-- ============================================================================

omit [DecidableEq κ] [DecidableEq ω] in
/-- Where the windows of a sequence never go back, none is interrupted. -/
theorem not_scattered_of_sorted [LinearOrder ω] {es : List (κ × ω)}
    (hsorted : es.Pairwise fun e f => e.2 ≤ f.2) : ¬ Scattered k w es := by
  rintro ⟨e, hne, he⟩
  have hpair := hsorted.sublist he
  simp only [List.pairwise_cons, List.mem_cons, forall_eq_or_imp] at hpair
  exact hne (le_antisymm hpair.2.1.1 hpair.1.1)

end FixedWindow
