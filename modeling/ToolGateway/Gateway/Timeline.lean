/-
  ToolGateway.Gateway.Timeline

  What the monitor knows of a thread, put in its place in the run.  A `Timeline` says
  of a thread's deeds at which events of the run they were done; every mark in the
  trail of a run was made at one of its events, and earned by the deeds before.
-/

import ToolGateway.Gateway.Watched

namespace ToolGateway

open Coroutine Py

section
variable {σ : Type} [TicketStore σ] [LawfulTicketStore σ] {s : Settings} {actors : List Actor}
  {i : ℕ} {es : List (Event Input)}

-- ============================================================================
-- Deeds and events
-- ============================================================================

variable (σ s actors) in
/-- The deeds are steps of thread `i` in this run, in their order: each at its reading
    of the clock, and with its mark in the trail. -/
def Timeline (i : ℕ) : List (Event Input) → List Deed → Prop
  | _, [] => True
  | es, d :: before => ∃ es₁ input es₂, es = es₁ ++ .step i input :: es₂ ∧ d.now = input.now ∧
      (∀ m, d.act = .marks m → (i, m) ∈ (worldAfter σ s actors (es₁ ++ [.step i input])).trail) ∧
      Timeline i es₁ before

omit [LawfulTicketStore σ] in
theorem Timeline.append {deeds : List Deed} (h : Timeline σ s actors i es deeds)
    (es' : List (Event Input)) : Timeline σ s actors i (es ++ es') deeds := by
  cases deeds with
  | nil => trivial
  | cons d before =>
      obtain ⟨es₁, input, es₂, rfl, hd⟩ := h
      exact ⟨es₁, input, es₂ ++ es', by simp, hd⟩

omit [LawfulTicketStore σ] in
theorem Timeline.suffix {deeds before : List Deed} (h : Timeline σ s actors i es deeds)
    (hsuffix : before <:+ deeds) : Timeline σ s actors i es before := by
  obtain ⟨later, rfl⟩ := hsuffix
  induction later generalizing es with
  | nil => exact h
  | cons d later ih =>
      obtain ⟨es₁, input, es₂, rfl, -, -, hbefore⟩ := h
      exact (ih hbefore).append _

theorem mem_trail_append {m : Mark} (h : (i, m) ∈ (worldAfter σ s actors es).trail)
    (es' : List (Event Input)) : (i, m) ∈ (worldAfter σ s actors (es ++ es')).trail := by
  obtain ⟨new, hgrows⟩ := run_grows σ s actors es es'
  rw [hgrows]
  exact List.mem_append_right new h

/-- What the thread remembers to have marked is in the trail. -/
theorem Timeline.marked {deeds : List Deed} (h : Timeline σ s actors i es deeds) {m : Mark}
    (hm : m ∈ marksOf deeds) : (i, m) ∈ (worldAfter σ s actors es).trail := by
  induction deeds generalizing es with
  | nil => cases hm
  | cons d before ih =>
      obtain ⟨es₁, input, es₂, rfl, -, hmarks, hbefore⟩ := h
      obtain ⟨now, act⟩ := d
      cases act with
      | marks m' =>
          rcases List.mem_cons.mp hm with rfl | hm
          · rw [List.append_cons]
            exact mem_trail_append (hmarks m rfl) es₂
          · exact mem_trail_append (ih hbefore hm) _
      | _ => exact mem_trail_append (ih hbefore hm) _

/-- Whoever waited for the verdict on a ticket filed it, and read the clock twice
    since, the timeout apart. -/
theorem Timeline.waitedOut {deeds : List Deed} (h : Timeline σ s actors i es deeds)
    {timeout : Time} {t : TicketId} (hwaited : WaitedOut timeout t deeds) :
    ∃ es₁ first es₂ second es₃ call, es = es₁ ++ .step i first :: es₂ ++ .step i second :: es₃ ∧
      (i, .created t call) ∈ (worldAfter σ s actors es₁).trail ∧
      first.now + timeout ≤ second.now := by
  obtain ⟨deadline, d, before, hbefore, ⟨call, d', filed, hfiled, hcreated, rfl⟩, hover⟩ := hwaited
  obtain ⟨mid, second, es₃, rfl, hsecond, -, hmid⟩ := h.suffix hbefore
  obtain ⟨es₁, first, es₂, rfl, hfirst, -, hes₁⟩ := hmid.suffix hfiled
  refine ⟨es₁, first, es₂, second, es₃, call, rfl, hes₁.marked hcreated, ?_⟩
  rw [← hfirst, ← hsecond]
  exact hover

-- ============================================================================
-- The marks of a run
-- ============================================================================

variable (σ s actors) in
/-- The mark was made by a step of thread `i` in this run, and earned by what the
    thread had done before. -/
def Made (i : ℕ) (m : Mark) (es : List (Event Input)) : Prop :=
  ∃ es₁ input es₂ deeds, es = es₁ ++ .step i input :: es₂ ∧
    (worldAfter σ s actors (es₁ ++ [.step i input])).trail =
      (i, m) :: (worldAfter σ s actors es₁).trail ∧
    Timeline σ s actors i es₁ deeds ∧ own i (worldAfter σ s actors es₁).trail = marksOf deeds ∧
    Earned s (recorders actors i) deeds input.now (worldAfter σ s actors es₁) m

theorem Made.append {m : Mark} (h : Made σ s actors i m es) (es' : List (Event Input)) :
    Made σ s actors i m (es ++ es') := by
  obtain ⟨es₁, input, es₂, deeds, rfl, hm⟩ := h
  exact ⟨es₁, input, es₂ ++ es', deeds, by simp, hm⟩

variable (σ s actors) in
/-- The deeds are those of the run, with all the marks, and every mark in its trail was
    made there. -/
structure Kept (es : List (Event Input)) (states : ℕ → List Deed) : Prop where
  deeds : ∀ i, Timeline σ s actors i es (states i)
  own : ∀ i, own i (worldAfter σ s actors es).trail = marksOf (states i)
  marks : ∀ i m, (i, m) ∈ (worldAfter σ s actors es).trail → Made σ s actors i m es

theorem Kept.idle {states : ℕ → List Deed} {e : Event Input} (h : Kept σ s actors es states)
    (hworld : worldAfter σ s actors (es ++ [e]) = worldAfter σ s actors es) :
    Kept σ s actors (es ++ [e]) states := by
  refine ⟨fun i => (h.deeds i).append [e], fun i => by rw [hworld, h.own], fun i m hm => ?_⟩
  rw [hworld] at hm
  exact (h.marks i m hm).append [e]

theorem Kept.step {states : ℕ → List Deed} {input : Input} {deeds : List Deed}
    (h : Kept σ s actors es states)
    (hwatch : watch σ s (recorders actors i) (states i)
      ⟨i, ((gateway σ s actors).run es).live, input⟩ (worldAfter σ s actors es)
      (worldAfter σ s actors (es ++ [.step i input])) deeds) :
    Kept σ s actors (es ++ [.step i input]) (Function.update states i deeds) := by
  obtain ⟨act, rfl, htakes, hfitting⟩ := hwatch
  constructor
  · intro j
    by_cases hj : j = i
    · subst hj
      rw [Function.update_self]
      refine ⟨es, input, [], rfl, rfl, fun m hm => ?_, h.deeds j⟩
      cases hm
      rw [htakes.1]
      exact List.mem_cons_self
    · rw [Function.update_of_ne hj]
      exact (h.deeds j).append _
  · intro j
    by_cases hj : j = i
    · subst hj
      rw [Function.update_self]
      cases act with
      | marks m => rw [htakes.1, own_cons_self, h.own, marksOf_marks]
      | quiet => rw [htakes.1, h.own, marksOf_quiet]
      | tells e => rw [htakes.1, h.own, marksOf_tells]
    · rw [Function.update_of_ne hj, ← h.own j]
      cases act with
      | marks m => rw [htakes.1, own_cons_of_ne (Ne.symm hj)]
      | _ => rw [htakes.1]
  · intro j m hm
    cases act with
    | marks m' =>
        rw [htakes.1] at hm
        rcases List.mem_cons.mp hm with heq | hm
        · cases heq
          exact ⟨es, input, [], states i, rfl, htakes.1, h.deeds i, h.own i, hfitting.2⟩
        · exact (h.marks j m hm).append _
    | _ =>
        rw [htakes.1] at hm
        exact (h.marks j m hm).append _

/-- Every mark of a run was earned when it was made. -/
theorem made_of_mem {m : Mark} (h : (i, m) ∈ (worldAfter σ s actors es).trail) :
    Made σ s actors i m es := by
  have hfresh : Kept σ s actors [] fun _ => [] :=
    ⟨fun i => trivial, fun i => rfl, fun i m hm => by cases hm⟩
  obtain ⟨states, hkept, -⟩ := gateway_watched.run (Kept σ s actors) hfresh
    (fun es e states hworld hkept => hkept.idle hworld)
    (fun es states i input deeds _ hkept hwatch => hkept.step hwatch) es
  exact hkept.marks i m h

end

end ToolGateway
