/-
  ToolGateway.Gateway.StartupRuns

  What becomes of the requests on the MCP surface.  A launch of the session manager has
  one fate, decided by the first thing that happens to its future: the manager comes up,
  fails to, or a waiting request is cancelled.  Every request on the launch shares it,
  however long after it comes.
-/

import ToolGateway.Gateway.Startup

namespace ToolGateway

open Coroutine

-- ============================================================================
-- What a trail says
-- ============================================================================

/-- What settled the future of a launch. -/
inductive Fate where
  | up
  | down
  /-- this request was cancelled while it waited -/
  | spoilt (request : ℕ)
deriving DecidableEq

/-- What the mark of thread `i` does to the future of launch `g`. -/
def EdgeMark.settles (g i : ℕ) : EdgeMark → Option Fate
  | .entered g' true => if g' = g then some .up else none
  | .failed g' => if g' = g then some .down else none
  | .gaveUp g' => if g' = g then some (.spoilt i) else none
  | _ => none

/-- The mark is no launch. -/
def EdgeMark.late : EdgeMark → Bool
  | .launched .. => false
  | _ => true

/-- The future of a launch with this fate. -/
def Fate.future : Option Fate → Ready
  | none => .pending
  | some .up => .result
  | some .down => .exception
  | some (.spoilt _) => .cancelled

theorem Fate.up_of_future {f : Option Fate} (h : Fate.future f = .result) : f = some .up := by
  cases f with
  | none => cases h
  | some f => cases f <;> first | rfl | cases h

theorem Fate.down_of_future {f : Option Fate} (h : Fate.future f = .exception) : f = some .down := by
  cases f with
  | none => cases h
  | some f => cases f <;> first | rfl | cases h

theorem Fate.spoilt_of_future {f : Option Fate} (h : Fate.future f = .cancelled) :
    ∃ j, f = some (.spoilt j) := by
  cases f with
  | none => cases h
  | some f => cases f <;> first | exact ⟨_, rfl⟩ | cases h

theorem Fate.future_eq_pending {f : Option Fate} : Fate.future f = .pending ↔ f = none := by
  cases f with
  | none => exact iff_of_true rfl rfl
  | some f => cases f <;> exact iff_of_false Ready.noConfusion (Option.some_ne_none _)

namespace Startup

/-- The first thing that settled the future of launch `g`. -/
def fate (g : ℕ) : TrailOf EdgeMark → Option Fate
  | [] => none
  | (i, m) :: trail => (fate g trail).or (m.settles g i)

/-- The event loop and the launch in use. -/
def inUse : TrailOf EdgeMark → Option (ℕ × ℕ)
  | [] => none
  | (_, m) :: trail =>
      match m with
      | .launched g loop => some (loop, g)
      | _ => inUse trail

/-- How many launches there were. -/
def width (trail : TrailOf EdgeMark) : ℕ := (inUse trail).elim 0 fun u => u.2 + 1

variable {g i : ℕ} {m : EdgeMark} {trail : TrailOf EdgeMark}

theorem fate_append {f : Fate} (h : fate g trail = some f) (new : TrailOf EdgeMark) :
    fate g (new ++ trail) = some f := by
  induction new with
  | nil => exact h
  | cons e new ih =>
      show (fate g (new ++ trail)).or _ = some f
      rw [ih]
      rfl

theorem fate_cons_none (h : m.settles g i = none) : fate g ((i, m) :: trail) = fate g trail := by
  show (fate g trail).or (m.settles g i) = fate g trail
  rw [h, Option.or_none]

theorem fate_cons_first {f : Fate} (hnone : fate g trail = none) (h : m.settles g i = some f) :
    fate g ((i, m) :: trail) = some f := by
  show (fate g trail).or (m.settles g i) = some f
  rw [hnone, h]
  rfl

-- ============================================================================
-- The discipline
-- ============================================================================

/-- Thread `i` is a request on a loop that launch `g` was made for. -/
def OnLaunch (actors : List EdgeActor) (i g : ℕ) (trail : TrailOf EdgeMark) : Prop :=
  ∃ loop j, actors[i]? = some (EdgeActor.request loop) ∧ (j, .launched g loop) ∈ trail

/-- Thread `i` may make this mark after this trail. -/
def Allowed (actors : List EdgeActor) (i : ℕ) : EdgeMark → TrailOf EdgeMark → Prop
  | .launched g loop, trail =>
      actors[i]? = some (EdgeActor.request loop) ∧ g = width trail ∧
        ∀ u, inUse trail = some u → u.1 ≠ loop
  | .waits g, trail => OnLaunch actors i g trail
  | .handed g, trail => OnLaunch actors i g trail ∧ fate g trail = some .up
  | .refused g, trail => OnLaunch actors i g trail ∧ fate g trail = some .down
  | .cut g, trail => OnLaunch actors i g trail ∧ ∃ j, fate g trail = some (.spoilt j)
  | .gaveUp g, trail => OnLaunch actors i g trail
  | .entered g taken, trail =>
      i = actors.length + g ∧ (∀ taken', (i, .entered g taken') ∉ trail) ∧
        (taken = true ↔ fate g trail = none)
  | .left g, trail =>
      i = actors.length + g ∧
        ((i, .entered g false) ∈ trail ∨ (i, .broke g) ∈ trail ∨ (i, .woke g) ∈ trail)
  | .woke g, trail => ∃ j, (j, .stopped g) ∈ trail
  | _, _ => True

/-- The launches are what the trail says. -/
structure Recorded (w : EdgeWorld) : Prop where
  current : w.current = inUse w.trail
  width : w.launches.length = width w.trail
  launched : ∀ loop g, w.current = some (loop, g) → ∃ j, (j, .launched g loop) ∈ w.trail
  ready : ∀ g l, w.launches[g]? = some l → l.ready = Fate.future (fate g w.trail)
  unknown : ∀ g, w.launches.length ≤ g → fate g w.trail = none
  stopped : ∀ g l, w.launches[g]? = some l → l.stopped = true → ∃ j, (j, .stopped g) ∈ w.trail

/-- The rules for the marks of the edge. -/
def discipline (actors : List EdgeActor) : Discipline EdgeWorld EdgeMark where
  trail := EdgeWorld.trail
  guard := Allowed actors
  agrees := Recorded
  strikes _ _ _ := False

-- ============================================================================
-- The record
-- ============================================================================

section
variable {w : EdgeWorld} {me : ℕ}

theorem fresh_recorded : Recorded EdgeWorld.fresh where
  current := rfl
  width := rfl
  launched _ _ h := by cases h
  ready _ _ h := by cases h
  unknown _ _ := rfl
  stopped _ _ h := by cases h

theorem inUse_cons (h : m.late = true) : inUse ((i, m) :: trail) = inUse trail := by
  cases m <;> first | rfl | cases h

/-- A mark that settles nothing. -/
theorem Recorded.mark (h : Recorded w) (hlate : m.late = true)
    (hsettles : ∀ g, m.settles g me = none) : Recorded (w.mark me m) where
  current := h.current.trans (inUse_cons hlate).symm
  width := by
    show w.launches.length = Startup.width ((me, m) :: w.trail)
    rw [Startup.width, inUse_cons hlate]
    exact h.width
  launched loop g hg := (h.launched loop g hg).imp fun _ hj => List.mem_cons_of_mem _ hj
  ready g l hl := by
    show l.ready = Fate.future (fate g ((me, m) :: w.trail))
    rw [fate_cons_none (hsettles g)]
    exact h.ready g l hl
  unknown g hg := (fate_cons_none (hsettles g)).trans (h.unknown g hg)
  stopped g l hl hstopped := (h.stopped g l hl hstopped).imp fun _ hj => List.mem_cons_of_mem _ hj

/-- A mark about a launch, and what it changes there. -/
theorem Recorded.edit (h : Recorded w) {f : Launch → Launch} {l₀ : Launch}
    (hl₀ : w.launches[g]? = some l₀) (hlate : m.late = true)
    (hsettles : ∀ g', g' ≠ g → m.settles g' me = none)
    (hready : (f l₀).ready = Fate.future (fate g ((me, m) :: w.trail)))
    (hstopped : (f l₀).stopped = true → l₀.stopped = true ∨ m = .stopped g) :
    Recorded ((w.edit g f).mark me m) where
  current := h.current.trans (inUse_cons hlate).symm
  width := by
    show (w.launches.modify g f).length = Startup.width ((me, m) :: w.trail)
    rw [List.length_modify, Startup.width, inUse_cons hlate]
    exact h.width
  launched loop g' hg := (h.launched loop g' hg).imp fun _ hj => List.mem_cons_of_mem _ hj
  ready g' l hl := by
    have hmod : (w.launches.modify g f)[g']? = some l := hl
    show l.ready = Fate.future (fate g' ((me, m) :: w.trail))
    by_cases hg : g' = g
    · subst hg
      rw [List.getElem?_modify_eq, hl₀] at hmod
      rw [← Option.some.inj hmod]
      exact hready
    · rw [List.getElem?_modify_ne f w.launches (Ne.symm hg)] at hmod
      rw [fate_cons_none (hsettles g' hg)]
      exact h.ready g' l hmod
  unknown g' hg' := by
    have hlength : w.launches.length ≤ g' := by
      rw [← List.length_modify f w.launches g]
      exact hg'
    have hg : g' ≠ g := by
      have hlt := (List.getElem?_eq_some_iff.mp hl₀).1
      omega
    exact (fate_cons_none (hsettles g' hg)).trans (h.unknown g' hlength)
  stopped g' l hl hset := by
    have hmod : (w.launches.modify g f)[g']? = some l := hl
    show ∃ j, (j, EdgeMark.stopped g') ∈ (me, m) :: w.trail
    by_cases hg : g' = g
    · subst hg
      rw [List.getElem?_modify_eq, hl₀] at hmod
      rw [← Option.some.inj hmod] at hset
      rcases hstopped hset with hold | rfl
      · exact (h.stopped g' l₀ hl₀ hold).imp fun _ hj => List.mem_cons_of_mem _ hj
      · exact ⟨me, List.mem_cons_self⟩
    · rw [List.getElem?_modify_ne f w.launches (Ne.symm hg)] at hmod
      exact (h.stopped g' l hmod hset).imp fun _ hj => List.mem_cons_of_mem _ hj

/-- What settles a pending future is its fate, and a settled one stays. -/
theorem Recorded.settle (h : Recorded w) {l₀ : Launch} (hl₀ : w.launches[g]? = some l₀) {f : Fate}
    (hlate : m.late = true) (hself : m.settles g me = some f)
    (hother : ∀ g', g' ≠ g → m.settles g' me = none) :
    Recorded ((w.settle g (Fate.future (some f))).mark me m) := by
  have hready := h.ready g l₀ hl₀
  refine h.edit hl₀ hlate hother ?_ fun hstopped => Or.inl ?_
  · cases hfate : fate g w.trail with
    | none =>
        rw [fate_cons_first hfate hself, if_pos (hready.trans (by rw [hfate]; rfl))]
    | some f₀ =>
        have hsame : fate g ((me, m) :: w.trail) = some f₀ := fate_append hfate [(me, m)]
        have hsettled : l₀.ready ≠ .pending := by
          rw [hready, hfate]
          cases f₀ <;> exact Ready.noConfusion
        rw [if_neg hsettled, hsame, ← hfate]
        exact hready
  · split at hstopped
    · exact hstopped
    · exact hstopped

/-- A settled future takes nothing more. -/
theorem settle_settled {l : Launch} {ready : Ready} (hl : w.launches[g]? = some l)
    (hsettled : l.ready ≠ .pending) : w.settle g ready = w := by
  have hsame : w.launches.modify g (fun l => if l.ready = .pending then { l with ready := ready } else l)
      = w.launches := by
    refine List.ext_getElem? fun g' => ?_
    by_cases hg : g = g'
    · subst hg
      rw [List.getElem?_modify_eq, hl]
      exact congrArg some (if_neg hsettled)
    · exact List.getElem?_modify_ne _ _ hg
  rw [EdgeWorld.settle, EdgeWorld.edit, hsame]

theorem Recorded.launch (h : Recorded w) (loop : ℕ) : Recorded (launch loop me w) where
  current := rfl
  width := List.length_append
  launched loop' g hg := by
    cases hg
    exact ⟨me, List.mem_cons_self⟩
  ready g l hl := by
    have happ : (w.launches ++ [({} : Launch)])[g]? = some l := hl
    show l.ready = Fate.future (fate g ((me, .launched w.launches.length loop) :: w.trail))
    rw [fate_cons_none rfl]
    by_cases hg : g < w.launches.length
    · rw [List.getElem?_append_left hg] at happ
      exact h.ready g l happ
    · have hlt := (List.getElem?_eq_some_iff.mp happ).1
      rw [List.length_append, List.length_singleton] at hlt
      have hlast : g = w.launches.length := by omega
      rw [hlast, List.getElem?_concat_length] at happ
      rw [← Option.some.inj happ, h.unknown g (Nat.le_of_eq hlast.symm)]
      rfl
  unknown g hg := by
    have hlength : (w.launches ++ [({} : Launch)]).length ≤ g := hg
    rw [List.length_append, List.length_singleton] at hlength
    exact (fate_cons_none rfl).trans (h.unknown g (by omega))
  stopped g l hl hstopped := by
    have happ : (w.launches ++ [({} : Launch)])[g]? = some l := hl
    show ∃ j, (j, EdgeMark.stopped g) ∈ (me, .launched w.launches.length loop) :: w.trail
    by_cases hg : g < w.launches.length
    · rw [List.getElem?_append_left hg] at happ
      exact (h.stopped g l happ hstopped).imp fun _ hj => List.mem_cons_of_mem _ hj
    · have hlt := (List.getElem?_eq_some_iff.mp happ).1
      rw [List.length_append, List.length_singleton] at hlt
      have hlast : g = w.launches.length := by omega
      rw [hlast, List.getElem?_concat_length] at happ
      rw [← Option.some.inj happ] at hstopped
      cases hstopped

end

-- ============================================================================
-- Requests
-- ============================================================================

section
variable {actors : List EdgeActor} {loop : ℕ} {pre : List EdgeMark}

theorem OnLaunch.append (h : OnLaunch actors i g trail) (new : TrailOf EdgeMark) :
    OnLaunch actors i g (new ++ trail) := by
  obtain ⟨loop, j, hi, hj⟩ := h
  exact ⟨loop, j, hi, List.mem_append_right new hj⟩

/-- A mark that says how a request on this launch got past the future. -/
def Ends (g : ℕ) : Passage → EdgeMark → Prop
  | .handed, m => m = .handed g
  | .refused, m => m = .refused g
  | .cancelled, m => m = .cut g ∨ m = .gaveUp g

/-- A request on a launch gets past its future with the launch's fate. -/
theorem pass_spec {w w' : EdgeWorld} {l : Launch} {p : Passage} (h : Recorded w)
    (hl : w.launches[g]? = some l) (hon : OnLaunch actors i g w.trail)
    (hpass : pass g i w l.ready = some (p, w')) :
    ∃ m, w' = w.mark i m ∧ Recorded w' ∧ Allowed actors i m w.trail ∧ Ends g p m := by
  have hready := h.ready g l hl
  unfold pass at hpass
  split at hpass
  · cases hpass
  · next hresult =>
      cases hpass
      exact ⟨_, rfl, h.mark rfl fun _ => rfl, ⟨hon, Fate.up_of_future (hready ▸ hresult)⟩, rfl⟩
  · next hexception =>
      cases hpass
      exact ⟨_, rfl, h.mark rfl fun _ => rfl, ⟨hon, Fate.down_of_future (hready ▸ hexception)⟩, rfl⟩
  · next hcancelled =>
      cases hpass
      exact ⟨_, rfl, h.mark rfl fun _ => rfl, ⟨hon, Fate.spoilt_of_future (hready ▸ hcancelled)⟩,
        Or.inl rfl⟩

/-- The marks of a request that got past the future of this launch. -/
def Passed (g : ℕ) (p : Passage) (marks : List EdgeMark) : Prop :=
  ∃ m pre, marks = m :: pre ∧ Ends g p m ∧ ∀ g', .gaveUp g' ∉ pre

/-- The marks of a request that waits for this launch. -/
def Waiting (g : ℕ) (marks : List EdgeMark) : Prop :=
  (∃ loop, marks = [.launched g loop]) ∨ marks = [.waits g]

/-- A request that waits for a launch is on it. -/
theorem onLaunch_of_waiting (h : Legal (Allowed actors) trail) (hwaits : Waiting g (Coroutine.own i trail)) :
    OnLaunch actors i g trail := by
  rcases hwaits with ⟨loop, hown⟩ | hown
  · have hmem : (i, EdgeMark.launched g loop) ∈ trail := mem_own.mp (by rw [hown]; simp)
    obtain ⟨later, before, rfl, hallowed, -⟩ := h.split hmem
    exact ⟨loop, i, hallowed.1, hmem⟩
  · have hmem : (i, EdgeMark.waits g) ∈ trail := mem_own.mp (by rw [hown]; simp)
    obtain ⟨later, before, rfl, hon, -⟩ := h.split hmem
    have hbefore : OnLaunch actors i g ((i, .waits g) :: before) := OnLaunch.append hon [_]
    exact hbefore.append later

theorem awaitReady_spec (hwaits : Waiting g pre) :
    (discipline actors).Triple i pre (Co.atomic (awaitReady g)) fun p marks => Passed g p marks := by
  refine Discipline.Triple.mark fun slot w x w' hinv hk hme hb => ?_
  subst hme
  have hrec : Recorded w := hinv.2
  have hon : OnLaunch actors slot.me g w.trail :=
    onLaunch_of_waiting hinv.1 (by rw [show Coroutine.own slot.me w.trail = pre from hk.own]; exact hwaits)
  have hfirst : ∀ g', .gaveUp g' ∉ pre := by
    rcases hwaits with ⟨loop, rfl⟩ | rfl <;> simp
  unfold awaitReady at hb
  split at hb
  · cases hb
  next l hl =>
  split at hb
  · cases hb
    have hrec' : Recorded ((w.settle g .cancelled).mark slot.me (.gaveUp g)) :=
      hrec.settle (f := .spoilt slot.me) hl rfl (if_pos rfl) fun g' hg => if_neg (Ne.symm hg)
    exact ⟨hrec', Or.inr ⟨_, rfl, hon, fun _ hj => hj.elim, _, pre, rfl, Or.inr rfl, hfirst⟩⟩
  · obtain ⟨m, rfl, hrec', hallowed, hends⟩ := pass_spec hrec hl hon hb
    exact ⟨hrec', Or.inr ⟨m, rfl, hallowed, fun _ hj => hj.elim, m, pre, rfl, hends, hfirst⟩⟩

/-- A block that makes a mark, or none. -/
theorem marking_spec {α : Type} {block : Slot SessionInput → EdgeWorld → Option (α × EdgeWorld)}
    (post : α → List EdgeMark → Prop)
    (h : ∀ slot w x w', Recorded w → Coroutine.own slot.me w.trail = pre → slot.me = i →
      block slot w = some (x, w') → Recorded w' ∧ ((w'.trail = w.trail ∧ post x pre) ∨
        ∃ m, w'.trail = (slot.me, m) :: w.trail ∧ Allowed actors slot.me m w.trail ∧
          post x (m :: pre))) :
    (discipline actors).Triple i pre (Co.atomic block) post := by
  refine Discipline.Triple.mark fun slot w x w' hinv hk hme hb => ?_
  obtain ⟨hrec, hsame | ⟨m, htrail, hallowed, hpost⟩⟩ :=
    h slot w x w' hinv.2 (by rw [hme]; exact hk.own) hme hb
  · exact ⟨hrec, Or.inl hsame⟩
  · exact ⟨hrec, Or.inr ⟨m, hme ▸ htrail, hme ▸ hallowed, fun _ hj => hj.elim, hpost⟩⟩

theorem enter_spec (hi : i = actors.length + g) :
    (discipline actors).Triple i [] (Co.atomic (enter g)) fun next marks =>
      next = .leaving → .entered g false ∈ marks := by
  refine marking_spec _ fun slot w x w' hrec hown hme hb => ?_
  have hfresh : ∀ taken, (slot.me, .entered g taken) ∉ w.trail := fun taken hmem => by
    have hin := mem_own.mpr hmem
    rw [hown] at hin
    cases hin
  unfold enter at hb
  split at hb
  · cases hb
  next l hl =>
  split at hb
  · cases hb
    have hrec' : Recorded ((w.settle g .exception).mark slot.me (.failed g)) :=
      hrec.settle (f := .down) hl rfl (if_pos rfl) fun g' hg => if_neg (Ne.symm hg)
    exact ⟨hrec', Or.inr ⟨_, rfl, trivial, nofun⟩⟩
  · have hfate : l.ready = .pending ↔ fate g w.trail = none := by
      rw [hrec.ready g l hl]
      exact Fate.future_eq_pending
    by_cases hpending : l.ready = .pending
    · simp only [hpending] at hb
      cases hb
      have hrec' : Recorded ((w.settle g .result).mark slot.me (.entered g true)) :=
        hrec.settle (f := .up) hl rfl (if_pos rfl) fun g' hg => if_neg (Ne.symm hg)
      exact ⟨hrec', Or.inr ⟨.entered g true, rfl,
        ⟨hme.trans hi, hfresh, iff_of_true rfl (hfate.mp hpending)⟩, nofun⟩⟩
    · simp only [hpending] at hb
      cases hb
      rw [settle_settled hl hpending]
      exact ⟨hrec.mark rfl fun _ => rfl, Or.inr ⟨.entered g false, rfl,
        ⟨hme.trans hi, hfresh, iff_of_false Bool.false_ne_true (mt hfate.mpr hpending)⟩,
        fun _ => List.mem_cons_self⟩⟩

/-- The owner parks until its manager breaks down, or somebody stops it. -/
theorem park_spec : (discipline actors).Triple i pre (Co.atomic (park g)) fun _ marks =>
    .broke g ∈ marks ∨ .woke g ∈ marks := by
  refine marking_spec _ fun slot w x w' hrec _ _ hb => ?_
  unfold park at hb
  split at hb
  · cases hb
    exact ⟨hrec.mark rfl fun _ => rfl, Or.inr ⟨_, rfl, trivial, Or.inl List.mem_cons_self⟩⟩
  · split at hb
    · next hstopped =>
        cases hb
        cases hl : w.launches[g]? with
        | none =>
            rw [hl] at hstopped
            cases hstopped
        | some l =>
            rw [hl] at hstopped
            exact ⟨hrec.mark rfl fun _ => rfl,
              Or.inr ⟨_, rfl, hrec.stopped g l hl hstopped, Or.inr List.mem_cons_self⟩⟩
    · cases hb

theorem leave_spec (hi : i = actors.length + g)
    (hpre : .entered g false ∈ pre ∨ .broke g ∈ pre ∨ .woke g ∈ pre) :
    (discipline actors).Triple i pre (Co.atomic (leave g)) fun _ _ => True := by
  refine marking_spec _ fun slot w x w' hrec hown hme hb => ?_
  cases hb
  refine ⟨hrec.mark rfl fun _ => rfl, Or.inr ⟨_, rfl, ⟨hme.trans hi, ?_⟩, trivial⟩⟩
  rw [← hown] at hpre
  exact hpre.imp mem_own.mp (Or.imp mem_own.mp mem_own.mp)

theorem own_spec (hi : i = actors.length + g) :
    (discipline actors).Triple i [] (own g) fun _ _ => True := by
  refine Discipline.Triple.bind (enter_spec hi) fun next marks hnext => ?_
  cases next with
  | parked =>
      exact Discipline.Triple.bind park_spec fun _ marks' hpre => leave_spec hi (Or.inr hpre)
  | leaving => exact leave_spec hi (Or.inl (hnext rfl))
  | failed => exact Discipline.Triple.ret trivial

/-- A finished request got past the future of a launch. -/
def Finished (actors : List EdgeActor) (i : ℕ) (r : Option Passage) (marks : List EdgeMark) : Prop :=
  ∀ loop, actors[i]? = some (EdgeActor.request loop) → ∃ g p, r = some p ∧ Passed g p marks

end

end Startup

end ToolGateway
