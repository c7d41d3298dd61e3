/-
  ToolGateway.Coroutine.Trail

  Protocols stated as a trail of marks.

  The world carries a trail: who did what, newest entry first.  A discipline says
  when a thread may make a mark (`guard`), what the rest of the world has to do
  with the trail (`agrees`), and which marks tell on a live thread (`strikes`):
  the others may not make those.  A thread then knows exactly which marks it has
  made itself (`own`), and the proof of a program is about these alone: a
  `Triple` says which marks it ends with.  What the marks mean for the world is
  read off the legality of the trail.
-/

import ToolGateway.Coroutine.Rely

namespace Coroutine

-- ============================================================================
-- Trails
-- ============================================================================

/-- Entries under the thread that made them, newest first. -/
abbrev TrailOf (M : Type) := List (ℕ × M)

section
variable {M : Type}

/-- The marks of one thread, newest first. -/
def own (i : ℕ) (tr : TrailOf M) : List M :=
  tr.filterMap fun e => if e.1 = i then some e.2 else none

@[simp] theorem own_nil (i : ℕ) : own i ([] : TrailOf M) = [] := rfl

@[simp] theorem own_cons_self (i : ℕ) (m : M) (tr : TrailOf M) :
    own i ((i, m) :: tr) = m :: own i tr := by
  simp [own]

theorem own_cons_of_ne {i : ℕ} {e : ℕ × M} (h : e.1 ≠ i) (tr : TrailOf M) :
    own i (e :: tr) = own i tr := by
  simp [own, h]

theorem mem_own {i : ℕ} {m : M} {tr : TrailOf M} : m ∈ own i tr ↔ (i, m) ∈ tr := by
  simp [own]

/-- The trail as it was when a thread made one of its marks. -/
theorem own_split {i : ℕ} {m : M} {tr : TrailOf M} {later before : List M}
    (h : own i tr = later ++ m :: before) :
    ∃ new old, tr = new ++ (i, m) :: old ∧ own i new = later ∧ own i old = before := by
  obtain ⟨new, rest, rfl, hnew, hrest⟩ := List.filterMap_eq_append_iff.mp h
  obtain ⟨others, e, old, rfl, hothers, he, hold⟩ := List.filterMap_eq_cons_iff.mp hrest
  have hentry : e = (i, m) := by
    obtain ⟨j, n⟩ := e
    by_cases hj : j = i
    · rw [if_pos hj] at he
      cases he
      rw [← hj]
    · rw [if_neg hj] at he
      cases he
  refine ⟨new ++ others, old, by rw [hentry, List.append_assoc], ?_, hold⟩
  rw [own, List.filterMap_append, hnew, List.filterMap_eq_nil_iff.mpr hothers, List.append_nil]

/-- Every entry was allowed by the trail before it. -/
def Legal (guard : ℕ → M → TrailOf M → Prop) : TrailOf M → Prop
  | [] => True
  | e :: tr => guard e.1 e.2 tr ∧ Legal guard tr

theorem Legal.of_append {guard : ℕ → M → TrailOf M → Prop} {new tr : TrailOf M}
    (h : Legal guard (new ++ tr)) : Legal guard tr := by
  induction new with
  | nil => exact h
  | cons e es ih => exact ih h.2

/-- An entry of a legal trail splits it at the moment the entry was made. -/
theorem Legal.split {guard : ℕ → M → TrailOf M → Prop} {i : ℕ} {m : M} {tr : TrailOf M}
    (h : Legal guard tr) (hmem : (i, m) ∈ tr) :
    ∃ later before, tr = later ++ (i, m) :: before ∧ guard i m before ∧ Legal guard before := by
  obtain ⟨later, before, rfl⟩ := List.append_of_mem hmem
  have hcons := Legal.of_append h
  exact ⟨later, before, rfl, hcons.1, hcons.2⟩

/-- Of two entries one is the other, or was made after it. -/
theorem Legal.order {guard : ℕ → M → TrailOf M → Prop} {e e' : ℕ × M} {tr : TrailOf M}
    (h : Legal guard tr) (he : e ∈ tr) (he' : e' ∈ tr) :
    e = e' ∨ (∃ before, guard e.1 e.2 before ∧ e' ∈ before) ∨
      ∃ before, guard e'.1 e'.2 before ∧ e ∈ before := by
  induction tr with
  | nil => cases he
  | cons f fs ih =>
      rcases List.mem_cons.mp he with rfl | hmem
      · rcases List.mem_cons.mp he' with rfl | hmem'
        · exact Or.inl rfl
        · exact Or.inr (Or.inl ⟨fs, h.1, hmem'⟩)
      · rcases List.mem_cons.mp he' with rfl | hmem'
        · exact Or.inr (Or.inr ⟨fs, h.1, hmem⟩)
        · exact ih h.2 hmem hmem'

/-- The moment an entry was made, after one that could not have come later. -/
theorem Legal.split_after {guard : ℕ → M → TrailOf M → Prop} {i j : ℕ} {m m' : M} {tr : TrailOf M}
    (h : Legal guard tr) (hmem : (i, m) ∈ tr) (hmem' : (j, m') ∈ tr) (hne : (j, m') ≠ (i, m))
    (hlater : ∀ tr', guard j m' tr' → (i, m) ∉ tr') :
    ∃ later before, tr = later ++ (i, m) :: before ∧ guard i m before ∧ Legal guard before ∧
      (j, m') ∈ before := by
  obtain ⟨later, before, rfl, hguard, hbefore⟩ := h.split hmem
  refine ⟨later, before, rfl, hguard, hbefore, ?_⟩
  rcases List.mem_append.mp hmem' with hin | hin
  · obtain ⟨new, mid, rfl⟩ := List.append_of_mem hin
    rw [List.append_assoc, List.cons_append] at h
    exact absurd (List.mem_append_right mid List.mem_cons_self) (hlater _ h.of_append.1)
  · exact (List.mem_cons.mp hin).resolve_left hne

/-- A kind of entry that may not be made a second time is made at most once. -/
theorem Legal.count_le_one {guard : ℕ → M → TrailOf M → Prop} {tr : TrailOf M}
    (h : Legal guard tr) (p : ℕ × M → Bool)
    (honce : ∀ e tr', guard e.1 e.2 tr' → Legal guard tr' → p e = true → ∀ e' ∈ tr', p e' = false) :
    tr.countP p ≤ 1 := by
  induction tr with
  | nil => simp
  | cons e es ih =>
      rw [List.countP_cons]
      by_cases hp : p e = true
      · have hzero : es.countP p = 0 := by
          rw [List.countP_eq_zero]
          intro e' he'
          rw [honce e es h.1 h.2 hp e' he']
          exact Bool.false_ne_true
        rw [hzero]
        split <;> omega
      · rw [if_neg hp]
        exact ih h.2

end

-- ============================================================================
-- Disciplines
-- ============================================================================

/-- The rules for what the threads note on a trail, and what the world has to do with it. -/
structure Discipline (W M : Type) where
  trail : W → TrailOf M
  /-- thread `i` may make this mark after this trail -/
  guard : ℕ → M → TrailOf M → Prop
  agrees : W → Prop
  /-- the mark, made after this trail, tells on thread `j` -/
  strikes : M → TrailOf M → ℕ → Prop

namespace Discipline

variable {W M ι α β : Type} (D : Discipline W M)

/-- The trail grows by entries of others that do not strike thread `i` while it
    is live. -/
inductive Grows (i : ℕ) (live : Bool) (tr : TrailOf M) : TrailOf M → Prop where
  | refl : Grows i live tr tr
  | step {tr' : TrailOf M} {e : ℕ × M} (h : Grows i live tr tr') (other : e.1 ≠ i)
      (spares : live = true → ¬ D.strikes e.2 tr' i) : Grows i live tr (e :: tr')

/-- No entry of the trail struck thread `i`. -/
def Spared (i : ℕ) : TrailOf M → Prop
  | [] => True
  | e :: tr => ¬ D.strikes e.2 tr i ∧ Spared i tr

variable {D}

theorem Spared.of_append {i : ℕ} {new tr : TrailOf M} (h : D.Spared i (new ++ tr)) :
    D.Spared i tr := by
  induction new with
  | nil => exact h
  | cons e es ih => exact ih h.2

theorem Grows.trans {i : ℕ} {live : Bool} {tr₁ tr₂ tr₃ : TrailOf M} (h : D.Grows i live tr₁ tr₂)
    (h' : D.Grows i live tr₂ tr₃) : D.Grows i live tr₁ tr₃ := by
  induction h' with
  | refl => exact h
  | step _ other spares ih => exact ih.step other spares

theorem Grows.own {i : ℕ} {live : Bool} {tr tr' : TrailOf M} (h : D.Grows i live tr tr') :
    Coroutine.own i tr' = Coroutine.own i tr := by
  induction h with
  | refl => rfl
  | step _ other _ ih => rw [own_cons_of_ne other, ih]

theorem Grows.spared {i : ℕ} {tr tr' : TrailOf M} (h : D.Grows i true tr tr')
    (hspared : D.Spared i tr) : D.Spared i tr' := by
  induction h with
  | refl => exact hspared
  | step _ _ spares ih => exact ⟨spares rfl, ih⟩

/-- What was on the trail is still there. -/
theorem Grows.suffix {i : ℕ} {live : Bool} {tr tr' : TrailOf M} (h : D.Grows i live tr tr') :
    ∃ new, tr' = new ++ tr := by
  induction h with
  | refl => exact ⟨[], rfl⟩
  | @step _ e _ _ _ ih =>
      obtain ⟨new, rfl⟩ := ih
      exact ⟨e :: new, rfl⟩

variable (D)

/-- The rely-guarantee protocol of a discipline. -/
def protocol : Protocol W where
  inv w := Legal D.guard (D.trail w) ∧ D.agrees w
  rely i live w w' := D.Grows i live (D.trail w) (D.trail w')
  refl _ _ _ := .refl
  trans _ _ := Grows.trans

/-- Thread `i` has made these marks, and nothing struck it. -/
structure Knows (i : ℕ) (marks : List M) (w : W) : Prop where
  own : own i (D.trail w) = marks
  spared : D.Spared i (D.trail w)

/-- From the marks `pre` the program of thread `i` ends with marks and a result
    that satisfy `post`, whatever the others do. -/
def Triple (i : ℕ) (pre : List M) (c : Co ι W α) (post : α → List M → Prop) : Prop :=
  ∀ w, D.protocol.inv w → D.Knows i pre w →
    Wp D.protocol i c (fun a w' => ∃ marks, D.Knows i marks w' ∧ post a marks) w

variable {D}

theorem Knows.grows {i : ℕ} {marks : List M} {w w' : W} (h : D.Knows i marks w)
    (hgrows : D.Grows i true (D.trail w) (D.trail w')) : D.Knows i marks w' :=
  ⟨by rw [hgrows.own, h.own], hgrows.spared h.spared⟩

namespace Triple

variable {i : ℕ} {pre : List M}

theorem ret {a : α} {post : α → List M → Prop} (h : post a pre) :
    D.Triple i pre (.ret a : Co ι W α) post :=
  fun _ _ hk => ⟨pre, hk, h⟩

theorem mono {c : Co ι W α} {post post' : α → List M → Prop} (h : D.Triple i pre c post)
    (hpost : ∀ a marks, post a marks → post' a marks) : D.Triple i pre c post' :=
  fun w hinv hk => (h w hinv hk).mono hinv fun a _ _ ⟨marks, hk', hp⟩ =>
    ⟨marks, hk', hpost a marks hp⟩

theorem bind {c : Co ι W α} {f : α → Co ι W β} {mid : α → List M → Prop}
    {post : β → List M → Prop} (h : D.Triple i pre c mid)
    (hf : ∀ a marks, mid a marks → D.Triple i marks (f a) post) :
    D.Triple i pre (c >>= f) post := by
  intro w hinv hk
  refine Wp.bind ((h w hinv hk).mono hinv ?_)
  rintro a w' hinv' ⟨marks, hk', hmid⟩
  exact hf a marks hmid w' hinv' hk'

/-- An await point that makes no mark. -/
theorem quiet {block : Slot ι → W → Option (β × W)} {post : β → List M → Prop}
    (h : ∀ (slot : Slot ι) (w : W) (x : β) (w' : W), D.protocol.inv w → D.Knows i pre w →
      slot.me = i → block slot w = some (x, w') →
        D.trail w' = D.trail w ∧ D.agrees w' ∧ post x pre) :
    D.Triple i pre (Co.atomic block) post := by
  intro w _ hk
  refine Wp.atomic fun w₁ hrely hinv slot hme _ x w₂ hb => ?_
  have hk₁ := hk.grows hrely
  obtain ⟨htrail, hagrees, hpost⟩ := h slot w₁ x w₂ hinv hk₁ hme hb
  refine ⟨⟨⟨htrail ▸ hinv.1, hagrees⟩, fun j _ => ?_⟩, pre, ⟨?_, ?_⟩, hpost⟩
  · show D.Grows j _ (D.trail w₁) (D.trail w₂)
    rw [htrail]
    exact .refl
  · rw [htrail, hk₁.own]
  · rw [htrail]
    exact hk₁.spared

/-- An await point that makes a mark, or makes none. -/
theorem mark {block : Slot ι → W → Option (β × W)} {post : β → List M → Prop}
    (h : ∀ (slot : Slot ι) (w : W) (x : β) (w' : W), D.protocol.inv w → D.Knows i pre w →
      slot.me = i → block slot w = some (x, w') → D.agrees w' ∧
        ((D.trail w' = D.trail w ∧ post x pre) ∨
          ∃ m, D.trail w' = (i, m) :: D.trail w ∧ D.guard i m (D.trail w) ∧
            (∀ j, D.strikes m (D.trail w) j → slot.live j = false) ∧ post x (m :: pre))) :
    D.Triple i pre (Co.atomic block) post := by
  intro w _ hk
  refine Wp.atomic fun w₁ hrely hinv slot hme hlive x w₂ hb => ?_
  have hk₁ := hk.grows hrely
  obtain ⟨hagrees, ⟨htrail, hpost⟩ | ⟨m, htrail, hguard, hstrikes, hpost⟩⟩ :=
    h slot w₁ x w₂ hinv hk₁ hme hb
  · refine ⟨⟨⟨htrail ▸ hinv.1, hagrees⟩, fun j _ => ?_⟩, pre, ⟨?_, ?_⟩, hpost⟩
    · show D.Grows j _ (D.trail w₁) (D.trail w₂)
      rw [htrail]
      exact .refl
    · rw [htrail, hk₁.own]
    · rw [htrail]
      exact hk₁.spared
  · refine ⟨⟨⟨?_, hagrees⟩, fun j hj => ?_⟩, m :: pre, ⟨?_, ?_⟩, hpost⟩
    · rw [htrail]
      exact ⟨hguard, hinv.1⟩
    · show D.Grows j _ (D.trail w₁) (D.trail w₂)
      rw [htrail]
      refine Grows.refl.step (hme ▸ hj.symm) fun hlivej hstrike => ?_
      rw [hstrikes j hstrike] at hlivej
      exact Bool.noConfusion hlivej
    · rw [htrail, own_cons_self, hk₁.own]
    · rw [htrail]
      refine ⟨fun hstrike => ?_, hk₁.spared⟩
      -- the thread that makes a mark is live
      rw [hstrikes i hstrike] at hlive
      exact Bool.noConfusion hlive

end Triple

-- ============================================================================
-- Runs
-- ============================================================================

theorem own_stable (post : ℕ → α → List M → Prop) :
    ∀ i a w w', D.protocol.rely i false w w' →
      post i a (own i (D.trail w)) → post i a (own i (D.trail w')) := by
  intro i a w w' hrely hpost
  rw [Grows.own hrely]
  exact hpost

/-- Threads that start without marks and end with marks that fit. -/
theorem run_keeps {c : Config ι W α} {post : ℕ → α → List M → Prop}
    (hagrees : D.agrees c.world) (hempty : D.trail c.world = [])
    (hthreads : ∀ i co, c.threads[i]? = some (some co) → D.Triple i [] co (post i)) :
    c.Keeps D.protocol fun i a w => post i a (own i (D.trail w)) := by
  have hinv : D.protocol.inv c.world := ⟨by rw [hempty]; trivial, hagrees⟩
  refine ⟨hinv, fun i co hi => ?_⟩
  have hknows : D.Knows i [] c.world := ⟨by rw [hempty]; rfl, by rw [hempty]; trivial⟩
  refine (hthreads i co hi c.world hinv hknows).mono hinv ?_
  rintro a w _ ⟨marks, hk, hpost⟩
  rw [hk.own]
  exact hpost

/-- Every run of threads that keep the discipline: the trail stays legal, the
    world agrees with it, and a thread that has returned made marks that fit. -/
theorem run {c : Config ι W α} {post : ℕ → α → List M → Prop}
    (hagrees : D.agrees c.world) (hempty : D.trail c.world = [])
    (hthreads : ∀ i co, c.threads[i]? = some (some co) → D.Triple i [] co (post i))
    (es : List (Event ι)) :
    Legal D.guard (D.trail (c.run es).world) ∧ D.agrees (c.run es).world ∧
      ∀ i a, (c.run es).outcome i = some a → post i a (own i (D.trail (c.run es).world)) := by
  have hend := (run_keeps hagrees hempty hthreads).run (own_stable post) es
  exact ⟨hend.inv.1, hend.inv.2, fun i a ha => hend.outcome ha⟩

/-- The trail of an earlier moment is a suffix of that of a later one. -/
theorem run_suffix {c : Config ι W α} {post : ℕ → α → List M → Prop}
    (hagrees : D.agrees c.world) (hempty : D.trail c.world = [])
    (hthreads : ∀ i co, c.threads[i]? = some (some co) → D.Triple i [] co (post i))
    (es es' : List (Event ι)) :
    ∃ new, D.trail (c.run (es ++ es')).world = new ++ D.trail (c.run es).world := by
  have hkeeps := run_keeps hagrees hempty hthreads
  have hmid := hkeeps.run (own_stable post) es
  rw [Config.run_append]
  exact Grows.suffix (hmid.rely_run (own_stable post) (Nat.le_refl _) es')

-- ============================================================================
-- More for the world to agree with
-- ============================================================================

section

/-- The discipline, with more for the world to agree with. -/
def also (D : Discipline W M) (extra : W → Prop) : Discipline W M :=
  { D with agrees := fun w => D.agrees w ∧ extra w }

variable {D : Discipline W M} {extra : W → Prop} {i : ℕ} {pre : List M}

theorem Grows.also {live : Bool} {tr tr' : TrailOf M} (h : D.Grows i live tr tr') :
    (D.also extra).Grows i live tr tr' := by
  induction h with
  | refl => exact .refl
  | step _ other spares ih => exact .step ih other spares

theorem Grows.of_also {live : Bool} {tr tr' : TrailOf M} (h : (D.also extra).Grows i live tr tr') :
    D.Grows i live tr tr' := by
  induction h with
  | refl => exact .refl
  | step _ other spares ih => exact .step ih other spares

theorem spared_also {tr : TrailOf M} : (D.also extra).Spared i tr ↔ D.Spared i tr := by
  induction tr with
  | nil => exact Iff.rfl
  | cons e tr ih => exact and_congr_right fun _ => ih

theorem knows_also {w : W} : (D.also extra).Knows i pre w ↔ D.Knows i pre w :=
  ⟨fun h => ⟨h.own, spared_also.mp h.spared⟩, fun h => ⟨h.own, spared_also.mpr h.spared⟩⟩

/-- An await point that keeps the discipline keeps the larger one as well when it
    leaves the world as the rest of it wants. -/
theorem Triple.also {block : Slot ι → W → Option (β × W)} {post : β → List M → Prop}
    (h : D.Triple i pre (Co.atomic block) post)
    (hextra : ∀ (slot : Slot ι) (w : W) (x : β) (w' : W), D.protocol.inv w → extra w →
      D.Knows i pre w → slot.me = i → block slot w = some (x, w') → extra w') :
    (D.also extra).Triple i pre (Co.atomic block) post := by
  intro w hinv hk
  refine Wp.atomic fun w₁ hrely hinv₁ slot hme hlive x w₂ hb => ?_
  have hrely' : D.Grows i true (D.trail w) (D.trail w₁) := Grows.of_also hrely
  have hinv' : D.protocol.inv w₁ := ⟨hinv₁.1, hinv₁.2.1⟩
  obtain ⟨⟨hinv₂, hothers⟩, marks, hk₂, hpost⟩ := h w ⟨hinv.1, hinv.2.1⟩ (knows_also.mp hk)
    w₁ hrely' hinv' slot hme hlive x w₂ hb
  have hw₂ := hextra slot w₁ x w₂ hinv' hinv₁.2.2 ((knows_also.mp hk).grows hrely') hme hb
  exact ⟨⟨⟨hinv₂.1, hinv₂.2, hw₂⟩, fun j hj => (hothers j hj).also⟩, marks, knows_also.mpr hk₂,
    hpost⟩

end

end Discipline

end Coroutine
