/-
  ToolGateway.Upstreams.SessionRuns

  Which session a failing call stops, over every run.  `discard` sets the stop
  event of the newest opening, whoever started it: a call spares the sessions of
  others exactly as long as it fails while the newest session is its own.
-/

import ToolGateway.Upstreams.Session

namespace ToolGateway

open Coroutine

namespace Session

-- ============================================================================
-- What a trail says
-- ============================================================================

/-- The newest opening. -/
def newest : TrailOf SessionMark → Option ℕ
  | [] => none
  | (_, m) :: trail =>
      match m with
      | .opened g => some g
      | _ => newest trail

/-- Its owner has not ended, and no call has stopped it. -/
def Runs (g : ℕ) (trail : TrailOf SessionMark) : Prop :=
  ∀ e ∈ trail, e.2 ≠ .ended g ∧ e.2 ≠ .failed (some g)

/-- The call started this opening or was handed its client. -/
def Owns (call g : ℕ) (trail : TrailOf SessionMark) : Prop :=
  (call, .opened g) ∈ trail ∨ (call, .obtained g) ∈ trail

/-- A call that failed or was cancelled stopped no session but its own. -/
def SparesOthers : TrailOf SessionMark → Prop
  | [] => True
  | (call, m) :: before => (∀ g, m = .failed (some g) → Owns call g before) ∧ SparesOthers before

/-- A call only fails or is cancelled while the newest session is its own, or runs
    no more. -/
def InTime : TrailOf SessionMark → Prop
  | [] => True
  | (call, m) :: before =>
      (∀ hit, m = .failed hit → ∀ g, newest before = some g → Runs g before → Owns call g before) ∧
        InTime before

-- ============================================================================
-- The discipline
-- ============================================================================

/-- A failing call stops the newest session, if that one runs. -/
def Stops (_ : ℕ) (m : SessionMark) (trail : TrailOf SessionMark) : Prop :=
  ∀ hit, m = .failed hit → ∀ g, hit = some g ↔ newest trail = some g ∧ Runs g trail

theorem spares_iff {trail : TrailOf SessionMark} (h : Legal Stops trail) :
    SparesOthers trail ↔ InTime trail := by
  induction trail with
  | nil => exact Iff.rfl
  | cons e before ih =>
      obtain ⟨call, m⟩ := e
      refine and_congr ⟨fun hspares hit hm g hnewest hruns => ?_, fun htime g hm => ?_⟩ (ih h.2)
      · have hhit := (h.1 hit hm g).mpr ⟨hnewest, hruns⟩
        exact hspares g (hhit ▸ hm)
      · obtain ⟨hnewest, hruns⟩ := (h.1 (some g) hm g).mp rfl
        exact htime (some g) hm g hnewest hruns

/-- The openings are what the trail says. -/
structure Recorded (w : SessionWorld) : Prop where
  stop : w.stop = newest w.trail
  stop_lt : ∀ g ∈ w.stop, g < w.openings.length
  connected_lt : ∀ i g, (i, .connected g) ∈ w.trail → g < w.openings.length
  unknown : ∀ g, w.openings.length ≤ g → Runs g w.trail
  running : ∀ g < w.openings.length, w.running g = true ↔ Runs g w.trail

/-- The discipline of a session: nobody minds what the others do. -/
def discipline : Discipline SessionWorld SessionMark where
  trail := SessionWorld.trail
  guard := Stops
  agrees := Recorded
  strikes _ _ _ := False

theorem runs_cons {g i : ℕ} {m : SessionMark} {trail : TrailOf SessionMark} :
    Runs g ((i, m) :: trail) ↔ (m ≠ .ended g ∧ m ≠ .failed (some g)) ∧ Runs g trail :=
  List.forall_mem_cons

-- ============================================================================
-- What a block does to the openings
-- ============================================================================

section
variable {w : SessionWorld} {g g' : ℕ}

theorem running_edit_of_ne (h : g' ≠ g) (f : Opening → Opening) :
    (w.edit g f).running g' = w.running g' := by
  have hsame : (w.openings.modify g f)[g']? = w.openings[g']? :=
    List.getElem?_modify_ne f w.openings (Ne.symm h)
  show (w.openings.modify g f)[g']?.any _ = _
  rw [hsame]
  rfl

theorem running_edit_self (f : Opening → Opening) :
    (w.edit g f).running g = (w.openings[g]?.map f).any fun o => !o.stopped && !o.ended := by
  show (w.openings.modify g f)[g]?.any _ = _
  rw [List.getElem?_modify_eq]
  rfl

/-- Settling the future of an opening stops nothing. -/
theorem running_settle (w : SessionWorld) (g : ℕ) (ready : Ready) (g' : ℕ) :
    (w.settle g ready).running g' = w.running g' := by
  by_cases h : g' = g
  · subst h
    rw [SessionWorld.settle, running_edit_self]
    unfold SessionWorld.running
    cases w.openings[g']? with
    | none => rfl
    | some o => by_cases hpending : o.ready = .pending <;> simp [hpending]
  · exact running_edit_of_ne h _

theorem length_edit (w : SessionWorld) (g : ℕ) (f : Opening → Opening) :
    (w.edit g f).openings.length = w.openings.length :=
  List.length_modify f w.openings g

theorem stop_discard (w : SessionWorld) : w.discard.stop = w.stop := by
  unfold SessionWorld.discard
  split
  · rfl
  · rfl

theorem trail_discard (w : SessionWorld) : w.discard.trail = w.trail := by
  unfold SessionWorld.discard
  split
  · rfl
  · rfl

theorem length_discard (w : SessionWorld) : w.discard.openings.length = w.openings.length := by
  unfold SessionWorld.discard
  split
  · exact length_edit w _ _
  · rfl

/-- Discarding stops the newest session and no other. -/
theorem running_discard (w : SessionWorld) (g : ℕ) :
    w.discard.running g = (w.running g && Decidable.decide (w.stop ≠ some g)) := by
  unfold SessionWorld.discard
  cases hs : w.stop with
  | none => simp [SessionWorld.running]
  | some g₀ =>
      show (w.edit g₀ _).running g = _
      by_cases hg : g = g₀
      · subst hg
        rw [running_edit_self]
        cases w.openings[g]? with
        | none => simp
        | some o => simp
      · rw [running_edit_of_ne hg]
        simp [Ne.symm hg]

end

-- ============================================================================
-- Steps
-- ============================================================================

/-- A block keeps the record, and makes a mark it may make or none. -/
def Keeps (me : ℕ) (w w' : SessionWorld) : Prop :=
  Recorded w' ∧ (w'.trail = w.trail ∨ ∃ m, w'.trail = (me, m) :: w.trail ∧ Stops me m w.trail)

section
variable {w w' : SessionWorld} {me : ℕ}

/-- Neither the openings nor the stop event in use change. -/
theorem Recorded.same (h : Recorded w) (hstop : w'.stop = w.stop)
    (hlength : w'.openings.length = w.openings.length)
    (hrunning : ∀ g, w'.running g = w.running g) (htrail : w'.trail = w.trail) : Recorded w' where
  stop := by rw [hstop, htrail, h.stop]
  stop_lt := by rw [hstop, hlength]; exact h.stop_lt
  connected_lt := by rw [htrail, hlength]; exact h.connected_lt
  unknown := by rw [htrail, hlength]; exact h.unknown
  running := by
    intro g hg
    rw [hrunning, htrail]
    exact h.running g (hlength ▸ hg)

/-- A mark that tells of no end and of no opening. -/
theorem Recorded.mark (h : Recorded w) {m : SessionMark} (hopened : ∀ g, m ≠ .opened g)
    (hended : ∀ g, m ≠ .ended g) (hfailed : ∀ g, m ≠ .failed (some g))
    (hconnected : ∀ g, m = .connected g → g < w.openings.length) : Recorded (w.mark me m) where
  stop := by
    rw [show (w.mark me m).stop = w.stop from rfl, h.stop]
    cases m with
    | opened g => exact absurd rfl (hopened g)
    | _ => rfl
  stop_lt := h.stop_lt
  connected_lt := by
    intro i g hmem
    rcases List.mem_cons.mp hmem with heq | hold
    · exact hconnected g (congrArg Prod.snd heq).symm
    · exact h.connected_lt i g hold
  unknown g hg := runs_cons.mpr ⟨⟨hended g, hfailed g⟩, h.unknown g hg⟩
  running g hg := by
    rw [show (w.mark me m).trail = (me, m) :: w.trail from rfl, runs_cons]
    exact (h.running g hg).trans ⟨fun hruns => ⟨⟨hended g, hfailed g⟩, hruns⟩, fun hruns => hruns.2⟩

theorem keeps_quiet (h : Recorded w') (htrail : w'.trail = w.trail) : Keeps me w w' :=
  ⟨h, Or.inl htrail⟩

/-- Any mark but a failure may be made at any time. -/
theorem keeps_mark {m : SessionMark} (h : Recorded w') (htrail : w'.trail = (me, m) :: w.trail)
    (hm : ∀ hit, m ≠ .failed hit) : Keeps me w w' :=
  ⟨h, Or.inr ⟨m, htrail, fun hit heq => absurd heq (hm hit)⟩⟩

theorem takeOrOpen_keeps (h : Recorded w) : Keeps me w (takeOrOpen w me).2 := by
  unfold takeOrOpen
  cases w.client with
  | some g =>
      exact keeps_mark (h.mark nofun nofun nofun nofun) rfl nofun
  | none =>
      refine keeps_mark ⟨rfl, ?_, ?_, ?_, ?_⟩ rfl nofun
      · intro g hg
        have hlast : w.openings.length = g := Option.some.inj hg
        show g < (w.openings ++ [({} : Opening)]).length
        rw [List.length_append, List.length_singleton]
        omega
      · intro i g hmem
        have hlt := h.connected_lt i g ((List.mem_cons.mp hmem).resolve_left nofun)
        show g < (w.openings ++ [({} : Opening)]).length
        rw [List.length_append, List.length_singleton]
        omega
      · intro g hg
        have hle : w.openings.length ≤ g := by
          have hlength : (w.openings ++ [({} : Opening)]).length ≤ g := hg
          rw [List.length_append, List.length_singleton] at hlength
          omega
        exact runs_cons.mpr ⟨⟨nofun, nofun⟩, h.unknown g hle⟩
      · intro g hg
        have hruns : ∀ trail, Runs g ((me, SessionMark.opened w.openings.length) :: trail) ↔
            Runs g trail := fun trail =>
          runs_cons.trans ⟨fun hruns => hruns.2, fun hruns => ⟨⟨nofun, nofun⟩, hruns⟩⟩
        refine Iff.trans ?_ (hruns w.trail).symm
        by_cases hnew : g < w.openings.length
        · refine Iff.trans (Eq.to_iff ?_) (h.running g hnew)
          show ((w.openings ++ [({} : Opening)])[g]?.any _ = true) = (w.openings[g]?.any _ = true)
          rw [List.getElem?_append_left hnew]
        · have hlength : g < (w.openings ++ [({} : Opening)]).length := hg
          rw [List.length_append, List.length_singleton] at hlength
          have hlast : g = w.openings.length := by omega
          refine iff_of_true ?_ (h.unknown g (by omega))
          show (w.openings ++ [({} : Opening)])[g]?.any _ = true
          rw [hlast, List.getElem?_concat_length]
          rfl

/-- A failing call stops the newest session. -/
theorem raised_keeps (h : Recorded w) : Keeps me w (w.raised me) := by
  have hhit : ∀ g, w.stop.filter w.running = some g ↔ newest w.trail = some g ∧ Runs g w.trail := by
    intro g
    rw [Option.filter_eq_some_iff, ← h.stop]
    exact and_congr_right fun hstop => h.running g (h.stop_lt g hstop)
  have hstop : (w.raised me).stop = w.stop := stop_discard w
  have hlength : (w.raised me).openings.length = w.openings.length := length_discard w
  have hrunning : ∀ g,
      (w.raised me).running g = (w.running g && Decidable.decide (w.stop ≠ some g)) :=
    running_discard w
  have htrail : (w.raised me).trail = (me, .failed (w.stop.filter w.running)) :: w.trail :=
    congrArg _ (trail_discard w)
  refine ⟨⟨?_, ?_, ?_, ?_, ?_⟩, Or.inr ⟨_, htrail, fun hit heq g => ?_⟩⟩
  · rw [htrail, hstop, h.stop]
    rfl
  · rw [hstop, hlength]
    exact h.stop_lt
  · intro i g hmem
    rw [htrail] at hmem
    rw [hlength]
    exact h.connected_lt i g ((List.mem_cons.mp hmem).resolve_left nofun)
  · intro g hg
    rw [hlength] at hg
    rw [htrail]
    refine runs_cons.mpr ⟨⟨nofun, fun heq => ?_⟩, h.unknown g hg⟩
    have hsome : w.stop.filter w.running = some g := SessionMark.failed.inj heq
    have hlt := h.stop_lt g ((Option.filter_eq_some_iff.mp hsome).1)
    omega
  · intro g hg
    rw [hlength] at hg
    rw [hrunning, htrail, Bool.and_eq_true, h.running g hg, decide_eq_true_iff, runs_cons]
    constructor
    · rintro ⟨hruns, hother⟩
      refine ⟨⟨nofun, fun heq => hother ?_⟩, hruns⟩
      exact (Option.filter_eq_some_iff.mp (SessionMark.failed.inj heq)).1
    · rintro ⟨⟨-, hmiss⟩, hruns⟩
      refine ⟨hruns, fun hs => hmiss (congrArg SessionMark.failed ((hhit g).mpr ⟨?_, hruns⟩))⟩
      rw [← h.stop, hs]
  · rw [← SessionMark.failed.inj heq]
    exact hhit g

/-- An owner that ends leaves a session that runs no more. -/
theorem finished_keeps (h : Recorded w) {g : ℕ} (hg : g < w.openings.length) :
    Keeps me w (w.finished me g) := by
  have hlength : (w.finished me g).openings.length = w.openings.length := length_edit w g _
  have hrunning : ∀ g', (w.finished me g).running g' = (w.running g' && Decidable.decide (g' ≠ g)) := by
    intro g'
    show (w.edit g _).running g' = _
    by_cases hsame : g' = g
    · subst hsame
      rw [running_edit_self]
      cases w.openings[g']? with
      | none => simp
      | some o => simp
    · rw [running_edit_of_ne hsame]
      simp [hsame]
  refine keeps_mark ⟨h.stop, ?_, ?_, ?_, ?_⟩ rfl nofun
  · rw [hlength]
    exact h.stop_lt
  · intro i g' hmem
    rw [hlength]
    exact h.connected_lt i g' ((List.mem_cons.mp hmem).resolve_left nofun)
  · intro g' hg'
    rw [hlength] at hg'
    refine runs_cons.mpr ⟨⟨fun heq => ?_, nofun⟩, h.unknown g' hg'⟩
    have hsame : g = g' := SessionMark.ended.inj heq
    omega
  · intro g' hg'
    rw [hlength] at hg'
    rw [hrunning, Bool.and_eq_true, h.running g' hg', decide_eq_true_iff]
    refine Iff.trans ?_ runs_cons.symm
    constructor
    · rintro ⟨hruns, hother⟩
      exact ⟨⟨fun heq => hother (SessionMark.ended.inj heq).symm, nofun⟩, hruns⟩
    · rintro ⟨⟨hmiss, -⟩, hruns⟩
      exact ⟨hruns, fun heq => hmiss (congrArg SessionMark.ended heq.symm)⟩

theorem settle_recorded (h : Recorded w) (g : ℕ) (ready : Ready) : Recorded (w.settle g ready) :=
  h.same rfl (length_edit w g _) (running_settle w g ready) rfl

end

-- ============================================================================
-- Threads
-- ============================================================================

section
variable {i : ℕ} {pre : List SessionMark} {α : Type}

/-- A block all of whose steps keep the record. -/
theorem keeps_spec {block : Slot SessionInput → SessionWorld → Option (α × SessionWorld)}
    (h : ∀ slot w x w', Recorded w → block slot w = some (x, w') → Keeps slot.me w w') :
    discipline.Triple i pre (Co.atomic block) fun _ _ => True := by
  refine Discipline.Triple.mark fun slot w x w' hinv _ hme hb => ?_
  obtain ⟨hrecorded, hsame | ⟨m, htrail, hstops⟩⟩ := h slot w x w' hinv.2 hb
  · exact ⟨hrecorded, Or.inl ⟨hsame, trivial⟩⟩
  · exact ⟨hrecorded, Or.inr ⟨m, hme ▸ htrail, hme ▸ hstops, fun _ hj => hj.elim, trivial⟩⟩

theorem operate_spec : discipline.Triple i pre (Co.atomic operate) fun _ _ => True := by
  refine keeps_spec fun slot w x w' h hb => ?_
  unfold operate at hb
  split at hb
  · cases hb
    exact raised_keeps h
  · cases hb
    exact keeps_quiet h rfl

theorem raised_unlocked_keeps {w : SessionWorld} {me : ℕ} (h : Recorded w) :
    Keeps me w (SessionWorld.raised { w with lock := none } me) :=
  raised_keeps (h.same rfl rfl (fun _ => rfl) rfl)

theorem awaitReady_spec (g : ℕ) :
    discipline.Triple i pre (Co.atomic (awaitReady g)) fun _ _ => True := by
  refine keeps_spec fun slot w x w' h hb => ?_
  unfold awaitReady at hb
  split at hb
  · cases hb
  · next o _ =>
      split at hb
      · cases hb
        exact keeps_quiet (settle_recorded h g .cancelled) rfl
      · split at hb
        · cases hb
        · cases hb
          have hheld : Recorded { w with client := some g, lock := none } :=
            h.same rfl rfl (fun _ => rfl) rfl
          exact keeps_mark (hheld.mark nofun nofun nofun nofun) rfl nofun
        · cases hb
          exact raised_unlocked_keeps h
        · cases hb
          exact raised_unlocked_keeps h

theorem useEntered_spec (entered : Entered) :
    discipline.Triple i pre (useEntered entered) fun _ _ => True := by
  cases entered with
  | client g => exact operate_spec
  | opening g =>
      refine Discipline.Triple.bind (awaitReady_spec g) fun waited marks _ => ?_
      cases waited with
      | client => exact operate_spec
      | raised => exact Discipline.Triple.ret trivial
      | cancelled =>
          refine keeps_spec fun slot w x w' h hb => ?_
          cases hb
          exact raised_unlocked_keeps h

theorem use_spec : discipline.Triple i pre use fun _ _ => True := by
  have henter : discipline.Triple i pre (Co.atomic enter) fun _ _ => True := by
    refine keeps_spec fun slot w x w' h hb => ?_
    unfold enter at hb
    split at hb
    · cases hb
      exact keeps_quiet h rfl
    · cases hb
      exact takeOrOpen_keeps h
  have hwait : ∀ marks, discipline.Triple i marks (Co.atomic waitLock) fun _ _ => True := by
    intro marks
    refine keeps_spec fun slot w x w' h hb => ?_
    unfold waitLock at hb
    split at hb
    · cases hb
      exact raised_keeps h
    · split at hb
      · cases hb
      · cases hb
        exact takeOrOpen_keeps h
  refine Discipline.Triple.bind henter fun entered marks _ => ?_
  cases entered with
  | some entered => exact useEntered_spec entered
  | none =>
      refine Discipline.Triple.bind (hwait marks) fun entered marks _ => ?_
      cases entered with
      | some entered => exact useEntered_spec entered
      | none => exact Discipline.Triple.ret trivial

/-- The client is connected, or the owner has ended. -/
theorem connect_spec (g : ℕ) :
    discipline.Triple i pre (Co.atomic (connect g)) fun next marks =>
      next = .failed ∨ .connected g ∈ marks := by
  refine Discipline.Triple.mark fun slot w x w' hinv _ hme hb => ?_
  unfold connect at hb
  split at hb
  · cases hb
  · next o ho =>
      have hlt : g < w.openings.length := (List.getElem?_eq_some_iff.mp ho).1
      split at hb
      · cases hb
        have hsettled := settle_recorded hinv.2 g .exception
        have hlt' : g < (w.settle g .exception).openings.length := (length_edit w g _).symm ▸ hlt
        have hkeeps : Keeps slot.me _ ((w.settle g .exception).finished slot.me g) :=
          finished_keeps hsettled hlt'
        refine ⟨hkeeps.1, Or.inr ⟨.ended g, hme ▸ rfl, nofun, fun _ hj => hj.elim, Or.inl rfl⟩⟩
      · cases hb
        have hsettled := settle_recorded hinv.2 g .result
        have hlt' : g < (w.settle g .result).openings.length := (length_edit w g _).symm ▸ hlt
        have hrecorded : Recorded ((w.settle g .result).mark slot.me (.connected g)) :=
          hsettled.mark nofun nofun nofun fun g' heq => SessionMark.connected.inj heq ▸ hlt'
        refine ⟨hrecorded, Or.inr ⟨.connected g, hme ▸ rfl, nofun, fun _ hj => hj.elim, Or.inr ?_⟩⟩
        exact List.mem_cons_self

theorem park_spec (g : ℕ) :
    discipline.Triple i pre (Co.atomic (park g)) fun _ marks => marks = pre := by
  refine Discipline.Triple.quiet fun slot w x w' hinv _ _ hb => ?_
  unfold park at hb
  split at hb
  · cases hb
    exact ⟨rfl, hinv.2, rfl⟩
  · cases hb

/-- An owner that leaves knows that its opening was connected. -/
theorem close_spec {g : ℕ} (hconnected : .connected g ∈ pre) :
    discipline.Triple i pre (Co.atomic (close g)) fun _ _ => True := by
  refine Discipline.Triple.mark fun slot w x w' hinv hk hme hb => ?_
  cases hb
  have hlt : g < w.openings.length :=
    hinv.2.connected_lt i g (mem_own.mp (hk.own.symm ▸ hconnected))
  have hkeeps : Keeps slot.me w (w.finished slot.me g) := finished_keeps hinv.2 hlt
  exact ⟨hkeeps.1, Or.inr ⟨.ended g, hme ▸ rfl, nofun, fun _ hj => hj.elim, trivial⟩⟩

theorem own_spec (g : ℕ) : discipline.Triple i pre (own g) fun _ _ => True := by
  refine Discipline.Triple.bind (connect_spec g) fun next marks hconnected => ?_
  cases next with
  | parked =>
      refine Discipline.Triple.bind (park_spec g) fun _ marks' hsame => ?_
      exact close_spec (hsame ▸ hconnected.resolve_left nofun)
  | leaving => exact close_spec (hconnected.resolve_left nofun)
  | failed => exact Discipline.Triple.ret trivial

end

-- ============================================================================
-- Every run
-- ============================================================================

theorem fresh_recorded : Recorded SessionWorld.fresh where
  stop := rfl
  stop_lt := nofun
  connected_lt _ _ hmem := absurd hmem List.not_mem_nil
  unknown _ _ _ he := absurd he List.not_mem_nil
  running _ hg := absurd hg (Nat.not_lt_zero _)

theorem shared_spec (calls i : ℕ) (co : SessionTask Bool)
    (hi : (sharedBy calls).threads[i]? = some (some co)) :
    discipline.Triple i [] co fun _ _ => True := by
  rcases List.mem_append.mp (List.mem_of_getElem? hi) with hcall | howner
  · cases (List.mem_replicate.mp hcall).2
    exact use_spec
  · obtain ⟨g, -, heq⟩ := List.mem_map.mp howner
    cases heq
    exact own_spec g

/-- In every run, failing calls spare the sessions of others if and only if each of
    them fails while the newest session is its own, or runs no more. -/
theorem discards_its_own_iff (calls : ℕ) (es : List (Event SessionInput)) :
    SparesOthers ((sharedBy calls).run es).world.trail ↔
      InTime ((sharedBy calls).run es).world.trail := by
  have hrun := Discipline.run (D := discipline) (c := sharedBy calls) fresh_recorded rfl
    (shared_spec calls) es
  exact spares_iff hrun.1

-- ============================================================================
-- A late failure
-- ============================================================================

/-- Two calls share the first session; one fails, a third call opens the next
    session, and the other one fails late. -/
def lateFailure : List (Event SessionInput) :=
  [.step 0 {}, .step 3 {}, .step 0 {}, .step 1 {}, .step 0 { fails := true },
    .step 2 {}, .step 4 {}, .step 2 {}, .step 1 { fails := true }]

/-- The late failure stops the session of the third call, which is still using it. -/
theorem late_failure_stops_another_session :
    ¬ ∀ (calls : ℕ) (es : List (Event SessionInput)),
      SparesOthers ((sharedBy calls).run es).world.trail := by
  intro law
  have htrail : ((sharedBy 3).run lateFailure).world.trail
      = [(1, .failed (some 1)), (2, .obtained 1), (4, .connected 1), (2, .opened 1),
        (0, .failed (some 0)), (1, .obtained 0), (0, .obtained 0), (3, .connected 0),
        (0, .opened 0)] := by
    rfl
  have hspares := law 3 lateFailure
  rw [htrail] at hspares
  have howns := hspares.1 1 rfl
  simp [Owns] at howns

end Session

end ToolGateway
