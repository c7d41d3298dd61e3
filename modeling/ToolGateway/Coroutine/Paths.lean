/-
  ToolGateway.Coroutine.Paths

  The steps of a thread that may be cut off anywhere.  `Co.Path` says which steps take
  a program to which rest; `Co.Takes` is the case in which nothing is left.  A program
  that goes on with what another returned or raised is `Prog.attempt`.
-/

import Mathlib.Data.List.Forall2
import ToolGateway.Coroutine.Follow

namespace Coroutine

variable {ε σ ι W α β γ : Type}

namespace Co

/-- What it returned, if it is through. -/
def returned : Co ι W α → Option α
  | ret a => some a
  | await _ _ => none

/-- These steps take the program to this rest. -/
def Path : Co ι W α → List (Doing ι W) → Co ι W α → Prop
  | c, [], c' => c' = c
  | ret _, _ :: _, _ => False
  | await block k, d :: ds, c' => ∃ x, block d.slot d.before = some (x, d.after) ∧ (k x).Path ds c'

@[simp] theorem path_nil {c c' : Co ι W α} : c.Path [] c' ↔ c' = c := by
  cases c <;> exact Iff.rfl

theorem path_ret {a : α} {ds : List (Doing ι W)} {c : Co ι W α} (h : (ret a).Path ds c) :
    ds = [] ∧ c = ret a := by
  cases ds with
  | nil => exact ⟨rfl, h⟩
  | cons d ds => exact h.elim

theorem returned_bind {c : Co ι W α} (h : c.returned = none) (f : α → Co ι W β) :
    (c >>= f).returned = none := by
  cases c with
  | ret a => cases h
  | await block k => rfl

/-- A program that returns has taken all its steps. -/
theorem takes_iff_path {c : Co ι W α} {ds : List (Doing ι W)} {a : α} :
    c.Takes ds a ↔ c.Path ds (ret a) := by
  induction c generalizing ds with
  | ret b =>
      cases ds with
      | nil =>
          rw [path_nil]
          constructor
          · rintro ⟨-, rfl⟩
            rfl
          · intro h
            cases h
            exact ⟨rfl, rfl⟩
      | cons d ds =>
          constructor
          · rintro ⟨hnil, -⟩
            cases hnil
          · exact False.elim
  | await block k ih =>
      constructor
      · rintro ⟨d, ds', x, rfl, hb, h⟩
        exact ⟨x, hb, (ih x).mp h⟩
      · intro h
        cases ds with
        | nil => cases h
        | cons d ds =>
            obtain ⟨x, hb, h⟩ := h
            exact ⟨d, ds, x, rfl, hb, (ih x).mpr h⟩

/-- An await point is one step. -/
theorem takes_atomic {block : Slot ι → W → Option (β × W)} {ds : List (Doing ι W)} {b : β}
    (h : (atomic block).Takes ds b) : ds.length = 1 := by
  obtain ⟨d, ds', x, rfl, -, hnil, -⟩ := h
  rw [hnil]
  rfl

theorem path_atomic {block : Slot ι → W → Option (β × W)} {ds : List (Doing ι W)} {c : Co ι W β}
    (h : (atomic block).Path ds c) : ds.length ≤ 1 := by
  cases ds with
  | nil => exact Nat.zero_le 1
  | cons d ds =>
      obtain ⟨x, -, h⟩ := h
      obtain ⟨rfl, -⟩ := path_ret h
      exact Nat.le_refl 1

/-- The first step of a program that starts with an await point. -/
theorem path_step {block : Slot ι → W → Option (β × W)} {k : β → Co ι W α} {slot : Slot ι}
    {w w' : W} {b : β} (h : block slot w = some (b, w')) :
    (atomic block >>= k).Path [⟨slot, w, w'⟩] (k b) := ⟨b, h, path_nil.mpr rfl⟩

theorem Path.append {c c' c'' : Co ι W α} {ds ds' : List (Doing ι W)} (h : c.Path ds c')
    (h' : c'.Path ds' c'') : c.Path (ds ++ ds') c'' := by
  induction ds generalizing c with
  | nil =>
      rw [path_nil.mp h] at h'
      exact h'
  | cons d ds ih =>
      cases c with
      | ret a => exact h.elim
      | await block k =>
          obtain ⟨x, hb, hrest⟩ := h
          exact ⟨x, hb, ih hrest⟩

/-- One after the other, as far as they got. -/
theorem path_bind {c : Co ι W α} {f : α → Co ι W β} {ds : List (Doing ι W)} {c' : Co ι W β}
    (h : (c >>= f).Path ds c') :
    (∃ c₁, c.Path ds c₁ ∧ c₁.returned = none ∧ c' = c₁ >>= f) ∨
      ∃ ds₁ a ds₂, ds = ds₁ ++ ds₂ ∧ c.Takes ds₁ a ∧ (f a).Path ds₂ c' := by
  induction c generalizing ds with
  | ret a => exact Or.inr ⟨[], a, ds, rfl, ⟨rfl, rfl⟩, h⟩
  | await block k ih =>
      cases ds with
      | nil => exact Or.inl ⟨await block k, rfl, rfl, h⟩
      | cons d ds =>
          obtain ⟨x, hb, h⟩ := h
          obtain ⟨c₁, hc₁, hopen, rfl⟩ | ⟨ds₁, a, ds₂, rfl, h₁, h₂⟩ := ih x h
          · exact Or.inl ⟨c₁, ⟨x, hb, hc₁⟩, hopen, rfl⟩
          · exact Or.inr ⟨d :: ds₁, a, ds₂, rfl, ⟨d, ds₁, x, rfl, hb, h₁⟩, h₂⟩

/-- What follows without a step of its own adds nothing. -/
theorem path_bind_quiet {c : Co ι W α} {f : α → Co ι W β} (hf : ∀ a, ∃ b, f a = ret b)
    {ds : List (Doing ι W)} {c' : Co ι W β} (h : (c >>= f).Path ds c') : ∃ c₁, c.Path ds c₁ := by
  obtain ⟨c₁, hc₁, -, -⟩ | ⟨ds₁, a, ds₂, rfl, h₁, h₂⟩ := path_bind h
  · exact ⟨c₁, hc₁⟩
  · obtain ⟨b, hb⟩ := hf a
    rw [hb] at h₂
    obtain ⟨rfl, -⟩ := path_ret h₂
    rw [List.append_nil]
    exact ⟨ret a, takes_iff_path.mp h₁⟩

theorem bind_ret (c : Co ι W α) : (c >>= ret) = c := by
  induction c with
  | ret a => rfl
  | await block k ih =>
      show Co.await block _ = Co.await block _
      exact congrArg _ (funext ih)

theorem bind_assoc (c : Co ι W α) (f : α → Co ι W β) (g : β → Co ι W γ) :
    (c >>= f) >>= g = c >>= fun a => f a >>= g := by
  induction c with
  | ret a => rfl
  | await block k ih =>
      show Co.await block _ = Co.await block _
      exact congrArg _ (funext ih)

end Co

namespace Prog

/-- Programs are equal that do the same on every context. -/
theorem ext_exec {m m' : Prog ε σ ι W α} (h : ∀ s, m.exec s = m'.exec s) : m = m' :=
  funext h

/-- Run a program, and go on with what it returned or raised. -/
def attempt (m : Prog ε σ ι W α) (k : Except ε α → Prog ε σ ι W β) : Prog ε σ ι W β :=
  ExceptT.mk fun s => m.exec s >>= fun x => (k x.1).exec x.2

theorem exec_attempt (m : Prog ε σ ι W α) (k : Except ε α → Prog ε σ ι W β) (s : σ) :
    (attempt m k).exec s = m.exec s >>= fun x => (k x.1).exec x.2 := rfl

/-- How a sequence goes on with what its first part returned or raised. -/
def onward (f : α → Prog ε σ ι W β) : Except ε α → Prog ε σ ι W β
  | .ok a => f a
  | .error e => throw e

/-- A sequence goes on with a result and hands an exception on. -/
theorem bind_eq_attempt (m : Prog ε σ ι W α) (f : α → Prog ε σ ι W β) :
    m >>= f = attempt m (onward f) := by
  refine ext_exec fun s => ?_
  rw [exec_attempt]
  show (m.exec s >>= _) = _
  refine congrArg _ (funext fun x => ?_)
  obtain ⟨r, s'⟩ := x
  cases r with
  | ok a => rfl
  | error e => rfl

/-- How `try … except` goes on with what its body returned or raised. -/
def rescued (handler : ε → Prog ε σ ι W α) : Except ε α → Prog ε σ ι W α
  | .ok a => pure a
  | .error e => handler e

/-- `try … except` hands a result on and an exception to its handler. -/
theorem tryCatch_eq_attempt (m : Prog ε σ ι W α) (handler : ε → Prog ε σ ι W α) :
    tryCatch m handler = attempt m (rescued handler) := by
  refine ext_exec fun s => ?_
  rw [exec_attempt]
  show (m.exec s >>= _) = _
  refine congrArg _ (funext fun x => ?_)
  obtain ⟨r, s'⟩ := x
  cases r with
  | ok a => rfl
  | error e => rfl

@[simp] theorem attempt_pure (a : α) (k : Except ε α → Prog ε σ ι W β) :
    attempt (pure a) k = k (.ok a) := rfl

theorem bind_return (m : Prog ε σ ι W α) : (m >>= pure) = m := by
  refine ext_exec fun s => ?_
  rw [bind_eq_attempt, exec_attempt]
  refine Eq.trans (congrArg _ (funext fun x => ?_)) (Co.bind_ret (m.exec s))
  obtain ⟨r, s'⟩ := x
  cases r <;> rfl

theorem attempt_assoc (m : Prog ε σ ι W α) (k : Except ε α → Prog ε σ ι W β)
    (k' : Except ε β → Prog ε σ ι W γ) :
    attempt (attempt m k) k' = attempt m fun r => attempt (k r) k' := by
  refine ext_exec fun s => ?_
  rw [exec_attempt, exec_attempt, exec_attempt, Co.bind_assoc]
  rfl

theorem bind_assoc (m : Prog ε σ ι W α) (f : α → Prog ε σ ι W β) (g : β → Prog ε σ ι W γ) :
    m >>= f >>= g = m >>= fun a => f a >>= g := by
  rw [bind_eq_attempt m f, bind_eq_attempt _ g, attempt_assoc, bind_eq_attempt m]
  refine congrArg _ (funext fun r => ?_)
  cases r with
  | ok a => exact (bind_eq_attempt (f a) g).symm
  | error e => rfl

/-- What is made of a result can be made of it inside the `try`. -/
theorem tryCatch_return (m : Prog ε σ ι W α) (handler : ε → Prog ε σ ι W α) (f : α → β) :
    (do return f (← tryCatch m handler)) =
      tryCatch (do return f (← m)) fun e => do return f (← handler e) := by
  rw [bind_eq_attempt, tryCatch_eq_attempt, tryCatch_eq_attempt, bind_eq_attempt m, attempt_assoc,
    attempt_assoc]
  refine congrArg _ (funext fun r => ?_)
  cases r with
  | ok a => rfl
  | error e => exact (bind_eq_attempt (handler e) _).symm

end Prog

-- ============================================================================
-- Runs
-- ============================================================================

namespace Config

/-- A killed thread does nothing more. -/
theorem doings_killed {c : Config ι W α} {i : ℕ} (h : c.threads[i]? = some none)
    (es : List (Event ι)) : c.doings i es = [] := by
  induction es generalizing c with
  | nil => rfl
  | cons e es ih =>
      have hnone : c.doing i e = none := by
        cases e with
        | kill j => rfl
        | step j input => simp only [doing, h, ite_self]
      rw [doings, hnone, ih (thread_settled h (Or.inl rfl) e)]
      rfl

/-- What a thread has done has taken it to where it is, or was when it was killed. -/
theorem path_doings {c : Config ι W α} {i : ℕ} {co : Co ι W α} (h : c.threads[i]? = some (some co))
    (es : List (Event ι)) :
    ∃ rest, co.Path (c.doings i es) rest ∧
      ∀ t, (c.run es).threads[i]? = some (some t) → t = rest := by
  induction es generalizing c co with
  | nil =>
      refine ⟨co, Co.path_nil.mpr rfl, fun t ht => ?_⟩
      rw [run_nil, h] at ht
      exact (Option.some.inj (Option.some.inj ht)).symm
  | cons e es ih =>
      by_cases hi : e.thread = i
      swap
      · rw [doings, doing_other c hi]
        exact ih (by rw [thread_step hi, h])
      cases co with
      | ret a =>
          subst hi
          rw [doings_returned h]
          refine ⟨.ret a, Co.path_nil.mpr rfl, fun t ht => ?_⟩
          rw [thread_settled_run h (Or.inr ⟨a, rfl⟩)] at ht
          exact (Option.some.inj (Option.some.inj ht)).symm
      | await block k =>
          have hlt : i < c.threads.length := (List.getElem?_eq_some_iff.mp h).1
          cases e with
          | kill j =>
              obtain rfl : j = i := hi
              have hlive : c.live j = true := by rw [live, h]
              have hkilled : (c.step (.kill j)).threads[j]? = some none := by
                rw [step, if_pos hlive]
                exact List.getElem?_set_self hlt
              refine ⟨.await block k, ?_, fun t ht => ?_⟩
              · rw [doings, doings_killed hkilled]
                exact Co.path_nil.mpr rfl
              · rw [run_cons, thread_settled_run hkilled (Or.inl rfl)] at ht
                cases ht
          | step j input =>
              obtain rfl : j = i := hi
              cases hb : block ⟨j, c.live, input⟩ c.world with
              | none =>
                  have hwaits : c.step (.step j input) = c := by simp only [step, h, hb]
                  have hnone : c.doing j (.step j input) = none := by
                    simp only [doing, h, hb, if_true, Option.map_none]
                  rw [doings, hnone, run_cons, hwaits]
                  exact ih h
              | some r =>
                  have hthread : (c.step (.step j input)).threads[j]? = some (some (k r.1)) := by
                    simp only [step, h, hb]
                    exact List.getElem?_set_self hlt
                  have hsome : c.doing j (.step j input)
                      = some ⟨⟨j, c.live, input⟩, c.world, r.2⟩ := by
                    simp only [doing, h, hb, if_true, Option.map_some]
                  obtain ⟨rest, hrest, hend⟩ := ih hthread
                  rw [doings, hsome]
                  exact ⟨rest, ⟨r.1, hb, hrest⟩, hend⟩

theorem length_run (c : Config ι W α) (es : List (Event ι)) :
    (c.run es).threads.length = c.threads.length := by
  induction es generalizing c with
  | nil => rfl
  | cons e es ih => rw [run_cons, ih, Keeps.length_step]

theorem doings_append (c : Config ι W α) (i : ℕ) (es es' : List (Event ι)) :
    c.doings i (es ++ es') = c.doings i es ++ (c.run es).doings i es' := by
  induction es generalizing c with
  | nil => rfl
  | cons e es ih => rw [List.cons_append, doings, doings, ih, List.append_assoc, run_cons]

/-- A step of a thread does nothing, or it is one of the things the thread does. -/
theorem doing_cases (c : Config ι W α) (i : ℕ) (input : ι) :
    (c.doing i (.step i input) = none ∧ c.step (.step i input) = c) ∨
      c.doing i (.step i input)
          = some ⟨⟨i, c.live, input⟩, c.world, (c.step (.step i input)).world⟩ ∧
        c.live i = true := by
  cases ht : c.threads[i]? with
  | none => exact .inl ⟨by simp only [doing, ht, if_true], by simp only [step, ht]⟩
  | some t =>
      cases t with
      | none => exact .inl ⟨by simp only [doing, ht, if_true], by simp only [step, ht]⟩
      | some co =>
          cases co with
          | ret a => exact .inl ⟨by simp only [doing, ht, if_true], by simp only [step, ht]⟩
          | await block k =>
              cases hb : block ⟨i, c.live, input⟩ c.world with
              | none =>
                  exact .inl ⟨by simp only [doing, ht, hb, if_true, Option.map_none],
                    by simp only [step, ht, hb]⟩
              | some r =>
                  refine .inr ⟨?_, by rw [live, ht]⟩
                  simp only [doing, step, ht, hb, if_true, Option.map_some]

/-- What a thread did it did at a step of its own. -/
theorem mem_doings {c : Config ι W α} {i : ℕ} {es : List (Event ι)} {d : Doing ι W}
    (h : d ∈ c.doings i es) : d.slot.me = i ∧ .step i d.slot.input ∈ es := by
  induction es generalizing c with
  | nil => cases h
  | cons e es ih =>
      obtain hnow | hlater := List.mem_append.mp h
      · have hdoing : c.doing i e = some d := Option.mem_toList.mp hnow
        by_cases hi : e.thread = i
        · subst hi
          cases e with
          | kill j => cases hdoing
          | step j input =>
              obtain ⟨hnone, -⟩ | ⟨hsome, -⟩ := c.doing_cases j input
              · rw [Event.thread, hnone] at hdoing
                cases hdoing
              · rw [Event.thread, hsome] at hdoing
                obtain rfl := Option.some.inj hdoing
                exact ⟨rfl, List.mem_cons_self⟩
        · rw [doing_other c hi] at hdoing
          cases hdoing
      · obtain ⟨hme, hmem⟩ := ih hlater
        exact ⟨hme, List.mem_cons_of_mem e hmem⟩

/-- The event at this place of the run is what the thread did. -/
structure DoneAt (c : Config ι W α) (i : ℕ) (es : List (Event ι)) (n : ℕ) (d : Doing ι W) : Prop where
  event : es[n]? = some (.step i d.slot.input)
  me : d.slot.me = i
  before : d.before = (c.run (es.take n)).world
  after : d.after = (c.run (es.take (n + 1))).world

theorem DoneAt.later {c : Config ι W α} {i n : ℕ} {e : Event ι} {es : List (Event ι)}
    {d : Doing ι W} (h : (c.step e).DoneAt i es n d) : c.DoneAt i (e :: es) (n + 1) d :=
  ⟨h.event, h.me, h.before, h.after⟩

theorem doneAt_zero {c : Config ι W α} {i : ℕ} {e : Event ι} {d : Doing ι W}
    (h : c.doing i e = some d) (es : List (Event ι)) : c.DoneAt i (e :: es) 0 d := by
  by_cases hi : e.thread = i
  · subst hi
    cases e with
    | kill j => cases h
    | step j input =>
        obtain ⟨hnone, -⟩ | ⟨hsome, -⟩ := c.doing_cases j input
        · rw [Event.thread, hnone] at h
          cases h
        · rw [Event.thread, hsome] at h
          obtain rfl := Option.some.inj h
          exact ⟨rfl, rfl, rfl, rfl⟩
  · rw [doing_other c hi] at h
    cases h

/-- Some of what a thread did, in order, and the places in the run where it did it. -/
theorem doneAt_of_sublist {c : Config ι W α} {i : ℕ} {es : List (Event ι)} {ds : List (Doing ι W)}
    (h : ds.Sublist (c.doings i es)) :
    ∃ moments : List ℕ, moments.Pairwise (· < ·) ∧ List.Forall₂ (c.DoneAt i es) moments ds := by
  induction es generalizing c ds with
  | nil =>
      rw [List.sublist_nil.mp h]
      exact ⟨[], List.Pairwise.nil, List.Forall₂.nil⟩
  | cons e es ih =>
      have hlater : ∀ {ds' : List (Doing ι W)}, ds'.Sublist ((c.step e).doings i es) →
          ∃ moments : List ℕ, (∀ n ∈ moments, 0 < n) ∧ moments.Pairwise (· < ·) ∧
            List.Forall₂ (c.DoneAt i (e :: es)) moments ds' := by
        intro ds' hsub
        obtain ⟨moments, hordered, hdone⟩ := ih hsub
        refine ⟨moments.map (· + 1), ?_, ?_, ?_⟩
        · intro n hn
          obtain ⟨m, -, rfl⟩ := List.mem_map.mp hn
          exact Nat.succ_pos m
        · exact hordered.map _ fun _ _ hlt => Nat.succ_lt_succ hlt
        · exact List.forall₂_map_left_iff.mpr (hdone.imp fun _ _ => DoneAt.later)
      rw [doings] at h
      cases hdoing : c.doing i e with
      | none =>
          rw [hdoing] at h
          obtain ⟨moments, -, hordered, hdone⟩ := hlater h
          exact ⟨moments, hordered, hdone⟩
      | some d =>
          rw [hdoing] at h
          cases h with
          | cons _ hrest =>
              obtain ⟨moments, -, hordered, hdone⟩ := hlater hrest
              exact ⟨moments, hordered, hdone⟩
          | cons_cons _ hrest =>
              obtain ⟨moments, hpos, hordered, hdone⟩ := hlater hrest
              exact ⟨0 :: moments, List.Pairwise.cons hpos hordered,
                List.Forall₂.cons (doneAt_zero hdoing es) hdone⟩

theorem doneAt_of_mem {c : Config ι W α} {i : ℕ} {es : List (Event ι)} {d : Doing ι W}
    (h : d ∈ c.doings i es) : ∃ n, c.DoneAt i es n d := by
  obtain ⟨moments, -, hdone⟩ := doneAt_of_sublist (List.singleton_sublist.mpr h)
  cases hdone with
  | cons hd _ => exact ⟨_, hd⟩

end Config

end Coroutine
