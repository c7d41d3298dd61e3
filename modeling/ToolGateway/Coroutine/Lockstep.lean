/-
  ToolGateway.Coroutine.Lockstep

  Two runs side by side.  Their programs get the same input at each await point, on
  worlds that are related; either both wait, or both go on and leave related worlds.
  What is known about the two worlds is a point of an order and only grows, so a program
  may rely on it whatever other threads do in between.
-/

import Mathlib.Data.Option.Basic
import Mathlib.Order.Basic
import ToolGateway.Coroutine.Follow

namespace Coroutine

variable {ε σ ι W W' α α' β β' γ κ : Type} [Preorder κ] {R : κ → W → W' → Prop} {ok : ι → Prop}
  {p q : κ}

namespace Co

/-- From what is known at `p` the two programs go in lockstep and end with results that
    `Q` relates. -/
def Lockstep (R : κ → W → W' → Prop) (ok : ι → Prop) (Q : κ → α → α' → Prop) (p : κ) :
    Co ι W α → Co ι W' α' → Prop
  | ret a, ret a' => ∀ q, p ≤ q → Q q a a'
  | ret _, await _ _ => False
  | await _ _, ret _ => False
  | await block k, await block' k' => ∀ (slot : Slot ι) q w w', ok slot.input → p ≤ q → R q w w' →
      (block slot w = none ∧ block' slot w' = none) ∨
      ∃ x v x' v' r, block slot w = some (x, v) ∧ block' slot w' = some (x', v') ∧ q ≤ r ∧
        R r v v' ∧ (k x).Lockstep R ok Q r (k' x')

namespace Lockstep

variable {Q : κ → α → α' → Prop}

/-- More may be known. -/
theorem le {c : Co ι W α} {c' : Co ι W' α'} (h : c.Lockstep R ok Q p c') (hle : p ≤ q) :
    c.Lockstep R ok Q q c' := by
  cases c with
  | ret a =>
      cases c' with
      | ret a' => exact fun r hr => h r (hle.trans hr)
      | await _ _ => exact h
  | await block k =>
      cases c' with
      | ret _ => exact h
      | await block' k' =>
          exact fun slot r w w' hok hr hw => h slot r w w' hok (hle.trans hr) hw

theorem mono {Q' : κ → α → α' → Prop} {c : Co ι W α} {c' : Co ι W' α'}
    (h : c.Lockstep R ok Q p c') (hQ : ∀ q a a', p ≤ q → Q q a a' → Q' q a a') :
    c.Lockstep R ok Q' p c' := by
  induction c generalizing c' p with
  | ret a =>
      cases c' with
      | ret a' => exact fun q hq => hQ q a a' hq (h q hq)
      | await _ _ => exact h
  | await block k ih =>
      cases c' with
      | ret _ => exact h
      | await block' k' =>
          intro slot q w w' hok hq hw
          rcases h slot q w w' hok hq hw with hwait | ⟨x, v, x', v', r, hb, hb', hr, hv, hk⟩
          · exact Or.inl hwait
          · refine Or.inr ⟨x, v, x', v', r, hb, hb', hr, hv, ih x hk fun r' a a' hr' => ?_⟩
            exact hQ r' a a' (hq.trans (hr.trans hr'))

theorem bind {Q' : κ → β → β' → Prop} {c : Co ι W α} {c' : Co ι W' α'} {f : α → Co ι W β}
    {f' : α' → Co ι W' β'} (h : c.Lockstep R ok Q p c')
    (hf : ∀ q a a', p ≤ q → (∀ r, q ≤ r → Q r a a') → (f a).Lockstep R ok Q' q (f' a')) :
    (c >>= f).Lockstep R ok Q' p (c' >>= f') := by
  induction c generalizing c' p with
  | ret a =>
      cases c' with
      | ret a' => exact hf p a a' le_rfl h
      | await _ _ => exact h.elim
  | await block k ih =>
      cases c' with
      | ret _ => exact h.elim
      | await block' k' =>
          intro slot q w w' hok hq hw
          rcases h slot q w w' hok hq hw with hwait | ⟨x, v, x', v', r, hb, hb', hr, hv, hk⟩
          · exact Or.inl hwait
          · refine Or.inr ⟨x, v, x', v', r, hb, hb', hr, hv, ih x hk fun r' a a' hr' => ?_⟩
            exact hf r' a a' (hq.trans (hr.trans hr'))

theorem atomic {block : Slot ι → W → Option (α × W)} {block' : Slot ι → W' → Option (α' × W')}
    (h : ∀ (slot : Slot ι) q w w', ok slot.input → p ≤ q → R q w w' →
      (block slot w = none ∧ block' slot w' = none) ∨
      ∃ x v x' v' r, block slot w = some (x, v) ∧ block' slot w' = some (x', v') ∧ q ≤ r ∧
        R r v v' ∧ ∀ r', r ≤ r' → Q r' x x') :
    (Co.atomic block).Lockstep R ok Q p (Co.atomic block') :=
  h

end Lockstep

end Co

-- ============================================================================
-- Programs with exceptions
-- ============================================================================

namespace Prog

/-- The two programs end alike: with the same result or exception and the same context. -/
structure Alike (R : κ → W → W' → Prop) (ok : ι → Prop) (p : κ) (s : σ) (m : Prog ε σ ι W α)
    (m' : Prog ε σ ι W' α) (post : κ → Except ε α → σ → Prop) : Prop where
  lockstep : (m.exec s).Lockstep R ok (fun q x y => x = y ∧ post q x.1 x.2) p (m'.exec s)

namespace Alike

variable {s : σ} {post : κ → Except ε β → σ → Prop}

theorem pure {b : β} (h : ∀ q, p ≤ q → post q (.ok b) s) :
    Alike R ok p s (pure b : Prog ε σ ι W β) (pure b) post :=
  ⟨fun q hq => ⟨rfl, h q hq⟩⟩

theorem throw {e : ε} (h : ∀ q, p ≤ q → post q (.error e) s) :
    Alike R ok p s (throw e : Prog ε σ ι W β) (throw e) post :=
  ⟨fun q hq => ⟨rfl, h q hq⟩⟩

theorem update {u : σ → σ} {post : κ → Except ε PUnit → σ → Prop}
    (h : ∀ q, p ≤ q → post q (.ok ⟨⟩) (u s)) :
    Alike R ok p s (modify u : Prog ε σ ι W PUnit) (modify u) post :=
  ⟨fun q hq => ⟨rfl, h q hq⟩⟩

theorem bind {m : Prog ε σ ι W α} {m' : Prog ε σ ι W' α} {f : α → Prog ε σ ι W β}
    {f' : α → Prog ε σ ι W' β} {mid : κ → Except ε α → σ → Prop} (h : Alike R ok p s m m' mid)
    (hok : ∀ q a s', p ≤ q → mid q (.ok a) s' → Alike R ok q s' (f a) (f' a) post)
    (herror : ∀ q e s', p ≤ q → mid q (.error e) s' → post q (.error e) s') :
    Alike R ok p s (m >>= f) (m' >>= f') post := by
  refine ⟨Co.Lockstep.bind h.lockstep ?_⟩
  rintro q ⟨r, s'⟩ y hq hmid
  obtain ⟨rfl, -⟩ := hmid q le_rfl
  cases r with
  | ok a => exact (hok q a s' hq (hmid q le_rfl).2).lockstep
  | error e => exact fun r hr => ⟨rfl, herror r e s' (hq.trans hr) (hmid r hr).2⟩

theorem tryCatch {m : Prog ε σ ι W β} {m' : Prog ε σ ι W' β} {handler : ε → Prog ε σ ι W β}
    {handler' : ε → Prog ε σ ι W' β} {mid : κ → Except ε β → σ → Prop}
    (h : Alike R ok p s m m' mid)
    (hok : ∀ q b s', p ≤ q → mid q (.ok b) s' → post q (.ok b) s')
    (herror : ∀ q e s', p ≤ q → mid q (.error e) s' →
      Alike R ok q s' (handler e) (handler' e) post) :
    Alike R ok p s (tryCatch m handler) (tryCatch m' handler') post := by
  refine ⟨Co.Lockstep.bind h.lockstep ?_⟩
  rintro q ⟨r, s'⟩ y hq hmid
  obtain ⟨rfl, -⟩ := hmid q le_rfl
  cases r with
  | ok b => exact fun r hr => ⟨rfl, hok r b s' (hq.trans hr) (hmid r hr).2⟩
  | error e => exact (herror q e s' hq (hmid q le_rfl).2).lockstep

/-- The first statement is a coroutine without exceptions; its answers may differ. -/
theorem lift_bind {c : Co ι W α} {c' : Co ι W' α'} {f : α → Prog ε σ ι W β}
    {f' : α' → Prog ε σ ι W' β} {mid : κ → α → α' → Prop} (h : c.Lockstep R ok mid p c')
    (hf : ∀ q a a', p ≤ q → mid q a a' → Alike R ok q s (f a) (f' a') post) :
    Alike R ok p s (Prog.lift c >>= f) (Prog.lift c' >>= f') post := by
  refine ⟨?_⟩
  rw [exec_lift_bind, exec_lift_bind]
  exact Co.Lockstep.bind h fun q a a' hq hmid => (hf q a a' hq (hmid q le_rfl)).lockstep

theorem get_bind {f : σ → Prog ε σ ι W β} {f' : σ → Prog ε σ ι W' β}
    (h : Alike R ok p s (f s) (f' s) post) :
    Alike R ok p s (MonadState.get >>= f) (MonadState.get >>= f') post :=
  ⟨h.lockstep⟩

theorem modify_bind {u : σ → σ} {f : PUnit → Prog ε σ ι W β} {f' : PUnit → Prog ε σ ι W' β}
    (h : Alike R ok p (u s) (f ⟨⟩) (f' ⟨⟩) post) :
    Alike R ok p s ((modify u : Prog ε σ ι W PUnit) >>= f) ((modify u : Prog ε σ ι W' PUnit) >>= f')
      post :=
  ⟨h.lockstep⟩

end Alike

end Prog

-- ============================================================================
-- Runs
-- ============================================================================

namespace Config

/-- A thread of two systems side by side: missing, dead, or a program in each. -/
inductive Paired (R : κ → W → W' → Prop) (ok : ι → Prop) (Q : κ → α → α' → Prop) (p : κ) :
    Option (Option (Co ι W α)) → Option (Option (Co ι W' α')) → Prop
  | missing : Paired R ok Q p none none
  | dead : Paired R ok Q p (some none) (some none)
  | running {co : Co ι W α} {co' : Co ι W' α'} (h : co.Lockstep R ok Q p co') :
      Paired R ok Q p (some (some co)) (some (some co'))

/-- Two systems side by side. -/
structure Abreast (R : κ → W → W' → Prop) (ok : ι → Prop) (Q : ℕ → κ → α → α' → Prop) (p : κ)
    (c : Config ι W α) (c' : Config ι W' α') : Prop where
  world : R p c.world c'.world
  threads : ∀ i, Paired R ok (Q i) p c.threads[i]? c'.threads[i]?

theorem Paired.le {Q : κ → α → α' → Prop} {t : Option (Option (Co ι W α))}
    {t' : Option (Option (Co ι W' α'))} (h : Paired R ok Q p t t') (hle : p ≤ q) :
    Paired R ok Q q t t' := by
  cases h with
  | missing => exact .missing
  | dead => exact .dead
  | running h => exact .running (h.le hle)

namespace Abreast

variable {Q : ℕ → κ → α → α' → Prop} {c : Config ι W α} {c' : Config ι W' α'}

/-- Where a thread of the two systems is. -/
theorem cases (h : Abreast R ok Q p c c') (i : ℕ) :
    (c.threads[i]? = none ∧ c'.threads[i]? = none) ∨
    (c.threads[i]? = some none ∧ c'.threads[i]? = some none) ∨
    (∃ a a', c.threads[i]? = some (some (.ret a)) ∧ c'.threads[i]? = some (some (.ret a')) ∧
      ∀ q, p ≤ q → Q i q a a') ∨
    ∃ (β β' : Type) (block : Slot ι → W → Option (β × W)) (k : β → Co ι W α)
      (block' : Slot ι → W' → Option (β' × W')) (k' : β' → Co ι W' α'),
      c.threads[i]? = some (some (.await block k)) ∧
      c'.threads[i]? = some (some (.await block' k')) ∧
      (Co.await block k).Lockstep R ok (Q i) p (.await block' k') := by
  have hi := h.threads i
  generalize c.threads[i]? = t at hi ⊢
  generalize c'.threads[i]? = t' at hi ⊢
  cases hi with
  | missing => exact Or.inl ⟨rfl, rfl⟩
  | dead => exact Or.inr (Or.inl ⟨rfl, rfl⟩)
  | @running co co' hco =>
      cases co with
      | ret a =>
          cases co' with
          | ret a' => exact Or.inr (Or.inr (Or.inl ⟨a, a', rfl, rfl, hco⟩))
          | await _ _ => exact hco.elim
      | await block k =>
          cases co' with
          | ret _ => exact hco.elim
          | await block' k' =>
              exact Or.inr (Or.inr (Or.inr ⟨_, _, block, k, block', k', rfl, rfl, hco⟩))

theorem live (h : Abreast R ok Q p c c') : c.live = c'.live := by
  funext i
  unfold Config.live
  rcases h.cases i with ⟨hc, hc'⟩ | ⟨hc, hc'⟩ | ⟨a, a', hc, hc', -⟩ |
    ⟨_, _, block, k, block', k', hc, hc', -⟩ <;> rw [hc, hc']

/-- What finished threads returned is related. -/
theorem outcome (h : Abreast R ok Q p c c') (i : ℕ) :
    Option.Rel (Q i p) (c.outcome i) (c'.outcome i) := by
  unfold Config.outcome
  rcases h.cases i with ⟨hc, hc'⟩ | ⟨hc, hc'⟩ | ⟨a, a', hc, hc', hQ⟩ |
    ⟨_, _, block, k, block', k', hc, hc', -⟩
  · rw [hc, hc']
    exact .none
  · rw [hc, hc']
    exact .none
  · rw [hc, hc']
    exact .some (hQ p le_rfl)
  · rw [hc, hc']
    exact .none

/-- A thread of the two systems is replaced in both. -/
theorem set {w : W} {w' : W'} {t : Option (Co ι W α)} {t' : Option (Co ι W' α')}
    (h : Abreast R ok Q p c c') (hle : p ≤ q) (hw : R q w w') (i : ℕ)
    (ht : Paired R ok (Q i) q (some t) (some t')) :
    Abreast R ok Q q { world := w, threads := c.threads.set i t }
      { world := w', threads := c'.threads.set i t' } := by
  refine ⟨hw, fun j => ?_⟩
  have hj := (h.threads j).le hle
  show Paired R ok (Q j) q (c.threads.set i t)[j]? (c'.threads.set i t')[j]?
  rw [List.getElem?_set, List.getElem?_set]
  by_cases hij : i = j
  · subst hij
    rw [if_pos rfl, if_pos rfl]
    have hlength : i < c.threads.length ↔ i < c'.threads.length := by
      rw [← not_iff_not, Nat.not_lt, Nat.not_lt, ← List.getElem?_eq_none_iff, ← List.getElem?_eq_none_iff]
      generalize c.threads[i]? = u at hj
      generalize c'.threads[i]? = u' at hj
      cases hj <;> simp
    by_cases hi : i < c.threads.length
    · rw [if_pos hi, if_pos (hlength.mp hi)]
      exact ht
    · rw [if_neg hi, if_neg (mt hlength.mpr hi)]
      exact .missing
  · rw [if_neg hij, if_neg hij]
    exact hj

/-- One event keeps them side by side. -/
theorem step (h : Abreast R ok Q p c c') {e : Event ι}
    (he : ∀ i input, e = .step i input → ok input) :
    ∃ q, p ≤ q ∧ Abreast R ok Q q (c.step e) (c'.step e) := by
  cases e with
  | kill i =>
      have hlive : c.live i = c'.live i := congrFun h.live i
      by_cases hi : c.live i = true
      · refine ⟨p, le_rfl, ?_⟩
        have hi' : c'.live i = true := hlive ▸ hi
        simp only [Config.step, hi, hi', if_true]
        exact h.set le_rfl h.world i .dead
      · refine ⟨p, le_rfl, ?_⟩
        have hi' : ¬ c'.live i = true := hlive ▸ hi
        simp only [Config.step, hi, hi']
        exact h
  | step i input =>
      rcases h.cases i with ⟨hc, hc'⟩ | ⟨hc, hc'⟩ | ⟨a, a', hc, hc', -⟩ |
        ⟨_, _, block, k, block', k', hc, hc', hco⟩
      · refine ⟨p, le_rfl, ?_⟩
        simp only [Config.step, hc, hc']
        exact h
      · refine ⟨p, le_rfl, ?_⟩
        simp only [Config.step, hc, hc']
        exact h
      · refine ⟨p, le_rfl, ?_⟩
        simp only [Config.step, hc, hc']
        exact h
      · have hblock := hco ⟨i, c.live, input⟩ p c.world c'.world (he i input rfl) le_rfl h.world
        rcases hblock with ⟨hb, hb'⟩ | ⟨x, v, x', v', q, hb, hb', hq, hv, hk⟩
        · refine ⟨p, le_rfl, ?_⟩
          rw [h.live] at hb hb'
          simp only [Config.step, hc, hc', h.live, hb, hb']
          exact h
        · refine ⟨q, hq, ?_⟩
          rw [h.live] at hb hb'
          simp only [Config.step, hc, hc', h.live, hb, hb']
          exact h.set hq hv i (.running hk)

/-- Whole runs, of the same events. -/
theorem run (h : Abreast R ok Q p c c') {es : List (Event ι)}
    (hes : ∀ i input, .step i input ∈ es → ok input) :
    ∃ q, p ≤ q ∧ Abreast R ok Q q (c.run es) (c'.run es) := by
  induction es generalizing c c' p with
  | nil => exact ⟨p, le_rfl, h⟩
  | cons e es ih =>
      obtain ⟨q, hq, hstep⟩ := h.step fun i input he => hes i input (he ▸ List.mem_cons_self ..)
      obtain ⟨r, hr, hrun⟩ := ih hstep fun i input he => hes i input (List.mem_cons_of_mem e he)
      exact ⟨r, hq.trans hr, hrun⟩

end Abreast

end Config

end Coroutine
