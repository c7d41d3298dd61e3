/-
  ToolGateway.Coroutine.Steps

  Coroutines that raise exceptions and carry a context of their own: the context
  survives an exception, as a mutable object handed from caller to callee does.
  `Spec` is `Discipline.Triple` for such programs, with one rule for each way of
  building them.
-/

import ToolGateway.Coroutine.Trail

namespace Coroutine

/-- A program of one thread with exceptions `ε` and a context `σ`. -/
abbrev Prog (ε σ ι W : Type) := ExceptT ε (StateT σ (Co ι W))

variable {ε σ ι W α β M : Type}

namespace Prog

/-- A coroutine without exceptions. -/
def lift (c : Co ι W α) : Prog ε σ ι W α := ExceptT.lift (StateT.lift c)

/-- One await point. -/
def atomic (block : Slot ι → W → Option (β × W)) : Prog ε σ ι W β := lift (Co.atomic block)

/-- Run it on a context: what it returns or raises, and the context it leaves. -/
def exec (m : Prog ε σ ι W α) (s : σ) : Co ι W (Except ε α × σ) := StateT.run (ExceptT.run m) s

end Prog

namespace Discipline

variable {D : Discipline W M} {i : ℕ} {pre : List M} {s : σ}

variable (D) in
/-- From the marks `pre` and the context `s` the program of thread `i` ends with
    a result or an exception, a context and marks that satisfy `post`. -/
def Spec (i : ℕ) (pre : List M) (s : σ) (m : Prog ε σ ι W α)
    (post : Except ε α → σ → List M → Prop) : Prop :=
  D.Triple i pre (m.exec s) fun r marks => post r.1 r.2 marks

namespace Spec

theorem pure {a : α} {post : Except ε α → σ → List M → Prop} (h : post (.ok a) s pre) :
    D.Spec i pre s (pure a : Prog ε σ ι W α) post :=
  Triple.ret h

theorem throw {e : ε} {post : Except ε α → σ → List M → Prop} (h : post (.error e) s pre) :
    D.Spec i pre s (throw e : Prog ε σ ι W α) post :=
  Triple.ret h

theorem get {post : Except ε σ → σ → List M → Prop} (h : post (.ok s) s pre) :
    D.Spec i pre s (get : Prog ε σ ι W σ) post :=
  Triple.ret h

theorem update {f : σ → σ} {post : Except ε PUnit → σ → List M → Prop}
    (h : post (.ok ⟨⟩) (f s) pre) : D.Spec i pre s (modify f : Prog ε σ ι W PUnit) post :=
  Triple.ret h

theorem mono {m : Prog ε σ ι W α} {post post' : Except ε α → σ → List M → Prop}
    (h : D.Spec i pre s m post) (hpost : ∀ r s' marks, post r s' marks → post' r s' marks) :
    D.Spec i pre s m post' :=
  Triple.mono h fun r marks hp => hpost r.1 r.2 marks hp

theorem bind {m : Prog ε σ ι W α} {f : α → Prog ε σ ι W β}
    {mid : Except ε α → σ → List M → Prop} {post : Except ε β → σ → List M → Prop}
    (h : D.Spec i pre s m mid)
    (hok : ∀ a s' marks, mid (.ok a) s' marks → D.Spec i marks s' (f a) post)
    (herror : ∀ e s' marks, mid (.error e) s' marks → post (.error e) s' marks) :
    D.Spec i pre s (m >>= f) post := by
  refine Triple.bind h ?_
  rintro ⟨r, s'⟩ marks hmid
  cases r with
  | ok a => exact hok a s' marks hmid
  | error e => exact Triple.ret (herror e s' marks hmid)

/-- `try … except`: a result goes through, an exception to the handler. -/
theorem tryCatch {m : Prog ε σ ι W α} {handler : ε → Prog ε σ ι W α}
    {mid post : Except ε α → σ → List M → Prop} (h : D.Spec i pre s m mid)
    (hok : ∀ a s' marks, mid (.ok a) s' marks → post (.ok a) s' marks)
    (herror : ∀ e s' marks, mid (.error e) s' marks → D.Spec i marks s' (handler e) post) :
    D.Spec i pre s (tryCatch m handler) post := by
  refine Triple.bind h ?_
  rintro ⟨r, s'⟩ marks hmid
  cases r with
  | ok a => exact Triple.ret (hok a s' marks hmid)
  | error e => exact herror e s' marks hmid

theorem lift {c : Co ι W α} {mid : α → List M → Prop} {post : Except ε α → σ → List M → Prop}
    (h : D.Triple i pre c mid) (hpost : ∀ a marks, mid a marks → post (.ok a) s marks) :
    D.Spec i pre s (Prog.lift c : Prog ε σ ι W α) post := by
  refine Triple.bind (Triple.bind h ?_) fun _ _ hp => Triple.ret hp
  exact fun a marks hmid => Triple.ret (hpost a marks hmid)

/-- The first statement is a coroutine without exceptions. -/
theorem lift_bind {c : Co ι W α} {f : α → Prog ε σ ι W β} {mid : α → List M → Prop}
    {post : Except ε β → σ → List M → Prop} (h : D.Triple i pre c mid)
    (hf : ∀ a marks, mid a marks → D.Spec i marks s (f a) post) :
    D.Spec i pre s (Prog.lift c >>= f) post := by
  have hlift : D.Spec i pre s (Prog.lift c : Prog ε σ ι W α) fun r s' marks =>
      ∃ a, r = .ok a ∧ s' = s ∧ mid a marks := lift h fun a marks hmid => ⟨a, rfl, rfl, hmid⟩
  refine bind hlift ?_ ?_
  · rintro a s' marks ⟨_, hr, rfl, hmid⟩
    cases hr
    exact hf a marks hmid
  · rintro e s' marks ⟨_, hr, -⟩
    cases hr

theorem get_bind {f : σ → Prog ε σ ι W β} {post : Except ε β → σ → List M → Prop}
    (h : D.Spec i pre s (f s) post) : D.Spec i pre s (MonadState.get >>= f) post := by
  have hget : D.Spec i pre s (MonadState.get : Prog ε σ ι W σ) fun r s' marks =>
      r = .ok s ∧ s' = s ∧ marks = pre := get ⟨rfl, rfl, rfl⟩
  refine bind hget ?_ ?_
  · rintro a s' marks ⟨hr, rfl, rfl⟩
    cases hr
    exact h
  · rintro e s' marks ⟨hr, -⟩
    cases hr

theorem modify_bind {g : σ → σ} {f : PUnit → Prog ε σ ι W β} {post : Except ε β → σ → List M → Prop}
    (h : D.Spec i pre (g s) (f ⟨⟩) post) :
    D.Spec i pre s ((modify g : Prog ε σ ι W PUnit) >>= f) post := by
  have hmodify : D.Spec i pre s (modify g : Prog ε σ ι W PUnit) fun r s' marks =>
      r = .ok ⟨⟩ ∧ s' = g s ∧ marks = pre := update ⟨rfl, rfl, rfl⟩
  refine bind hmodify ?_ ?_
  · rintro a s' marks ⟨-, rfl, rfl⟩
    exact h
  · rintro e s' marks ⟨hr, -⟩
    cases hr

end Spec

end Discipline

end Coroutine
