/-
  ToolGateway.Coroutine.Views

  A coroutine in another setting: on a part of a larger world (`zoom`), or with
  the inputs of its steps narrowed (`under`).
-/

import ToolGateway.Coroutine.Rely

namespace Coroutine

variable {ι ι' W W' α β : Type}

namespace Co

/-- On the part of the world that `view` shows; `put` writes that part back. -/
def zoom (view : W → W') (put : W' → W → W) : Co ι W' α → Co ι W α
  | ret a => ret a
  | await block k =>
      await (fun slot w => (block slot (view w)).map fun r => (r.1, put r.2 w)) fun x =>
        (k x).zoom view put

/-- With inputs `f x` only. -/
def under (f : ι' → ι) : Co ι W α → Co ι' W α
  | ret a => ret a
  | await block k => await (fun slot => block ⟨slot.me, slot.live, f slot.input⟩) fun x => (k x).under f

section
variable (view : W → W') (put : W' → W → W) (f : ι' → ι)

@[simp] theorem zoom_ret (a : α) : (ret a : Co ι W' α).zoom view put = ret a := rfl

@[simp] theorem zoom_bind (c : Co ι W' α) (g : α → Co ι W' β) :
    (c >>= g).zoom view put = c.zoom view put >>= fun a => (g a).zoom view put := by
  induction c with
  | ret a => rfl
  | await block k ih =>
      show await _ (fun x => ((k x) >>= g).zoom view put) = await _ fun x => _
      exact congrArg _ (funext ih)

@[simp] theorem zoom_atomic (block : Slot ι → W' → Option (β × W')) :
    (atomic block).zoom view put
      = atomic fun slot w => (block slot (view w)).map fun r => (r.1, put r.2 w) := rfl

@[simp] theorem under_ret (a : α) : (ret a : Co ι W α).under f = ret a := rfl

@[simp] theorem under_bind (c : Co ι W α) (g : α → Co ι W β) :
    (c >>= g).under f = c.under f >>= fun a => (g a).under f := by
  induction c with
  | ret a => rfl
  | await block k ih =>
      show await _ (fun x => ((k x) >>= g).under f) = await _ fun x => _
      exact congrArg _ (funext ih)

@[simp] theorem under_atomic (block : Slot ι → W → Option (β × W)) :
    (atomic block).under f = atomic fun slot => block ⟨slot.me, slot.live, f slot.input⟩ := rfl

end

end Co

end Coroutine
