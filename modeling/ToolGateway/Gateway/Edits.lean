/-
  ToolGateway.Gateway.Edits

  An operator's edit, as `apply_decision` adopts it.  The code compares with
  Python's `==`, which takes a boolean for a number, and looks each key up with
  `get`, which takes an absent key for a null.  Where the two objects differ in
  one of these ways only, the edit is dropped or its note leaves the key out.
-/

import ToolGateway.Python.RoundTrip
import ToolGateway.Python.Same
import ToolGateway.Python.Scanned
import ToolGateway.Gateway.Approval

namespace ToolGateway

open Coroutine Py

section
variable {before after : Fields}

-- ============================================================================
-- The changed keys
-- ============================================================================

theorem toSet_dict (fs : Fields) : toSet (.dict fs) = .ok (fs.map fun f => Json.str f.1) := by
  have hhash : (fs.map fun f => Json.str f.1).all Json.hashable = true := by
    simp [List.all_map, Json.hashable]
  simp only [toSet, Json.iter, hhash, if_true]

/-- Of two objects the code collects the keys `get` tells apart. -/
theorem changedFields_dict (before after : Fields) :
    ∃ changed, changedFields (.dict before) (.dict after) = .ok changed ∧
      ∀ k, k ∈ changed ↔ (k ∈ before.map Prod.fst ∨ k ∈ after.map Prod.fst) ∧
        (Fields.get before k).eq (Fields.get after k) = false := by
  unfold changedFields
  rw [toSet_dict, toSet_dict]
  refine ⟨_, rfl, fun k => ?_⟩
  simp [Dict.keys]

-- ============================================================================
-- The verdict on a context
-- ============================================================================

variable {σ : Type} {d : Decision} {ctx : CallContext}

/-- The context that carries the edit and its note. -/
def CallContext.adopt (ctx : CallContext) (d : Decision) (changed : List String) : CallContext :=
  { ctx with
    call := { ctx.call with arguments := d.editedArguments }
    bag := { ctx.bag with editNote := editNote d changed } }

theorem applyDecision_unedited (happroved : d.approved = true)
    (hedits : d.edits ctx.call.arguments = false) :
    (applyDecision d : StepM σ Unit).exec ctx = .ret (.ok (), ctx) := by
  have hskip : (if d.edits ctx.call.arguments = true then
      (do
        let changed ← orRaise (changedFields ctx.call.arguments d.editedArguments)
        modify fun ctx => ctx.adopt d changed : StepM σ Unit)
      else pure ()).exec ctx = .ret (.ok (), ctx) := by
    rw [if_neg (by simp [hedits])]
    rfl
  unfold applyDecision
  rw [if_pos happroved]
  exact hskip

theorem applyDecision_edited (happroved : d.approved = true)
    (hedits : d.edits ctx.call.arguments = true) {changed : List String}
    (hchanged : changedFields ctx.call.arguments d.editedArguments = .ok changed) :
    (applyDecision d : StepM σ Unit).exec ctx = .ret (.ok (), ctx.adopt d changed) := by
  have hadopt : (if d.edits ctx.call.arguments = true then
      (do
        let changed ← orRaise (changedFields ctx.call.arguments d.editedArguments)
        modify fun ctx => ctx.adopt d changed : StepM σ Unit)
      else pure ()).exec ctx = .ret (.ok (), ctx.adopt d changed) := by
    rw [if_pos hedits, hchanged]
    rfl
  unfold applyDecision
  rw [if_pos happroved]
  exact hadopt

theorem applyDecision_denied (hdenied : d.approved = false) :
    (applyDecision d : StepM σ Unit).exec ctx
      = .ret (.error (.gateway (.approvalDenied d)), ctx) := by
  unfold applyDecision
  rw [if_neg (by simp [hdenied])]
  rfl

/-- An edit whose fields cannot be compared with the call's is an exception of the
    interpreter. -/
theorem applyDecision_stuck (happroved : d.approved = true)
    (hedits : d.edits ctx.call.arguments = true) {e : PyError}
    (hchanged : changedFields ctx.call.arguments d.editedArguments = .error e) :
    (applyDecision d : StepM σ Unit).exec ctx = .ret (.error (.python e), ctx) := by
  have hraise : (if d.edits ctx.call.arguments = true then
      (do
        let changed ← orRaise (changedFields ctx.call.arguments d.editedArguments)
        modify fun ctx => ctx.adopt d changed : StepM σ Unit)
      else pure ()).exec ctx = .ret (.error (.python e), ctx) := by
    rw [if_pos hedits, hchanged]
    rfl
  unfold applyDecision
  rw [if_pos happroved]
  exact hraise

/-- The edit of an approved ticket, if there is one, can be compared with the call it
    edits. -/
def Decision.Adoptable (d : Decision) (arguments : Json) : Prop :=
  d.edits arguments = true → ∃ changed, changedFields arguments d.editedArguments = .ok changed

/-- Past the verdict check, with the context it leaves; or not. -/
theorem applyDecision_approved (happroved : d.approved = true) :
    (d.Adoptable ctx.call.arguments ∧
        ∃ ctx', (applyDecision d : StepM σ Unit).exec ctx = .ret (.ok (), ctx')) ∨
      (¬ d.Adoptable ctx.call.arguments ∧
        ∃ e, (applyDecision d : StepM σ Unit).exec ctx = .ret (.error (.python e), ctx)) := by
  cases hedits : d.edits ctx.call.arguments with
  | false =>
      refine Or.inl ⟨fun h => ?_, ctx, applyDecision_unedited happroved hedits⟩
      rw [hedits] at h
      cases h
  | true =>
      cases hchanged : changedFields ctx.call.arguments d.editedArguments with
      | ok changed =>
          exact Or.inl ⟨fun _ => ⟨changed, hchanged⟩, _,
            applyDecision_edited happroved hedits hchanged⟩
      | error e =>
          refine Or.inr ⟨fun h => ?_, e, applyDecision_stuck happroved hedits hchanged⟩
          obtain ⟨changed, hok⟩ := h hedits
          rw [hchanged] at hok
          cases hok

end

-- ============================================================================
-- A title that is corrected, and a flag that becomes a number
-- ============================================================================

/-- An approval with this edit. -/
def approvedEdit (after : Fields) : Decision :=
  { status := .approved, approver := "alice", editedArguments := .dict after }

end ToolGateway
