/-
  ToolGateway.Python.Same

  Two ways to compare JSON values.  Python's `==` takes a boolean for the number
  it is; JSON keeps the two apart (`Json.same`).  Of objects without repeated
  keys both ask for the same: under each key nothing on both sides, or two values
  that compare.
-/

import ToolGateway.Python.Value

namespace Py

-- ============================================================================
-- Induction over a value
-- ============================================================================

namespace Json

/-- A value that holds no others. -/
def scalar : Json → Bool
  | list _ | dict _ => false
  | _ => true

/-- What holds of the scalars, and of a container when it holds of all it holds,
    holds of every value. -/
@[elab_as_elim]
theorem values {P : Json → Prop} (scalars : ∀ v : Json, v.scalar = true → P v)
    (lists : ∀ xs : List Json, (∀ x ∈ xs, P x) → P (list xs))
    (dicts : ∀ fs : Fields, (∀ f ∈ fs, P f.2) → P (dict fs)) (v : Json) : P v :=
  @Json.rec P (fun xs => ∀ x ∈ xs, P x) (fun fs => ∀ f ∈ fs, P f.2) (fun f => P f.2)
    (scalars _ rfl) (fun _ => scalars _ rfl) (fun _ => scalars _ rfl) (fun _ => scalars _ rfl)
    (fun _ => scalars _ rfl) lists dicts
    (by simp) (fun _ _ hx hxs => List.forall_mem_cons.mpr ⟨hx, hxs⟩)
    (by simp) (fun _ _ hf hfs => List.forall_mem_cons.mpr ⟨hf, hfs⟩)
    (fun _ _ hv => hv) v

-- ============================================================================
-- Values without repeated keys
-- ============================================================================

mutual

/-- No object in the value has a key twice: what parsing a text gives. -/
def distinctKeys : Json → Bool
  | list xs => distinctKeysList xs
  | dict fs => decide (fs.map Prod.fst).Nodup && distinctKeysFields fs
  | _ => true

/-- No object in the items has a key twice. -/
def distinctKeysList : List Json → Bool
  | [] => true
  | x :: xs => distinctKeys x && distinctKeysList xs

/-- No object in the fields has a key twice. -/
def distinctKeysFields : List (String × Json) → Bool
  | [] => true
  | (_, v) :: fs => distinctKeys v && distinctKeysFields fs

end

theorem distinctKeys_list {xs : List Json} :
    (list xs).distinctKeys = true ↔ ∀ x ∈ xs, x.distinctKeys = true := by
  rw [distinctKeys]
  induction xs with
  | nil => simp [distinctKeysList]
  | cons x xs ih => simp [distinctKeysList, ih]

theorem distinctKeysFields_iff {fs : List (String × Json)} :
    distinctKeysFields fs = true ↔ ∀ f ∈ fs, f.2.distinctKeys = true := by
  induction fs with
  | nil => simp [distinctKeysFields]
  | cons f fs ih => rw [distinctKeysFields, Bool.and_eq_true, ih, List.forall_mem_cons]

theorem distinctKeys_dict {fs : Fields} :
    (dict fs).distinctKeys = true ↔
      (fs.map Prod.fst).Nodup ∧ ∀ f ∈ fs, f.2.distinctKeys = true := by
  rw [distinctKeys, Bool.and_eq_true, decide_eq_true_eq, distinctKeysFields_iff]

-- ============================================================================
-- The two comparisons
-- ============================================================================

mutual

/-- The same JSON value: numbers by their value, objects in any order; a boolean
    is no number. -/
def same : Json → Json → Bool
  | null, null => true
  | bool a, bool b => a == b
  | str a, str b => a == b
  | int a, int b => a == b
  | int a, float b => decide (Float64.fin a = b)
  | float a, int b => decide (a = Float64.fin b)
  | float a, float b => decide (a = b)
  | list xs, list ys => sameList xs ys
  | dict fs, dict gs => sameFields fs gs && (gs.map Prod.fst).all fun k => (fs.lookup k).isSome
  | _, _ => false

/-- The items are the same, one by one. -/
def sameList : List Json → List Json → Bool
  | [], [] => true
  | x :: xs, y :: ys => same x y && sameList xs ys
  | _, _ => false

/-- Every item of the first object is in the second. -/
def sameFields : List (String × Json) → List (String × Json) → Bool
  | [], _ => true
  | (k, v) :: fs, gs =>
      (match gs.lookup k with
        | some v' => same v v'
        | none => false) && sameFields fs gs

end

end Json

namespace Dict

variable {α : Type}

theorem lookup_isSome_iff {d : Dict α} {k : String} :
    (d.lookup k).isSome = true ↔ k ∈ d.map Prod.fst := by
  rw [← Option.ne_none_iff_isSome, Ne, List.lookup_eq_none_iff]
  simp

/-- Of distinct keys each item is found under its key. -/
theorem mem_iff_lookup {d : Dict α} (h : (d.map Prod.fst).Nodup) {f : String × α} :
    f ∈ d ↔ d.lookup f.1 = some f.2 := by
  rw [← mem_items_iff, items_eq_self h]

/-- Under each key the two hold nothing, or values the relation holds of. -/
def Alike (R : α → α → Prop) (d e : Dict α) : Prop :=
  ∀ k, Option.Rel R (d.lookup k) (e.lookup k)

theorem Alike.symm {R : α → α → Prop} {d e : Dict α} (h : Alike R d e)
    (hsymm : ∀ f ∈ d, ∀ v, e.lookup f.1 = some v → R f.2 v → R v f.2)
    (hd : (d.map Prod.fst).Nodup) : Alike R e d := by
  intro k
  have hrel := h k
  cases hdk : d.lookup k with
  | none =>
      rw [hdk] at hrel
      cases hek : e.lookup k with
      | none => exact .none
      | some w =>
          rw [hek] at hrel
          cases hrel
  | some v =>
      rw [hdk] at hrel
      cases hek : e.lookup k with
      | none =>
          rw [hek] at hrel
          cases hrel
      | some w =>
          rw [hek] at hrel
          cases hrel with
          | some hR => exact .some (hsymm (k, v) ((mem_iff_lookup hd).mpr hdk) w hek hR)

end Dict

namespace Json

end Json

end Py
