/-
  ToolGateway.Python.Heap

  Objects that can be changed in place.  A value is a datum or a reference to an object;
  lists, dicts and instances are objects.  What a value reads as depends on the objects
  it reaches, its parts, and on nothing else.  `copy.deepcopy` makes a value that reads
  the same and shares no part with anything that was there.
-/

import Mathlib.Data.List.Basic
import ToolGateway.Python.Value

namespace Py

-- ============================================================================
-- Objects
-- ============================================================================

/-- A value: at hand, or an object on the heap. -/
inductive Val where
  /-- `None`, a number, a string: nothing to change in place -/
  | imm (v : Json)
  | ref (a : ℕ)

/-- An object. -/
inductive Obj where
  /-- a list -/
  | items (vs : List Val)
  /-- a dict, or an instance with its attributes -/
  | fields (fs : Dict Val)

namespace Val

/-- The value `k` places further on. -/
def shift (k : ℕ) : Val → Val
  | imm v => imm v
  | ref a => ref (a + k)

end Val

namespace Obj

/-- The values an object holds. -/
def vals : Obj → List Val
  | items vs => vs
  | fields fs => fs.map Prod.snd

/-- The object with its references moved by `k`. -/
def shift (k : ℕ) : Obj → Obj
  | items vs => items (vs.map (Val.shift k))
  | fields fs => fields (fs.map fun f => (f.1, f.2.shift k))

theorem mem_vals_shift {k : ℕ} {obj : Obj} {v : Val} (h : v ∈ (obj.shift k).vals) :
    ∃ v' ∈ obj.vals, v = v'.shift k := by
  cases obj with
  | items vs =>
      obtain ⟨v', hv', rfl⟩ := List.mem_map.mp h
      exact ⟨v', hv', rfl⟩
  | fields fs =>
      have hmem : v ∈ (fs.map fun f => (f.1, f.2.shift k)).map Prod.snd := h
      rw [List.map_map] at hmem
      obtain ⟨f, hf, rfl⟩ := List.mem_map.mp hmem
      exact ⟨f.2, List.mem_map_of_mem hf, rfl⟩

end Obj

/-- The objects there are; a reference is an index. -/
abbrev Heap := List Obj

namespace Heap

/-- What a value reads as, down to this depth: none where that does not suffice, or where
    an object is missing. -/
def read (h : Heap) : ℕ → Val → Option Json
  | _, .imm v => some v
  | 0, .ref _ => none
  | n + 1, .ref a =>
      match h[a]? with
      | none => none
      | some (.items vs) => (vs.mapM (h.read n)).map .list
      | some (.fields fs) => (fs.mapM fun f => (h.read n f.2).map (f.1, ·)).map .dict

/-- The value reads as this. -/
def ReadsAs (h : Heap) (v : Val) (j : Json) : Prop := ∃ n, h.read n v = some j

/-- The objects that a value reaches. -/
inductive Part (h : Heap) : Val → ℕ → Prop where
  | self {a : ℕ} : Part h (.ref a) a
  | inside {a b : ℕ} {obj : Obj} {v : Val} (hobj : h[a]? = some obj) (hv : v ∈ obj.vals)
      (hpart : Part h v b) : Part h (.ref a) b

/-- `copy.deepcopy(v)`, and the heap with the copy.  Every object is copied, so what is
    shared within `v` is shared within the copy; the copies of what `v` does not reach are
    garbage. -/
def deepcopy (h : Heap) (v : Val) : Val × Heap := (v.shift h.length, h ++ h.map (Obj.shift h.length))

/-- A new object. -/
def alloc (h : Heap) (obj : Obj) : Val × Heap := (.ref h.length, h ++ [obj])

/-- `getattr(v, k)` -/
def attr (h : Heap) (v : Val) (k : String) : Option Val :=
  match v with
  | .imm _ => none
  | .ref a =>
      match h[a]? with
      | some (.fields fs) => fs.lookup k
      | _ => none

-- ============================================================================
-- What a value depends on
-- ============================================================================

variable {h h' : Heap} {v : Val} {n m : ℕ} {j j' : Json}

/-- What a part reaches is a part. -/
theorem Part.trans {a b : ℕ} (ha : h.Part v a) (hb : h.Part (.ref a) b) : h.Part v b := by
  induction ha with
  | self => exact hb
  | inside hobj hw _ ih => exact .inside hobj hw (ih hb)

theorem mapM_congr {α β : Type} {f g : α → Option β} {l : List α} (hfg : ∀ a ∈ l, f a = g a) :
    l.mapM f = l.mapM g := by
  induction l with
  | nil => rfl
  | cons a l ih =>
      rw [List.mapM_cons, List.mapM_cons, hfg a List.mem_cons_self,
        ih fun b hb => hfg b (List.mem_cons_of_mem a hb)]

/-- A value reads the same in two heaps that have its parts in common. -/
theorem read_congr (hsame : ∀ a, h.Part v a → h'[a]? = h[a]?) : h'.read n v = h.read n v := by
  induction n generalizing v with
  | zero =>
      cases v with
      | imm j => rfl
      | ref a => rfl
  | succ n ih =>
      cases v with
      | imm j => rfl
      | ref a =>
          simp only [read, hsame a .self]
          cases hobj : h[a]? with
          | none => rfl
          | some obj =>
              have hinside : ∀ w ∈ obj.vals, h'.read n w = h.read n w := fun w hw =>
                ih fun b hb => hsame b (.inside hobj hw hb)
              cases obj with
              | items vs =>
                  exact congrArg (Option.map Json.list) (mapM_congr hinside)
              | fields fs =>
                  refine congrArg (Option.map Json.dict) (mapM_congr fun f hf => ?_)
                  rw [hinside f.2 (List.mem_map_of_mem hf)]

theorem ReadsAs.congr (hv : h.ReadsAs v j) (hsame : ∀ a, h.Part v a → h'[a]? = h[a]?) :
    h'.ReadsAs v j := by
  obtain ⟨n, hn⟩ := hv
  exact ⟨n, by rw [read_congr hsame, hn]⟩

/-- A value has the same parts in two heaps that have them in common. -/
theorem Part.congr {a : ℕ} (hpart : h'.Part v a) (hsame : ∀ b, h.Part v b → h'[b]? = h[b]?) :
    h.Part v a := by
  induction hpart with
  | self => exact .self
  | @inside a b obj w hobj hw _ ih =>
      have hobj' : h[a]? = some obj := by rw [← hsame a .self, hobj]
      exact .inside hobj' hw (ih fun b hb => hsame b (.inside hobj' hw hb))

theorem mapM_mono {α β : Type} {f g : α → Option β} {l : List α} {bs : List β}
    (hfg : ∀ a ∈ l, ∀ b, f a = some b → g a = some b) (hl : l.mapM f = some bs) :
    l.mapM g = some bs := by
  induction l generalizing bs with
  | nil => exact hl
  | cons a l ih =>
      rw [List.mapM_cons] at hl ⊢
      cases ha : f a with
      | none =>
          rw [ha] at hl
          cases hl
      | some b =>
          rw [ha] at hl
          cases hrest : l.mapM f with
          | none =>
              rw [hrest] at hl
              cases hl
          | some bs' =>
              rw [hrest] at hl
              cases hl
              rw [hfg a List.mem_cons_self b ha,
                ih (fun c hc => hfg c (List.mem_cons_of_mem a hc)) hrest]
              rfl

/-- What suffices at one depth suffices at any larger one. -/
theorem read_mono (hn : h.read n v = some j) (hle : n ≤ m) : h.read m v = some j := by
  induction n generalizing v m j with
  | zero =>
      cases v with
      | imm d =>
          rw [read] at hn ⊢
          exact hn
      | ref a => cases hn
  | succ n ih =>
      obtain ⟨m, rfl⟩ : ∃ k, m = k + 1 := ⟨m - 1, by omega⟩
      have hle' : n ≤ m := by omega
      cases v with
      | imm d =>
          rw [read] at hn ⊢
          exact hn
      | ref a =>
          simp only [read] at hn ⊢
          split at hn
          · cases hn
          · next vs _ =>
              obtain ⟨js, hjs, rfl⟩ := Option.map_eq_some_iff.mp hn
              rw [mapM_mono (fun w _ j hw => ih hw hle') hjs]
              rfl
          · next fs _ =>
              obtain ⟨gs, hgs, rfl⟩ := Option.map_eq_some_iff.mp hn
              have hmono : ∀ f ∈ fs, ∀ g, (h.read n f.2).map (f.1, ·) = some g →
                  (h.read m f.2).map (f.1, ·) = some g := by
                intro f _ g hg
                obtain ⟨j, hj, rfl⟩ := Option.map_eq_some_iff.mp hg
                rw [ih hj hle']
                rfl
              rw [mapM_mono hmono hgs]
              rfl

theorem ReadsAs.unique (hj : h.ReadsAs v j) (hj' : h.ReadsAs v j') : j = j' := by
  obtain ⟨n, hn⟩ := hj
  obtain ⟨m, hm⟩ := hj'
  have hn' := read_mono hn (Nat.le_max_left n m)
  have hm' := read_mono hm (Nat.le_max_right n m)
  rw [hn'] at hm'
  exact Option.some.inj hm'

theorem forall₂_of_mapM {α β : Type} {f : α → Option β} {l : List α} {bs : List β}
    (hl : l.mapM f = some bs) : List.Forall₂ (fun a b => f a = some b) l bs := by
  induction l generalizing bs with
  | nil =>
      cases hl
      exact .nil
  | cons a l ih =>
      rw [List.mapM_cons] at hl
      obtain ⟨b, hb, hrest⟩ := Option.bind_eq_some_iff.mp hl
      obtain ⟨bs', hbs, hall⟩ := Option.bind_eq_some_iff.mp hrest
      cases hall
      exact .cons hb (ih hbs)

/-- What reads as neither a list nor a dict is a datum. -/
theorem ReadsAs.eq_imm (hv : h.ReadsAs v j) (hlist : ∀ js, j ≠ .list js)
    (hdict : ∀ gs, j ≠ .dict gs) :
    v = .imm j := by
  obtain ⟨n, hn⟩ := hv
  cases v with
  | imm d =>
      rw [read] at hn
      rw [Option.some.inj hn]
  | ref a =>
      cases n with
      | zero => cases hn
      | succ n =>
          simp only [read] at hn
          split at hn
          · cases hn
          · obtain ⟨js, -, hjs⟩ := Option.map_eq_some_iff.mp hn
            exact absurd hjs.symm (hlist js)
          · obtain ⟨gs, -, hgs⟩ := Option.map_eq_some_iff.mp hn
            exact absurd hgs.symm (hdict gs)

theorem ReadsAs.eq_str {s : String} (hv : h.ReadsAs v (.str s)) : v = .imm (.str s) :=
  hv.eq_imm (fun _ heq => by cases heq) fun _ heq => by cases heq

theorem ReadsAs.eq_null (hv : h.ReadsAs v .null) : v = .imm .null :=
  hv.eq_imm (fun _ heq => by cases heq) fun _ heq => by cases heq

/-- What the attributes of an object read as. -/
def FieldsRead (h : Heap) : Dict Val → Dict Json → Prop :=
  List.Forall₂ fun f g => f.1 = g.1 ∧ h.ReadsAs f.2 g.2

theorem FieldsRead.cons {fs : Dict Val} {k : String} {gs : Dict Json}
    (hfs : FieldsRead h fs ((k, j) :: gs)) :
    ∃ v rest, fs = (k, v) :: rest ∧ h.ReadsAs v j ∧ FieldsRead h rest gs := by
  obtain ⟨⟨_, v⟩, rest, ⟨rfl, hv⟩, hrest, rfl⟩ := List.forall₂_cons_right_iff.mp hfs
  exact ⟨v, rest, rfl, hv, hrest⟩

theorem FieldsRead.nil {fs : Dict Val} (hfs : FieldsRead h fs []) : fs = [] :=
  List.forall₂_nil_right_iff.mp hfs

/-- An object that reads as a dict has these keys, and values that read so. -/
theorem ReadsAs.fields {a : ℕ} {gs : Dict Json} (hv : h.ReadsAs (.ref a) (.dict gs)) :
    ∃ fs, h[a]? = some (.fields fs) ∧ FieldsRead h fs gs := by
  obtain ⟨n, hn⟩ := hv
  cases n with
  | zero => cases hn
  | succ n =>
      simp only [read] at hn
      split at hn
      · cases hn
      · obtain ⟨js, -, hjs⟩ := Option.map_eq_some_iff.mp hn
        cases hjs
      · next fs hobj =>
          obtain ⟨gs', hgs, heq⟩ := Option.map_eq_some_iff.mp hn
          cases heq
          refine ⟨fs, hobj, (forall₂_of_mapM hgs).imp fun f g hfg => ?_⟩
          obtain ⟨j, hj, rfl⟩ := Option.map_eq_some_iff.mp hfg
          exact ⟨rfl, n, hj⟩

-- ============================================================================
-- A heap that grows
-- ============================================================================

/-- Every reference in the value leads to an object. -/
def Whole (h : Heap) (v : Val) : Prop := ∀ a, h.Part v a → a < h.length

theorem whole_imm (h : Heap) (j : Json) : h.Whole (.imm j) := by
  intro a ha
  cases ha

/-- Where no object holds a dangling reference, none is reached. -/
theorem whole_of_closed (hclosed : ∀ obj ∈ h, ∀ w ∈ obj.vals, ∀ a, w = .ref a → a < h.length)
    (hv : ∀ a, v = .ref a → a < h.length) : h.Whole v := by
  intro a ha
  induction ha with
  | @self a => exact hv a rfl
  | inside hobj hw _ ih => exact ih (hclosed _ (List.mem_of_getElem? hobj) _ hw)

theorem Whole.same (hv : h.Whole v) (more : List Obj) (a : ℕ) (ha : h.Part v a) :
    (h ++ more)[a]? = h[a]? := List.getElem?_append_left (hv a ha)

theorem ReadsAs.grow (hj : h.ReadsAs v j) (hv : h.Whole v) (more : List Obj) :
    ReadsAs (h ++ more) v j := hj.congr (hv.same more)

theorem Part.of_grown {more : List Obj} {a : ℕ} (ha : Part (h ++ more) v a) (hv : h.Whole v) :
    h.Part v a := ha.congr (hv.same more)

theorem Whole.grow (hv : h.Whole v) (more : List Obj) : Whole (h ++ more) v := by
  intro a ha
  have hlt := hv a (ha.of_grown hv)
  rw [List.length_append]
  omega

/-- A new object reaches itself and what it holds reaches. -/
theorem Part.of_alloc {obj : Obj} {a : ℕ} (ha : (h.alloc obj).2.Part (h.alloc obj).1 a)
    (hvals : ∀ w ∈ obj.vals, h.Whole w) : a = h.length ∨ ∃ w ∈ obj.vals, h.Part w a := by
  have hnew : (h ++ [obj])[h.length]? = some obj := by simp
  cases ha with
  | self => exact Or.inl rfl
  | inside hobj hw hpart =>
      have heq : obj = _ := Option.some.inj (hnew.symm.trans hobj)
      rw [← heq] at hw
      exact Or.inr ⟨_, hw, hpart.of_grown (hvals _ hw)⟩

theorem whole_alloc {obj : Obj} (hvals : ∀ w ∈ obj.vals, h.Whole w) :
    (h.alloc obj).2.Whole (h.alloc obj).1 := by
  intro a ha
  show a < (h ++ [obj]).length
  rw [List.length_append, List.length_singleton]
  obtain rfl | ⟨w, hw, hpart⟩ := ha.of_alloc hvals
  · omega
  · have := hvals w hw a hpart
    omega

-- ============================================================================
-- A deep copy
-- ============================================================================

theorem getElem?_copy (h : Heap) (a : ℕ) :
    (h ++ h.map (Obj.shift h.length))[a + h.length]? = (h[a]?).map (Obj.shift h.length) := by
  rw [List.getElem?_append_right (by omega), Nat.add_sub_cancel, List.getElem?_map]

/-- The copy reads like the original, at every depth. -/
theorem read_copy (h : Heap) (v : Val) (n : ℕ) :
    (h.deepcopy v).2.read n (h.deepcopy v).1 = h.read n v := by
  show Heap.read (h ++ h.map (Obj.shift h.length)) n (v.shift h.length) = h.read n v
  induction n generalizing v with
  | zero =>
      cases v with
      | imm j => rfl
      | ref a => rfl
  | succ n ih =>
      cases v with
      | imm j => rfl
      | ref a =>
          show Heap.read _ (n + 1) (.ref (a + h.length)) = _
          simp only [read, getElem?_copy]
          cases h[a]? with
          | none => rfl
          | some obj =>
              cases obj with
              | items vs =>
                  refine congrArg (Option.map Json.list) ?_
                  rw [List.mapM_map]
                  exact mapM_congr fun w _ => ih w
              | fields fs =>
                  refine congrArg (Option.map Json.dict) ?_
                  rw [List.mapM_map]
                  refine mapM_congr fun f _ => ?_
                  show (Heap.read _ n (f.2.shift h.length)).map _ = _
                  rw [ih f.2]

/-- The copy is made of new objects only. -/
theorem Part.of_copy {a : ℕ} (ha : (h.deepcopy v).2.Part (h.deepcopy v).1 a) :
    ∃ b, a = b + h.length ∧ h.Part v b := by
  have hcopy : ∀ {w : Val} {c : ℕ}, Part (h ++ h.map (Obj.shift h.length)) w c →
      ∀ u : Val, w = u.shift h.length → ∃ b, c = b + h.length ∧ h.Part u b := by
    intro w c hpart
    induction hpart with
    | @self c =>
        intro u hu
        cases u with
        | imm j => cases hu
        | ref b =>
            cases hu
            exact ⟨b, rfl, .self⟩
    | @inside c d obj w hobj hw _ ih =>
        intro u hu
        cases u with
        | imm j => cases hu
        | ref b =>
            cases hu
            rw [getElem?_copy] at hobj
            obtain ⟨obj', hobj', rfl⟩ := Option.map_eq_some_iff.mp hobj
            obtain ⟨u', hu', rfl⟩ := Obj.mem_vals_shift hw
            obtain ⟨b', hb', hpart'⟩ := ih u' rfl
            exact ⟨b', hb', .inside hobj' hu' hpart'⟩
  exact hcopy ha v rfl

theorem length_copy (h : Heap) (v : Val) : (h.deepcopy v).2.length = h.length + h.length := by
  show (h ++ h.map (Obj.shift h.length)).length = _
  rw [List.length_append, List.length_map]

theorem whole_copy (hv : h.Whole v) : (h.deepcopy v).2.Whole (h.deepcopy v).1 := by
  intro a ha
  obtain ⟨b, rfl, hb⟩ := ha.of_copy
  have := hv b hb
  rw [length_copy]
  omega

theorem readsAs_copy_iff : (h.deepcopy v).2.ReadsAs (h.deepcopy v).1 j ↔ h.ReadsAs v j := by
  constructor
  · rintro ⟨n, hn⟩
    rw [read_copy] at hn
    exact ⟨n, hn⟩
  · rintro ⟨n, hn⟩
    exact ⟨n, by rw [read_copy, hn]⟩

-- ============================================================================
-- A change in place
-- ============================================================================

/-- What does not reach the changed object is the same. -/
theorem same_set {a : ℕ} {obj : Obj} (hv : ¬h.Part v a) (b : ℕ) (hb : h.Part v b) :
    (h.set a obj)[b]? = h[b]? := by
  refine List.getElem?_set_ne ?_
  rintro rfl
  exact hv hb

/-- After a change a value reaches what it reached, or what the changed object holds. -/
theorem Part.of_set {a b : ℕ} {obj : Obj} (hb : Part (h.set a obj) v b) :
    h.Part v b ∨ ∃ w ∈ obj.vals, h.Part w b := by
  induction hb with
  | self => exact Or.inl .self
  | @inside c d obj' w hobj hw _ ih =>
      by_cases hc : c = a
      · subst hc
        have hlt : c < h.length := by
          have hsome := (List.getElem?_eq_some_iff.mp hobj).1
          rwa [List.length_set] at hsome
        rw [List.getElem?_set_self hlt] at hobj
        cases hobj
        obtain hpart | hpart := ih
        · exact Or.inr ⟨w, hw, hpart⟩
        · exact Or.inr hpart
      · rw [List.getElem?_set_ne (Ne.symm hc)] at hobj
        exact ih.imp (.inside hobj hw) id

end Heap

end Py
