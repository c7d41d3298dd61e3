/-
  ToolGateway.Python.Value

  Python values as JSON carries them, with the operators a program applies to
  them untyped: truth value, `==`, `in`, `float()` and iteration.  An operator
  that can raise returns `Except PyError`, so that a caller's `except` clause
  is a match on the error.

  A `dict` is an association list in insertion order; where a key occurs twice
  the first entry counts (a parsed object has no such keys).  A `float` is the
  exact rational it stands for; only the sign of a zero and NaN payloads are
  not kept.
-/

import Mathlib.Data.Rat.Floor
import Mathlib.Data.Int.Log
import Mathlib.Algebra.Order.Ring.Rat
import Mathlib.Tactic.FieldSimp
import Mathlib.Tactic.GCongr
import Mathlib.Tactic.NormNum
import Mathlib.Tactic.Positivity

namespace Py

/-- Exceptions that are not the program's own: the interpreter's, the database's. -/
inductive PyError where
  | typeError
  | valueError
  | attributeError
  | keyError
  | overflowError
  | runtimeError
  /-- the database refuses a second row under one primary key -/
  | integrityError
deriving DecidableEq, Repr

-- ============================================================================
-- Numbers
-- ============================================================================

/-- A binary64 number. -/
inductive Float64 where
  | nan
  | inf (neg : Bool)
  | fin (q : ℚ)
deriving DecidableEq

/-- Round to the nearest integer, ties to even. -/
def roundHalfEven (q : ℚ) : ℤ :=
  let d := q - ⌊q⌋
  if d < 1 / 2 then ⌊q⌋
  else if 1 / 2 < d then ⌊q⌋ + 1
  else if ⌊q⌋ % 2 = 0 then ⌊q⌋ else ⌊q⌋ + 1

/-- Exponent of the last significand bit of the binary64 numbers around `q`
    (53-bit significands, subnormals from `2 ^ (-1074)`). -/
def ulpExponent (q : ℚ) : ℤ := max (Int.log 2 |q| - 52) (-1074)

/-- IEEE-754 nearest-even conversion to binary64; `none` past the largest
    finite number. -/
def roundBinary64 (q : ℚ) : Option ℚ :=
  if q = 0 then some 0
  else
    let u := ulpExponent q
    let r : ℚ := roundHalfEven (q / 2 ^ u) * 2 ^ u
    if |r| < 2 ^ 1024 then some r else none

theorem roundHalfEven_intCast (m : ℤ) : roundHalfEven (m : ℚ) = m := by
  simp [roundHalfEven]

/-- Below `2 ^ 53` an integer is a whole number of units in the last place. -/
theorem ulpExponent_intCast_nonpos {n : ℤ} (hn : |n| < 2 ^ 53) (h0 : n ≠ 0) :
    ∃ k : ℕ, ulpExponent (n : ℚ) = -(k : ℤ) := by
  have hpos : (0 : ℚ) < |(n : ℚ)| := by positivity
  have hlt : |(n : ℚ)| < (2 : ℚ) ^ (53 : ℤ) := by exact_mod_cast hn
  have hlog : Int.log 2 |(n : ℚ)| < 53 := (Int.lt_zpow_iff_log_lt (by norm_num) hpos).mp hlt
  have hle : ulpExponent (n : ℚ) ≤ 0 := by
    unfold ulpExponent
    omega
  exact ⟨(-ulpExponent (n : ℚ)).toNat, by omega⟩

/-- The conversion is exact on integers below `2 ^ 53`. -/
theorem roundBinary64_intCast {n : ℤ} (hn : |n| < 2 ^ 53) :
    roundBinary64 (n : ℚ) = some (n : ℚ) := by
  by_cases h0 : n = 0
  · simp [h0, roundBinary64]
  · obtain ⟨k, hk⟩ := ulpExponent_intCast_nonpos hn h0
    have hscaled : (n : ℚ) / 2 ^ ulpExponent (n : ℚ) = ((n * 2 ^ k : ℤ) : ℚ) := by
      rw [hk, zpow_neg, zpow_natCast, div_inv_eq_mul]
      push_cast
      rfl
    have hback : ((n * 2 ^ k : ℤ) : ℚ) * 2 ^ ulpExponent (n : ℚ) = n := by
      rw [hk, zpow_neg, zpow_natCast]
      push_cast
      field_simp
    have hrange : |(n : ℚ)| < 2 ^ 1024 := by
      have hsmall : |(n : ℚ)| < 2 ^ 53 := by exact_mod_cast hn
      calc |(n : ℚ)| < 2 ^ 53 := hsmall
        _ ≤ 2 ^ 1024 := by gcongr <;> norm_num
    have h0' : (n : ℚ) ≠ 0 := by exact_mod_cast h0
    simp only [roundBinary64, if_neg h0', hscaled, roundHalfEven_intCast, hback, if_pos hrange]

namespace Float64

/-- `a < b` on floats: false as soon as one side is a NaN. -/
def lt : Float64 → Float64 → Bool
  | nan, _ | _, nan => false
  | inf n, inf m => n && !m
  | inf n, fin _ => n
  | fin _, inf m => !m
  | fin p, fin q => p < q

/-- `a <= b` on floats. -/
def le : Float64 → Float64 → Bool
  | nan, _ | _, nan => false
  | inf n, inf m => n || !m
  | inf n, fin _ => n
  | fin _, inf m => !m
  | fin p, fin q => p ≤ q

/-- `a == b` on floats. -/
def eq : Float64 → Float64 → Bool
  | inf n, inf m => n == m
  | fin p, fin q => p == q
  | _, _ => false

end Float64

/-- `float(n)` of an `int`: raises OverflowError past the binary64 range. -/
def floatOfInt (n : ℤ) : Except PyError Float64 :=
  match roundBinary64 n with
  | some q => .ok (.fin q)
  | none => .error .overflowError

theorem floatOfInt_of_abs_lt {n : ℤ} (hn : |n| < 2 ^ 53) : floatOfInt n = .ok (.fin n) := by
  simp only [floatOfInt, roundBinary64_intCast hn]

-- ============================================================================
-- `float()` of a string
-- ============================================================================

/-- Code points of the zeros of the Unicode decimal digits (category Nd). -/
def digitZeros : List ℕ :=
  [0x30, 0x660, 0x6F0, 0x7C0, 0x966, 0x9E6, 0xA66, 0xAE6, 0xB66, 0xBE6, 0xC66, 0xCE6, 0xD66,
   0xDE6, 0xE50, 0xED0, 0xF20, 0x1040, 0x1090, 0x17E0, 0x1810, 0x1946, 0x19D0, 0x1A80, 0x1A90,
   0x1B50, 0x1BB0, 0x1C40, 0x1C50, 0xA620, 0xA8D0, 0xA900, 0xA9D0, 0xA9F0, 0xAA50, 0xABF0,
   0xFF10, 0x104A0, 0x10D30, 0x11066, 0x110F0, 0x11136, 0x111D0, 0x112F0, 0x11450, 0x114D0,
   0x11650, 0x116C0, 0x11730, 0x118E0, 0x11950, 0x11C50, 0x11D50, 0x11DA0, 0x11F50, 0x16A60,
   0x16AC0, 0x16B50, 0x1D7CE, 0x1D7D8, 0x1D7E2, 0x1D7EC, 0x1D7F6, 0x1E140, 0x1E2F0, 0x1E4F0,
   0x1E950, 0x1FBF0]

/-- Value of a decimal digit of any script. -/
def digitVal? (c : Char) : Option ℕ :=
  (digitZeros.find? fun z => z ≤ c.toNat && c.toNat < z + 10).map (c.toNat - ·)

/-- `str.isspace` of one character. -/
def isSpace (c : Char) : Bool :=
  let n := c.toNat
  (9 ≤ n && n ≤ 13) || (28 ≤ n && n ≤ 32) || n == 0x85 || n == 0xA0 || n == 0x1680
    || (0x2000 ≤ n && n ≤ 0x200A) || n == 0x2028 || n == 0x2029 || n == 0x202F
    || n == 0x205F || n == 0x3000

/-- What the float parser sees: an ASCII string as it is, any other string with the
    spaces and decimal digits beyond ASCII mapped into it.  What is neither becomes a
    question mark, which no number has. -/
def toAsciiNumber (cs : List Char) : List Char :=
  if cs.all (·.toNat < 128) then cs
  else cs.map fun c =>
    if c.toNat < 127 then c
    else if isSpace c then ' '
    else match digitVal? c with
      | some d => Char.ofNat (48 + d)
      | none => '?'

/-- ASCII white space, as C's `isspace`. -/
def isAsciiSpace (c : Char) : Bool := c == ' ' || (9 ≤ c.toNat && c.toNat ≤ 13)

/-- Without the spaces around it. -/
def strip (cs : List Char) : List Char :=
  ((cs.dropWhile isAsciiSpace).reverse.dropWhile isAsciiSpace).reverse

/-- Remove the underscores; `none` when one does not stand between two digits. -/
def dropUnderscores (prevDigit : Bool) : List Char → Option (List Char)
  | [] => some []
  | c :: cs =>
      if c == '_' then
        if prevDigit && (cs.head?.any Char.isDigit) then dropUnderscores false cs else none
      else (dropUnderscores c.isDigit cs).map (c :: ·)

/-- The number of decimal digits. -/
def digitsToNat (cs : List Char) : ℕ :=
  cs.foldl (fun n c => 10 * n + (c.toNat - 48)) 0

/-- An optional sign. -/
def signPart : List Char → Bool × List Char
  | '-' :: cs => (true, cs)
  | '+' :: cs => (false, cs)
  | cs => (false, cs)

/-- `[eE][+-]?digits`, or nothing: the exponent. -/
def exponentPart : List Char → Option ℤ
  | [] => some 0
  | c :: cs =>
      let (neg, ds) := signPart cs
      if (c == 'e' || c == 'E') && !ds.isEmpty && ds.all Char.isDigit then
        some (if neg then -(digitsToNat ds : ℤ) else digitsToNat ds)
      else none

/-- The value of `digits[.digits][exponent]`, with a digit on one side of the point. -/
def decimalValue (cs : List Char) : Option ℚ :=
  let (ip, rest) := cs.span Char.isDigit
  let (fp, rest) := match rest with
    | '.' :: r => r.span Char.isDigit
    | r => ([], r)
  if ip.isEmpty && fp.isEmpty then none
  else (exponentPart rest).map fun e : ℤ =>
    (digitsToNat (ip ++ fp) : ℚ) * (10 : ℚ) ^ (e - (fp.length : ℤ))

/-- `float(s)` of a `str`: ValueError when `s` is not a float literal; a literal
    past the range is an infinity. -/
def floatOfStr (s : String) : Except PyError Float64 :=
  match dropUnderscores false (strip (toAsciiNumber s.toList)) with
  | none => .error .valueError
  | some cs =>
      let (neg, body) := signPart cs
      let word := String.ofList (body.map Char.toLower)
      if word == "inf" || word == "infinity" then .ok (.inf neg)
      else if word == "nan" then .ok .nan
      else match decimalValue body with
        | none => .error .valueError
        | some q =>
            match roundBinary64 (if neg then -q else q) with
            | some r => .ok (.fin r)
            | none => .ok (.inf neg)

-- ============================================================================
-- Dicts
-- ============================================================================

/-- The items of a `dict` with string keys, in insertion order. -/
abbrev Dict (α : Type) := List (String × α)

namespace Dict

variable {α : Type}

/-- `list(d)` -/
def keys (d : Dict α) : List String := d.map Prod.fst

/-- `k in d`. -/
def has (d : Dict α) (k : String) : Bool := (d.lookup k).isSome

/-- `del d[k]`, or nothing when the key is absent. -/
def erase (d : Dict α) (k : String) : Dict α := d.filter (·.1 ≠ k)

/-- `d[k] = v`: in place, or appended when the key is new. -/
def set : Dict α → String → α → Dict α
  | [], k, v => [(k, v)]
  | (k', v') :: d, k, v => if k' = k then (k, v) :: d else (k', v') :: set d k v

/-- `d.items()`: one item for each key. -/
def items : Dict α → List (String × α)
  | [] => []
  | f :: d => f :: (items d).filter (·.1 ≠ f.1)

theorem lookup_erase_self (d : Dict α) (k : String) : (d.erase k).lookup k = none := by
  simp only [erase, List.lookup_eq_none_iff, List.mem_filter]
  rintro ⟨k', v⟩ ⟨-, hk⟩
  have hne : k' ≠ k := by simpa using hk
  simpa using hne.symm

theorem lookup_erase_of_ne (d : Dict α) {k k' : String} (h : k' ≠ k) :
    (d.erase k).lookup k' = d.lookup k' := by
  induction d with
  | nil => rfl
  | cons f fs ih =>
      unfold erase at ih ⊢
      by_cases hk : f.1 = k
      · have hne : (k' == f.1) = false := by simpa [hk] using h
        rw [List.filter_cons_of_neg (by simpa using hk), ih, List.lookup_cons, hne]
      · rw [List.filter_cons_of_pos (by simpa using hk), List.lookup_cons, List.lookup_cons, ih]

theorem lookup_set_self (d : Dict α) (k : String) (v : α) : (d.set k v).lookup k = some v := by
  induction d with
  | nil => simp [set]
  | cons f fs ih =>
      by_cases hk : f.1 = k
      · simp [set, hk]
      · have hne : (k == f.1) = false := by simpa using Ne.symm hk
        simp only [set, hk, if_false]
        rw [List.lookup_cons, hne]
        exact ih

theorem lookup_set_of_ne (d : Dict α) {k k' : String} (v : α) (h : k' ≠ k) :
    (d.set k v).lookup k' = d.lookup k' := by
  induction d with
  | nil =>
      have hne : (k' == k) = false := by simpa using h
      simp [set, List.lookup_cons, hne]
  | cons f fs ih =>
      by_cases hk : f.1 = k
      · have hne : (k' == k) = false := by simpa using h
        have hne' : (k' == f.1) = false := by rw [hk]; exact hne
        simp only [set, hk, if_true]
        rw [List.lookup_cons, List.lookup_cons, hne, hne']
      · simp only [set, hk, if_false]
        rw [List.lookup_cons, List.lookup_cons, ih]

theorem set_absent {d : Dict α} {k : String} {v : α} (h : d.lookup k = none) :
    d.set k v = d ++ [(k, v)] := by
  induction d with
  | nil => rfl
  | cons f d ih =>
      have hk : f.1 ≠ k := by
        rintro rfl
        rw [List.lookup_cons, beq_self_eq_true] at h
        cases h
      have hne : (k == f.1) = false := by simpa using Ne.symm hk
      rw [List.lookup_cons, hne] at h
      rw [set, if_neg hk, ih h, List.cons_append]

theorem lookup_set (d : Dict α) (k k' : String) (v : α) :
    (d.set k v).lookup k' = if k' = k then some v else d.lookup k' := by
  by_cases h : k' = k
  · rw [if_pos h, h, lookup_set_self]
  · rw [if_neg h, lookup_set_of_ne d v h]

theorem nodup_items (d : Dict α) : (d.items.map Prod.fst).Nodup := by
  induction d with
  | nil => exact List.nodup_nil
  | cons f d ih =>
      rw [items, List.map_cons, List.nodup_cons]
      refine ⟨?_, ih.sublist (List.filter_sublist.map Prod.fst)⟩
      intro hmem
      obtain ⟨e, he, hkey⟩ := List.mem_map.mp hmem
      have hne : e.1 ≠ f.1 := by simpa using (List.mem_filter.mp he).2
      exact hne hkey

theorem items_eq_self {d : Dict α} (h : (d.map Prod.fst).Nodup) : d.items = d := by
  induction d with
  | nil => rfl
  | cons f d ih =>
      rw [List.map_cons, List.nodup_cons] at h
      have hkeep : d.filter (fun e => e.1 ≠ f.1) = d := by
        rw [List.filter_eq_self]
        intro e he
        have hne : e.1 ≠ f.1 := fun heq => h.1 (heq ▸ List.mem_map_of_mem he)
        simpa using hne
      rw [items, ih h.2, hkeep]

theorem mem_items_iff (d : Dict α) (k : String) (v : α) :
    (k, v) ∈ d.items ↔ d.lookup k = some v := by
  induction d with
  | nil => simp [items]
  | cons f d ih =>
      obtain ⟨k', v'⟩ := f
      rw [items, List.mem_cons, List.mem_filter, ih, List.lookup_cons]
      by_cases hk : k = k'
      · simp [hk, eq_comm]
      · have hne : (k == k') = false := by simpa using hk
        simp [hk, hne]

theorem keys_items_cons (f : String × α) (d : Dict α) :
    (items (f :: d)).map Prod.fst = f.1 :: (d.items.map Prod.fst).filter (· ≠ f.1) := by
  rw [items, List.map_cons, List.filter_map]
  rfl

/-- Setting a known key keeps the order of the keys, a new one comes last. -/
theorem keys_items_set (d : Dict α) (k : String) (v : α) :
    (d.set k v).items.map Prod.fst
      = if d.has k then d.items.map Prod.fst else d.items.map Prod.fst ++ [k] := by
  induction d with
  | nil => rfl
  | cons f d ih =>
      by_cases hk : f.1 = k
      · have hhas : has (f :: d) k = true := by simp [has, hk]
        rw [hhas, if_pos rfl, keys_items_cons, set, if_pos hk, keys_items_cons, hk]
      · have hhas : has (f :: d) k = has d k := by
          have hne : (k == f.1) = false := by simpa using Ne.symm hk
          rw [has, List.lookup_cons, hne]
          rfl
        rw [hhas, keys_items_cons, set, if_neg hk, keys_items_cons, ih]
        split
        · rfl
        · have hkeep : [k].filter (· ≠ f.1) = [k] := by simpa using Ne.symm hk
          rw [List.filter_append, hkeep, List.cons_append]

end Dict

-- ============================================================================
-- JSON values
-- ============================================================================

/-- A value of the JSON data model, as `json.loads` builds it. -/
inductive Json where
  | null
  | bool (b : Bool)
  | int (n : ℤ)
  | float (f : Float64)
  | str (s : String)
  | list (xs : List Json)
  | dict (fields : List (String × Json))

/-- A JSON object. -/
abbrev Fields := Dict Json

/-- `d.get(k)`: `None` when the key is absent. -/
def Fields.get (d : Fields) (k : String) : Json := (d.lookup k).getD .null

namespace Json

/-- `bool(v)`. -/
def truthy : Json → Bool
  | null => false
  | bool b => b
  | int n => n != 0
  | float (.fin q) => q != 0
  | float _ => true
  | str s => s != ""
  | list xs => !xs.isEmpty
  | dict fs => !fs.isEmpty

/-- The exact numeric value: `bool` is a subclass of `int`. -/
def num? : Json → Option Float64
  | bool b => some (.fin (if b then 1 else 0))
  | int n => some (.fin n)
  | float f => some f
  | _ => none

mutual

/-- `a == b`.  A NaN, which is no JSON value, equals nothing here, also inside containers,
    where Python first asks whether the two are one object. -/
def eq : Json → Json → Bool
  | null, null => true
  | str a, str b => a == b
  | list xs, list ys => eqList xs ys
  | dict fs, dict gs => subFields fs gs && (gs.map Prod.fst).all fun k => (fs.lookup k).isSome
  | a, b =>
      match a.num?, b.num? with
      | some x, some y => x.eq y
      | _, _ => false

/-- The items are equal, one by one. -/
def eqList : List Json → List Json → Bool
  | [], [] => true
  | x :: xs, y :: ys => eq x y && eqList xs ys
  | _, _ => false

/-- Every item of the first dict is in the second. -/
def subFields : List (String × Json) → List (String × Json) → Bool
  | [], _ => true
  | (k, v) :: fs, gs =>
      (match gs.lookup k with
        | some v' => eq v v'
        | none => false) && subFields fs gs

end

/-- `hash(v)` succeeds. -/
def hashable : Json → Bool
  | list _ | dict _ => false
  | _ => true

/-- `float(v)`. -/
def toFloat : Json → Except PyError Float64
  | bool b => .ok (.fin (if b then 1 else 0))
  | int n => floatOfInt n
  | float f => .ok f
  | str s => floatOfStr s
  | null | list _ | dict _ => .error .typeError

/-- The elements `for x in v` runs over. -/
def iter : Json → Except PyError (List Json)
  | list xs => .ok xs
  | str s => .ok (s.toList.map fun c => str (String.ofList [c]))
  | dict fs => .ok (fs.map fun f => str f.1)
  | _ => .error .typeError

/-- `v or []` as an iterable: a falsy value counts as the empty list. -/
def iterOrEmpty (v : Json) : Except PyError (List Json) :=
  if v.truthy then v.iter else .ok []

/-- `v.get(k, default)`: only a `dict` has the attribute. -/
def getD (v : Json) (k : String) (default : Json) : Except PyError Json :=
  match v with
  | dict fs => .ok ((fs.lookup k).getD default)
  | _ => .error .attributeError

/-- `a in b`. -/
def isIn (a b : Json) : Except PyError Bool :=
  match b with
  | list xs => .ok (xs.any (eq a))
  | str s =>
      match a with
      | str t => .ok (decide (t.toList <:+: s.toList))
      | _ => .error .typeError
  | dict fs =>
      match a with
      | str k => .ok (Dict.has fs k)
      | _ => if a.hashable then .ok false else .error .typeError
  | _ => .error .typeError

end Json

end Py
