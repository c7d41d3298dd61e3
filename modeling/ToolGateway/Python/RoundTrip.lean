/-
  ToolGateway.Python.RoundTrip

  What `json.dumps` prints `json.loads` reads back, on one line or indented.  Each
  part of a text is read up to where it ends, whatever stands behind it; behind a
  number there must be nothing that goes on with it (`Delimited`).

  Not every value is read back (`Loadable`): an object with a key twice loses the
  first, an `int` of more than 4300 digits is refused, and of a float the law is
  the interpreter's own, `float(repr(x)) == x`.
-/

import ToolGateway.Python.Loads

namespace Py

variable {rest : List Char}

-- ============================================================================
-- Strings
-- ============================================================================

theorem hexVal?_digitChar {n : ℕ} (h : n < 16) : hexVal? (Nat.digitChar n) = some n := by
  have hall : ∀ n < 16, hexVal? (Nat.digitChar n) = some n := by decide
  exact hall n h

/-- Four hexadecimal digits are read back. -/
theorem scanHex4_hexDigits {n : ℕ} (h : n < 0x10000) :
    scanHex4 (hexDigits 4 n ++ rest) = .ok (n, rest) := by
  have hdigit : ∀ m : ℕ, hexVal? (Nat.digitChar (m % 16)) = some (m % 16) :=
    fun m => hexVal?_digitChar (Nat.mod_lt m (by norm_num))
  simp only [hexDigits, List.nil_append, List.cons_append, scanHex4, hdigit]
  congr 2
  omega

/-- The codes of surrogates are those of no character. -/
theorem not_surrogate (c : Char) : ¬ (0xd800 ≤ c.toNat ∧ c.toNat < 0xe000) := by
  have hvalid : c.toNat < 0xd800 ∨ 0xdfff < c.toNat ∧ c.toNat < 0x110000 := c.valid
  omega

theorem scanEscape_unicode {c : Char} (h : c.toNat < 0x10000) :
    scanEscape ('u' :: hexDigits 4 c.toNat ++ rest) = .ok (c, rest) := by
  have hnot := not_surrogate c
  have hhigh : ¬ (0xd800 ≤ c.toNat ∧ c.toNat < 0xdc00) := by omega
  have hlow : ¬ (0xdc00 ≤ c.toNat ∧ c.toNat < 0xe000) := by omega
  simp only [List.cons_append, scanEscape, scanHex4_hexDigits h, bind, Except.bind, hhigh, hlow,
    if_false, Char.ofNat_toNat]

theorem scanLowHalf_unicode {high low : ℕ} (hlow : 0xdc00 ≤ low ∧ low < 0xe000) :
    scanLowHalf high (unicodeEscape low ++ rest)
      = .ok (Char.ofNat (0x10000 + (high - 0xd800) * 0x400 + (low - 0xdc00)), rest) := by
  have hlt : low < 0x10000 := by omega
  simp only [unicodeEscape, List.cons_append, scanLowHalf, scanHex4_hexDigits hlt, bind,
    Except.bind, hlow, and_self, if_true]

/-- The two halves of a pair. -/
theorem scanEscape_pair {c : Char} (h : 0x10000 ≤ c.toNat) :
    scanEscape ('u' :: (hexDigits 4 (0xd800 + (c.toNat - 0x10000) / 0x400)
      ++ (unicodeEscape (0xdc00 + (c.toNat - 0x10000) % 0x400) ++ rest))) = .ok (c, rest) := by
  have hvalid : c.toNat < 0xd800 ∨ 0xdfff < c.toNat ∧ c.toNat < 0x110000 := c.valid
  obtain ⟨high, hhigh⟩ : ∃ high, high = 0xd800 + (c.toNat - 0x10000) / 0x400 := ⟨_, rfl⟩
  obtain ⟨low, hlow⟩ : ∃ low, low = 0xdc00 + (c.toNat - 0x10000) % 0x400 := ⟨_, rfl⟩
  have hrange : 0xd800 ≤ high ∧ high < 0xdc00 := by omega
  have hlt : high < 0x10000 := by omega
  have hcode : 0x10000 + (high - 0xd800) * 0x400 + (low - 0xdc00) = c.toNat := by omega
  rw [← hhigh, ← hlow]
  simp only [scanEscape, scanHex4_hexDigits hlt, bind, Except.bind, hrange, and_self, if_true]
  rw [scanLowHalf_unicode (by omega), hcode, Char.ofNat_toNat]

/-- A character that stands for itself. -/
theorem scanChar_plain {c : Char} (hquote : c ≠ '"') (hback : c ≠ '\\') (h : 0x20 ≤ c.toNat) :
    scanChar (c :: rest) = .ok (some c, rest) := by
  unfold scanChar
  split
  · next heq => cases heq
  · next heq => exact absurd (List.cons.inj heq).1 hquote
  · next heq => exact absurd (List.cons.inj heq).1 hback
  · next heq =>
      obtain ⟨rfl, rfl⟩ := List.cons.inj heq
      rw [if_neg (by omega)]

theorem scanChar_escape {c : Char} {cs : List Char} (h : scanEscape cs = .ok (c, rest)) :
    scanChar ('\\' :: cs) = .ok (some c, rest) := by
  simp only [scanChar, h, bind, Except.bind]

/-- A character of a printed string is read back, escape or not. -/
theorem scanChar_jsonChar (c : Char) : scanChar (jsonChar c ++ rest) = .ok (some c, rest) := by
  unfold jsonChar
  by_cases hquote : c = '"' ∨ c = '\\'
  · rcases hquote with rfl | rfl <;> rfl
  obtain ⟨hq, hb⟩ := not_or.mp hquote
  simp only [beq_iff_eq, hq, hb, Bool.or_eq_true, or_self, if_false]
  split_ifs with hn hr ht h8 h12 hplain hbasic
  · rw [hn]
    rfl
  · rw [hr]
    rfl
  · rw [ht]
    rfl
  · rw [← Char.ofNat_toNat c, h8]
    rfl
  · rw [← Char.ofNat_toNat c, h12]
    rfl
  · simp only [Bool.and_eq_true, decide_eq_true_eq] at hplain
    exact scanChar_plain hq hb hplain.1
  · exact scanChar_escape (scanEscape_unicode hbasic)
  · rw [List.append_assoc]
    exact scanChar_escape (scanEscape_pair (by omega))

theorem jsonChar_ne_nil (c : Char) : jsonChar c ≠ [] := by
  unfold jsonChar unicodeEscape
  dsimp only
  split_ifs <;> simp

theorem scanChars_flatMap (cs : List Char) {fuel : ℕ} (hfuel : cs.length < fuel) :
    scanChars fuel (cs.flatMap jsonChar ++ '"' :: rest) = .ok (cs, rest) := by
  induction cs generalizing fuel with
  | nil =>
      cases fuel with
      | zero => cases hfuel
      | succ fuel => rfl
  | cons c cs ih =>
      cases fuel with
      | zero => cases hfuel
      | succ fuel =>
          rw [List.flatMap_cons, List.append_assoc]
          simp only [scanChars, scanChar_jsonChar, bind, Except.bind,
            ih (Nat.lt_of_succ_lt_succ hfuel)]

theorem length_le_flatMap_jsonChar (cs : List Char) :
    cs.length ≤ (cs.flatMap jsonChar).length := by
  induction cs with
  | nil => exact le_rfl
  | cons c cs ih =>
      have hpos := List.length_pos_iff.mpr (jsonChar_ne_nil c)
      rw [List.flatMap_cons, List.length_append, List.length_cons]
      omega

/-- A printed string is read back. -/
theorem scanString_jsonString (s : String) :
    scanString (s.toList.flatMap jsonChar ++ '"' :: rest) = .ok (s, rest) := by
  have hlen := length_le_flatMap_jsonChar s.toList
  have hfuel : s.toList.length < (s.toList.flatMap jsonChar ++ '"' :: rest).length + 1 := by
    rw [List.length_append]
    omega
  simp only [scanString, scanChars_flatMap s.toList hfuel, bind, Except.bind, String.ofList_toList]

-- ============================================================================
-- Numbers
-- ============================================================================

/-- A run of digits, and no more than it, is taken off the front. -/
theorem span_digits {ds : List Char} (hds : ∀ c ∈ ds, c.isDigit = true)
    (hrest : ∀ c ∈ rest.head?, c.isDigit = false) :
    (ds ++ rest).span Char.isDigit = (ds, rest) := by
  rw [List.span_eq_takeWhile_dropWhile, List.takeWhile_append_of_pos hds,
    List.dropWhile_append_of_pos hds]
  cases rest with
  | nil => simp
  | cons c cs =>
      have hc : c.isDigit = false := hrest c rfl
      simp [hc]

/-- What stands behind a number does not go on with it. -/
def Delimited (rest : List Char) : Prop :=
  ∀ c ∈ rest.head?, c.isDigit = false ∧ c ≠ '.' ∧ c ≠ 'e' ∧ c ≠ 'E'

/-- The parts of a JSON number. -/
structure NumberParts (sign whole fraction exponent : List Char) : Prop where
  sign : sign = [] ∨ sign = ['-']
  whole : whole = ['0'] ∨ (∀ c ∈ whole, c.isDigit = true) ∧ ∃ d ∈ whole.head?, d ≠ '0'
  fraction : fraction = [] ∨
    ∃ ds, ds ≠ [] ∧ (∀ c ∈ ds, c.isDigit = true) ∧ fraction = '.' :: ds
  exponent : exponent = [] ∨ ∃ c s ds, (c = 'e' ∨ c = 'E') ∧ (s = [] ∨ s = ['-'] ∨ s = ['+']) ∧
    ds ≠ [] ∧ (∀ c ∈ ds, c.isDigit = true) ∧ exponent = c :: (s ++ ds)

namespace NumberParts

variable {sign whole fraction exponent : List Char}

theorem whole_head (h : NumberParts sign whole fraction exponent) :
    ∃ d ds, whole = d :: ds ∧ d.isDigit = true := by
  rcases h.whole with rfl | ⟨hdigits, d, hd, -⟩
  · exact ⟨'0', [], rfl, rfl⟩
  · cases whole with
    | nil => cases hd
    | cons c ds => exact ⟨c, ds, rfl, hdigits c List.mem_cons_self⟩

theorem minusPart_append (h : NumberParts sign whole fraction exponent) :
    minusPart (sign ++ whole ++ rest) = (sign, whole ++ rest) := by
  rcases h.sign with rfl | rfl
  · obtain ⟨d, ds, rfl, hd⟩ := h.whole_head
    have hne : d ≠ '-' := by
      rintro rfl
      cases hd
    simp only [List.nil_append, List.cons_append, minusPart]
    split
    · next heq => exact absurd (List.cons.inj heq).1 hne
    · rfl
  · rfl

theorem wholePart_append (h : NumberParts sign whole fraction exponent)
    (hrest : ∀ c ∈ rest.head?, c.isDigit = false) : wholePart (whole ++ rest) = (whole, rest) := by
  rcases h.whole with rfl | ⟨hdigits, d, hd, hzero⟩
  · rfl
  · cases whole with
    | nil => cases hd
    | cons c ds =>
        obtain rfl : c = d := Option.some.inj hd
        have hspan := span_digits hdigits hrest
        simp only [List.cons_append] at hspan ⊢
        unfold wholePart
        split
        · next heq => exact absurd (List.cons.inj heq).1 hzero
        · exact hspan

theorem fractionPart_append (h : NumberParts sign whole fraction exponent)
    (hrest : ∀ c ∈ rest.head?, c.isDigit = false ∧ c ≠ '.') :
    fractionPart (fraction ++ rest) = (fraction, rest) := by
  rcases h.fraction with rfl | ⟨ds, hne, hds, rfl⟩
  · unfold fractionPart
    split
    · next heq => exact absurd rfl (hrest '.' (by rw [← List.nil_append rest, heq]; rfl)).2
    · rfl
  · have hspan := span_digits hds fun c hc => (hrest c hc).1
    have hempty : ds.isEmpty = false := List.isEmpty_eq_false_iff.mpr hne
    simp only [List.cons_append, fractionPart, hspan, hempty]
    rfl

theorem exponentSuffix_append (h : NumberParts sign whole fraction exponent)
    (hrest : Delimited rest) : exponentSuffix (exponent ++ rest) = (exponent, rest) := by
  rcases h.exponent with rfl | ⟨c, s, ds, hc, hs, hne, hds, rfl⟩
  · cases rest with
    | nil => rfl
    | cons c cs =>
        obtain ⟨-, -, he, hE⟩ := hrest c rfl
        simp only [List.nil_append, exponentSuffix, he, hE, or_self, if_false]
  · have hspan := span_digits hds fun c hc => (hrest c hc).1
    have hempty : ds.isEmpty = false := List.isEmpty_eq_false_iff.mpr hne
    rcases hs with rfl | rfl | rfl
    · cases ds with
      | nil => exact absurd rfl hne
      | cons d ds =>
          have hd := hds d List.mem_cons_self
          have hminus : d ≠ '-' := by
            rintro rfl
            cases hd
          have hplus : d ≠ '+' := by
            rintro rfl
            cases hd
          simp only [List.cons_append, List.nil_append, exponentSuffix, hc, if_true] at hspan ⊢
          split
          · next heq => exact absurd (List.cons.inj heq).1 hminus
          · next heq => exact absurd (List.cons.inj heq).1 hplus
          · rw [hspan]
            rfl
    · simp only [List.cons_append, List.nil_append, exponentSuffix, hc, if_true, hspan, hempty]
      rfl
    · simp only [List.cons_append, List.nil_append, exponentSuffix, hc, if_true, hspan, hempty]
      rfl

/-- The number is read up to where it ends. -/
theorem scanNumber_append (h : NumberParts sign whole fraction exponent) (hrest : Delimited rest) :
    scanNumber (sign ++ whole ++ fraction ++ exponent ++ rest) =
      if fraction.isEmpty && exponent.isEmpty then
        if maxIntDigits < whole.length then .error .valueError
        else .ok (.int (if sign.isEmpty then digitsToNat whole else -(digitsToNat whole : ℤ)), rest)
      else
        match floatOfStr (String.ofList (sign ++ whole ++ fraction ++ exponent)) with
        | .ok f => .ok (.float f, rest)
        | .error _ => .error .valueError := by
  have hexponent : ∀ c ∈ (exponent ++ rest).head?, c.isDigit = false ∧ c ≠ '.' := by
    rcases h.exponent with rfl | ⟨c, s, ds, hc, -, -, -, rfl⟩
    · exact fun c hc => ⟨(hrest c hc).1, (hrest c hc).2.1⟩
    · intro c' hc'
      obtain rfl : c = c' := Option.some.inj hc'
      rcases hc with rfl | rfl <;> decide
  have hfraction : ∀ c ∈ (fraction ++ (exponent ++ rest)).head?, c.isDigit = false := by
    rcases h.fraction with rfl | ⟨ds, -, -, rfl⟩
    · exact fun c hc => (hexponent c hc).1
    · intro c hc
      obtain rfl : '.' = c := Option.some.inj hc
      rfl
  have hempty : whole.isEmpty = false := by
    obtain ⟨d, ds, rfl, -⟩ := h.whole_head
    rfl
  have hminus : minusPart (sign ++ whole ++ fraction ++ exponent ++ rest)
      = (sign, whole ++ (fraction ++ (exponent ++ rest))) := by
    rw [List.append_assoc, List.append_assoc (sign ++ whole)]
    exact h.minusPart_append
  cases hfloat : floatOfStr (String.ofList (sign ++ whole ++ fraction ++ exponent)) <;>
    simp only [scanNumber, hminus, h.wholePart_append hfraction, h.fractionPart_append hexponent,
      h.exponentSuffix_append hrest, hempty, hfloat, Bool.false_eq_true, if_false]

end NumberParts

/-- The digits of a number that is not zero do not start with one. -/
theorem toDigits_head {n : ℕ} (h : 0 < n) :
    ∃ d ∈ (Nat.toDigits 10 n).head?, d ≠ '0' := by
  induction n using Nat.strongRecOn with
  | _ n ih =>
      rcases Nat.lt_or_ge n 10 with hlt | hge
      · rw [Nat.toDigits_of_lt_base hlt]
        refine ⟨_, rfl, ?_⟩
        have hall : ∀ m < 10, 0 < m → Nat.digitChar m ≠ '0' := by decide
        exact hall n hlt h
      · obtain ⟨d, hd, hne⟩ := ih (n / 10) (by omega) (by omega)
        rw [Nat.toDigits_of_base_le (by norm_num) hge]
        refine ⟨d, ?_, hne⟩
        rw [List.head?_append]
        exact hd ▸ rfl

theorem digitsToNat_toDigits (n : ℕ) : digitsToNat (Nat.toDigits 10 n) = n :=
  Nat.ofDigitChars_ten_toDigits

/-- The sign of an `int`'s text. -/
def intSign (n : ℤ) : List Char := if n < 0 then ['-'] else []

theorem toList_toString_int (n : ℤ) :
    (toString n).toList = intSign n ++ Nat.toDigits 10 n.natAbs := by
  cases n with
  | ofNat n =>
      show n.repr.toList = _
      rw [Nat.toList_repr]
      rfl
  | negSucc n =>
      show ("-" ++ (n + 1).repr).toList = _
      rw [String.toList_append, Nat.toList_repr, intSign, if_pos (Int.negSucc_lt_zero n)]
      rfl

/-- A number's text is no literal. -/
theorem scanLiteral?_number {sign ds : List Char} {d : Char} (hsign : sign = [] ∨ sign = ['-'])
    (hd : d.isDigit = true) : scanLiteral? (sign ++ d :: ds) = none := by
  have hne : ∀ c : Char, c.isDigit = false → c ≠ d := by
    rintro c hc rfl
    rw [hd] at hc
    cases hc
  have hn := hne 'n' rfl
  have ht := hne 't' rfl
  have hf := hne 'f' rfl
  have hN := hne 'N' rfl
  have hI := hne 'I' rfl
  have hminus := hne '-' rfl
  rcases hsign with rfl | rfl
  · simp [scanLiteral?, literals, hn, ht, hf, hN, hI, hminus]
  · simp [scanLiteral?, literals, hI]

theorem skipSpaces_lineBreak (level : Option ℕ) (cs : List Char) :
    skipSpaces (lineBreak level ++ cs) = skipSpaces cs := by
  cases level with
  | none => rfl
  | some depth =>
      have hall : ∀ c ∈ lineBreak (some depth), isJsonSpace c = true := by
        intro c hc
        rcases List.mem_cons.mp hc with rfl | hc
        · rfl
        · rw [List.eq_of_mem_replicate hc]
          rfl
      exact List.dropWhile_append_of_pos hall

theorem skipSpaces_cons {c : Char} {cs : List Char} (h : isJsonSpace c = false) :
    skipSpaces (c :: cs) = c :: cs := by
  simp [skipSpaces, h]

-- ============================================================================
-- What is read back
-- ============================================================================

/-- The printed form of a float is a number that is no `int`, and reads as the
    float; the ones that are not finite have words of their own. -/
def FloatReads [PrintTables] : Float64 → Prop
  | .fin q => ∃ sign whole fraction exponent, NumberParts sign whole fraction exponent ∧
      (fraction.isEmpty && exponent.isEmpty) = false ∧
      PrintTables.floatRepr (.fin q) = String.ofList (sign ++ whole ++ fraction ++ exponent) ∧
      floatOfStr (PrintTables.floatRepr (.fin q)) = .ok (.fin q)
  | _ => True

namespace Json

mutual

/-- The scalars in a value. -/
def leaves : Json → List Json
  | list xs => leavesList xs
  | dict fs => leavesFields fs
  | v => [v]

/-- The scalars of the items. -/
def leavesList : List Json → List Json
  | [] => []
  | x :: xs => leaves x ++ leavesList xs

/-- The scalars of the fields. -/
def leavesFields : List (String × Json) → List Json
  | [] => []
  | (_, v) :: fs => leaves v ++ leavesFields fs

end

theorem mem_leaves_list {xs : List Json} {v : Json} :
    v ∈ (list xs).leaves ↔ ∃ x ∈ xs, v ∈ x.leaves := by
  rw [leaves]
  induction xs with
  | nil => simp [leavesList]
  | cons x xs ih => simp [leavesList, ih]

theorem mem_leaves_dict {fs : Fields} {v : Json} :
    v ∈ (dict fs).leaves ↔ ∃ f ∈ fs, v ∈ f.2.leaves := by
  rw [leaves]
  induction fs with
  | nil => simp [leavesFields]
  | cons f fs ih => rw [leavesFields, List.mem_append, ih, List.exists_mem_cons_iff]

/-- Where a value starts there is no space, and no bracket that closes. -/
def Starts (cs : List Char) : Prop :=
  ∃ c tail, cs = c :: tail ∧ isJsonSpace c = false ∧ c ≠ ']' ∧ c ≠ '\x7d'

theorem Starts.append {cs : List Char} (h : Starts cs) (rest : List Char) :
    Starts (cs ++ rest) := by
  obtain ⟨c, tail, rfl, hc⟩ := h
  exact ⟨c, tail ++ rest, rfl, hc⟩

theorem Starts.skipSpaces {cs : List Char} (h : Starts cs) :
    skipSpaces (cs ++ rest) = cs ++ rest := by
  obtain ⟨c, tail, rfl, hspace, -⟩ := h
  exact skipSpaces_cons hspace

variable [PrintTables]

/-- A number that is read back. -/
def NumberReads : Json → Prop
  | int n => (Nat.toDigits 10 n.natAbs).length ≤ maxIntDigits
  | float f => FloatReads f
  | _ => True

/-- A value that is read back from its text. -/
structure Loadable (v : Json) : Prop where
  keys : v.distinctKeys = true
  numbers : ∀ x ∈ v.leaves, NumberReads x

theorem Loadable.of_mem_list {xs : List Json} (h : (list xs).Loadable) {x : Json} (hx : x ∈ xs) :
    x.Loadable :=
  ⟨distinctKeys_list.mp h.keys x hx, fun y hy => h.numbers y (mem_leaves_list.mpr ⟨x, hx, hy⟩)⟩

theorem Loadable.of_mem_dict {fs : Fields} (h : (dict fs).Loadable) {f : String × Json}
    (hf : f ∈ fs) : f.2.Loadable :=
  ⟨(distinctKeys_dict.mp h.keys).2 f hf,
    fun y hy => h.numbers y (mem_leaves_dict.mpr ⟨f, hf, hy⟩)⟩

theorem Loadable.list {xs : List Json} (h : ∀ x ∈ xs, x.Loadable) : (Json.list xs).Loadable where
  keys := distinctKeys_list.mpr fun x hx => (h x hx).keys
  numbers v hv := by
    obtain ⟨x, hx, hmem⟩ := mem_leaves_list.mp hv
    exact (h x hx).numbers v hmem

theorem Loadable.dict {fs : Fields} (hkeys : (fs.map Prod.fst).Nodup) (h : ∀ f ∈ fs, f.2.Loadable) :
    (Json.dict fs).Loadable where
  keys := distinctKeys_dict.mpr ⟨hkeys, fun f hf => (h f hf).keys⟩
  numbers v hv := by
    obtain ⟨f, hf, hmem⟩ := mem_leaves_dict.mp hv
    exact (h f hf).numbers v hmem

/-- Scalars other than numbers are always read back. -/
theorem Loadable.str (s : String) : (Json.str s).Loadable :=
  ⟨rfl, fun v hv => by rw [List.mem_singleton.mp hv]; trivial⟩

theorem Loadable.bool (b : Bool) : (Json.bool b).Loadable :=
  ⟨rfl, fun v hv => by rw [List.mem_singleton.mp hv]; trivial⟩

theorem Loadable.int {n : ℤ} (h : NumberReads (.int n)) : (Json.int n).Loadable :=
  ⟨rfl, fun v hv => by rw [List.mem_singleton.mp hv]; exact h⟩

theorem Loadable.null : Json.null.Loadable :=
  ⟨rfl, fun v hv => by rw [List.mem_singleton.mp hv]; trivial⟩

-- ============================================================================
-- Values
-- ============================================================================

/-- The value is read back at every depth, whatever stands behind it. -/
def ReadBack (v : Json) : Prop :=
  ∀ level, Starts (textAt level v) ∧
    ∀ fuel rest, Delimited rest → 2 * (textAt level v).length < fuel →
      scanValue fuel (textAt level v ++ rest) = .ok (v, rest)

omit [PrintTables] in
/-- A text that starts with neither quote nor bracket is a literal or a number. -/
theorem scanValue_word {fuel : ℕ} {c : Char} {cs : List Char} (hquote : c ≠ '"') (hlist : c ≠ '[')
    (hdict : c ≠ '\x7b') : scanValue (fuel + 1) (c :: cs) =
      match scanLiteral? (c :: cs) with
      | some r => .ok r
      | none => scanNumber (c :: cs) := by
  unfold scanValue
  split
  · next heq => exact absurd (List.cons.inj heq).1 hquote
  · next heq => exact absurd (List.cons.inj heq).1 hlist
  · next heq => exact absurd (List.cons.inj heq).1 hdict
  · rfl

omit [PrintTables] in
theorem scanLiteral?_word {w : String} {v : Json} (h : (w, v) ∈ literals) :
    scanLiteral? (w.toList ++ rest) = some (v, rest) := by
  simp only [literals, List.mem_cons, Prod.mk.injEq, List.not_mem_nil, or_false] at h
  rcases h with ⟨rfl, rfl⟩ | ⟨rfl, rfl⟩ | ⟨rfl, rfl⟩ | ⟨rfl, rfl⟩ | ⟨rfl, rfl⟩ | ⟨rfl, rfl⟩ <;>
    rfl

/-- A literal is read back. -/
theorem readBack_literal {v : Json} (w : String) (h : (w, v) ∈ literals)
    (htext : ∀ level, textAt level v = w.toList) : v.ReadBack := by
  have hhead : ∃ c tail, w.toList = c :: tail ∧ isJsonSpace c = false ∧ c ≠ ']' ∧ c ≠ '\x7d' ∧
      c ≠ '"' ∧ c ≠ '[' ∧ c ≠ '\x7b' := by
    simp only [literals, List.mem_cons, Prod.mk.injEq, List.not_mem_nil, or_false] at h
    rcases h with ⟨rfl, -⟩ | ⟨rfl, -⟩ | ⟨rfl, -⟩ | ⟨rfl, -⟩ | ⟨rfl, -⟩ | ⟨rfl, -⟩ <;>
      exact ⟨_, _, rfl, by decide⟩
  intro level
  obtain ⟨c, tail, hw, hspace, hlist, hdict, hquote, hopen, hbrace⟩ := hhead
  refine ⟨⟨c, tail, (htext level).trans hw, hspace, hlist, hdict⟩, fun fuel rest hrest hfuel => ?_⟩
  cases fuel with
  | zero => cases hfuel
  | succ fuel =>
      have hliteral : scanLiteral? (w.toList ++ rest) = some (v, rest) := scanLiteral?_word h
      rw [hw, List.cons_append] at hliteral
      rw [htext, hw, List.cons_append, scanValue_word hquote hopen hbrace, hliteral]

/-- A number is read back when its parts are. -/
theorem readBack_number {v : Json} {sign whole fraction exponent : List Char}
    (hparts : NumberParts sign whole fraction exponent)
    (htext : ∀ level, textAt level v = sign ++ whole ++ fraction ++ exponent)
    (hscan : ∀ rest, Delimited rest →
      scanNumber (sign ++ whole ++ fraction ++ exponent ++ rest) = .ok (v, rest)) :
    v.ReadBack := by
  obtain ⟨d, ds, hwhole, hd⟩ := hparts.whole_head
  have hhead : ∀ rest, ∃ c tail, sign ++ whole ++ fraction ++ exponent ++ rest = c :: tail ∧
      (c = '-' ∨ c.isDigit = true) ∧ scanLiteral? (c :: tail) = none := by
    intro rest
    have hliteral : scanLiteral? (sign ++ d :: (ds ++ fraction ++ exponent ++ rest)) = none :=
      scanLiteral?_number hparts.sign hd
    rcases hparts.sign with rfl | rfl
    · exact ⟨d, ds ++ fraction ++ exponent ++ rest, by rw [hwhole]; simp, Or.inr hd,
        by simpa using hliteral⟩
    · exact ⟨'-', d :: (ds ++ fraction ++ exponent ++ rest), by rw [hwhole]; simp, Or.inl rfl,
        by simpa using hliteral⟩
  have hplain : ∀ {c : Char}, c = '-' ∨ c.isDigit = true → isJsonSpace c = false ∧ c ≠ ']' ∧
      c ≠ '\x7d' ∧ c ≠ '"' ∧ c ≠ '[' ∧ c ≠ '\x7b' := by
    rintro c (rfl | hdigit)
    · decide
    · have hne : ∀ c' : Char, c'.isDigit = false → c ≠ c' := fun c' hc' heq => by
        rw [heq, hc'] at hdigit
        cases hdigit
      refine ⟨?_, hne _ rfl, hne _ rfl, hne _ rfl, hne _ rfl, hne _ rfl⟩
      simp [isJsonSpace, hne ' ' rfl, hne '\t' rfl, hne '\n' rfl, hne '\r' rfl]
  intro level
  refine ⟨?_, fun fuel rest hrest hfuel => ?_⟩
  · obtain ⟨c, tail, htail, hc, -⟩ := hhead []
    obtain ⟨hspace, hlist, hdict, -⟩ := hplain hc
    rw [List.append_nil] at htail
    exact ⟨c, tail, (htext level).trans htail, hspace, hlist, hdict⟩
  · cases fuel with
    | zero => cases hfuel
    | succ fuel =>
        obtain ⟨c, tail, htail, hc, hliteral⟩ := hhead rest
        obtain ⟨-, -, -, hquote, hopen, hbrace⟩ := hplain hc
        have hnumber := hscan rest hrest
        rw [htail] at hnumber
        rw [htext, htail, scanValue_word hquote hopen hbrace, hliteral]
        exact hnumber

theorem readBack_int {n : ℤ} (h : NumberReads (.int n)) : ReadBack (.int n) := by
  have hdigits : ∀ c ∈ Nat.toDigits 10 n.natAbs, c.isDigit = true :=
    fun c hc => Nat.isDigit_of_mem_toDigits (by norm_num) le_rfl hc
  have hparts : NumberParts (intSign n) (Nat.toDigits 10 n.natAbs) [] [] := by
    refine ⟨?_, ?_, Or.inl rfl, Or.inl rfl⟩
    · unfold intSign
      split
      · exact Or.inr rfl
      · exact Or.inl rfl
    · rcases Nat.eq_zero_or_pos n.natAbs with hzero | hpos
      · rw [hzero]
        exact Or.inl (Nat.toDigits_zero 10)
      · exact Or.inr ⟨hdigits, toDigits_head hpos⟩
  refine readBack_number hparts (fun level => ?_) fun rest hrest => ?_
  · rw [textAt, toList_toString_int, List.append_nil, List.append_nil]
  · have hlen : ¬ maxIntDigits < (Nat.toDigits 10 n.natAbs).length := not_lt.mpr h
    rw [hparts.scanNumber_append hrest]
    simp only [List.isEmpty_nil, Bool.and_self, if_true, if_neg hlen, digitsToNat_toDigits]
    unfold intSign
    split
    · simp only [List.isEmpty_cons, Bool.false_eq_true, if_false]
      congr 3
      omega
    · simp only [List.isEmpty_nil, if_true]
      congr 3
      omega

theorem readBack_float {f : Float64} (h : NumberReads (.float f)) : ReadBack (.float f) := by
  cases f with
  | nan => exact readBack_literal "NaN" (by simp [literals]) fun _ => rfl
  | inf neg =>
      cases neg with
      | true => exact readBack_literal "-Infinity" (by simp [literals]) fun _ => rfl
      | false => exact readBack_literal "Infinity" (by simp [literals]) fun _ => rfl
  | fin q =>
      obtain ⟨sign, whole, fraction, exponent, hparts, hfloat, hrepr, hback⟩ := h
      refine readBack_number hparts (fun level => ?_) fun rest hrest => ?_
      · show (PrintTables.floatRepr (.fin q)).toList = _
        rw [hrepr, String.toList_ofList]
      · rw [hparts.scanNumber_append hrest, hfloat, ← hrepr, hback]
        rfl

theorem readBack_str (s : String) : ReadBack (.str s) := by
  intro level
  refine ⟨⟨'"', _, rfl, by decide⟩, fun fuel rest _ hfuel => ?_⟩
  cases fuel with
  | zero => cases hfuel
  | succ fuel =>
      have htext : textAt level (.str s) ++ rest
          = '"' :: (s.toList.flatMap jsonChar ++ '"' :: rest) := by
        simp [textAt, jsonString]
      rw [htext, scanValue, scanString_jsonString]
      rfl

theorem readBack_scalar {v : Json} (hscalar : v.scalar = true) (h : ∀ x ∈ v.leaves, NumberReads x) :
    v.ReadBack := by
  cases v with
  | null => exact readBack_literal "null" (by simp [literals]) fun _ => rfl
  | bool b =>
      cases b with
      | true => exact readBack_literal "true" (by simp [literals]) fun _ => rfl
      | false => exact readBack_literal "false" (by simp [literals]) fun _ => rfl
  | int n => exact readBack_int (h _ (List.mem_singleton_self _))
  | float f => exact readBack_float (h _ (List.mem_singleton_self _))
  | str s => exact readBack_str s
  | list xs => cases hscalar
  | dict fs => cases hscalar

-- ============================================================================
-- Containers
-- ============================================================================

variable {fuel : ℕ} {cs tail : List Char} {c : Char}

omit [PrintTables] in
theorem scanItems_last {x : Json} (hx : scanValue fuel cs = .ok (x, tail))
    (hclose : skipSpaces tail = ']' :: rest) : scanItems (fuel + 1) cs = .ok ([x], rest) := by
  simp only [scanItems, hx, bind, Except.bind, hclose]

omit [PrintTables] in
theorem scanItems_more {x : Json} {xs : List Json} {more : List Char}
    (hx : scanValue fuel cs = .ok (x, tail)) (hcomma : skipSpaces tail = ',' :: more)
    (hxs : scanItems fuel (skipSpaces more) = .ok (xs, rest)) :
    scanItems (fuel + 1) cs = .ok (x :: xs, rest) := by
  simp only [scanItems, hx, bind, Except.bind, hcomma, hxs]

omit [PrintTables] in
theorem scanValue_list {xs : List Json} (hstart : Starts cs) (hspaces : skipSpaces tail = cs)
    (hxs : scanItems fuel cs = .ok (xs, rest)) :
    scanValue (fuel + 1) ('[' :: tail) = .ok (.list xs, rest) := by
  obtain ⟨c, cs, rfl, -, hclose, -⟩ := hstart
  simp only [scanValue, hspaces]
  split
  · next heq => exact absurd (List.cons.inj heq).1 hclose
  · rw [hxs]
    rfl

omit [PrintTables] in
/-- The field of an object that is put into those before it, and what stands
    behind it. -/
theorem scanFields_step {k : String} {v : Json} {fs : Fields} {colon : List Char}
    (hk : scanString cs = .ok (k, ':' :: colon))
    (hv : scanValue fuel (skipSpaces colon) = .ok (v, tail)) :
    (∀ rest, skipSpaces tail = '\x7d' :: rest →
      scanFields (fuel + 1) fs ('"' :: cs) = .ok (Dict.set fs k v, rest)) ∧
    ∀ more, skipSpaces tail = ',' :: more → scanFields (fuel + 1) fs ('"' :: cs)
      = scanFields fuel (Dict.set fs k v) (skipSpaces more) := by
  constructor
  · intro rest hclose
    simp only [scanFields, hk, bind, Except.bind, skipSpaces_cons (c := ':') rfl, hv, hclose]
  · intro more hcomma
    simp only [scanFields, hk, bind, Except.bind, skipSpaces_cons (c := ':') rfl, hv, hcomma]

omit [PrintTables] in
theorem scanValue_dict {fs : Fields} (hstart : Starts cs) (hspaces : skipSpaces tail = cs)
    (hfs : scanFields fuel [] cs = .ok (fs, rest)) :
    scanValue (fuel + 1) ('\x7b' :: tail) = .ok (.dict fs, rest) := by
  obtain ⟨c, cs, rfl, -, -, hclose⟩ := hstart
  simp only [scanValue, hspaces]
  split
  · next heq => exact absurd (List.cons.inj heq).1 hclose
  · rw [hfs]
    rfl

omit [PrintTables] in
/-- What stands between two items is a comma and spaces. -/
theorem itemSeparator_eq (inner : Option ℕ) :
    ∃ gap, itemSeparator inner = ',' :: gap ∧ ∀ cs, skipSpaces (gap ++ cs) = skipSpaces cs := by
  cases inner with
  | none => exact ⟨[' '], rfl, fun _ => rfl⟩
  | some depth => exact ⟨_, rfl, skipSpaces_lineBreak (some depth)⟩

omit [PrintTables] in
/-- A closing bracket, or the break before it, ends a number. -/
theorem delimited_lineBreak {c : Char} (level : Option ℕ) (h : Delimited (c :: rest)) :
    Delimited (lineBreak level ++ c :: rest) := by
  cases level with
  | none => exact h
  | some depth =>
      intro c' hc'
      obtain rfl : '\n' = c' := Option.some.inj hc'
      decide

omit [PrintTables] in
theorem delimited_of {c : Char} (h : c.isDigit = false ∧ c ≠ '.' ∧ c ≠ 'e' ∧ c ≠ 'E') :
    Delimited (c :: rest) := by
  intro c' hc'
  obtain rfl : c = c' := Option.some.inj hc'
  exact h

omit [PrintTables] in
/-- A container that is not empty. -/
theorem enclose_cons (opening closing : Char) (level : Option ℕ) (item : List Char)
    (items : List (List Char)) : enclose opening closing level (item :: items) = opening ::
      (lineBreak (level.map (· + 1)) ++
        ((itemSeparator (level.map (· + 1))).intercalate (item :: items) ++
          (lineBreak level ++ [closing]))) := by
  simp [enclose]

omit [PrintTables] in
/-- Items start as the first of them does. -/
theorem starts_intercalate {item : List Char} (sep : List Char) (items : List (List Char))
    (h : Starts item) : Starts (sep.intercalate (item :: items)) := by
  obtain ⟨c, tail, rfl, hc⟩ := h
  cases items with
  | nil => exact ⟨c, tail, by simp, hc⟩
  | cons next items => exact ⟨c, tail ++ sep ++ sep.intercalate (next :: items), by simp, hc⟩

/-- The items of a list are read back. -/
theorem scanItems_itemsAt {inner level : Option ℕ} {x : Json} {xs : List Json} {fuel : ℕ}
    (hitems : ∀ y ∈ x :: xs, y.ReadBack)
    (hfuel : 2 * ((itemSeparator inner).intercalate (itemsAt inner (x :: xs))).length + 1 < fuel) :
    scanItems fuel ((itemSeparator inner).intercalate (itemsAt inner (x :: xs)) ++
      (lineBreak level ++ ']' :: rest)) = .ok (x :: xs, rest) := by
  obtain ⟨hx, hxs⟩ := List.forall_mem_cons.mp hitems
  induction xs generalizing x fuel with
  | nil =>
      cases fuel with
      | zero => cases hfuel
      | succ fuel =>
          simp only [itemsAt, List.intercalate_singleton] at hfuel ⊢
          refine scanItems_last ((hx inner).2 fuel _ ?_ (by omega)) ?_
          · exact delimited_lineBreak level (delimited_of (by decide))
          · rw [skipSpaces_lineBreak, skipSpaces_cons rfl]
  | cons y ys ih =>
      cases fuel with
      | zero => cases hfuel
      | succ fuel =>
          obtain ⟨hy, hys⟩ := List.forall_mem_cons.mp hxs
          obtain ⟨gap, hsep, hgap⟩ := itemSeparator_eq inner
          have hstart : Starts ((itemSeparator inner).intercalate (itemsAt inner (y :: ys))) :=
            starts_intercalate _ _ (hy inner).1
          simp only [itemsAt, List.intercalate_cons_cons, hsep, List.length_append,
            List.length_cons] at hfuel hstart ih ⊢
          rw [List.append_assoc, List.append_assoc, List.cons_append]
          refine scanItems_more ((hx inner).2 fuel _ (delimited_of (by decide)) (by omega))
            (skipSpaces_cons rfl) ?_
          rw [hgap, hstart.skipSpaces]
          exact ih hxs (by omega) hy hys

theorem readBack_list {xs : List Json} (h : ∀ x ∈ xs, x.ReadBack) : ReadBack (.list xs) := by
  intro level
  cases xs with
  | nil =>
      refine ⟨⟨'[', [']'], rfl, by decide⟩, fun fuel rest _ hfuel => ?_⟩
      cases fuel with
      | zero => cases hfuel
      | succ fuel => rfl
  | cons x xs =>
      have htext : textAt level (.list (x :: xs)) = _ :=
        enclose_cons '[' ']' level (textAt (level.map (· + 1)) x) (itemsAt (level.map (· + 1)) xs)
      refine ⟨⟨'[', _, htext, by decide⟩, fun fuel rest _ hfuel => ?_⟩
      cases fuel with
      | zero => cases hfuel
      | succ fuel =>
          have hstart := starts_intercalate (itemSeparator (level.map (· + 1)))
            (itemsAt (level.map (· + 1)) xs) (h x List.mem_cons_self (level.map (· + 1))).1
          have hclosing : textAt level (.list (x :: xs)) ++ rest = '[' ::
              (lineBreak (level.map (· + 1)) ++ ((itemSeparator (level.map (· + 1))).intercalate
                (itemsAt (level.map (· + 1)) (x :: xs)) ++ (lineBreak level ++ ']' :: rest))) := by
            rw [htext]
            simp [itemsAt]
          rw [htext] at hfuel
          simp only [List.length_cons, List.length_append] at hfuel
          rw [hclosing]
          refine scanValue_list (hstart.append (lineBreak level ++ ']' :: rest)) ?_
            (scanItems_itemsAt h (by rw [itemsAt]; omega))
          rw [skipSpaces_lineBreak]
          exact hstart.skipSpaces

/-- One field is read back, and put behind those before it. -/
theorem scanFields_field {inner : Option ℕ} {k : String} {v : Json} {acc : Fields}
    {behind : List Char} (hv : v.ReadBack) (hk : k ∉ acc.map Prod.fst) (hbehind : Delimited behind)
    (hfuel : 2 * (textAt inner v).length < fuel) :
    (∀ rest, skipSpaces behind = '\x7d' :: rest →
      scanFields (fuel + 1) acc (jsonString k ++ ':' :: ' ' :: textAt inner v ++ behind)
        = .ok (acc ++ [(k, v)], rest)) ∧
    ∀ more, skipSpaces behind = ',' :: more →
      scanFields (fuel + 1) acc (jsonString k ++ ':' :: ' ' :: textAt inner v ++ behind)
        = scanFields fuel (acc ++ [(k, v)]) (skipSpaces more) := by
  have htext : jsonString k ++ ':' :: ' ' :: textAt inner v ++ behind
      = '"' :: (k.toList.flatMap jsonChar ++ '"' :: ':' :: ' ' :: (textAt inner v ++ behind)) := by
    simp [jsonString]
  have hvalue : scanValue fuel (skipSpaces (' ' :: (textAt inner v ++ behind)))
      = .ok (v, behind) := by
    have hspace : skipSpaces (' ' :: (textAt inner v ++ behind)) = textAt inner v ++ behind :=
      (hv inner).1.skipSpaces
    rw [hspace]
    exact (hv inner).2 fuel behind hbehind hfuel
  have habsent : acc.lookup k = none := by
    by_contra hsome
    exact hk (Dict.lookup_isSome_iff.mp (Option.isSome_iff_ne_none.mpr hsome))
  rw [htext, ← Dict.set_absent habsent]
  exact scanFields_step (scanString_jsonString k) hvalue

/-- The items of an object are read back, behind those before them. -/
theorem scanFields_fieldsAt {inner level : Option ℕ} {k : String} {v : Json} {fs acc : Fields}
    {fuel : ℕ} (hitems : ∀ f ∈ (k, v) :: fs, f.2.ReadBack)
    (hkeys : ((acc ++ (k, v) :: fs).map Prod.fst).Nodup)
    (hfuel : 2 * ((itemSeparator inner).intercalate (fieldsAt inner ((k, v) :: fs))).length + 1
      < fuel) :
    scanFields fuel acc ((itemSeparator inner).intercalate (fieldsAt inner ((k, v) :: fs)) ++
      (lineBreak level ++ '\x7d' :: rest)) = .ok (acc ++ (k, v) :: fs, rest) := by
  have hk : k ∉ acc.map Prod.fst := by
    rw [List.map_append, List.map_cons] at hkeys
    exact fun hmem => (List.nodup_append.mp hkeys).2.2 k hmem k List.mem_cons_self rfl
  obtain ⟨(hv : v.ReadBack), hfs⟩ := List.forall_mem_cons.mp hitems
  induction fs generalizing acc k v fuel with
  | nil =>
      cases fuel with
      | zero => cases hfuel
      | succ fuel =>
          simp only [fieldsAt, List.intercalate_singleton, List.length_append, List.length_cons]
            at hfuel ⊢
          refine (scanFields_field hv hk ?_ (by omega)).1 rest ?_
          · exact delimited_lineBreak level (delimited_of (by decide))
          · rw [skipSpaces_lineBreak, skipSpaces_cons rfl]
  | cons f fs ih =>
      cases fuel with
      | zero => cases hfuel
      | succ fuel =>
          obtain ⟨k', v'⟩ := f
          obtain ⟨(hv' : v'.ReadBack), hfs'⟩ := List.forall_mem_cons.mp hfs
          obtain ⟨gap, hsep, hgap⟩ := itemSeparator_eq inner
          have hstart :
              Starts ((itemSeparator inner).intercalate (fieldsAt inner ((k', v') :: fs))) :=
            starts_intercalate _ _ ⟨'"', _, rfl, by decide⟩
          have hkeys' : ((acc ++ [(k, v)] ++ (k', v') :: fs).map Prod.fst).Nodup := by
            rw [List.append_assoc]
            exact hkeys
          have hk' : k' ∉ (acc ++ [(k, v)]).map Prod.fst := by
            rw [List.map_append, List.map_cons] at hkeys'
            exact fun hmem => (List.nodup_append.mp hkeys').2.2 k' hmem k' List.mem_cons_self rfl
          simp only [fieldsAt, List.intercalate_cons_cons, hsep, List.length_append,
            List.length_cons] at hfuel hstart ih ⊢
          rw [List.append_assoc, List.append_assoc _ (',' :: gap), List.cons_append]
          refine ((scanFields_field hv hk (delimited_of (by decide)) (by omega)).2 _
            (skipSpaces_cons rfl)).trans ?_
          rw [hgap, hstart.skipSpaces, ih hfs hkeys' (by omega) hk' hv' hfs', List.append_assoc]
          rfl

theorem readBack_dict {fs : Fields} (hkeys : (fs.map Prod.fst).Nodup)
    (h : ∀ f ∈ fs, f.2.ReadBack) : ReadBack (.dict fs) := by
  intro level
  cases fs with
  | nil =>
      refine ⟨⟨'\x7b', ['\x7d'], rfl, by decide⟩, fun fuel rest _ hfuel => ?_⟩
      cases fuel with
      | zero => cases hfuel
      | succ fuel => rfl
  | cons f fs =>
      obtain ⟨k, v⟩ := f
      have htext : textAt level (.dict ((k, v) :: fs)) = _ :=
        enclose_cons '\x7b' '\x7d' level
          (jsonString k ++ ':' :: ' ' :: textAt (level.map (· + 1)) v)
          (fieldsAt (level.map (· + 1)) fs)
      refine ⟨⟨'\x7b', _, htext, by decide⟩, fun fuel rest _ hfuel => ?_⟩
      cases fuel with
      | zero => cases hfuel
      | succ fuel =>
          have hstart : Starts ((itemSeparator (level.map (· + 1))).intercalate
              (fieldsAt (level.map (· + 1)) ((k, v) :: fs))) :=
            starts_intercalate _ _ ⟨'"', _, rfl, by decide⟩
          have hclosing : textAt level (.dict ((k, v) :: fs)) ++ rest = '\x7b' ::
              (lineBreak (level.map (· + 1)) ++ ((itemSeparator (level.map (· + 1))).intercalate
                (fieldsAt (level.map (· + 1)) ((k, v) :: fs)) ++
                  (lineBreak level ++ '\x7d' :: rest))) := by
            rw [htext]
            simp [fieldsAt]
          rw [htext] at hfuel
          simp only [List.length_cons, List.length_append] at hfuel
          have hscan : scanFields fuel [] ((itemSeparator (level.map (· + 1))).intercalate
              (fieldsAt (level.map (· + 1)) ((k, v) :: fs)) ++ (lineBreak level ++ '\x7d' :: rest))
                = .ok ((k, v) :: fs, rest) := scanFields_fieldsAt h hkeys
            (by rw [fieldsAt]; omega)
          rw [hclosing]
          refine scanValue_dict (hstart.append (lineBreak level ++ '\x7d' :: rest)) ?_ hscan
          rw [skipSpaces_lineBreak]
          exact hstart.skipSpaces

/-- Every loadable value is read back. -/
theorem Loadable.readBack {v : Json} (h : v.Loadable) : v.ReadBack := by
  induction v using values with
  | scalars v hscalar => exact readBack_scalar hscalar h.numbers
  | lists xs ih => exact readBack_list fun x hx => ih x hx (h.of_mem_list hx)
  | dicts fs ih =>
      exact readBack_dict (distinctKeys_dict.mp h.keys).1 fun f hf => ih f hf (h.of_mem_dict hf)

/-- `json.loads(json.dumps(v)) == v`, indented or not. -/
theorem Loadable.scanText {v : Json} (h : v.Loadable) (level : Option ℕ) :
    scanText (textAt level v) = .ok v := by
  obtain ⟨hstart, hscan⟩ := h.readBack level
  have hspaces : skipSpaces (textAt level v) = textAt level v := by
    have happend : skipSpaces (textAt level v ++ []) = textAt level v ++ [] := hstart.skipSpaces
    rwa [List.append_nil] at happend
  have hvalue := hscan (2 * (textAt level v).length + 1) [] (fun c hc => by cases hc) (by omega)
  rw [List.append_nil] at hvalue
  simp only [Py.scanText, hspaces, hvalue, bind, Except.bind]
  rfl

end Json

-- ============================================================================
-- Bytes
-- ============================================================================

/-- Text in ASCII, without the character of number zero. -/
def IsAscii (cs : List Char) : Prop := ∀ c ∈ cs, 0 < c.toNat ∧ c.toNat < 128

instance (cs : List Char) : Decidable (IsAscii cs) := List.decidableBAll _ cs

theorem utf8Encode_of_ascii {cs : List Char} (h : IsAscii cs) :
    cs.flatMap String.utf8EncodeChar = encodeAscii cs := by
  induction cs with
  | nil => rfl
  | cons c cs ih =>
      have hc : c.val.toNat ≤ 0x7f := Nat.le_of_lt_succ (h c List.mem_cons_self).2
      rw [List.flatMap_cons, ih fun c' hc' => h c' (List.mem_cons_of_mem c hc'),
        String.utf8EncodeChar]
      simp only [hc, if_true]
      rfl

/-- Its bytes are below 128 and not zero. -/
theorem byte_of_ascii {cs : List Char} (h : IsAscii cs) {b : UInt8} (hb : b ∈ encodeAscii cs) :
    b ≠ 0 ∧ b.toNat < 128 := by
  obtain ⟨c, hc, rfl⟩ := List.mem_map.mp hb
  obtain ⟨hpos, hlt⟩ := h c hc
  have hnat : (UInt8.ofNat c.toNat).toNat = c.toNat :=
    UInt8.toNat_ofNat_of_lt' (show c.toNat < 256 by omega)
  refine ⟨fun hzero => ?_, by omega⟩
  rw [hzero] at hnat
  have hnone : c.toNat = 0 := hnat.symm
  omega

/-- No mark and no zero byte: such bytes are taken for UTF-8. -/
theorem detectEncoding_of_low {raw : Bytes} (h : ∀ b ∈ raw, b ≠ 0 ∧ b.toNat < 128) :
    detectEncoding raw = .utf8 := by
  have hno : ∀ b : UInt8, 128 ≤ b.toNat → b ∉ raw := fun b hb hmem => by
    have hlt := (h b hmem).2
    omega
  unfold detectEncoding
  split
  · exact absurd (by simp) (hno 0xfe (by decide))
  · exact absurd (by simp) (hno 0xff (by decide))
  · exact absurd (by simp) (hno 0xfe (by decide))
  · exact absurd (by simp) (hno 0xff (by decide))
  · next a b c d _ _ _ _ _ =>
      rw [if_neg (h a (by simp)).1, if_neg (h b (by simp)).1]
  · next a b _ _ =>
      rw [if_neg (h a (by simp)).1, if_neg (h b (by simp)).1]
  · rfl

/-- An ASCII text is its own encoding. -/
theorem decode_encodeAscii {cs : List Char} (h : IsAscii cs) :
    decode (encodeAscii cs) (detectEncoding (encodeAscii cs)) = .ok cs ∧ dropMark cs = cs := by
  have hbytes : (⟨(encodeAscii cs).toArray⟩ : ByteArray) = (String.ofList cs).toByteArray := by
    rw [← utf8Encode_of_ascii h]
    exact ByteArray.ext List.data_toByteArray.symm
  have htext : String.fromUTF8? ⟨(encodeAscii cs).toArray⟩ = some (String.ofList cs) := by
    rw [hbytes]
    have hvalid := (String.ofList cs).isValidUTF8
    rw [String.fromUTF8?, dif_pos hvalid]
    exact congrArg some (String.toByteArray_inj.mp rfl)
  rw [detectEncoding_of_low fun b hb => byte_of_ascii h hb]
  refine ⟨?_, ?_⟩
  · rw [decode, decodeUtf8, htext]
    exact congrArg Except.ok String.toList_ofList
  · cases cs with
    | nil => rfl
    | cons c cs =>
        have hc := h c List.mem_cons_self
        rw [dropMark, if_neg (by omega)]

theorem isAscii_append {cs ds : List Char} : IsAscii (cs ++ ds) ↔ IsAscii cs ∧ IsAscii ds :=
  List.forall_mem_append

theorem isAscii_cons {c : Char} {cs : List Char} :
    IsAscii (c :: cs) ↔ (0 < c.toNat ∧ c.toNat < 128) ∧ IsAscii cs :=
  List.forall_mem_cons

theorem isAscii_hexDigits (width n : ℕ) : IsAscii (hexDigits width n) := by
  have hall : ∀ m < 16, 0 < (Nat.digitChar m).toNat ∧ (Nat.digitChar m).toNat < 128 := by decide
  induction width generalizing n with
  | zero => exact fun c hc => by cases hc
  | succ width ih =>
      refine isAscii_append.mpr ⟨ih (n / 16), fun c hc => ?_⟩
      rw [List.mem_singleton.mp hc]
      exact hall _ (Nat.mod_lt n (by norm_num))

theorem isAscii_unicodeEscape (n : ℕ) : IsAscii (unicodeEscape n) :=
  isAscii_cons.mpr ⟨by decide, isAscii_cons.mpr ⟨by decide, isAscii_hexDigits 4 n⟩⟩

theorem isAscii_jsonChar (c : Char) : IsAscii (jsonChar c) := by
  have hpair : ∀ c' : Char, 0 < c'.toNat ∧ c'.toNat < 128 → IsAscii ['\\', c'] := fun c' hc' =>
    isAscii_cons.mpr ⟨by decide, isAscii_cons.mpr ⟨hc', fun _ h => by cases h⟩⟩
  unfold jsonChar
  by_cases hquote : c = '"' ∨ c = '\\'
  · rcases hquote with rfl | rfl <;> exact hpair _ (by decide)
  obtain ⟨hq, hb⟩ := not_or.mp hquote
  simp only [beq_iff_eq, hq, hb, Bool.or_eq_true, or_self, if_false]
  split_ifs with hn hr ht h8 h12 hplain hbasic
  · exact hpair 'n' (by decide)
  · exact hpair 'r' (by decide)
  · exact hpair 't' (by decide)
  · exact hpair 'b' (by decide)
  · exact hpair 'f' (by decide)
  · simp only [Bool.and_eq_true, decide_eq_true_eq] at hplain
    exact isAscii_cons.mpr ⟨by omega, fun _ h => by cases h⟩
  · exact isAscii_unicodeEscape _
  · exact isAscii_append.mpr ⟨isAscii_unicodeEscape _, isAscii_unicodeEscape _⟩

theorem isAscii_jsonString (s : String) : IsAscii (jsonString s) := by
  refine isAscii_cons.mpr ⟨by decide, isAscii_append.mpr ⟨fun c hc => ?_, by decide⟩⟩
  obtain ⟨c', -, hc'⟩ := List.mem_flatMap.mp hc
  exact isAscii_jsonChar c' c hc'

theorem isAscii_digits {ds : List Char} (h : ∀ c ∈ ds, c.isDigit = true) : IsAscii ds := by
  intro c hc
  have hdigit := h c hc
  simp only [Char.isDigit, Bool.and_eq_true, decide_eq_true_eq] at hdigit
  have hge : 48 ≤ c.toNat := hdigit.1
  have hle : c.toNat ≤ 57 := hdigit.2
  omega

theorem NumberParts.isAscii {sign whole fraction exponent : List Char}
    (h : NumberParts sign whole fraction exponent) :
    IsAscii (sign ++ whole ++ fraction ++ exponent) := by
  refine isAscii_append.mpr ⟨isAscii_append.mpr ⟨isAscii_append.mpr ⟨?_, ?_⟩, ?_⟩, ?_⟩
  · rcases h.sign with rfl | rfl <;> decide
  · rcases h.whole with rfl | ⟨hdigits, -⟩
    · decide
    · exact isAscii_digits hdigits
  · rcases h.fraction with rfl | ⟨ds, -, hds, rfl⟩
    · decide
    · exact isAscii_cons.mpr ⟨by decide, isAscii_digits hds⟩
  · rcases h.exponent with rfl | ⟨c, s, ds, hc, hs, -, hds, rfl⟩
    · decide
    · refine isAscii_cons.mpr ⟨?_, isAscii_append.mpr ⟨?_, isAscii_digits hds⟩⟩
      · rcases hc with rfl | rfl <;> decide
      · rcases hs with rfl | rfl | rfl <;> decide

theorem isAscii_lineBreak (level : Option ℕ) : IsAscii (lineBreak level) := by
  cases level with
  | none => decide
  | some depth =>
      refine isAscii_cons.mpr ⟨by decide, fun c hc => ?_⟩
      rw [List.eq_of_mem_replicate hc]
      decide

theorem isAscii_enclose {opening closing : Char} {level : Option ℕ} {items : List (List Char)}
    (hopening : 0 < opening.toNat ∧ opening.toNat < 128)
    (hclosing : 0 < closing.toNat ∧ closing.toNat < 128)
    (h : ∀ item ∈ items, IsAscii item) : IsAscii (enclose opening closing level items) := by
  have hsep : IsAscii (itemSeparator (level.map (· + 1))) := by
    cases level with
    | none => decide
    | some depth => exact isAscii_cons.mpr ⟨by decide, isAscii_lineBreak (some (depth + 1))⟩
  have hitems : IsAscii ((itemSeparator (level.map (· + 1))).intercalate items) := by
    induction items with
    | nil => exact fun c hc => by cases hc
    | cons item items ih =>
        obtain ⟨hitem, hrest⟩ := List.forall_mem_cons.mp h
        cases items with
        | nil => simpa using hitem
        | cons next items =>
            rw [List.intercalate_cons_cons]
            exact isAscii_append.mpr ⟨isAscii_append.mpr ⟨hitem, hsep⟩, ih hrest⟩
  unfold enclose
  split
  · exact isAscii_cons.mpr ⟨hopening, isAscii_cons.mpr ⟨hclosing, fun c hc => by cases hc⟩⟩
  · exact isAscii_cons.mpr ⟨hopening, isAscii_append.mpr ⟨isAscii_append.mpr
      ⟨isAscii_append.mpr ⟨isAscii_lineBreak _, hitems⟩, isAscii_lineBreak level⟩,
      isAscii_cons.mpr ⟨hclosing, fun c hc => by cases hc⟩⟩⟩

namespace Json

variable [PrintTables]

theorem mem_itemsAt {level : Option ℕ} {xs : List Json} {item : List Char} :
    item ∈ itemsAt level xs ↔ ∃ x ∈ xs, item = textAt level x := by
  induction xs with
  | nil => simp [itemsAt]
  | cons x xs ih => simp [itemsAt, ih]

theorem mem_fieldsAt {level : Option ℕ} {fs : List (String × Json)} {item : List Char} :
    item ∈ fieldsAt level fs ↔
      ∃ f ∈ fs, item = jsonString f.1 ++ ':' :: ' ' :: textAt level f.2 := by
  induction fs with
  | nil => simp [fieldsAt]
  | cons f fs ih => rw [fieldsAt, List.mem_cons, ih, List.exists_mem_cons_iff]

/-- `json.dumps` prints ASCII. -/
theorem Loadable.isAscii {v : Json} (h : v.Loadable) : ∀ level, IsAscii (textAt level v) := by
  have hword : ∀ w ∈ literals.map Prod.fst, IsAscii w.toList := by decide
  induction v using values with
  | scalars v hscalar =>
      intro level
      cases v with
      | null => exact hword "null" (by decide)
      | bool b =>
          cases b with
          | true => exact hword "true" (by decide)
          | false => exact hword "false" (by decide)
      | int n =>
          have hdigits : ∀ c ∈ Nat.toDigits 10 n.natAbs, c.isDigit = true :=
            fun c hc => Nat.isDigit_of_mem_toDigits (by norm_num) le_rfl hc
          rw [textAt, toList_toString_int]
          refine isAscii_append.mpr ⟨?_, isAscii_digits hdigits⟩
          unfold intSign
          split <;> decide
      | float f =>
          have hf : NumberReads (.float f) := h.numbers _ (List.mem_singleton_self _)
          cases f with
          | nan => exact hword "NaN" (by decide)
          | inf neg =>
              cases neg with
              | true => exact hword "-Infinity" (by decide)
              | false => exact hword "Infinity" (by decide)
          | fin q =>
              obtain ⟨sign, whole, fraction, exponent, hparts, -, hrepr, -⟩ := hf
              show IsAscii (PrintTables.floatRepr (.fin q)).toList
              rw [hrepr, String.toList_ofList]
              exact hparts.isAscii
      | str s => exact isAscii_jsonString s
      | list xs => cases hscalar
      | dict fs => cases hscalar
  | lists xs ih =>
      intro level
      rw [textAt]
      refine isAscii_enclose (by decide) (by decide) fun item hitem => ?_
      obtain ⟨x, hx, rfl⟩ := mem_itemsAt.mp hitem
      exact ih x hx (h.of_mem_list hx) _
  | dicts fs ih =>
      intro level
      rw [textAt]
      refine isAscii_enclose (by decide) (by decide) fun item hitem => ?_
      obtain ⟨f, hf, rfl⟩ := mem_fieldsAt.mp hitem
      exact isAscii_append.mpr ⟨isAscii_jsonString f.1, isAscii_cons.mpr ⟨by decide,
        isAscii_cons.mpr ⟨by decide, ih f hf (h.of_mem_dict hf) _⟩⟩⟩

/-- `json.loads(json.dumps(v).encode()) == v` -/
theorem Loadable.loads_dumps {v : Json} (h : v.Loadable) :
    Py.loads (encodeAscii v.dumps.toList) = .ok v := by
  obtain ⟨hdecode, hmark⟩ := decode_encodeAscii (h.isAscii none)
  rw [Py.loads, dumps, String.toList_ofList, hdecode]
  simp only [hmark]
  exact h.scanText none

/-- `json.loads(json.dumps(v, indent=2).encode()) == v` -/
theorem Loadable.loads {v : Json} (h : v.Loadable) : loads v.dumpsIndented = .ok v := by
  obtain ⟨hdecode, hmark⟩ := decode_encodeAscii (h.isAscii (some 0))
  rw [Py.loads, dumpsIndented, hdecode]
  simp only [hmark]
  exact h.scanText (some 0)

end Json

end Py
