/-
  ToolGateway.Python.Escape

  Which texts survive quoting.  `repr` doubles backslashes, escapes the quote it uses
  and spells out whatever cannot be printed, so a text that is found in a string need
  not be found in the printed form of a container that holds it.  It is found there,
  wherever it stands, exactly if it is made of backslashes, at most one single quote,
  plain characters and backslashes, in this order.
-/

import ToolGateway.Python.Text

namespace Py

-- ============================================================================
-- Padding
-- ============================================================================

section
variable {α : Type}

/-- A list that does not begin with `c` and is found across `c ^ n` is found beside it. -/
theorem infix_replicate_append {v y : List α} {c : α} {n : ℕ}
    (hhead : v.head? ≠ some c) (h : v <:+: List.replicate n c ++ y) : v <:+: y := by
  induction n with
  | zero => simpa using h
  | succ n ih =>
      rw [List.replicate_succ, List.cons_append] at h
      rcases List.infix_cons_iff.mp h with hfront | hwithin
      · cases v with
        | nil => exact List.nil_infix
        | cons a rest =>
            have ha : a = c := (List.cons_prefix_cons.mp hfront).1
            subst ha
            exact absurd rfl hhead
      · exact ih hwithin

/-- A list that does not end with `c` and is found across `c ^ n` is found beside it. -/
theorem infix_append_replicate {v x : List α} {c : α} {n : ℕ}
    (hlast : v.getLast? ≠ some c) (h : v <:+: x ++ List.replicate n c) : v <:+: x := by
  have hreverse : v.reverse <:+: List.replicate n c ++ x.reverse := by
    rw [← List.reverse_replicate, ← List.reverse_append]
    exact List.reverse_infix.mpr h
  have hhead : v.reverse.head? ≠ some c := by
    rw [List.head?_reverse]
    exact hlast
  exact List.reverse_infix.mp (infix_replicate_append hhead hreverse)

/-- A list with neither end `c` does not reach across a run of `c` of its own length. -/
theorem infix_of_padded {v x y : List α} {c : α} {n : ℕ} (hn : v.length ≤ n)
    (hhead : v.head? ≠ some c) (hlast : v.getLast? ≠ some c)
    (h : v <:+: x ++ List.replicate n c ++ y) : v <:+: x ∨ v <:+: y := by
  obtain ⟨l, r, hlr⟩ := h
  by_cases hl : x.length ≤ l.length
  · -- it begins behind `x`
    refine Or.inr (infix_replicate_append (n := n) hhead ?_)
    have hdrop : (List.replicate n c ++ y) = l.drop x.length ++ v ++ r := by
      have heq := congrArg (List.drop x.length) hlr
      rw [List.append_assoc, List.append_assoc, List.drop_append_of_le_length hl,
        List.drop_left] at heq
      rw [List.append_assoc]
      exact heq.symm
    exact ⟨l.drop x.length, r, hdrop.symm⟩
  · -- it begins in `x`, so it ends before `y`
    refine Or.inl (infix_append_replicate (n := n) hlast ?_)
    have hlen : (l ++ v).length ≤ (x ++ List.replicate n c).length := by
      simp only [List.length_append, List.length_replicate]
      omega
    have htake : x ++ List.replicate n c
        = l ++ v ++ r.take ((x ++ List.replicate n c).length - (l ++ v).length) := by
      have heq := congrArg (List.take (x ++ List.replicate n c).length) hlr
      rw [List.take_append, List.take_of_length_le hlen, List.take_left] at heq
      exact heq.symm
    exact ⟨l, _, htake.symm⟩

/-- A list is found in any list it is joined into. -/
theorem infix_intercalate {part : List α} {parts : List (List α)} (sep : List α)
    (hpart : part ∈ parts) : part <:+: sep.intercalate parts := by
  induction parts with
  | nil => simp at hpart
  | cons first rest ih =>
      cases rest with
      | nil =>
          rw [List.mem_singleton] at hpart
          subst hpart
          rw [List.intercalate_singleton]
      | cons second rest =>
          rw [List.intercalate_cons_cons]
          rcases List.mem_cons.mp hpart with rfl | hlater
          · exact (List.prefix_append ..).isInfix.trans (List.prefix_append ..).isInfix
          · exact (ih hlater).trans (List.suffix_append ..).isInfix

/-- A list whose elements are all dropped by a filter for `≠ c` is a run of `c`. -/
theorem eq_replicate_of_filter [DecidableEq α] {c : α} {cs : List α}
    (h : cs.filter (· != c) = []) : cs = List.replicate cs.length c := by
  refine List.eq_replicate_iff.mpr ⟨rfl, fun d hd => ?_⟩
  have hne := List.filter_eq_nil_iff.mp h d hd
  simpa using hne

end

/-- What is printed inside brackets is printed. -/
theorem infix_brackets {part sep left right : String} {parts : List String}
    (hpart : part ∈ parts) :
    part.toList <:+: (left ++ sep.intercalate parts ++ right).toList := by
  rw [String.toList_append, String.toList_append, String.toList_intercalate]
  have hmem : part.toList ∈ parts.map String.toList := List.mem_map_of_mem hpart
  exact (infix_intercalate sep.toList hmem).trans ⟨left.toList, right.toList, rfl⟩

-- ============================================================================
-- Quoted characters
-- ============================================================================

theorem digitChar_range : ∀ digit < 16, 0x20 ≤ (Nat.digitChar digit).toNat ∧
    (Nat.digitChar digit).toNat < 0x7f ∧ Nat.digitChar digit ≠ '\\' ∧
      Nat.digitChar digit ≠ '\'' := by
  decide

section
variable [PrintTables]

/-- A character that `repr` copies, whatever quote it uses other than this character. -/
def Plain (c : Char) : Prop :=
  c ≠ '\\' ∧ c ≠ '\'' ∧
    (0x20 ≤ c.toNat ∧ c.toNat < 0x7f ∨ 0x7f < c.toNat ∧ PrintTables.isPrintable c = true)

instance (c : Char) : Decidable (Plain c) := by
  unfold Plain
  infer_instance

/-- Backslashes, at most one single quote, plain characters, backslashes. -/
def Survives (cs : List Char) : Prop :=
  ∃ (n : ℕ) (quote plain : List Char) (m : ℕ),
    cs = List.replicate n '\\' ++ quote ++ plain ++ List.replicate m '\\' ∧
      (quote = [] ∨ quote = ['\'']) ∧ ∀ c ∈ plain, Plain c

/-- The inside of a quoted string. -/
def escape (quote : Char) (cs : List Char) : List Char :=
  cs.flatMap (reprChar quote)

@[simp] theorem escape_nil (quote : Char) : escape quote [] = [] := rfl

@[simp] theorem escape_cons (quote c : Char) (cs : List Char) :
    escape quote (c :: cs) = reprChar quote c ++ escape quote cs := rfl

@[simp] theorem escape_append (quote : Char) (cs ds : List Char) :
    escape quote (cs ++ ds) = escape quote cs ++ escape quote ds :=
  List.flatMap_append

-- The characters `repr` writes -------------------------------------------------

/-- A plain character is copied. -/
theorem reprChar_plain {quote c : Char} (hc : Plain c) (hquote : c ≠ quote) :
    reprChar quote c = [c] := by
  obtain ⟨hbackslash, -, hrange⟩ := hc
  have hge : 0x20 ≤ c.toNat := by omega
  have htab : c ≠ '\t' := by
    rintro rfl
    exact absurd hge (by decide)
  have hnewline : c ≠ '\n' := by
    rintro rfl
    exact absurd hge (by decide)
  have hreturn : c ≠ '\r' := by
    rintro rfl
    exact absurd hge (by decide)
  have hcontrol : ¬ (c.toNat < 0x20 ∨ c.toNat = 0x7f) := by omega
  rcases hrange with hascii | ⟨hhigh, hprintable⟩
  · simp [reprChar, hquote, hbackslash, htab, hnewline, hreturn, hcontrol, hascii.2]
  · have hnot : ¬ c.toNat < 0x7f := by omega
    simp [reprChar, hquote, hbackslash, htab, hnewline, hreturn, hcontrol, hnot, hprintable]

@[simp] theorem reprChar_backslash (quote : Char) : reprChar quote '\\' = ['\\', '\\'] := by
  simp [reprChar]

@[simp] theorem reprChar_quote (quote : Char) : reprChar quote quote = ['\\', quote] := by
  simp [reprChar]

/-- The characters of a printed string between its quotes. -/
def Legible (c : Char) : Prop :=
  Plain c ∨ c = '\\' ∨ c = '\''

theorem legible_hexDigits {width n : ℕ} {c : Char} (hc : c ∈ hexDigits width n) : Legible c := by
  induction width generalizing n with
  | zero => simp [hexDigits] at hc
  | succ width ih =>
      rw [hexDigits, List.mem_append, List.mem_singleton] at hc
      rcases hc with hrest | rfl
      · exact ih hrest
      · have hlt : n % 16 < 16 := Nat.mod_lt n (by omega)
        obtain ⟨hge, hle, hbackslash, hquote⟩ := digitChar_range _ hlt
        exact Or.inl ⟨hbackslash, hquote, Or.inl ⟨hge, hle⟩⟩

/-- An ASCII character that is not a control character is legible. -/
theorem legible_of_range {c : Char} (hge : 0x20 ≤ c.toNat) (hlt : c.toNat < 0x7f) :
    Legible c := by
  by_cases hbackslash : c = '\\'
  · exact Or.inr (Or.inl hbackslash)
  · by_cases hquote : c = '\''
    · exact Or.inr (Or.inr hquote)
    · exact Or.inl ⟨hbackslash, hquote, Or.inl ⟨hge, hlt⟩⟩

theorem legible_escaped {letter c : Char} {rest : List Char}
    (hletter : 0x20 ≤ letter.toNat ∧ letter.toNat < 0x7f) (hrest : ∀ d ∈ rest, Legible d)
    (hc : c ∈ '\\' :: letter :: rest) : Legible c := by
  rw [List.mem_cons, List.mem_cons] at hc
  rcases hc with rfl | rfl | hdigits
  · exact Or.inr (Or.inl rfl)
  · exact legible_of_range hletter.1 hletter.2
  · exact hrest c hdigits

/-- Whatever a character is, what is written for it can be read. -/
theorem legible_reprChar {c d : Char} (hd : d ∈ reprChar '\'' c) : Legible d := by
  have hletter : ∀ letter, letter = 't' ∨ letter = 'n' ∨ letter = 'r' ∨ letter = 'x' ∨
      letter = 'u' ∨ letter = 'U' → 0x20 ≤ letter.toNat ∧ letter.toNat < 0x7f := by
    rintro letter (rfl | rfl | rfl | rfl | rfl | rfl) <;> decide
  have hhex : ∀ width, ∀ e ∈ hexDigits width c.toNat, Legible e :=
    fun width e he => legible_hexDigits he
  simp only [reprChar] at hd
  split at hd
  · rename_i hescaped
    rw [Bool.or_eq_true, beq_iff_eq, beq_iff_eq] at hescaped
    rw [List.mem_cons, List.mem_singleton] at hd
    rcases hd with rfl | rfl
    · exact Or.inr (Or.inl rfl)
    · rcases hescaped with hquote | hbackslash
      · exact Or.inr (Or.inr hquote)
      · exact Or.inr (Or.inl hbackslash)
  rename_i hescaped
  simp only [Bool.or_eq_true, beq_iff_eq, not_or] at hescaped
  split at hd
  · exact legible_escaped (hletter 't' (by simp)) (by simp) hd
  split at hd
  · exact legible_escaped (hletter 'n' (by simp)) (by simp) hd
  split at hd
  · exact legible_escaped (hletter 'r' (by simp)) (by simp) hd
  split at hd
  · exact legible_escaped (hletter 'x' (by simp)) (hhex 2) hd
  rename_i hcontrol
  simp only [Bool.or_eq_true, decide_eq_true_eq, beq_iff_eq, not_or] at hcontrol
  split at hd
  · rename_i hascii
    rw [List.mem_singleton] at hd
    subst hd
    exact legible_of_range (by omega) hascii
  rename_i hhigh
  split at hd
  · rename_i hprintable
    rw [List.mem_singleton] at hd
    subst hd
    exact Or.inl ⟨hescaped.2, hescaped.1, Or.inr ⟨by omega, hprintable⟩⟩
  split at hd
  · exact legible_escaped (hletter 'x' (by simp)) (hhex 2) hd
  split at hd
  · exact legible_escaped (hletter 'u' (by simp)) (hhex 4) hd
  · exact legible_escaped (hletter 'U' (by simp)) (hhex 8) hd

-- Texts that survive -----------------------------------------------------------

/-- What a quoted string contains can be read. -/
theorem legible_of_infix_escape {v cs : List Char} (h : v <:+: escape '\'' cs) :
    ∀ c ∈ v, Legible c := by
  intro c hc
  obtain ⟨d, -, hd⟩ := List.mem_flatMap.mp (h.subset hc)
  exact legible_reprChar hd

/-- Quoting a text that can be read adds backslashes and nothing else. -/
theorem filter_escape {v : List Char} (hv : ∀ c ∈ v, Legible c) :
    (escape '\'' v).filter (· != '\\') = v.filter (· != '\\') := by
  induction v with
  | nil => rfl
  | cons c rest ih =>
      have hrest := ih fun d hd => hv d (List.mem_cons_of_mem c hd)
      have hcons : (escape '\'' (c :: rest)).filter (· != '\\')
          = (reprChar '\'' c).filter (· != '\\') ++ rest.filter (· != '\\') := by
        rw [escape_cons, List.filter_append, hrest]
      rw [hcons]
      rcases hv c (List.mem_cons_self ..) with hplain | rfl | rfl
      · rw [reprChar_plain hplain hplain.2.1]
        exact (List.filter_append [c] rest).symm
      · rw [reprChar_backslash]
        rfl
      · rw [reprChar_quote]
        rfl

/-- A text found in its own quoted form stands between backslashes there. -/
theorem escape_eq_of_infix {v : List Char} (h : v <:+: escape '\'' v) :
    ∃ a b, escape '\'' v = List.replicate a '\\' ++ v ++ List.replicate b '\\' := by
  obtain ⟨l, r, hlr⟩ := h
  have hfilter := congrArg (List.filter (· != '\\')) hlr
  rw [filter_escape (legible_of_infix_escape ⟨l, r, hlr⟩), List.filter_append,
    List.filter_append] at hfilter
  have hlen := congrArg List.length hfilter
  simp only [List.length_append] at hlen
  have hl : l.filter (· != '\\') = [] := List.eq_nil_of_length_eq_zero (by omega)
  have hr : r.filter (· != '\\') = [] := List.eq_nil_of_length_eq_zero (by omega)
  exact ⟨l.length, r.length, by
    rw [← eq_replicate_of_filter hl, ← eq_replicate_of_filter hr, hlr]⟩

/-- One backslash too many in front is carried through the whole text. -/
theorem backslashes_of_escape {u : List Char} {k b : ℕ}
    (h : List.replicate (k + 1) '\\' ++ escape '\'' u = u ++ List.replicate b '\\') :
    ∃ m, u = List.replicate m '\\' := by
  induction u generalizing k with
  | nil => exact ⟨0, rfl⟩
  | cons c rest ih =>
      rw [List.replicate_succ, List.cons_append, List.cons_append, List.cons_eq_cons] at h
      obtain ⟨rfl, htail⟩ := h
      have hshift : List.replicate (k + 1 + 1) '\\' ++ escape '\'' rest
          = rest ++ List.replicate b '\\' := by
        rw [← htail, escape_cons, reprChar_backslash, List.replicate_add, List.replicate_add]
        simp
      obtain ⟨m, rfl⟩ := ih hshift
      exact ⟨m + 1, rfl⟩

/-- A text that its quoted form begins with is plain up to trailing backslashes. -/
theorem plain_of_escape {u : List Char} {b : ℕ} (hu : ∀ c ∈ u, Legible c)
    (h : escape '\'' u = u ++ List.replicate b '\\') :
    ∃ plain m, u = plain ++ List.replicate m '\\' ∧ ∀ c ∈ plain, Plain c := by
  induction u with
  | nil => exact ⟨[], 0, rfl, by simp⟩
  | cons c rest ih =>
      rw [escape_cons, List.cons_append] at h
      rcases hu c (List.mem_cons_self ..) with hplain | rfl | rfl
      · rw [reprChar_plain hplain hplain.2.1, List.singleton_append, List.cons_eq_cons] at h
        obtain ⟨plain, m, rfl, hall⟩ := ih (fun d hd => hu d (List.mem_cons_of_mem c hd)) h.2
        refine ⟨c :: plain, m, rfl, fun d hd => ?_⟩
        rcases List.mem_cons.mp hd with rfl | hd
        · exact hplain
        · exact hall d hd
      · rw [reprChar_backslash, List.cons_append, List.cons_eq_cons] at h
        obtain ⟨m, rfl⟩ := backslashes_of_escape (k := 0) (u := rest) h.2
        exact ⟨[], m + 1, rfl, by simp⟩
      · rw [reprChar_quote, List.cons_append, List.cons_eq_cons] at h
        exact absurd h.1 (by decide)

/-- Only a text of the right shape is found in its own quoted form. -/
theorem survives_of_infix {v : List Char} (h : v <:+: escape '\'' v) : Survives v := by
  have hlegible := legible_of_infix_escape h
  obtain ⟨a, b, hv⟩ := escape_eq_of_infix h
  clear h
  induction v generalizing a with
  | nil => exact ⟨0, [], [], 0, rfl, Or.inl rfl, by simp⟩
  | cons c rest ih =>
      have hrest : ∀ d ∈ rest, Legible d := fun d hd => hlegible d (List.mem_cons_of_mem c hd)
      rw [escape_cons, List.append_assoc] at hv
      rcases hlegible c (List.mem_cons_self ..) with hplain | rfl | rfl
      · -- a plain character: nothing stands before it
        rw [reprChar_plain hplain hplain.2.1] at hv
        cases a with
        | zero =>
            obtain ⟨plain, m, rfl, hall⟩ := plain_of_escape hrest (List.cons_eq_cons.mp hv).2
            refine ⟨0, [], c :: plain, m, rfl, Or.inl rfl, fun d hd => ?_⟩
            rcases List.mem_cons.mp hd with rfl | hd
            · exact hplain
            · exact hall d hd
        | succ a => exact absurd (List.cons_eq_cons.mp hv).1 hplain.1
      · -- a backslash: it is the first of its pair, or the second
        rw [reprChar_backslash] at hv
        cases a with
        | zero =>
            obtain ⟨m, rfl⟩ := backslashes_of_escape (k := 0) (u := rest)
              (List.cons_eq_cons.mp hv).2
            exact ⟨m + 1, [], [], 0, by simp [List.replicate_succ], Or.inl rfl, by simp⟩
        | succ a =>
            have hshift : escape '\'' rest
                = List.replicate a '\\' ++ rest ++ List.replicate b '\\' := by
              have htail := (List.cons_eq_cons.mp hv).2
              have hmove : List.replicate a '\\' ++ '\\' :: (rest ++ List.replicate b '\\')
                  = '\\' :: (List.replicate a '\\' ++ rest ++ List.replicate b '\\') := by
                rw [List.append_cons, ← List.replicate_succ', List.replicate_succ]
                simp
              exact (List.cons_eq_cons.mp (htail.trans hmove)).2
            obtain ⟨n, quote, plain, m, rfl, hquote, hall⟩ := ih hrest a hshift
            exact ⟨n + 1, quote, plain, m, by simp [List.replicate_succ], hquote, hall⟩
      · -- a quote: its backslash stands before it
        rw [reprChar_quote] at hv
        cases a with
        | zero => exact absurd (List.cons_eq_cons.mp hv).1 (by decide)
        | succ a =>
            cases a with
            | zero =>
                have htail := (List.cons_eq_cons.mp (List.cons_eq_cons.mp hv).2).2
                obtain ⟨plain, m, rfl, hall⟩ := plain_of_escape hrest htail
                exact ⟨0, ['\''], plain, m, rfl, Or.inr rfl, hall⟩
            | succ a =>
                exact absurd (List.cons_eq_cons.mp (List.cons_eq_cons.mp hv).2).1 (by decide)

/-- Backslashes are doubled. -/
theorem escape_replicate (quote : Char) (n : ℕ) :
    escape quote (List.replicate n '\\') = List.replicate (n + n) '\\' := by
  induction n with
  | zero => rfl
  | succ n ih =>
      rw [List.replicate_succ, escape_cons, ih, reprChar_backslash,
        show n + 1 + (n + 1) = n + n + 1 + 1 by omega]
      rfl

/-- Plain characters are copied. -/
theorem escape_plain {quote : Char} {cs : List Char} (hcs : ∀ c ∈ cs, Plain c)
    (hquote : quote ∉ cs) : escape quote cs = cs := by
  induction cs with
  | nil => rfl
  | cons c rest ih =>
      rw [List.mem_cons, not_or] at hquote
      rw [escape_cons, reprChar_plain (hcs c (List.mem_cons_self ..)) (Ne.symm hquote.1),
        ih (fun d hd => hcs d (List.mem_cons_of_mem c hd)) hquote.2]
      rfl

/-- A text of the right shape is found in its own quoted form. -/
theorem infix_escape_of_survives {quote : Char} {v : List Char} (hv : Survives v)
    (hquote : quote = '\'' ∨ quote = '"' ∧ '"' ∉ v) : v <:+: escape quote v := by
  obtain ⟨n, q, plain, m, rfl, hq, hplain⟩ := hv
  have hcopied : escape quote plain = plain := by
    refine escape_plain hplain fun hmem => ?_
    rcases hquote with rfl | ⟨rfl, hnot⟩
    · exact (hplain _ hmem).2.1 rfl
    · exact hnot (by simp [hmem])
  rw [escape_append, escape_append, escape_append, escape_replicate, escape_replicate, hcopied]
  have hfront : List.replicate n '\\' ++ q <:+ List.replicate (n + n) '\\' ++ escape quote q := by
    rw [List.replicate_add]
    rcases hq with rfl | rfl
    · exact ⟨List.replicate n '\\', by simp⟩
    · rcases hquote with rfl | ⟨rfl, -⟩
      · refine ⟨List.replicate n '\\' ++ ['\\'], ?_⟩
        have hswap : ['\\'] ++ List.replicate n '\\' = List.replicate n '\\' ++ ['\\'] :=
          List.replicate_succ.symm.trans List.replicate_succ'
        rw [List.append_assoc, ← List.append_assoc ['\\'], hswap, escape_cons, reprChar_quote]
        simp only [List.append_assoc, List.singleton_append, escape_nil, List.append_nil]
      · refine ⟨List.replicate n '\\', ?_⟩
        rw [List.append_assoc]
        rfl
  obtain ⟨l, hl⟩ := hfront
  refine ⟨l, List.replicate m '\\', ?_⟩
  rw [← hl, List.replicate_add]
  simp only [List.append_assoc]

-- ============================================================================
-- Printed containers
-- ============================================================================

namespace Json

/-- `s` is a string of the value: the value itself, a nested one or a key. -/
inductive Says (s : String) : Json → Prop where
  | whole : Says s (str s)
  | item {x xs} : x ∈ xs → Says s x → Says s (list xs)
  | key {v fs} : (s, v) ∈ fs → Says s (dict fs)
  | value {k v fs} : (k, v) ∈ fs → Says s v → Says s (dict fs)

theorem repr_mem_reprList {x : Json} {xs : List Json} (hx : x ∈ xs) :
    x.repr ∈ reprList xs := by
  induction xs with
  | nil => simp at hx
  | cons y ys ih =>
      rw [reprList, List.mem_cons]
      rcases List.mem_cons.mp hx with rfl | hy
      · exact Or.inl rfl
      · exact Or.inr (ih hy)

theorem repr_mem_reprFields {k : String} {v : Json} {fs : List (String × Json)}
    (hkv : (k, v) ∈ fs) : strRepr k ++ ": " ++ v.repr ∈ reprFields fs := by
  induction fs with
  | nil => simp at hkv
  | cons f fs ih =>
      obtain ⟨k', v'⟩ := f
      rw [reprFields, List.mem_cons]
      rcases List.mem_cons.mp hkv with heq | hfs
      · obtain ⟨rfl, rfl⟩ := Prod.mk.inj heq
        exact Or.inl rfl
      · exact Or.inr (ih hfs)

/-- Every string of a container is printed in it, quoted. -/
theorem infix_repr {s : String} {content : Json} (h : content.Says s) :
    (strRepr s).toList <:+: content.repr.toList := by
  induction h with
  | whole => exact List.infix_rfl
  | item hx _ ih => exact ih.trans (infix_brackets (repr_mem_reprList hx))
  | @key v fs hkv =>
      refine List.IsInfix.trans ?_ (infix_brackets (repr_mem_reprFields hkv))
      exact ⟨[], (": " ++ v.repr).toList, by simp [String.toList_append]⟩
  | @value k v fs hkv _ ih =>
      refine (ih.trans ?_).trans (infix_brackets (repr_mem_reprFields hkv))
      exact ⟨(strRepr k ++ ": ").toList, [], by simp [String.toList_append]⟩

end Json

-- Where a text is lost -----------------------------------------------------------

/-- An end of a quoted text can be read. -/
theorem survives_of_infix_quote {v plain : List Char} (hplain : ∀ c ∈ plain, Plain c)
    (h : v <:+: '\'' :: plain) : Survives v := by
  rcases List.infix_cons_iff.mp h with hfront | hwithin
  · cases v with
    | nil => exact ⟨0, [], [], 0, rfl, Or.inl rfl, by simp⟩
    | cons c rest =>
        obtain ⟨rfl, hrest⟩ := List.cons_prefix_cons.mp hfront
        exact ⟨0, ['\''], rest, 0, by simp, Or.inr rfl, fun d hd => hplain d (hrest.subset hd)⟩
  · exact ⟨0, [], v, 0, by simp, Or.inl rfl, fun d hd => hplain d (hwithin.subset hd)⟩

/-- Some letter stands at neither end of a text. -/
theorem exists_padding (v : List Char) :
    ∃ c, Plain c ∧ v.head? ≠ some c ∧ v.getLast? ≠ some c := by
  have hplain : ∀ c, c = 'a' ∨ c = 'b' ∨ c = 'c' → Plain c := by
    rintro c (rfl | rfl | rfl) <;> exact ⟨by decide, by decide, Or.inl (by decide)⟩
  have hfree : ∀ x y : Option Char,
      ∃ c, (c = 'a' ∨ c = 'b' ∨ c = 'c') ∧ x ≠ some c ∧ y ≠ some c := by
    intro x y
    by_contra hnone
    push Not at hnone
    have ha := hnone 'a' (by simp)
    have hb := hnone 'b' (by simp)
    have hc := hnone 'c' (by simp)
    by_cases hx : x = some 'a'
    · rw [hx] at hb hc
      have hy : some 'b' = some 'c' := (hb (by decide)).symm.trans (hc (by decide))
      exact absurd hy (by decide)
    · rw [ha hx] at hb hc
      have hxb : x = some 'b' := by_contra fun hne => absurd (hb hne) (by decide)
      have hxc : x = some 'c' := by_contra fun hne => absurd (hc hne) (by decide)
      exact absurd (hxb.symm.trans hxc) (by decide)
  obtain ⟨c, hc, hhead, hlast⟩ := hfree v.head? v.getLast?
  exact ⟨c, hplain c hc, hhead, hlast⟩

/-- `v` between two runs of `c`, after a double quote. -/
def padded (c : Char) (v : List Char) : String :=
  String.ofList ('"' :: List.replicate v.length c ++ v ++ List.replicate v.length c)

omit [PrintTables] in
theorem infix_padded (c : Char) (v : List Char) : v <:+: (padded c v).toList := by
  rw [padded, String.toList_ofList]
  exact ⟨'"' :: List.replicate v.length c, List.replicate v.length c, rfl⟩

/-- The double quote makes `repr` use single quotes, and the padding is copied. -/
theorem strRepr_padded {c : Char} {v : List Char} (hc : Plain c) :
    (strRepr (padded c v)).toList = ['\'', '"'] ++ List.replicate v.length c
      ++ (escape '\'' v ++ List.replicate v.length c ++ ['\'']) := by
  have hpadding : escape '\'' (List.replicate v.length c) = List.replicate v.length c := by
    refine escape_plain (fun d hd => ?_) fun hmem => ?_
    · rw [List.eq_of_mem_replicate hd]
      exact hc
    · exact hc.2.1 (List.eq_of_mem_replicate hmem).symm
  have hquote : quoteOf ('"' :: List.replicate v.length c ++ v ++ List.replicate v.length c)
      = '\'' := by
    rw [quoteOf]
    simp
  have hdouble : reprChar '\'' '"' = ['"'] := by
    rw [reprChar_plain ⟨by decide, by decide, Or.inl (by decide)⟩ (by decide)]
  have hescape : escape '\'' ('"' :: List.replicate v.length c ++ v ++ List.replicate v.length c)
      = '"' :: List.replicate v.length c ++ escape '\'' v ++ List.replicate v.length c := by
    rw [escape_append, escape_append, hpadding, escape_cons, hpadding, hdouble]
    rfl
  rw [strRepr, padded, String.toList_ofList, String.toList_ofList, hquote]
  change '\'' :: escape '\'' _ ++ ['\''] = _
  rw [hescape]
  simp only [List.append_assoc, List.cons_append, List.nil_append]

/-- What is found in a padded text inside some brackets is found in its own quoted form,
    or in the brackets with the quotes. -/
theorem infix_of_bracketed {c : Char} {v left right : List Char} (hc : Plain c)
    (hhead : v.head? ≠ some c) (hlast : v.getLast? ≠ some c)
    (h : v <:+: left ++ (strRepr (padded c v)).toList ++ right) :
    v <:+: left ++ ['\'', '"'] ∨ v <:+: escape '\'' v ∨ v <:+: '\'' :: right := by
  have hsplit : left ++ (strRepr (padded c v)).toList ++ right
      = (left ++ ['\'', '"']) ++ List.replicate v.length c
        ++ (escape '\'' v ++ List.replicate v.length c ++ '\'' :: right) := by
    rw [strRepr_padded hc]
    simp only [List.append_assoc, List.cons_append, List.nil_append]
  rw [hsplit] at h
  rcases infix_of_padded le_rfl hhead hlast h with hleft | hrest
  · exact Or.inl hleft
  · exact Or.inr (infix_of_padded le_rfl hhead hlast hrest)

/-- A text of another shape is lost in some list or in some key. -/
theorem survives_of_found {v : List Char}
    (h : ∀ s content, Json.Says s content → v <:+: s.toList →
      v <:+: content.toStr.toList) : Survives v := by
  obtain ⟨c, hc, hhead, hlast⟩ := exists_padding v
  have hplain : ∀ cs : List Char, (∀ d ∈ cs, d = '"' ∨ d = ']') → ∀ d ∈ cs, Plain d := by
    intro cs hcs d hd
    rcases hcs d hd with rfl | rfl <;> exact ⟨by decide, by decide, Or.inl (by decide)⟩
  by_cases hbracket : v.head? = some '['
  · -- in `{s: None}`, whose own characters do not include `[`
    have hmem : '[' ∈ v := List.mem_of_mem_head? hbracket
    have hfound := h (padded c v) (.dict [(padded c v, .null)])
      (.key (List.mem_singleton.mpr rfl)) (infix_padded c v)
    have hprinted : (Json.dict [(padded c v, .null)]).toStr.toList
        = ['\x7b'] ++ (strRepr (padded c v)).toList ++ ": None\x7d".toList := by
      simp [Json.toStr, Json.repr, Json.reprFields]
    rw [hprinted] at hfound
    rcases infix_of_bracketed hc hhead hlast hfound with hleft | hinner | hright
    · exact absurd (hleft.subset hmem) (by decide)
    · exact survives_of_infix hinner
    · exact absurd (hright.subset hmem) (by decide)
  · -- in `[s]`
    have hfound := h (padded c v) (.list [.str (padded c v)])
      (.item (List.mem_singleton.mpr rfl) .whole) (infix_padded c v)
    have hprinted : (Json.list [.str (padded c v)]).toStr.toList
        = ['['] ++ (strRepr (padded c v)).toList ++ [']'] := by
      simp [Json.toStr, Json.repr, Json.reprList]
    rw [hprinted] at hfound
    rcases infix_of_bracketed hc hhead hlast hfound with hleft | hinner | hright
    · rcases List.infix_cons_iff.mp hleft with hfront | hquotes
      · cases v with
        | nil => exact ⟨0, [], [], 0, rfl, Or.inl rfl, by simp⟩
        | cons d rest =>
            have hd : d = '[' := (List.cons_prefix_cons.mp hfront).1
            subst hd
            exact absurd rfl hbracket
      · exact survives_of_infix_quote (hplain _ (by simp)) hquotes
    · exact survives_of_infix hinner
    · exact survives_of_infix_quote (hplain _ (by simp)) hright

/-- A text is found in the printed form of every value that says it, if and only if it
    has the right shape. -/
theorem found_iff_survives (v : List Char) :
    (∀ s content, Json.Says s content → v <:+: s.toList → v <:+: content.toStr.toList) ↔
      Survives v := by
  refine ⟨survives_of_found, fun hv s content hsays hs => ?_⟩
  have hquote : quoteOf s.toList = '\'' ∨ quoteOf s.toList = '"' ∧ '"' ∉ v := by
    rw [quoteOf]
    split
    · rename_i hdouble
      rw [Bool.and_eq_true, Bool.not_eq_true', List.contains_eq_mem, List.contains_eq_mem,
        decide_eq_false_iff_not] at hdouble
      exact Or.inr ⟨rfl, fun hmem => hdouble.2 (hs.subset hmem)⟩
    · exact Or.inl rfl
  have hescaped : v <:+: escape (quoteOf s.toList) s.toList := by
    obtain ⟨l, r, hlr⟩ := hs
    refine (infix_escape_of_survives hv hquote).trans ?_
    refine ⟨escape (quoteOf s.toList) l, escape (quoteOf s.toList) r, ?_⟩
    rw [← escape_append, ← escape_append, hlr]
  have hprinted : v <:+: (strRepr s).toList := by
    rw [strRepr, String.toList_ofList]
    exact hescaped.trans ⟨[quoteOf s.toList], [quoteOf s.toList], rfl⟩
  have hrepr := hprinted.trans (Json.infix_repr hsays)
  cases content with
  | str text =>
      cases hsays
      exact hs
  | _ => exact hrepr

end

end Py
