/-
  ToolGateway.Python.Scanned

  What the scanner gives for any text: it ends within its fuel, it leaves less
  than it was given, and no object it has read has a key twice.
-/

import ToolGateway.Python.Loads
import ToolGateway.Python.Raise

namespace Py

variable {α β : Type}

/-- A scanner did not run out of fuel; what it read has the property, and what it
    left is shorter than `n`. -/
def Scans (n : ℕ) (P : α → Prop) (r : Except LoadsError (α × List Char)) : Prop :=
  r ≠ .error .fuel ∧ ∀ a rest, r = .ok (a, rest) → P a ∧ rest.length < n

namespace Scans

variable {n m : ℕ} {P : α → Prop} {Q : β → Prop} {r : Except LoadsError (α × List Char)}

theorem ok {a : α} {rest : List Char} (ha : P a) (hrest : rest.length < n) :
    Scans n P (.ok (a, rest)) := by
  refine ⟨fun h => (by cases h), fun a' rest' h => ?_⟩
  obtain ⟨rfl, rfl⟩ := Prod.mk.inj (Except.ok.inj h)
  exact ⟨ha, hrest⟩

theorem error {e : LoadsError} (he : e ≠ .fuel) : Scans n P (.error e) :=
  ⟨fun h => he (Except.error.inj h), fun _ _ h => by cases h⟩

theorem bind {f : α × List Char → Except LoadsError (β × List Char)} (h : Scans m P r)
    (hf : ∀ a rest, P a → rest.length < m → Scans n Q (f (a, rest))) : Scans n Q (r >>= f) := by
  obtain ⟨hfuel, hok⟩ := h
  cases r with
  | error e =>
      show Scans n Q (.error e)
      exact error fun he => hfuel (he ▸ rfl)
  | ok p =>
      obtain ⟨a, rest⟩ := p
      obtain ⟨ha, hrest⟩ := hok a rest rfl
      exact hf a rest ha hrest

theorem mono (h : Scans m P r) (hm : m ≤ n) : Scans n P r :=
  ⟨h.1, fun a rest hr => ⟨(h.2 a rest hr).1, (h.2 a rest hr).2.trans_le hm⟩⟩

end Scans

-- ============================================================================
-- Strings
-- ============================================================================

theorem scans_hex4 (cs : List Char) : Scans cs.length (fun _ => True) (scanHex4 cs) := by
  unfold scanHex4
  split
  · split
    · exact .ok trivial (by simp; omega)
    · exact .error nofun
  · exact .error nofun

theorem scans_lowHalf (high : ℕ) (cs : List Char) :
    Scans cs.length (fun _ => True) (scanLowHalf high cs) := by
  unfold scanLowHalf
  split
  · next cs =>
      refine (scans_hex4 cs).bind fun low rest _ hrest => ?_
      dsimp only
      split
      · exact .ok trivial (by simp; omega)
      · exact .error nofun
  · exact .error nofun

theorem scans_escape (cs : List Char) : Scans cs.length (fun _ => True) (scanEscape cs) := by
  unfold scanEscape
  split
  · next cs =>
      refine (scans_hex4 cs).bind fun n rest _ hrest => ?_
      dsimp only
      split
      · exact (scans_lowHalf n rest).mono (by simp; omega)
      · split
        · exact .error nofun
        · exact .ok trivial (by simp; omega)
  · next c cs _ =>
      split
      · exact .ok trivial (by simp)
      · exact .error nofun
  · exact .error nofun

theorem scans_char (cs : List Char) : Scans cs.length (fun _ => True) (scanChar cs) := by
  unfold scanChar
  split
  · exact .error nofun
  · exact .ok trivial (by simp)
  · next cs =>
      refine (scans_escape cs).bind fun c rest _ hrest => ?_
      exact .ok trivial (by simp; omega)
  · next c cs _ _ =>
      split
      · exact .error nofun
      · exact .ok trivial (by simp)

theorem scans_chars {fuel : ℕ} {cs : List Char} (h : cs.length < fuel) :
    Scans cs.length (fun _ => True) (scanChars fuel cs) := by
  induction fuel generalizing cs with
  | zero => cases h
  | succ fuel ih =>
      unfold scanChars
      refine (scans_char cs).bind fun c rest _ hrest => ?_
      cases c with
      | none => exact .ok trivial hrest
      | some c =>
          have hmore : Scans rest.length (fun _ => True) (scanChars fuel rest) := ih (by omega)
          refine hmore.bind fun s rest' _ hrest' => ?_
          exact .ok trivial (by omega)

theorem scans_string (cs : List Char) : Scans cs.length (fun _ => True) (scanString cs) :=
  (scans_chars (Nat.lt_succ_self _)).bind fun _ _ _ hrest => .ok trivial hrest

-- ============================================================================
-- Numbers and literals
-- ============================================================================

/-- A part of a number is taken off the front. -/
def Takes (part : List Char → List Char × List Char) : Prop :=
  ∀ cs, (part cs).1.length + (part cs).2.length = cs.length

theorem takes_span (p : Char → Bool) : Takes (List.span p) := by
  intro cs
  rw [List.span_eq_takeWhile_dropWhile, ← List.length_append, List.takeWhile_append_dropWhile]

theorem takes_minusPart : Takes minusPart := by
  intro cs
  unfold minusPart
  split <;> simp; omega

theorem takes_wholePart : Takes wholePart := by
  intro cs
  unfold wholePart
  split
  · simp; omega
  · exact takes_span Char.isDigit _

theorem takes_fractionPart : Takes fractionPart := by
  intro cs
  unfold fractionPart
  split
  · next rest =>
      have hspan := takes_span Char.isDigit rest
      dsimp only
      split
      · simp
      · simp only [List.length_cons]
        omega
  · simp

theorem takes_exponentSuffix : Takes exponentSuffix := by
  intro cs
  unfold exponentSuffix
  split
  · next c rest =>
      split
      · have hdigits : ∀ signed : List Char × List Char,
            signed.1.length + signed.2.length = rest.length →
            (if (signed.2.span Char.isDigit).1.isEmpty then (([] : List Char), c :: rest)
              else (c :: signed.1 ++ (signed.2.span Char.isDigit).1,
                (signed.2.span Char.isDigit).2)).1.length +
            (if (signed.2.span Char.isDigit).1.isEmpty then (([] : List Char), c :: rest)
              else (c :: signed.1 ++ (signed.2.span Char.isDigit).1,
                (signed.2.span Char.isDigit).2)).2.length = (c :: rest).length := by
          intro signed hsigned
          have hspan := takes_span Char.isDigit signed.2
          split
          · simp
          · simp only [List.length_append, List.length_cons]
            omega
        refine hdigits _ ?_
        split <;> simp
        all_goals omega
      · simp
  · simp

theorem scans_number (cs : List Char) :
    Scans cs.length (fun v => v.distinctKeys = true) (scanNumber cs) := by
  unfold scanNumber
  have h1 := takes_minusPart cs
  have h2 := takes_wholePart (minusPart cs).2
  have h3 := takes_fractionPart (wholePart (minusPart cs).2).2
  have h4 := takes_exponentSuffix (fractionPart (wholePart (minusPart cs).2).2).2
  dsimp only
  split
  · exact .error nofun
  · next hwhole =>
      have hpos : 0 < (wholePart (minusPart cs).2).1.length :=
        List.length_pos_iff.mpr fun hnil => hwhole (by rw [hnil]; rfl)
      split
      · split
        · exact .error nofun
        · exact .ok rfl (by omega)
      · split
        · exact .ok rfl (by omega)
        · exact .error nofun

theorem scanLiteral?_some {cs rest : List Char} {v : Json} (h : scanLiteral? cs = some (v, rest)) :
    v.distinctKeys = true ∧ rest.length < cs.length := by
  obtain ⟨w, hw, hif⟩ := List.exists_of_findSome?_eq_some h
  have hall : ∀ w ∈ literals, w.2.distinctKeys = true ∧ 0 < w.1.toList.length := by decide
  split at hif
  · next hprefix =>
      obtain ⟨hkeys, hpos⟩ := hall w hw
      obtain ⟨rfl, rfl⟩ := Prod.mk.inj (Option.some.inj hif)
      have hle := hprefix.length_le
      refine ⟨hkeys, ?_⟩
      rw [List.length_drop]
      omega
  · cases hif

-- ============================================================================
-- Values
-- ============================================================================

theorem length_skipSpaces_le (cs : List Char) : (skipSpaces cs).length ≤ cs.length :=
  (List.dropWhile_sublist isJsonSpace).length_le

namespace Dict

theorem mem_of_mem_set {d : Dict α} {k : String} {v : α} {f : String × α} (h : f ∈ d.set k v) :
    f ∈ d ∨ f = (k, v) := by
  induction d with
  | nil => exact Or.inr (List.mem_singleton.mp h)
  | cons e d ih =>
      unfold set at h
      split at h
      · rcases List.mem_cons.mp h with rfl | hd
        · exact Or.inr rfl
        · exact Or.inl (List.mem_cons_of_mem e hd)
      · rcases List.mem_cons.mp h with rfl | hd
        · exact Or.inl List.mem_cons_self
        · exact (ih hd).imp (List.mem_cons_of_mem e) id

theorem nodup_keys_set {d : Dict α} (h : (d.map Prod.fst).Nodup) (k : String) (v : α) :
    ((d.set k v).map Prod.fst).Nodup := by
  induction d with
  | nil => exact List.nodup_singleton k
  | cons e d ih =>
      rw [List.map_cons, List.nodup_cons] at h
      unfold set
      split
      · next hk =>
          rw [List.map_cons, List.nodup_cons, ← hk]
          exact h
      · next hk =>
          rw [List.map_cons, List.nodup_cons]
          refine ⟨fun hmem => ?_, ih h.2⟩
          obtain ⟨f, hf, hkey⟩ := List.mem_map.mp hmem
          rcases mem_of_mem_set hf with hold | rfl
          · exact h.1 (hkey ▸ List.mem_map_of_mem hold)
          · exact hk hkey.symm

end Dict

/-- A field that is put among others keeps the keys distinct. -/
theorem distinctKeys_set {fs : Fields} {k : String} {v : Json}
    (hfs : (Json.dict fs).distinctKeys = true) (hv : v.distinctKeys = true) :
    (Json.dict (Dict.set fs k v)).distinctKeys = true := by
  obtain ⟨hkeys, hvalues⟩ := Json.distinctKeys_dict.mp hfs
  refine Json.distinctKeys_dict.mpr ⟨Dict.nodup_keys_set hkeys k v, fun f hf => ?_⟩
  rcases Dict.mem_of_mem_set hf with hold | rfl
  · exact hvalues f hold
  · exact hv

theorem scans_values (fuel : ℕ) :
    (∀ cs, 2 * cs.length < fuel →
      Scans cs.length (fun v => v.distinctKeys = true) (scanValue fuel cs)) ∧
    (∀ cs, 2 * cs.length + 1 < fuel →
      Scans cs.length (fun xs => ∀ x ∈ xs, x.distinctKeys = true) (scanItems fuel cs)) ∧
    ∀ fs cs, (Json.dict fs).distinctKeys = true → 2 * cs.length + 1 < fuel →
      Scans cs.length (fun fs => (Json.dict fs).distinctKeys = true) (scanFields fuel fs cs) := by
  induction fuel with
  | zero =>
      exact ⟨fun _ h => absurd h (Nat.not_lt_zero _), fun _ h => absurd h (Nat.not_lt_zero _),
        fun _ _ _ h => absurd h (Nat.not_lt_zero _)⟩
  | succ fuel ih =>
      obtain ⟨hvalue, hitems, hfields⟩ := ih
      refine ⟨fun cs hfuel => ?_, fun cs hfuel => ?_, fun fs cs hfs hfuel => ?_⟩
      · unfold scanValue
        split
        · next cs =>
            exact (scans_string cs).bind fun s rest _ hrest => .ok rfl (by simp; omega)
        · next cs =>
            have hspaces := length_skipSpaces_le cs
            rw [List.length_cons] at hfuel
            split
            · next rest heq =>
                rw [heq, List.length_cons] at hspaces
                exact .ok rfl (by simp; omega)
            · refine (hitems (skipSpaces cs) (by omega)).bind fun xs rest hxs hrest => ?_
              exact .ok (Json.distinctKeys_list.mpr hxs) (by simp; omega)
        · next cs =>
            have hspaces := length_skipSpaces_le cs
            rw [List.length_cons] at hfuel
            split
            · next rest heq =>
                rw [heq, List.length_cons] at hspaces
                exact .ok rfl (by simp; omega)
            · refine (hfields [] (skipSpaces cs) rfl (by omega)).bind fun fs rest hfs hrest => ?_
              exact .ok hfs (by simp; omega)
        · split
          · next r heq =>
              obtain ⟨hkeys, hlen⟩ := scanLiteral?_some heq
              exact .ok hkeys hlen
          · exact scans_number cs
      · unfold scanItems
        refine (hvalue cs (by omega)).bind fun x rest hx hrest => ?_
        have hspaces := length_skipSpaces_le rest
        dsimp only
        split
        · next rest' heq =>
            rw [heq, List.length_cons] at hspaces
            refine .ok (fun y hy => ?_) (by omega)
            rw [List.mem_singleton.mp hy]
            exact hx
        · next more heq =>
            rw [heq, List.length_cons] at hspaces
            have hmore := length_skipSpaces_le more
            refine (hitems (skipSpaces more) (by omega)).bind fun xs rest' hxs hrest' => ?_
            exact .ok (List.forall_mem_cons.mpr ⟨hx, hxs⟩) (show rest'.length < _ by omega)
        · exact .error nofun
      · unfold scanFields
        split
        · next cs =>
            rw [List.length_cons] at hfuel
            refine (scans_string cs).bind fun k rest _ hrest => ?_
            have hcolon := length_skipSpaces_le rest
            dsimp only
            split
            · next colon heq =>
                rw [heq, List.length_cons] at hcolon
                have hstart := length_skipSpaces_le colon
                refine (hvalue (skipSpaces colon) (by omega)).bind fun v behind hv hbehind => ?_
                have hspaces := length_skipSpaces_le behind
                have hset := distinctKeys_set (k := k) hfs hv
                dsimp only
                split
                · next rest' heq' =>
                    rw [heq', List.length_cons] at hspaces
                    exact .ok hset (by simp; omega)
                · next more heq' =>
                    rw [heq', List.length_cons] at hspaces
                    have hmore := length_skipSpaces_le more
                    exact (hfields _ (skipSpaces more) hset (by omega)).mono (by simp; omega)
                · exact .error nofun
            · exact .error nofun
        · exact .error nofun

/-- The fuel is enough for any text, and no object that is read has a key twice. -/
theorem scanText_spec (cs : List Char) :
    scanText cs ≠ .error .fuel ∧ ∀ v, scanText cs = .ok v → v.distinctKeys = true := by
  have hspaces := length_skipSpaces_le cs
  obtain ⟨hfuel, hok⟩ := (scans_values (2 * cs.length + 1)).1 (skipSpaces cs) (by omega)
  unfold scanText
  cases hscan : scanValue (2 * cs.length + 1) (skipSpaces cs) with
  | error e =>
      rw [hscan] at hfuel
      exact ⟨fun h => hfuel (Except.error.inj h ▸ rfl), fun v h => by cases h⟩
  | ok p =>
      obtain ⟨v, rest⟩ := p
      obtain ⟨hkeys, -⟩ := hok v rest hscan
      simp only [bind, Except.bind]
      split
      · refine ⟨fun h => (by cases h), fun v' h => ?_⟩
        rw [← Except.ok.inj h]
        exact hkeys
      · exact ⟨fun h => (by cases h), fun v' h => by cases h⟩

theorem scanText_ne_fuel (cs : List Char) : scanText cs ≠ .error .fuel := (scanText_spec cs).1

theorem characters_ne_fuel (points : List ℕ) : characters points ≠ .error .fuel := by
  unfold characters
  split
  · exact fun h => by cases h
  · exact fun h => by cases h

theorem decodeUtf8_ne_fuel (raw : Bytes) : decodeUtf8 raw ≠ .error .fuel := by
  unfold decodeUtf8
  split
  · exact fun h => by cases h
  · split
    · exact fun h => by cases h
    · exact fun h => by cases h

theorem decode_ne_fuel (raw : Bytes) (encoding : Encoding) : decode raw encoding ≠ .error .fuel := by
  cases encoding with
  | utf8 => exact decodeUtf8_ne_fuel raw
  | utf16 bigEndian =>
      rw [decode]
      cases codeUnits bigEndian raw with
      | some units => exact characters_ne_fuel (pairUp units)
      | none => exact fun h => by cases h
  | utf32 bigEndian =>
      rw [decode]
      cases codePoints bigEndian raw with
      | some points => exact characters_ne_fuel points
      | none => exact fun h => by cases h

theorem loads_ne_fuel (raw : Bytes) : loads raw ≠ .error .fuel := by
  unfold loads
  cases hdecode : decode raw (detectEncoding raw) with
  | ok cs => exact scanText_ne_fuel (dropMark cs)
  | error e =>
      intro h
      cases h
      exact decode_ne_fuel raw (detectEncoding raw) hdecode

/-- What `json.loads` gives has no object with a key twice. -/
theorem distinctKeys_of_loads {raw : Bytes} {v : Json} (h : loads raw = .ok v) :
    v.distinctKeys = true := by
  unfold loads at h
  split at h
  · next cs _ => exact (scanText_spec (dropMark cs)).2 v h
  · cases h

end Py
