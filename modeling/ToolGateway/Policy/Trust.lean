/-
  ToolGateway.Policy.Trust

  Whose annotations a compiled policy trusts.  `compile_policy` iterates over
  whatever stands in `trust_hints_from`; over a bare string that is one glob for
  each of its characters, so a text with a star in it trusts every upstream.
  `agent`, which takes the same shapes, checks for a list first.
-/

import ToolGateway.Policy.Compile

namespace ToolGateway.Policy

open Py

section
variable [PrintTables]

/-- `doc.get("trust_hints_from")` -/
def trustHintsFrom (doc : Json) : Json :=
  match doc with
  | .dict fs => Fields.get fs "trust_hints_from"
  | _ => .null

/-- The globs a document names: each element of a list, a bare string as it is,
    the keys of an object. -/
def namedTrust (doc : Json) : List String :=
  match trustHintsFrom doc with
  | .list xs => xs.map Json.toStr
  | .str s => [s]
  | .dict fs => fs.map Prod.fst
  | _ => []

/-- A character of the text, read as a pattern of its own, matches the id. -/
def MatchedByCharacter (text id : String) : Prop :=
  '*' ∈ text.toList ∨ ∃ x, id.toList = [x] ∧ ('?' ∈ text.toList ∨ x ∈ text.toList)

/-- The trust list of an accepted document is what the iteration yields. -/
theorem compilePolicy_trust {doc : Json} {p : Compiled} (h : compilePolicy doc = .ok p) :
    ∃ globs, (trustHintsFrom doc).iterOrEmpty = .ok globs ∧ p.trust = globs.map Json.toStr := by
  unfold compilePolicy at h
  obtain ⟨_, -, h⟩ := bind_eq_ok.mp h
  obtain ⟨_, -, h⟩ := bind_eq_ok.mp h
  obtain ⟨_, -, h⟩ := bind_eq_ok.mp h
  obtain ⟨_, -, h⟩ := bind_eq_ok.mp h
  obtain ⟨_, -, h⟩ := bind_eq_ok.mp h
  obtain ⟨value, hvalue, h⟩ := bind_eq_ok.mp h
  obtain ⟨globs, hglobs, h⟩ := bind_eq_ok.mp h
  have hfield : value = trustHintsFrom doc := by
    cases doc with
    | dict fs => exact (Except.ok.inj hvalue).symm
    | null | bool | int | float | str | list => cases hvalue
  refine ⟨globs, ?_, ?_⟩
  · rw [← hfield]
    exact access_eq_ok.mp hglobs
  · rw [← Except.ok.inj h]

/-- An accepted document that does not write a bare string names its whole
    trust list. -/
theorem trust_eq_named {doc : Json} {p : Compiled} (h : compilePolicy doc = .ok p)
    (hbare : ∀ text, trustHintsFrom doc ≠ .str text) : p.trust ⊆ namedTrust doc := by
  obtain ⟨globs, hiter, htrust⟩ := compilePolicy_trust h
  intro g hg
  rw [htrust] at hg
  unfold Json.iterOrEmpty at hiter
  by_cases htruthy : (trustHintsFrom doc).truthy = true
  · rw [if_pos htruthy] at hiter
    unfold namedTrust
    cases hvalue : trustHintsFrom doc with
    | list xs =>
        rw [hvalue] at hiter
        obtain rfl : xs = globs := Except.ok.inj hiter
        exact hg
    | dict fs =>
        rw [hvalue] at hiter
        obtain rfl : fs.map (fun f => Json.str f.1) = globs := Except.ok.inj hiter
        rw [List.map_map] at hg
        exact hg
    | str text => exact absurd hvalue (hbare text)
    | null | bool | int | float => rw [hvalue] at hiter; cases hiter
  · rw [if_neg htruthy] at hiter
    obtain rfl : [] = globs := Except.ok.inj hiter
    cases hg

/-- Over a bare string the trust list is one glob for each character. -/
theorem trusts_bare_string {doc : Json} {p : Compiled} (h : compilePolicy doc = .ok p)
    {text : String} (hbare : trustHintsFrom doc = .str text) (id : String) :
    p.trusts id = true ↔ MatchedByCharacter text id := by
  obtain ⟨globs, hiter, htrust⟩ := compilePolicy_trust h
  have hglobs : p.trust = text.toList.map fun c => String.ofList [c] := by
    rw [hbare] at hiter
    unfold Json.iterOrEmpty at hiter
    by_cases hempty : text = ""
    · rw [if_neg (by simp [Json.truthy, hempty])] at hiter
      rw [htrust, ← Except.ok.inj hiter, hempty]
      rfl
    · rw [if_pos (by simp [Json.truthy, hempty])] at hiter
      rw [htrust, ← Except.ok.inj hiter, List.map_map]
      rfl
  have hany : p.trusts id = true ↔
      ∃ c ∈ text.toList, c = '*' ∨ ∃ x, id.toList = [x] ∧ (c = '?' ∨ c = x) := by
    simp only [Compiled.trusts, hglobs, List.any_map, List.any_eq_true, Function.comp,
      fnmatchcase_singleton]
  rw [hany]
  constructor
  · rintro ⟨c, hc, rfl | ⟨x, hid, rfl | rfl⟩⟩
    · exact Or.inl hc
    · exact Or.inr ⟨x, hid, Or.inl hc⟩
    · exact Or.inr ⟨c, hid, Or.inr hc⟩
  · rintro (hstar | ⟨x, hid, hmark | hx⟩)
    · exact ⟨'*', hstar, Or.inl rfl⟩
    · exact ⟨'?', hmark, Or.inr ⟨x, hid, Or.inl rfl⟩⟩
    · exact ⟨x, hx, Or.inr ⟨x, hid, Or.inr rfl⟩⟩

/-- Some glob written in `trust_hints_from` matches the id. -/
def Named (doc : Json) (id : String) : Prop :=
  ∃ g ∈ namedTrust doc, fnmatchcase id g = true

/-- The policy trusts an upstream only through a glob the document names, but
    for the ids that a character of a bare string matches and the string does
    not. -/
theorem trusts_only_named_iff {doc : Json} {p : Compiled} (h : compilePolicy doc = .ok p)
    (id : String) :
    (p.trusts id = true → Named doc id) ↔
      ∀ text, trustHintsFrom doc = .str text → MatchedByCharacter text id →
        fnmatchcase id text = true := by
  constructor
  · intro hnamed text hbare hcharacter
    obtain ⟨g, hg, hmatch⟩ := hnamed ((trusts_bare_string h hbare id).mpr hcharacter)
    have hsame : g = text := by simpa [namedTrust, hbare] using hg
    rw [← hsame]
    exact hmatch
  · intro hcondition htrusted
    by_cases hbare : ∃ text, trustHintsFrom doc = .str text
    · obtain ⟨text, htext⟩ := hbare
      have hmatch := hcondition text htext ((trusts_bare_string h htext id).mp htrusted)
      exact ⟨text, by simp [namedTrust, htext], hmatch⟩
    · obtain ⟨g, hg, hmatch⟩ := List.any_eq_true.mp htrusted
      exact ⟨g, trust_eq_named h (fun text htext => hbare ⟨text, htext⟩) hg, hmatch⟩

end

-- ============================================================================
-- One document with a list, one with a bare string
-- ============================================================================

/-- A document that trusts by this value and has no rules. -/
def trusting (value : Json) : Json := .dict [("trust_hints_from", value)]

/-- A list trusts the upstream it names. -/
theorem trusts_only_named_iff_bank :
    ∃ p, @compilePolicy .ascii (trusting (.list [.str "bank"])) = .ok p ∧
      p.trusts "bank" = true ∧ @Named .ascii (trusting (.list [.str "bank"])) "bank" := by
  refine ⟨⟨[], none, ["bank"]⟩, rfl, by decide, ?_⟩
  have hlaw := @trusts_only_named_iff .ascii (trusting (.list [.str "bank"]))
    ⟨[], none, ["bank"]⟩ rfl "bank"
  exact hlaw.mpr (fun text htext => by cases htext) (by decide)

/-- A bare string with a star in it trusts an upstream it does not match. -/
theorem bare_string_trusts_everyone :
    ¬ ∀ (_ : PrintTables) (doc : Json) (p : Compiled), compilePolicy doc = .ok p →
      ∀ id, p.trusts id = true → Named doc id := by
  intro law
  obtain ⟨g, hg, hmatch⟩ := law .ascii (trusting (.str "internal-*"))
    ⟨[], none, ["i", "n", "t", "e", "r", "n", "a", "l", "-", "*"]⟩ rfl "sandbox" (by decide)
  have hsame : g = "internal-*" := List.mem_singleton.mp hg
  rw [hsame] at hmatch
  exact absurd hmatch (by decide)

end ToolGateway.Policy
