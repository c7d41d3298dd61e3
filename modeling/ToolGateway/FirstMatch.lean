/-
  ToolGateway.FirstMatch

  Ordered rule lists under first-match evaluation, over arbitrary verdicts.

  A rule is a guard and a verdict.  Where some guards are not known yet,
  `may good` asks whether an acceptable verdict can still come out; it walks
  the list once, and `may_iff_exists_fill` says that the answer is exact: it is
  the disjunction over all ways of filling the unknown guards in.
-/

import Mathlib.Data.List.Basic

namespace FirstMatch

variable {δ : Type*}

/-- The verdict of the first rule whose guard holds. -/
def firstMatch (default : δ) : List (Bool × δ) → δ
  | [] => default
  | (g, d) :: rs => if g then d else firstMatch default rs

/-- Fill the unknown guards in, position by position. -/
def fill (rules : List (Option Bool × δ)) (values : List Bool) : List (Bool × δ) :=
  rules.zipWith (fun r v => (r.1.getD v, r.2)) values

/-- Can an acceptable verdict come out? -/
def may (good : δ → Bool) (default : δ) : List (Option Bool × δ) → Bool
  | [] => good default
  | (some g, d) :: rs => if g then good d else may good default rs
  | (none, d) :: rs => good d || may good default rs

@[simp] theorem firstMatch_nil (default : δ) : firstMatch default [] = default := rfl

@[simp] theorem firstMatch_cons (default : δ) (g : Bool) (d : δ) (rs : List (Bool × δ)) :
    firstMatch default ((g, d) :: rs) = if g then d else firstMatch default rs := rfl

@[simp] theorem fill_nil (values : List Bool) : fill ([] : List (Option Bool × δ)) values = [] :=
  rfl

@[simp] theorem fill_cons (k : Option Bool) (d : δ) (rs : List (Option Bool × δ))
    (v : Bool) (vs : List Bool) :
    fill ((k, d) :: rs) (v :: vs) = (k.getD v, d) :: fill rs vs := rfl

/-- What comes out under some filling was possible. -/
theorem may_of_fill {good : δ → Bool} {default : δ} {rules : List (Option Bool × δ)}
    {values : List Bool} (hlen : values.length = rules.length)
    (hgood : good (firstMatch default (fill rules values)) = true) :
    may good default rules = true := by
  induction rules generalizing values with
  | nil => exact hgood
  | cons r rs ih =>
      obtain ⟨k, d⟩ := r
      obtain ⟨v, vs, rfl⟩ := List.exists_cons_of_length_eq_add_one hlen
      have hlen' : vs.length = rs.length := by simpa using hlen
      rw [fill_cons, firstMatch_cons] at hgood
      cases k with
      | none =>
          simp only [may, Bool.or_eq_true]
          cases v with
          | true => exact Or.inl hgood
          | false => exact Or.inr (ih hlen' hgood)
      | some g =>
          cases g with
          | true => exact hgood
          | false => exact ih hlen' hgood

/-- A possible verdict comes out when the unknown guards of the acceptable rules
    hold and those of the others do not. -/
theorem fill_of_may {good : δ → Bool} {default : δ} {rules : List (Option Bool × δ)}
    (hmay : may good default rules = true) :
    good (firstMatch default (fill rules (rules.map fun r => good r.2))) = true := by
  induction rules with
  | nil => exact hmay
  | cons r rs ih =>
      obtain ⟨k, d⟩ := r
      rw [List.map_cons, fill_cons, firstMatch_cons]
      cases k with
      | none =>
          simp only [may, Bool.or_eq_true] at hmay
          by_cases hd : good d = true
          · simp [hd]
          · simpa [hd] using ih (hmay.resolve_left hd)
      | some g =>
          cases g with
          | true => exact hmay
          | false => exact ih hmay

/-- `may` is exact: it holds when some filling gives an acceptable verdict. -/
theorem may_iff_exists_fill {good : δ → Bool} {default : δ} {rules : List (Option Bool × δ)} :
    may good default rules = true ↔
      ∃ values : List Bool, values.length = rules.length ∧
        good (firstMatch default (fill rules values)) = true :=
  ⟨fun h => ⟨_, by simp, fill_of_may h⟩, fun ⟨_, hlen, hgood⟩ => may_of_fill hlen hgood⟩

end FirstMatch
