/-
  ToolGateway.Policy.IntegerOrder

  Conditions on an integer argument with an integer bound.  `eq` and `ne`
  compare the integers; `lt`, `le`, `gt` and `ge` compare their nearest binary64
  numbers.  The rounding is monotone, so the order can only be lost where two
  integers have one nearest number, which `le` then calls equal and `eq` does
  not.
-/

import ToolGateway.Policy.Compile
import ToolGateway.Python.Binary64

namespace ToolGateway.Policy

open Py

/-- What a condition with this operator and bound says of the argument. -/
def boundHolds (arg : String) (arguments : Fields) (bound : ℤ) (op : Op) : Except PyError Bool :=
  ({ arg := arg, op := op, value := .int bound } : Cond).holds (.dict arguments)

/-- The ordering operators decide the order of an argument `a` and a bound `b`:
    each is exact, one of `lt`, `eq` and `gt` holds, and `le` is `lt` or `eq`. -/
structure DecidesOrder (arg : String) (arguments : Fields) (a b : ℤ) : Prop where
  lt : boundHolds arg arguments b .lt = .ok (a < b)
  le : boundHolds arg arguments b .le = .ok (a ≤ b)
  gt : boundHolds arg arguments b .gt = .ok (b < a)
  ge : boundHolds arg arguments b .ge = .ok (b ≤ a)
  trichotomy : ∃! op, op ∈ [Op.lt, .eq, .gt] ∧ boundHolds arg arguments b op = .ok true
  le_iff : boundHolds arg arguments b .le = .ok true ↔
    boundHolds arg arguments b .lt = .ok true ∨ boundHolds arg arguments b .eq = .ok true

section
variable {arg : String} {arguments : Fields} {a b : ℤ}

theorem boundHolds_eq_failClosed (harg : arguments.lookup arg = some (.int a)) (op : Op) :
    boundHolds arg arguments b op = failClosed (op.apply (.int a) (.int b)) := by
  simp only [boundHolds, Cond.holds, harg]

theorem boundHolds_eq (harg : arguments.lookup arg = some (.int a)) :
    boundHolds arg arguments b .eq = .ok (a = b) := by
  have heq : Json.eq (.int a) (.int b) = decide (a = b) := by
    simp only [Json.eq, Json.num?, Float64.eq, beq_eq_decide, Int.cast_inj]
  rw [boundHolds_eq_failClosed harg, Op.apply, heq]
  rfl

/-- Within the range an ordering operator compares the nearest numbers. -/
theorem failClosed_compareNum {cmp : Float64 → Float64 → Bool} (ha : ¬ PastBinary64 a)
    (hb : ¬ PastBinary64 b) :
    failClosed (Op.compareNum cmp (.int a) (.int b))
      = .ok (cmp (.fin (nearest a)) (.fin (nearest b))) := by
  simp only [Op.compareNum, Json.toFloat, floatOfInt_of_not_past ha, floatOfInt_of_not_past hb,
    failClosed]

/-- Past the range it does not return. -/
theorem failClosed_compareNum_past {cmp : Float64 → Float64 → Bool}
    (h : PastBinary64 a ∨ PastBinary64 b) (r : Bool) :
    failClosed (Op.compareNum cmp (.int a) (.int b)) ≠ .ok r := by
  have hover : Op.compareNum cmp (.int a) (.int b) = .error .overflowError := by
    unfold Op.compareNum
    by_cases ha : PastBinary64 a
    · simp only [Json.toFloat, (floatOfInt_eq_error_iff a).mpr ⟨ha, rfl⟩]
    · have hb := h.resolve_left ha
      simp only [Json.toFloat, floatOfInt_of_not_past ha, (floatOfInt_eq_error_iff b).mpr ⟨hb, rfl⟩]
  rw [hover]
  exact fun h => by cases h

/-- Two integers whose nearest numbers differ are ordered as these are. -/
theorem nearest_lt_nearest_iff (h : a = b ∨ nearest a ≠ nearest b) :
    nearest a < nearest b ↔ a < b := by
  constructor
  · intro hlt
    by_contra hge
    have hmono : nearest b ≤ nearest a := nearest_mono (by exact_mod_cast not_lt.mp hge)
    exact absurd hlt (not_lt.mpr hmono)
  · intro hlt
    have hmono : nearest a ≤ nearest b := nearest_mono (by exact_mod_cast hlt.le)
    exact lt_of_le_of_ne hmono (h.resolve_left hlt.ne)

/-- Exact ordering operators agree with `eq`. -/
theorem DecidesOrder.of_exact (harg : arguments.lookup arg = some (.int a))
    (hlt : boundHolds arg arguments b .lt = .ok (a < b))
    (hle : boundHolds arg arguments b .le = .ok (a ≤ b))
    (hgt : boundHolds arg arguments b .gt = .ok (b < a))
    (hge : boundHolds arg arguments b .ge = .ok (b ≤ a)) : DecidesOrder arg arguments a b := by
  have heq := boundHolds_eq (b := b) harg
  refine ⟨hlt, hle, hgt, hge, ?_, ?_⟩
  · simp only [List.mem_cons, List.not_mem_nil, or_false]
    rcases lt_trichotomy a b with hab | hab | hab
    · refine ⟨.lt, ⟨Or.inl rfl, by simp [hlt, hab]⟩, ?_⟩
      rintro op ⟨rfl | rfl | rfl, hop⟩
      · rfl
      · simp [heq, hab.ne] at hop
      · simp [hgt, hab.not_gt] at hop
    · refine ⟨.eq, ⟨Or.inr (Or.inl rfl), by simp [heq, hab]⟩, ?_⟩
      rintro op ⟨rfl | rfl | rfl, hop⟩
      · simp [hlt, hab] at hop
      · rfl
      · simp [hgt, hab] at hop
    · refine ⟨.gt, ⟨Or.inr (Or.inr rfl), by simp [hgt, hab]⟩, ?_⟩
      rintro op ⟨rfl | rfl | rfl, hop⟩
      · simp [hlt, hab.not_gt] at hop
      · simp [heq, hab.ne'] at hop
      · rfl
  · rw [hle, hlt, heq]
    simp [le_iff_lt_or_eq]

/-- The conditions decide the order of two integers exactly when both are within
    the binary64 range and, unless they are equal, have different nearest
    numbers. -/
theorem decidesOrder_iff (harg : arguments.lookup arg = some (.int a)) :
    DecidesOrder arg arguments a b ↔
      ¬ PastBinary64 a ∧ ¬ PastBinary64 b ∧ (a = b ∨ nearest a ≠ nearest b) := by
  constructor
  · intro h
    have hlt := h.lt
    have hgt := h.gt
    rw [boundHolds_eq_failClosed harg] at hlt hgt
    have hin : ¬ (PastBinary64 a ∨ PastBinary64 b) := fun hpast =>
      failClosed_compareNum_past hpast _ hlt
    obtain ⟨ha, hb⟩ := not_or.mp hin
    refine ⟨ha, hb, ?_⟩
    simp only [Op.apply, failClosed_compareNum ha hb, Float64.lt, Except.ok.injEq,
      decide_eq_decide] at hlt hgt
    rcases lt_trichotomy a b with hab | hab | hab
    · exact Or.inr (hlt.mpr hab).ne
    · exact Or.inl hab
    · exact Or.inr (hgt.mpr hab).ne'
  · rintro ⟨ha, hb, hne⟩
    have hlt := nearest_lt_nearest_iff hne
    have hgt := nearest_lt_nearest_iff (hne.imp Eq.symm Ne.symm)
    refine .of_exact harg ?_ ?_ ?_ ?_
    · rw [boundHolds_eq_failClosed harg, Op.apply, failClosed_compareNum ha hb, Float64.lt]
      simp only [hlt]
    · rw [boundHolds_eq_failClosed harg, Op.apply, failClosed_compareNum ha hb, Float64.le]
      simp only [← not_lt, hgt]
    · rw [boundHolds_eq_failClosed harg, Op.apply, failClosed_compareNum ha hb, Float64.lt]
      simp only [hgt]
    · rw [boundHolds_eq_failClosed harg, Op.apply, failClosed_compareNum ha hb, Float64.le]
      simp only [← not_lt, hlt]

end

-- ============================================================================
-- Small integers, and the first two that share a nearest number
-- ============================================================================

theorem not_pastBinary64_of_abs_lt {n : ℤ} (hn : |n| < 2 ^ 53) : ¬ PastBinary64 n := by
  intro hpast
  have hfloat := (floatOfInt_eq_error_iff n).mpr ⟨hpast, rfl⟩
  rw [floatOfInt_of_abs_lt hn] at hfloat
  cases hfloat

/-- An amount of 5 against a bound of 10. -/
theorem decidesOrder_five_ten : DecidesOrder "amount" [("amount", .int 5)] 5 10 := by
  refine (decidesOrder_iff rfl).mpr ⟨?_, ?_, Or.inr ?_⟩
  · exact not_pastBinary64_of_abs_lt (by norm_num)
  · exact not_pastBinary64_of_abs_lt (by norm_num)
  · rw [nearest_intCast (by norm_num), nearest_intCast (by norm_num)]
    norm_num

/-- From `2 ^ 53` on only every second integer is a binary64 number; the tie
    behind the first one goes down to it. -/
theorem nearest_two_pow_53_succ : nearest ((2 ^ 53 + 1 : ℤ) : ℚ) = nearest ((2 ^ 53 : ℤ) : ℚ) := by
  have hulp : ulpExponent ((2 ^ 53 : ℤ) : ℚ) = 1 :=
    ulpExponent_of_binade (by norm_num) (by norm_num) (by norm_num)
  have hulp' : ulpExponent ((2 ^ 53 + 1 : ℤ) : ℚ) = 1 :=
    ulpExponent_of_binade (by norm_num) (by norm_num) (by norm_num)
  have hround : roundHalfEven (((2 ^ 53 : ℤ) : ℚ) / 2 ^ (1 : ℤ)) = 2 ^ 52 := by
    refine le_antisymm ((roundHalfEven_le_even (by norm_num)).mpr ?_) (le_roundHalfEven ?_)
    · norm_num
    · norm_num
  have hround' : roundHalfEven (((2 ^ 53 + 1 : ℤ) : ℚ) / 2 ^ (1 : ℤ)) = 2 ^ 52 := by
    refine le_antisymm ((roundHalfEven_le_even (by norm_num)).mpr ?_) (le_roundHalfEven ?_)
    · norm_num
    · norm_num
  unfold nearest
  rw [hulp, hulp', hround, hround']

/-- An amount of `2 ^ 53` is not below a bound of `2 ^ 53 + 1`. -/
theorem order_can_be_lost :
    ¬ ∀ (arg : String) (arguments : Fields) (a b : ℤ), arguments.lookup arg = some (.int a) →
      DecidesOrder arg arguments a b := by
  intro law
  have hamount : ([("amount", Json.int (2 ^ 53))] : Fields).lookup "amount"
      = some (.int (2 ^ 53)) := rfl
  have hlt := (law "amount" _ (2 ^ 53) (2 ^ 53 + 1) hamount).lt
  rw [boundHolds_eq_failClosed hamount, Op.apply] at hlt
  by_cases hpast : PastBinary64 (2 ^ 53) ∨ PastBinary64 (2 ^ 53 + 1)
  · exact failClosed_compareNum_past hpast _ hlt
  · obtain ⟨ha, hb⟩ := not_or.mp hpast
    rw [failClosed_compareNum ha hb, nearest_two_pow_53_succ] at hlt
    simp [Float64.lt] at hlt

end ToolGateway.Policy
