/-
  ToolGateway.Python.Binary64

  The nearest-even conversion to binary64 as a function of the number it
  converts: odd, monotone, and past the largest finite number from
  `2 ^ 1024 - 2 ^ 970` on.

  On one binade the conversion rounds multiples of one unit, so it is as monotone
  as the rounding to integers; a power of two between two binades is a number of
  both and keeps their results apart.
-/

import ToolGateway.Python.Value
import Mathlib.Algebra.Order.Field.Power
import Mathlib.Tactic.Linarith
import Mathlib.Tactic.Ring

namespace Py

-- ============================================================================
-- Rounding to an integer
-- ============================================================================

/-- Where a number lies between two integers, and what it rounds to there. -/
theorem roundHalfEven_cases (q : ℚ) :
    ∃ f : ℤ, (f : ℚ) ≤ q ∧ q < f + 1 ∧
      ((q < f + 1 / 2 ∧ roundHalfEven q = f) ∨ (f + 1 / 2 < q ∧ roundHalfEven q = f + 1) ∨
        (q = f + 1 / 2 ∧ roundHalfEven q = f + f % 2)) := by
  have hlow := Int.floor_le q
  have hhigh := Int.lt_floor_add_one q
  refine ⟨⌊q⌋, hlow, hhigh, ?_⟩
  unfold roundHalfEven
  rcases lt_trichotomy (q - ⌊q⌋) (1 / 2) with hlt | heq | hgt
  · refine Or.inl ⟨by linarith, ?_⟩
    simp only [if_pos hlt]
  · refine Or.inr (Or.inr ⟨by linarith, ?_⟩)
    simp only [heq, lt_irrefl, if_false]
    split <;> omega
  · refine Or.inr (Or.inl ⟨by linarith, ?_⟩)
    simp only [if_neg (not_lt_of_gt hgt), if_pos hgt]

theorem le_roundHalfEven {q : ℚ} {m : ℤ} (h : (m : ℚ) ≤ q) : m ≤ roundHalfEven q := by
  obtain ⟨f, hlow, hhigh, hround⟩ := roundHalfEven_cases q
  have hm : m < f + 1 := by exact_mod_cast lt_of_le_of_lt h hhigh
  omega

theorem roundHalfEven_le {q : ℚ} {m : ℤ} (h : q ≤ m) : roundHalfEven q ≤ m := by
  obtain ⟨f, hlow, hhigh, hround⟩ := roundHalfEven_cases q
  have hf : f ≤ m := by exact_mod_cast hlow.trans h
  rcases hround with ⟨-, hr⟩ | ⟨hq, hr⟩ | ⟨hq, hr⟩
  · omega
  · have hne : f ≠ m := by
      rintro rfl
      linarith
    omega
  · have hne : f ≠ m := by
      rintro rfl
      linarith
    omega

theorem roundHalfEven_mono {p q : ℚ} (h : p ≤ q) : roundHalfEven p ≤ roundHalfEven q := by
  obtain ⟨f, hplow, hphigh, hp⟩ := roundHalfEven_cases p
  obtain ⟨g, hqlow, hqhigh, hq⟩ := roundHalfEven_cases q
  have hfg : f < g + 1 := by exact_mod_cast lt_of_le_of_lt hplow (lt_of_le_of_lt h hqhigh)
  rcases Int.lt_add_one_iff.mp hfg |>.lt_or_eq with hlt | rfl
  · omega
  · rcases hp with ⟨hp, hrp⟩ | ⟨hp, hrp⟩ | ⟨hp, hrp⟩ <;>
      rcases hq with ⟨hq, hrq⟩ | ⟨hq, hrq⟩ | ⟨hq, hrq⟩ <;>
      first | omega | linarith

theorem roundHalfEven_neg (q : ℚ) : roundHalfEven (-q) = -roundHalfEven q := by
  obtain ⟨f, hlow, hhigh, hq⟩ := roundHalfEven_cases q
  obtain ⟨g, hnlow, hnhigh, hn⟩ := roundHalfEven_cases (-q)
  have hsum : g + f ≤ 0 := by
    have hcast : ((g + f : ℤ) : ℚ) ≤ 0 := by push_cast; linarith
    exact_mod_cast hcast
  have hsum' : -2 < g + f := by
    have hcast : (-2 : ℚ) < ((g + f : ℤ) : ℚ) := by push_cast; linarith
    exact_mod_cast hcast
  rcases (show g = -f ∨ g = -f - 1 by omega) with rfl | rfl
  · push_cast at hn hnlow hnhigh
    rcases hq with ⟨hq, hrq⟩ | ⟨hq, hrq⟩ | ⟨hq, hrq⟩ <;>
      rcases hn with ⟨hn, hrn⟩ | ⟨hn, hrn⟩ | ⟨hn, hrn⟩ <;>
      first | omega | linarith
  · push_cast at hn hnlow hnhigh
    rcases hq with ⟨hq, hrq⟩ | ⟨hq, hrq⟩ | ⟨hq, hrq⟩ <;>
      rcases hn with ⟨hn, hrn⟩ | ⟨hn, hrn⟩ | ⟨hn, hrn⟩ <;>
      first | omega | linarith

/-- The tie below an even integer goes up to it. -/
theorem even_le_roundHalfEven {q : ℚ} {m : ℤ} (hm : m % 2 = 0) :
    m ≤ roundHalfEven q ↔ (m : ℚ) - 1 / 2 ≤ q := by
  obtain ⟨f, hlow, hhigh, hq⟩ := roundHalfEven_cases q
  constructor
  · intro h
    rcases hq with ⟨hq, hr⟩ | ⟨hq, hr⟩ | ⟨hq, hr⟩
    · have hcast : (m : ℚ) ≤ f := by exact_mod_cast (show m ≤ f by omega)
      linarith
    · have hcast : (m : ℚ) ≤ f + 1 := by exact_mod_cast (show m ≤ f + 1 by omega)
      linarith
    · have hcast : (m : ℚ) ≤ f + 1 := by exact_mod_cast (show m ≤ f + 1 by omega)
      linarith
  · intro h
    have hmf : m ≤ f + 1 := by
      have hcast : (m : ℚ) < ((f + 2 : ℤ) : ℚ) := by push_cast; linarith
      have hlt : m < f + 2 := by exact_mod_cast hcast
      omega
    rcases hmf.lt_or_eq with hlt | rfl
    · omega
    · push_cast at h
      rcases hq with ⟨hq, hr⟩ | ⟨hq, hr⟩ | ⟨hq, hr⟩
      · linarith
      · omega
      · omega

/-- The tie above an even integer goes down to it. -/
theorem roundHalfEven_le_even {q : ℚ} {m : ℤ} (hm : m % 2 = 0) :
    roundHalfEven q ≤ m ↔ q ≤ (m : ℚ) + 1 / 2 := by
  have hneg := even_le_roundHalfEven (q := -q) (m := -m) (by omega)
  rw [roundHalfEven_neg, neg_le_neg_iff, Int.cast_neg] at hneg
  rw [hneg]
  constructor <;> intro hle <;> linarith

-- ============================================================================
-- Rounding to 53 bits
-- ============================================================================

/-- The conversion before the range is checked. -/
def nearest (q : ℚ) : ℚ := roundHalfEven (q / 2 ^ ulpExponent q) * 2 ^ ulpExponent q

theorem roundBinary64_eq (q : ℚ) :
    roundBinary64 q = if |nearest q| < 2 ^ 1024 then some (nearest q) else none := by
  unfold roundBinary64
  by_cases h0 : q = 0
  · have hzero : nearest q = 0 := by
      have hround : roundHalfEven ((0 : ℤ) : ℚ) = 0 := roundHalfEven_intCast 0
      simp [nearest, h0] at hround ⊢
      exact Or.inl hround
    rw [if_pos h0, hzero, abs_zero, if_pos (by positivity)]
  · rw [if_neg h0]
    rfl

theorem ulpExponent_neg (q : ℚ) : ulpExponent (-q) = ulpExponent q := by
  unfold ulpExponent
  rw [abs_neg]

theorem nearest_neg (q : ℚ) : nearest (-q) = -nearest q := by
  unfold nearest
  rw [ulpExponent_neg, neg_div, roundHalfEven_neg]
  push_cast
  ring

/-- A power of two that is a whole number of units bounds the conversion from
    below when it bounds the number. -/
theorem zpow_le_nearest {q : ℚ} {k : ℤ} (hk : ulpExponent q ≤ k) (h : (2 : ℚ) ^ k ≤ q) :
    (2 : ℚ) ^ k ≤ nearest q := by
  obtain ⟨n, hn⟩ := Int.le.dest hk
  have hsplit : (2 : ℚ) ^ k = ((2 ^ n : ℤ) : ℚ) * 2 ^ ulpExponent q := by
    rw [← hn, zpow_add₀ two_ne_zero, zpow_natCast, mul_comm]
    push_cast
    rfl
  have hpos : (0 : ℚ) < 2 ^ ulpExponent q := by positivity
  rw [hsplit] at h ⊢
  have hround : 2 ^ n ≤ roundHalfEven (q / 2 ^ ulpExponent q) :=
    le_roundHalfEven ((le_div_iff₀ hpos).mpr h)
  unfold nearest
  gcongr

theorem nearest_le_zpow {q : ℚ} {k : ℤ} (hk : ulpExponent q ≤ k) (h : q ≤ (2 : ℚ) ^ k) :
    nearest q ≤ (2 : ℚ) ^ k := by
  obtain ⟨n, hn⟩ := Int.le.dest hk
  have hsplit : (2 : ℚ) ^ k = ((2 ^ n : ℤ) : ℚ) * 2 ^ ulpExponent q := by
    rw [← hn, zpow_add₀ two_ne_zero, zpow_natCast, mul_comm]
    push_cast
    rfl
  have hpos : (0 : ℚ) < 2 ^ ulpExponent q := by positivity
  rw [hsplit] at h ⊢
  have hround : roundHalfEven (q / 2 ^ ulpExponent q) ≤ 2 ^ n :=
    roundHalfEven_le ((div_le_iff₀ hpos).mpr h)
  unfold nearest
  gcongr

theorem nearest_nonneg {q : ℚ} (h : 0 ≤ q) : 0 ≤ nearest q := by
  have hround : 0 ≤ roundHalfEven (q / 2 ^ ulpExponent q) := by
    refine le_roundHalfEven ?_
    rw [Int.cast_zero]
    positivity
  unfold nearest
  positivity

/-- Above the subnormals the unit is fixed by the leading bit. -/
theorem lt_zpow_ulpExponent {q : ℚ} (h : 0 < q) : q < 2 ^ (ulpExponent q + 53) := by
  have hlog : q < (2 : ℚ) ^ (Int.log 2 q + 1) := by
    exact_mod_cast Int.lt_zpow_succ_log_self (by norm_num : 1 < 2) q
  have hle : Int.log 2 q + 1 ≤ ulpExponent q + 53 := by
    unfold ulpExponent
    rw [abs_of_pos h]
    omega
  exact lt_of_lt_of_le hlog (zpow_le_zpow_right₀ one_le_two hle)

theorem ulpExponent_mono {p q : ℚ} (hp : 0 < p) (h : p ≤ q) : ulpExponent p ≤ ulpExponent q := by
  have hlog : Int.log 2 p ≤ Int.log 2 q := Int.log_mono_right hp h
  unfold ulpExponent
  rw [abs_of_pos hp, abs_of_pos (hp.trans_le h)]
  omega

/-- The unit of the binade that ends at `2 ^ (k + 53)`. -/
theorem ulpExponent_of_binade {k : ℤ} (hk : -1074 ≤ k) {q : ℚ} (hlow : (2 : ℚ) ^ (k + 52) ≤ q)
    (hhigh : q < 2 ^ (k + 53)) : ulpExponent q = k := by
  have hpos : 0 < q := lt_of_lt_of_le (by positivity) hlow
  have hloglow : k + 52 ≤ Int.log 2 q := (Int.zpow_le_iff_le_log (by norm_num) hpos).mp hlow
  have hloghigh : Int.log 2 q < k + 53 := (Int.lt_zpow_iff_log_lt (by norm_num) hpos).mp hhigh
  unfold ulpExponent
  rw [abs_of_pos hpos]
  omega

/-- In different binades the power of two where the upper one starts lies
    between the two results. -/
theorem nearest_mono_of_pos {p q : ℚ} (hp : 0 < p) (h : p ≤ q) : nearest p ≤ nearest q := by
  have hq : 0 < q := hp.trans_le h
  rcases (ulpExponent_mono hp h).lt_or_eq with hlt | heq
  · have hstart : (2 : ℚ) ^ (ulpExponent q + 52) ≤ q := by
      have hlog : ulpExponent q + 52 = Int.log 2 q := by
        have hlow : -1074 ≤ ulpExponent p := le_max_right _ _
        unfold ulpExponent at hlt hlow ⊢
        rw [abs_of_pos hq] at hlt ⊢
        omega
      rw [hlog]
      exact_mod_cast Int.zpow_log_le_self (by norm_num : 1 < 2) hq
    have hend : p ≤ (2 : ℚ) ^ (ulpExponent q + 52) :=
      (lt_zpow_ulpExponent hp).le.trans (zpow_le_zpow_right₀ one_le_two (by omega))
    exact (nearest_le_zpow (by omega) hend).trans (zpow_le_nearest (by omega) hstart)
  · have hround : roundHalfEven (p / 2 ^ ulpExponent q) ≤ roundHalfEven (q / 2 ^ ulpExponent q) :=
      roundHalfEven_mono (by gcongr)
    unfold nearest
    rw [heq]
    gcongr

theorem nearest_mono {p q : ℚ} (h : p ≤ q) : nearest p ≤ nearest q := by
  rcases lt_or_ge 0 p with hp | hp
  · exact nearest_mono_of_pos hp h
  · have hpneg : nearest p ≤ 0 := by
      have hnonneg := nearest_nonneg (neg_nonneg.mpr hp)
      rw [nearest_neg] at hnonneg
      linarith
    rcases lt_or_ge q 0 with hq | hq
    · have hneg := nearest_mono_of_pos (neg_pos.mpr hq) (neg_le_neg h)
      rw [nearest_neg, nearest_neg] at hneg
      linarith
    · exact hpneg.trans (nearest_nonneg hq)

-- ============================================================================
-- The range
-- ============================================================================

/-- The numbers below a power of two round up to it from half a unit below it
    on; `k` is the exponent of that unit. -/
theorem zpow_le_nearest_iff {k : ℤ} (hk : -1074 ≤ k) {q : ℚ} (h : 0 < q) :
    (2 : ℚ) ^ (k + 53) ≤ nearest q ↔ (2 : ℚ) ^ (k + 53) - 2 ^ (k - 1) ≤ q := by
  have hunit : (2 : ℚ) ^ k = 2 * 2 ^ (k - 1) := by
    rw [← zpow_one_add₀ two_ne_zero]
    congr 1
    omega
  have htop : (2 : ℚ) ^ (k + 53) = ((2 ^ 53 : ℤ) : ℚ) * 2 ^ k := by
    rw [zpow_add₀ two_ne_zero, mul_comm]
    norm_num
  have hbinade : (2 : ℚ) ^ (k + 53) = 2 * 2 ^ (k + 52) := by
    rw [← zpow_one_add₀ two_ne_zero]
    congr 1
    omega
  have hhalf : (2 : ℚ) ^ (k - 1) < 2 ^ (k + 52) := zpow_lt_zpow_right₀ one_lt_two (by omega)
  have hhalfpos : (0 : ℚ) < 2 ^ (k - 1) := by positivity
  rcases lt_or_ge q (2 ^ (k + 52)) with hbelow | hlow
  · have hlog : Int.log 2 q < k + 52 := (Int.lt_zpow_iff_log_lt (by norm_num) h).mp hbelow
    have hulp : ulpExponent q ≤ k + 52 := by
      unfold ulpExponent
      rw [abs_of_pos h]
      omega
    have hrounded := nearest_le_zpow hulp hbelow.le
    constructor <;> intro hle <;> linarith
  · rcases lt_or_ge q (2 ^ (k + 53)) with hin | habove
    · have hulp := ulpExponent_of_binade hk hlow hin
      have hunitpos : (0 : ℚ) < 2 ^ k := by positivity
      unfold nearest
      rw [hulp, htop, mul_le_mul_iff_left₀ hunitpos, Int.cast_le,
        even_le_roundHalfEven (by norm_num), le_div_iff₀ hunitpos]
      have hgap : (((2 ^ 53 : ℤ) : ℚ) - 1 / 2) * 2 ^ k = ((2 ^ 53 : ℤ) : ℚ) * 2 ^ k - 2 ^ (k - 1) := by
        rw [sub_mul, hunit]
        ring
      rw [hgap]
    · have hlog : k + 53 ≤ Int.log 2 q := (Int.zpow_le_iff_le_log (by norm_num) h).mp habove
      have hulp : ulpExponent q ≤ Int.log 2 q := by
        unfold ulpExponent
        rw [abs_of_pos h]
        omega
      have hrounded := zpow_le_nearest hulp (Int.zpow_log_le_self (by norm_num) h)
      have hbig : (2 : ℚ) ^ (k + 53) ≤ 2 ^ Int.log 2 q := zpow_le_zpow_right₀ one_le_two hlog
      constructor <;> intro _ <;> linarith

theorem abs_nearest (q : ℚ) : |nearest q| = nearest |q| := by
  rcases le_total 0 q with hq | hq
  · rw [abs_of_nonneg hq, abs_of_nonneg (nearest_nonneg hq)]
  · have hnonneg := nearest_nonneg (neg_nonneg.mpr hq)
    rw [abs_of_nonpos hq, nearest_neg]
    rw [nearest_neg] at hnonneg
    exact abs_of_nonpos (by linarith)

/-- The conversion overflows from half a unit above the largest number on. -/
theorem roundBinary64_eq_none_iff (q : ℚ) :
    roundBinary64 q = none ↔ (2 : ℚ) ^ 1024 - 2 ^ 970 ≤ |q| := by
  rw [roundBinary64_eq, abs_nearest]
  have hnone : (if nearest |q| < 2 ^ 1024 then some (nearest q) else none) = none ↔
      (2 : ℚ) ^ 1024 ≤ nearest |q| := by
    rw [← not_lt]
    split <;> simp [*]
  rw [hnone]
  rcases (abs_nonneg q).lt_or_eq with hpos | hzero
  · exact zpow_le_nearest_iff (k := 971) (by norm_num) hpos
  · have hnearest : nearest |q| = 0 := by
      have hround := roundHalfEven_intCast 0
      rw [Int.cast_zero] at hround
      rw [← hzero, nearest, zero_div, hround, Int.cast_zero, zero_mul]
    have hgap : (2 : ℚ) ^ 970 < 2 ^ 1024 := pow_lt_pow_right₀ one_lt_two (by norm_num)
    have htop : (0 : ℚ) < 2 ^ 1024 := pow_pos two_pos 1024
    rw [hnearest, ← hzero]
    exact iff_of_false (not_le_of_gt htop) (not_le_of_gt (sub_pos.mpr hgap))

/-- `float(n)` raises OverflowError on an integer this large. -/
def PastBinary64 (n : ℤ) : Prop := 2 ^ 1024 - 2 ^ 970 ≤ |n|

theorem roundBinary64_intCast_eq_none_iff (n : ℤ) :
    roundBinary64 (n : ℚ) = none ↔ PastBinary64 n := by
  rw [roundBinary64_eq_none_iff, ← Int.cast_abs, ← Int.cast_ofNat 2, ← Int.cast_pow,
    ← Int.cast_pow, ← Int.cast_sub, Int.cast_le]
  rfl

theorem floatOfInt_eq_error_iff (n : ℤ) {e : PyError} :
    floatOfInt n = .error e ↔ PastBinary64 n ∧ e = .overflowError := by
  have hiff := roundBinary64_intCast_eq_none_iff n
  unfold floatOfInt
  cases hround : roundBinary64 (n : ℚ) with
  | none => simp [hiff.mp hround, eq_comm]
  | some x => simp [mt hiff.mpr (by simp [hround])]

theorem floatOfInt_of_not_past {n : ℤ} (h : ¬ PastBinary64 n) :
    floatOfInt n = .ok (.fin (nearest n)) := by
  have hiff := roundBinary64_intCast_eq_none_iff n
  have hround := roundBinary64_eq n
  unfold floatOfInt
  split at hround
  · rw [hround]
  · exact absurd (hiff.mp hround) h

/-- Below `2 ^ 53` an integer is its own nearest number. -/
theorem nearest_intCast {n : ℤ} (hn : |n| < 2 ^ 53) : nearest n = n := by
  have hround := roundBinary64_intCast hn
  rw [roundBinary64_eq] at hround
  split at hround
  · exact Option.some.inj hround
  · cases hround

end Py
