import Mathlib.Data.Int.Log
import Mathlib.Data.Rat.Floor
import Mathlib.Tactic.Positivity

/-!
# Machinery/Binary64 — rounding to a double

A double is a rational with 53 significant bits.  `toF64` rounds a rational that is not negative to
the nearest one, ties to the even one, as every arithmetic operation does with its exact result.
The exponent is not bounded: what is rounded here is neither so large nor so small.

* `toF64_natCast` — a natural number of 53 bits is not changed.
* `abs_toF64_sub_le` — below `2 ^ e` the error is at most `2 ^ (e - 54)`.
* `toF64_mono` — rounding keeps the order.
-/

namespace Machinery

/-- The nearest integer, the even one of two that are equally near. -/
def roundEven (x : ℚ) : ℤ :=
  if Int.fract x < 1 / 2 then ⌊x⌋
  else if 1 / 2 < Int.fract x then ⌊x⌋ + 1
  else if ⌊x⌋ % 2 = 0 then ⌊x⌋ else ⌊x⌋ + 1

/-- The double nearest to `x`. -/
def toF64 (x : ℚ) : ℚ := roundEven (x * 2 ^ (52 - Int.log 2 x)) * 2 ^ (Int.log 2 x - 52)

/-! ## The nearest integer -/

/-- **The nearest integer is half a unit away at most.** -/
lemma abs_roundEven_sub_le (x : ℚ) : |(roundEven x : ℚ) - x| ≤ 1 / 2 := by
  have hx := Int.floor_add_fract x
  have hlo := Int.fract_nonneg x
  have hhi := Int.fract_lt_one x
  rw [abs_le, roundEven]
  split
  · constructor <;> linarith
  split
  · push_cast
    constructor <;> linarith
  split
  · constructor <;> linarith
  · push_cast
    constructor <;> linarith

variable {x : ℚ}

/-- An integer less than half a unit away is the nearest one. -/
lemma roundEven_eq_of_abs_lt {n : ℤ} (h : |x - n| < 1 / 2) : roundEven x = n := by
  have hround := abs_le.mp (abs_roundEven_sub_le x)
  obtain ⟨hlo, hhi⟩ := abs_lt.mp h
  have hlt : (roundEven x : ℚ) < n + 1 := by linarith
  have hgt : (n : ℚ) < roundEven x + 1 := by linarith
  have hle : roundEven x ≤ n := Int.lt_add_one_iff.mp (by exact_mod_cast hlt)
  have hge : n ≤ roundEven x := Int.lt_add_one_iff.mp (by exact_mod_cast hgt)
  exact le_antisymm hle hge

lemma roundEven_intCast (n : ℤ) : roundEven n = n := roundEven_eq_of_abs_lt (by norm_num)

lemma floor_le_roundEven (x : ℚ) : ⌊x⌋ ≤ roundEven x := by
  rw [roundEven]
  split
  · exact le_refl _
  · split
    · omega
    · split <;> omega

lemma roundEven_le_floor_add_one (x : ℚ) : roundEven x ≤ ⌊x⌋ + 1 := by
  rw [roundEven]
  split
  · omega
  · split
    · omega
    · split <;> omega

/-- **Rounding keeps the order.** -/
lemma roundEven_mono {x y} (h : x ≤ y) : roundEven x ≤ roundEven y := by
  rcases (Int.floor_le_floor h).lt_or_eq with hlt | heq
  · calc roundEven x ≤ ⌊x⌋ + 1 := roundEven_le_floor_add_one x
      _ ≤ ⌊y⌋ := hlt
      _ ≤ roundEven y := floor_le_roundEven y
  -- between the same two integers it is the fraction that decides
  have hfract : Int.fract x ≤ Int.fract y := by
    rw [Int.fract, Int.fract, heq]
    linarith
  rw [roundEven, roundEven]
  split_ifs <;> first | omega | linarith

/-! ## Doubles -/

lemma two_zpow_pos (e : ℤ) : (0 : ℚ) < 2 ^ e := zpow_pos (by norm_num) e

lemma two_zpow_le {d e : ℤ} (h : d ≤ e) : (2 : ℚ) ^ d ≤ 2 ^ e :=
  zpow_le_zpow_right₀ (by norm_num) h

lemma toF64_zero : toF64 0 = 0 := by
  rw [toF64, zero_mul, ← Int.cast_zero, roundEven_intCast, Int.cast_zero, zero_mul]

/-- Scaling by a power of two and back. -/
lemma mul_zpow_log_cancel (x : ℚ) (e : ℤ) : x * 2 ^ (52 - e) * 2 ^ (e - 52) = x := by
  rw [mul_assoc, ← zpow_add₀ (by norm_num), sub_add_sub_cancel', sub_self, zpow_zero, mul_one]

/-- **A natural number of 53 bits is a double.** -/
lemma toF64_natCast {n : ℕ} (hn : n < 2 ^ 53) : toF64 n = n := by
  rcases n.eq_zero_or_pos with rfl | hpos
  · exact_mod_cast toF64_zero
  have hlog : Int.log 2 (n : ℚ) < 53 := by
    refine (Int.lt_zpow_iff_log_lt (by norm_num) (by exact_mod_cast hpos)).mp ?_
    exact_mod_cast hn
  obtain ⟨k, hk⟩ : ∃ k : ℕ, 52 - Int.log 2 (n : ℚ) = k :=
    ⟨(52 - Int.log 2 (n : ℚ)).toNat, by omega⟩
  -- scaled by a power of two it is still a whole number
  have hint : (n : ℚ) * 2 ^ (52 - Int.log 2 (n : ℚ)) = ((n * 2 ^ k : ℤ) : ℚ) := by
    rw [hk]
    push_cast
    rw [zpow_natCast]
  rw [toF64, hint, roundEven_intCast, ← hint, mul_zpow_log_cancel]

/-- **The rounding error**: half a unit of the last of 53 bits. -/
lemma abs_toF64_sub_le {e : ℤ} (hx : 0 ≤ x) (h : x < 2 ^ e) :
    |toF64 x - x| ≤ 2 ^ (e - 54) := by
  rcases hx.eq_or_lt with rfl | hpos
  · rw [toF64_zero, sub_zero]
    exact (two_zpow_pos _).le
  have hlog : Int.log 2 x < e := (Int.lt_zpow_iff_log_lt (by norm_num) hpos).mp h
  have hscaled : toF64 x - x =
      (roundEven (x * 2 ^ (52 - Int.log 2 x)) - x * 2 ^ (52 - Int.log 2 x)) *
        2 ^ (Int.log 2 x - 52) := by
    rw [sub_mul, mul_zpow_log_cancel, toF64]
  calc |toF64 x - x| ≤ 1 / 2 * 2 ^ (Int.log 2 x - 52) := by
        rw [hscaled, abs_mul, abs_of_pos (two_zpow_pos _)]
        exact mul_le_mul_of_nonneg_right (abs_roundEven_sub_le _) (two_zpow_pos _).le
    _ = 2 ^ (Int.log 2 x - 53) := by
        rw [show Int.log 2 x - 52 = Int.log 2 x - 53 + 1 by ring, zpow_add_one₀ (by norm_num)]
        ring
    _ ≤ 2 ^ (e - 54) := two_zpow_le (by omega)

/-- A double lies between the powers of two its number lies between. -/
lemma zpow_log_le_toF64 (hx : 0 < x) : 2 ^ Int.log 2 x ≤ toF64 x := by
  have hlow : (2 : ℚ) ^ Int.log 2 x ≤ x := by
    have := Int.zpow_log_le_self (b := 2) (by norm_num) hx
    simpa using this
  have hscaled : (((2 ^ 52 : ℤ)) : ℚ) ≤ x * 2 ^ (52 - Int.log 2 x) := by
    calc (((2 ^ 52 : ℤ)) : ℚ) = 2 ^ Int.log 2 x * 2 ^ (52 - Int.log 2 x) := by
          rw [← zpow_add₀ (by norm_num)]
          norm_num
      _ ≤ x * 2 ^ (52 - Int.log 2 x) := mul_le_mul_of_nonneg_right hlow (two_zpow_pos _).le
  have hround := roundEven_mono hscaled
  rw [roundEven_intCast] at hround
  calc (2 : ℚ) ^ Int.log 2 x = ((2 ^ 52 : ℤ) : ℚ) * 2 ^ (Int.log 2 x - 52) := by
        rw [show Int.log 2 x = 52 + (Int.log 2 x - 52) by ring, zpow_add₀ (by norm_num)]
        norm_num
    _ ≤ toF64 x := mul_le_mul_of_nonneg_right (by exact_mod_cast hround) (two_zpow_pos _).le

@[inherit_doc zpow_log_le_toF64]
lemma toF64_le_zpow_log_succ (x : ℚ) : toF64 x ≤ 2 ^ (Int.log 2 x + 1) := by
  have hhigh : x < 2 ^ (Int.log 2 x + 1) := by
    have := Int.lt_zpow_succ_log_self (b := 2) (by norm_num) x
    simpa using this
  have hscaled : x * 2 ^ (52 - Int.log 2 x) ≤ ((2 ^ 53 : ℤ) : ℚ) := by
    calc x * 2 ^ (52 - Int.log 2 x) ≤ 2 ^ (Int.log 2 x + 1) * 2 ^ (52 - Int.log 2 x) :=
          mul_le_mul_of_nonneg_right hhigh.le (two_zpow_pos _).le
      _ = ((2 ^ 53 : ℤ) : ℚ) := by
          rw [← zpow_add₀ (by norm_num), show Int.log 2 x + 1 + (52 - Int.log 2 x) = 53 by ring]
          norm_num
  have hround := roundEven_mono hscaled
  rw [roundEven_intCast] at hround
  calc toF64 x ≤ ((2 ^ 53 : ℤ) : ℚ) * 2 ^ (Int.log 2 x - 52) :=
        mul_le_mul_of_nonneg_right (by exact_mod_cast hround) (two_zpow_pos _).le
    _ = 2 ^ (Int.log 2 x + 1) := by
        rw [show Int.log 2 x + 1 = 53 + (Int.log 2 x - 52) by ring, zpow_add₀ (by norm_num)]
        norm_num

/-- **Rounding to doubles keeps the order.** -/
lemma toF64_mono {x y : ℚ} (hx : 0 ≤ x) (h : x ≤ y) : toF64 x ≤ toF64 y := by
  rcases hx.eq_or_lt with rfl | hpos
  · rcases h.eq_or_lt with rfl | hy
    · exact le_refl _
    · rw [toF64_zero]
      exact (two_zpow_pos _).le.trans (zpow_log_le_toF64 hy)
  · rcases (Int.log_mono_right hpos h).lt_or_eq with hlt | heq
    · calc toF64 x ≤ 2 ^ (Int.log 2 x + 1) := toF64_le_zpow_log_succ x
        _ ≤ 2 ^ Int.log 2 y := two_zpow_le hlt
        _ ≤ toF64 y := zpow_log_le_toF64 (hpos.trans_le h)
    rw [toF64, heq]
    refine mul_le_mul_of_nonneg_right ?_ (two_zpow_pos _).le
    have hscaled := roundEven_mono (mul_le_mul_of_nonneg_right h
      (two_zpow_pos (52 - Int.log 2 y)).le)
    exact_mod_cast hscaled

lemma toF64_nonneg (hx : 0 ≤ x) : 0 ≤ toF64 x := by
  have h := toF64_mono le_rfl hx
  rwa [toF64_zero] at h

end Machinery
