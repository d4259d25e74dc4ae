import Librtbit.Machinery.Binary64

/-!
# Core/Duration — clock readings and lengths of time

A length of time is a whole number of nanoseconds.  Where the program multiplies one by a factor it
goes through doubles (`mulF64`), which loses nothing as long as the length stays below `2 ^ 20`
seconds, some twelve days (`mulF64_three_eq`).
-/

namespace Librtbit

open Machinery

/-- A monotonic clock reading, in nanoseconds. -/
abbrev Instant : Type := ℕ

/-- A length of time, in nanoseconds. -/
abbrev Duration : Type := ℕ

namespace Duration

/-- `Duration::as_secs_f64`. -/
def asSecsF64 (d : Duration) : ℚ :=
  toF64 (toF64 (d / 10 ^ 9 : ℕ) + toF64 ((d % 10 ^ 9 : ℕ) / 10 ^ 9))

/-- `Duration::from_secs_f64`: the nearest nanosecond, ties to the even one.  The constructor panics
from `2 ^ 64` seconds on; no clock gets there. -/
def fromSecsF64 (secs : ℚ) : Duration := (roundEven (secs * 10 ^ 9)).toNat

/-- `Duration::from_secs_f64(d.as_secs_f64() * factor)`. -/
def mulF64 (d : Duration) (factor : ℕ) : Duration := fromSecsF64 (toF64 (asSecsF64 d * factor))

/-! ## How much is lost -/

lemma asSecsF64_nonneg (d : Duration) : 0 ≤ asSecsF64 d := by
  refine toF64_nonneg (add_nonneg (toF64_nonneg (by positivity)) (toF64_nonneg (by positivity)))

/-- A larger factor gives no shorter time. -/
lemma mulF64_mono (d : Duration) {m n : ℕ} (h : m ≤ n) : mulF64 d m ≤ mulF64 d n := by
  have hcast : (m : ℚ) ≤ n := by exact_mod_cast h
  have hprod : asSecsF64 d * m ≤ asSecsF64 d * n :=
    mul_le_mul_of_nonneg_left hcast (asSecsF64_nonneg d)
  have hround := toF64_mono (mul_nonneg (asSecsF64_nonneg d) (Nat.cast_nonneg m)) hprod
  refine Int.toNat_le_toNat (roundEven_mono ?_)
  exact mul_le_mul_of_nonneg_right hround (by positivity)

/-- **The seconds of a length below `2 ^ 20` seconds**, to a tenth of a nanosecond. -/
theorem abs_asSecsF64_sub_le {d : ℕ} (hd : d < 2 ^ 20 * 10 ^ 9) :
    |asSecsF64 d - d / 10 ^ 9| ≤ 2 ^ (-34 : ℤ) + 2 ^ (-54 : ℤ) := by
  obtain ⟨secs, hsecs⟩ : ∃ secs, secs = d / 10 ^ 9 := ⟨_, rfl⟩
  obtain ⟨nanos, hnanos⟩ : ∃ nanos, nanos = d % 10 ^ 9 := ⟨_, rfl⟩
  have hsecs_lt : secs + 1 ≤ 2 ^ 20 := by omega
  have hnanos_lt : nanos + 1 ≤ 10 ^ 9 := by omega
  have hd' : (d : ℚ) / 10 ^ 9 = secs + nanos / 10 ^ 9 := by
    rw [show d = 10 ^ 9 * secs + nanos by omega]
    push_cast
    ring
  -- the fraction is rounded, the whole seconds are not, and their sum is rounded again
  have hfrac_lt : (nanos : ℚ) / 10 ^ 9 ≤ 1 - 1 / 10 ^ 9 := by
    have : (nanos : ℚ) + 1 ≤ 10 ^ 9 := by exact_mod_cast hnanos_lt
    linarith
  have hfrac := abs_le.mp (abs_toF64_sub_le (x := (nanos : ℚ) / 10 ^ 9) (by positivity)
    (by rw [zpow_zero]; linarith))
  have hwhole : toF64 secs = secs := toF64_natCast (by omega)
  have hsecs_le : (secs : ℚ) + 1 ≤ 2 ^ 20 := by exact_mod_cast hsecs_lt
  have hfrac_nonneg : 0 ≤ toF64 ((nanos : ℚ) / 10 ^ 9) := toF64_nonneg (by positivity)
  norm_num at hfrac hfrac_lt hsecs_le hfrac_nonneg ⊢
  have hsum := abs_le.mp (abs_toF64_sub_le
    (x := secs + toF64 ((nanos : ℚ) / 10 ^ 9)) (e := 20) (by norm_num; positivity)
    (by norm_num; linarith))
  rw [asSecsF64, ← hsecs, ← hnanos, hwhole, abs_le]
  norm_num at hsum hd' ⊢
  constructor <;> linarith

/-- **Three times a length below `2 ^ 20` seconds is exact.** -/
theorem mulF64_three_eq {d : ℕ} (hd : d < 2 ^ 20 * 10 ^ 9) : mulF64 d 3 = 3 * d := by
  have hsecs := abs_le.mp (abs_asSecsF64_sub_le hd)
  have hd' : (d : ℚ) / 10 ^ 9 < 2 ^ 20 := by
    rw [div_lt_iff₀ (by positivity)]
    exact_mod_cast hd
  norm_num at hsecs hd'
  have hprod := abs_le.mp (abs_toF64_sub_le (x := asSecsF64 d * 3) (e := 22)
    (mul_nonneg (asSecsF64_nonneg d) (by norm_num)) (by norm_num; linarith))
  norm_num at hprod
  have hround : roundEven (toF64 (asSecsF64 d * 3) * 10 ^ 9) = (3 * d : ℤ) := by
    refine roundEven_eq_of_abs_lt (abs_lt.mpr ?_)
    push_cast
    constructor <;> linarith
  rw [mulF64, fromSecsF64, Nat.cast_ofNat, hround]
  rfl

end Duration

end Librtbit
