import Mathlib.Data.Nat.Digits.Lemmas

/-!
# Machinery/Decimal — numbers written in decimal

`decimal n` is the text of a number, in ASCII and without leading zeros, and `decimalInt` that of an
integer.  `fromRadix10` and `fromRadix10Signed` stand for the functions of the `atoi` crate, as far
as their types promise: a number is read in a type of `w` bits, by multiplying and adding in that
type as long as there are digits, so what is read is the number modulo `2 ^ w`, together with how
many bytes it took.  A text that is followed by anything but a digit is read back as it was written,
if the type can hold the number (`fromRadix10_decimal`, `fromRadix10Signed_decimalInt`).
-/

namespace Machinery

open List

/-- A decimal digit in ASCII. -/
def isDigit (b : UInt8) : Bool := 48 ≤ b && b ≤ 57

/-- The value of a digit. -/
def digitValue (b : UInt8) : ℕ := b.toNat - 48

/-- The text of a number. -/
def decimal (n : ℕ) : List UInt8 :=
  if n = 0 then [48] else (Nat.digits 10 n).reverse.map fun d => UInt8.ofNat (48 + d)

/-- The text of an integer. -/
def decimalInt (z : ℤ) : List UInt8 :=
  if z < 0 then 45 :: decimal z.natAbs else decimal z.natAbs

/-- `FromRadix10::from_radix_10` in an unsigned type of `w` bits: the number, and how many bytes it
is written in. -/
def fromRadix10 (w : ℕ) (text : List UInt8) : ℕ × ℕ :=
  let digits := text.takeWhile isDigit
  (digits.foldl (fun number d => (number * 10 + digitValue d) % 2 ^ w) 0, digits.length)

/-- The digits of `text` at their place in a signed type of `w` bits, each times `sign`. -/
def foldSigned (w : ℕ) (sign : ℤ) (text : List UInt8) : ℤ :=
  (text.takeWhile isDigit).foldl
    (fun (number : ℤ) d => Int.bmod (number * 10 + sign * digitValue d) (2 ^ w)) 0

/-- `FromRadix10Signed::from_radix_10_signed` in a signed type of `w` bits, with one sign. -/
def fromRadix10Signed (w : ℕ) (text : List UInt8) : ℤ × ℕ :=
  if text.head? = some 45 then
    (foldSigned w (-1) text.tail, (text.tail.takeWhile isDigit).length + 1)
  else if text.head? = some 43 then
    (foldSigned w 1 text.tail, (text.tail.takeWhile isDigit).length + 1)
  else (foldSigned w 1 text, (text.takeWhile isDigit).length)

/-! ## The text of a number -/

lemma digitValue_ofNat {d} (hd : d < 10) : digitValue (UInt8.ofNat (48 + d)) = d := by
  rw [digitValue, UInt8.toNat_ofNat']
  omega

lemma isDigit_ofNat {d} (hd : d < 10) : isDigit (UInt8.ofNat (48 + d)) := by
  have hval : (UInt8.ofNat (48 + d)).toNat = 48 + d := by
    rw [UInt8.toNat_ofNat', Nat.mod_eq_of_lt (by omega)]
  rw [isDigit, Bool.and_eq_true, decide_eq_true_eq, decide_eq_true_eq, UInt8.le_iff_toNat_le,
    UInt8.le_iff_toNat_le, hval]
  exact ⟨Nat.le_add_right 48 d, show 48 + d ≤ 57 by omega⟩

lemma isDigit_of_mem_decimal {n b} (h : b ∈ decimal n) : isDigit b := by
  rw [decimal] at h
  split at h
  · rw [mem_singleton.mp h]
    rfl
  · obtain ⟨d, hd, rfl⟩ := mem_map.mp h
    exact isDigit_ofNat (Nat.digits_lt_base (by omega) (mem_reverse.mp hd))

variable (n : ℕ)

lemma decimal_ne_nil : decimal n ≠ [] := by
  rw [decimal]
  split
  · exact cons_ne_nil _ _
  · rename_i hn
    rw [Ne, map_eq_nil_iff, reverse_eq_nil_iff, Nat.digits_eq_nil_iff_eq_zero]
    exact hn

lemma decimalInt_ne_nil (z : ℤ) : decimalInt z ≠ [] := by
  rw [decimalInt]
  split
  · exact cons_ne_nil _ _
  · exact decimal_ne_nil _

lemma decimal_length_pos : 0 < (decimal n).length :=
  length_pos_iff.mpr (decimal_ne_nil n)

/-- A number below `10 ^ k` is written in at most `k` digits. -/
lemma length_decimal_le {n k} (hk : 0 < k) (h : n < 10 ^ k) : (decimal n).length ≤ k := by
  rw [decimal]
  split
  · exact hk
  · rw [length_map, length_reverse]
    exact (Nat.digits_length_le_iff (by omega) n).mpr h

/-- **Multiplying and adding the digits gives the number back.** -/
lemma foldl_decimal :
    (decimal n).foldl (fun number d => number * 10 + digitValue d) 0 = n := by
  rw [decimal]
  split
  · subst n
    rfl
  rw [foldl_map, foldl_reverse]
  conv_rhs => rw [← Nat.ofDigits_digits 10 n, Nat.ofDigits_eq_foldr]
  refine foldr_ext _ _ _ fun d hd acc => ?_
  rw [digitValue_ofNat (Nat.digits_lt_base (by omega) hd), Nat.cast_id, Nat.add_comm, Nat.mul_comm]

variable {c : UInt8}

lemma takeWhile_decimal_append (hc : isDigit c = false) (rest : List UInt8) :
    (decimal n ++ c :: rest).takeWhile isDigit = decimal n := by
  rw [takeWhile_append_of_pos fun b hb => isDigit_of_mem_decimal hb,
    takeWhile_cons_of_neg (by simp [hc]), append_nil]

/-! ## Reading it back -/

/-- Reducing at each step reduces the result. -/
lemma foldl_mod (m : ℕ) (digits : List UInt8) (acc : ℕ) :
    digits.foldl (fun number d => (number * 10 + digitValue d) % m) (acc % m) =
      digits.foldl (fun number d => number * 10 + digitValue d) acc % m := by
  induction digits generalizing acc with
  | nil => rfl
  | cons d digits ih =>
    rw [foldl_cons, foldl_cons, ← ih]
    congr 1
    rw [Nat.add_mod, Nat.mul_mod, Nat.mod_mod, ← Nat.mul_mod, ← Nat.add_mod]

lemma foldl_bmod (m : ℕ) (sign : ℤ) (digits : List UInt8) (acc : ℕ) :
    digits.foldl (fun (number : ℤ) d => Int.bmod (number * 10 + sign * digitValue d) m)
        (Int.bmod (sign * acc) m) =
      Int.bmod (sign * (digits.foldl (fun number d => number * 10 + digitValue d) acc : ℕ)) m := by
  induction digits generalizing acc with
  | nil => rfl
  | cons d digits ih =>
    rw [foldl_cons, foldl_cons, ← ih]
    congr 1
    rw [← Int.bmod_add_bmod, Int.bmod_mul_bmod, Int.bmod_add_bmod]
    congr 1
    push_cast
    ring

/-- **A number that fits is read back as it was written.** -/
lemma fromRadix10_decimal {w n} (hn : n < 2 ^ w) (hc : isDigit c = false) (rest : List UInt8) :
    fromRadix10 w (decimal n ++ c :: rest) = (n, (decimal n).length) := by
  rw [fromRadix10, takeWhile_decimal_append n hc rest]
  have hfold := foldl_mod (2 ^ w) (decimal n) 0
  rw [Nat.zero_mod, foldl_decimal, Nat.mod_eq_of_lt hn] at hfold
  rw [hfold]

lemma foldSigned_decimal (w : ℕ) (sign : ℤ) (n : ℕ) (hc : isDigit c = false) (rest : List UInt8) :
    foldSigned w sign (decimal n ++ c :: rest) = Int.bmod (sign * n) (2 ^ w) := by
  have hfold := foldl_bmod (2 ^ w) sign (decimal n) 0
  rw [foldl_decimal, Nat.cast_zero, mul_zero, Int.zero_bmod] at hfold
  rw [foldSigned, takeWhile_decimal_append n hc rest, hfold]

lemma head?_decimal_append_ne {b} (hb : isDigit b = false) (rest : List UInt8) :
    (decimal n ++ rest).head? ≠ some b := by
  obtain ⟨d, ds, hds⟩ := exists_cons_of_ne_nil (decimal_ne_nil n)
  have hd : isDigit d := isDigit_of_mem_decimal (n := n) (by simp [hds])
  intro h
  rw [hds] at h
  rw [Option.some.inj h, hb] at hd
  cases hd

variable {w : ℕ}

lemma bmod_eq_self_iff {z : ℤ} : z.bmod (2 ^ (w + 1)) = z ↔ -2 ^ w ≤ z ∧ z < 2 ^ w := by
  constructor
  · intro h
    have hlo := Int.le_bmod (x := z) (m := 2 ^ (w + 1)) (by positivity)
    have hhi := Int.bmod_lt (x := z) (m := 2 ^ (w + 1)) (by positivity)
    rw [h] at hlo hhi
    push_cast [pow_succ] at hlo hhi
    omega
  · rintro ⟨hlo, hhi⟩
    refine Int.bmod_eq_of_le ?_ ?_ <;> push_cast <;> rw [pow_succ] <;> omega

/-- **An integer that fits is read back as it was written.** -/
lemma fromRadix10Signed_decimalInt {z} (hlo : -2 ^ w ≤ z) (hhi : z < 2 ^ w)
    (hc : isDigit c = false) (rest : List UInt8) :
    fromRadix10Signed (w + 1) (decimalInt z ++ c :: rest) = (z, (decimalInt z).length) := by
  have hbmod : z.bmod (2 ^ (w + 1)) = z := bmod_eq_self_iff.mpr ⟨hlo, hhi⟩
  rw [decimalInt]
  split
  · rename_i hneg
    rw [cons_append, fromRadix10Signed, if_pos head?_cons, tail_cons,
      foldSigned_decimal _ _ _ hc, takeWhile_decimal_append _ hc,
      show (-1 * (z.natAbs : ℤ)) = z by omega, hbmod, length_cons]
  · rename_i hneg
    rw [fromRadix10Signed, if_neg (head?_decimal_append_ne _ (by decide) _),
      if_neg (head?_decimal_append_ne _ (by decide) _), foldSigned_decimal _ _ _ hc,
      takeWhile_decimal_append _ hc, show (1 * (z.natAbs : ℤ)) = z by omega, hbmod]

/-! ## More text behind it -/

variable {text : List UInt8}

lemma takeWhile_append_of_lt
    (h : (text.takeWhile isDigit).length < text.length) (more : List UInt8) :
    (text ++ more).takeWhile isDigit = text.takeWhile isDigit := by
  rw [takeWhile_append, if_neg (Nat.ne_of_lt h)]

lemma fromRadix10_append (h : (fromRadix10 w text).2 < text.length)
    (more : List UInt8) : fromRadix10 w (text ++ more) = fromRadix10 w text := by
  rw [fromRadix10, takeWhile_append_of_lt h more]
  rfl

lemma fromRadix10Signed_append
    (h : (fromRadix10Signed w text).2 < text.length) (more : List UInt8) :
    fromRadix10Signed w (text ++ more) = fromRadix10Signed w text := by
  cases text with
  | nil => exact absurd h (Nat.not_lt_zero _)
  | cons c text =>
    rw [fromRadix10Signed, head?_cons, tail_cons] at h
    rw [fromRadix10Signed, fromRadix10Signed, cons_append, head?_cons, tail_cons,
      head?_cons, tail_cons]
    by_cases hminus : some c = some (45 : UInt8)
    · rw [if_pos hminus] at h
      rw [if_pos hminus, if_pos hminus, foldSigned, foldSigned,
        takeWhile_append_of_lt (Nat.lt_of_succ_lt_succ h)]
    rw [if_neg hminus] at h
    rw [if_neg hminus, if_neg hminus]
    by_cases hplus : some c = some (43 : UInt8)
    · rw [if_pos hplus] at h
      rw [if_pos hplus, if_pos hplus, foldSigned, foldSigned,
        takeWhile_append_of_lt (Nat.lt_of_succ_lt_succ h)]
    · rw [if_neg hplus] at h
      rw [if_neg hplus, if_neg hplus, foldSigned, foldSigned, ← cons_append,
        takeWhile_append_of_lt h]

/-! ## How many bytes are read -/

lemma fromRadix10_snd (w : ℕ) (text : List UInt8) :
    (fromRadix10 w text).2 = (text.takeWhile isDigit).length := rfl

lemma isDigit_head_of_pos (h : 0 < (fromRadix10 w text).2) :
    ∃ c rest, text = c :: rest ∧ isDigit c := by
  cases text with
  | nil => exact absurd h (Nat.lt_irrefl 0)
  | cons c rest =>
    refine ⟨c, rest, rfl, ?_⟩
    by_contra hc
    rw [fromRadix10_snd, takeWhile_cons_of_neg hc] at h
    exact absurd h (Nat.lt_irrefl 0)

/-- A number without a sign can be read with one. -/
lemma fromRadix10Signed_snd_of_pos (h : 0 < (fromRadix10 w text).2)
    (w' : ℕ) : (fromRadix10Signed w' text).2 = (fromRadix10 w text).2 := by
  obtain ⟨c, rest, rfl, hc⟩ := isDigit_head_of_pos h
  have hne : ∀ b, isDigit b = false → (c :: rest).head? ≠ some b := by
    rintro b hb hhead
    rw [Option.some.inj hhead, hb] at hc
    cases hc
  rw [fromRadix10Signed, if_neg (hne 45 (by decide)), if_neg (hne 43 (by decide))]
  rfl

example : decimalInt (-1203) = [45, 49, 50, 48, 51] := by decide

/-! ## Any text

What a text stands for, and what is read of it. -/

/-- The number that a text of digits stands for. -/
def writtenNat (text : List UInt8) : Option ℕ :=
  if text ≠ [] ∧ text.all isDigit then
    some (text.foldl (fun number d => number * 10 + digitValue d) 0)
  else none

/-- The number that digits behind at most one sign stand for. -/
def writtenInt (text : List UInt8) : Option ℤ :=
  if text.head? = some 45 then (writtenNat text.tail).map fun n : ℕ => -(n : ℤ)
  else if text.head? = some 43 then (writtenNat text.tail).map (↑)
  else (writtenNat text).map (↑)

lemma take_length_takeWhile (text : List UInt8) :
    text.take (text.takeWhile isDigit).length = text.takeWhile isDigit :=
  (prefix_iff_eq_take.mp ( takeWhile_prefix _)).symm

lemma fromRadix10_eq_mod (h : 0 < (fromRadix10 w text).2) :
    ∃ n, writtenNat (text.take (fromRadix10 w text).2) = some n ∧
      (fromRadix10 w text).1 = n % 2 ^ w := by
  rw [fromRadix10_snd] at h ⊢
  rw [take_length_takeWhile]
  refine ⟨_, if_pos ⟨length_pos_iff.mp h, all_takeWhile⟩, ?_⟩
  rw [← foldl_mod, Nat.zero_mod]
  rfl

lemma foldSigned_eq_bmod {sign : ℤ} {n} (h : writtenNat (text.takeWhile isDigit) = some n) :
    foldSigned w sign text = Int.bmod (sign * n) (2 ^ w) := by
  obtain ⟨-, ⟨⟩⟩ := Option.ite_none_right_eq_some.mp h
  rw [← foldl_bmod, Nat.cast_zero, mul_zero, Int.zero_bmod]
  rfl

lemma fromRadix10Signed_eq_bmod {z}
    (h : writtenInt (text.take (fromRadix10Signed w text).2) = some z) :
    (fromRadix10Signed w text).1 = z.bmod (2 ^ w) := by
  have hsign : ∀ {sign : ℤ} {digits : List UInt8},
      (writtenNat (digits.take (digits.takeWhile isDigit).length)).map (fun n : ℕ => sign * n) =
          some z →
        foldSigned w sign digits = z.bmod (2 ^ w) := by
    intro sign digits h
    rw [take_length_takeWhile] at h
    obtain ⟨n, hn, rfl⟩ := Option.map_eq_some_iff.mp h
    exact foldSigned_eq_bmod hn
  cases text with
  | nil => cases h
  | cons c rest =>
    rw [fromRadix10Signed, head?_cons, tail_cons] at h ⊢
    split_ifs at h ⊢ with hminus hplus
    · rw [take_succ_cons, writtenInt, head?_cons, if_pos hminus, tail_cons] at h
      exact hsign (by simpa only [neg_one_mul] using h)
    · rw [take_succ_cons, writtenInt, head?_cons, if_neg hminus, if_pos hplus, tail_cons] at h
      exact hsign (by simpa only [one_mul] using h)
    · rw [take_length_takeWhile, writtenInt, head?_takeWhile, head?_cons, if_neg ?_, if_neg ?_,
        ← take_length_takeWhile] at h
      · exact hsign (by simpa only [one_mul] using h)
      · exact fun hc => hplus (Option.filter_eq_some_iff.mp hc).1
      · exact fun hc => hminus (Option.filter_eq_some_iff.mp hc).1

end Machinery
