import Mathlib.Data.List.Induction
import Mathlib.Tactic.Ring

/-!
# Machinery/BigEndian — natural numbers as big-endian bytes

`beBytes w n` is the low `w` bytes of `n`, the highest first, and `beNat` reads them back.  Each
undoes the other (`beNat_beBytes`, `beBytes_beNat`).

Bytes of the same length are ordered as their numbers are (`lt_iff_beNat_lt`), and a bit of one of
them is a bit of the number (`testBit_beNat`).
-/

namespace Machinery

open List

/-- The number big-endian bytes stand for. -/
def beNat (bytes : List UInt8) : ℕ := bytes.foldl (fun acc b => acc * 256 + b.toNat) 0

/-- The low `w` bytes of a number, the highest first. -/
def beBytes : (w n : ℕ) → List UInt8
  | 0, _ => []
  | w + 1, n => beBytes w (n / 256) ++ [UInt8.ofNat n]

@[simp] lemma beNat_nil : beNat [] = 0 := rfl

lemma beNat_concat (bytes : List UInt8) (b : UInt8) :
    beNat (bytes ++ [b]) = beNat bytes * 256 + b.toNat := by
  rw [beNat, foldl_append, foldl_cons, foldl_nil, beNat]

lemma beNat_cons (b : UInt8) (bytes : List UInt8) :
    beNat (b :: bytes) = b.toNat * 256 ^ bytes.length + beNat bytes := by
  induction bytes using List.reverseRecOn with
  | nil => simp [beNat]
  | append_singleton bytes c ih =>
    rw [← cons_append, beNat_concat, beNat_concat, ih, length_append, length_singleton]
    ring

lemma beNat_lt (bytes : List UInt8) : beNat bytes < 256 ^ bytes.length := by
  induction bytes using List.reverseRecOn with
  | nil => simp
  | append_singleton bytes b ih =>
    have hb := b.toNat_lt
    rw [beNat_concat, length_append, length_singleton]
    omega

@[simp] lemma length_beBytes (w n : ℕ) : (beBytes w n).length = w := by
  induction w generalizing n with
  | zero => rfl
  | succ w ih => rw [beBytes, length_append, ih, length_singleton]

/-- **Reading back the bytes of a number gives its low bytes.** -/
lemma beNat_beBytes (w n : ℕ) : beNat (beBytes w n) = n % 256 ^ w := by
  induction w generalizing n with
  | zero => rw [beBytes, beNat_nil, pow_zero, Nat.mod_one]
  | succ w ih =>
    rw [beBytes, beNat_concat, ih, UInt8.toNat_ofNat', pow_succ' 256 w, Nat.mod_mul]
    omega

lemma beNat_beBytes_of_lt {w n} (h : n < 256 ^ w) : beNat (beBytes w n) = n := by
  rw [beNat_beBytes, Nat.mod_eq_of_lt h]

/-- **The bytes of the number some bytes stand for are those bytes.** -/
lemma beBytes_beNat (bytes : List UInt8) : beBytes bytes.length (beNat bytes) = bytes := by
  induction bytes using List.reverseRecOn with
  | nil => rfl
  | append_singleton bytes b ih =>
    have hb := b.toNat_lt
    rw [length_append, length_singleton, beBytes, beNat_concat]
    congr 1
    · rw [show (beNat bytes * 256 + b.toNat) / 256 = beNat bytes by omega, ih]
    · rw [singleton_inj, ← UInt8.toNat_inj, UInt8.toNat_ofNat']
      omega

variable {bytes bytes' : List UInt8}

lemma beNat_injective (hlen : bytes.length = bytes'.length)
    (h : beNat bytes = beNat bytes') : bytes = bytes' := by
  rw [← beBytes_beNat bytes, hlen, h, beBytes_beNat]

/-! ## Order -/

lemma lt_iff_beNat_lt (hlen : bytes.length = bytes'.length) :
    bytes < bytes' ↔ beNat bytes < beNat bytes' := by
  induction bytes generalizing bytes' with
  | nil =>
    obtain rfl := eq_nil_of_length_eq_zero hlen.symm
    simp
  | cons b bytes ih =>
    cases bytes' with
    | nil => cases hlen
    | cons c bytes' =>
      have hrest : bytes.length = bytes'.length := Nat.succ.inj hlen
      have hlt := beNat_lt bytes
      have hlt' := beNat_lt bytes'
      rw [cons_lt_cons_iff, ih hrest, beNat_cons, beNat_cons, ← hrest, UInt8.lt_iff_toNat_lt,
        ← UInt8.toNat_inj]
      rw [← hrest] at hlt'
      rcases Nat.lt_trichotomy b.toNat c.toNat with h | h | h
      · have hle : (b.toNat + 1) * 256 ^ bytes.length ≤ c.toNat * 256 ^ bytes.length :=
          Nat.mul_le_mul_right _ h
        rw [Nat.add_mul] at hle
        omega
      · rw [h]
        omega
      · have hle : (c.toNat + 1) * 256 ^ bytes.length ≤ b.toNat * 256 ^ bytes.length :=
          Nat.mul_le_mul_right _ h
        rw [Nat.add_mul] at hle
        omega

/-! ## Single bytes -/

lemma beNat_append (bytes bytes' : List UInt8) :
    beNat (bytes ++ bytes') = beNat bytes * 256 ^ bytes'.length + beNat bytes' := by
  induction bytes with
  | nil => simp
  | cons b bytes ih =>
    rw [cons_append, beNat_cons, beNat_cons, ih, length_append]
    ring

/-- The byte at `i`, between those above and those below it. -/
lemma beNat_eq_of_getElem? {bytes i b} (h : bytes[i]? = some b) :
    beNat bytes = beNat (bytes.take i) * 256 ^ (bytes.length - i) +
      (b.toNat * 256 ^ (bytes.length - i - 1) + beNat (bytes.drop (i + 1))) := by
  obtain ⟨hi, rfl⟩ := List.getElem?_eq_some_iff.mp h
  have hsplit : bytes = bytes.take i ++ bytes[i] :: bytes.drop (i + 1) := by
    rw [← drop_eq_getElem_cons hi, take_append_drop]
  conv_lhs => rw [hsplit]
  rw [beNat_append, beNat_cons, length_cons, length_drop,
    show bytes.length - (i + 1) + 1 = bytes.length - i by omega, Nat.sub_sub]

/-- **A bit of a byte is a bit of the number.** -/
lemma testBit_beNat {bytes i b} (h : bytes[i]? = some b) {j}
    (hj : j < 8) : (beNat bytes).testBit (8 * (bytes.length - i - 1) + j) = b.toNat.testBit j := by
  obtain ⟨hi, rfl⟩ := List.getElem?_eq_some_iff.mp h
  have hlow := beNat_lt (bytes.drop (i + 1))
  have hpow : ∀ k, 256 ^ k = 2 ^ (8 * k) := fun k => by rw [pow_mul]; rfl
  rw [length_drop, Nat.sub_add_eq, hpow] at hlow
  have heq : beNat bytes = 2 ^ (8 * (bytes.length - i - 1)) *
      (2 ^ 8 * beNat (bytes.take i) + bytes[i].toNat) + beNat (bytes.drop (i + 1)) := by
    rw [beNat_eq_of_getElem? h, show bytes.length - i = bytes.length - i - 1 + 1 by omega,
      pow_succ, Nat.add_sub_cancel, hpow]
    ring
  rw [heq, Nat.testBit_two_pow_mul_add _ hlow, if_neg (by omega), Nat.add_sub_cancel_left,
    Nat.testBit_two_pow_mul_add _ bytes[i].toNat_lt, if_pos hj]

end Machinery
