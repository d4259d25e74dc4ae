import Librtbit.Core.Metainfo
import Librtbit.Machinery.BigEndian

/-!
# Wire/DoubleBuf — a byte string in two slices

`DoubleBufHelper` reads from a string that a ring buffer may have cut in two.  Every operation is
described by what it does to the joined string (`DoubleBuf.join`): what is read, what is left, how
many bytes are missing.  Only `get_contiguous` looks at where the cut is, and a string that lies in
one slice (`Whole`) is not cut.
-/

namespace Librtbit

open Machinery List

/-- `DoubleBufHelper`. -/
structure DoubleBuf where
  buf0 : ByteBuf
  buf1 : ByteBuf
  deriving DecidableEq

namespace DoubleBuf

/-- The string the two slices make up. -/
def join (d : DoubleBuf) : ByteBuf := d.buf0 ++ d.buf1

/-- The string lies in one of the slices. -/
def Whole (d : DoubleBuf) : Prop := d.buf0 = [] ∨ d.buf1 = []
  deriving Decidable

variable (d : DoubleBuf)

def len : ℕ := d.buf0.length + d.buf1.length

def isEmpty : Bool := d.buf0.length == 0 && d.buf1.length == 0

/-- Advance it forward; an offset that is too large empties it. -/
def advance (offset : ℕ) : DoubleBuf :=
  let buf0Adv := min d.buf0.length offset
  let buf1Adv := min (offset - buf0Adv) d.buf1.length
  ⟨d.buf0.drop buf0Adv, d.buf1.drop buf1Adv⟩

/-- `as_ioslices`, which `with_max_len` shares: the first bytes, up to a limit. -/
def asIoslices (lenLimit : ℕ) : DoubleBuf :=
  let buf0Len := min d.buf0.length lenLimit
  let buf1Len := min (lenLimit - buf0Len) d.buf1.length
  ⟨d.buf0.take buf0Len, d.buf1.take buf1Len⟩

def withMaxLen (maxLen : ℕ) : DoubleBuf := d.asIoslices maxLen

/-- Consume `len` bytes and return them as 2 slices; the error is how many bytes are missing. -/
def consumeVariable (len : ℕ) : Except ℕ (DoubleBuf × DoubleBuf) :=
  let available := d.buf0.length + d.buf1.length
  if available < len then .error (len - available)
  else
    let firstLen := min d.buf0.length len
    let secondLen := min (len - firstLen) d.buf1.length
    .ok (⟨d.buf0.take firstLen, d.buf1.take secondLen⟩,
      ⟨d.buf0.drop firstLen, d.buf1.drop secondLen⟩)

/-- Read `n` bytes; the error is how many bytes are missing. -/
def consume (n : ℕ) : Except ℕ (ByteBuf × DoubleBuf) :=
  if n ≤ d.buf0.length then .ok (d.buf0.take n, ⟨d.buf0.drop n, d.buf1⟩)
  else if d.buf0.length = 0 ∧ n ≤ d.buf1.length then
    .ok (d.buf1.take n, ⟨d.buf0, d.buf1.drop n⟩)
  else
    let first := min d.buf0.length n
    let second := min d.buf1.length (n - first)
    let missing := n - first - second
    if missing > 0 then .error missing
    else .ok (d.buf0.take first ++ d.buf1.take second, ⟨d.buf0.drop first, d.buf1.drop second⟩)

/-- Read 4 big endian bytes; the error is how many bytes are missing. -/
def readU32Be : Except ℕ (UInt32 × DoubleBuf) := do
  let (data, d) ← d.consume 4
  return (UInt32.ofNat (beNat data), d)

/-- Read 1 byte and advance. -/
def readU8 : Option (UInt8 × DoubleBuf) :=
  match d.buf0, d.buf1 with
  | b :: buf0, buf1 => some (b, ⟨buf0, buf1⟩)
  | [], b :: buf1 => some (b, ⟨[], buf1⟩)
  | [], [] => none

/-- Get a contiguous slice at the start if it exists. -/
def getContiguous (len : ℕ) : Option ByteBuf :=
  if len ≤ d.buf0.length then some (d.buf0.take len)
  else if d.buf0.length = 0 ∧ len ≤ d.buf1.length then some (d.buf1.take len)
  else none

/-! ## The joined string -/

@[simp] lemma join_mk (a b : ByteBuf) : (⟨a, b⟩ : DoubleBuf).join = a ++ b := rfl

lemma length_join : d.join.length = d.len := length_append

lemma len_eq_of_join_eq {d d' : DoubleBuf} (h : d.join = d'.join) : d.len = d'.len := by
  rw [← length_join, ← length_join, h]

lemma isEmpty_iff : d.isEmpty = true ↔ d.join = [] := by
  simp [isEmpty, join]

variable (n : ℕ)

@[simp] lemma join_advance : (d.advance n).join = d.join.drop n := by
  rw [advance, join_mk, join, drop_append]
  congr 1
  · rw [drop_eq_drop_iff]
    omega
  · rw [drop_eq_drop_iff]
    omega

@[simp] lemma join_asIoslices : (d.asIoslices n).join = d.join.take n := by
  rw [asIoslices, join_mk, join, take_append]
  congr 1
  · rw [take_eq_take_iff]
    omega
  · rw [take_eq_take_iff]
    omega

@[simp] lemma join_withMaxLen : (d.withMaxLen n).join = d.join.take n :=
  d.join_asIoslices n

/-- **`consume_variable` splits the joined string**, or says how much of it is missing. -/
theorem consumeVariable_eq : d.consumeVariable n =
      if n ≤ d.join.length then .ok (d.asIoslices n, d.advance n)
      else .error (n - d.join.length) := by
  rw [consumeVariable, length_join, len]
  by_cases h : n ≤ d.buf0.length + d.buf1.length
  · rw [if_neg (by omega), if_pos h, asIoslices, advance]
  · rw [if_pos (by omega), if_neg h]

/-- **`consume` reads from the joined string**, or says how much of it is missing. -/
theorem consume_eq : d.consume n =
      if n ≤ d.join.length then .ok (d.join.take n, d.advance n)
      else .error (n - d.join.length) := by
  have hjoin : d.join.take n = (d.asIoslices n).join := (d.join_asIoslices n).symm
  rw [consume, length_join, len, hjoin, asIoslices, advance, join_mk]
  split
  · rename_i h
    rw [if_pos (by omega), Nat.min_eq_right h, Nat.sub_self, Nat.zero_min, take_zero,
      append_nil, drop_zero]
  split
  · rename_i h0 h
    rw [if_pos (by omega), h.1, Nat.zero_min, Nat.sub_zero, Nat.min_eq_left h.2, take_zero,
      nil_append, drop_zero]
  · rename_i h0 h
    by_cases hle : n ≤ d.buf0.length + d.buf1.length
    · rw [if_neg (by omega), if_pos hle, Nat.min_comm d.buf1.length]
    · rw [if_pos (by omega), if_neg hle]
      congr 1
      omega

lemma readU32Be_eq : d.readU32Be =
      if 4 ≤ d.join.length then .ok (UInt32.ofNat (beNat (d.join.take 4)), d.advance 4)
      else .error (4 - d.join.length) := by
  rw [readU32Be, consume_eq]
  split <;> rfl

lemma readU8_eq : d.readU8 = d.join.head?.map fun b => (b, d.advance 1) := by
  obtain ⟨buf0, buf1⟩ := d
  cases buf0 with
  | cons b buf0 => simp [readU8, join, advance]
  | nil =>
    cases buf1 with
    | cons b buf1 => simp [readU8, join, advance]
    | nil => rfl

/-- **A slice is contiguous unless it is too long or has bytes on both sides of the cut.** -/
theorem getContiguous_eq (n : ℕ) : d.getContiguous n =
      if d.join.length < n ∨ 0 < d.buf0.length ∧ d.buf0.length < n then none
      else some (d.join.take n) := by
  rw [getContiguous, length_join, len, join]
  split
  · rename_i hle
    rw [if_neg (by omega), take_append_of_le_length hle]
  split
  · rename_i hle
    rw [if_neg (by omega), eq_nil_of_length_eq_zero hle.1, nil_append]
  · rw [if_pos (by omega)]

/-- **A contiguous slice is the beginning of the joined string.** -/
theorem eq_take_of_getContiguous {n : ℕ} {bytes : ByteBuf} (h : d.getContiguous n = some bytes) :
    bytes = d.join.take n := by
  rw [getContiguous_eq] at h
  split at h
  · cases h
  · exact (Option.some.inj h).symm

/-! ## A string in one slice -/

variable {d}

/-- **A string in one slice is contiguous.** -/
theorem Whole.getContiguous_eq (h : d.Whole) {n : ℕ} (hn : n ≤ d.join.length) :
    d.getContiguous n = some (d.join.take n) := by
  rw [d.getContiguous_eq, if_neg]
  rcases h with h | h
  · rw [h, length_nil]
    omega
  · rw [join, h, append_nil] at hn ⊢
    omega

lemma getContiguous_len :
    (⟨w, []⟩ : DoubleBuf).getContiguous (⟨w, []⟩ : DoubleBuf).len = some w := by
  rw [getContiguous, len, length_nil, Nat.add_zero, if_pos (Nat.le_refl _), take_length]

lemma advance_mk_nil (n : ℕ) :
    (⟨w, []⟩ : DoubleBuf).advance n = ⟨w.drop n, []⟩ := by
  have hdrop : w.drop (min w.length n) = w.drop n := by
    rw [drop_eq_drop_iff]
    omega
  rw [DoubleBuf.advance, hdrop, drop_nil]

lemma asIoslices_mk_nil (n : ℕ) :
    (⟨w, []⟩ : DoubleBuf).asIoslices n = ⟨w.take n, []⟩ := by
  have htake : w.take (min w.length n) = w.take n := by
    rw [take_eq_take_iff]
    omega
  rw [asIoslices, htake, take_nil]

lemma Whole.advance (h : d.Whole) (n : ℕ) : (d.advance n).Whole := by
  rcases h with h | h
  · exact .inl (by simp [DoubleBuf.advance, h])
  · exact .inr (by simp [DoubleBuf.advance, h])

lemma Whole.withMaxLen (h : d.Whole) (n : ℕ) : (d.withMaxLen n).Whole := by
  rcases h with h | h
  · exact .inl (by simp [DoubleBuf.withMaxLen, asIoslices, h])
  · exact .inr (by simp [DoubleBuf.withMaxLen, asIoslices, h])

/-! ## Every operation is one on the joined string -/

/-- `get` -/
def get (d : DoubleBuf) : List ByteBuf := [d.buf0, d.buf1]

/-- A string is cut after `n` bytes; the error is how many are missing. -/
def cut (bytes : ByteBuf) (n : ℕ) : Except ℕ (ByteBuf × ByteBuf) :=
  if n ≤ bytes.length then .ok (bytes.take n, bytes.drop n) else .error (n - bytes.length)

/-- **The two slices are one string**: each operation does to the joined string what it should, and
an error says how many bytes are missing.  A contiguous slice is there unless the string is too
short or the slice spans the two. -/
theorem refines_join (d : DoubleBuf) (n : ℕ) :
    d.len = d.join.length ∧ d.get.flatten = d.join ∧ (d.advance n).join = d.join.drop n ∧
      (d.withMaxLen n).join = d.join.take n ∧ (d.asIoslices n).join = d.join.take n ∧
      (d.consumeVariable n).map (Prod.map join join) = cut d.join n ∧
      (d.consume n).map (Prod.map id join) = cut d.join n ∧
      d.readU32Be.map (Prod.map id join) =
        (cut d.join 4).map (Prod.map (fun data => UInt32.ofNat (beNat data)) id) ∧
      d.readU8.map (Prod.map id join) = d.join.head?.map (fun b => (b, d.join.tail)) ∧
      d.getContiguous n =
        if d.join.length < n ∨ 0 < d.buf0.length ∧ d.buf0.length < n then none
        else some (d.join.take n) := by
  refine ⟨d.length_join.symm, by simp [get, join], d.join_advance n, d.join_withMaxLen n,
    d.join_asIoslices n, ?_, ?_, ?_, ?_, d.getContiguous_eq n⟩
  · rw [consumeVariable_eq, cut]
    split <;> simp [Except.map]
  · rw [consume_eq, cut]
    split <;> simp [Except.map]
  · rw [readU32Be_eq, cut]
    split <;> simp [Except.map]
  · rw [readU8_eq, Option.map_map]
    simp [Function.comp_def]

end DoubleBuf

end Librtbit
