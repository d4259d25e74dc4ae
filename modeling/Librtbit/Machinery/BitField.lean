import Mathlib.Data.List.GetD
import Mathlib.Data.List.Range

/-!
# Machinery/BitField — half-open ranges and bit fields of a fixed length

`BitField n` is a list of `n` bits; the length travels in the type, so two fields of one size can
be combined bit by bit and no operation changes the size.  Every operation is described by what
`get` reads afterwards (`get_set`, `get_and`, …).  A read outside the field gives `false`.
-/

namespace Machinery

open List

/-! ## Half-open ranges -/

/-- The half-open range `start..stop`. -/
structure Span where
  start : ℕ
  stop : ℕ
  deriving DecidableEq

namespace Span

/-- `i` lies in `start..stop`. -/
def contains (r : Span) (i : ℕ) : Bool := decide (r.start ≤ i) && decide (i < r.stop)

/-- The number of indices in the range. -/
def len (r : Span) : ℕ := r.stop - r.start

/-- The indices of the range, in order. -/
def toList (r : Span) : List ℕ := List.range' r.start r.len

variable {r : Span} {i : ℕ}

@[simp] lemma contains_iff :
    r.contains i ↔ r.start ≤ i ∧ i < r.stop := by simp [contains]

@[simp] lemma contains_eq_false_iff :
    r.contains i = false ↔ ¬ (r.start ≤ i ∧ i < r.stop) := by
  rw [← contains_iff, Bool.not_eq_true]

@[simp] lemma mem_toList : i ∈ r.toList ↔ r.start ≤ i ∧ i < r.stop := by
  simp only [toList, len, mem_range'_1]
  omega

lemma nodup_toList (r : Span) : r.toList.Nodup := nodup_range'

end Span

/-! ## Bit fields -/

/-- A field of `n` bits. -/
def BitField (n : ℕ) : Type := {bits : List Bool // bits.length = n}

namespace BitField

variable {n : ℕ}

instance : DecidableEq (BitField n) :=
  inferInstanceAs (DecidableEq {bits : List Bool // bits.length = n})

/-- The bit at `i`, `false` outside the field. -/
def get (b : BitField n) (i : ℕ) : Bool := b.1.getD i false

/-- The field whose bits are given by `f`. -/
def ofFn (f : ℕ → Bool) : BitField n := ⟨(List.range n).map f, by simp⟩

/-- The field with every bit clear. -/
def zeros (n : ℕ) : BitField n := ofFn fun _ => false

/-- The bit at `i` replaced by `v`; nothing changes outside the field. -/
def set (b : BitField n) (i : ℕ) (v : Bool) : BitField n := ⟨b.1.set i v, by simp [b.2]⟩

/-- The bits of `r` replaced by `v`. -/
def fill (b : BitField n) (r : Span) (v : Bool) : BitField n :=
  ofFn fun i => if r.contains i then v else b.get i

/-- The bits of `r` replaced by `v` when `r` is a range of the field; otherwise there is no such
sub-slice and nothing changes. -/
def fillSlice (b : BitField n) (r : Span) (v : Bool) : BitField n :=
  if r.start ≤ r.stop ∧ r.stop ≤ n then b.fill r v else b

/-- Bitwise conjunction. -/
def and (b c : BitField n) : BitField n := ofFn fun i => b.get i && c.get i

/-- Bitwise disjunction. -/
def or (b c : BitField n) : BitField n := ofFn fun i => b.get i || c.get i

/-- Bitwise negation. -/
def not (b : BitField n) : BitField n := ofFn fun i => !b.get i

/-- The indices of the set bits, in increasing order. -/
def ones (b : BitField n) : List ℕ := (List.range n).filter b.get

/-- Every bit of the range `r` is set. -/
def all (b : BitField n) (r : Span) : Bool := r.toList.all b.get

lemma get_ofFn (f : ℕ → Bool) (i : ℕ) :
    (ofFn f : BitField n).get i = (decide (i < n) && f i) := by
  unfold get ofFn
  by_cases hi : i < n
  · simp [hi]
  · simp [hi]

variable {i : ℕ} (b : BitField n)

lemma get_eq_false_of_le (hi : n ≤ i) : b.get i = false :=
  getD_eq_default _ _ (by rw [b.2]; exact hi)

lemma lt_of_get (h : b.get i) : i < n := by
  by_contra hi
  rw [get_eq_false_of_le b (not_lt.mp hi)] at h
  exact absurd h (by decide)

@[simp] lemma get_zeros (i : ℕ) : (zeros n).get i = false := by simp [zeros, get_ofFn]

lemma get_set (i j : ℕ) (v : Bool) :
    (b.set i v).get j = if i = j ∧ i < n then v else b.get j := by
  unfold get set
  by_cases hij : i = j
  · subst hij
    by_cases hi : i < n
    · rw [getD_eq_getElem _ _ (by simpa [b.2] using hi)]
      simp [hi]
    · have hlen : ¬ i < b.1.length := by simpa [b.2] using hi
      simp [hi, set_eq_of_length_le (not_lt.mp hlen)]
  · simp [hij, getD_eq_getElem?_getD, getElem?_set_ne hij]

@[simp] lemma get_set_self (hi : i < n) (v : Bool) :
    (b.set i v).get i = v := by simp [get_set, hi]

lemma get_set_true_of_get {j} (h : b.get j) (i : ℕ) :
    (b.set i true).get j = true := by
  rw [get_set]
  split
  · rfl
  · exact h

lemma get_set_of_ne {i j} (h : i ≠ j) (v : Bool) :
    (b.set i v).get j = b.get j := by simp [get_set, h]

lemma get_and (b c : BitField n) (i : ℕ) : (b.and c).get i = (b.get i && c.get i) := by
  rw [and, get_ofFn]
  by_cases hi : i < n
  · simp [hi]
  · simp [hi, b.get_eq_false_of_le (not_lt.mp hi)]

lemma get_or (b c : BitField n) (i : ℕ) : (b.or c).get i = (b.get i || c.get i) := by
  rw [or, get_ofFn]
  by_cases hi : i < n
  · simp [hi]
  · simp [hi, b.get_eq_false_of_le (not_lt.mp hi), c.get_eq_false_of_le (not_lt.mp hi)]

lemma get_not (hi : i < n) : b.not.get i = !b.get i := by
  simp [not, get_ofFn, hi]

lemma get_fill (r : Span) (v : Bool) (hi : i < n) :
    (b.fill r v).get i = if r.contains i then v else b.get i := by simp [fill, get_ofFn, hi]

lemma get_fillSlice {r} (hr : r.start ≤ r.stop ∧ r.stop ≤ n) (v : Bool)
    (hi : i < n) : (b.fillSlice r v).get i = if r.contains i then v else b.get i := by
  rw [fillSlice, if_pos hr, get_fill b r v hi]

lemma all_eq_true_iff {b : BitField n} {r : Span} :
    b.all r ↔ ∀ i, r.start ≤ i → i < r.stop → b.get i := by
  rw [all, all_eq_true]
  refine ⟨fun h i hlo hhi => h i (Span.mem_toList.mpr ⟨hlo, hhi⟩), fun h i hi => ?_⟩
  obtain ⟨hlo, hhi⟩ := Span.mem_toList.mp hi
  exact h i hlo hhi

@[simp] lemma mem_ones {b : BitField n} : i ∈ b.ones ↔ b.get i := by
  simp only [ones, mem_filter, mem_range]
  exact ⟨fun h => h.2, fun h => ⟨b.lt_of_get h, h⟩⟩

end BitField

end Machinery
