import Mathlib.Data.List.Basic

/-!
# Machinery/Slices — slices of sequences

A partial sequence `get : ℕ → Option β` has an element at some positions and none at others (a file
that is too short, a disk with bad blocks).  `readSlice get off n` is the slice of `n` elements from
`off` on, if all of them are there: it can be cut anywhere (`readSlice_add`), fails exactly at a
missing element (`readSlice_eq_none_iff`), and only looks inside its range (`readSlice_congr`).

`chunksExact n l` cuts a list into parts of one length; `splice l off data` is a list with a part of
it written over.
-/

namespace Machinery

open List

variable {β : Type*}

/-- The elements `off, …, off + n - 1`, if all of them are there. -/
def readSlice (get : ℕ → Option β) : (off n : ℕ) → Option (List β)
  | _, 0 => some []
  | off, n + 1 => (get off).bind fun b => (readSlice get (off + 1) n).map (b :: ·)

variable {get : ℕ → Option β}

@[simp] lemma readSlice_zero (off : ℕ) : readSlice get off 0 = some [] := rfl

/-- **A slice may be read in two parts.** -/
lemma readSlice_add (get : ℕ → Option β) (off n m : ℕ) : readSlice get off (n + m) =
      (readSlice get off n).bind fun a => (readSlice get (off + n) m).map (a ++ ·) := by
  induction n generalizing off with
  | zero => simp
  | succ n ih =>
    rw [Nat.succ_add, readSlice, ih, readSlice, show off + 1 + n = off + (n + 1) by omega]
    cases get off with
    | none => rfl
    | some b =>
      cases readSlice get (off + 1) n with
      | none => rfl
      | some a =>
        simp only [Option.bind_some, Option.map_some, Option.map_map]
        rfl

variable {off n : ℕ}

/-- **A slice fails exactly at a missing element.** -/
lemma readSlice_eq_none_iff :
    readSlice get off n = none ↔ ∃ i, off ≤ i ∧ i < off + n ∧ get i = none := by
  induction n generalizing off with
  | zero =>
    simp only [readSlice_zero, reduceCtorEq, Nat.add_zero, false_iff, not_exists]
    omega
  | succ n ih =>
    rw [readSlice, Option.bind_eq_none_iff]
    simp only [Option.map_eq_none_iff, ih]
    constructor
    · intro h
      cases hget : get off with
      | none => exact ⟨off, Nat.le_refl _, by omega, hget⟩
      | some b =>
        obtain ⟨i, hlo, hhi, hi⟩ := h b hget
        exact ⟨i, by omega, by omega, hi⟩
    · rintro ⟨i, hlo, hhi, hi⟩ b hb
      refine ⟨i, ?_, by omega, hi⟩
      rcases Nat.eq_or_lt_of_le hlo with rfl | hlt
      · rw [hi] at hb
        cases hb
      · exact hlt

/-- **Two sequences that agree on a range, up to a shift, have the same slice there.** -/
lemma readSlice_congr {get' off off' n} (h : ∀ i, i < n → get (off + i) = get' (off' + i)) :
    readSlice get off n = readSlice get' off' n := by
  induction n generalizing off off' with
  | zero => rfl
  | succ n ih =>
    have hfirst : get off = get' off' := h 0 (Nat.succ_pos n)
    rw [readSlice, readSlice, hfirst, ih fun i hi => ?_]
    have := h (i + 1) (Nat.succ_lt_succ hi)
    rwa [Nat.add_comm i 1, ← Nat.add_assoc, ← Nat.add_assoc] at this

/-- A slice of a constant sequence. -/
lemma readSlice_const (b : β) (off n : ℕ) :
    readSlice (fun _ => some b) off n = some (List.replicate n b) := by
  induction n generalizing off with
  | zero => rfl
  | succ n ih =>
    rw [readSlice, ih]
    rfl

variable {l : List β}

/-- A slice of a list, within its length. -/
lemma readSlice_getElem?_of_le (h : off + n ≤ l.length) :
    readSlice (fun i => l[i]?) off n = some ((l.drop off).take n) := by
  induction n generalizing off with
  | zero => simp
  | succ n ih =>
    have hoff : off < l.length := by omega
    rw [readSlice, ih (by omega), drop_eq_getElem_cons hoff, take_succ_cons,
      getElem?_eq_getElem hoff]
    rfl

/-- …and one that leaves it. -/
lemma readSlice_getElem?_of_lt (hn : 0 < n) (h : l.length < off + n) :
    readSlice (fun i => l[i]?) off n = none := by
  refine readSlice_eq_none_iff.mpr ⟨off + n - 1, by omega, by omega, ?_⟩
  rw [List.getElem?_eq_none_iff]
  omega

/-! ## Cutting -/

/-- The parts of length `n` that a list starts with; what is left over is dropped. -/
def chunksExact (n : ℕ) (l : List β) : List (List β) :=
  (List.range (l.length / n)).map fun i => (l.drop (n * i)).take n

/-- **Parts of one length, put together, are cut apart again.** -/
lemma chunksExact_flatMap {α : Type*} {n : ℕ} (hn : 0 < n) {f : α → List β}
    (hf : ∀ a, (f a).length = n) (as : List α) : chunksExact n (as.flatMap f) = as.map f := by
  induction as with
  | nil =>
    rw [flatMap_nil, chunksExact, length_nil, Nat.zero_div]
    rfl
  | cons a as ih =>
    rw [flatMap_cons, chunksExact, length_append, hf, Nat.add_div_left _ hn,
      range_succ_eq_map, map_cons, Nat.mul_zero, drop_zero, take_left' (hf a),
      map_cons, ← ih, map_map, chunksExact]
    refine congrArg _ (map_congr_left fun i _ => ?_)
    rw [Function.comp_apply, Nat.mul_succ, Nat.add_comm, drop_append, hf,
      Nat.add_sub_cancel_left, drop_eq_nil_of_le (by rw [hf]; omega), nil_append]

/-! ## Writing -/

/-- The list with `data` in place of its elements from `off` on. -/
def splice (l : List β) (off : ℕ) (data : List β) : List β :=
  l.take off ++ data ++ l.drop (off + data.length)

lemma length_splice {off data} (h : off + data.length ≤ l.length) :
    (splice l off data).length = l.length := by
  rw [splice, length_append, length_append, length_take, length_drop]
  omega

/-- **Two neighbouring parts are written as one.** -/
lemma splice_splice {off a b} (h : off + (a ++ b).length ≤ l.length) :
    splice (splice l off a) (off + a.length) b = splice l off (a ++ b) := by
  have hhead : (l.take off ++ a).length = off + a.length := by
    rw [length_append, length_take]
    omega
  rw [splice, splice, ← hhead, take_left, drop_append, hhead]
  rw [splice, drop_eq_nil_of_le (by omega), drop_drop, nil_append,
    length_append, append_assoc (l.take off), ← Nat.add_assoc]
  congr 2
  omega

end Machinery
