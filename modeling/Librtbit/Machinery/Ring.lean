import Mathlib.Data.List.Rotate

/-!
# Machinery/Ring — a ring buffer

A ring of `n` cells, of which `len` from `start` on are in use; behind the last cell comes the
first.  What is in use is at most two slices (`slices`), and their contents are a queue: `advance`
takes from its front (`contents_advance`), `push` adds to its back (`contents_push`).

Seen from `start`, a ring is the list of its cells rotated; that the two slices are the beginning of
that list (`contents_eq_take_rotate`) is all that is needed to know about where it wraps.
-/

namespace Machinery

open List

variable {α : Type*} {n : ℕ}

/-- A ring of `n` cells. -/
structure Ring (α : Type*) (n : ℕ) where
  cells : List α
  start : ℕ
  len : ℕ
  length_cells : cells.length = n
  start_lt : start < n
  len_le : len ≤ n

/-- The beginning of a slice, overwritten. -/
def overwriteHead (slice bytes : List α) : List α := bytes ++ slice.drop bytes.length

lemma length_overwriteHead {slice bytes : List α} (h : bytes.length ≤ slice.length) :
    (overwriteHead slice bytes).length = slice.length := by
  rw [overwriteHead, length_append, length_drop]
  omega

namespace Ring

/-- No cell in use. -/
def empty (a : α) (hn : 0 < n) : Ring α n where
  cells := List.replicate n a
  start := 0
  len := 0
  length_cells := length_replicate
  start_lt := hn
  len_le := Nat.zero_le n

variable (r : Ring α n)

/-- The length of the first slice. -/
def firstLen : ℕ := min r.len (n - r.start)

/-- The cells in use, up to the last cell and from the first cell on. -/
def slices : List α × List α :=
  ((r.cells.drop r.start).take r.firstLen, r.cells.take (r.len - r.firstLen))

/-- What is in the cells in use. -/
def contents : List α := r.slices.1 ++ r.slices.2

/-- The number of cells that are free. -/
def free : ℕ := n - r.len

/-- Take from the front. -/
def advance (k : ℕ) : Ring α n where
  cells := r.cells
  start := (r.start + k) % n
  len := r.len - k
  length_cells := r.length_cells
  start_lt := Nat.mod_lt _ (Nat.zero_lt_of_lt r.start_lt)
  len_le := Nat.le_trans (Nat.sub_le _ _) r.len_le

/-- The first free cell. -/
def writeStart : ℕ := (r.start + r.len) % n

/-- The length of the first free slice. -/
def firstFree : ℕ := min (n - r.writeStart) r.free

/-- The cells after a write into the two free slices, one behind the other. -/
def written (bytes : List α) : List α :=
  overwriteHead (r.cells.take r.writeStart) (bytes.drop r.firstFree) ++
    overwriteHead (r.cells.drop r.writeStart) (bytes.take r.firstFree)

lemma writeStart_lt : r.writeStart < n := Nat.mod_lt _ (Nat.zero_lt_of_lt r.start_lt)

variable {bytes : List α}

lemma length_written (h : bytes.length ≤ r.free) :
    (r.written bytes).length = n := by
  have hcells := r.length_cells
  have hfree : r.free = n - r.len := rfl
  have hfirst : r.firstFree = min (n - r.writeStart) r.free := rfl
  -- the second free slice ends where the cells in use begin
  rw [written, length_append, length_overwriteHead, length_overwriteHead, length_take, length_drop]
  · omega
  · rw [length_take, length_drop]
    omega
  · rw [length_take, length_drop]
    omega

/-- Add to the back what there is room for. -/
def push (bytes : List α) (h : bytes.length ≤ r.free) : Ring α n where
  cells := r.written bytes
  start := r.start
  len := r.len + bytes.length
  length_cells := r.length_written h
  start_lt := r.start_lt
  len_le := by
    have := r.len_le
    rw [free] at h
    omega

/-- The contents in the first cells, and `a` in the others. -/
def rebase (a : α) (h : r.contents.length = r.len) : Ring α n where
  cells := r.contents ++ List.replicate (n - r.len) a
  start := 0
  len := r.len
  length_cells := by
    have := r.len_le
    rw [length_append, h, length_replicate]
    omega
  start_lt := Nat.zero_lt_of_lt r.start_lt
  len_le := r.len_le

/-! ## Seen from the start -/

/-- **The contents are the beginning of the rotated cells.** -/
lemma contents_eq_take_rotate : r.contents = (r.cells.rotate r.start).take r.len := by
  have hcells := r.length_cells
  have hstart := r.start_lt
  have hlen := r.len_le
  have hsecond : (r.cells.take r.start).take (r.len - (n - r.start)) =
      r.cells.take (r.len - (n - r.start)) := by
    rw [take_take, Nat.min_eq_left (by omega)]
  rw [rotate_eq_drop_append_take (by omega), take_append, length_drop, hcells,
    hsecond, contents, slices]
  have hfirst : r.firstLen = min r.len (n - r.start) := rfl
  congr 1
  · rw [take_eq_take_iff, length_drop]
    omega
  · rw [take_eq_take_iff]
    omega

@[simp] lemma length_contents : r.contents.length = r.len := by
  rw [contents_eq_take_rotate, length_take, length_rotate, r.length_cells, Nat.min_eq_left r.len_le]

lemma rotate_add_mod (l : List α) (hl : l.length = n) (i j : ℕ) :
    l.rotate ((i + j) % n) = (l.rotate i).rotate j := by
  rw [rotate_rotate, ← rotate_mod l (i + j), hl]

/-- **`advance` drops from the front.** -/
@[simp] theorem contents_advance (k : ℕ) : (r.advance k).contents = r.contents.drop k := by
  have hlen := r.len_le
  rcases Nat.lt_or_ge r.len k with hk | hk
  · rw [drop_of_length_le (by rw [length_contents]; omega)]
    refine eq_nil_of_length_eq_zero ?_
    rw [length_contents]
    exact Nat.sub_eq_zero_of_le (Nat.le_of_lt hk)
  · have hrot : (r.cells.rotate r.start).length = n := by rw [length_rotate, r.length_cells]
    rw [contents_eq_take_rotate, contents_eq_take_rotate, advance]
    dsimp only
    rw [rotate_add_mod _ r.length_cells, rotate_eq_drop_append_take (by omega),
      take_append_of_le_length (by rw [length_drop, hrot]; omega), drop_take]

/-- A write, seen from the first free cell. -/
lemma rotate_written (h : bytes.length ≤ r.free) :
    (r.written bytes).rotate r.writeStart =
      bytes ++ (r.cells.rotate r.writeStart).drop bytes.length := by
  have hcells := r.length_cells
  have hstart := r.writeStart_lt
  have hwritten := r.length_written h
  have hsecond : (overwriteHead (r.cells.take r.writeStart) (bytes.drop r.firstFree)).length =
      r.writeStart := by
    have hfirst : (overwriteHead (r.cells.drop r.writeStart) (bytes.take r.firstFree)).length =
        n - r.writeStart := by
      rw [length_overwriteHead, length_drop, hcells]
      rw [length_take, length_drop, firstFree]
      omega
    rw [written, length_append] at hwritten
    omega
  rw [rotate_eq_drop_append_take (by omega), rotate_eq_drop_append_take (by omega), written,
    drop_left' hsecond, take_left' hsecond, overwriteHead, overwriteHead]
  -- either all goes into the first free slice, or that slice is filled
  rcases Nat.lt_or_ge r.firstFree bytes.length with hlt | hge
  · have hfull : r.firstFree = n - r.writeStart := by
      rw [firstFree] at hlt ⊢
      omega
    have hnil : (r.cells.drop r.writeStart).drop (bytes.take r.firstFree).length = [] := by
      refine drop_of_length_le ?_
      rw [length_take, length_drop]
      omega
    rw [hnil, append_nil, ← append_assoc, take_append_drop, drop_append,
      length_drop, length_drop, hcells, hfull,
      drop_of_length_le (i := bytes.length) (by rw [length_drop, hcells]; omega)]
    rfl
  · rw [take_of_length_le hge, drop_of_length_le hge, length_nil, nil_append,
      drop_zero, append_assoc, drop_append_of_le_length]
    rw [length_drop]
    rw [firstFree] at hge
    omega

/-- **`push` adds to the back.** -/
@[simp] theorem contents_push (h : bytes.length ≤ r.free) :
    (r.push bytes h).contents = r.contents ++ bytes := by
  have hcells : (r.cells.rotate r.start).length = n := by rw [length_rotate, r.length_cells]
  have hcells' : ((r.written bytes).rotate r.start).length = n := by
    rw [length_rotate, r.length_written h]
  have hlen := r.len_le
  have hfree : r.free = n - r.len := rfl
  have hrot := r.rotate_written h
  rw [writeStart, rotate_add_mod _ (r.length_written h), rotate_add_mod _ r.length_cells,
    rotate_eq_drop_append_take (by omega),
    rotate_eq_drop_append_take (l := r.cells.rotate r.start) (by omega),
    drop_append_of_le_length (by rw [length_drop, hcells]; omega),
    ← append_assoc] at hrot
  obtain ⟨hdrop, htake⟩ := append_inj' hrot (by simp [hcells, hcells'])
  have hwhole : (r.written bytes).rotate r.start =
      (r.cells.rotate r.start).take r.len ++ (bytes ++
        ((r.cells.rotate r.start).drop r.len).drop bytes.length) := by
    rw [← htake, ← hdrop, take_append_drop]
  rw [contents_eq_take_rotate, contents_eq_take_rotate, push]
  rw [hwhole, ← append_assoc, take_left']
  rw [length_append, length_take, hcells, Nat.min_eq_left hlen]

/-- **`rebase` keeps the contents**, in one slice. -/
lemma slices_rebase (a : α) : (r.rebase a r.length_contents).slices = (r.contents, []) := by
  have hlen := r.len_le
  have hfirst : (r.rebase a r.length_contents).firstLen = r.len := by
    exact Nat.min_eq_left (by rw [rebase]; omega)
  rw [slices, hfirst]
  dsimp only [rebase]
  rw [drop_zero, take_left' r.length_contents, Nat.sub_self, take_zero]

lemma lt_of_slices_ne_nil (h : r.slices.2 ≠ []) : n < r.start + r.len := by
  by_contra hle
  refine h ?_
  rw [slices, firstLen, Nat.min_eq_left (by omega), Nat.sub_self, take_zero]

end Ring

end Machinery
