import Mathlib.Data.List.Basic

/-!
# Machinery/Broadcast — a receiver of a bounded broadcast

Every receiver of a broadcast reads all that is sent, at its own pace, and nobody waits for it: one
that has left as many values unread as the channel holds loses the oldest when the next is sent.  It
is told so once, the next time it reads.

`mem_push` is the account of it: nothing is lost but the oldest value, and that only by a receiver
that is full.
-/

namespace Machinery

open List

variable {α : Type*}

/-- What a receiver has not read, and whether it has lost something since it read last. -/
structure Receiver (α : Type*) where
  unread : List α := []
  lagged : Bool := false

/-- What reading gives. -/
inductive Received (α : Type*) where
  | value (x : α)
  | lagged

namespace Receiver

/-- A value is sent. -/
def push (capacity : ℕ) (r : Receiver α) (x : α) : Receiver α :=
  if r.unread.length < capacity then { r with unread := r.unread ++ [x] }
  else { unread := r.unread.tail ++ [x], lagged := true }

/-- Reads the next value; `none` if there is none to read. -/
def recv (r : Receiver α) : Option (Received α × Receiver α) :=
  if r.lagged then some (.lagged, { r with lagged := false })
  else
    match r.unread with
    | [] => none
    | x :: unread => some (.value x, { r with unread })

variable {capacity : ℕ} {r r' : Receiver α} {x y : α}

/-- What is sent can be read. -/
lemma mem_push_self : x ∈ (r.push capacity x).unread := by
  rw [push]
  split <;> exact mem_append_right _ mem_cons_self

/-- **Nothing is lost but the oldest value, by a receiver that is full.** -/
lemma mem_push (hy : y ∈ r.unread) :
    y ∈ (r.push capacity x).unread ∨ (capacity ≤ r.unread.length ∧ r.unread.head? = some y) := by
  rw [push]
  split
  · exact Or.inl (mem_append_left _ hy)
  next hfull =>
  cases hunread : r.unread with
  | nil =>
    rw [hunread] at hy
    cases hy
  | cons z unread =>
    rw [hunread] at hy hfull
    rcases mem_cons.mp hy with rfl | hy
    · exact Or.inr ⟨Nat.le_of_not_lt hfull, rfl⟩
    · exact Or.inl (mem_append_left _ hy)

/-- A receiver that is told of a loss has the same to read. -/
lemma recv_lagged (h : r.recv = some (.lagged, r')) : r'.unread = r.unread := by
  rw [recv] at h
  split at h
  · cases h
    rfl
  · split at h <;> cases h

/-- A receiver that reads a value has the rest to read. -/
lemma recv_value (h : r.recv = some (.value x, r')) :
    r.lagged = false ∧ r.unread = x :: r'.unread := by
  rw [recv] at h
  split at h
  · cases h
  next hlagged =>
  split at h
  · cases h
  · next unread hunread =>
    cases h
    exact ⟨Bool.eq_false_iff.mpr hlagged, hunread⟩

end Receiver

end Machinery
