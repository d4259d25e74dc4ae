import Librtbit.Machinery.Outcome
import Mathlib.Algebra.BigOperators.Group.List.Basic
import Mathlib.Data.List.Flatten

/-!
# Machinery/Cut — a list cut into parts of one length, and a shorter rest

What is read piece by piece is, at any time, a number of full pieces and the beginning of the next
one.  `Cut.append` and `Cut.complete` say how the cut goes on; `Cut.take_drop` and `Cut.ceilDiv_eq`
say that it is the one that offsets and lengths describe.
-/

namespace Machinery

open List

variable {β : Type*} {n : ℕ} {l c rest : List β} {parts : List (List β)}

/-- A list cut into parts of length `n`, and a rest that is shorter. -/
structure Cut (n : ℕ) (l : List β) (parts : List (List β)) (rest : List β) : Prop where
  eq : l = parts.flatten ++ rest
  length_part : ∀ p ∈ parts, p.length = n
  length_rest : rest.length < n

namespace Cut

lemma nil (hn : 0 < n) : Cut n ([] : List β) [] [] :=
  ⟨rfl, fun _ hp => absurd hp not_mem_nil, hn⟩

/-- The next part does not get full. -/
lemma append (h : Cut n l parts rest) (hc : rest.length + c.length < n) :
    Cut n (l ++ c) parts (rest ++ c) := by
  refine ⟨?_, h.length_part, by rwa [length_append]⟩
  rw [h.eq, append_assoc]

/-- The next part gets full. -/
lemma complete (h : Cut n l parts rest) (hc : rest.length + c.length = n) :
    Cut n (l ++ c) (parts ++ [rest ++ c]) [] := by
  refine ⟨?_, fun p hp => ?_, (Nat.zero_le _).trans_lt h.length_rest⟩
  · rw [h.eq, flatten_append, flatten_singleton, append_nil, append_assoc]
  · rcases mem_append.mp hp with hp | hp
    · exact h.length_part p hp
    · rw [mem_singleton.mp hp, length_append, hc]

lemma length_flatten (hparts : ∀ p ∈ parts, p.length = n) :
    parts.flatten.length = parts.length * n := by
  rw [List.length_flatten, List.map_congr_left hparts, List.map_const', List.sum_replicate,
    smul_eq_mul]

lemma length_eq (h : Cut n l parts rest) : l.length = parts.length * n + rest.length := by
  rw [h.eq, length_append, length_flatten h.length_part]

lemma drop_flatten (hparts : ∀ p ∈ parts, p.length = n) (i : ℕ) (rest : List β)
    (hi : i ≤ parts.length) :
    (parts.flatten ++ rest).drop (i * n) = (parts.drop i).flatten ++ rest := by
  have htake : (parts.take i).flatten.length = i * n := by
    rw [length_flatten fun p hp => hparts p (mem_of_mem_take hp), length_take, min_eq_left hi]
  conv_lhs => rw [← take_append_drop i parts, flatten_append, append_assoc]
  rw [← htake, drop_left]

variable (h : Cut n l parts rest)
include h

/-- **A part is what its offset and the length say.** -/
lemma take_drop {i : ℕ} {p : List β} (hp : parts[i]? = some p) :
    (l.drop (i * n)).take n = p := by
  obtain ⟨hi, rfl⟩ := List.getElem?_eq_some_iff.mp hp
  have hlength : parts[i].length = n := h.length_part _ (getElem_mem hi)
  rw [h.eq, drop_flatten h.length_part i rest hi.le, drop_eq_getElem_cons hi,
    flatten_cons, append_assoc, take_left' hlength]

/-- The rest comes after the parts. -/
lemma take_drop_rest : (l.drop (parts.length * n)).take n = rest := by
  rw [h.eq, drop_flatten h.length_part _ rest le_rfl, drop_length, flatten_nil,
    nil_append, take_of_length_le h.length_rest.le]

/-- **A rest that is not empty counts as a part.** -/
lemma ceilDiv_eq :
    l.length ⌈/⌉ n = parts.length + if rest = [] then 0 else 1 := by
  have hn : 0 < n := (Nat.zero_le _).trans_lt h.length_rest
  have hlength := h.length_eq
  have hrest := h.length_rest
  rw [Nat.ceilDiv_eq_add_pred_div]
  split
  · next hnil =>
    rw [hlength, hnil, length_nil, Nat.add_zero, Nat.add_zero, Nat.add_sub_assoc hn,
      Nat.mul_comm, Nat.mul_add_div hn, Nat.div_eq_of_lt (by omega), Nat.add_zero]
  next hne =>
  have hpos : 0 < rest.length := length_pos_of_ne_nil hne
  have heq : l.length + n - 1 = n * (parts.length + 1) + (rest.length - 1) := by
    rw [Nat.mul_succ, Nat.mul_comm]
    omega
  rw [heq, Nat.mul_add_div hn, Nat.div_eq_of_lt (by omega)]

/-- There is no rest exactly where the length divides. -/
lemma rest_eq_nil_iff : rest = [] ↔ n ∣ l.length := by
  rw [h.length_eq, Nat.dvd_add_right (Nat.dvd_mul_left n _), ← length_eq_zero_iff]
  exact ⟨fun hz => hz ▸ Nat.dvd_zero n, fun hd => Nat.eq_zero_of_dvd_of_lt hd h.length_rest⟩

end Cut

end Machinery
