import Mathlib.Algebra.BigOperators.Group.List.Basic
import Mathlib.Algebra.Order.Ring.Nat
import Mathlib.Data.List.AList

/-!
# Machinery/Table — the size and the weight of a finite map

A finite map is an association list without a key twice.  Its size and, more generally, the sum of
the weights of its values follow an insertion or a removal by what was there before
(`weight_insert`, `weight_erase`).  This is what a counter kept next to the map has to follow.
-/

namespace Machinery

open List

/-- A finite map. -/
abbrev Table (K V : Type) : Type := AList fun _ : K => V

namespace Table

variable {K V : Type}

/-- The sum of the weights of the values. -/
def weight (f : V → ℕ) (t : Table K V) : ℕ := (t.entries.map fun e => f e.2).sum

/-- The number of entries. -/
def size (t : Table K V) : ℕ := t.entries.length

lemma size_eq_weight (t : Table K V) : t.size = t.weight fun _ => 1 := by
  simp [size, weight]

variable [DecidableEq K] {t : Table K V} {k : K}

lemma lookup_insert_cases {k' : K} {v v' : V} (h : (t.insert k v).lookup k' = some v') :
    (k' = k ∧ v' = v) ∨ (k' ≠ k ∧ t.lookup k' = some v') := by
  by_cases hk : k' = k
  · subst hk
    rw [AList.lookup_insert] at h
    exact Or.inl ⟨rfl, (Option.some.inj h).symm⟩
  · rw [AList.lookup_insert_ne hk] at h
    exact Or.inr ⟨hk, h⟩

/-- What is found after a removal was there before. -/
lemma lookup_erase_cases {k' : K} {v : V} (h : (t.erase k).lookup k' = some v) :
    k' ≠ k ∧ t.lookup k' = some v := by
  by_cases hk : k' = k
  · subst hk
    rw [AList.lookup_erase] at h
    cases h
  · rw [AList.lookup_erase_ne hk] at h
    exact ⟨hk, h⟩

lemma sum_kerase (f : V → ℕ) (l : List (Sigma fun _ : K => V)) (k : K) :
    ((l.kerase k).map fun e => f e.2).sum + ((l.dlookup k).map f).getD 0 =
      (l.map fun e => f e.2).sum := by
  induction l with
  | nil => rfl
  | cons e l ih =>
    obtain ⟨k', v⟩ := e
    by_cases hk : k = k'
    · subst hk
      have herase : (⟨k, v⟩ :: l).kerase k = l := kerase_cons_eq rfl
      rw [herase, dlookup_cons_eq]
      exact Nat.add_comm _ _
    · have herase : (⟨k', v⟩ :: l).kerase k = ⟨k', v⟩ :: l.kerase k := kerase_cons_ne hk
      have hlookup : (⟨k', v⟩ :: l).dlookup k = l.dlookup k := dlookup_cons_ne _ _ hk
      rw [herase, hlookup, map_cons, map_cons, sum_cons, sum_cons, Nat.add_assoc, ih]

/-- **An entry is removed.** -/
lemma weight_erase (f : V → ℕ) (t : Table K V) (k : K) :
    weight f (t.erase k) + ((t.lookup k).map f).getD 0 = weight f t :=
  sum_kerase f t.entries k

/-- **An entry is inserted**, over what was there before. -/
lemma weight_insert (f : V → ℕ) (t : Table K V) (k : K) (v : V) :
    weight f (t.insert k v) + ((t.lookup k).map f).getD 0 = weight f t + f v := by
  have hsum := sum_kerase f t.entries k
  have hinsert : weight f (t.insert k v) = f v + ((t.entries.kerase k).map fun e => f e.2).sum := by
    rw [weight, AList.entries_insert, map_cons, sum_cons]
  rw [hinsert, weight]
  show _ + ((t.entries.dlookup k).map f).getD 0 = _
  omega

lemma size_insert_of_notMem (h : k ∉ t) (v : V) : size (t.insert k v) = t.size + 1 := by
  rw [size, AList.entries_insert_of_notMem h, length_cons, size]

lemma size_insert_of_mem (h : k ∈ t) (v : V) : size (t.insert k v) = t.size := by
  obtain ⟨w, hw⟩ := Option.isSome_iff_exists.mp (AList.lookup_isSome.mpr h)
  have hweight := weight_insert (fun _ => 1) t k v
  rw [hw, ← size_eq_weight, ← size_eq_weight] at hweight
  exact Nat.add_right_cancel hweight

lemma size_erase_le (t : Table K V) (k : K) : size (t.erase k) ≤ t.size := by
  have hweight := weight_erase (fun _ => 1) t k
  rw [← size_eq_weight, ← size_eq_weight] at hweight
  omega

end Table

end Machinery
