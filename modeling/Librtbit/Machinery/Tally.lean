import Mathlib.Data.Set.Card

/-!
# Machinery/Tally — how many values of a map have a property

A map is a function `m : α → Option β` with finitely many keys.  `tally P m` is the number of keys
whose values satisfy `P`, and `tally_update` says how it changes with one entry.  This is what a
counter that is kept next to the map has to follow.

`sum_map_set` is the same for the elements of a list, and `sum_add_of_eq_off` for the values of a
function.
-/

namespace Machinery

open Function

variable {α β : Type*} {P : β → Bool} {m : α → Option β}

/-- The number of keys whose values satisfy `P`. -/
noncomputable def tally (P : β → Bool) (m : α → Option β) : ℕ := {a | (m a).any P = true}.ncard

/-- The map has finitely many keys. -/
def FiniteKeys (m : α → Option β) : Prop := {a | (m a).isSome = true}.Finite

lemma FiniteKeys.any (hm : FiniteKeys m) (P : β → Bool) : {a | (m a).any P = true}.Finite := by
  refine hm.subset fun a ha => ?_
  cases hma : m a with
  | none => simp [hma] at ha
  | some b => simp [hma]

lemma finiteKeys_empty : FiniteKeys (fun _ : α => (none : Option β)) := by
  simp [FiniteKeys]

lemma tally_empty : tally P (fun _ : α => none) = 0 := by
  simp [tally]

/-- A value with the property is counted. -/
lemma tally_pos (hm : FiniteKeys m) {a} (ha : (m a).any P = true) : 0 < tally P m :=
  (Set.ncard_pos (hm.any P)).mpr ⟨a, ha⟩

section

variable [DecidableEq α] (hm : FiniteKeys m)
include hm

lemma FiniteKeys.update (a : α) (o : Option β) :
    FiniteKeys (update m a o) := by
  refine (hm.insert a).subset fun x hx => ?_
  rcases eq_or_ne x a with rfl | hne
  · exact Set.mem_insert x _
  · rw [Set.mem_ofPred_eq, update_of_ne hne] at hx
    exact Set.mem_insert_of_mem a hx

/-- The keys other than `a`, and `a`. -/
lemma tally_update_eq (a : α) (o : Option β) : tally P (update m a o) =
      {x | x ≠ a ∧ (m x).any P = true}.ncard + (o.any P).toNat := by
  have hothers : {x | x ≠ a ∧ (m x).any P = true}.Finite := (hm.any P).subset fun x hx => hx.2
  rw [tally]
  cases ho : o.any P with
  | false =>
    congr 1
    ext x
    rcases eq_or_ne x a with rfl | hne
    · simp [ho]
    · simp [hne]
  | true =>
    have hset : {x | (update m a o x).any P = true} =
        insert a {x | x ≠ a ∧ (m x).any P = true} := by
      ext x
      rcases eq_or_ne x a with rfl | hne
      · simp [ho]
      · simp [hne]
    rw [hset, Set.ncard_insert_of_notMem (fun h => h.1 rfl) hothers]
    rfl

/-- **One entry of the map changes.** -/
lemma tally_update (a : α) (o : Option β) :
    tally P (update m a o) + ((m a).any P).toNat = tally P m + (o.any P).toNat := by
  have hself := tally_update_eq (P := P) hm a (m a)
  rw [update_eq_self] at hself
  rw [tally_update_eq hm, hself, Nat.add_right_comm]

end

/-- **One element of a list changes.** -/
lemma sum_map_set {γ : Type*} (f : γ → ℤ) {l : List γ} {i : ℕ} {x : γ} (hx : l[i]? = some x)
    (y : γ) : ((l.set i y).map f).sum + f x = (l.map f).sum + f y := by
  obtain ⟨hi, rfl⟩ := List.getElem?_eq_some_iff.mp hx
  rw [List.map_set, List.sum_set', dif_pos (by simpa using hi), List.getElem_map]
  omega

/-- **One summand changes.** -/
lemma sum_add_of_eq_off {ι : Type*} [Fintype ι] [DecidableEq ι] {f g : ι → ℤ} {i : ι}
    (h : ∀ j ≠ i, g j = f j) : ∑ j, g j + f i = ∑ j, f j + g i := by
  have hothers : ∑ j ∈ Finset.univ.erase i, g j = ∑ j ∈ Finset.univ.erase i, f j :=
    Finset.sum_congr rfl fun j hj => h j (Finset.ne_of_mem_erase hj)
  have hf := Finset.add_sum_erase Finset.univ f (Finset.mem_univ i)
  have hg := Finset.add_sum_erase Finset.univ g (Finset.mem_univ i)
  omega

end Machinery
