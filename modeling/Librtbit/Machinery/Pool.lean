import Mathlib.Data.List.Basic

/-!
# Machinery/Pool — lists that grow at the end and change one element at a time

Tasks that run at once are kept in a list: a new one comes to its end, and a step replaces the one
that makes it.  After such a step an element is one that was there before, at the same place, or it
is the new one (`getElem?_set_cases`, `getElem?_concat_cases`).
-/

namespace Machinery

open List

variable {α β : Type*} {l : List α} {i j : ℕ} {x y : α}

lemma getElem?_set_cases (h : (l.set i x)[j]? = some y) : l[j]? = some y ∨ (j = i ∧ y = x) := by
  rw [getElem?_set] at h
  split at h
  · next hij =>
    split at h
    · exact .inr ⟨hij.symm, (Option.some.inj h).symm⟩
    · cases h
  · exact .inl h

lemma getElem?_concat_cases (h : (l ++ [x])[j]? = some y) :
    l[j]? = some y ∨ (j = l.length ∧ y = x) := by
  rw [getElem?_append] at h
  split at h
  · exact .inl h
  · obtain ⟨hlt, rfl⟩ := List.getElem?_eq_some_iff.mp h
    rw [length_singleton] at hlt
    exact .inr ⟨by omega, getElem_singleton _⟩

lemma forall_mem_set {P : α → Prop} (h : ∀ y ∈ l, P y) (hx : P x) : ∀ y ∈ l.set i x, P y := by
  intro y hy
  rcases mem_or_eq_of_mem_set hy with hy | rfl
  · exact h y hy
  · exact hx

lemma forall_mem_concat {P : α → Prop} (h : ∀ y ∈ l, P y) (hx : P x) : ∀ y ∈ l ++ [x], P y := by
  intro y hy
  rcases mem_append.mp hy with hy | hy
  · exact h y hy
  · exact mem_singleton.mp hy ▸ hx

/-- The other elements stay. -/
lemma mem_set_of_ne (hi : l[i]? = some y) (hx : x ∈ l) (hne : x ≠ y) (z : α) : x ∈ l.set i z := by
  obtain ⟨j, hj⟩ := mem_iff_getElem?.mp hx
  have hij : i ≠ j := by
    rintro rfl
    rw [hi] at hj
    exact hne (Option.some.inj hj).symm
  exact mem_of_getElem? ((getElem?_set_ne hij).trans hj)

/-- The new element is at its place. -/
lemma getElem?_set_of_some (h : l[i]? = some y) (x : α) : (l.set i x)[i]? = some x :=
  getElem?_set_self (List.getElem?_eq_some_iff.mp h).1

/-- An element stays where it is when the list grows. -/
lemma getElem?_concat_of_some (h : l[j]? = some y) (x : α) : (l ++ [x])[j]? = some y := by
  rw [getElem?_append_left (List.getElem?_eq_some_iff.mp h).1, h]

lemma modify_eq_set (h : l[i]? = some x) (f : α → α) : l.modify i f = l.set i (f x) := by
  rw [modify_eq_set_getElem?, h]
  rfl

lemma map_modify_of_forall (l : List α) (i : ℕ) {f : α → α} {g : α → β}
    (h : ∀ x, g (f x) = g x) : (l.modify i f).map g = l.map g := by
  refine ext_getElem? fun j => ?_
  rw [getElem?_map, getElem?_map, getElem?_modify]
  cases l[j]? with
  | none => rfl
  | some x =>
    by_cases hij : i = j
    · simp [hij, h]
    · simp [hij]

end Machinery
