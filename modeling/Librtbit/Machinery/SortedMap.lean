import Mathlib.Data.List.Lex
import Mathlib.Data.List.Perm.Basic
import Mathlib.Data.List.Sort

/-!
# Machinery/SortedMap — a map as a sorted list of entries

A map from a linearly ordered type of keys as the list of its entries in increasing order of keys,
as a search tree would list them.  `SortedMap.insert` overwrites an entry with the same key;
`ofList` inserts the entries of a list one after another.  If their keys are distinct, nothing is
overwritten and the result is the sorted permutation of the list (`perm_ofList`, `sorted_ofList`),
which is unique (`ofList_eq_of_perm`).
-/

namespace Machinery

open List

variable {K V : Type*} [LinearOrder K]

namespace SortedMap

/-- Insert an entry where it belongs. -/
def insert (k : K) (v : V) : List (K × V) → List (K × V)
  | [] => [(k, v)]
  | e :: es =>
    if k < e.1 then (k, v) :: e :: es
    else if k = e.1 then (k, v) :: es
    else e :: insert k v es

/-- The map a list of entries builds, one after another. -/
def ofList (es : List (K × V)) : List (K × V) := es.foldl (fun m e => insert e.1 e.2 m) []

/-- The keys are in strictly increasing order. -/
def Sorted (es : List (K × V)) : Prop := (es.map Prod.fst).Pairwise (· < ·)

variable {es : List (K × V)} {k : K} {v : V}

lemma mem_keys_insert {x : K} (h : x ∈ (insert k v es).map Prod.fst) :
    x = k ∨ x ∈ es.map Prod.fst := by
  induction es with
  | nil => exact .inl (mem_singleton.mp h)
  | cons e es ih =>
    rw [insert] at h
    split at h
    · exact mem_cons.mp h
    split at h
    · rcases mem_cons.mp h with h | h
      · exact .inl h
      · exact .inr (mem_cons_of_mem _ h)
    · rcases mem_cons.mp h with h | h
      · exact .inr (h ▸ mem_cons_self)
      · exact (ih h).imp_right (mem_cons_of_mem _)

/-- **Inserting keeps the order.** -/
lemma Sorted.insert (h : Sorted es) : Sorted (insert k v es) := by
  induction es with
  | nil => exact pairwise_singleton _ _
  | cons e es ih =>
    obtain ⟨hfirst, hrest⟩ := pairwise_cons.mp h
    rw [SortedMap.insert]
    split
    · rename_i hlt
      refine pairwise_cons.mpr ⟨fun x hx => ?_, h⟩
      rcases mem_cons.mp hx with rfl | hx
      · exact hlt
      · exact hlt.trans (hfirst x hx)
    · rename_i hnlt
      split
      · rename_i heq
        subst heq
        exact h
      · rename_i hne
        refine pairwise_cons.mpr ⟨fun x hx => ?_, ih hrest⟩
        rcases mem_keys_insert hx with rfl | hx
        · exact lt_of_le_of_ne (not_lt.mp hnlt) (Ne.symm hne)
        · exact hfirst x hx

/-- **A new key is added.** -/
lemma perm_insert (hk : k ∉ es.map Prod.fst) : (insert k v es).Perm ((k, v) :: es) := by
  induction es with
  | nil => exact List.Perm.refl _
  | cons e es ih =>
    rw [map_cons, mem_cons, not_or] at hk
    rw [insert]
    split
    · exact List.Perm.refl _
    · rw [if_neg hk.1]
      exact ((ih hk.2).cons e).trans (List.Perm.swap _ _ _)

lemma sorted_foldl_insert (l : List (K × V)) (h : Sorted es) :
    Sorted (l.foldl (fun m e => insert e.1 e.2 m) es) := by
  induction l generalizing es with
  | nil => exact h
  | cons e l ih => exact ih h.insert

lemma sorted_ofList (es : List (K × V)) : Sorted (ofList es) := sorted_foldl_insert es .nil

lemma perm_foldl_insert (l : List (K × V)) (h : ((es ++ l).map Prod.fst).Nodup) :
    (l.foldl (fun m e => insert e.1 e.2 m) es).Perm (es ++ l) := by
  induction l generalizing es with
  | nil => rw [append_nil, foldl_nil]
  | cons e l ih =>
    have hmid : (es ++ e :: l).Perm (e :: es ++ l) := perm_middle
    have hnodup : ((e :: es ++ l).map Prod.fst).Nodup := (hmid.map Prod.fst).nodup_iff.mp h
    have hfresh : e.1 ∉ es.map Prod.fst := by
      rw [cons_append, map_cons, nodup_cons, map_append] at hnodup
      exact fun hin => hnodup.1 (mem_append_left _ hin)
    have hins : (insert e.1 e.2 es).Perm (e :: es) := perm_insert hfresh
    refine (ih ?_).trans ((hins.append_right l).trans hmid.symm)
    exact ((hins.append_right l).map Prod.fst).nodup_iff.mpr hnodup

/-- **Entries with distinct keys are all kept.** -/
lemma perm_ofList (h : (es.map Prod.fst).Nodup) : (ofList es).Perm es := perm_foldl_insert es h

lemma Sorted.nodup (h : Sorted es) : (es.map Prod.fst).Nodup := h.imp ne_of_lt

variable {es' : List (K × V)}

/-- A map is determined by its entries. -/
lemma Sorted.eq_of_perm (h : Sorted es) (h' : Sorted es') (hperm : es.Perm es') : es = es' := by
  have hes : es.Pairwise fun a b => a.1 < b.1 := pairwise_map.mp h
  have hes' : es'.Pairwise fun a b => a.1 < b.1 := pairwise_map.mp h'
  exact hperm.eq_of_pairwise (fun a b _ _ hab hba => absurd hab hba.asymm) hes hes'

/-- **The order in which the entries are inserted makes no difference.** -/
lemma ofList_eq_of_perm (h : (es.map Prod.fst).Nodup)
    (hperm : es.Perm es') : ofList es = ofList es' := by
  have h' : (es'.map Prod.fst).Nodup := (hperm.map Prod.fst).nodup_iff.mp h
  exact (sorted_ofList es).eq_of_perm (sorted_ofList es')
    ((perm_ofList h).trans (hperm.trans (perm_ofList h').symm))

/-- The values do not matter to the order. -/
lemma ofList_map {W : Type*} (f : V → W) (es : List (K × V)) :
    ofList (es.map fun e => (e.1, f e.2)) = (ofList es).map fun e => (e.1, f e.2) := by
  have hinsert : ∀ (k : K) (v : V) (m : List (K × V)),
      insert k (f v) (m.map fun e => (e.1, f e.2)) = (insert k v m).map fun e => (e.1, f e.2) := by
    intro k v m
    induction m with
    | nil => rfl
    | cons e m ih =>
      rw [map_cons, insert, insert, ih]
      split
      · rfl
      · split <;> rfl
  have hfold : ∀ (l m : List (K × V)),
      (l.map fun e => (e.1, f e.2)).foldl (fun m e => insert e.1 e.2 m)
          (m.map fun e => (e.1, f e.2)) =
        (l.foldl (fun m e => insert e.1 e.2 m) m).map fun e => (e.1, f e.2) := by
    intro l
    induction l with
    | nil => exact fun m => rfl
    | cons e l ih =>
      intro m
      rw [map_cons, foldl_cons, foldl_cons, hinsert, ih]
  exact hfold es []

end SortedMap

/-! ## Byte strings as keys -/

instance linearOrderUInt8 : LinearOrder UInt8 where
  le_refl := UInt8.le_refl
  le_trans _ _ _ := UInt8.le_trans
  le_antisymm _ _ := UInt8.le_antisymm
  le_total := UInt8.le_total
  lt_iff_le_not_ge a b := by
    rw [UInt8.lt_iff_toNat_lt, UInt8.le_iff_toNat_le, UInt8.le_iff_toNat_le]
    omega
  toDecidableLE := inferInstance
  toDecidableLT := inferInstance
  toDecidableEq := inferInstance

example : SortedMap.ofList [([2, 1], 0), (([1] : List UInt8), 1), ([2], 2), ([1], 3)] =
    [([1], 3), ([2], 2), ([2, 1], 0)] := by decide

end Machinery
