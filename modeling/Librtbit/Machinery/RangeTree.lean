import Mathlib.Algebra.Order.Ring.Nat
import Mathlib.Data.List.Nodup

/-!
# Machinery/RangeTree — an interval that is halved again and again

A tree over an interval of `2 ^ bits` numbers is a leaf, or two trees over its halves.  The nodes
have names, under which some memory keeps them: `Holds` says that a memory has every node of the
tree under its name.

* `pairwise_cells`, `aligned_of_mem_cells` — the leaves follow one another, and each is aligned.
* `contains_find` — every number of the interval is in a leaf, and `find` goes there.
* `Holds.replace` — what is changed under the name of one leaf changes that leaf and nothing else,
  as long as no name is used twice.
-/

namespace Machinery

open List

/-- A tree whose nodes have names of type `ν`, with an `α` in each leaf. -/
inductive RangeTree (ν α : Type) where
  | leaf (name : ν) (a : α)
  | node (name : ν) (left right : RangeTree ν α)

namespace RangeTree

/-- A leaf, and the `2 ^ bits` numbers from `lo` on that it is for. -/
structure Cell (ν α : Type) where
  name : ν
  bits : ℕ
  lo : ℕ
  data : α

variable {ν α : Type} {bits lo x : ℕ} {t new : RangeTree ν α} {c c' : Cell ν α}

/-- A number of the interval. -/
def Cell.Contains (c : Cell ν α) (x : ℕ) : Prop := c.lo ≤ x ∧ x < c.lo + 2 ^ c.bits

def name : RangeTree ν α → ν
  | leaf name _ => name
  | node name _ _ => name

def names : RangeTree ν α → List ν
  | leaf name _ => [name]
  | node name left right => name :: (left.names ++ right.names)

/-- The leaves of a tree over the `2 ^ bits` numbers from `lo` on. -/
def cells : RangeTree ν α → (bits lo : ℕ) → List (Cell ν α)
  | leaf name a, bits, lo => [⟨name, bits, lo, a⟩]
  | node _ left right, bits, lo =>
    left.cells (bits - 1) lo ++ right.cells (bits - 1) (lo + 2 ^ (bits - 1))

/-- The interval can be halved as often as the tree does. -/
def Fits : RangeTree ν α → (bits : ℕ) → Prop
  | leaf _ _, _ => True
  | node _ left right, bits => 0 < bits ∧ left.Fits (bits - 1) ∧ right.Fits (bits - 1)

/-! ## The leaves -/

lemma two_pow_pred (h : 0 < bits) : 2 ^ (bits - 1) + 2 ^ (bits - 1) = 2 ^ bits := by
  rw [← Nat.two_mul, Nat.mul_comm, ← Nat.pow_succ, Nat.succ_eq_add_one, Nat.sub_add_cancel h]

/-- A leaf lies in the interval of the tree. -/
lemma bounds_of_mem_cells (hfits : t.Fits bits) (hc : c ∈ t.cells bits lo) :
    lo ≤ c.lo ∧ c.lo + 2 ^ c.bits ≤ lo + 2 ^ bits := by
  induction t generalizing bits lo with
  | leaf name a =>
    obtain rfl := mem_singleton.mp hc
    exact ⟨Nat.le_refl _, Nat.le_refl _⟩
  | node name left right ihl ihr =>
    obtain ⟨hbits, hl, hr⟩ := hfits
    have hpow := two_pow_pred hbits
    have hpos := Nat.two_pow_pos (bits - 1)
    rcases mem_append.mp hc with hc | hc
    · have := ihl hl hc
      omega
    · have := ihr hr hc
      omega

/-- **A leaf begins at a multiple of its length.** -/
lemma aligned_of_mem_cells (haligned : 2 ^ bits ∣ lo) (hc : c ∈ t.cells bits lo) :
    2 ^ c.bits ∣ c.lo := by
  induction t generalizing bits lo with
  | leaf name a =>
    obtain rfl := mem_singleton.mp hc
    exact haligned
  | node name left right ihl ihr =>
    have hlo : 2 ^ (bits - 1) ∣ lo :=
      Nat.dvd_trans (Nat.pow_dvd_pow 2 (Nat.sub_le bits 1)) haligned
    rcases mem_append.mp hc with hc | hc
    · exact ihl hlo hc
    · exact ihr (Nat.dvd_add hlo (Nat.dvd_refl _)) hc

/-- **Each leaf ends before the next begins.** -/
lemma pairwise_cells (hfits : t.Fits bits) :
    (t.cells bits lo).Pairwise fun c c' => c.lo + 2 ^ c.bits ≤ c'.lo := by
  induction t generalizing bits lo with
  | leaf name a => exact pairwise_singleton _ _
  | node name left right ihl ihr =>
    obtain ⟨-, hl, hr⟩ := hfits
    refine pairwise_append.mpr ⟨ihl hl, ihr hr, fun c hc c' hc' => ?_⟩
    exact Nat.le_trans (bounds_of_mem_cells hl hc).2 (bounds_of_mem_cells hr hc').1

/-! ## The leaf of a number -/

def find : RangeTree ν α → (bits lo x : ℕ) → Cell ν α
  | leaf name a, bits, lo, _ => ⟨name, bits, lo, a⟩
  | node _ left right, bits, lo, x =>
    if x < lo + 2 ^ (bits - 1) then left.find (bits - 1) lo x
    else right.find (bits - 1) (lo + 2 ^ (bits - 1)) x

lemma find_mem_cells (t : RangeTree ν α) (bits lo x : ℕ) :
    t.find bits lo x ∈ t.cells bits lo := by
  induction t generalizing bits lo with
  | leaf name a => exact mem_singleton_self _
  | node name left right ihl ihr =>
    rw [find, cells, mem_append]
    split
    · exact .inl (ihl _ _)
    · exact .inr (ihr _ _)

/-- **Every number of the interval is in the leaf that is found for it.** -/
lemma contains_find (hfits : t.Fits bits) (hlo : lo ≤ x) (hhi : x < lo + 2 ^ bits) :
    (t.find bits lo x).Contains x := by
  induction t generalizing bits lo with
  | leaf name a => exact ⟨hlo, hhi⟩
  | node name left right ihl ihr =>
    obtain ⟨hbits, hl, hr⟩ := hfits
    have hpow := two_pow_pred hbits
    rw [find]
    split
    · next hx => exact ihl hl hlo hx
    · next hx => exact ihr hr (by omega) (by omega)

/-! ## Names -/

lemma name_mem_names_of_mem_cells (hc : c ∈ t.cells bits lo) : c.name ∈ t.names := by
  induction t generalizing bits lo with
  | leaf name a =>
    obtain rfl := mem_singleton.mp hc
    exact mem_singleton_self _
  | node name left right ihl ihr =>
    rw [names, mem_cons, mem_append]
    rcases mem_append.mp hc with hc | hc
    · exact .inr (.inl (ihl hc))
    · exact .inr (.inr (ihr hc))

/-- The parts of a tree in which no name is used twice. -/
lemma nodup_node {name : ν} {left right : RangeTree ν α}
    (h : (node name left right).names.Nodup) :
    left.names.Nodup ∧ right.names.Nodup ∧ (∀ n ∈ left.names, n ∉ right.names) ∧
      name ∉ left.names ∧ name ∉ right.names := by
  rw [names, nodup_cons, mem_append, not_or, nodup_append'] at h
  obtain ⟨⟨hnl, hnr⟩, hl, hr, hdisjoint⟩ := h
  exact ⟨hl, hr, fun n hn hn' => hdisjoint hn hn', hnl, hnr⟩

/-! ## A leaf makes place for a tree -/

section Replace

variable [DecidableEq ν]

/-- The tree with another one in the place of a leaf. -/
def replace : (t : RangeTree ν α) → (n : ν) → (new : RangeTree ν α) → RangeTree ν α
  | leaf name a, n, new => if name = n then new else leaf name a
  | node name left right, n, new => node name (left.replace n new) (right.replace n new)

lemma replace_leaf (name : ν) (a : α) : (leaf name a).replace name new = new := if_pos rfl

lemma replace_of_notMem {n} (h : n ∉ t.names) : t.replace n new = t := by
  induction t with
  | leaf name a =>
    have hne : name ≠ n := fun heq => h (mem_singleton.mpr heq.symm)
    exact if_neg hne
  | node name left right ihl ihr =>
    rw [names, mem_cons, mem_append, not_or, not_or] at h
    rw [replace, ihl h.2.1, ihr h.2.2]

/-- In which half the leaf is, and that the other half stays. -/
lemma replace_node (new : RangeTree ν α) {name : ν} {left right : RangeTree ν α}
    (hnodup : (node name left right).names.Nodup)
    (hc : c ∈ (node name left right).cells bits lo) :
    c ∈ left.cells (bits - 1) lo ∧ right.replace c.name new = right ∨
      c ∈ right.cells (bits - 1) (lo + 2 ^ (bits - 1)) ∧ left.replace c.name new = left := by
  obtain ⟨-, -, hdisjoint, -, -⟩ := nodup_node hnodup
  rcases mem_append.mp hc with hc | hc
  · exact .inl ⟨hc, replace_of_notMem (hdisjoint _ (name_mem_names_of_mem_cells hc))⟩
  · refine .inr ⟨hc, replace_of_notMem fun hmem => ?_⟩
    exact hdisjoint _ hmem (name_mem_names_of_mem_cells hc)

lemma name_replace (h : new.name = c.name) : (t.replace c.name new).name = t.name := by
  cases t with
  | leaf name a =>
    rw [replace]
    split
    · next heq => exact h.trans heq.symm
    · rfl
  | node name left right => rfl

/-- **What becomes of the leaves and the names**: those of the new tree stand where the old leaf and
its name stood. -/
lemma exists_replace (new : RangeTree ν α) (hnodup : t.names.Nodup) (hc : c ∈ t.cells bits lo) :
    ∃ before after names₁ names₂, t.cells bits lo = before ++ c :: after ∧
      (t.replace c.name new).cells bits lo = before ++ (new.cells c.bits c.lo ++ after) ∧
      t.names = names₁ ++ c.name :: names₂ ∧
      (t.replace c.name new).names = names₁ ++ (new.names ++ names₂) := by
  induction t generalizing bits lo with
  | leaf name a =>
    obtain rfl := mem_singleton.mp hc
    rw [replace_leaf]
    exact ⟨[], [], [], [], rfl, (append_nil _).symm, rfl, (append_nil _).symm⟩
  | node name left right ihl ihr =>
    obtain ⟨hl, hr, -, -, -⟩ := nodup_node hnodup
    rcases replace_node new hnodup hc with ⟨hc, hother⟩ | ⟨hc, hother⟩
    · obtain ⟨before, after, names₁, names₂, hcells, hcells', hnames, hnames'⟩ := ihl hl hc
      refine ⟨before, after ++ right.cells (bits - 1) (lo + 2 ^ (bits - 1)), name :: names₁,
        names₂ ++ right.names, ?_⟩
      simp only [replace, hother, cells, names, hcells, hcells', hnames, hnames', append_assoc,
        cons_append, and_self]
    · obtain ⟨before, after, names₁, names₂, hcells, hcells', hnames, hnames'⟩ := ihr hr hc
      refine ⟨left.cells (bits - 1) lo ++ before, after, name :: (left.names ++ names₁), names₂, ?_⟩
      simp only [replace, hother, cells, names, hcells, hcells', hnames, hnames', append_assoc,
        cons_append, and_self]

lemma nodup_replace (hnodup : t.names.Nodup) (hc : c ∈ t.cells bits lo)
    (hnew : new.names.Nodup) (hfresh : ∀ n ∈ new.names, n = c.name ∨ n ∉ t.names) :
    (t.replace c.name new).names.Nodup := by
  obtain ⟨-, -, before, after, -, -, hnames, hnames'⟩ := exists_replace new hnodup hc
  have hapart : ∀ n ∈ new.names, n ∉ before ++ after := by
    intro n hn hmem
    rw [hnames, nodup_middle, nodup_cons] at hnodup
    rcases hfresh n hn with rfl | hfresh
    · exact hnodup.1 hmem
    · rw [hnames, mem_append] at hfresh
      rw [mem_append] at hmem
      tauto
  rw [hnames, nodup_middle, nodup_cons] at hnodup
  have hperm : (before ++ (new.names ++ after)).Perm (new.names ++ (before ++ after)) := by
    rw [← append_assoc, ← append_assoc]
    exact perm_append_comm.append_right after
  rw [hnames', hperm.nodup_iff, nodup_append']
  exact ⟨hnew, hnodup.2, fun n hn hmem => hapart n hn hmem⟩

lemma fits_replace (hnodup : t.names.Nodup) (hfits : t.Fits bits) (hc : c ∈ t.cells bits lo)
    (hnew : new.Fits c.bits) : (t.replace c.name new).Fits bits := by
  induction t generalizing bits lo with
  | leaf name a =>
    obtain rfl := mem_singleton.mp hc
    rw [replace_leaf]
    exact hnew
  | node name left right ihl ihr =>
    obtain ⟨hl, hr, -, -, -⟩ := nodup_node hnodup
    obtain ⟨hbits, hfl, hfr⟩ := hfits
    rcases replace_node new hnodup hc with ⟨hc, hother⟩ | ⟨hc, hother⟩
    · rw [replace, hother]
      exact ⟨hbits, ihl hl hfl hc, hfr⟩
    · rw [replace, hother]
      exact ⟨hbits, hfl, ihr hr hfr hc⟩

end Replace

/-! ## A tree in memory -/

/-- **A memory that has the tree**: `M n bits lo d` says that it has, under the name `n`, a node for
the `2 ^ bits` numbers from `lo` on, which is a leaf or names its two subtrees. -/
def Holds (M : ν → ℕ → ℕ → α ⊕ ν × ν → Prop) : RangeTree ν α → (bits lo : ℕ) → Prop
  | leaf name a, bits, lo => M name bits lo (.inl a)
  | node name left right, bits, lo =>
    M name bits lo (.inr (left.name, right.name)) ∧ left.Holds M (bits - 1) lo ∧
      right.Holds M (bits - 1) (lo + 2 ^ (bits - 1))

section Holds

variable {M M' : ν → ℕ → ℕ → α ⊕ ν × ν → Prop}

section

variable (h : t.Holds M bits lo)
include h

/-- The root is there. -/
lemma Holds.root : ∃ d, M t.name bits lo d := by
  cases t with
  | leaf name a => exact ⟨_, h⟩
  | node name left right => exact ⟨_, h.1⟩

/-- Every node is there. -/
lemma Holds.exists_of_mem_names {n} (hn : n ∈ t.names) : ∃ bits lo d, M n bits lo d := by
  induction t generalizing bits lo with
  | leaf name a =>
    obtain rfl := mem_singleton.mp hn
    exact ⟨_, _, _, h⟩
  | node name left right ihl ihr =>
    obtain ⟨hroot, hl, hr⟩ := h
    rw [names, mem_cons, mem_append] at hn
    rcases hn with rfl | hn | hn
    · exact ⟨_, _, _, hroot⟩
    · exact ihl hl hn
    · exact ihr hr hn

/-- Every leaf is there, with its interval. -/
lemma Holds.of_mem_cells (hc : c ∈ t.cells bits lo) : M c.name c.bits c.lo (.inl c.data) := by
  induction t generalizing bits lo with
  | leaf name a =>
    obtain rfl := mem_singleton.mp hc
    exact h
  | node name left right ihl ihr =>
    rcases mem_append.mp hc with hc | hc
    · exact ihl h.2.1 hc
    · exact ihr h.2.2 hc

/-- A memory that keeps the nodes of the tree keeps the tree. -/
lemma Holds.mono (hkeep : ∀ n ∈ t.names, ∀ bits lo d, M n bits lo d → M' n bits lo d) :
    t.Holds M' bits lo := by
  induction t generalizing bits lo with
  | leaf name a => exact hkeep name (mem_singleton_self _) _ _ _ h
  | node name left right ihl ihr =>
    obtain ⟨hroot, hl, hr⟩ := h
    refine ⟨hkeep name mem_cons_self _ _ _ hroot, ihl hl fun n hn => ?_, ihr hr fun n hn => ?_⟩
    · exact hkeep n (mem_cons_of_mem _ (mem_append_left _ hn))
    · exact hkeep n (mem_cons_of_mem _ (mem_append_right _ hn))

/-- **A memory that has the new tree and keeps every node but one leaf** has the tree with the new
one in the place of that leaf. -/
lemma Holds.replace [DecidableEq ν] (hnodup : t.names.Nodup) (hc : c ∈ t.cells bits lo)
    (hname : new.name = c.name) (hnew : new.Holds M' c.bits c.lo)
    (hkeep : ∀ n ∈ t.names, n ≠ c.name → ∀ bits lo d, M n bits lo d → M' n bits lo d) :
    (t.replace c.name new).Holds M' bits lo := by
  induction t generalizing bits lo with
  | leaf name a =>
    obtain rfl := mem_singleton.mp hc
    rw [replace_leaf]
    exact hnew
  | node name left right ihl ihr =>
    obtain ⟨hl, hr, hdisjoint, hnl, hnr⟩ := nodup_node hnodup
    obtain ⟨hroot, hhl, hhr⟩ := h
    have hkeepl : ∀ n ∈ left.names, n ≠ c.name → ∀ bits lo d, M n bits lo d → M' n bits lo d :=
      fun n hn => hkeep n (mem_cons_of_mem _ (mem_append_left _ hn))
    have hkeepr : ∀ n ∈ right.names, n ≠ c.name → ∀ bits lo d, M n bits lo d → M' n bits lo d :=
      fun n hn => hkeep n (mem_cons_of_mem _ (mem_append_right _ hn))
    refine ⟨?_, ?_⟩
    · rw [name_replace hname, name_replace hname]
      refine hkeep name mem_cons_self ?_ _ _ _ hroot
      rintro rfl
      rcases mem_append.mp hc with hc | hc
      · exact hnl (name_mem_names_of_mem_cells hc)
      · exact hnr (name_mem_names_of_mem_cells hc)
    · rcases mem_append.mp hc with hc | hc
      · have hcl := name_mem_names_of_mem_cells hc
        refine ⟨ihl hhl hl hc hkeepl, ?_⟩
        rw [replace_of_notMem (hdisjoint _ hcl)]
        refine hhr.mono fun n hn => hkeepr n hn ?_
        rintro rfl
        exact hdisjoint _ hcl hn
      · have hcr := name_mem_names_of_mem_cells hc
        refine ⟨?_, ihr hhr hr hc hkeepr⟩
        rw [replace_of_notMem fun hmem => hdisjoint _ hmem hcr]
        refine hhl.mono fun n hn => hkeepl n hn ?_
        rintro rfl
        exact hdisjoint _ hn hcr

end

end Holds

end RangeTree

end Machinery
