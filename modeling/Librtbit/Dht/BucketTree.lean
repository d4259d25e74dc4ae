import Librtbit.Dht.RoutingTable
import Librtbit.Machinery.Pool
import Librtbit.Machinery.RangeTree
import Librtbit.Machinery.Run

/-!
# Dht/BucketTree — the buckets of the routing table stay in order

The vector of a `BucketTree` keeps a tree that halves the range of all ids (`Represents`).  A round
of an insertion fills a leaf of that tree or puts two leaves in its place, and a mark changes no id;
so whatever is called, the table keeps its shape (`RoutingTable.run_wellFormed`).  The table keeps a
second count of its nodes, which is right as long as no bad node makes place for another
(`RoutingTable.lenExact_iff_spares`).

A leaf is split only for a ninth id, so it has at least four bits, and the bit that tells its halves
apart is one of the id.  It begins at a multiple of its length, so an id with its first bits lies in
it, whatever the others are (`randomWithin_spec`).
-/

namespace Librtbit.Dht

open Machinery Net RangeTree Dht.BucketTree List

/-! ## Sorted nodes -/

lemma sortById_perm (nodes : List RoutingTableNode) : (sortById nodes).Perm nodes :=
  mergeSort_perm _ _

/-- **Nodes with different ids are sorted strictly.** -/
theorem pairwise_sortById {nodes} (h : (nodes.map RoutingTableNode.id).Nodup) :
    (sortById nodes).Pairwise fun a b => a.id < b.id := by
  have hle : (sortById nodes).Pairwise fun a b => a.id ≤ b.id := by
    have htrans : ∀ a b c : RoutingTableNode, decide (a.id ≤ b.id) = true →
        decide (b.id ≤ c.id) = true → decide (a.id ≤ c.id) = true := by
      intro a b c hab hbc
      exact decide_eq_true ((of_decide_eq_true hab).trans (of_decide_eq_true hbc))
    have htotal : ∀ a b : RoutingTableNode,
        (decide (a.id ≤ b.id) || decide (b.id ≤ a.id)) = true := by
      intro a b
      rw [Bool.or_eq_true, decide_eq_true_iff, decide_eq_true_iff]
      exact le_total a.id b.id
    exact (pairwise_mergeSort htrans htotal nodes).imp of_decide_eq_true
  have hne : ((sortById nodes).map RoutingTableNode.id).Nodup :=
    ((sortById_perm nodes).map _).nodup_iff.mpr h
  exact hle.imp₂ (fun _ _ => lt_of_le_of_ne) (pairwise_map.mp hne)

/-! ## The tree in the vector -/

abbrev Bucket : Type := RangeTree.Cell ℕ LeafBucket

namespace BucketTree

variable {tree tree' : BucketTree} {t new : RangeTree ℕ LeafBucket} {c : Bucket}
  {bits lo fuel : ℕ} {id : Id20}

/-- The node for the `2 ^ bits` ids from `lo` on. -/
def nodeOf (bits lo : ℕ) (d : LeafBucket ⊕ ℕ × ℕ) : BucketTreeNode where
  bits
  start := .ofNat 20 lo
  endInclusive := .ofNat 20 (lo + 2 ^ bits - 1)
  data := d.elim .leaf fun (left, right) => .leftRight left right

/-- What the vector has at an index. -/
def At (tree : BucketTree) (n bits lo : ℕ) (d : LeafBucket ⊕ ℕ × ℕ) : Prop :=
  tree.data[n]? = some (nodeOf bits lo d)

/-- The leaf as the iterator shows it. -/
def itemOf (c : Bucket) : BucketTreeIteratorItem where
  bits := c.bits
  start := .ofNat 20 c.lo
  endInclusive := .ofNat 20 (c.lo + 2 ^ c.bits - 1)
  leaf := c.data

/-- An id is compared with the range of a node as a number. -/
lemma mem_nodeOf_iff (id : Id20) (d : LeafBucket ⊕ ℕ × ℕ) (h : lo + 2 ^ bits ≤ 2 ^ 160) :
    (nodeOf bits lo d).start ≤ id ∧ id ≤ (nodeOf bits lo d).endInclusive ↔
      lo ≤ id.value ∧ id.value < lo + 2 ^ bits := by
  have hpos := Nat.two_pow_pos bits
  have hstart : (nodeOf bits lo d).start.value = lo := Id.value_ofNat (by omega)
  have hend : (nodeOf bits lo d).endInclusive.value = lo + 2 ^ bits - 1 :=
    Id.value_ofNat (by omega)
  rw [Id.le_iff, Id.le_iff]
  omega

lemma getLeafFrom_leftRight {idx leftIdx rightIdx node left}
    (hnode : tree.data[idx]? = some node) (hdata : node.data = .leftRight leftIdx rightIdx)
    (hleft : tree.data[leftIdx]? = some left) :
    tree.getLeafFrom id (fuel + 1) idx =
      if left.start ≤ id ∧ id ≤ left.endInclusive then tree.getLeafFrom id fuel leftIdx
      else tree.getLeafFrom id fuel rightIdx := by
  simp only [getLeafFrom, hnode, hdata, hleft, Option.bind_eq_bind, Option.bind_some]

/-- **`get_leaf` finds the leaf of the tree.** -/
theorem getLeafFrom_of_holds (h : t.Holds tree.At bits lo) (hfits : t.Fits bits)
    (hbound : lo + 2 ^ bits ≤ 2 ^ 160) (hlo : lo ≤ id.value) (hhi : id.value < lo + 2 ^ bits)
    (hfuel : t.names.length ≤ fuel) :
    tree.getLeafFrom id fuel t.name = some (t.find bits lo id.value).name := by
  induction t generalizing bits lo fuel with
  | leaf name a =>
    obtain ⟨fuel, rfl⟩ : ∃ k, fuel = k + 1 := ⟨fuel - 1, by simp [names] at hfuel; omega⟩
    have hdata : tree.data[name]? = some (nodeOf bits lo (.inl a)) := h
    rw [RangeTree.name, getLeafFrom, hdata]
    rfl
  | node name left right ihl ihr =>
    rw [names, length_cons, length_append] at hfuel
    obtain ⟨fuel, rfl⟩ : ∃ k, fuel = k + 1 := ⟨fuel - 1, by omega⟩
    obtain ⟨hroot, hl, hr⟩ := h
    obtain ⟨hbits, hfl, hfr⟩ := hfits
    have hpow := two_pow_pred hbits
    obtain ⟨d, hleft⟩ := hl.root
    have hhalf : lo + 2 ^ (bits - 1) ≤ 2 ^ 160 := by omega
    have hwhich := mem_nodeOf_iff id d hhalf
    rw [RangeTree.name, getLeafFrom_leftRight hroot rfl hleft, RangeTree.find]
    by_cases hx : id.value < lo + 2 ^ (bits - 1)
    · rw [if_pos (hwhich.mpr ⟨hlo, hx⟩), if_pos hx]
      exact ihl hl hfl (by omega) hlo hx (by omega)
    · rw [if_neg fun hin => hx (hwhich.mp hin).2, if_neg hx]
      exact ihr hr hfr (by omega) (by omega) (by omega) (by omega)

/-- **The iterator shows the leaves of the tree in their order.** -/
theorem iterLeavesFrom_of_holds (h : t.Holds tree.At bits lo) (fuel : ℕ) (queue : List ℕ) :
    tree.iterLeavesFrom (t.names.length + fuel) (t.name :: queue) =
      (tree.iterLeavesFrom fuel queue).map ((t.cells bits lo).map itemOf ++ ·) := by
  induction t generalizing bits lo fuel queue with
  | leaf name a =>
    have hdata : tree.data[name]? = some (nodeOf bits lo (.inl a)) := h
    rw [RangeTree.names, length_singleton, Nat.add_comm, RangeTree.name, iterLeavesFrom, hdata]
    rfl
  | node name left right ihl ihr =>
    obtain ⟨hroot, hl, hr⟩ := h
    have hdata := hroot
    have hlength : (node name left right).names.length + fuel =
        left.names.length + (right.names.length + fuel) + 1 := by
      rw [names, length_cons, length_append]
      omega
    rw [hlength, RangeTree.name, iterLeavesFrom, hdata]
    refine (ihl hl _ _).trans ?_
    rw [ihr hr, cells, map_append, Option.map_map]
    simp only [Function.comp_def, append_assoc]

/-! ## What the vector represents -/

/-- A bucket in order. -/
structure Tidy (c : Bucket) : Prop where
  within : ∀ n ∈ c.data.nodes, c.Contains n.id.value
  length_le : c.data.nodes.length ≤ 8
  sorted : c.data.nodes.Pairwise fun a b => a.id < b.id
  /-- There is room for eight ids. -/
  three_le_bits : 3 ≤ c.bits

/-- The number of nodes in some buckets. -/
def count (cells : List Bucket) : ℕ := (cells.map fun c => c.data.nodes.length).sum

/-- **The vector keeps a tree**, with its buckets in order and all nodes counted. -/
structure Represents (tree : BucketTree) (t : RangeTree ℕ LeafBucket) : Prop where
  root : t.name = 0
  nodup : t.names.Nodup
  fits : t.Fits 160
  holds : t.Holds tree.At 160 0
  tidy : ∀ c ∈ t.cells 160 0, Tidy c
  size_eq : tree.size = count (t.cells 160 0)
  size_le : tree.size ≤ tree.maxSize

namespace Represents

variable (h : Represents tree t)
include h

lemma lt_length {n} (hn : n ∈ t.names) : n < tree.data.length := by
  obtain ⟨bits, lo, d, hat⟩ := h.holds.exists_of_mem_names hn
  exact (List.getElem?_eq_some_iff.mp hat).1

lemma length_names_le : t.names.length ≤ tree.data.length := by
  have hsub : t.names ⊆ List.range tree.data.length := fun n hn =>
    mem_range.mpr (h.lt_length hn)
  have hle := (h.nodup.subperm hsub).length_le
  rwa [length_range] at hle

lemma bounds (hc : c ∈ t.cells 160 0) : c.lo + 2 ^ c.bits ≤ 2 ^ 160 := by
  have := (bounds_of_mem_cells h.fits hc).2
  omega

omit h

lemma aligned (hc : c ∈ t.cells 160 0) : 2 ^ c.bits ∣ c.lo :=
  aligned_of_mem_cells (Nat.dvd_zero _) hc

section

variable (h : Represents tree t)
include h

lemma getElem? (hc : c ∈ t.cells 160 0) :
    tree.data[c.name]? = some (nodeOf c.bits c.lo (.inl c.data)) :=
  h.holds.of_mem_cells hc

lemma getLeaf_eq (id : Id20) : tree.getLeaf id = some (t.find 160 0 id.value).name := by
  have hleaf := getLeafFrom_of_holds h.holds h.fits (Nat.le_of_eq (Nat.zero_add _))
    (Nat.zero_le _) (Nat.lt_of_lt_of_eq id.value_lt (Nat.zero_add _).symm) h.length_names_le
  rwa [h.root] at hleaf

lemma contains_find (id : Id20) : (t.find 160 0 id.value).Contains id.value :=
  RangeTree.contains_find h.fits (Nat.zero_le _)
    (Nat.lt_of_lt_of_eq id.value_lt (Nat.zero_add _).symm)

lemma iterLeaves_eq : tree.iterLeaves = some ((t.cells 160 0).map itemOf) := by
  obtain ⟨rest, hrest⟩ := Nat.exists_eq_add_of_le h.length_names_le
  have hleaves := iterLeavesFrom_of_holds h.holds rest []
  rw [iterLeavesFrom, Option.map_some, append_nil, h.root, ← hrest] at hleaves
  exact hleaves

/-! ### Changes -/

/-- **A leaf makes place for a tree**: in the vector, what is new is under the name of the leaf and
at the end. -/
theorem replace (hc : c ∈ t.cells 160 0) (hname : new.name = c.name) (hnodup : new.names.Nodup)
    (hfresh : ∀ n ∈ new.names, n = c.name ∨ tree.data.length ≤ n) (hfits : new.Fits c.bits)
    (hholds : new.Holds tree'.At c.bits c.lo)
    (hkeep : ∀ n < tree.data.length, n ≠ c.name → tree'.data[n]? = tree.data[n]?)
    (htidy : ∀ c' ∈ new.cells c.bits c.lo, Tidy c')
    (hsize : tree'.size + c.data.nodes.length = tree.size + count (new.cells c.bits c.lo))
    (hle : tree'.size ≤ tree'.maxSize) :
    Represents tree' (t.replace c.name new) where
  root := (name_replace hname).trans h.root
  nodup := by
    refine nodup_replace h.nodup hc hnodup fun n hn => (hfresh n hn).imp_right ?_
    intro hn' hmem
    exact absurd (h.lt_length hmem) (Nat.not_lt.mpr hn')
  fits := fits_replace h.nodup h.fits hc hfits
  holds := by
    refine h.holds.replace h.nodup hc hname hholds fun n hn hne bits lo d hat => ?_
    exact (hkeep n (h.lt_length hn) hne).trans hat
  tidy c' hc' := by
    obtain ⟨before, after, -, -, hcells, hcells', -, -⟩ := exists_replace new h.nodup hc
    have hkept := h.tidy c'
    rw [hcells, mem_append, mem_cons] at hkept
    rw [hcells', mem_append, mem_append] at hc'
    exact hc'.elim (hkept ∘ .inl) fun hc' => hc'.elim (htidy c') (hkept ∘ .inr ∘ .inr)
  size_eq := by
    obtain ⟨before, after, -, -, hcells, hcells', -, -⟩ := exists_replace new h.nodup hc
    have hsum := h.size_eq
    rw [hcells] at hsum
    rw [hcells']
    simp only [count, map_append, map_cons, sum_append, sum_cons]
      at hsum hsize ⊢
    omega
  size_le := hle

end

end Represents

@[simp] lemma getElem?_setData (tree : BucketTree) (idx n : ℕ) (data : BucketTreeNodeData) :
    (tree.setData idx data).data[n]? =
      if idx = n then (tree.data[n]?).map fun node => { node with data } else tree.data[n]? := by
  rw [setData, getElem?_modify]
  split
  · rfl
  · exact Option.map_id'

variable {bucket : LeafBucket}

/-- **The bucket of a leaf is changed.** -/
theorem Represents.setBucket (h : Represents tree t) (hc : c ∈ t.cells 160 0)
    {size} (htidy : Tidy { c with data := bucket })
    (hsize : size + c.data.nodes.length = tree.size + bucket.nodes.length)
    (hle : size ≤ tree.maxSize) :
    ∃ t', Represents { tree.setData c.name (.leaf bucket) with size } t' := by
  have hname : (leaf c.name bucket).name = c.name := rfl
  refine ⟨_, h.replace hc hname (nodup_singleton _)
    (fun n hn => Or.inl (mem_singleton.mp hn)) trivial ?_ ?_ ?_ hsize hle⟩
  · show (tree.setData c.name (.leaf bucket)).data[c.name]? = _
    rw [getElem?_setData, if_pos rfl, h.getElem? hc]
    rfl
  · intro n _ hne
    rw [getElem?_setData, if_neg (Ne.symm hne)]
  · intro c' hc'
    obtain rfl := mem_singleton.mp hc'
    exact htidy

/-! ## Buckets that stay in order -/

lemma Tidy.nodup (h : Tidy c) : (c.data.nodes.map RoutingTableNode.id).Nodup :=
  pairwise_map.mpr (h.sorted.imp fun hlt => hlt.ne)

variable {now : Instant}

/-- Sorting puts a bucket in order. -/
lemma tidy_sortById {nodes} (hnodup : (nodes.map RoutingTableNode.id).Nodup)
    (hwithin : ∀ n ∈ nodes, c.Contains n.id.value) (hlength : nodes.length ≤ 8)
    (hbits : 3 ≤ c.bits) : Tidy { c with data := ⟨sortById nodes, now⟩ } where
  within n hn := hwithin n ((sortById_perm nodes).mem_iff.mp hn)
  length_le := (sortById_perm nodes).length_eq.trans_le hlength
  sorted := pairwise_sortById hnodup
  three_le_bits := hbits

/-- A node takes the place of another. -/
lemma Tidy.replaceBad (h : Tidy c) {node bad}
    (hnew : node.id ∉ c.data.nodes.map RoutingTableNode.id)
    (hid : c.Contains node.id.value) (hbad : c.data.replaceBad node now = some (bucket, bad)) :
    Tidy { c with data := bucket } ∧ bucket.nodes.length = c.data.nodes.length := by
  obtain ⟨i, -, hset⟩ := Option.bind_eq_some_iff.mp hbad
  obtain ⟨_, -, hset⟩ := Option.bind_eq_some_iff.mp hset
  cases hset
  have hlength : (c.data.nodes.set i node).length = c.data.nodes.length := length_set ..
  refine ⟨tidy_sortById ?_ ?_ (hlength.trans_le h.length_le) h.three_le_bits,
    (sortById_perm _).length_eq.trans hlength⟩
  · rw [map_set]
    exact h.nodup.set hnew
  intro n hn
  rcases mem_or_eq_of_mem_set hn with hn | rfl
  · exact h.within n hn
  · exact hid

/-- A node is added to a bucket that is not full. -/
lemma Tidy.push (h : Tidy c) (node : RoutingTableNode) (now : Instant)
    (hnew : node.id ∉ c.data.nodes.map RoutingTableNode.id) (hid : c.Contains node.id.value)
    (hlength : c.data.nodes.length < 8) :
    Tidy { c with data := c.data.push node now } ∧
      (c.data.push node now).nodes.length = c.data.nodes.length + 1 := by
  have hlength' : (c.data.nodes ++ [node]).length = c.data.nodes.length + 1 :=
    length_append
  refine ⟨tidy_sortById ?_ ?_ (hlength'.trans_le hlength) h.three_le_bits,
    (sortById_perm _).length_eq.trans hlength'⟩
  · rw [map_append, map_singleton, ← concat_eq_append]
    exact h.nodup.concat hnew
  intro n hn
  rcases mem_append.mp hn with hn | hn
  · exact h.within n hn
  · obtain rfl := mem_singleton.mp hn
    exact hid

/-- Only the ids matter. -/
lemma Tidy.of_ids_eq (h : Tidy c) (bucket : LeafBucket)
    (hids : bucket.nodes.map RoutingTableNode.id = c.data.nodes.map RoutingTableNode.id) :
    Tidy { c with data := bucket } ∧ bucket.nodes.length = c.data.nodes.length := by
  have hlength : bucket.nodes.length = c.data.nodes.length := by
    simpa only [length_map] using congrArg List.length hids
  refine ⟨⟨fun n hn => ?_, hlength.trans_le h.length_le, ?_, h.three_le_bits⟩, hlength⟩
  · have hmem : n.id ∈ c.data.nodes.map RoutingTableNode.id := hids ▸ mem_map_of_mem hn
    obtain ⟨n', hn', heq⟩ := mem_map.mp hmem
    exact heq ▸ h.within n' hn'
  · have hsorted := pairwise_map.mpr h.sorted
    rw [← hids] at hsorted
    exact pairwise_map.mp hsorted

/-! ## Splits -/

/-- **A ninth id needs four bits.** -/
theorem Tidy.four_le_bits (h : Tidy c) (hid : c.Contains id.value)
    (hnew : id ∉ c.data.nodes.map RoutingTableNode.id) (hfull : 8 ≤ c.data.nodes.length) :
    4 ≤ c.bits := by
  have hnodup : ((id :: c.data.nodes.map RoutingTableNode.id).map Id.value).Nodup :=
    (nodup_cons.mpr ⟨hnew, h.nodup⟩).map fun _ _ => Id.value_injective
  have hsub : (id :: c.data.nodes.map RoutingTableNode.id).map Id.value ⊆
      List.range' c.lo (2 ^ c.bits) := by
    intro x hx
    obtain ⟨a, ha, rfl⟩ := mem_map.mp hx
    rw [mem_range'_1]
    rcases mem_cons.mp ha with rfl | ha
    · exact hid
    · obtain ⟨n, hn, rfl⟩ := mem_map.mp ha
      exact h.within n hn
  have hle := (hnodup.subperm hsub).length_le
  rw [length_range', length_map, length_cons, length_map] at hle
  by_contra hbits
  have hpow : 2 ^ c.bits ≤ 2 ^ 3 := Nat.pow_le_pow_right (by decide) (by omega)
  omega

variable (haligned : 2 ^ bits ∣ lo) (hbound : lo + 2 ^ bits ≤ 2 ^ 160)
include haligned hbound

/-- The bit that tells the halves apart is clear in the first id of the range… -/
lemma setBit_start (hpos : 0 < bits) (hbits : bits ≤ 160) :
    (Id.ofNat 20 lo).setBit (160 - bits) true = some (.ofNat 20 (lo + 2 ^ (bits - 1))) := by
  have hpow := two_pow_pred hpos
  have hone := Nat.two_pow_pos (bits - 1)
  refine Id.setBit_eq_some _ (by omega) fun j hj => ?_
  rw [Id.value_ofNat (by omega), Id.value_ofNat (by omega)]
  obtain ⟨k, rfl⟩ := haligned
  rw [Nat.testBit_two_pow_mul_add _ (by omega)]
  grind

/-- …and set in the last. -/
lemma setBit_end (hpos : 0 < bits) (hbits : bits ≤ 160) :
    (Id.ofNat 20 (lo + 2 ^ bits - 1)).setBit (160 - bits) false =
      some (.ofNat 20 (lo + 2 ^ (bits - 1) - 1)) := by
  have hpow := two_pow_pred hpos
  have hone := Nat.two_pow_pos (bits - 1)
  refine Id.setBit_eq_some _ (by omega) fun j hj => ?_
  rw [Id.value_ofNat (by omega), Id.value_ofNat (by omega)]
  obtain ⟨k, rfl⟩ := haligned
  rw [Nat.add_sub_assoc (by omega), Nat.add_sub_assoc (by omega),
    Nat.testBit_two_pow_mul_add _ (by omega), Nat.testBit_two_pow_mul_add _ (by omega),
    Nat.testBit_two_pow_sub_one, Nat.testBit_two_pow_sub_one]
  grind

/-- **An aligned range is split in the middle**, and the assertions hold. -/
theorem computeSplitStartEnd_eq (hbits : 2 ≤ bits) :
    computeSplitStartEnd (.ofNat 20 lo) (.ofNat 20 (lo + 2 ^ bits - 1)) bits =
      some ((.ofNat 20 lo, .ofNat 20 (lo + 2 ^ (bits - 1) - 1)),
        .ofNat 20 (lo + 2 ^ (bits - 1)), .ofNat 20 (lo + 2 ^ bits - 1)) := by
  have hpos : 0 < bits := by omega
  have hpow := two_pow_pred hpos
  have htwo : 2 ^ 1 ≤ 2 ^ (bits - 1) := Nat.pow_le_pow_right (by decide) (by omega)
  have hle : 2 ^ bits ≤ 2 ^ 160 := by omega
  have hle' : bits ≤ 160 := (Nat.pow_le_pow_iff_right (by decide)).mp hle
  have hlt {m n : ℕ} (hmn : m < n) (hn : n < lo + 2 ^ bits) : Id.ofNat 20 m < Id.ofNat 20 n :=
    Id.ofNat_lt_ofNat hmn (by omega)
  simp (disch := omega) only [computeSplitStartEnd, guard, hle', setBit_end haligned hbound hpos
    hle',
    setBit_start haligned hbound hpos hle', Option.bind_eq_bind, Option.pure_def,
    Option.bind_some, hlt, if_true]

omit hbound haligned

/-- The nodes of a half are its own. -/
lemma Tidy.filter (h : Tidy c) {p name bits lo} (hbits : 3 ≤ bits)
    (hp : ∀ n, p n = true → c.Contains n.id.value → lo ≤ n.id.value ∧ n.id.value < lo + 2 ^ bits) :
    Tidy ⟨name, bits, lo, ⟨c.data.nodes.filter p, now⟩⟩ where
  within n hn := by
    obtain ⟨hmem, hpn⟩ := mem_filter.mp hn
    exact hp n hpn (h.within n hmem)
  length_le := (length_filter_le _ _).trans h.length_le
  sorted := h.sorted.filter _
  three_le_bits := hbits

section Halves

variable (c) (clock : ℕ → Instant)

/-- Whether an id is for the left half of a leaf. -/
def goesLeft (id : Id20) : Bool := decide (id < .ofNat 20 (c.lo + 2 ^ (c.bits - 1)))

/-- The left half of a leaf, at the index `l`… -/
def leftHalf (l : ℕ) : Bucket :=
  ⟨l, c.bits - 1, c.lo, ⟨c.data.nodes.filter fun n => goesLeft c n.id, clock 0⟩⟩

/-- …and the right half. -/
def rightHalf (l : ℕ) : Bucket :=
  ⟨l, c.bits - 1, c.lo + 2 ^ (c.bits - 1),
    ⟨c.data.nodes.filter (not ∘ fun n => goesLeft c n.id), clock 1⟩⟩

/-- The tree of the two halves. -/
def halves (l : ℕ) : RangeTree ℕ LeafBucket :=
  .node c.name (.leaf l (leftHalf c clock l).data) (.leaf (l + 1) (rightHalf c clock (l + 1)).data)

/-- The vector with the two halves. -/
def splitLeaf (tree : BucketTree) : BucketTree :=
  let l := tree.data.length
  let left := nodeOf (c.bits - 1) c.lo (.inl (leftHalf c clock l).data)
  let right := nodeOf (c.bits - 1) (c.lo + 2 ^ (c.bits - 1)) (.inl (rightHalf c clock (l + 1)).data)
  { tree with data := tree.data ++ [left, right] }.setData c.name (.leftRight l (l + 1))

variable {c clock}

lemma goesLeft_iff (id : Id20) (hbits : 0 < c.bits) (hbound : c.lo + 2 ^ c.bits ≤ 2 ^ 160) :
    goesLeft c id = true ↔ id.value < c.lo + 2 ^ (c.bits - 1) := by
  have hpow := two_pow_pred hbits
  have hpos := Nat.two_pow_pos (c.bits - 1)
  have hvalue : (Id.ofNat 20 (c.lo + 2 ^ (c.bits - 1))).value = c.lo + 2 ^ (c.bits - 1) :=
    Id.value_ofNat (by omega)
  rw [goesLeft, decide_eq_true_iff, Id.lt_iff, hvalue]

lemma split_eq (tree : BucketTree) (id : Id20) (clock : ℕ → Instant)
    (haligned : 2 ^ c.bits ∣ c.lo) (hbound : c.lo + 2 ^ c.bits ≤ 2 ^ 160) (hbits : 2 ≤ c.bits) :
    tree.split c.name (nodeOf c.bits c.lo (.inl c.data)) c.data.nodes id clock =
      some (splitLeaf c clock tree,
        if goesLeft c id then tree.data.length else tree.data.length + 1) := by
  have hend : c.lo + 2 ^ (c.bits - 1) + 2 ^ (c.bits - 1) - 1 = c.lo + 2 ^ c.bits - 1 := by
    rw [Nat.add_assoc, two_pow_pred (by omega)]
  have hhalves := computeSplitStartEnd_eq haligned hbound hbits
  simp only [split, nodeOf, hhalves, Option.bind_eq_bind, Option.bind_some,
    Option.pure_def, partition_eq_filter_filter, splitLeaf, leftHalf, rightHalf, goesLeft,
    hend, decide_eq_true_eq, Sum.elim_inl]

lemma Tidy.leftHalf (h : Tidy c) (hbits : 4 ≤ c.bits) (hbound : c.lo + 2 ^ c.bits ≤ 2 ^ 160)
    (l : ℕ) : Tidy (leftHalf c clock l) := by
  refine h.filter (Nat.le_sub_one_of_lt hbits) fun n hn hin => ?_
  exact ⟨hin.1, (goesLeft_iff n.id (by omega) hbound).mp hn⟩

lemma Tidy.rightHalf (h : Tidy c) (hbits : 4 ≤ c.bits) (hbound : c.lo + 2 ^ c.bits ≤ 2 ^ 160)
    (l : ℕ) : Tidy (rightHalf c clock l) := by
  have hpos : 0 < c.bits := by omega
  refine h.filter (Nat.le_sub_one_of_lt hbits) fun n hn hin => ?_
  have hright : ¬ n.id.value < c.lo + 2 ^ (c.bits - 1) := by
    rw [← goesLeft_iff n.id hpos hbound]
    simpa using hn
  rw [Nat.add_assoc, two_pow_pred hpos]
  exact ⟨Nat.not_lt.mp hright, hin.2⟩

/-- No node is lost. -/
lemma count_halves (l : ℕ) :
    count ((halves c clock l).cells c.bits c.lo) = c.data.nodes.length := by
  rw [length_eq_length_filter_add fun n => goesLeft c n.id]
  rfl

lemma Represents.splitLeaf (h : Represents tree t) (hc : c ∈ t.cells 160 0) (hbits : 4 ≤ c.bits)
    (clock : ℕ → Instant) :
    Represents (splitLeaf c clock tree) (t.replace c.name (halves c clock tree.data.length)) := by
  have hlt := h.lt_length (name_mem_names_of_mem_cells hc)
  have hbound := h.bounds hc
  refine h.replace hc rfl ?_ ?_ ⟨by omega, trivial, trivial⟩ ⟨?_, ?_, ?_⟩ ?_ ?_ ?_ h.size_le
  · show [c.name, tree.data.length, tree.data.length + 1].Nodup
    simp
    omega
  · intro n hn
    have hn' : n ∈ [c.name, tree.data.length, tree.data.length + 1] := hn
    simp only [mem_cons, not_mem_nil, or_false] at hn'
    omega
  · show (BucketTree.splitLeaf c clock tree).data[c.name]? = _
    rw [BucketTree.splitLeaf, getElem?_setData, if_pos rfl, getElem?_append_left hlt, h.getElem? hc]
    rfl
  · show (BucketTree.splitLeaf c clock tree).data[tree.data.length]? = _
    rw [BucketTree.splitLeaf, getElem?_setData, if_neg hlt.ne, getElem?_append_right le_rfl,
      Nat.sub_self]
    rfl
  · show (BucketTree.splitLeaf c clock tree).data[tree.data.length + 1]? = _
    rw [BucketTree.splitLeaf, getElem?_setData, if_neg (by omega),
      getElem?_append_right (Nat.le_add_right _ 1), Nat.add_sub_cancel_left]
    rfl
  · intro n hn hne
    rw [BucketTree.splitLeaf, getElem?_setData, if_neg hne.symm, getElem?_append_left hn]
  · intro c' hc'
    have hc'' : c' ∈ [leftHalf c clock _, rightHalf c clock _] := hc'
    rcases mem_pair.mp hc'' with rfl | rfl
    · exact (h.tidy c hc).leftHalf hbits hbound _
    · exact (h.tidy c hc).rightHalf hbits hbound _
  · rw [count_halves]
    rfl

end Halves

/-- **A leaf is split**, and the id goes on into the half that is for it. -/
theorem Represents.split (h : Represents tree t) (hc : c ∈ t.cells 160 0)
    (hid : c.Contains id.value) (hbits : 4 ≤ c.bits) (clock : ℕ → Instant) :
    ∃ tree' t' c', tree.split c.name (nodeOf c.bits c.lo (.inl c.data)) c.data.nodes id clock =
        some (tree', c'.name) ∧
      tree'.maxSize = tree.maxSize ∧ Represents tree' t' ∧ c' ∈ t'.cells 160 0 ∧
      c'.Contains id.value ∧ c'.bits < c.bits := by
  have hpos : 0 < c.bits := by omega
  have hpow := two_pow_pred hpos
  have hlt : c.bits - 1 < c.bits := by omega
  have hleft := goesLeft_iff id hpos (h.bounds hc)
  have hsplit := split_eq tree id clock (aligned hc) (h.bounds hc) (by omega)
  have hrep := h.splitLeaf hc hbits clock
  have hmem : ∀ c' ∈ [leftHalf c clock tree.data.length, rightHalf c clock (tree.data.length + 1)],
      c' ∈ (t.replace c.name (halves c clock tree.data.length)).cells 160 0 := by
    intro c' hc'
    obtain ⟨before, after, -, -, -, hcells', -, -⟩ :=
      exists_replace (halves c clock tree.data.length) h.nodup hc
    rw [hcells']
    exact mem_append_right _ (mem_append_left _ hc')
  obtain ⟨hlo, hhi⟩ := hid
  by_cases hgoes : goesLeft c id = true
  · rw [if_pos hgoes] at hsplit
    exact ⟨_, _, leftHalf c clock tree.data.length, hsplit, rfl, hrep, hmem _ mem_cons_self,
      ⟨hlo, hleft.mp hgoes⟩, hlt⟩
  rw [if_neg hgoes] at hsplit
  refine ⟨_, _, rightHalf c clock (tree.data.length + 1), hsplit, rfl, hrep,
    hmem _ (mem_cons_of_mem _ mem_cons_self), ?_, hlt⟩
  rw [hleft] at hgoes
  show c.lo + 2 ^ (c.bits - 1) ≤ id.value ∧
    id.value < c.lo + 2 ^ (c.bits - 1) + 2 ^ (c.bits - 1)
  omega

/-! ## Insertions and marks -/

/-- **What a round leaves behind**: a tree, and if it goes on, a smaller leaf for the id. -/
def Round.Keeps (id : Id20) (maxSize bits : ℕ) : Round → Prop
  | .done tree _ => tree.maxSize = maxSize ∧ ∃ t, Represents tree t
  | .next tree idx => tree.maxSize = maxSize ∧ ∃ t, Represents tree t ∧
    ∃ c ∈ t.cells 160 0, c.name = idx ∧ c.Contains id.value ∧ c.bits < bits

variable (h : Represents tree t)
include h

/-- **One round.** -/
theorem Represents.insertRound (hc : c ∈ t.cells 160 0)
    (hid : c.Contains id.value) (selfId : Id20) (addr : SocketAddr) (now : Instant)
    (clock : ℕ → Instant) :
    ∃ r, tree.insertRound selfId id addr now clock c.name = some r ∧
      r.Keeps id tree.maxSize c.bits := by
  have htidy := h.tidy c hc
  have hsize := h.size_le
  have hdata : (nodeOf c.bits c.lo (.inl c.data)).data = .leaf c.data := rfl
  simp only [BucketTree.insertRound, h.getElem? hc, Option.bind_eq_bind, Option.bind_some, hdata]
  split
  · exact ⟨_, rfl, rfl, t, h⟩
  next hany =>
  have hnew : id ∉ c.data.nodes.map RoutingTableNode.id := by
    intro hmem
    obtain ⟨n, hn, rfl⟩ := mem_map.mp hmem
    exact hany (any_eq_true.mpr ⟨n, hn, decide_eq_true rfl⟩)
  split
  · next bucket bad hbad =>
    obtain ⟨hbucket, hlength⟩ := htidy.replaceBad hnew hid hbad
    exact ⟨_, rfl, rfl, h.setBucket hc hbucket (by omega) hsize⟩
  split
  · exact ⟨_, rfl, rfl, t, h⟩
  next hmax =>
  split
  · next hroom =>
    obtain ⟨hbucket, hlength⟩ := htidy.push { id, addr } now hnew hid hroom
    exact ⟨_, rfl, rfl, h.setBucket hc hbucket (by omega) (by omega)⟩
  next hfull =>
  split
  · exact ⟨_, rfl, rfl, t, h⟩
  have hbits := htidy.four_le_bits hid hnew (Nat.not_lt.mp hfull)
  obtain ⟨tree', t', c', hsplit, hmax', hrep, hc', hid', hlt⟩ :=
    h.split hc hid hbits clock
  rw [hsplit]
  exact ⟨_, rfl, hmax', t', hrep, c', hc', rfl, hid', hlt⟩

/-- **A whole insertion**, which ends because each round has a smaller leaf. -/
theorem Represents.insertIntoLeaf (hc : c ∈ t.cells 160 0)
    (hid : c.Contains id.value) (hfuel : c.bits < fuel) (selfId : Id20) (addr : SocketAddr)
    (now : Instant) (clock : ℕ → Instant) :
    ∃ tree' result, insertIntoLeaf selfId id addr now fuel clock tree c.name =
        some (tree', result) ∧
      tree'.maxSize = tree.maxSize ∧ ∃ t', Represents tree' t' := by
  induction fuel generalizing tree t c clock with
  | zero => cases hfuel
  | succ fuel ih =>
    obtain ⟨r, hround, hkeeps⟩ := h.insertRound hc hid selfId addr now clock
    rw [insertIntoLeaf, hround]
    cases r with
    | done tree' result => exact ⟨tree', result, rfl, hkeeps⟩
    | next tree' idx =>
      obtain ⟨hmax, t', hrep, c', hc', rfl, hid', hlt⟩ := hkeeps
      rw [← hmax]
      exact ih hrep hc' hid' (by omega) _

lemma Represents.addNode (selfId id : Id20) (addr : SocketAddr) (clock : ℕ → Instant) :
    ∃ tree' result, tree.addNode selfId id addr clock = some (tree', result) ∧
      tree'.maxSize = tree.maxSize ∧ ∃ t', Represents tree' t' := by
  have hc := find_mem_cells t 160 0 id.value
  have hpow : 2 ^ (t.find 160 0 id.value).bits ≤ 2 ^ 160 :=
    (Nat.le_add_left _ _).trans (h.bounds hc)
  have hbits := (Nat.pow_le_pow_iff_right (by decide)).mp hpow
  rw [BucketTree.addNode, h.getLeaf_eq id]
  exact h.insertIntoLeaf hc (h.contains_find id) (by omega) selfId addr _ _

/-- **What is done to a node** and leaves its id alone keeps the tree. -/
theorem Represents.getMut (id : Id20) (refresh : Option Instant) {f} (hf : ∀ r, (f r).id = r.id) :
    ∃ tree' found, tree.getMut id refresh f = some (tree', found) ∧
      tree'.maxSize = tree.maxSize ∧ ∃ t', Represents tree' t' := by
  have hc := find_mem_cells t 160 0 id.value
  have hsize := h.size_le
  simp only [BucketTree.getMut, h.getLeaf_eq id, h.getElem? hc, Option.bind_eq_bind,
    Option.bind_some]
  dsimp only [nodeOf, Sum.elim_inl]
  split
  · next i _ =>
    obtain ⟨hbucket, hlength⟩ :=
      (h.tidy _ hc).of_ids_eq ⟨_, refresh.getD _⟩ (map_modify_of_forall _ i hf)
    have hsame := congrArg (tree.size + ·) hlength.symm
    exact ⟨_, _, rfl, rfl, h.setBucket hc hbucket hsame hsize⟩
  · exact ⟨tree, false, rfl, rfl, t, h⟩

omit h

lemma represents_new (maxSize : ℕ) (now : Instant) :
    Represents (.new maxSize now) (.leaf 0 ⟨[], now⟩) where
  root := rfl
  nodup := nodup_singleton 0
  fits := trivial
  holds := by
    have hstart : (⟨List.replicate 20 0, length_replicate⟩ : Id20) = Id.ofNat 20 0 :=
      Subtype.ext (by decide)
    have hend : (⟨List.replicate 20 0xff, length_replicate⟩ : Id20) =
        Id.ofNat 20 (0 + 2 ^ 160 - 1) := Subtype.ext (by decide +kernel)
    show some _ = some (nodeOf 160 0 _)
    rw [hstart, hend, nodeOf, Sum.elim_inl]
  tidy c hc := by
    obtain rfl := mem_singleton.mp hc
    exact ⟨fun _ hn => absurd hn not_mem_nil, Nat.zero_le _, List.Pairwise.nil,
      Nat.le_add_left 3 157⟩
  size_eq := rfl
  size_le := Nat.zero_le _

/-! ## What is seen from outside -/

end BucketTree

/-- The ids a leaf is for. -/
def BucketTreeIteratorItem.Contains (l : BucketTreeIteratorItem) (id : Id20) : Prop :=
  l.start ≤ id ∧ id ≤ l.endInclusive

namespace BucketTree

/-- **The buckets are in order**: as its iterator shows them, the leaves part all ids into aligned
ranges whose lengths are powers of two. -/
structure WellFormed (tree : BucketTree) (leaves : List BucketTreeIteratorItem) : Prop where
  iterLeaves_eq : tree.iterLeaves = some leaves
  aligned : ∀ l ∈ leaves, 2 ^ l.bits ∣ l.start.value ∧
    l.endInclusive.value + 1 = l.start.value + 2 ^ l.bits
  ordered : leaves.Pairwise fun l l' => l.endInclusive < l'.start
  /-- Every id is in one leaf, and `get_leaf` gives the index of that leaf. -/
  getLeaf_eq : ∀ id, ∃ l ∈ leaves, l.Contains id ∧ (∀ l' ∈ leaves, l'.Contains id → l' = l) ∧
    ∃ idx, tree.getLeaf id = some idx ∧
      tree.data[idx]? = some ⟨l.bits, l.start, l.endInclusive, .leaf l.leaf⟩
  within : ∀ l ∈ leaves, ∀ n ∈ l.leaf.nodes, l.Contains n.id
  length_le : ∀ l ∈ leaves, l.leaf.nodes.length ≤ 8
  sorted : ∀ l ∈ leaves, l.leaf.nodes.Pairwise fun a b => a.id < b.id
  increasing : ∃ nodes, tree.iter = some nodes ∧ (nodes.Pairwise fun a b => a.id < b.id) ∧
    tree.size = nodes.length
  size_le : tree.size ≤ tree.maxSize

lemma start_itemOf (h : c.lo + 2 ^ c.bits ≤ 2 ^ 160) : (itemOf c).start.value = c.lo := by
  have hpos := Nat.two_pow_pos c.bits
  exact Id.value_ofNat (by omega)

lemma end_itemOf (h : c.lo + 2 ^ c.bits ≤ 2 ^ 160) :
    (itemOf c).endInclusive.value + 1 = c.lo + 2 ^ c.bits := by
  have hpos := Nat.two_pow_pos c.bits
  have hvalue : (itemOf c).endInclusive.value = c.lo + 2 ^ c.bits - 1 := Id.value_ofNat (by omega)
  omega

lemma contains_itemOf_iff (id : Id20) (h : c.lo + 2 ^ c.bits ≤ 2 ^ 160) :
    (itemOf c).Contains id ↔ c.Contains id.value :=
  mem_nodeOf_iff id (.inl c.data) h

/-- Leaves of a tree that have an id in common are one leaf. -/
lemma Represents.eq_of_contains (h : Represents tree t) {c'} (hc : c ∈ t.cells 160 0)
    (hc' : c' ∈ t.cells 160 0) {x} (hx : c.Contains x) (hx' : c'.Contains x) : c = c' := by
  obtain ⟨hlo, hhi⟩ := hx
  obtain ⟨hlo', hhi'⟩ := hx'
  by_contra hne
  have hapart : (t.cells 160 0).Pairwise fun c c' =>
      c.lo + 2 ^ c.bits ≤ c'.lo ∨ c'.lo + 2 ^ c'.bits ≤ c.lo :=
    (pairwise_cells h.fits).imp Or.inl
  have hsymm : Std.Symm fun c c' : Bucket =>
      c.lo + 2 ^ c.bits ≤ c'.lo ∨ c'.lo + 2 ^ c'.bits ≤ c.lo := ⟨fun _ _ => Or.symm⟩
  have hor := hapart.forall hc hc' hne
  omega

/-- **What the vector represents is well formed.** -/
theorem Represents.wellFormed (h : Represents tree t) :
    WellFormed tree ((t.cells 160 0).map itemOf) where
  iterLeaves_eq := h.iterLeaves_eq
  aligned := by
    rintro l hl
    obtain ⟨c, hc, rfl⟩ := mem_map.mp hl
    rw [end_itemOf (h.bounds hc), start_itemOf (h.bounds hc)]
    exact ⟨aligned hc, rfl⟩
  ordered := by
    refine pairwise_map.mpr ((pairwise_cells h.fits).imp_of_mem ?_)
    intro c c' hc hc' hle
    have hend := end_itemOf (h.bounds hc)
    have hstart := start_itemOf (h.bounds hc')
    rw [Id.lt_iff]
    omega
  getLeaf_eq id := by
    have hc := find_mem_cells t 160 0 id.value
    have hid := h.contains_find id
    refine ⟨_, mem_map_of_mem hc, (contains_itemOf_iff id (h.bounds hc)).mpr hid, ?_, _,
      h.getLeaf_eq id, h.getElem? hc⟩
    intro l' hl' hid'
    obtain ⟨c', hc', rfl⟩ := mem_map.mp hl'
    rw [h.eq_of_contains hc' hc ((contains_itemOf_iff id (h.bounds hc')).mp hid') hid]
  within := by
    intro l hl n hn
    obtain ⟨c, hc, rfl⟩ := mem_map.mp hl
    exact (contains_itemOf_iff n.id (h.bounds hc)).mpr ((h.tidy c hc).within n hn)
  length_le := by
    intro l hl
    obtain ⟨c, hc, rfl⟩ := mem_map.mp hl
    exact (h.tidy c hc).length_le
  sorted := by
    intro l hl
    obtain ⟨c, hc, rfl⟩ := mem_map.mp hl
    exact (h.tidy c hc).sorted
  increasing := by
    refine ⟨(t.cells 160 0).flatMap fun c => c.data.nodes, ?_, ?_, ?_⟩
    · rw [iter, h.iterLeaves_eq, Option.map_some, flatMap_map]
      rfl
    · refine pairwise_flatMap.mpr ⟨fun c hc => (h.tidy c hc).sorted, ?_⟩
      refine (pairwise_cells h.fits).imp_of_mem ?_
      intro c c' hc hc' hle n hn n' hn'
      have hlt := ((h.tidy c hc).within n hn).2
      have hlo := ((h.tidy c' hc').within n' hn').1
      rw [Id.lt_iff]
      omega
    · rw [h.size_eq, length_flatMap]
      rfl
  size_le := h.size_le

end BucketTree

namespace RoutingTable

/-- **A call comes back**, and the table keeps its shape. -/
theorem exists_step (table : RoutingTable) (call : Call)
    (h : ∃ t, BucketTree.Represents table.buckets t) :
    ∃ table', table.step call = some table' ∧
      table'.buckets.maxSize = table.buckets.maxSize ∧
      ∃ t', BucketTree.Represents table'.buckets t' := by
  obtain ⟨t, h⟩ := h
  have hmark : ∀ id refresh f,
      (∀ r, (f r).id = r.id) → ∃ table', (table.mark id refresh f).map Prod.fst = some table' ∧
        table'.buckets.maxSize = table.buckets.maxSize ∧
        ∃ t', BucketTree.Represents table'.buckets t' := by
    intro id refresh f hf
    obtain ⟨tree, found, heq, hkeeps⟩ := h.getMut id refresh hf
    rw [mark, heq]
    exact ⟨_, rfl, hkeeps⟩
  cases call with
  | addNode id addr clock =>
    obtain ⟨tree, result, heq, hkeeps⟩ := h.addNode table.id id addr clock
    rw [step, addNode, heq]
    exact ⟨_, rfl, hkeeps⟩
  | markOutgoingRequest id now
  | markResponse id now | markError id | markLastQuery id now => exact hmark id _ _ fun _ => rfl

/-- **Whatever is called on a new table, every call comes back and leaves a tree.** -/
theorem run_represents (id : Id20) (maxSize : Option ℕ) (now : Instant) (calls : List Call) :
    ∃ table, run step (new id maxSize now) calls = some table ∧
      table.buckets.maxSize = maxSize.getD defaultMaxSize ∧
      ∃ t, BucketTree.Represents table.buckets t := by
  have hstep : ∀ (table : RoutingTable) (call : Call),
      (table.buckets.maxSize = maxSize.getD defaultMaxSize ∧
        ∃ t, BucketTree.Represents table.buckets t) →
      ∃ table', table.step call = some table' ∧
        table'.buckets.maxSize = maxSize.getD defaultMaxSize ∧
        ∃ t, BucketTree.Represents table'.buckets t := by
    rintro table call ⟨hmax, h⟩
    obtain ⟨table', heq, hmax', h'⟩ := exists_step table call h
    exact ⟨table', heq, hmax'.trans hmax, h'⟩
  exact exists_run_of_step hstep ⟨rfl, _, represents_new _ now⟩ calls

/-- **Whatever is called on a new table, every call comes back and the buckets are in order.** -/
theorem run_wellFormed (id : Id20) (maxSize : Option ℕ) (now : Instant) (calls : List Call) :
    ∃ table, run step (new id maxSize now) calls = some table ∧
      table.buckets.maxSize = maxSize.getD defaultMaxSize ∧
      ∃ leaves, table.buckets.WellFormed leaves := by
  obtain ⟨table, hrun, hmax, t, h⟩ := run_represents id maxSize now calls
  exact ⟨table, hrun, hmax, _, h.wellFormed⟩

/-- **An insertion ends**: whatever has been called before, no assertion fails, no inner node is
taken for a leaf, and no leaf is split so far that eight ids would not fit. -/
theorem insertion_ends (id : Id20) (maxSize : Option ℕ) (now : Instant) (calls : List Call)
    (newId : Id20) (addr : SocketAddr) (clock : ℕ → Instant) :
    ∃ table table' result leaves, run step (new id maxSize now) calls = some table ∧
      table.addNode newId addr clock = some (table', result) ∧
      table'.buckets.iterLeaves = some leaves ∧ ∀ l ∈ leaves, 3 ≤ l.bits := by
  obtain ⟨table, hrun, -, t, h⟩ := run_represents id maxSize now calls
  obtain ⟨tree, result, heq, -, t', h'⟩ := h.addNode table.id newId addr clock
  refine ⟨table, _, result, _, hrun, by rw [addNode, heq]; rfl, h'.iterLeaves_eq, fun l hl => ?_⟩
  obtain ⟨c, hc, rfl⟩ := mem_map.mp hl
  exact (h'.tidy c hc).three_le_bits

end RoutingTable

/-! ## The number of nodes -/

/-- What `RoutingTable::add_node` counts. -/
def InsertResult.counted : InsertResult → ℕ
  | .wasExisting | .ignored => 0
  | .replacedBad _ | .added => 1

namespace BucketTree

variable {tree tree' : BucketTree} {id selfId : Id20} {addr : SocketAddr} {now : Instant}
  {idx idx' : ℕ} {clock : ℕ → Instant}

/-- Whether a bad node of a leaf makes place for a new id. -/
def evictsAt (tree : BucketTree) (id : Id20) (now : Instant) (idx : ℕ) : Bool :=
  tree.data[idx]?.any fun leaf =>
    match leaf.data with
    | .leaf bucket => !bucket.nodes.any (·.id = id) && bucket.nodes.any (·.status now = .bad)
    | .leftRight _ _ => false

lemma isSome_replaceBad (bucket : LeafBucket) (new : RoutingTableNode) :
    (bucket.replaceBad new now).isSome = bucket.nodes.any (·.status now = .bad) := by
  rw [LeafBucket.replaceBad, ← List.findIdx?_isSome]
  cases hfind : bucket.nodes.findIdx? fun r => decide (r.status now = .bad) with
  | none => rfl
  | some i =>
    obtain ⟨hi, -⟩ := List.findIdx?_eq_some_iff_getElem.mp hfind
    simp [List.getElem?_eq_getElem hi]

/-- A split makes no node bad. -/
lemma evictsAt_split {leaf nodes}
    (hidx : tree.data[idx]? = some leaf) (hgood : nodes.any (·.status now = .bad) = false)
    (hsplit : tree.split idx leaf nodes id clock = some (tree', idx')) :
    tree'.size = tree.size ∧ tree'.evictsAt id now idx' = false := by
  obtain ⟨⟨⟨ls, le⟩, rs, re⟩, -, hsplit⟩ := Option.bind_eq_some_iff.mp hsplit
  simp only [List.partition_eq_filter_filter] at hsplit
  obtain ⟨rfl, rfl⟩ := Prod.mk.inj (Option.some.inj hsplit)
  have hlt := (List.getElem?_eq_some_iff.mp hidx).1
  have hhalf (p : RoutingTableNode → Bool) :
      (nodes.filter p).any (·.status now = .bad) = false := by
    rw [List.any_eq_false] at hgood ⊢
    exact fun r hr => hgood r (List.mem_of_mem_filter hr)
  refine ⟨rfl, ?_⟩
  split
  · simp [evictsAt, setData, hlt.ne, hhalf]
  · have hne : idx ≠ tree.data.length + 1 := by omega
    simp [evictsAt, setData, hne, hhalf]

/-- **An insertion adds what the table counts**, unless a bad node makes place. -/
theorem size_insertIntoLeaf {fuel result}
    (h : insertIntoLeaf selfId id addr now fuel clock tree idx = some (tree', result)) :
    tree'.size = tree.size + result.counted ↔ tree.evictsAt id now idx = false := by
  induction fuel generalizing tree idx clock with
  | zero => cases h
  | succ fuel ih =>
    obtain ⟨r, hround, h⟩ := Option.bind_eq_some_iff.mp h
    obtain ⟨leaf, hleaf, hround⟩ := Option.bind_eq_some_iff.mp hround
    cases hdata : leaf.data with
    | leftRight left right => simp [hdata] at hround
    | leaf bucket =>
      have hevicts : tree.evictsAt id now idx = (!bucket.nodes.any (·.id = id) &&
          (bucket.replaceBad { id, addr } now).isSome) := by
        rw [evictsAt, hleaf, Option.any_some, hdata, isSome_replaceBad]
      simp only [hdata] at hround
      split at hround
      · next hany =>
        cases hround
        cases h
        simp [hevicts, hany, InsertResult.counted]
      next hany =>
      rw [Bool.not_eq_true] at hany
      rw [hevicts, hany]
      split at hround
      · next hbad =>
        cases hround
        cases h
        simp [hbad, InsertResult.counted, setData]
      next hbad =>
      rw [hbad]
      refine iff_of_true ?_ rfl
      split at hround
      · cases hround
        cases h
        rfl
      split at hround
      · cases hround
        cases h
        rfl
      split at hround
      · cases hround
        cases h
        rfl
      obtain ⟨⟨tree₁, idx₁⟩, hsplit, hround⟩ := Option.bind_eq_some_iff.mp hround
      cases hround
      have hgood : bucket.nodes.any (·.status now = .bad) = false := by
        rw [← isSome_replaceBad bucket { id, addr }, hbad, Option.isSome_none]
      obtain ⟨hsize, hnext⟩ := evictsAt_split hleaf hgood hsplit
      rw [← hsize]
      exact (ih h).mpr hnext

end BucketTree

namespace RoutingTable

def iter (table : RoutingTable) : Option (List RoutingTableNode) := table.buckets.iter

def len (table : RoutingTable) : ℕ := table.size

/-- **The table knows how many nodes it has.** -/
def LenExact (table : RoutingTable) : Prop := table.iter.map List.length = some table.len
  deriving Decidable

/-- **No bad node makes place**: the leaf for a node that is added has that node, or none is bad. -/
def Spares (table : RoutingTable) : Call → Prop
  | .addNode id _ clock =>
    ∀ idx ∈ table.buckets.getLeaf id, table.buckets.evictsAt id (clock 0) idx = false
  | .markOutgoingRequest .. | .markResponse .. | .markError _ | .markLastQuery .. => True

lemma lenExact_iff {table : RoutingTable} {t : RangeTree ℕ LeafBucket}
    (h : Represents table.buckets t) : table.LenExact ↔ table.buckets.size = table.size := by
  obtain ⟨nodes, hiter, -, hsize⟩ := h.wellFormed.increasing
  rw [LenExact, iter, hiter, hsize]
  exact Option.some_inj

variable {table table' : RoutingTable}

lemma size_mark {id refresh f} (h : (table.mark id refresh f).map Prod.fst = some table') :
    table'.size = table.size ∧ table'.buckets.size = table.buckets.size := by
  obtain ⟨_, hmark, rfl⟩ := Option.map_eq_some_iff.mp h
  obtain ⟨⟨tree, found⟩, hget, rfl⟩ := Option.map_eq_some_iff.mp hmark
  obtain ⟨idx, -, hget⟩ := Option.bind_eq_some_iff.mp hget
  obtain ⟨node, -, hget⟩ := Option.bind_eq_some_iff.mp hget
  split at hget
  · split at hget <;> cases hget <;> exact ⟨rfl, rfl⟩
  · cases hget

/-- **The step lemma.** -/
theorem size_step {call}
    (h : table.buckets.size = table.size) (hs : table.step call = some table') :
    table'.buckets.size = table'.size ↔ table.Spares call := by
  cases call with
  | addNode id addr clock =>
    obtain ⟨_, hadd, rfl⟩ := Option.map_eq_some_iff.mp hs
    obtain ⟨⟨tree, result⟩, htree, hadd⟩ := Option.bind_eq_some_iff.mp hadd
    obtain ⟨idx, hidx, hinsert⟩ := Option.bind_eq_some_iff.mp htree
    cases hadd
    have hsize := size_insertIntoLeaf hinsert
    simp only [Spares, hidx, Option.mem_some_iff, forall_eq', ← hsize, h]
    cases result <;> rfl
  | markOutgoingRequest id now
  | markResponse id now | markError id | markLastQuery id now =>
    obtain ⟨hsize, htree⟩ := size_mark hs
    rw [hsize, htree]
    exact iff_true_intro h

/-- **The table knows how many nodes it has** throughout a run, exactly when no bad node makes place
for another: that one is counted although none is added. -/
theorem lenExact_iff_spares (id : Id20) (maxSize : Option ℕ) (now : Instant) (calls : List Call) :
    Always step LenExact (new id maxSize now) calls ↔
      Along step Spares (new id maxSize now) calls := by
  have hnew := represents_new (maxSize.getD defaultMaxSize) now
  refine always_iff_along_of_invariant (I := fun table => ∃ t, Represents table.buckets t)
    (fun table call table' h hs => ?_) (fun table call table' ⟨t, h⟩ hlen hs => ?_)
    ⟨_, hnew⟩ ((lenExact_iff hnew).mpr rfl) calls
  · obtain ⟨_, hstep, -, h'⟩ := exists_step table call h
    cases hs.symm.trans hstep
    exact h'
  obtain ⟨_, hstep, -, t', h'⟩ := exists_step table call ⟨t, h⟩
  cases hs.symm.trans hstep
  rw [lenExact_iff h']
  exact size_step ((lenExact_iff h).mp hlen) hs

/-- A node that fails twice makes place: one node, counted twice. -/
theorem not_lenExact_replaced :
    ¬ Always step LenExact (new (.ofNat 20 0) none 0)
      [.addNode (.ofNat 20 1) (.v4 ⟨.new 10 0 0 1, 1⟩) fun _ => 0,
        .markOutgoingRequest (.ofNat 20 1) 0, .markError (.ofNat 20 1), .markError (.ofNat 20 1),
        .addNode (.ofNat 20 2) (.v4 ⟨.new 10 0 0 2, 1⟩) fun _ => 0] :=
  not_always_of_run (by decide +kernel)

end RoutingTable

/-! ## Ids within a bucket -/

/-- `generate_random_id`; the random bytes are `data`. -/
def generateRandomId (start : Id20) (bits : ℕ) (data : Id20) : Option Id20 :=
  if bits ≤ 160 then
    (range (160 - bits)).foldlM (fun data bit => start.getBit bit >>= data.setBit bit) data
  else none

def BucketTreeIteratorItem.randomWithin (item : BucketTreeIteratorItem) (data : Id20) :
    Option Id20 :=
  generateRandomId item.start item.bits data

/-- The first bits are those of the first id, and the others stay. -/
lemma exists_foldlM_setBit (start data : Id20) {k} (hk : k ≤ 160) :
    ∃ x,
      (range k).foldlM (fun data bit => start.getBit bit >>= data.setBit bit) data = some x ∧
      ∀ j < 160, x.value.testBit j =
        if j < 160 - k then data.value.testBit j else start.value.testBit j := by
  induction k with
  | zero => exact ⟨data, rfl, fun j hj => (if_pos hj).symm⟩
  | succ k ih =>
    obtain ⟨x, hx, hbits⟩ := ih (by omega)
    have hlt : k < 8 * 20 := hk
    obtain ⟨x', hx', hbits'⟩ := x.exists_setBit hlt (start.value.testBit (8 * 20 - 1 - k))
    refine ⟨x', ?_, fun j hj => ?_⟩
    · rw [range_succ, foldlM_append, hx]
      simp [start.getBit_eq hlt, hx']
    · rw [hbits' j hj]
      grind

/-- **In an aligned range, the low bits are random.** -/
theorem generateRandomId_eq {start} (haligned : 2 ^ bits ∣ start.value)
    (hbound : start.value + 2 ^ bits ≤ 2 ^ 160) (data : Id20) :
    generateRandomId start bits data = some (.ofNat 20 (start.value + data.value % 2 ^ bits)) := by
  have hle : 2 ^ bits ≤ 2 ^ 160 := by omega
  have hbits : bits ≤ 160 := (Nat.pow_le_pow_iff_right (by decide)).mp hle
  have hlow : data.value % 2 ^ bits < 2 ^ bits := Nat.mod_lt _ (Nat.two_pow_pos bits)
  obtain ⟨x, hx, hx'⟩ := exists_foldlM_setBit start data (Nat.sub_le 160 bits)
  rw [generateRandomId, if_pos hbits, hx]
  refine congrArg some (Id.eq_of_testBit_eq fun j hj => ?_)
  rw [hx' j hj, Id.value_ofNat (by omega)]
  obtain ⟨k, hk⟩ := haligned
  rw [hk, Nat.testBit_two_pow_mul_add _ hlow]
  grind

/-- **A bucket is refreshed from within**: in every table there can be, whatever the random bytes,
the id that is looked up for a bucket is one that `get_leaf` finds in that bucket, and each of its
ids can come up. -/
theorem randomWithin_spec (id : Id20) (maxSize : Option ℕ) (now : Instant)
    (calls : List RoutingTable.Call) :
    ∃ table leaves, run RoutingTable.step (.new id maxSize now) calls = some table ∧
      table.buckets.iterLeaves = some leaves ∧
      ∀ l ∈ leaves, (∀ data, ∃ x idx, l.randomWithin data = some x ∧ l.Contains x ∧
          table.buckets.getLeaf x = some idx ∧
          table.buckets.data[idx]? = some ⟨l.bits, l.start, l.endInclusive, .leaf l.leaf⟩) ∧
        ∀ x, l.Contains x → ∃ data, l.randomWithin data = some x := by
  obtain ⟨table, hrun, -, t, ht⟩ := RoutingTable.run_represents id maxSize now calls
  have h := ht.wellFormed
  refine ⟨table, _, hrun, h.iterLeaves_eq, fun l hl => ?_⟩
  obtain ⟨haligned, hend⟩ := h.aligned l hl
  have hlt : l.endInclusive.value < 2 ^ 160 := l.endInclusive.value_lt
  have heq := generateRandomId_eq haligned (by omega)
  refine ⟨fun data => ?_, fun x hx => ⟨x, (heq x).trans (congrArg some ?_)⟩⟩
  · have hlow : data.value % 2 ^ l.bits < 2 ^ l.bits := Nat.mod_lt _ (Nat.two_pow_pos _)
    have hvalue := Id.value_ofNat (n := 20) (x := l.start.value + data.value % 2 ^ l.bits)
      (by omega)
    have hx : l.Contains (.ofNat 20 (l.start.value + data.value % 2 ^ l.bits)) := by
      refine ⟨Id.le_iff.mpr ?_, Id.le_iff.mpr ?_⟩ <;> omega
    obtain ⟨l', -, -, honly, idx, hidx⟩ := h.getLeaf_eq _
    obtain rfl := honly l hl hx
    exact ⟨_, idx, heq data, hx, hidx⟩
  · have hlo := Id.le_iff.mp hx.1
    have hhi := Id.le_iff.mp hx.2
    refine (Id.eq_ofNat_of_value_eq ?_).symm
    obtain ⟨k, hk⟩ := haligned
    have hmod : x.value % 2 ^ l.bits = x.value - l.start.value := by
      rw [← Nat.mod_eq_of_lt (show x.value - l.start.value < 2 ^ l.bits by omega)]
      conv_lhs => rw [← Nat.sub_add_cancel hlo, hk, Nat.add_mul_mod_self_left]
      rw [hk]
    omega

end Librtbit.Dht
