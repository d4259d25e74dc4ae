import Librtbit.Bencode.Serializer

/-!
# Bencode/Value — values of any shape, there and back

A `BencodeValue` is a byte string, an integer, a list of values or a dictionary from byte strings to
values.  A dictionary is a hash map: the list of its entries in the order the map happens to
iterate, so two values are compared entry by entry (`BencodeTree.eq`), as `PartialEq` does.

`bencodeValue_roundTrip`: a value is read back from its encoding, whatever follows it, and the
encoding only depends on the value, not on the order of iteration.
-/

namespace Librtbit.Bencode

open Machinery SortedMap List

/-- What a value is made of. -/
inductive BencodeTree where
  | bytes (b : ByteBuf)
  | integer (v : Int64)
  | list (l : List BencodeTree)
  | dict (d : List (ByteBuf × BencodeTree))

/-- `HashMap::insert`; a key that is there keeps its place. -/
def hashInsert {V : Type} (k : ByteBuf) (v : V) : List (ByteBuf × V) → List (ByteBuf × V)
  | [] => [(k, v)]
  | e :: es => if e.1 = k then (k, v) :: es else e :: hashInsert k v es

namespace BencodeTree

/-! ## Walking over a tree -/

section Fold

variable {α : Type} (bytes : ByteBuf → α) (integer : Int64 → α) (list : List α → α)
  (dict : List (ByteBuf × α) → α)

mutual

/-- Put a tree together again, bottom up. -/
def fold : BencodeTree → α
  | .bytes b => bytes b
  | .integer v => integer v
  | .list l => list (foldList l)
  | .dict d => dict (foldEntries d)

def foldList : List BencodeTree → List α
  | [] => []
  | t :: l => fold t :: foldList l

def foldEntries : List (ByteBuf × BencodeTree) → List (ByteBuf × α)
  | [] => []
  | (k, t) :: d => (k, fold t) :: foldEntries d

end

lemma foldList_eq (l : List BencodeTree) :
    foldList bytes integer list dict l = l.map (fold bytes integer list dict) := by
  induction l with
  | nil => rw [foldList, map_nil]
  | cons t l ih => rw [foldList, ih, map_cons]

lemma foldEntries_eq (d : List (ByteBuf × BencodeTree)) : foldEntries bytes integer list dict d =
      d.map fun e => (e.1, fold bytes integer list dict e.2) := by
  induction d with
  | nil => rw [foldEntries, map_nil]
  | cons e d ih => rw [foldEntries, ih, map_cons]

end Fold

/-! ## The codec -/

/-- `Serialize for BencodeValue`. -/
def serialize : BencodeTree → ByteBuf :=
  fold writeBytes (fun v => writeNumber v.toInt) serializeSeq serializeMap

/-- The visitor of `Deserialize for BencodeValue`. -/
def visitor : AnyVisitor BencodeTree where
  Key := ByteBuf
  key _ := parseBytes
  visitI64 := integer
  visitBytes := bytes
  visitSeq := list
  visitMap entries := dict (entries.foldl (fun hmap e => hashInsert e.1 e.2 hmap) [])

/-- `Deserialize for BencodeValue`. -/
def deserialize : De BencodeTree := anyValue visitor

mutual

/-- `PartialEq for BencodeValue`: two hash maps are equal if they are as large as each other and the
entries of one are found in the other. -/
def eq : BencodeTree → BencodeTree → Bool
  | .bytes a, .bytes b => a == b
  | .integer a, .integer b => a == b
  | .list l, .list m => eqList l m
  | .dict d, .dict e => d.length == e.length && eqEntries d e
  | _, _ => false

def eqList : List BencodeTree → List BencodeTree → Bool
  | [], [] => true
  | t :: l, u :: m => eq t u && eqList l m
  | _, _ => false

def eqEntries : List (ByteBuf × BencodeTree) → List (ByteBuf × BencodeTree) → Bool
  | [], _ => true
  | (k, t) :: d, e =>
    (match e.lookup k with
      | some u => eq t u
      | none => false) && eqEntries d e

end

/-- A tree that is a value: the keys of a hash map are distinct, and lengths fit a `usize`. -/
inductive Valid : BencodeTree → Prop
  | bytes {b} (h : b.length < 2 ^ 64) : Valid (.bytes b)
  | integer (v : Int64) : Valid (.integer v)
  | list {l} (h : ∀ t ∈ l, Valid t) : Valid (.list l)
  | dict {d} (hkeys : (d.map Prod.fst).Nodup)
      (hlen : ∀ e ∈ d, e.1.length < 2 ^ 64) (h : ∀ e ∈ d, Valid e.2) : Valid (.dict d)

/-- The tree with the entries of each dictionary in order, which is how they come back. -/
def sorted : BencodeTree → BencodeTree := fold .bytes .integer .list fun d => .dict (ofList d)

lemma serialize_list (l : List BencodeTree) :
    serialize (.list l) = serializeSeq (l.map serialize) := by
  rw [serialize, fold, foldList_eq]

lemma serialize_dict (d : List (ByteBuf × BencodeTree)) :
    serialize (.dict d) = serializeMap (d.map fun e => (e.1, serialize e.2)) := by
  rw [serialize, fold, foldEntries_eq]

lemma sorted_list (l : List BencodeTree) : sorted (.list l) = .list (l.map sorted) := by
  rw [sorted, fold, foldList_eq]

lemma sorted_dict (d : List (ByteBuf × BencodeTree)) :
    sorted (.dict d) = .dict (ofList (d.map fun e => (e.1, sorted e.2))) := by
  rw [sorted, fold, foldEntries_eq]

lemma startsValue_serialize (t : BencodeTree) : StartsValue (serialize t) := by
  cases t with
  | bytes b => exact startsValue_writeBytes b
  | integer v => exact startsValue_writeNumber _
  | list l => rw [serialize_list]; exact startsValue_serializeSeq _
  | dict d => rw [serialize_dict]; exact startsValue_serializeMap _

/-! ## Reading back -/

variable {V : Type}

lemma foldl_hashInsert {es m : List (ByteBuf × V)} (h : ((m ++ es).map Prod.fst).Nodup) :
    es.foldl (fun hmap e => hashInsert e.1 e.2 hmap) m = m ++ es := by
  have hinsert : ∀ k v (m : List (ByteBuf × V)), k ∉ m.map Prod.fst →
      hashInsert k v m = m ++ [(k, v)] := by
    intro k v m hk
    induction m with
    | nil => rfl
    | cons e m ih =>
      rw [map_cons, mem_cons, not_or] at hk
      rw [hashInsert, if_neg (Ne.symm hk.1), ih hk.2, cons_append]
  induction es generalizing m with
  | nil => rw [foldl_nil, append_nil]
  | cons e es ih =>
    have hfresh : e.1 ∉ m.map Prod.fst := by
      rw [map_append, nodup_append] at h
      exact fun hin => h.2.2 _ hin _ mem_cons_self rfl
    rw [foldl_cons, hinsert _ _ _ hfresh, ih, append_assoc, singleton_append]
    rwa [append_assoc, singleton_append]

lemma visitMap_of_nodup {es : List (ByteBuf × BencodeTree)} (h : (es.map Prod.fst).Nodup) :
    visitor.visitMap es = .dict es :=
  congrArg BencodeTree.dict (foldl_hashInsert (by rwa [nil_append]))

variable {es : List (ByteBuf × V)}

lemma mem_of_mem_ofList (hkeys : (es.map Prod.fst).Nodup) {e} (h : e ∈ ofList es) : e ∈ es :=
  (perm_ofList hkeys).mem_iff.mp h

lemma readsEntries_dict {value} {es : List (ByteBuf × BencodeTree)}
    (h : ∀ e ∈ es, e.1.length < 2 ^ 64 ∧ Reads value (serialize e.2) (sorted e.2))
    (acc : List (ByteBuf × BencodeTree)) :
    ReadsEntries parseBytes (fun acc k => do return acc ++ [(k, ← value)]) acc
      ((es.map fun e => (e.1, serialize e.2)).flatMap writeEntry ++ ['e'.toUInt8])
      (acc ++ es.map fun e => (e.1, sorted e.2)) := by
  induction es generalizing acc with
  | nil =>
    rw [map_nil, map_nil, append_nil]
    exact ReadsEntries.done acc
  | cons e es ih =>
    obtain ⟨⟨hlen, hvalue⟩, hes⟩ := forall_mem_cons.mp h
    have hrest := ih hes (acc ++ [(e.1, sorted e.2)])
    rw [append_assoc] at hrest
    rw [map_cons, flatMap_cons, append_assoc]
    exact ReadsEntries.step (reads_parseBytes hlen) (startsValue_writeBytes e.1)
      (hvalue.bind_nil (Reads.pure _)) hrest

lemma reads_integer (self : De BencodeTree) (v : Int64) :
    Reads (peek >>= anyBody visitor self) (serialize (.integer v)) (sorted (.integer v)) := by
  exact Reads.peek ((reads_deserializeI64 v).bind_nil (Reads.pure _))

lemma reads_bytes (self : De BencodeTree) {b} (hb : b.length < 2 ^ 64) :
    Reads (peek >>= anyBody visitor self) (serialize (.bytes b)) (sorted (.bytes b)) := by
  obtain ⟨c, rest, hc⟩ := exists_cons_of_ne_nil (decimal_ne_nil b.length)
  have hdigit : isDigit c := isDigit_of_mem_decimal (n := b.length) (by simp [hc])
  have hwrite : serialize (.bytes b) = c :: (rest ++ ':'.toUInt8 :: b) := by
    rw [serialize, fold, writeBytes, hc, cons_append]
  have hread := reads_parseBytes hb
  rw [hc] at hread
  rw [hwrite]
  refine Reads.peek ?_
  rw [anyBody_of_isDigit _ _ hdigit]
  exact hread.bind_nil (Reads.pure _)

variable {self : De BencodeTree} {l : List BencodeTree}

lemma reads_list (h : ∀ t ∈ l, Reads self (serialize t) (sorted t)) :
    Reads (peek >>= anyBody visitor self) (serialize (.list l)) (sorted (.list l)) := by
  rw [serialize_list, sorted_list]
  refine Reads.peek ?_
  have hall : List.Forall₂ (fun w v => Reads self w v ∧ StartsValue w) (l.map serialize)
      (l.map sorted) := by
    rw [forall₂_map_left_iff, forall₂_map_right_iff, forall₂_same]
    exact fun t ht => ⟨h t ht, startsValue_serialize t⟩
  exact (reads_deserializeSeq hall).bind_nil (Reads.pure _)

variable {d : List (ByteBuf × BencodeTree)}

lemma reads_dict (hkeys : (d.map Prod.fst).Nodup) (hlen : ∀ e ∈ d, e.1.length < 2 ^ 64)
    (h : ∀ e ∈ d, Reads self (serialize e.2) (sorted e.2)) :
    Reads (peek >>= anyBody visitor self) (serialize (.dict d)) (sorted (.dict d)) := by
  rw [serialize_dict, sorted_dict, serializeMap, ofList_map, ofList_map]
  refine Reads.peek ?_
  have hvalues : ∀ e ∈ ofList d,
      e.1.length < 2 ^ 64 ∧ Reads self (serialize e.2) (sorted e.2) := by
    intro e he
    have hmem := mem_of_mem_ofList hkeys he
    exact ⟨hlen e hmem, h e hmem⟩
  refine (readsEntries_dict hvalues []).reads.bind_nil ?_
  have hnodup : (((ofList d).map fun e : ByteBuf × BencodeTree =>
      (e.1, sorted e.2)).map Prod.fst).Nodup := by
    rw [map_map]
    exact (sorted_ofList d).nodup
  rw [nil_append, visitMap_of_nodup hnodup]
  exact Reads.pure _

variable {t : BencodeTree}

lemma length_serialize_lt_of_mem_list (ht : t ∈ l) :
    (serialize t).length < (serialize (.list l)).length := by
  have hsub := sublist_flatten_of_mem (mem_map_of_mem (f := serialize) ht)
  have hle := hsub.length_le
  rw [serialize_list, serializeSeq, length_cons, length_append]
  omega

lemma length_serialize_lt_of_mem_dict (hkeys : (d.map Prod.fst).Nodup) {e} (he : e ∈ d) :
    (serialize e.2).length < (serialize (.dict d)).length := by
  rw [serialize_dict]
  refine length_lt_length_serializeMap ?_ (mem_map_of_mem (f := fun e => (e.1, serialize e.2)) he)
  rwa [map_map]

/-- **A value is read back from its encoding**, with its dictionaries in order. -/
theorem reads_deserializeAny (ht : t.Valid) {n} (hn : (serialize t).length < n) :
    Reads (deserializeAny visitor n) (serialize t) (sorted t) := by
  induction n generalizing t with
  | zero => exact absurd hn (Nat.not_lt_zero _)
  | succ n ih =>
    cases ht with
    | bytes hb => exact reads_bytes _ hb
    | integer v => exact reads_integer _ v
    | list hl =>
      refine reads_list fun t ht => ih (hl t ht) ?_
      have := length_serialize_lt_of_mem_list ht
      omega
    | dict hkeys hlen hd =>
      refine reads_dict hkeys hlen fun e he => ih (hd e he) ?_
      have := length_serialize_lt_of_mem_dict hkeys he
      omega

lemma reads_deserialize (ht : t.Valid) :
    Reads deserialize (serialize t) (sorted t) := by
  intro d rest hd
  refine reads_deserializeAny ht ?_ d rest hd
  rw [input_eq] at hd
  rw [hd, length_append]
  omega

/-! ## Equality -/

lemma eqList_iff {l m} :
    eqList l m ↔ List.Forall₂ (fun t u => eq t u = true) l m := by
  induction l generalizing m with
  | nil => cases m <;> simp [eqList]
  | cons t l ih =>
    cases m with
    | nil => simp [eqList]
    | cons u m => rw [eqList, Bool.and_eq_true, ih, forall₂_cons]

lemma eqEntries_iff {d e} :
    eqEntries d e ↔ ∀ x ∈ d, ∃ u, e.lookup x.1 = some u ∧ eq x.2 u := by
  induction d with
  | nil => simp [eqEntries]
  | cons x d ih =>
    rw [eqEntries, Bool.and_eq_true, ih, forall_mem_cons]
    refine and_congr_left fun _ => ?_
    cases e.lookup x.1 <;> simp

lemma mem_of_lookup_eq_some {k v} (h : es.lookup k = some v) : (k, v) ∈ es := by
  obtain ⟨l₁, l₂, rfl, -⟩ := lookup_eq_some_iff.mp h
  exact mem_append_right _ mem_cons_self

lemma lookup_of_mem (hkeys : (es.map Prod.fst).Nodup)
    {e} (he : e ∈ es) : es.lookup e.1 = some e.2 := by
  induction es with
  | nil => exact absurd he not_mem_nil
  | cons x es ih =>
    obtain ⟨hfresh, hkeys⟩ := nodup_cons.mp hkeys
    rcases mem_cons.mp he with rfl | he
    · rw [lookup_cons_self]
    · have hne : e.1 ≠ x.1 := fun heq => hfresh (mem_map.mpr ⟨e, he, heq⟩)
      rw [lookup_cons, beq_false_of_ne hne]
      exact ih hkeys he

/-- Putting the entries in order gives an equal value. -/
lemma eq_sorted (ht : t.Valid) : eq (sorted t) t := by
  induction ht with
  | bytes hb | integer v => simp [sorted, fold, eq]
  | list _ ih =>
    rw [sorted_list, eq, eqList_iff, forall₂_map_left_iff, forall₂_same]
    exact ih
  | @dict d hkeys _ _ ih =>
    rw [sorted_dict, ofList_map, eq, length_map,
      (perm_ofList hkeys).length_eq, beq_self_eq_true, Bool.true_and, eqEntries_iff]
    intro x hx
    obtain ⟨e, he, rfl⟩ := mem_map.mp hx
    have hmem := mem_of_mem_ofList hkeys he
    exact ⟨e.2, lookup_of_mem hkeys hmem, ih e hmem⟩

lemma valid_sorted (ht : t.Valid) : (sorted t).Valid := by
  induction ht with
  | bytes hb => exact Valid.bytes hb
  | integer v => exact Valid.integer v
  | list _ ih =>
    rw [sorted_list]
    refine Valid.list fun t ht => ?_
    obtain ⟨u, hu, rfl⟩ := mem_map.mp ht
    exact ih u hu
  | @dict d hkeys hlen _ ih =>
    rw [sorted_dict, ofList_map]
    refine Valid.dict ?_ (fun x hx => ?_) fun x hx => ?_
    · rw [map_map]
      exact (sorted_ofList d).nodup
    · obtain ⟨e, he, rfl⟩ := mem_map.mp hx
      exact hlen e (mem_of_mem_ofList hkeys he)
    · obtain ⟨e, he, rfl⟩ := mem_map.mp hx
      exact ih e (mem_of_mem_ofList hkeys he)

lemma forall₂_imp_of_mem {α β : Type} {R S : α → β → Prop} {l m}
    (h : List.Forall₂ R l m) (himp : ∀ a ∈ l, ∀ b ∈ m, R a b → S a b) : List.Forall₂ S l m := by
  induction h with
  | nil => exact List.Forall₂.nil
  | cons hab _ ih =>
    refine List.Forall₂.cons (himp _ mem_cons_self _ mem_cons_self hab) (ih ?_)
    exact fun a ha b hb => himp a (mem_cons_of_mem _ ha) b (mem_cons_of_mem _ hb)

/-- **Equal values have equal encodings.** -/
theorem serialize_eq_of_eq {t u} (ht : t.Valid) (hu : u.Valid)
    (h : eq t u) : serialize t = serialize u := by
  induction ht generalizing u with
  | bytes _ | integer _ =>
    cases u <;> simp [eq] at h
    rw [h]
  | @list l hl ih =>
    cases hu with
    | bytes | integer | dict => simp [eq] at h
    | @list m hm =>
      rw [eq, eqList_iff] at h
      rw [serialize_list, serialize_list]
      congr 1
      rw [← forall₂_eq_eq_eq, forall₂_map_left_iff, forall₂_map_right_iff]
      exact forall₂_imp_of_mem h fun t ht u hu heq => ih t ht (hm u hu) heq
  | @dict d hkeys _ hd ih =>
    cases hu with
    | bytes | integer | list => simp [eq] at h
    | @dict e hkeys' _ he =>
      rw [eq, Bool.and_eq_true, beq_iff_eq, eqEntries_iff] at h
      obtain ⟨hlen, hfound⟩ := h
      rw [serialize_dict, serialize_dict, serializeMap, serializeMap]
      have hnodup : ((d.map fun e => (e.1, serialize e.2)).map Prod.fst).Nodup := by
        rwa [map_map]
      have hsub : (d.map fun e => (e.1, serialize e.2)) ⊆ e.map fun e => (e.1, serialize e.2) := by
        intro x hx
        obtain ⟨y, hy, rfl⟩ := mem_map.mp hx
        obtain ⟨u, hlookup, heq⟩ := hfound y hy
        have hmem := mem_of_lookup_eq_some hlookup
        rw [ih y hy (he _ hmem) heq]
        exact mem_map_of_mem hmem
      have hperm := (subperm_of_subset hnodup.of_map hsub).perm_of_length_le (by
        rw [length_map, length_map, hlen])
      rw [ofList_eq_of_perm hnodup hperm]

end BencodeTree

/-! ## Values -/

/-- `BencodeValue`. -/
structure BencodeValue where
  tree : BencodeTree
  valid : tree.Valid

namespace BencodeValue

/-- `bencode_serialize_to_writer`, into a buffer that grows. -/
def serialize (v : BencodeValue) : ByteBuf := v.tree.serialize

/-- The two values are equal. -/
def Eq (v w : BencodeValue) : Prop := v.tree.eq w.tree = true

end BencodeValue

/-- **Bencode there and back.**  A value is read back from its encoding with whatever follows it
left over, the encoding alone is read back as a whole, the keys of a dictionary are written in
strictly increasing order, and equal values have equal encodings. -/
theorem bencodeValue_roundTrip (v : BencodeValue) : (∀ rest, ∃ w : BencodeValue, w.Eq v ∧
      fromBytesWithRest BencodeTree.deserialize (v.serialize ++ rest) = .ok (w.tree, rest)) ∧
    (∃ w : BencodeValue, w.Eq v ∧ fromBytes BencodeTree.deserialize v.serialize = .ok w.tree) ∧
    (∀ d, v.tree = .dict d → ∃ es, SortedMap.Sorted es ∧
      es.Perm (d.map fun e => (e.1, e.2.serialize)) ∧
      v.serialize = 'd'.toUInt8 :: (es.flatMap writeEntry ++ ['e'.toUInt8])) ∧
    ∀ w : BencodeValue, v.Eq w → v.serialize = w.serialize := by
  obtain ⟨t, ht⟩ := v
  have hreads := BencodeTree.reads_deserialize ht
  have heq := BencodeTree.eq_sorted ht
  refine ⟨fun rest => ⟨⟨t.sorted, BencodeTree.valid_sorted ht⟩, heq,
    fromBytesWithRest_of_reads hreads rest⟩,
    ⟨⟨t.sorted, BencodeTree.valid_sorted ht⟩, heq, fromBytes_of_reads hreads⟩, ?_,
    fun w => BencodeTree.serialize_eq_of_eq ht w.valid⟩
  rintro d rfl
  cases ht with
  | dict hkeys _ _ =>
    refine ⟨_, sorted_ofList _, perm_ofList ?_, BencodeTree.serialize_dict d⟩
    rwa [map_map]

/-- **Encodings need no separator**: equal streams begin with the same value, but for the order of
its dictionaries, and go on alike. -/
theorem serialize_append_inj (v w : BencodeValue) (r r' : ByteBuf) :
    v.serialize ++ r = w.serialize ++ r' ↔ v.tree.sorted = w.tree.sorted ∧ r = r' := by
  have hread (v : BencodeValue) (r) :=
    fromBytesWithRest_of_reads (BencodeTree.reads_deserialize v.valid) r
  have hsorted (v : BencodeValue) : v.serialize = v.tree.sorted.serialize :=
    (BencodeTree.serialize_eq_of_eq (BencodeTree.valid_sorted v.valid) v.valid
      (BencodeTree.eq_sorted v.valid)).symm
  constructor
  · intro h
    have hw := hread w r'
    rw [← BencodeValue.serialize, ← h, BencodeValue.serialize, hread] at hw
    exact Prod.mk.inj (Except.ok.inj hw)
  · rintro ⟨h, rfl⟩
    rw [hsorted, hsorted w, h]

end Librtbit.Bencode
