import Librtbit.Bencode.Serializer

/-!
# Bencode/Fields — structs as dictionaries

What `derive(Serialize)` and `derive(Deserialize)` make of a struct.  A `Schema` lists its fields
with their names and how each is written and read; writing goes over the fields that are there, and
reading over the entries of a dictionary in whatever order they come, with a place for each field.
A field may not come twice, and an entry that is no field is passed over.

`Schema.reads_visit`: the fields that were written are the fields that are read, if each of them is
read back.
-/

namespace Librtbit.Bencode

open Machinery Function

/-- The fields of a struct, in the order of its declaration. -/
structure Schema (F : Type) where
  all : List F
  name : F → String
  ty : F → Type
  write : (f : F) → ty f → ByteBuf
  read : (f : F) → De (ty f)

namespace Schema

variable {F : Type} [DecidableEq F] (s : Schema F)

/-- A value for each field that is there. -/
abbrev Values : Type := (f : F) → Option (s.ty f)

/-- The key of a field. -/
def key (f : F) : ByteBuf := ascii (s.name f)

/-- The field a key stands for. -/
def ofKey (k : ByteBuf) : Option F := s.all.find? fun f => s.key f == k

/-- `deserialize_identifier`. -/
def identifier : De (Option F) := do return s.ofKey (← parseBytes)

/-- One entry of the dictionary. -/
def entry (acc : s.Values) (k : Option F) : De s.Values :=
  match k with
  | some f =>
    if (acc f).isSome then throw (.custom ("duplicate field `" ++ s.name f ++ "`"))
    else do return update acc f (some (← s.read f))
  | none => do
    ignoredAny
    return acc

/-- `visit_map`: the fields of a dictionary. -/
def visit : De s.Values := deserializeMap s.identifier s.entry fun _ => none

/-- A field that is not an `Option`. -/
def require {s : Schema F} (values : s.Values) (f : F) : Except DeError (s.ty f) :=
  match values f with
  | some v => .ok v
  | none => .error (.custom ("missing field `" ++ s.name f ++ "`"))

/-- The keys and encoded values of the fields that are there. -/
def entries (values : s.Values) : List (ByteBuf × Option ByteBuf) :=
  s.all.map fun f => (s.key f, (values f).map (s.write f))

/-- `Serialize` of a struct. -/
def serialize (values : s.Values) : ByteBuf := serializeStruct (s.entries values)

/-- `Deserialize` of a struct: the fields, then the struct made of them. -/
def deserialize {T : Type} (finish : s.Values → Except DeError T) : De T := do
  match finish (← s.visit) with
  | .ok v => return v
  | .error e => throw e

/-- Every field is listed, under a name of its own. -/
structure Sound : Prop where
  complete : ∀ f, f ∈ s.all
  nodup : (s.all.map s.key).Nodup
  short : ∀ f, (s.key f).length < 2 ^ 64

/-- The struct that has some of the fields. -/
def only (all : List F) : Schema { f // f ∈ all } where
  all := all.attach
  name f := s.name f
  ty f := s.ty f
  write f := s.write f
  read f := s.read f

/-- The fields of a struct, among all there are. -/
def restrict {s : Schema F} {all : List F} (values : s.Values) : (s.only all).Values :=
  fun f => values f

/-- A field that a struct does not have is not there. -/
def extend {s : Schema F} {all : List F} (values : (s.only all).Values) : s.Values :=
  fun f => if h : f ∈ all then values ⟨f, h⟩ else none

/-! ## Reading back -/

section

variable {s} (hs : s.Sound)

include hs

omit [DecidableEq F] in
lemma Sound.injective {f g} (h : s.key f = s.key g) : f = g :=
  List.inj_on_of_nodup_map hs.nodup (hs.complete f) (hs.complete g) h

omit [DecidableEq F] in
lemma Sound.ofKey_key (f : F) : s.ofKey (s.key f) = some f := by
  cases h : s.ofKey (s.key f) with
  | none => exact absurd (List.find?_eq_none.mp h f (hs.complete f)) (by simp)
  | some g =>
    rw [ofKey] at h
    have hfound := List.find?_some h
    rw [hs.injective (beq_iff_eq.mp hfound)]

omit [DecidableEq F] in
lemma Sound.reads_identifier (f : F) : Reads s.identifier (writeBytes (s.key f)) (some f) := by
  refine (reads_parseBytes (hs.short f)).bind_nil ?_
  rw [hs.ofKey_key]
  exact Reads.pure _

/-- The fields that are there, read one after another on top of `acc`. -/
lemma Sound.readsEntries (values acc : s.Values) {es : List (ByteBuf × ByteBuf)}
    (hes : ∀ e ∈ es, ∃ f v, e = (s.key f, s.write f v) ∧ values f = some v ∧
      Reads (s.read f) (s.write f v) v ∧ acc f = none)
    (hnodup : (es.map Prod.fst).Nodup) :
    ReadsEntries s.identifier s.entry acc (es.flatMap writeEntry ++ ['e'.toUInt8])
      (fun f => if s.key f ∈ es.map Prod.fst then values f else acc f) := by
  induction es generalizing acc with
  | nil => exact ReadsEntries.done acc
  | cons e es ih =>
    obtain ⟨⟨f, v, he, hv, hread, hacc⟩, hrest⟩ := List.forall_mem_cons.mp hes
    obtain ⟨hfresh, hnodup⟩ := List.nodup_cons.mp hnodup
    rw [he] at hfresh
    have hentry : Reads (s.entry acc (some f)) (s.write f v) (update acc f (some v)) := by
      rw [entry, if_neg (by simp [hacc])]
      exact hread.bind_nil (Reads.pure _)
    have hnext : ∀ e ∈ es, ∃ g w, e = (s.key g, s.write g w) ∧ values g = some w ∧
        Reads (s.read g) (s.write g w) w ∧ update acc f (some v) g = none := by
      intro e' hmem
      obtain ⟨g, w, rfl, hw, hread, hacc⟩ := hrest e' hmem
      have hg : g ≠ f := by
        rintro rfl
        exact hfresh (List.mem_map.mpr ⟨_, hmem, rfl⟩)
      exact ⟨g, w, rfl, hw, hread, by rw [update_of_ne hg, hacc]⟩
    -- the place of `f` is filled, and no other entry is for it
    have hfinal : (fun g => if s.key g ∈ (e :: es).map Prod.fst then values g else acc g) =
        fun g => if s.key g ∈ es.map Prod.fst then values g
          else update acc f (some v) g := by
      funext g
      simp only [List.map_cons, List.mem_cons, he]
      by_cases hg : g = f
      · subst hg
        rw [if_pos (Or.inl rfl), if_neg hfresh, update_self, hv]
      · have hkey : s.key g ≠ s.key f := fun h => hg (hs.injective h)
        simp only [hkey, false_or, update_of_ne hg]
    rw [hfinal, List.flatMap_cons, List.append_assoc, he]
    exact ReadsEntries.step (hs.reads_identifier f) (startsValue_writeBytes _) hentry
      (ih _ hnext hnodup)

variable {values : s.Values}

omit [DecidableEq F] hs in
/-- The entries of the fields that are there. -/
lemma mem_presentFields (hcomplete : ∀ f, f ∈ s.all) {e} :
    e ∈ presentFields (s.entries values) ↔
      ∃ f v, e = (s.key f, s.write f v) ∧ values f = some v := by
  rw [presentFields, entries, List.filterMap_map, List.mem_filterMap]
  constructor
  · rintro ⟨f, -, hf⟩
    cases hv : values f with
    | none => simp [hv] at hf
    | some v =>
      simp only [comp, hv, Option.map_some, Option.some.injEq] at hf
      exact ⟨f, v, hf.symm, hv⟩
  · rintro ⟨f, v, rfl, hv⟩
    exact ⟨f, hcomplete f, by simp [comp, hv]⟩

omit [DecidableEq F] in
lemma Sound.nodup_presentFields (values : s.Values) :
    ((presentFields (s.entries values)).map Prod.fst).Nodup := by
  refine List.Nodup.sublist (keys_presentFields _) ?_
  rw [entries, List.map_map]
  exact hs.nodup

omit [DecidableEq F] in
/-- **A struct is longer than each of its fields.** -/
theorem Sound.length_write_lt {f v} (hv : values f = some v) :
    (s.write f v).length < (s.serialize values).length :=
  length_lt_length_serializeMap (e := (s.key f, s.write f v)) (hs.nodup_presentFields values)
    ((mem_presentFields hs.complete).mpr ⟨f, v, rfl, hv⟩)

/-- **The fields that were written are the fields that are read.** -/
theorem Sound.reads_visit (h : ∀ f v, values f = some v → Reads (s.read f) (s.write f v) v) :
    Reads s.visit (s.serialize values) values := by
  have hperm := SortedMap.perm_ofList (hs.nodup_presentFields values)
  have hes : ∀ e ∈ SortedMap.ofList (presentFields (s.entries values)),
      ∃ f v, e = (s.key f, s.write f v) ∧ values f = some v ∧
        Reads (s.read f) (s.write f v) v ∧ (fun _ => none : s.Values) f = none := by
    intro e he
    obtain ⟨f, v, rfl, hv⟩ := (mem_presentFields hs.complete).mp (hperm.mem_iff.mp he)
    exact ⟨f, v, rfl, hv, h f v hv, rfl⟩
  have hread := (hs.readsEntries values _ hes (SortedMap.sorted_ofList _).nodup).reads
  have hfinal : (fun f => if s.key f ∈ (SortedMap.ofList (presentFields (s.entries values))).map
      Prod.fst then values f else none) = values := by
    funext f
    split
    · rfl
    · rename_i hnot
      cases hv : values f with
      | none => rfl
      | some v =>
        refine absurd (List.mem_map.mpr ⟨(s.key f, s.write f v), hperm.mem_iff.mpr ?_, rfl⟩) hnot
        exact (mem_presentFields hs.complete).mpr ⟨f, v, rfl, hv⟩
  rw [hfinal] at hread
  exact hread

/-- **A struct is read back** if its fields are and make it up. -/
theorem Sound.reads_deserialize {T : Type} {finish} {x : T}
    (h : ∀ f v, values f = some v → Reads (s.read f) (s.write f v) v)
    (hfinish : finish values = .ok x) :
    Reads (s.deserialize finish) (s.serialize values) x := by
  refine (hs.reads_visit h).bind_nil ?_
  rw [hfinish]
  exact Reads.pure x

end

/-! ## Some of the fields -/

section

variable {s} {all : List F}

omit [DecidableEq F] in
lemma sound_only (hnodup : (all.map s.key).Nodup) (hshort : ∀ f ∈ all, (s.key f).length < 2 ^ 64) :
    (s.only all).Sound where
  complete f := List.mem_attach all f
  nodup := by
    show (all.attach.map (s.key ∘ Subtype.val)).Nodup
    rw [← List.map_map, List.attach_map_subtype_val]
    exact hnodup
  short f := hshort f f.property

/-- What the struct does not have was not there before either. -/
lemma extend_restrict {values} (h : ∀ f, f ∉ all → values f = none) :
    extend (restrict values : (s.only all).Values) = values := by
  funext f
  rw [extend]
  by_cases hf : f ∈ all
  · exact dif_pos hf
  · exact (dif_neg hf).trans (h f hf).symm

end

/-! ## More input, and progress -/

section

variable {s}

omit [DecidableEq F] in
lemma stable_identifier : Stable s.identifier := stable_parseBytes.bind fun _ => Stable.pure _

omit [DecidableEq F] in
lemma consumes_identifier : Consumes s.identifier :=
  consumes_parseBytes.bind fun _ => Shrinks.pure _

lemma stable_entry (h : ∀ f, Stable (s.read f)) (acc : s.Values) (k : Option F) :
    Stable (s.entry acc k) := by
  cases k with
  | none => exact stable_ignoredAny.bind fun _ => Stable.pure _
  | some f =>
    rw [entry]
    split
    · exact Stable.throw _
    · exact (h f).bind fun _ => Stable.pure _

lemma shrinks_entry (h : ∀ f, Shrinks (s.read f)) (acc : s.Values) (k : Option F) :
    Shrinks (s.entry acc k) := by
  cases k with
  | none => exact consumes_ignoredAny.shrinks.bind fun _ => Shrinks.pure _
  | some f =>
    rw [entry]
    split
    · exact (Consumes.throw _).shrinks
    · exact (h f).bind fun _ => Shrinks.pure _

lemma stable_deserialize {T : Type} (h : ∀ f, Stable (s.read f)) (h' : ∀ f, Shrinks (s.read f))
    (finish : s.Values → Except DeError T) : Stable (s.deserialize finish) := by
  refine (stable_deserializeMap stable_identifier consumes_identifier (stable_entry h)
    (shrinks_entry h') _).bind fun values => ?_
  cases finish values with
  | ok v => exact Stable.pure v
  | error e => exact Stable.throw e

end

end Schema

end Librtbit.Bencode
