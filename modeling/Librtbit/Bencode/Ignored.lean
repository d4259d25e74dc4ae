import Librtbit.Bencode.Fields
import Librtbit.Core.CompactIp

/-!
# Bencode/Ignored — what can be passed over

`IgnoredAny` takes any value and keeps nothing of it.  A message that is read twice, first to see
what it is and then as what it is, needs that the first pass takes whatever the second one does.
That is `Skippable p`, and it holds of every parser that reads one value.

`Schema.covers_keys`: a struct is read from a dictionary that has the keys of the fields that are
found in it.
-/

namespace Librtbit.Bencode

open Machinery Covers List

variable {T T' K K' S S' : Type}

/-! ## One parser in place of another -/

lemma covers_atEnd : Covers (fun a b => a = b) atEnd atEnd := by
  intro d e b d' he h
  rw [input_eq] at he
  rw [run_atEnd] at h
  rw [run_atEnd, he]
  split at h
  · cases h
    exact ⟨true, _, if_pos ‹_›, rfl, rfl⟩
  · cases h
    exact ⟨false, _, if_neg ‹_›, he, rfl⟩

variable {R : T → T' → Prop}

lemma covers_nextElement {seed seed'} (h : Covers R seed seed') :
    Covers (Option.Rel R) (nextElement seed) (nextElement seed') := by
  refine covers_atEnd.bind ?_
  rintro b _ rfl
  cases b with
  | true => exact pure .none
  | false => exact h.bind fun v v' hv => pure (.some hv)

lemma covers_inKey {R : K → K' → Prop} {seed seed'} (h : Covers R seed seed') :
    Covers R (inKey seed) (inKey seed') :=
  have hmark : ∀ b, Covers (fun _ _ => True)
      (modify (BencodeDeserializer.setParsingKey b) : De PUnit)
      (modify (BencodeDeserializer.setParsingKey b)) := fun _ => modify fun _ => rfl
  (hmark true).bind fun _ _ _ => h.bind fun _ _ hk => (hmark false).bind fun _ _ _ =>
    pure hk

lemma covers_nextValue {seed seed'}
    (h : Covers R seed seed') : Covers R (nextValue seed) (nextValue seed') :=
  h.bind fun _ _ hv => (modify BencodeDeserializer.buf_popKey).bind fun _ _ _ =>
    pure hv

variable {entry : S → K → De S}

/-- **A dictionary is read instead of another** if its keys and its entries are. -/
theorem covers_deserializeMap {Q : K → K' → Prop} {R : S → S' → Prop} {key key' entry'}
    (hkey : Covers Q key key')
    (hentry : ∀ acc acc' k k', R acc acc' → Q k k' → Covers R (entry acc k) (entry' acc' k'))
    {acc acc'} (hacc : R acc acc') :
    Covers R (deserializeMap key entry acc) (deserializeMap key' entry' acc') := by
  refine (stable_parseFirstByte _ _).covers.bind fun _ _ _ => loopAll ?_ hacc
  intro acc acc' hacc
  rw [mapBody_eq, mapBody_eq]
  refine (covers_nextElement (covers_inKey hkey)).bind fun k k' hk => ?_
  cases hk with
  | none => exact pure .none
  | some hk =>
    exact (covers_nextValue (hentry _ _ _ _ hacc hk)).bind fun _ _ hs => pure (.some hs)

/-! ## Values that can be passed over -/

/-- **`IgnoredAny` reads whatever the parser reads.** -/
def Skippable (p : De T) : Prop := Covers (fun _ _ => True) p ignoredAny

lemma ignoredAny_eq : ignoredAny = peek >>= anyBody ignoredVisitor ignoredAny :=
  anyValue_eq sound_ignoredVisitor

variable {p : De T}

/-- What a parser does with a value it has read. -/
lemma Skippable.bind {f : T → De T'} (hp : Skippable p)
    (hf : ∀ v, Covers (fun _ _ => True) (f v) (pure () : De Unit)) : Skippable (p >>= f) :=
  hp.bind_left fun v _ _ => hf v

lemma skippable_ignoredAny : Skippable ignoredAny :=
  stable_ignoredAny.covers.mono fun _ _ _ => trivial

lemma skippable_parseBytes : Skippable parseBytes := by
  have hfirst : ∀ d b d', parseBytes.run d = .ok b d' →
      ∃ c rest, Cursor.input d = c :: rest ∧ isDigit c := by
    intro d b d' h
    obtain ⟨len, hnum, hlen, -⟩ := run_parseBytes_eq_ok h
    have hpos : 0 < (fromRadix10 64 d.buf).2 := by
      rw [hnum]
      exact hlen
    exact isDigit_head_of_pos hpos
  rw [Skippable, ignoredAny_eq]
  refine peek hfirst fun c hc => ?_
  rw [anyBody_of_isDigit _ _ hc]
  exact stable_parseBytes.covers.map fun _ _ _ => trivial

/-- The first byte of a value tells what it is. -/
lemma covers_ignoredAny_of_parseFirstByte {c err}
    (h : Covers (fun _ _ => True) (parseFirstByte c err >>= fun _ => p)
      (anyBody ignoredVisitor ignoredAny (some c))) :
    Skippable (parseFirstByte c err >>= fun _ => p) := by
  rw [Skippable, ignoredAny_eq]
  refine peek (P := fun b => b = c) (fun d v d' hd => ?_) (fun b hb => hb ▸ h)
  obtain ⟨_, d'', hfirst, -⟩ := run_bind_eq_ok hd
  obtain ⟨rest, hbuf, -⟩ := run_parseFirstByte_eq_ok hfirst
  exact ⟨c, rest, hbuf, rfl⟩

section Integer

variable {I : Type} {atoi : ByteBuf → I × ℕ}

/-- **An integer can be passed over** if an `i64` is written in as many bytes. -/
theorem skippable_parseInteger
    (hatoi : ∀ buf, 0 < (atoi buf).2 → (fromRadix10Signed 64 buf).2 = (atoi buf).2) :
    Skippable (parseInteger atoi) := by
  refine covers_ignoredAny_of_parseFirstByte ?_
  have hdigits : Covers (fun _ _ => True) (parseDigits atoi)
      (parseDigits fun buf =>
        (Int64.ofInt (fromRadix10Signed 64 buf).1, (fromRadix10Signed 64 buf).2)) := by
    intro d e v d' he h
    rw [input_eq, input_eq] at he
    rw [run_parseDigits] at h
    split at h
    · rename_i hlen
      cases h
      refine ⟨Int64.ofInt (fromRadix10Signed 64 d.buf).1,
        { e with buf := d.buf.drop ((atoi d.buf).2 + 1) }, ?_, rfl, trivial⟩
      rw [run_parseDigits, he]
      rw [hatoi _ hlen.1, if_pos hlen]
    · cases h
  exact map ((stable_parseFirstByte _ _).covers.bind fun _ _ _ => hdigits) fun _ _ _ =>
    trivial

lemma skippable_deserializeUnsigned (w : ℕ) (ofNat : ℕ → I) :
    Skippable (deserializeUnsigned w ofNat) :=
  skippable_parseInteger fun _ h => fromRadix10Signed_snd_of_pos (w := w) h 64

lemma skippable_deserializeSigned (w : ℕ) (ofInt : ℤ → I) :
    Skippable (deserializeSigned w ofInt) := by
  refine skippable_parseInteger fun buf _ => ?_
  rw [fromRadix10Signed, fromRadix10Signed]
  split
  · rfl
  · split <;> rfl

end Integer

/-- A parser of a list that reads its elements one by one. -/
lemma skippable_of_loopAll
    (h : Covers (fun _ _ => True) p (loopAll .eof (seqBody ignoredAny) [])) :
    Skippable (parseFirstByte 'l'.toUInt8 .invalidValue >>= fun _ => p) :=
  covers_ignoredAny_of_parseFirstByte
    (map ((stable_parseFirstByte _ _).covers.bind fun _ _ _ => h) fun _ _ _ => trivial)

lemma skippable_deserializeSeq {elem : De T} (h : Skippable elem) :
    Skippable (deserializeSeq elem) := by
  refine skippable_of_loopAll (loopAll (fun acc acc' _ => ?_) trivial)
  refine (covers_nextElement h).bind fun v v' hv => pure ?_
  cases hv with
  | none => exact .none
  | some => exact .some trivial

lemma skippable_deserializeMap {key} (hkey : Skippable key)
    (hentry : ∀ acc k, Skippable (entry acc k)) (acc : S) :
    Skippable (deserializeMap key entry acc) := by
  refine covers_ignoredAny_of_parseFirstByte ?_
  refine map (covers_deserializeMap (R := fun _ _ => True) hkey ?_ trivial) fun _ _ _ =>
    trivial
  intro acc acc' k k' _ _
  exact (hentry acc k).map fun _ _ _ => trivial

/-! ## Compact addresses -/

section Compact

variable [CompactSerialize T]

lemma skippable_readCompact : Skippable (readCompact T) := by
  refine skippable_parseBytes.bind fun bytes => ?_
  cases (CompactSerialize.fromSlice bytes : Option T) with
  | some x => exact pure trivial
  | none => exact throw _

lemma CompactListInBuffer.skippable_deserialize [CompactSerializeFixedLen T] :
    Skippable (CompactListInBuffer.deserialize T) := by
  refine skippable_parseBytes.bind fun bytes => ?_
  split
  · exact pure trivial
  · exact throw _

end Compact

/-! ## Structs -/

namespace Schema

variable {F : Type} [DecidableEq F] {s : Schema F}

omit [DecidableEq F] in
lemma key_of_ofKey {k f} (h : s.ofKey k = some f) : s.key f = k := by
  have hfound := find?_some h
  exact beq_iff_eq.mp hfound

omit [DecidableEq F] in
lemma skippable_identifier : Skippable s.identifier :=
  skippable_parseBytes.bind fun _ => pure trivial

lemma skippable_deserialize (h : ∀ f, Skippable (s.read f))
    (finish : s.Values → Except DeError T) : Skippable (s.deserialize finish) := by
  refine (skippable_deserializeMap skippable_identifier (fun acc k => ?_) _).bind fun values => ?_
  · cases k with
    | none => exact skippable_ignoredAny.bind fun _ => pure trivial
    | some f =>
      rw [entry]
      split
      · exact throw _
      · exact (h f).bind fun _ => pure trivial
  · cases finish values with
    | ok v => exact pure trivial
    | error e => exact throw e

end Schema

/-! ## Dictionaries that structs are read from -/

/-- **What is read from a whole buffer**, is read from it instead. -/
theorem fromBytes_of_covers {q} (h : Covers R p q) {buf v} (hp : fromBytes p buf = .ok v) :
    ∃ v', fromBytes q buf = .ok v' ∧ R v v' := by
  obtain ⟨d, hrun, hnil⟩ := fromBytes_eq_ok.mp hp
  obtain ⟨v', d', hrun', hinput, hR⟩ := h _ _ v d rfl hrun
  exact ⟨v', fromBytes_eq_ok.mpr ⟨d', hrun', hinput.trans hnil⟩, hR⟩

/-- The keys of a dictionary, in the order they come in. -/
def dictKeys : De (List ByteBuf) :=
  deserializeMap parseBytes (fun keys k => do
    ignoredAny
    return keys ++ [k]) []

namespace Schema

variable {F : Type} [DecidableEq F] {s : Schema F}

/-- **A struct is read from a dictionary that has the keys of its fields.** -/
theorem covers_keys (hs : s.Sound) (h : ∀ f, Skippable (s.read f)) :
    Covers (fun values keys => ∀ f, (values f).isSome ↔ s.key f ∈ keys) s.visit dictKeys := by
  have hkey : Covers (fun f k => f = s.ofKey k) s.identifier parseBytes :=
    stable_parseBytes.covers.bind_left fun k k' hk => pure (congrArg s.ofKey hk)
  refine covers_deserializeMap hkey ?_ fun f => by simp
  rintro acc keys _ k hacc rfl
  cases hk : s.ofKey k with
  | none =>
    refine bind skippable_ignoredAny fun _ _ _ => pure fun f => ?_
    have hne : s.key f ≠ k := by
      rintro rfl
      rw [hs.ofKey_key] at hk
      cases hk
    rw [hacc f, mem_append, mem_singleton, or_iff_left hne]
  | some f =>
    rw [entry]
    split
    · exact throw _
    refine bind (h f) fun v _ _ => pure fun g => ?_
    rw [mem_append, mem_singleton, ← key_of_ofKey hk]
    by_cases hg : g = f
    · subst hg
      simp
    · have hne : s.key g ≠ s.key f := fun heq => hg (hs.injective heq)
      rw [Function.update_of_ne hg, hacc g, or_iff_left hne]

lemma covers_deserialize_keys (hs : s.Sound) (h : ∀ f, Skippable (s.read f))
    (finish : s.Values → Except DeError T) :
    Covers (fun x keys => ∃ values, finish values = .ok x ∧
      ∀ f, (values f).isSome ↔ s.key f ∈ keys) (s.deserialize finish) dictKeys := by
  refine (covers_keys hs h).bind_left fun values keys hkeys => ?_
  cases hfinish : finish values with
  | ok x => exact pure ⟨values, hfinish, hkeys⟩
  | error e => exact throw e

end Schema

end Librtbit.Bencode
