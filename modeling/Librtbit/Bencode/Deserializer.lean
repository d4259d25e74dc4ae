import Librtbit.Core.Metainfo
import Librtbit.Machinery.Decimal
import Librtbit.Machinery.Parser

/-!
# Bencode/Deserializer — reading bencode

`BencodeDeserializer` is a cursor over the bytes with, beside them, the keys of the dictionaries it
is inside of (for error messages).  Its primitives read an integer, a byte string, the next element
of a list and the next entry of a dictionary; everything else is made of these.

The second half says of each primitive what it reads (`Reads`), that more input behind it does not
change what it has read (`Stable`) and that it reads something (`Consumes`).
-/

namespace Librtbit

open Machinery List

/-- The bytes of an ASCII text. -/
def ascii (text : String) : ByteBuf := text.toList.map fun c => UInt8.ofNat c.toNat

namespace Bencode

/-- `deserialize::Error`. -/
inductive DeError where
  /-- `not supported by bencode` -/
  | notSupported
  | custom (msg : String)
  /-- `expected 0 or 1 for boolean, got {0}` -/
  | invalidBool (got : UInt8)
  /-- `deserialized successfully, but {0} bytes remaining` -/
  | bytesRemaining (count : ℕ)
  /-- `invalid length: {0}` -/
  | invalidLength (length : ℕ)
  /-- `invalid value` -/
  | invalidValue
  /-- `WithRawValue: invalid value` -/
  | rawDeInvalidValue
  /-- `invalid utf-8` -/
  | invalidUtf8
  /-- `eof` -/
  | eof
  deriving DecidableEq

namespace DeError

/-- `Error::invalid_length`, as `serde` words it. -/
def invalidLengthFor (len : ℕ) (expected : String) : DeError :=
  .custom ("invalid length " ++ toString len ++ ", expected " ++ expected)

/-- `Error::invalid_value`. -/
def invalidValueFor (unexpected expected : String) : DeError :=
  .custom ("invalid value: " ++ unexpected ++ ", expected " ++ expected)

/-- `Error::invalid_type`. -/
def invalidTypeFor (unexpected expected : String) : DeError :=
  .custom ("invalid type: " ++ unexpected ++ ", expected " ++ expected)

end DeError

structure BencodeDeserializer where
  buf : ByteBuf
  /-- The keys of the dictionaries around the value, at most four of them… -/
  fieldContext : List ByteBuf := []
  /-- …and how many more there are. -/
  fieldContextDidNotFit : ℕ := 0
  parsingKey : Bool := false
  deriving DecidableEq

instance : Cursor BencodeDeserializer UInt8 := ⟨BencodeDeserializer.buf⟩

lemma input_eq (d : BencodeDeserializer) : Cursor.input d = d.buf := rfl

/-- A parser of bencode. -/
abbrev De (α : Type) : Type := EStateM DeError BencodeDeserializer α

namespace BencodeDeserializer

def newFromBuf (buf : ByteBuf) : BencodeDeserializer := { buf }

/-- A key is remembered while its value is read. -/
def pushKey (d : BencodeDeserializer) (key : ByteBuf) : BencodeDeserializer :=
  if d.parsingKey then
    if d.fieldContext.length < 4 then { d with fieldContext := d.fieldContext ++ [key] }
    else { d with fieldContextDidNotFit := min (d.fieldContextDidNotFit + 1) 255 }
  else d

def popKey (d : BencodeDeserializer) : BencodeDeserializer :=
  if d.fieldContextDidNotFit > 0 then
    { d with fieldContextDidNotFit := d.fieldContextDidNotFit - 1 }
  else { d with fieldContext := d.fieldContext.dropLast }

def setParsingKey (b : Bool) (d : BencodeDeserializer) : BencodeDeserializer :=
  { d with parsingKey := b }

@[simp] lemma buf_pushKey (d : BencodeDeserializer) (key : ByteBuf) :
    (d.pushKey key).buf = d.buf := by
  rw [pushKey]
  split
  · split <;> rfl
  · rfl

@[simp] lemma buf_popKey (d : BencodeDeserializer) : d.popKey.buf = d.buf := by
  rw [popKey]
  split <;> rfl

end BencodeDeserializer

/-! ## Primitives -/

def parseFirstByte (c : UInt8) (err : DeError) : De Unit := do
  let d ← get
  match d.buf with
  | start :: rest => if start = c then set { d with buf := rest } else throw err
  | [] => throw .eof

/-- The digits of an integer and the `e` behind them: `atoi` gives a number and how many bytes it is
written in. -/
def parseDigits {I : Type} (atoi : ByteBuf → I × ℕ) : De I := do
  let d ← get
  let (v, len) := atoi d.buf
  if 0 < len ∧ d.buf[len]? = some 'e'.toUInt8 then
    set { d with buf := d.buf.drop (len + 1) }
    return v
  else throw .invalidValue

def parseInteger {I : Type} (atoi : ByteBuf → I × ℕ) : De I := do
  parseFirstByte 'i'.toUInt8 .invalidValue
  parseDigits atoi

def parseBytes : De ByteBuf := do
  let d ← get
  let (v, len) := fromRadix10 64 d.buf
  if 0 < len ∧ d.buf[len]? = some ':'.toUInt8 then
    let buf := d.buf.drop (len + 1)
    if v ≤ buf.length then
      set ({ d with buf := buf.drop v }.pushKey (buf.take v))
      return buf.take v
    else
      set { d with buf }
      throw .eof
  else throw .invalidValue

/-- An integer of an unsigned type of `w` bits. -/
def deserializeUnsigned {I : Type} (w : ℕ) (ofNat : ℕ → I) : De I :=
  parseInteger fun buf => (ofNat (fromRadix10 w buf).1, (fromRadix10 w buf).2)

/-- An integer of a signed type of `w` bits. -/
def deserializeSigned {I : Type} (w : ℕ) (ofInt : ℤ → I) : De I :=
  parseInteger fun buf => (ofInt (fromRadix10Signed w buf).1, (fromRadix10Signed w buf).2)

def deserializeU8 : De UInt8 := deserializeUnsigned 8 UInt8.ofNat

def deserializeU16 : De UInt16 := deserializeUnsigned 16 UInt16.ofNat

def deserializeU32 : De UInt32 := deserializeUnsigned 32 UInt32.ofNat

def deserializeI32 : De Int32 := deserializeSigned 32 Int32.ofInt

def deserializeI64 : De Int64 := deserializeSigned 64 Int64.ofInt

/-! ## Lists and dictionaries -/

/-- The end of a list or a dictionary, if the next byte is one. -/
def atEnd : De Bool := do
  if (← peek) = some 'e'.toUInt8 then
    modify fun d => { d with buf := d.buf.tail }
    return true
  else return false

/-- `MapAccess::next_key_seed`. -/
def nextKey {K : Type} (seed : De K) : De (Option K) := do
  if ← atEnd then return none
  modify (BencodeDeserializer.setParsingKey true)
  let retval ← seed
  modify (BencodeDeserializer.setParsingKey false)
  return some retval

/-- `MapAccess::next_value_seed`. -/
def nextValue {V : Type} (seed : De V) : De V := do
  let value ← seed
  modify BencodeDeserializer.popKey
  return value

/-- `SeqAccess::next_element_seed`. -/
def nextElement {T : Type} (seed : De T) : De (Option T) := do
  if ← atEnd then return none
  return some (← seed)

/-- One round of a visitor's loop over a list. -/
def seqBody {T : Type} (elem : De T) (acc : List T) : De (Option (List T)) := do
  return (← nextElement elem).map fun v => acc ++ [v]

/-- One round of a visitor's loop over a dictionary. -/
def mapBody {K S : Type} (key : De K) (entry : S → K → De S) (acc : S) : De (Option S) := do
  match ← nextKey key with
  | none => return none
  | some k => return some (← nextValue (entry acc k))

/-- `deserialize_seq` with a visitor that collects the elements. -/
def deserializeSeq {T : Type} (elem : De T) : De (List T) := do
  parseFirstByte 'l'.toUInt8 .invalidValue
  loopAll .eof (seqBody elem) []

/-- `deserialize_map` with a visitor that takes the entries one by one. -/
def deserializeMap {K S : Type} (key : De K) (entry : S → K → De S) (acc : S) : De S := do
  parseFirstByte 'd'.toUInt8 .invalidValue
  loopAll .eof (mapBody key entry) acc

/-! ## Any value -/

/-- A visitor that takes whatever value there is. -/
structure AnyVisitor (α : Type) where
  Key : Type
  /-- How a key is read, given how a value is. -/
  key : De α → De Key
  visitI64 : Int64 → α
  visitBytes : ByteBuf → α
  visitSeq : List α → α
  visitMap : List (Key × α) → α

/-- `deserialize_any`, for values nested at most `fuel` deep. -/
def deserializeAny {α : Type} (v : AnyVisitor α) : (fuel : ℕ) → De α
  | 0 => throw .eof
  | fuel + 1 => do
    match ← peek with
    | none => throw .eof
    | some c =>
      if c = 'd'.toUInt8 then
        let entries ← deserializeMap (v.key (deserializeAny v fuel))
          (fun acc k => do return acc ++ [(k, ← deserializeAny v fuel)]) []
        return v.visitMap entries
      else if c = 'i'.toUInt8 then return v.visitI64 (← deserializeI64)
      else if c = 'l'.toUInt8 then return v.visitSeq (← deserializeSeq (deserializeAny v fuel))
      else return v.visitBytes (← parseBytes)

/-- Read whatever value there is; no value is nested deeper than it is long. -/
def anyValue {α : Type} (v : AnyVisitor α) : De α := do
  deserializeAny v ((← get).buf.length + 1)

/-- `IgnoredAny`, which takes any value as a key too. -/
def ignoredVisitor : AnyVisitor Unit where
  Key := Unit
  key := id
  visitI64 _ := ()
  visitBytes _ := ()
  visitSeq _ := ()
  visitMap _ := ()

def ignoredAny : De Unit := anyValue ignoredVisitor

/-! ## Whole buffers -/

/-- `ErrorWithContext`. -/
structure ErrorWithContext where
  kind : DeError
  ctx : List ByteBuf
  deriving DecidableEq

variable {T : Type}

/-- Deserialize a value at the start of the buffer, return it and the remaining bytes. -/
def fromBytesWithRest (de : De T) (buf : ByteBuf) : Except ErrorWithContext (T × ByteBuf) :=
  match de.run (.newFromBuf buf) with
  | .ok v d => .ok (v, d.buf)
  | .error kind d => .error { kind, ctx := d.fieldContext }

/-- Deserialize a bencode value. If there are trailing bytes, will error. -/
def fromBytes (de : De T) (buf : ByteBuf) : Except ErrorWithContext T := do
  let (v, rest) ← fromBytesWithRest de buf
  if rest.isEmpty then return v
  else throw { kind := .bytesRemaining rest.length, ctx := [] }

variable {de : De T}

/-- A buffer is read to its end. -/
lemma fromBytes_eq_ok {buf v} :
    fromBytes de buf = .ok v ↔ ∃ d, de.run (.newFromBuf buf) = .ok v d ∧ d.buf = [] := by
  rw [fromBytes, fromBytesWithRest]
  cases hrun : de.run (.newFromBuf buf) with
  | error kind d =>
    constructor
    · intro h
      cases h
    · rintro ⟨_, h, -⟩
      cases h
  | ok w d =>
    show (if d.buf.isEmpty then Except.ok w else _) = Except.ok v ↔ _
    split
    · next hempty =>
      refine ⟨fun h => ⟨d, by rw [Except.ok.inj h], List.isEmpty_iff.mp hempty⟩, ?_⟩
      rintro ⟨_, h, -⟩
      cases h
      rfl
    · next hempty =>
      constructor
      · intro h
        cases h
      · rintro ⟨_, h, hnil⟩
        cases h
        exact absurd (List.isEmpty_iff.mpr hnil) hempty

/-- **What a parser reads, it reads at the start of a buffer.** -/
theorem fromBytesWithRest_of_reads {w v} (h : Reads de w v)
    (rest : ByteBuf) : fromBytesWithRest de (w ++ rest) = .ok (v, rest) := by
  obtain ⟨d, hd, hrest⟩ := h (.newFromBuf (w ++ rest)) rest rfl
  rw [fromBytesWithRest, hd]
  exact congrArg (fun buf => Except.ok (v, buf)) hrest

lemma fromBytes_of_reads {w v} (h : Reads de w v) :
    fromBytes de w = .ok v := by
  have hrest := fromBytesWithRest_of_reads h []
  rw [append_nil] at hrest
  rw [fromBytes, hrest]
  rfl

/-! ## Bytes and integers -/

variable {d : BencodeDeserializer} (c : UInt8)

lemma run_parseFirstByte (err : DeError) (d : BencodeDeserializer) :
    (parseFirstByte c err).run d =
      match d.buf with
      | start :: rest => if start = c then .ok () { d with buf := rest } else .error err d
      | [] => .error .eof d := by
  rw [parseFirstByte]
  cases h : d.buf with
  | nil => simp [h]
  | cons start rest =>
    simp only [EStateM.run_bind, EStateM.run_get, h]
    split <;> rfl

lemma reads_parseFirstByte (err : DeError) : Reads (parseFirstByte c err) [c] () := by
  intro d rest hd
  have hbuf : d.buf = c :: rest := hd
  refine ⟨{ d with buf := rest }, ?_, rfl⟩
  rw [run_parseFirstByte, hbuf]
  exact if_pos rfl

/-- What a first byte that is there leaves. -/
lemma run_parseFirstByte_eq_ok {c err d d'} (h : (parseFirstByte c err).run d = .ok () d') :
    ∃ rest, d.buf = c :: rest ∧ d' = { d with buf := rest } := by
  rw [run_parseFirstByte] at h
  split at h
  · rename_i start rest hbuf
    split at h
    · rename_i hstart
      subst hstart
      exact ⟨rest, hbuf, by cases h; rfl⟩
    · cases h
  · cases h

lemma stable_parseFirstByte (err : DeError) : Stable (parseFirstByte c err) := by
  intro d e more a d' he h
  obtain ⟨rest, hbuf, rfl⟩ := run_parseFirstByte_eq_ok h
  rw [input_eq, input_eq, hbuf] at he
  refine ⟨{ e with buf := rest ++ more }, ?_, rfl⟩
  rw [run_parseFirstByte, he]
  exact if_pos rfl

lemma consumes_parseFirstByte (err : DeError) : Consumes (parseFirstByte c err) := by
  intro d a d' h
  obtain ⟨rest, hbuf, rfl⟩ := run_parseFirstByte_eq_ok h
  exact show rest.length < d.buf.length by rw [hbuf]; exact Nat.lt_succ_self _

section Integer

variable {I : Type} {atoi : ByteBuf → I × ℕ}

lemma run_parseDigits (atoi : ByteBuf → I × ℕ) (d : BencodeDeserializer) :
    (parseDigits atoi).run d =
      if 0 < (atoi d.buf).2 ∧ d.buf[(atoi d.buf).2]? = some 'e'.toUInt8 then
        .ok (atoi d.buf).1 { d with buf := d.buf.drop ((atoi d.buf).2 + 1) }
      else .error .invalidValue d := by
  rw [parseDigits]
  simp only [EStateM.run_bind, EStateM.run_get]
  split <;> rfl

section

variable (hatoi : ∀ buf more, (atoi buf).2 < buf.length → atoi (buf ++ more) = atoi buf)
include hatoi

lemma stable_parseDigits : Stable (parseDigits atoi) := by
  intro d e more a d' he h
  rw [input_eq, input_eq] at he
  rw [run_parseDigits] at h
  split at h
  · rename_i hlen
    cases h
    have hlt : (atoi d.buf).2 < d.buf.length := (List.getElem?_eq_some_iff.mp hlen.2).1
    refine ⟨{ e with buf := d.buf.drop ((atoi d.buf).2 + 1) ++ more }, ?_, rfl⟩
    have hend : (d.buf ++ more)[(atoi d.buf).2]? = some 'e'.toUInt8 := by
      rw [getElem?_append_left hlt]
      exact hlen.2
    rw [run_parseDigits, he, hatoi _ _ hlt, if_pos ⟨hlen.1, hend⟩, drop_append_of_le_length hlt]
  · cases h

lemma stable_parseInteger : Stable (parseInteger atoi) :=
  Stable.bind (stable_parseFirstByte _ _) fun _ => stable_parseDigits hatoi

end

lemma consumes_parseInteger (atoi : ByteBuf → I × ℕ) : Consumes (parseInteger atoi) := by
  refine Consumes.bind (consumes_parseFirstByte _ _) fun _ => ?_
  intro d a d' h
  rw [run_parseDigits] at h
  split at h <;> cases h
  exact show (d.buf.drop _).length ≤ d.buf.length by rw [length_drop]; omega

/-- **An integer is read back if `atoi` reads its text.** -/
theorem reads_parseInteger {text v} (hne : text ≠ [])
    (hatoi : ∀ rest, atoi (text ++ 'e'.toUInt8 :: rest) = (v, text.length)) :
    Reads (parseInteger atoi) ('i'.toUInt8 :: (text ++ ['e'.toUInt8])) v := by
  have hdigits : Reads (parseDigits atoi) (text ++ ['e'.toUInt8]) v := by
    intro d rest hd
    rw [input_eq, append_assoc, singleton_append] at hd
    have hend : (text ++ 'e'.toUInt8 :: rest)[text.length]? = some 'e'.toUInt8 := by
      rw [getElem?_append_right (Nat.le_refl _), Nat.sub_self]
      rfl
    refine ⟨{ d with buf := rest }, ?_, rfl⟩
    rw [run_parseDigits, hd, hatoi, if_pos ⟨length_pos_iff.mpr hne, hend⟩, ← drop_drop, drop_left]
    rfl
  exact Reads.bind (reads_parseFirstByte _ _) hdigits

lemma stable_deserializeUnsigned (w : ℕ) (ofNat : ℕ → I) :
    Stable (deserializeUnsigned w ofNat) := by
  refine stable_parseInteger fun buf more h => ?_
  rw [fromRadix10_append h]

lemma stable_deserializeSigned (w : ℕ) (ofInt : ℤ → I) : Stable (deserializeSigned w ofInt) := by
  refine stable_parseInteger fun buf more h => ?_
  rw [fromRadix10Signed_append h]

lemma reads_deserializeUnsigned {w n} (hn : n < 2 ^ w) (ofNat : ℕ → I) :
    Reads (deserializeUnsigned w ofNat) ('i'.toUInt8 :: (decimal n ++ ['e'.toUInt8]))
      (ofNat n) := by
  refine reads_parseInteger (decimal_ne_nil n) fun rest => ?_
  rw [fromRadix10_decimal hn (by decide)]

lemma reads_deserializeSigned {w z} (hlo : -2 ^ w ≤ z) (hhi : z < 2 ^ w) (ofInt : ℤ → I) :
    Reads (deserializeSigned (w + 1) ofInt) ('i'.toUInt8 :: (decimalInt z ++ ['e'.toUInt8]))
      (ofInt z) := by
  refine reads_parseInteger (decimalInt_ne_nil z) fun rest => ?_
  rw [fromRadix10Signed_decimalInt hlo hhi (by decide)]

end Integer

lemma run_parseBytes {v len} (h : fromRadix10 64 d.buf = (v, len)) : parseBytes.run d =
      if 0 < len ∧ d.buf[len]? = some ':'.toUInt8 then
        if v ≤ (d.buf.drop (len + 1)).length then
          .ok ((d.buf.drop (len + 1)).take v)
            (({ d with buf := (d.buf.drop (len + 1)).drop v } : BencodeDeserializer).pushKey
              ((d.buf.drop (len + 1)).take v))
        else .error .eof { d with buf := d.buf.drop (len + 1) }
      else .error .invalidValue d := by
  rw [parseBytes]
  simp only [EStateM.run_bind, EStateM.run_get, h]
  split
  · split <;> rfl
  · rfl

variable {b : ByteBuf}

/-- What a byte string that is there looks like. -/
lemma run_parseBytes_eq_ok {d'} (h : parseBytes.run d = .ok b d') :
    ∃ len, fromRadix10 64 d.buf = (b.length, len) ∧ 0 < len ∧ len < d.buf.length ∧
      d.buf[len]? = some ':'.toUInt8 ∧ d.buf.drop (len + 1) = b ++ d'.buf := by
  obtain ⟨v, len, hnum⟩ : ∃ v len, fromRadix10 64 d.buf = (v, len) := ⟨_, _, rfl⟩
  rw [run_parseBytes hnum] at h
  split at h
  · rename_i hlen
    split at h
    · rename_i hle
      cases h
      refine ⟨len, ?_, hlen.1, (List.getElem?_eq_some_iff.mp hlen.2).1, hlen.2, ?_⟩
      · rw [hnum, length_take, Nat.min_eq_left hle]
      · rw [BencodeDeserializer.buf_pushKey, take_append_drop]
    · cases h
  · cases h

lemma exists_run_parseBytes (len : ℕ) (rest : ByteBuf)
    (hnum : fromRadix10 64 d.buf = (b.length, len)) (hlen : 0 < len)
    (hcolon : d.buf[len]? = some ':'.toUInt8) (hdrop : d.buf.drop (len + 1) = b ++ rest) :
    ∃ d', parseBytes.run d = .ok b d' ∧ d'.buf = rest := by
  rw [run_parseBytes hnum, if_pos ⟨hlen, hcolon⟩, hdrop,
    if_pos (by rw [length_append]; exact Nat.le_add_right _ _), take_left,
    drop_left]
  exact ⟨_, rfl, BencodeDeserializer.buf_pushKey _ _⟩

/-- **A byte string is read back.** -/
theorem reads_parseBytes (hb : b.length < 2 ^ 64) :
    Reads parseBytes (decimal b.length ++ ':'.toUInt8 :: b) b := by
  intro d rest hd
  rw [input_eq, append_assoc] at hd
  refine exists_run_parseBytes (decimal b.length).length rest ?_ (decimal_length_pos _) ?_ ?_
  · rw [hd]
    exact fromRadix10_decimal hb (by decide) _
  · rw [hd, getElem?_append_right (Nat.le_refl _), Nat.sub_self]
    rfl
  · rw [hd, ← drop_drop, drop_left]
    rfl

lemma stable_parseBytes : Stable parseBytes := by
  intro d e more b d' he h
  rw [input_eq, input_eq] at he
  obtain ⟨len, hnum, hlen, hlt, hcolon, hdrop⟩ := run_parseBytes_eq_ok h
  refine exists_run_parseBytes len (d'.buf ++ more) ?_ hlen ?_ ?_
  · rw [he, fromRadix10_append (by rw [hnum]; exact hlt), hnum]
  · rw [he, getElem?_append_left hlt]
    exact hcolon
  · rw [he, drop_append_of_le_length hlt, hdrop, append_assoc]

lemma consumes_parseBytes : Consumes parseBytes := by
  intro d b d' h
  obtain ⟨len, -, -, hlt, -, hdrop⟩ := run_parseBytes_eq_ok h
  have := congrArg List.length hdrop
  rw [length_drop, length_append] at this
  rw [input_eq, input_eq]
  omega

/-! ## The number that is written

The digits up to the end mark are taken modulo the width of the type, and a sign alone for zero. -/

lemma eq_take_append_cons {buf : ByteBuf} {len c} (h : buf[len]? = some c) :
    buf = buf.take len ++ c :: buf.drop (len + 1) := by
  obtain ⟨hlt, rfl⟩ := List.getElem?_eq_some_iff.mp h
  rw [← drop_eq_getElem_cons hlt, take_append_drop]

/-- What an integer that is there looks like. -/
lemma run_parseInteger_eq_ok {I : Type} {atoi : ByteBuf → I × ℕ} {v d'}
    (h : (parseInteger atoi).run d = .ok v d') :
    ∃ buf, d.buf = 'i'.toUInt8 :: (buf.take (atoi buf).2 ++ 'e'.toUInt8 :: d'.buf) ∧
      v = (atoi buf).1 ∧ 0 < (atoi buf).2 := by
  rw [parseInteger, EStateM.run_bind] at h
  split at h
  · rename_i hfirst
    obtain ⟨buf, hbuf, rfl⟩ := run_parseFirstByte_eq_ok hfirst
    rw [run_parseDigits] at h
    split at h <;> cases h
    rename_i hlen
    exact ⟨buf, hbuf.trans (congrArg _ (eq_take_append_cons hlen.2)), rfl, hlen.1⟩
  · cases h

/-- **A number is the one that is written exactly when its type can hold it**, and so is the length
of a byte string. -/
theorem decodes_written_iff (d d' : BencodeDeserializer) :
    (∀ w v, (deserializeUnsigned w id).run d = .ok v d' → ∃ text n,
      d.buf = 'i'.toUInt8 :: (text ++ 'e'.toUInt8 :: d'.buf) ∧ writtenNat text = some n ∧
        (v = n ↔ n < 2 ^ w)) ∧
    (∀ w v, (deserializeSigned (w + 1) id).run d = .ok v d' → ∃ text,
      d.buf = 'i'.toUInt8 :: (text ++ 'e'.toUInt8 :: d'.buf) ∧
        (writtenInt text = some v ↔ ∃ z, writtenInt text = some z ∧ -2 ^ w ≤ z ∧ z < 2 ^ w)) ∧
    ∀ b, parseBytes.run d = .ok b d' → ∃ text n,
      d.buf = text ++ ':'.toUInt8 :: (b ++ d'.buf) ∧ writtenNat text = some n ∧
        (b.length = n ↔ n < 2 ^ 64) := by
  refine ⟨fun w v h => ?_, fun w v h => ?_, fun b h => ?_⟩
  · obtain ⟨buf, hbuf, rfl, hpos⟩ := run_parseInteger_eq_ok h
    obtain ⟨n, hn, hmod⟩ := fromRadix10_eq_mod hpos
    refine ⟨_, n, hbuf, hn, ?_⟩
    rw [id, hmod]
    exact Nat.mod_eq_iff_lt (by positivity)
  · obtain ⟨buf, hbuf, rfl, -⟩ := run_parseInteger_eq_ok h
    refine ⟨_, hbuf, fun hv => ⟨_, hv, ?_⟩, fun ⟨z, hz, hle⟩ => ?_⟩
    · exact bmod_eq_self_iff.mp (fromRadix10Signed_eq_bmod hv).symm
    · rw [id, fromRadix10Signed_eq_bmod hz, bmod_eq_self_iff.mpr hle]
      exact hz
  · obtain ⟨len, hnum, hpos, -, hcolon, hdrop⟩ := run_parseBytes_eq_ok h
    have hlen : 0 < (fromRadix10 64 d.buf).2 := by
      rw [hnum]
      exact hpos
    obtain ⟨n, hn, hmod⟩ := fromRadix10_eq_mod hlen
    rw [hnum] at hn hmod
    refine ⟨_, n, hdrop ▸ eq_take_append_cons hcolon, hn, ?_⟩
    rw [show b.length = n % 2 ^ 64 from hmod]
    exact Nat.mod_eq_iff_lt (by positivity)

/-- **Three numbers that are not the ones that are written**: `i256e` as a byte, a sign alone, and a
length of 2⁶⁴ + 1. -/
theorem not_written_wrapped :
    fromBytes deserializeU8 (ascii "i256e") = .ok 0 ∧ writtenNat (ascii "256") = some 256 ∧
      fromBytes deserializeI64 (ascii "i-e") = .ok 0 ∧ writtenInt (ascii "-") = none ∧
      fromBytes parseBytes (ascii "18446744073709551617:a") = .ok (ascii "a") ∧
      writtenNat (ascii "18446744073709551617") = some (2 ^ 64 + 1) :=
  ⟨rfl, by decide, rfl, by decide, rfl, by decide⟩

end Bencode

end Librtbit
