import Librtbit.Bencode.Visitors
import Librtbit.Machinery.SortedMap

/-!
# Bencode/Serializer — writing bencode

What `BencodeSerializer` writes for a number, a byte string, a list and a dictionary.  The entries
of a dictionary, and the fields of a struct, go through a `BTreeMap` from keys to encoded values, so
they are written in increasing order of keys.
-/

namespace Librtbit.Bencode

open Machinery List

/-- `write_number`. -/
def writeNumber (number : ℤ) : ByteBuf := 'i'.toUInt8 :: (decimalInt number ++ ['e'.toUInt8])

/-- `write_bytes`. -/
def writeBytes (bytes : ByteBuf) : ByteBuf := decimal bytes.length ++ ':'.toUInt8 :: bytes

def serializeU8 (v : UInt8) : ByteBuf := writeNumber v.toNat

def serializeU16 (v : UInt16) : ByteBuf := writeNumber v.toNat

def serializeU32 (v : UInt32) : ByteBuf := writeNumber v.toNat

def serializeI32 (v : Int32) : ByteBuf := writeNumber v.toInt

def serializeI64 (v : Int64) : ByteBuf := writeNumber v.toInt

/-- `serialize_seq`, over the encoded elements. -/
def serializeSeq (elements : List ByteBuf) : ByteBuf :=
  'l'.toUInt8 :: (elements.flatten ++ ['e'.toUInt8])

/-- An entry of a dictionary. -/
def writeEntry (e : ByteBuf × ByteBuf) : ByteBuf := writeBytes e.1 ++ e.2

/-- `serialize_map`, over the keys and the encoded values. -/
def serializeMap (entries : List (ByteBuf × ByteBuf)) : ByteBuf :=
  'd'.toUInt8 :: ((SortedMap.ofList entries).flatMap writeEntry ++ ['e'.toUInt8])

/-- The fields that are there: one that is `None` is skipped. -/
def presentFields (fields : List (ByteBuf × Option ByteBuf)) : List (ByteBuf × ByteBuf) :=
  fields.filterMap fun f => f.2.map fun bytes => (f.1, bytes)

/-- `serialize_struct`. -/
def serializeStruct (fields : List (ByteBuf × Option ByteBuf)) : ByteBuf :=
  serializeMap (presentFields fields)

lemma keys_presentFields (fields : List (ByteBuf × Option ByteBuf)) :
    ((presentFields fields).map Prod.fst).Sublist (fields.map Prod.fst) := by
  induction fields with
  | nil => exact List.Sublist.refl _
  | cons f fields ih =>
    obtain ⟨k, bytes⟩ := f
    cases bytes with
    | none => exact ih.cons k
    | some bytes => exact ih.cons_cons k

/-! ## Numbers are read back -/

lemma writeNumber_natCast (n : ℕ) :
    writeNumber n = 'i'.toUInt8 :: (decimal n ++ ['e'.toUInt8]) := by
  rw [writeNumber, decimalInt, if_neg (by omega), Int.natAbs_natCast]

lemma reads_deserializeU8 (v : UInt8) : Reads deserializeU8 (serializeU8 v) v := by
  have h := reads_deserializeUnsigned v.toNat_lt UInt8.ofNat
  rwa [UInt8.ofNat_toNat, ← writeNumber_natCast] at h

lemma reads_deserializeU16 (v : UInt16) : Reads deserializeU16 (serializeU16 v) v := by
  have h := reads_deserializeUnsigned v.toNat_lt UInt16.ofNat
  rwa [UInt16.ofNat_toNat, ← writeNumber_natCast] at h

lemma reads_deserializeU32 (v : UInt32) : Reads deserializeU32 (serializeU32 v) v := by
  have h := reads_deserializeUnsigned v.toNat_lt UInt32.ofNat
  rwa [UInt32.ofNat_toNat, ← writeNumber_natCast] at h

lemma reads_deserializeI32 (v : Int32) : Reads deserializeI32 (serializeI32 v) v := by
  have h := reads_deserializeSigned v.le_toInt v.toInt_lt Int32.ofInt
  rwa [Int32.ofInt_toInt] at h

lemma reads_deserializeI64 (v : Int64) : Reads deserializeI64 (serializeI64 v) v := by
  have h := reads_deserializeSigned v.le_toInt v.toInt_lt Int64.ofInt
  rwa [Int64.ofInt_toInt] at h

lemma reads_writeBytes {bytes} (h : (writeBytes bytes).length < 2 ^ 64) :
    Reads parseBytes (writeBytes bytes) bytes := by
  refine reads_parseBytes (Nat.lt_of_le_of_lt ?_ h)
  rw [writeBytes, length_append, length_cons]
  omega

variable {entries : List (ByteBuf × ByteBuf)}

/-- **The length of a dictionary** does not depend on the order of its entries. -/
theorem length_serializeMap (hkeys : (entries.map Prod.fst).Nodup) :
    (serializeMap entries).length = (entries.map fun e => (writeEntry e).length).sum + 2 := by
  rw [serializeMap, length_cons, length_append, length_flatMap,
    ((SortedMap.perm_ofList hkeys).map _).sum_eq, length_singleton]

/-- **A dictionary is longer than each of its values.** -/
theorem length_lt_length_serializeMap
    (hkeys : (entries.map Prod.fst).Nodup) {e} (he : e ∈ entries) :
    e.2.length < (serializeMap entries).length := by
  have hle := (sublist_flatten_of_mem (mem_map_of_mem (f := writeEntry) he)).length_le
  rw [writeEntry, length_append, ← flatMap_def, length_flatMap] at hle
  rw [length_serializeMap hkeys]
  omega

/-! ## Encodings are values -/

lemma startsValue_writeNumber (number : ℤ) : StartsValue (writeNumber number) :=
  ⟨_, _, rfl, by decide⟩

lemma startsValue_writeBytes (bytes : ByteBuf) : StartsValue (writeBytes bytes) := by
  obtain ⟨c, rest, hc⟩ := exists_cons_of_ne_nil (decimal_ne_nil bytes.length)
  refine ⟨c, rest ++ ':'.toUInt8 :: bytes, by rw [writeBytes, hc]; rfl, ?_⟩
  rintro rfl
  have := isDigit_of_mem_decimal (n := bytes.length) (b := 'e'.toUInt8) (by simp [hc])
  exact absurd this (by decide)

lemma startsValue_serializeSeq (elements : List ByteBuf) : StartsValue (serializeSeq elements) :=
  ⟨_, _, rfl, by decide⟩

lemma startsValue_serializeMap (entries : List (ByteBuf × ByteBuf)) :
    StartsValue (serializeMap entries) :=
  ⟨_, _, rfl, by decide⟩

end Librtbit.Bencode
