import Librtbit.Bencode.Ignored

/-!
# Core/HashId — ids of a fixed number of bytes

The hashes of torrents and the ids of peers and nodes.  In bencode an id is a byte string of its
length; it is read with `deserialize_any`, so what is not a byte string is refused by what it is.

Ids are compared byte by byte, as the numbers they stand for are (`Id.lt_iff`), and single bits of
them are read, set and cleared, the highest being bit 0 (`Id.getBit_eq`, `Id.exists_setBit`).
-/

namespace Librtbit

open Machinery Bencode

/-- `Id<N>`. -/
abbrev Id (n : ℕ) : Type := Octets n

abbrev Id20 : Type := Id 20

namespace Id

variable {n : ℕ}

def expecting (n : ℕ) : String := "a byte array of length " ++ toString n

def serialize (id : Id n) : ByteBuf := writeBytes id.val

/-- `visit_bytes`. -/
def visitBytes (n : ℕ) (v : ByteBuf) : De (Id n) :=
  match Octets.ofSlice n v with
  | some id => return id
  | none => throw (.invalidLengthFor n (expecting n))

/-- What there is, by its first byte. -/
def deserializeAs (n : ℕ) (c : Option UInt8) : De (Id n) :=
  match c with
  | none => throw .eof
  | some c =>
    if c = 'd'.toUInt8 then do
      parseFirstByte 'd'.toUInt8 .invalidValue
      throw (.invalidTypeFor "map" (expecting n))
    else if c = 'i'.toUInt8 then do
      let v ← deserializeI64
      throw (.invalidTypeFor ("integer `" ++ toString v ++ "`") (expecting n))
    else if c = 'l'.toUInt8 then do
      parseFirstByte 'l'.toUInt8 .invalidValue
      throw (.invalidTypeFor "sequence" (expecting n))
    else parseBytes >>= visitBytes n

def deserialize (n : ℕ) : De (Id n) := peek >>= deserializeAs n

lemma deserializeAs_of_isDigit {c} (hc : isDigit c = true) :
    deserializeAs n (some c) = parseBytes >>= visitBytes n := by
  have hne : ∀ b, isDigit b = false → c ≠ b := by
    rintro b hb rfl
    rw [hb] at hc
    cases hc
  rw [deserializeAs, if_neg (hne _ (by decide)), if_neg (hne _ (by decide)),
    if_neg (hne _ (by decide))]

/-- **An id is read back.** -/
theorem reads_deserialize {id} (hlen : id.serialize.length < 2 ^ 64) :
    Reads (deserialize n) id.serialize id := by
  obtain ⟨c, rest, hc⟩ := List.exists_cons_of_ne_nil (decimal_ne_nil id.val.length)
  have hdigit : isDigit c = true := isDigit_of_mem_decimal (n := id.val.length) (by simp [hc])
  have hbytes : Reads (parseBytes >>= visitBytes n) id.serialize id := by
    refine (reads_writeBytes hlen).bind_nil ?_
    rw [visitBytes, Octets.ofSlice_val]
    exact Reads.pure id
  have hcons : id.serialize = c :: (rest ++ ':'.toUInt8 :: id.val) := by
    rw [serialize, writeBytes, hc]
    rfl
  rw [hcons] at hbytes ⊢
  refine Reads.peek ?_
  rw [deserializeAs_of_isDigit hdigit]
  exact hbytes

/-- What is refused is not read. -/
lemma covers_throw_after {T U : Type} {p : De U} {e : U → DeError} {q : De Unit} :
    Covers (fun _ _ => True) (p >>= fun v => (throw (e v) : De T)) q := by
  intro d d' v d'' _ h
  obtain ⟨_, _, _, hthrow⟩ := run_bind_eq_ok h
  cases hthrow

lemma skippable_deserialize : Skippable (deserialize n) := by
  intro d e id d' he h
  have hcovers : Skippable (deserializeAs n (Cursor.input d).head?) := by
    cases (Cursor.input d).head? with
    | none => exact Covers.throw _
    | some c =>
      rw [deserializeAs]
      split
      · exact covers_throw_after
      split
      · exact covers_throw_after
      split
      · exact covers_throw_after
      refine skippable_parseBytes.bind fun v => ?_
      rw [visitBytes]
      cases Octets.ofSlice n v with
      | some id => exact Covers.pure trivial
      | none => exact Covers.throw _
  exact hcovers d e id d' he h

/-! ## Order -/

/-- The number an id stands for. -/
def value (id : Id n) : ℕ := beNat id.val

variable (id : Id n)

lemma value_lt : id.value < 2 ^ (8 * n) := by
  have h := beNat_lt id.val
  rw [id.property] at h
  rw [pow_mul]
  exact h

variable {a b : Id n}

lemma value_injective (h : a.value = b.value) : a = b :=
  Subtype.ext (beNat_injective (a.property.trans b.property.symm) h)

/-- The id that stands for a number. -/
def ofNat (n x : ℕ) : Id n := ⟨beBytes n x, length_beBytes n x⟩

lemma value_ofNat {x} (h : x < 2 ^ (8 * n)) : (ofNat n x).value = x := by
  rw [pow_mul] at h
  exact beNat_beBytes_of_lt h

lemma eq_ofNat_of_value_eq {id x} (h : id.value = x) : id = ofNat n x := by
  refine value_injective ?_
  rw [value_ofNat (h ▸ id.value_lt), h]

lemma lt_iff : a < b ↔ a.value < b.value :=
  lt_iff_beNat_lt (a.property.trans b.property.symm)

lemma ofNat_lt_ofNat {x y} (h : x < y) (hy : y < 2 ^ (8 * n)) : ofNat n x < ofNat n y := by
  rw [lt_iff, value_ofNat (h.trans hy), value_ofNat hy]
  exact h

lemma le_iff : a ≤ b ↔ a.value ≤ b.value := by
  rw [← not_lt, lt_iff, Nat.not_lt]

/-! ## Bits -/

/-- A byte with one bit set or cleared. -/
def setByteBit (b : UInt8) (bit : ℕ) (value : Bool) : UInt8 :=
  if value then b ||| 1 <<< UInt8.ofNat (7 - bit % 8)
  else b &&& ~~~(1 <<< UInt8.ofNat (7 - bit % 8))

/-- The id has to have the bit: the index of its byte is checked. -/
def setBit (id : Id n) (bit : ℕ) (value : Bool) : Option (Id n) :=
  (id.val[bit / 8]?).map fun b =>
    ⟨id.val.set (bit / 8) (setByteBit b bit value), (List.length_set ..).trans id.property⟩

def getBit (id : Id n) (bit : ℕ) : Option Bool :=
  (id.val[bit / 8]?).map fun b => (b &&& 1 <<< UInt8.ofNat (7 - bit % 8)) > 0

lemma testBit_setByteBit (b : UInt8) (bit : ℕ) (value : Bool) {j} (hj : j < 8) :
    (setByteBit b bit value).toNat.testBit j =
      if j = 7 - bit % 8 then value else b.toNat.testBit j := by
  have hall : ∀ m < 256, ∀ k < 8, ∀ j < 8, ∀ v : Bool,
      (setByteBit (UInt8.ofNat m) k v).toNat.testBit j = if j = 7 - k then v else m.testBit j := by
    decide +kernel
  have hk := hall b.toNat b.toNat_lt (bit % 8) (Nat.mod_lt _ (by decide)) j hj value
  rw [UInt8.ofNat_toNat] at hk
  rw [← hk, setByteBit, setByteBit, Nat.mod_mod]

lemma exists_getElem? {i} (hi : i < n) : ∃ b, id.val[i]? = some b :=
  ⟨_, List.getElem?_eq_getElem (id.property.symm ▸ hi)⟩

/-- The byte that a bit of the number is in. -/
lemma testBit_of_getElem? {l b j} (hl : l.length = n)
    (hj : j < 8 * n) (hb : l[n - 1 - j / 8]? = some b) :
    (beNat l).testBit j = b.toNat.testBit (j % 8) := by
  rw [← testBit_beNat hb (Nat.mod_lt _ (by decide))]
  congr 1
  omega

variable {bit : ℕ}

lemma getBit_eq (hbit : bit < 8 * n) :
    id.getBit bit = some (id.value.testBit (8 * n - 1 - bit)) := by
  have hall : ∀ m < 256, ∀ k < 8,
      decide ((UInt8.ofNat m &&& 1 <<< UInt8.ofNat (7 - k)) > 0) = m.testBit (7 - k) := by
    decide +kernel
  have hi : bit / 8 = n - 1 - (8 * n - 1 - bit) / 8 := by omega
  obtain ⟨b, hb⟩ := id.exists_getElem? (show bit / 8 < n by omega)
  have hk := hall b.toNat b.toNat_lt (bit % 8) (Nat.mod_lt _ (by decide))
  rw [UInt8.ofNat_toNat] at hk
  rw [getBit, hb, Option.map_some, hk, value, testBit_of_getElem? id.property (by omega) (hi ▸ hb)]
  congr 2
  omega

/-- **One bit is set or cleared, and all others stay.** -/
theorem exists_setBit (hbit : bit < 8 * n) (value : Bool) :
    ∃ id', id.setBit bit value = some id' ∧ ∀ j < 8 * n, id'.value.testBit j =
      if j = 8 * n - 1 - bit then value else id.value.testBit j := by
  obtain ⟨b, hb⟩ := id.exists_getElem? (show bit / 8 < n by omega)
  refine ⟨_, by rw [setBit, hb]; rfl, fun j hj => ?_⟩
  have hlen (i : ℕ) (b : UInt8) : (id.val.set i b).length = n :=
    (List.length_set ..).trans id.property
  show (beNat (id.val.set (bit / 8) _)).testBit j = if _ then value else (beNat id.val).testBit j
  by_cases hi : bit / 8 = n - 1 - j / 8
  · have hnew : (id.val.set (bit / 8) (setByteBit b bit value))[n - 1 - j / 8]? =
        some (setByteBit b bit value) := by
      rw [← hi]
      exact List.getElem?_set_self (by rw [id.property]; omega)
    rw [testBit_of_getElem? (hlen ..) hj hnew, testBit_of_getElem? id.property hj (hi ▸ hb),
      testBit_setByteBit _ _ _ (Nat.mod_lt _ (by decide))]
    congr 1
    simp only [eq_iff_iff]
    omega
  · obtain ⟨c, hc⟩ := id.exists_getElem? (show n - 1 - j / 8 < n by omega)
    rw [testBit_of_getElem? (hlen ..) hj ((List.getElem?_set_ne hi).trans hc),
      testBit_of_getElem? id.property hj hc, if_neg (by omega)]

/-- Ids that agree in every bit are the same. -/
lemma eq_of_testBit_eq (h : ∀ j < 8 * n, a.value.testBit j = b.value.testBit j) :
    a = b := by
  refine value_injective (Nat.eq_of_testBit_eq fun j => ?_)
  rcases lt_or_ge j (8 * n) with hj | hj
  · exact h j hj
  have hhigh (id : Id n) : id.value.testBit j = false :=
    Nat.testBit_lt_two_pow (id.value_lt.trans_le (Nat.pow_le_pow_right (by decide) hj))
  rw [hhigh, hhigh]

lemma setBit_eq_some (hbit : bit < 8 * n) {value id'} (h : ∀ j < 8 * n, id'.value.testBit j =
      if j = 8 * n - 1 - bit then value else id.value.testBit j) :
    id.setBit bit value = some id' := by
  obtain ⟨id'', hset, hbits⟩ := id.exists_setBit hbit value
  rw [hset, eq_of_testBit_eq fun j hj => (hbits j hj).trans (h j hj).symm]

end Id

end Librtbit
