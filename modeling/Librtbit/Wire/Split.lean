import Librtbit.Wire.Message

/-!
# Wire/Split — decoding a string cut in two

The decoder reads a string that the ring buffer may have cut anywhere.  `Recut d e` says that `d`
and `e` are the same string and `e` is not cut; `Agrees d x y` compares what is made of both: on `d`
the decoder may give up for want of a contiguous slice, but only if `d` is cut, and otherwise it
makes the same of `d` as of `e`.  `Agrees` goes through every step of the decoder (`Agrees.bind`),
so it is enough to look at the reads one by one.

The header of a metadata message is the one place where less than the whole may be parsed: it is
read from the first slice, and what is read there stays what it is when the rest is added
(`UtMetadataMsg.stable_deserialize`).
-/

namespace Librtbit.Wire

open Machinery Bencode DoubleBuf Wire.UtMetadataData List

/-- `e` is the string of `d`, in one slice. -/
structure Recut (d e : DoubleBuf) : Prop where
  join : d.join = e.join
  whole : e.Whole

lemma Recut.advance {d e} (h : Recut d e) (n : ℕ) :
    Recut (d.advance n) (e.advance n) where
  join := by rw [join_advance, join_advance, h.join]
  whole := h.whole.advance n

lemma Recut.withMaxLen {d e} (h : Recut d e) (n : ℕ) :
    Recut (d.withMaxLen n) (e.withMaxLen n) where
  join := by rw [join_withMaxLen, join_withMaxLen, h.join]
  whole := h.whole.withMaxLen n

/-- `x`, made of `d`, is `y`, made of the same string in one slice, unless `d` is cut and `x` says
so. -/
structure Agrees {α : Type} (d : DoubleBuf) (x y : Outcome MessageDeserializeError α) : Prop where
  whole : y ≠ .err .needContiguous
  same : x = .err .needContiguous ∧ ¬ d.Whole ∨ x = y

namespace Agrees

variable {α β : Type} {d : DoubleBuf} {x y : Outcome MessageDeserializeError α}

lemma rfl (h : x ≠ .err .needContiguous) : Agrees d x x := ⟨h, .inr (Eq.refl x)⟩

lemma ok (a : α) : Agrees d (.ok a) (.ok a) := Agrees.rfl (by simp)

lemma err {e} (h : e ≠ .needContiguous) :
    Agrees (α := α) d (.err e) (.err e) :=
  Agrees.rfl fun he => h (Outcome.err.inj he)

/-- **Agreement goes from one step of the decoder to the next.** -/
theorem bind {k k' : α → Outcome MessageDeserializeError β} (h : Agrees d x y)
    (hk : ∀ a, Agrees d (k a) (k' a)) : Agrees d (x >>= k) (y >>= k') := by
  obtain ⟨hwhole, hsame⟩ := h
  constructor
  · cases y with
    | ok a => exact (hk a).whole
    | err e => exact fun he => hwhole (congrArg Outcome.err (Outcome.err.inj he))
    | abort f => simp
  · rcases hsame with ⟨rfl, hcut⟩ | rfl
    · exact .inl ⟨Eq.refl _, hcut⟩
    · cases x with
      | ok a => exact (hk a).same
      | err e | abort f => exact .inr (Eq.refl _)

lemma map (f : α → β) (h : Agrees d x y) : Agrees d (f <$> x) (f <$> y) := by
  exact h.bind fun a => Agrees.ok (f a)

/-- Only what is cut itself has a cut part. -/
lemma of_advance {n} (h : Agrees (d.advance n) x y) : Agrees d x y :=
  ⟨h.whole, h.same.imp_left fun hcut => ⟨hcut.1, fun hd => hcut.2 (hd.advance n)⟩⟩

lemma of_withMaxLen {n} (h : Agrees (d.withMaxLen n) x y) : Agrees d x y :=
  ⟨h.whole, h.same.imp_left fun hcut => ⟨hcut.1, fun hd => hcut.2 (hd.withMaxLen n)⟩⟩

end Agrees

variable {d e : DoubleBuf}

/-- **The first bytes are the same bytes**, where they are contiguous. -/
theorem agrees_getContiguous (h : Recut d e) {n} (hn : n ≤ d.join.length) :
    Agrees d (Outcome.okOr .needContiguous (d.getContiguous n))
      (Outcome.okOr .needContiguous (e.getContiguous n)) := by
  have he : e.getContiguous n = some (d.join.take n) := by
    rw [h.whole.getContiguous_eq (h.join ▸ hn), h.join]
  rw [he]
  refine ⟨by simp [Outcome.okOr], ?_⟩
  cases hd : d.getContiguous n with
  | some bytes =>
    rw [d.eq_take_of_getContiguous hd]
    exact .inr rfl
  | none =>
    refine .inl ⟨rfl, fun hwhole => ?_⟩
    rw [hwhole.getContiguous_eq hn] at hd
    cases hd

lemma agrees_fromBytesContig {T : Type} (de : De T) (h : Recut d e) :
    Agrees d (fromBytesContig de d) (fromBytesContig de e) := by
  rw [fromBytesContig, fromBytesContig, ← len_eq_of_join_eq h.join]
  refine (agrees_getContiguous h d.length_join.ge).bind fun bytes => ?_
  cases fromBytes de bytes with
  | ok v => exact Agrees.ok v
  | error e => exact Agrees.err (by simp)

/-! ## Metadata -/

namespace UtMetadataData

variable (u : UtMetadataData)

lemma len_joined : u.joined.len = u.len := by
  rw [joined, len, len, length_append, length_nil, Nat.add_zero]

lemma validate_joined : u.joined.validate = u.validate := by
  rw [validate, len_joined]
  rfl

/-- **`validate` accepts the pieces.** -/
theorem validate_eq_ok_iff : u.validate = .ok () ↔ u.IsPiece := by
  have hpos : 0 < chunkSize := by decide
  have htotal := u.totalSize.toNat_lt
  rw [validate, IsPiece]
  by_cases hzero : u.totalSize = 0
  · rw [hzero]
    simp
  rw [if_neg hzero]
  by_cases hlarge : chunkSize < u.len
  · rw [if_pos hlarge]
    constructor
    · intro h
      cases h
    · intro h
      omega
  rw [if_neg hlarge, divCeil, if_neg hpos.ne', Outcome.ok_bind]
  by_cases hpiece : u.totalSize.toNat ⌈/⌉ chunkSize ≤ u.piece.toNat
  · rw [if_pos hpiece]
    constructor
    · intro h
      cases h
    · intro h
      exact absurd ((lt_ceilDiv_iff_mul_lt hpos).mpr h.1) (Nat.not_lt.mpr hpiece)
  have hlt := (lt_ceilDiv_iff_mul_lt hpos).mp (Nat.not_le.mp hpiece)
  have hlen : asU32 u.len = u.len :=
    asU32_of_lt (Nat.lt_of_le_of_lt (Nat.not_lt.mp hlarge) (by decide))
  rw [if_neg hpiece, checkedMul32, Nat.mul_comm u.piece.toNat,
    if_pos (Nat.lt_trans hlt htotal), Outcome.ok_bind, hlen]
  by_cases hsize : u.len = min (u.totalSize.toNat - chunkSize * u.piece.toNat) chunkSize
  · rw [if_neg (not_not.mpr hsize)]
    exact ⟨fun _ => ⟨hlt, hsize⟩, fun _ => rfl⟩
  rw [if_pos hsize]
  constructor
  · intro h
    cases h
  · intro h
    exact absurd h.2 hsize

lemma validate_ne_needContiguous : u.validate ≠ .err .needContiguous := by
  rw [validate]
  split
  · simp
  split
  · simp
  rw [divCeil, if_neg (by decide), Outcome.ok_bind]
  split
  · simp
  rw [checkedMul32]
  split
  · rw [Outcome.ok_bind]
    dsimp only
    split <;> simp
  · simp

end UtMetadataData

namespace UtMetadata

variable (message : UtMetadataMsg)

/-- **The bytes behind the header mean the same wherever they are cut.** -/
theorem map_joined_ofParts (h : d.join = e.join) :
    joined <$> ofParts message d = joined <$> ofParts message e := by
  have hempty : d.isEmpty = e.isEmpty := by
    rw [Bool.eq_iff_iff, DoubleBuf.isEmpty_iff, DoubleBuf.isEmpty_iff, h]
  rw [ofParts, ofParts, hempty]
  split
  · rfl
  split
  · cases message.totalSize with
    | none => rfl
    | some totalSize =>
      simp only [Outcome.okOr, Outcome.ok_bind]
      rw [← validate_joined, ← validate_joined ⟨_, _, e.buf0, _⟩]
      have hjoined : (⟨message.piece, totalSize, d.buf0, d.buf1⟩ : UtMetadataData).joined =
          (⟨message.piece, totalSize, e.buf0, e.buf1⟩ : UtMetadataData).joined :=
        congrArg (mk message.piece totalSize · []) h
      rw [hjoined]
      cases validate _ with
      | ok u => exact congrArg (fun u => Outcome.ok (data u)) hjoined
      | err _ | abort _ => rfl
  · rfl

lemma ofParts_ne_needContiguous (d : DoubleBuf) :
    joined <$> ofParts message d ≠ .err .needContiguous := by
  rw [ofParts]
  split
  · split <;> simp
  split
  · cases message.totalSize with
    | none => simp [Outcome.okOr]
    | some totalSize =>
      simp only [Outcome.okOr, Outcome.ok_bind]
      have hne := validate_ne_needContiguous ⟨message.piece, totalSize, d.buf0, d.buf1⟩
      cases hv : validate ⟨message.piece, totalSize, d.buf0, d.buf1⟩ with
      | ok u => simp
      | err e =>
        rw [hv] at hne
        exact fun h => hne (congrArg Outcome.err (Outcome.err.inj h))
      | abort f => simp
  split
  · split <;> simp
  · simp

/-- What is made of a header that is read from contiguous bytes. -/
def ofHeader (contig : ByteBuf) (buf : DoubleBuf) : Outcome MessageDeserializeError UtMetadata :=
  match UtMetadataMsg.deserialize.run (.newFromBuf contig) with
  | .ok message de => ofParts message (buf.advance (contig.length - de.buf.length))
  | .error err _ => .err (.bencode err)

lemma deserialize_of_getContiguous {contig}
    (h : d.getContiguous (min maxBmsgSize d.len) = some contig) :
    deserialize d = ofHeader contig d := by
  rw [deserialize, h]
  rfl

/-- **A header that lies in the first slice is the header.** -/
theorem ofParts_of_firstSlice {more message de} (buf : DoubleBuf) (first : ByteBuf)
    (hrun : UtMetadataMsg.deserialize.run (.newFromBuf first) = .ok message de) :
    ofHeader (first ++ more) buf =
      ofParts message (buf.advance (first.length - de.buf.length)) := by
  obtain ⟨de', hrun', hrest⟩ := UtMetadataMsg.stable_deserialize (.newFromBuf first)
    (.newFromBuf (first ++ more)) more message de rfl hrun
  have hlen : de'.buf.length = de.buf.length + more.length := by
    rw [← length_append]
    exact congrArg List.length hrest
  rw [ofHeader, hrun']
  dsimp only
  rw [hlen, length_append, Nat.add_sub_add_right]

lemma agrees_deserialize (h : Recut d e) :
    Agrees d (joined <$> deserialize d) (joined <$> deserialize e) := by
  have hlen : e.len = d.len := (len_eq_of_join_eq h.join).symm
  have hle : min maxBmsgSize d.len ≤ d.join.length := by
    rw [d.length_join]
    exact Nat.min_le_right _ _
  have he : e.getContiguous (min maxBmsgSize e.len) =
      some (d.join.take (min maxBmsgSize d.len)) := by
    rw [hlen, h.whole.getContiguous_eq (h.join ▸ hle), h.join]
  rw [deserialize_of_getContiguous he]
  have hwhole : joined <$> ofHeader (d.join.take (min maxBmsgSize d.len)) e ≠
      .err .needContiguous := by
    rw [ofHeader]
    cases UtMetadataMsg.deserialize.run
        (.newFromBuf (d.join.take (min maxBmsgSize d.len))) with
    | ok message de => exact ofParts_ne_needContiguous _ _
    | error err de => simp
  refine ⟨hwhole, ?_⟩
  cases hd : d.getContiguous (min maxBmsgSize d.len) with
  | some contig =>
    right
    rw [deserialize_of_getContiguous hd, ← d.eq_take_of_getContiguous hd, ofHeader, ofHeader]
    cases UtMetadataMsg.deserialize.run (.newFromBuf contig) with
    | ok message de => exact map_joined_ofParts message (h.advance _).join
    | error err de => rfl
  | none =>
    have hcut : ¬ d.Whole := fun hw => by
      rw [hw.getContiguous_eq hle] at hd
      cases hd
    have hshort : d.buf0.length ≤ min maxBmsgSize d.len := by
      by_contra hlong
      rw [getContiguous, if_pos (Nat.le_of_not_le hlong)] at hd
      cases hd
    have hfirst : d.join.take (min maxBmsgSize d.len) =
        d.buf0 ++ d.buf1.take (min maxBmsgSize d.len - d.buf0.length) := by
      rw [join, take_append, take_of_length_le hshort]
    rw [deserialize, hd]
    dsimp only
    cases hrun : UtMetadataMsg.deserialize.run (.newFromBuf d.buf0) with
    | ok message de =>
      right
      rw [hfirst, ofParts_of_firstSlice e d.buf0 hrun]
      exact map_joined_ofParts message (h.advance _).join
    | error err de => exact .inl ⟨rfl, hcut⟩

end UtMetadata

/-! ## Extended messages -/

namespace ExtendedMessage

lemma map_joined_map {α : Type} {mk} (hmk : ∀ a, (mk a).joined = mk a)
    (x : Outcome MessageDeserializeError α) : joined <$> mk <$> x = mk <$> x := by
  rw [Functor.map_map]
  exact congrArg (· <$> x) (funext hmk)

lemma agrees_deserializePayload (emsgId : UInt8) (h : Recut d e) :
    Agrees d (joined <$> deserializePayload emsgId d)
      (joined <$> deserializePayload emsgId e) := by
  rw [deserializePayload, deserializePayload]
  split
  · rw [map_joined_map fun _ => rfl, map_joined_map fun _ => rfl]
    exact (agrees_fromBytesContig _ h).map _
  split
  · have hmap : ∀ x : Outcome MessageDeserializeError UtMetadata,
        joined <$> utMetadata <$> x = utMetadata <$> UtMetadata.joined <$> x := by
      intro x
      rw [Functor.map_map, Functor.map_map]
      rfl
    rw [hmap, hmap]
    exact (UtMetadata.agrees_deserialize h).map _
  split
  · rw [map_joined_map fun _ => rfl, map_joined_map fun _ => rfl]
    exact (agrees_fromBytesContig _ h).map _
  split
  · rw [← len_eq_of_join_eq h.join]
    refine ((agrees_getContiguous h d.length_join.ge).bind fun bytes => ?_).map joined
    cases HolepunchMessage.deserialize bytes with
    | ok m => exact Agrees.ok _
    | error e => exact Agrees.err (by simp)
  · rw [map_joined_map fun _ => rfl, map_joined_map fun _ => rfl]
    exact (agrees_fromBytesContig _ h).map _

lemma agrees_deserialize (h : Recut d e) :
    Agrees d (joined <$> deserialize d) (joined <$> deserialize e) := by
  rw [deserialize, deserialize, readU8_eq, readU8_eq, h.join]
  cases e.join.head? with
  | none => exact Agrees.err (by simp)
  | some emsgId => exact (agrees_deserializePayload emsgId (h.advance 1)).of_advance

end ExtendedMessage

/-! ## Messages -/

section Messages

variable (msgLen : ℕ) (msgId : UInt8)

lemma agrees_readEmpty (m : Message) :
    Agrees d (readEmpty msgLen msgId m) (readEmpty msgLen msgId m) := by
  rw [readEmpty_eq]
  split
  · exact Agrees.ok m
  · exact Agrees.err (by simp)

variable {msgLen} (h : Recut d e) (hlen : msgLen ≤ d.join.length)

include h hlen

lemma agrees_readIndex (mk : UInt32 → Message) :
    Agrees d (readIndex msgLen msgId d mk) (readIndex msgLen msgId e mk) := by
  rw [readIndex_eq msgId hlen, readIndex_eq msgId (h.join ▸ hlen), h.join]
  split
  · exact Agrees.ok _
  · exact Agrees.err (by simp)

lemma agrees_readRequest (mk : Request → Message) :
    Agrees d (readRequest msgLen msgId d mk) (readRequest msgLen msgId e mk) := by
  rw [readRequest_eq msgId hlen, readRequest_eq msgId (h.join ▸ hlen), h.join]
  split
  · exact Agrees.ok _
  · exact Agrees.err (by simp)

lemma agrees_readPort : Agrees d (readPort msgLen msgId d) (readPort msgLen msgId e) := by
  rw [readPort_eq msgId hlen, readPort_eq msgId (h.join ▸ hlen), h.join]
  split
  · exact Agrees.ok _
  · exact Agrees.err (by simp)

lemma agrees_readBitfield :
    Agrees d (readBitfield msgLen msgId d) (readBitfield msgLen msgId e) := by
  rw [readBitfield, readBitfield, checkMsgLenMin]
  split
  · exact Agrees.err (by simp)
  · exact (agrees_getContiguous h hlen).bind fun bytes => Agrees.ok (Message.bitfield bytes)

/-- **A block is the same block in whatever slices it comes.** -/
theorem agrees_readPiece : Agrees d (Message.joined <$> readPiece msgLen msgId d)
      (Message.joined <$> readPiece msgLen msgId e) := by
  have hblock : (((d.advance 4).advance 4).asIoslices (msgLen - 8)).join =
      (((e.advance 4).advance 4).asIoslices (msgLen - 8)).join := by
    rw [join_asIoslices, join_asIoslices, ((h.advance 4).advance 4).join]
  rw [readPiece_eq msgId hlen, readPiece_eq msgId (h.join ▸ hlen), h.join]
  split
  · refine ⟨by simp, .inr ?_⟩
    exact congrArg (fun block => Outcome.ok (Message.piece ⟨_, _, block, []⟩)) hblock
  · exact Agrees.err (by simp)

lemma agrees_readMessage : Agrees d (Message.joined <$> readMessage msgLen msgId d)
      (Message.joined <$> readMessage msgLen msgId e) := by
  rw [readMessage, readMessage]
  cases MsgId.ofU8 msgId with
  | none => exact Agrees.err (by simp)
  | some id =>
    cases id with
    | choke | unchoke | interested | notInterested | haveAll | haveNone =>
      exact (agrees_readEmpty msgLen msgId _).map _
    | have_ | suggestPiece | allowedFast => exact (agrees_readIndex msgId h hlen _).map _
    | request | cancel | rejectRequest => exact (agrees_readRequest msgId h hlen _).map _
    | port => exact (agrees_readPort msgId h hlen).map _
    | bitfield => exact (agrees_readBitfield msgId h hlen).map _
    | piece => exact agrees_readPiece msgId h hlen
    | extended =>
      have hmap : ∀ x : Outcome MessageDeserializeError ExtendedMessage,
          Message.joined <$> Message.extended <$> x =
            Message.extended <$> ExtendedMessage.joined <$> x := by
        intro x
        rw [Functor.map_map, Functor.map_map]
        rfl
      rw [hmap, hmap]
      exact ((ExtendedMessage.agrees_deserialize (h.withMaxLen msgLen)).map _).of_withMaxLen

end Messages

namespace Message

/-- A message with all its contents in the first slice, and how many bytes it takes. -/
def joinedResult (r : Message × ℕ) : Message × ℕ := (r.1.joined, r.2)

lemma agrees_deserializeBuf (h : Recut d e) :
    Agrees d (joinedResult <$> deserializeBuf d) (joinedResult <$> deserializeBuf e) := by
  rw [deserializeBuf, deserializeBuf, readU32Be_eq, readU32Be_eq, h.join]
  by_cases hprefix : 4 ≤ e.join.length
  swap
  · rw [if_neg hprefix, if_neg hprefix]
    exact Agrees.err fun he => by cases he
  rw [if_pos hprefix, if_pos hprefix]
  dsimp only
  split
  · exact Agrees.ok _
  have h4 := h.advance 4
  rw [readU8_eq, readU8_eq, h4.join]
  cases (e.advance 4).join.head? with
  | none => exact Agrees.err (by simp)
  | some msgId =>
    have h5 := h4.advance 1
    simp only [Option.map_some, Outcome.okOr, Outcome.ok_bind]
    rw [len_eq_of_join_eq h5.join]
    split
    · exact Agrees.err (by simp)
    · rename_i hlen
      rw [← length_join, ← h5.join, Nat.not_lt] at hlen
      have hread := agrees_readMessage msgId h5 hlen
      have hmap : ∀ (n : ℕ) (x : Outcome MessageDeserializeError Message),
          joinedResult <$> (x >>= fun m => pure (m, n)) = (fun m => (m, n)) <$> joined <$> x := by
        intro n x
        cases x <;> rfl
      rw [hmap, hmap]
      exact (hread.map _).of_advance.of_advance

/-- **The decoder does not depend on where the string is cut.**  It fails for want of a contiguous
slice only if both slices are non-empty, and otherwise it makes the same of two slices as of their
string in one: the same message with the same contents and length, or the same error. -/
theorem deserialize_split (a b : ByteBuf) :
    (deserialize a b = .err .needContiguous → a ≠ [] ∧ b ≠ []) ∧
    (deserialize a b = .err .needContiguous ∨
      joinedResult <$> deserialize a b = joinedResult <$> deserialize (a ++ b) []) := by
  have hrecut : Recut ⟨a, b⟩ ⟨a ++ b, []⟩ := ⟨by simp, .inr rfl⟩
  have hagrees := agrees_deserializeBuf hrecut
  have hiff : joinedResult <$> deserialize a b = .err .needContiguous ↔
      deserialize a b = .err .needContiguous := by
    cases deserialize a b with
    | ok r => simp
    | err e => exact .rfl
    | abort f => simp
  rcases hagrees.same with ⟨hneed, hcut⟩ | hsame
  · refine ⟨fun _ => not_or.mp hcut, .inl (hiff.mp hneed)⟩
  · refine ⟨fun hneed => ?_, .inr hsame⟩
    exact absurd (hsame.symm.trans (hiff.mpr hneed)) hagrees.whole

end Message

end Librtbit.Wire
