import Librtbit.Wire.Split

/-!
# Wire/Frames — the frames of a stream

The first four bytes say how long a frame is (`frameLen`).  Before the whole frame is there, the
decoder says how many bytes are missing (`deserialize_of_short`, `deserialize_of_incomplete`); from
then on what it makes of it is settled (`deserialize_append`).  So a stream decodes into a sequence
of messages (`frames`), whatever its parts it arrives in.
-/

namespace Librtbit.Wire

open Machinery Bencode DoubleBuf Outcome List

/-! ## Errors -/

/-- The call is not aborted, and it does not say that bytes are missing when none are. -/
def Orderly {α : Type} (x : Outcome MessageDeserializeError α) : Prop :=
  x.Returns ∧ ∀ missing msgId, x = .err (.notEnoughData missing msgId) → 0 < missing

namespace Orderly

variable {α β : Type} {x : Outcome MessageDeserializeError α}

lemma ok (a : α) : Orderly (.ok a) := ⟨by simp, by simp⟩

variable {e : MessageDeserializeError}

variable (h : ∀ missing msgId, e = .notEnoughData missing msgId → 0 < missing)
include h

lemma err :
    Orderly (α := α) (.err e) :=
  ⟨by simp, fun missing msgId he => h missing msgId (err.inj he)⟩

lemma ite {c : Prop} [Decidable c] {a : α} :
    Orderly (if c then .ok a else .err e) := by
  split
  · exact Orderly.ok a
  · exact Orderly.err h

omit h

lemma bind {k : α → Outcome MessageDeserializeError β} (h : Orderly x)
    (hk : ∀ a, x = .ok a → Orderly (k a)) : Orderly (x >>= k) := by
  cases x with
  | ok a => exact hk a rfl
  | err e => exact Orderly.err fun missing msgId he => h.2 missing msgId (congrArg _ he)
  | abort f => exact absurd rfl (h.1 f)

lemma map (f : α → β) (h : Orderly x) : Orderly (f <$> x) := by
  exact h.bind fun a _ => Orderly.ok (f a)

lemma okOr (h : ∀ missing msgId, e = .notEnoughData missing msgId → 0 < missing) (o : Option α) :
    Orderly (okOr e o) := by
  cases o with
  | none => exact Orderly.err h
  | some a => exact Orderly.ok a

end Orderly

lemma UtMetadataData.orderly_validate (u : UtMetadataData) : Orderly u.validate := by
  have hpos : 0 < chunkSize := by decide
  rw [validate]
  split
  · exact Orderly.err (by simp)
  split
  · exact Orderly.err (by simp)
  rw [divCeil, if_neg hpos.ne', ok_bind]
  split
  · exact Orderly.err (by simp)
  · rename_i hpiece
    have hlt := (lt_ceilDiv_iff_mul_lt hpos).mp (Nat.not_le.mp hpiece)
    rw [checkedMul32, Nat.mul_comm, if_pos (Nat.lt_trans hlt u.totalSize.toNat_lt), ok_bind]
    dsimp only
    split
    · exact Orderly.err (by simp)
    · exact Orderly.ok ()

namespace UtMetadata

lemma orderly_ofParts (message : UtMetadataMsg) (buf : DoubleBuf) :
    Orderly (ofParts message buf) := by
  rw [ofParts]
  split
  · split
    · exact Orderly.ok _
    · exact Orderly.err (by simp)
  split
  · refine (Orderly.okOr (by simp) _).bind fun totalSize _ => ?_
    exact (UtMetadataData.orderly_validate _).bind fun _ _ => Orderly.ok _
  split
  · split
    · exact Orderly.ok _
    · exact Orderly.err (by simp)
  · exact Orderly.err (by simp)

lemma orderly_deserialize (buf : DoubleBuf) : Orderly (deserialize buf) := by
  rw [deserialize]
  dsimp only
  split
  · exact orderly_ofParts _ _
  · split
    · exact Orderly.err (by simp)
    · exact Orderly.err (by simp)

end UtMetadata

lemma orderly_fromBytesContig {T : Type} (de : De T) (buf : DoubleBuf) :
    Orderly (fromBytesContig de buf) := by
  refine (Orderly.okOr (by simp) _).bind fun bytes _ => ?_
  split
  · exact Orderly.ok _
  · exact Orderly.err (by simp)

lemma ExtendedMessage.orderly_deserialize (buf : DoubleBuf) : Orderly (deserialize buf) := by
  refine (Orderly.okOr (fun missing msgId h => by cases h; decide) _).bind fun r _ => ?_
  show Orderly (deserializePayload r.1 r.2)
  rw [deserializePayload]
  split
  · exact (orderly_fromBytesContig _ _).map _
  split
  · exact (UtMetadata.orderly_deserialize _).map _
  split
  · exact (orderly_fromBytesContig _ _).map _
  split
  · refine (Orderly.okOr (by simp) _).bind fun data _ => ?_
    split
    · exact Orderly.ok _
    · exact Orderly.err (by simp)
  · exact (orderly_fromBytesContig _ _).map _

lemma orderly_readMessage {msgLen} (msgId : UInt8) {buf}
    (hlen : msgLen ≤ buf.join.length) : Orderly (readMessage msgLen msgId buf) := by
  rw [readMessage]
  cases MsgId.ofU8 msgId with
  | none => exact Orderly.err (by simp)
  | some id =>
    cases id with
    | choke | unchoke | interested | notInterested | haveAll | haveNone =>
      dsimp only
      rw [readEmpty_eq]
      exact Orderly.ite (by simp)
    | have_ | suggestPiece | allowedFast =>
      dsimp only
      rw [readIndex_eq msgId hlen]
      exact Orderly.ite (by simp)
    | request | cancel | rejectRequest =>
      dsimp only
      rw [readRequest_eq msgId hlen]
      exact Orderly.ite (by simp)
    | port =>
      rw [readPort_eq msgId hlen]
      exact Orderly.ite (by simp)
    | bitfield =>
      dsimp only
      rw [readBitfield, checkMsgLenMin]
      split
      · exact Orderly.err (by simp)
      · exact (Orderly.okOr (by simp) _).bind fun _ _ => Orderly.ok _
    | piece =>
      rw [readPiece_eq msgId hlen]
      exact Orderly.ite (by simp)
    | extended => exact (ExtendedMessage.orderly_deserialize _).map _

/-- **Decoding is never aborted**, whatever the bytes are, and never asks for no bytes. -/
theorem Message.orderly_deserializeBuf (buf : DoubleBuf) : Orderly (deserializeBuf buf) := by
  rw [deserializeBuf, readU32Be_eq]
  by_cases h4 : 4 ≤ buf.join.length
  swap
  · rw [if_neg h4]
    exact Orderly.err fun missing msgId h => by
      cases h
      omega
  rw [if_pos h4]
  dsimp only
  split
  · exact Orderly.ok _
  · rename_i hzero
    refine (Orderly.okOr (fun missing msgId h => ?_) _).bind fun r _ => ?_
    · cases h
      exact Nat.pos_of_ne_zero fun h => hzero (UInt32.toNat_inj.mp h)
    split
    · exact Orderly.err fun missing msgId h => by
        cases h
        omega
    · rename_i hlen
      rw [Nat.not_lt, ← length_join] at hlen
      exact (orderly_readMessage _ hlen).bind fun _ _ => Orderly.ok _

/-! ## What follows a frame -/

/-- **What follows a message is not looked at.** -/
theorem readMessage_append {msgLen} (msgId : UInt8) {w} (hlen : msgLen ≤ w.length)
    (t : ByteBuf) : readMessage msgLen msgId ⟨w ++ t, []⟩ = readMessage msgLen msgId ⟨w, []⟩ := by
  have hjoin : (⟨w, []⟩ : DoubleBuf).join = w := by rw [join_mk, append_nil]
  have hjoin' : (⟨w ++ t, []⟩ : DoubleBuf).join = w ++ t := by rw [join_mk, append_nil]
  have hle : msgLen ≤ (⟨w, []⟩ : DoubleBuf).join.length := hjoin.symm ▸ hlen
  have hle' : msgLen ≤ (⟨w ++ t, []⟩ : DoubleBuf).join.length := by
    rw [hjoin', length_append]
    omega
  rw [readMessage, readMessage]
  cases MsgId.ofU8 msgId with
  | none => rfl
  | some id =>
    cases id with
    | choke | unchoke | interested | notInterested | haveAll | haveNone => rfl
    | have_ | suggestPiece | allowedFast =>
      dsimp only
      rw [readIndex_eq msgId hle, readIndex_eq msgId hle', hjoin, hjoin']
      split
      · rw [take_append_of_le_length (by omega)]
      · rfl
    | request | cancel | rejectRequest =>
      dsimp only
      rw [readRequest_eq msgId hle, readRequest_eq msgId hle', hjoin, hjoin']
      split
      · rw [take_append_of_le_length (by omega)]
      · rfl
    | port =>
      dsimp only
      rw [readPort_eq msgId hle, readPort_eq msgId hle', hjoin, hjoin']
      split
      · rw [take_append_of_le_length (by omega)]
      · rfl
    | bitfield =>
      have hcontig : (⟨w ++ t, []⟩ : DoubleBuf).getContiguous msgLen =
          (⟨w, []⟩ : DoubleBuf).getContiguous msgLen := by
        rw [DoubleBuf.Whole.getContiguous_eq (Or.inr rfl) hle,
          DoubleBuf.Whole.getContiguous_eq (Or.inr rfl) hle', hjoin, hjoin',
          take_append_of_le_length hlen]
      rw [readBitfield, readBitfield, hcontig]
    | piece =>
      dsimp only
      rw [readPiece_eq msgId hle, readPiece_eq msgId hle', hjoin, hjoin']
      split
      · rename_i h9
        rw [take_append_of_le_length (by omega), drop_append_of_le_length (by omega),
          take_append_of_le_length (by rw [length_drop]; omega),
          advance_mk_nil, advance_mk_nil, advance_mk_nil,
          advance_mk_nil, asIoslices_mk_nil, asIoslices_mk_nil,
          drop_append_of_le_length (by omega),
          drop_append_of_le_length (by rw [length_drop]; omega),
          take_append_of_le_length (by rw [length_drop, length_drop]; omega)]
      · rfl
    | extended =>
      rw [withMaxLen, withMaxLen, asIoslices_mk_nil,
        asIoslices_mk_nil, take_append_of_le_length hlen]

namespace Message

/-- The length of the frame at the start of a string of at least four bytes. -/
def frameLen (s : ByteBuf) : ℕ := beNat (s.take 4) + 4

lemma frameLen_append {s} (h : 4 ≤ s.length) (t : ByteBuf) :
    frameLen (s ++ t) = frameLen s := by
  rw [frameLen, frameLen, take_append_of_le_length h]

variable {s : ByteBuf}

lemma deserialize_of_short (h : s.length < 4) :
    deserialize s [] = .err (.notEnoughData (4 - s.length) none) := by
  rw [deserialize, deserializeBuf, readU32Be_eq, join_mk, append_nil, if_neg (Nat.not_le.mpr h)]

variable (h : 4 ≤ s.length)
include h

/-- The decoder, behind the length. -/
lemma deserialize_of_le : deserialize s [] =
      if frameLen s = 4 then .ok (keepAlive, 4)
      else (okOr (.notEnoughData (frameLen s - 4) none) s[4]? >>= fun msgId =>
        if s.length < frameLen s then .err (.notEnoughData (frameLen s - s.length) (some msgId))
        else readMessage (frameLen s - 5) msgId ⟨s.drop 5, []⟩ >>= fun m =>
          .ok (m, frameLen s)) := by
  have hlt : beNat (s.take 4) < 2 ^ 32 := by
    have := beNat_lt (s.take 4)
    rw [length_take, Nat.min_eq_left h] at this
    exact this
  have hword := UInt32.toNat_ofNat_of_lt' hlt
  have hzero : UInt32.ofNat (beNat (s.take 4)) = 0 ↔ frameLen s = 4 := by
    rw [← UInt32.toNat_inj, hword, frameLen]
    exact ⟨fun h => by rw [h]; rfl, fun h => Nat.add_right_cancel (h.trans (Nat.zero_add 4).symm)⟩
  rw [deserialize, deserializeBuf, readU32Be_eq, join_mk, append_nil, if_pos h]
  dsimp only
  by_cases hkeep : frameLen s = 4
  · rw [if_pos hkeep, hzero.mpr hkeep]
    rfl
  rw [if_neg hkeep, if_neg (mt hzero.mp hkeep), hword, advance_mk_nil,
    readU8_eq, join_mk, append_nil, head?_drop]
  have hframe : beNat (s.take 4) = frameLen s - 4 := (Nat.add_sub_cancel _ 4).symm
  rw [hframe]
  cases hid : s[4]? with
  | none => rfl
  | some msgId =>
    have h5 : 4 < s.length := (List.getElem?_eq_some_iff.mp hid).1
    have hle : 4 ≤ frameLen s := Nat.le_add_left 4 _
    simp only [Option.map_some, okOr, ok_bind]
    rw [advance_mk_nil, drop_drop, len, length_drop,
      length_nil, Nat.add_zero, Nat.sub_sub, Nat.sub_add_cancel hle]
    by_cases hshort : s.length < frameLen s
    · rw [if_pos hshort, if_pos (by omega)]
      congr 2
      omega
    · rw [if_neg hshort, if_neg (by omega)]
      rfl

/-- **An incomplete frame is missing what it is short of.** -/
theorem deserialize_of_incomplete (hlt : s.length < frameLen s) :
    ∃ msgId, deserialize s [] = .err (.notEnoughData (frameLen s - s.length) msgId) := by
  rw [deserialize_of_le h, if_neg (by omega)]
  cases hid : s[4]? with
  | none =>
    have h5 := List.getElem?_eq_none_iff.mp hid
    exact ⟨none, by rw [Nat.le_antisymm h5 h]; rfl⟩
  | some msgId => exact ⟨some msgId, if_pos hlt⟩

/-- **What is made of a frame is settled once it is complete.** -/
theorem deserialize_append (hle : frameLen s ≤ s.length) (t : ByteBuf) :
    deserialize (s ++ t) [] = deserialize s [] := by
  have hlen : (s ++ t).length = s.length + t.length := length_append
  rw [deserialize_of_le h, deserialize_of_le (by omega), frameLen_append h]
  split
  · rfl
  · rename_i hkeep
    have hge : 4 ≤ frameLen s := Nat.le_add_left 4 _
    have h5 : 5 ≤ s.length := by omega
    have hdrop : (s ++ t).drop 5 = s.drop 5 ++ t := drop_append_of_le_length h5
    rw [getElem?_append_left h5, hdrop]
    cases s[4]? with
    | none => rfl
    | some msgId =>
      simp only [okOr, ok_bind]
      rw [if_neg (by omega), if_neg (by omega),
        readMessage_append msgId (by rw [length_drop]; omega)]

omit h

lemma eq_frameLen_of_deserialize {m n} (h : deserialize s [] = .ok (m, n)) :
    4 ≤ s.length ∧ n = frameLen s ∧ frameLen s ≤ s.length := by
  rcases Nat.lt_or_ge s.length 4 with hshort | h4
  · rw [deserialize_of_short hshort] at h
    cases h
  rw [deserialize_of_le h4] at h
  split at h
  · rename_i hkeep
    cases h
    exact ⟨h4, hkeep.symm, hkeep.trans_le h4⟩
  obtain ⟨msgId, -, h⟩ := bind_eq_ok.mp h
  split at h
  · cases h
  · rename_i hle
    obtain ⟨m', -, h⟩ := bind_eq_ok.mp h
    cases h
    exact ⟨h4, rfl, Nat.not_lt.mp hle⟩

/-- How many bytes it takes until it is settled what is made of them: the length, then the frame. -/
def needed (s : ByteBuf) : ℕ := if s.length < 4 then 4 else frameLen s

lemma deserialize_of_lt_needed (h : s.length < needed s) :
    ∃ msgId, deserialize s [] = .err (.notEnoughData (needed s - s.length) msgId) := by
  rw [needed] at h ⊢
  split at h
  · rename_i h4
    rw [if_pos h4]
    exact ⟨none, deserialize_of_short h4⟩
  · rename_i h4
    rw [if_neg h4]
    exact deserialize_of_incomplete (Nat.not_lt.mp h4) h

lemma deserialize_append_of_needed (h : needed s ≤ s.length) (t : ByteBuf) :
    deserialize (s ++ t) [] = deserialize s [] := by
  rw [needed] at h
  split at h
  · omega
  · exact deserialize_append (by omega) h t

/-! ## Streams -/

/-- The messages of a stream and the lengths of their frames, up to the first frame that is not
complete or not a message. -/
def frames (s : ByteBuf) : List (Message × ℕ) :=
  match _h : deserialize s [] with
  | .ok (m, n) => (m, n) :: frames (s.drop n)
  | _ => []
termination_by s.length
decreasing_by
  obtain ⟨h4, rfl, -⟩ := eq_frameLen_of_deserialize _h
  rw [length_drop]
  exact Nat.sub_lt (Nat.lt_of_lt_of_le (Nat.succ_pos 3) h4) (Nat.succ_pos _)

lemma frames_of_ok {m n} (h : deserialize s [] = .ok (m, n)) :
    frames s = (m, n) :: frames (s.drop n) := by
  rw [frames]
  split
  · rename_i heq
    rw [h] at heq
    cases heq
    rfl
  · rename_i hne
    exact absurd h (hne m n)

lemma frames_eq_nil (h : ∀ m n, deserialize s [] ≠ .ok (m, n)) : frames s = [] := by
  rw [frames]
  split
  · rename_i m n heq
    exact absurd heq (h m n)
  · rfl

end Message

end Librtbit.Wire
