import Librtbit.Wire.Split

/-!
# Wire/RoundTrip — messages there and back

A message that is written and then read is the same message (`Message.Same`): the same contents,
though a block comes back in one slice and a dictionary in order.  Not every message that can be
written can be read: a reader accepts a piece of metadata only if it has the length of that piece,
and an address is read without flow information and an error code only in an error message
(`Message.Acceptable`).  What a reader accepts is always of this form
(`Message.acceptable_of_deserialize`), so the messages that come back are exactly these, as long as
their length fits into the four bytes there are for it.
-/

namespace Librtbit.Wire

open Machinery Bencode DoubleBuf Wire.ExtendedMessage List

/-! ## The same message -/

/-- The same contents. -/
def ExtendedMessage.Same : ExtendedMessage → ExtendedMessage → Prop
  | dyn msgId v, dyn msgId' v' => msgId = msgId' ∧ v.eq v' = true
  | e, e' => e.joined = e'.joined

/-- The same contents. -/
def Message.Same : Message → Message → Prop
  | extended e, extended e' => e.Same e'
  | m, m' => m.joined = m'.joined

/-- What a sender keeps to: there are no empty bitfields and blocks, and an id that stands for an
extension is not used for anything else. -/
def Message.Sendable : Message → Prop
  | bitfield b => 0 < b.length
  | piece p => 0 < p.len
  | extended (.dyn msgId v) => msgId ∉ [0, 3, 1, 4] ∧ v.Valid
  | _ => True

/-- What a reader accepts. -/
def ExtendedMessage.Acceptable : ExtendedMessage → Prop
  | utMetadata (.data d) => d.IsPiece
  | utHolepunch m => m.addr.Plain ∧ (m.errorCode.isSome = true ↔ m.msgType = .error)
  | _ => True

/-- What a reader accepts. -/
def Message.Acceptable : Message → Prop
  | extended e => e.Acceptable
  | _ => True

/-- The `n` bytes `w` are read back as the message, whatever follows them, and begin with the length
of what follows the first four. -/
def Message.RoundTrips (m : Message) (n : ℕ) (w : ByteBuf) : Prop :=
  w.length = n ∧ beNat (w.take 4) = n - 4 ∧
    ∀ t, ∃ m', deserialize (w ++ t) [] = .ok (m', n) ∧ m'.Same m

/-! ## What is accepted -/

namespace HolepunchMessage

lemma isSome_of_readErrorCode {t rest code} (h : readErrorCode t rest = .ok code) :
    code.isSome = true ↔ t = .error := by
  rw [readErrorCode] at h
  split at h
  · rename_i ht
    split at h
    · cases h
    · dsimp only at h
      split at h <;> cases h
      simp [ht]
  · rename_i ht
    cases h
    simp [ht]

lemma acceptable_of_deserialize {data m}
    (h : deserialize data = .ok m) : (utHolepunch m).Acceptable := by
  match data with
  | [] | [_] => cases h
  | msgType :: addrType :: data =>
    rw [deserialize] at h
    cases htype : HolepunchMsgType.fromU8 msgType with
    | none =>
      rw [htype] at h
      cases h
    | some t =>
      rw [htype] at h
      cases hip : readIp addrType data with
      | error e =>
        rw [hip] at h
        cases h
      | ok r =>
        rw [hip] at h
        replace h : (if r.2.length < 2 then .error _ else
          readErrorCode t (r.2.drop 2) >>= fun errorCode =>
            .ok ⟨t, .new r.1 (portOfBytes (r.2.take 2)), errorCode⟩) = Except.ok m := h
        split at h
        · cases h
        cases hcode : readErrorCode t (r.2.drop 2) with
        | error e =>
          rw [hcode] at h
          cases h
        | ok code =>
          rw [hcode] at h
          cases h
          exact ⟨Net.SocketAddr.plain_new _ _, isSome_of_readErrorCode hcode⟩

end HolepunchMessage

namespace UtMetadata

lemma acceptable_of_ofParts {message buf m}
    (h : ofParts message buf = .ok m) : (utMetadata m).Acceptable := by
  rw [ofParts] at h
  split at h
  · split at h <;> cases h
    trivial
  split at h
  · obtain ⟨totalSize, -, h⟩ := Outcome.bind_eq_ok.mp h
    obtain ⟨_, hvalid, h⟩ := Outcome.bind_eq_ok.mp h
    cases h
    exact (UtMetadataData.validate_eq_ok_iff _).mp hvalid
  split at h
  · split at h <;> cases h
    trivial
  · cases h

lemma acceptable_of_deserialize {buf m}
    (h : deserialize buf = .ok m) : (utMetadata m).Acceptable := by
  rw [deserialize] at h
  dsimp only at h
  split at h
  · exact acceptable_of_ofParts h
  · split at h <;> cases h

end UtMetadata

lemma ExtendedMessage.acceptable_of_deserialize {buf e}
    (h : deserialize buf = .ok e) : e.Acceptable := by
  obtain ⟨⟨emsgId, buf⟩, -, h⟩ := Outcome.bind_eq_ok.mp h
  replace h : deserializePayload emsgId buf = .ok e := h
  rw [deserializePayload] at h
  split at h
  · obtain ⟨v, -, h⟩ := Outcome.bind_eq_ok.mp h
    cases h
    trivial
  split at h
  · obtain ⟨v, hv, h⟩ := Outcome.bind_eq_ok.mp h
    cases h
    exact UtMetadata.acceptable_of_deserialize hv
  split at h
  · obtain ⟨v, -, h⟩ := Outcome.bind_eq_ok.mp h
    cases h
    trivial
  split at h
  · obtain ⟨data, -, h⟩ := Outcome.bind_eq_ok.mp h
    cases hm : HolepunchMessage.deserialize data with
    | ok m =>
      rw [hm] at h
      cases h
      exact HolepunchMessage.acceptable_of_deserialize hm
    | error e =>
      rw [hm] at h
      cases h
  · obtain ⟨v, -, h⟩ := Outcome.bind_eq_ok.mp h
    cases h
    trivial

variable {m : Message}

lemma acceptable_of_readMessage {msgLen msgId buf}
    (h : readMessage msgLen msgId buf = .ok m) : m.Acceptable := by
  rw [readMessage] at h
  cases hid : MsgId.ofU8 msgId with
  | none =>
    rw [hid] at h
    cases h
  | some id =>
    rw [hid] at h
    cases id with
    | choke | unchoke | interested | notInterested | haveAll | haveNone =>
      obtain ⟨_, -, h⟩ := Outcome.bind_eq_ok.mp h
      cases h
      trivial
    | have_ | suggestPiece | allowedFast | request | cancel | rejectRequest | port | bitfield =>
      obtain ⟨_, -, h⟩ := Outcome.bind_eq_ok.mp h
      obtain ⟨_, -, h⟩ := Outcome.bind_eq_ok.mp h
      cases h
      trivial
    | piece =>
      obtain ⟨_, -, h⟩ := Outcome.bind_eq_ok.mp h
      obtain ⟨_, -, h⟩ := Outcome.bind_eq_ok.mp h
      obtain ⟨_, -, h⟩ := Outcome.bind_eq_ok.mp h
      obtain ⟨_, -, h⟩ := Outcome.bind_eq_ok.mp h
      cases h
      trivial
    | extended =>
      obtain ⟨e, he, h⟩ := Outcome.bind_eq_ok.mp h
      cases h
      exact acceptable_of_deserialize he

variable {n : ℕ}

/-- **What a reader accepts is acceptable.** -/
theorem Message.acceptable_of_deserialize {a b}
    (h : deserialize a b = .ok (m, n)) : m.Acceptable := by
  rw [deserialize, deserializeBuf] at h
  split at h
  · cases h
  split at h
  · cases h
    trivial
  obtain ⟨r, -, h⟩ := Outcome.bind_eq_ok.mp h
  dsimp only at h
  split at h
  · cases h
  obtain ⟨m', hm, h⟩ := Outcome.bind_eq_ok.mp h
  cases h
  exact acceptable_of_readMessage hm

lemma ExtendedMessage.acceptable_joined (e : ExtendedMessage) :
    e.joined.Acceptable ↔ e.Acceptable := by
  cases e with
  | utMetadata m =>
    cases m with
    | data d =>
      show d.joined.IsPiece ↔ d.IsPiece
      rw [UtMetadataData.IsPiece, d.len_joined]
      exact Iff.rfl
    | request | reject => exact Iff.rfl
  | handshake | utPex | utHolepunch | dyn => exact Iff.rfl

lemma ExtendedMessage.Same.acceptable {e e' : ExtendedMessage} (h : e.Same e')
    (he : e.Acceptable) : e'.Acceptable := by
  cases e' with
  | dyn => trivial
  | handshake | utMetadata | utPex | utHolepunch =>
    rw [← acceptable_joined] at he ⊢
    cases e <;> exact h ▸ he

lemma Message.Same.acceptable {m m' : Message} (h : m.Same m') (hm : m.Acceptable) :
    m'.Acceptable := by
  cases m' with
  | extended e' =>
    cases m with
    | extended e => exact ExtendedMessage.Same.acceptable h hm
    | _ => cases h
  | _ => trivial

/-- **A message that comes back is acceptable, and its length fits into four bytes.** -/
theorem Message.RoundTrips.acceptable {w}
    (h : m.RoundTrips n w) : m.Acceptable ∧ n - 4 < 2 ^ 32 := by
  obtain ⟨-, hprefix, hread⟩ := h
  obtain ⟨m', hm', hsame⟩ := hread []
  refine ⟨hsame.acceptable (acceptable_of_deserialize hm'), ?_⟩
  rw [← hprefix]
  have hlt := beNat_lt (w.take 4)
  have hpow : 256 ^ (w.take 4).length ≤ 256 ^ 4 :=
    Nat.pow_le_pow_right (by decide) (by rw [length_take]; omega)
  exact Nat.lt_of_lt_of_le hlt hpow

/-! ## Reading back what was written -/

lemma readWord_beBytes (v : UInt32) (rest : ByteBuf) :
    UInt32.ofNat (beNat ((beBytes 4 v.toNat ++ rest).take 4)) = v := by
  rw [take_left' (length_beBytes _ _), beNat_beBytes_of_lt v.toNat_lt, UInt32.ofNat_toNat]

namespace HolepunchMessage

lemma readIp_ipBytes (ip : Net.IpAddr) {rest} (hrest : 2 ≤ rest.length) :
    ∃ addrType data, ipBytes ip ++ rest = addrType :: data ∧
      readIp addrType data = .ok (ip, rest) := by
  cases ip with
  | v4 ip =>
    have hlen := ip.octets.property
    refine ⟨0, ip.octets.val ++ rest, rfl, ?_⟩
    rw [readIp, if_pos rfl, dif_neg (by rw [length_append]; omega)]
    simp only [take_left' hlen, drop_left' hlen]
  | v6 ip =>
    have hlen := ip.octets.property
    refine ⟨1, ip.octets.val ++ rest, rfl, ?_⟩
    rw [readIp, if_neg (by decide), if_pos rfl, dif_neg (by rw [length_append]; omega)]
    simp only [take_left' hlen, drop_left' hlen]

lemma readErrorCode_errorCodeBytes {t code} (h : code.isSome = true ↔ t = .error) :
    readErrorCode t (errorCodeBytes code) = .ok code := by
  rw [readErrorCode]
  cases code with
  | none => rw [if_neg fun ht => by simpa using h.mpr ht]
  | some err =>
    have hword := readWord_beBytes err.toU32 []
    rw [append_nil] at hword
    rw [if_pos (h.mp rfl), errorCodeBytes, if_neg (by rw [length_beBytes]; decide)]
    dsimp only
    rw [hword, HolepunchErrorCode.fromU32_toU32]

/-- **An acceptable holepunch message is read back.** -/
theorem deserialize_serialize {m}
    (h : (utHolepunch m).Acceptable) : deserialize m.serialize = .ok m := by
  obtain ⟨hplain, hcode⟩ := h
  have hrest : 2 ≤ (portBytes m.addr.port ++ errorCodeBytes m.errorCode).length := by
    rw [length_append, length_portBytes]
    omega
  obtain ⟨addrType, data, hdata, hip⟩ := readIp_ipBytes m.addr.ip hrest
  have hport : (portBytes m.addr.port ++ errorCodeBytes m.errorCode).take 2 =
      portBytes m.addr.port := take_left' (length_portBytes _)
  have hcodeBytes : (portBytes m.addr.port ++ errorCodeBytes m.errorCode).drop 2 =
      errorCodeBytes m.errorCode := drop_left' (length_portBytes _)
  rw [serialize, hdata, deserialize, HolepunchMsgType.fromU8_toU8]
  rw [hip]
  simp only [bind, Except.bind]
  rw [if_neg (Nat.not_lt.mpr hrest), hport, hcodeBytes, readErrorCode_errorCodeBytes hcode,
    portOfBytes_portBytes, (Net.SocketAddr.new_eq_self_iff _).mpr hplain]
  rfl

end HolepunchMessage

variable (p : Piece)

lemma Piece.joined_joined : p.joined.joined = p.joined :=
  congrArg (Piece.mk p.index p.begin · []) (append_nil _)

namespace UtMetadata

lemma joined_joined (m : UtMetadata) : m.joined.joined = m.joined := by
  cases m with
  | request | reject => rfl
  | data d => exact congrArg (fun b => data ⟨d.piece, d.totalSize, b, []⟩) (append_nil _)

/-- A number below `10 ^ k` takes at most `k + 2` bytes. -/
lemma length_serializeU32_le {v k} (hk : 0 < k) (h : v.toNat < 10 ^ k) :
    (serializeU32 v).length ≤ k + 2 := by
  have hdigits := length_decimal_le hk h
  rw [serializeU32, writeNumber_natCast, length_cons, length_append, length_singleton]
  omega

lemma length_serialize_msg (m : UtMetadataMsg) :
    m.serialize.length = (serializeU32 m.msgType).length + (serializeU32 m.piece).length + 19 +
      (m.totalSize.elim 0 fun v => (serializeU32 v).length + 13) := by
  have hkeys := UtMetadataMsg.sound_schema.nodup_presentFields m.fields
  have hmsgType : (writeBytes (ascii "msg_type")).length = 10 := by decide
  have hpiece : (writeBytes (ascii "piece")).length = 7 := by decide
  have htotal : (writeBytes (ascii "total_size")).length = 13 := by decide
  rw [UtMetadataMsg.serialize, Schema.serialize, serializeStruct, length_serializeMap hkeys]
  obtain ⟨msgType, piece, totalSize⟩ := m
  cases totalSize with
  | none =>
    show ([(ascii "msg_type", serializeU32 msgType), (ascii "piece", serializeU32 piece)].map
      fun e => (writeEntry e).length).sum + 2 = _
    simp only [map_cons, map_nil, sum_cons, sum_nil, writeEntry,
      length_append, hmsgType, hpiece, Option.elim_none]
    omega
  | some totalSize =>
    show ([(ascii "msg_type", serializeU32 msgType), (ascii "piece", serializeU32 piece),
      (ascii "total_size", serializeU32 totalSize)].map fun e => (writeEntry e).length).sum + 2 = _
    simp only [map_cons, map_nil, sum_cons, sum_nil, writeEntry,
      length_append, hmsgType, hpiece, htotal, Option.elim_some]
    omega

/-- **The header of an acceptable message is no longer than the part that is searched for it.** -/
theorem length_header_le {m} (h : (utMetadata m).Acceptable) :
    m.parts.1.serialize.length ≤ maxBmsgSize := by
  have hmax : maxBmsgSize = 55 := by decide
  have hdigits : ∀ v, (serializeU32 v).length ≤ 12 := fun v =>
    length_serializeU32_le (by decide) (Nat.lt_trans v.toNat_lt (by decide))
  have htype : ∀ v, v.toNat < 10 → (serializeU32 v).length ≤ 3 := fun v hv =>
    length_serializeU32_le (by decide) hv
  rw [length_serialize_msg, hmax]
  cases m with
  | request piece =>
    have htype := htype 0 (by decide)
    have hpiece := hdigits piece
    show (serializeU32 0).length + (serializeU32 piece).length + 19 + 0 ≤ 55
    omega
  | reject piece =>
    have htype := htype 2 (by decide)
    have hpiece := hdigits piece
    show (serializeU32 2).length + (serializeU32 piece).length + 19 + 0 ≤ 55
    omega
  | data d =>
    -- the number of a piece of a string of at most `2 ^ 32` bytes has six digits
    have hlt : d.piece.toNat < 10 ^ 6 := by
      have hpiece : chunkSize * d.piece.toNat < d.totalSize.toNat := h.1
      have htotal := d.totalSize.toNat_lt
      rw [chunkSize] at hpiece
      omega
    have htype := htype 1 (by decide)
    have hpiece := length_serializeU32_le (by decide) hlt
    have htotal := hdigits d.totalSize
    show (serializeU32 1).length + (serializeU32 d.piece).length + 19 +
      ((serializeU32 d.totalSize).length + 13) ≤ 55
    omega

/-- **A header is read back if it lies in the part that is searched for it.** -/
theorem deserialize_header {m} (hlen : m.serialize.length ≤ maxBmsgSize) (data : ByteBuf) :
    deserialize ⟨m.serialize ++ data, []⟩ = ofParts m ⟨data, []⟩ := by
  have hlenBuf : (⟨m.serialize ++ data, []⟩ : DoubleBuf).len =
      m.serialize.length + data.length := by
    rw [len, length_append, length_nil, Nat.add_zero]
  have hle : m.serialize.length ≤ min maxBmsgSize (m.serialize.length + data.length) := by omega
  have hcontig : (⟨m.serialize ++ data, []⟩ : DoubleBuf).getContiguous
      (min maxBmsgSize (⟨m.serialize ++ data, []⟩ : DoubleBuf).len) =
        some (m.serialize ++ data.take
          (min maxBmsgSize (m.serialize.length + data.length) - m.serialize.length)) := by
    rw [hlenBuf, getContiguous, if_pos (by rw [length_append]; omega),
      take_append, take_of_length_le hle]
  obtain ⟨de, hrun, hrest⟩ := UtMetadataMsg.reads_deserialize m (.newFromBuf m.serialize) []
    (append_nil _).symm
  have hempty : de.buf = [] := hrest
  rw [deserialize_of_getContiguous hcontig, ofParts_of_firstSlice _ _ hrun, hempty]
  rw [advance_mk_nil, length_nil, Nat.sub_zero, drop_left]

/-- **An acceptable metadata message is read back**, with its data in one slice. -/
theorem deserialize_parts {m} (h : (utMetadata m).Acceptable) :
    deserialize ⟨m.parts.1.serialize ++ (m.parts.2.1 ++ m.parts.2.2), []⟩ = .ok m.joined := by
  rw [deserialize_header (length_header_le h)]
  cases m with
  | request piece | reject piece => rfl
  | data d =>
    have hvalid : d.joined.validate = .ok () := by
      rw [d.validate_joined]
      exact d.validate_eq_ok_iff.mpr h
    show (d.joined.validate >>= fun _ => pure (data d.joined)) = _
    rw [hvalid]
    rfl

end UtMetadata

/-! ## Extended messages -/

lemma writeAll_eq_ok {cap err bytes written out}
    (h : writeAll cap err bytes written = .ok out) : out = written ++ bytes := by
  rw [writeAll] at h
  split at h
  · exact (Outcome.ok.inj h).symm
  · cases h

namespace ExtendedMessage

/-- The id of an extension, as we announce it, and the payload. -/
def payload : ExtendedMessage → UInt8 × ByteBuf
  | handshake h => (0, h.serialize)
  | utMetadata m => (3, m.parts.1.serialize ++ (m.parts.2.1 ++ m.parts.2.2))
  | utPex m => (1, m.serialize)
  | utHolepunch m => (4, m.serialize)
  | dyn msgId v => (msgId, v.serialize)

variable {e : ExtendedMessage}

/-- **What is written under our own ids.** -/
theorem eq_payload_of_serialize {cap out}
    (h : e.serialize cap .my = .ok out) : out = e.payload.1 :: e.payload.2 := by
  cases e with
  | handshake | dyn =>
    obtain ⟨out₁, h₁, h⟩ := Outcome.bind_eq_ok.mp h
    rw [writeAll_eq_ok h, writeAll_eq_ok h₁]
    rfl
  | utPex | utHolepunch =>
    obtain ⟨_, hid, h⟩ := Outcome.bind_eq_ok.mp h
    cases hid
    obtain ⟨out₁, h₁, h⟩ := Outcome.bind_eq_ok.mp h
    rw [writeAll_eq_ok h, writeAll_eq_ok h₁]
    rfl
  | utMetadata m =>
    obtain ⟨_, hid, h⟩ := Outcome.bind_eq_ok.mp h
    cases hid
    obtain ⟨out₁, h₁, h⟩ := Outcome.bind_eq_ok.mp h
    obtain ⟨out₂, h₂, h⟩ := Outcome.bind_eq_ok.mp h
    obtain ⟨out₃, h₃, h⟩ := Outcome.bind_eq_ok.mp h
    rw [writeAll_eq_ok h, writeAll_eq_ok h₃, writeAll_eq_ok h₂, writeAll_eq_ok h₁,
      append_assoc, append_assoc]
    rfl

lemma fromBytesContig_of_reads {T : Type} {de w} {v : T} (h : Reads de w v) :
    fromBytesContig de ⟨w, []⟩ = .ok v := by
  rw [fromBytesContig, getContiguous_len]
  simp only [Outcome.okOr, Outcome.ok_bind]
  rw [fromBytes_of_reads h]

/-- **An acceptable extended message is read back.** -/
theorem deserialize_payload (hsend : (Message.extended e).Sendable)
    (hacc : e.Acceptable) (hlen : e.payload.2.length < 2 ^ 64) :
    ∃ e', deserialize ⟨e.payload.1 :: e.payload.2, []⟩ = .ok e' ∧ e'.Same e := by
  cases e with
  | handshake h =>
    refine ⟨handshake h, ?_, rfl⟩
    show handshake <$> fromBytesContig ExtendedHandshake.deserialize ⟨h.serialize, []⟩ = _
    rw [fromBytesContig_of_reads (ExtendedHandshake.reads_deserialize hlen), Outcome.map_ok]
  | utMetadata m =>
    refine ⟨utMetadata m.joined, ?_, congrArg utMetadata m.joined_joined⟩
    show utMetadata <$> UtMetadata.deserialize
      ⟨m.parts.1.serialize ++ (m.parts.2.1 ++ m.parts.2.2), []⟩ = _
    rw [UtMetadata.deserialize_parts hacc, Outcome.map_ok]
  | utPex m =>
    refine ⟨utPex m, ?_, rfl⟩
    show utPex <$> fromBytesContig UtPex.deserialize ⟨m.serialize, []⟩ = _
    rw [fromBytesContig_of_reads (UtPex.reads_deserialize hlen), Outcome.map_ok]
  | utHolepunch m =>
    refine ⟨utHolepunch m, ?_, rfl⟩
    show deserializePayload 4 ⟨m.serialize, []⟩ = _
    rw [deserializePayload, if_neg (by decide), if_neg (by decide), if_neg (by decide), if_pos rfl,
      getContiguous_len]
    simp only [Outcome.okOr, Outcome.ok_bind]
    rw [HolepunchMessage.deserialize_serialize hacc]
  | dyn msgId v =>
    obtain ⟨hid, hvalid⟩ := hsend
    simp only [mem_cons, not_mem_nil, or_false, not_or] at hid
    refine ⟨dyn msgId v.sorted, ?_, rfl, BencodeTree.eq_sorted hvalid⟩
    show deserializePayload msgId ⟨v.serialize, []⟩ = _
    rw [deserializePayload, if_neg hid.1, if_neg hid.2.1, if_neg hid.2.2.1, if_neg hid.2.2.2,
      fromBytesContig_of_reads (BencodeTree.reads_deserialize hvalid), Outcome.map_ok]

end ExtendedMessage

/-! ## Frames -/

/-- The bytes of a message: the length of what follows, the id and the payload. -/
def frame (msgId : MsgId) (payload : ByteBuf) : ByteBuf :=
  beBytes 4 (payload.length + 1) ++ msgId.toU8 :: payload

lemma length_frame (msgId : MsgId) (payload : ByteBuf) :
    (frame msgId payload).length = preambleLen + payload.length := by
  rw [frame, length_append, length_beBytes, length_cons, preambleLen, integerLen]
  omega

variable {msgId : MsgId} {payload : ByteBuf}

/-- **A frame begins with the length of the rest**, if that fits. -/
theorem beNat_take_frame (h : payload.length + 1 < 2 ^ 32) :
    beNat ((frame msgId payload).take 4) = (frame msgId payload).length - 4 := by
  rw [length_frame, frame, take_left' (length_beBytes _ _), beNat_beBytes_of_lt h,
    preambleLen, integerLen]
  omega

lemma writePreamble_eq_ok {payload out}
    (hlen : payload.length + 1 < 2 ^ 32) (h : writePreamble payload.length msgId = .ok out) :
    out ++ payload = frame msgId payload := by
  rw [writePreamble, checkedAdd32, asU32_of_lt (Nat.lt_of_succ_lt hlen), if_pos hlen] at h
  cases h
  rfl

lemma serializeFrame_eq_ok {outLen msgLen payload w}
    (hpayload : payload.length = msgLen) (hn : n - 4 < 2 ^ 32)
    (h : serializeFrame outLen msgLen msgId payload = .ok (n, w)) :
    w = frame msgId payload ∧ n = w.length ∧ payload.length + 1 < 2 ^ 32 := by
  obtain ⟨_, -, h⟩ := Outcome.bind_eq_ok.mp h
  obtain ⟨out, hout, h⟩ := Outcome.bind_eq_ok.mp h
  cases h
  rw [preambleLen, integerLen] at hn
  have hlen : payload.length + 1 < 2 ^ 32 := by omega
  rw [← hpayload] at hout
  rw [writePreamble_eq_ok hlen hout]
  exact ⟨rfl, by rw [length_frame, hpayload], hlen⟩

/-- **A frame is read up to its end**: what follows is not looked at. -/
theorem deserialize_frame (msgId : MsgId) (h : payload.length + 1 < 2 ^ 32) (t : ByteBuf) :
    Message.deserialize (frame msgId payload ++ t) [] =
      (readMessage payload.length msgId.toU8 ⟨payload ++ t, []⟩ >>= fun m =>
        .ok (m, preambleLen + payload.length)) := by
  have hlen4 : 4 ≤ (frame msgId payload ++ t).length := by
    rw [length_append, length_frame, preambleLen, integerLen]
    omega
  have htake : (frame msgId payload ++ t).take 4 = beBytes 4 (payload.length + 1) := by
    rw [frame, append_assoc, take_left' (length_beBytes _ _)]
  have hdrop : (frame msgId payload ++ t).drop 4 = msgId.toU8 :: (payload ++ t) := by
    rfl
  have hword := UInt32.toNat_ofNat_of_lt' h
  have hne : UInt32.ofNat (payload.length + 1) ≠ 0 := by
    intro hzero
    rw [hzero] at hword
    exact absurd hword (by simp)
  rw [Message.deserialize, Message.deserializeBuf, readU32Be_eq, join_mk,
    append_nil, if_pos hlen4, htake, beNat_beBytes_of_lt h, advance_mk_nil, hdrop]
  dsimp only
  rw [if_neg hne, readU8_eq, join_mk, append_nil, head?_cons, advance_mk_nil, hword]
  simp only [Option.map_some, Outcome.okOr, Outcome.ok_bind, drop_one, tail_cons,
    Nat.add_sub_cancel]
  rw [if_neg (by rw [len, length_append]; omega)]
  rw [Nat.add_comm _ payload.length]
  rfl

/-- **A frame comes back if its payload does.** -/
theorem Message.roundTrips_frame (h : payload.length + 1 < 2 ^ 32)
    (hread : ∀ t, ∃ m', readMessage payload.length msgId.toU8 ⟨payload ++ t, []⟩ = .ok m' ∧
      m'.Same m) :
    m.RoundTrips (frame msgId payload).length (frame msgId payload) := by
  refine ⟨rfl, beNat_take_frame h, fun t => ?_⟩
  obtain ⟨m', hm', hsame⟩ := hread t
  refine ⟨m', ?_, hsame⟩
  rw [deserialize_frame msgId h, hm', length_frame]
  rfl

section

variable {outLen msgLen n : ℕ} {msgId : MsgId} {payload w : ByteBuf} {m : Message}

/-- **A message comes back if what is written is its payload, of the length that is said.** -/
theorem Message.roundTrips_serializeFrame (hn : n - 4 < 2 ^ 32)
    (h : serializeFrame outLen msgLen msgId payload = .ok (n, w))
    (hpayload : payload.length = msgLen)
    (hread : ∀ t, ∃ m', readMessage msgLen msgId.toU8 ⟨payload ++ t, []⟩ = .ok m' ∧ m'.Same m) :
    m.RoundTrips n w := by
  obtain ⟨rfl, rfl, hlen⟩ := serializeFrame_eq_ok hpayload hn h
  exact roundTrips_frame hlen (hpayload ▸ hread)

end

lemma readIndex_beBytes (v : UInt32) (msgId : UInt8) (mk : UInt32 → Message) (t : ByteBuf) :
    readIndex 4 msgId ⟨beBytes 4 v.toNat ++ t, []⟩ mk = .ok (mk v) := by
  have hlen : 4 ≤ (⟨beBytes 4 v.toNat ++ t, []⟩ : DoubleBuf).join.length := by simp
  rw [readIndex_eq msgId hlen, if_pos rfl, join_mk, append_nil, readWord_beBytes]

variable (r : Request)

lemma Request.length_serializeUncheckedLen :
    r.serializeUncheckedLen.length = 12 := by
  simp [serializeUncheckedLen]

lemma Request.ofBytes_serializeUncheckedLen :
    ofBytes r.serializeUncheckedLen = r := by
  have hindex := readWord_beBytes r.index (beBytes 4 r.begin.toNat ++ beBytes 4 r.length.toNat)
  have hbegin := readWord_beBytes r.begin (beBytes 4 r.length.toNat)
  have hlength := readWord_beBytes r.length []
  rw [append_nil] at hlength
  have hdrop₄ : r.serializeUncheckedLen.drop 4 =
      beBytes 4 r.begin.toNat ++ beBytes 4 r.length.toNat := by
    rw [serializeUncheckedLen, append_assoc, drop_left' (length_beBytes _ _)]
  have hdrop₈ : r.serializeUncheckedLen.drop 8 = beBytes 4 r.length.toNat := by
    rw [serializeUncheckedLen, drop_left' (by simp)]
  rw [ofBytes, hdrop₄, hdrop₈, hbegin, hlength, serializeUncheckedLen, append_assoc, hindex]

lemma readRequest_serialize (msgId : UInt8) (mk : Request → Message) (t : ByteBuf) :
    readRequest 12 msgId ⟨r.serializeUncheckedLen ++ t, []⟩ mk = .ok (mk r) := by
  have hlen : 12 ≤ (⟨r.serializeUncheckedLen ++ t, []⟩ : DoubleBuf).join.length := by
    rw [join_mk, append_nil, length_append, r.length_serializeUncheckedLen]
    omega
  rw [readRequest_eq msgId hlen, if_pos rfl, join_mk, append_nil,
    take_left' r.length_serializeUncheckedLen, r.ofBytes_serializeUncheckedLen]

lemma Piece.length_serializeUncheckedLen :
    p.serializeUncheckedLen.length = 8 + p.len := by
  simp only [serializeUncheckedLen, length_append, length_beBytes, len]
  omega

/-- **A block comes back in one slice.** -/
theorem readPiece_serialize (hp : 0 < p.len) (msgId : UInt8) (t : ByteBuf) :
    readPiece (8 + p.len) msgId ⟨p.serializeUncheckedLen ++ t, []⟩ = .ok (.piece p.joined) := by
  have hlen : 8 + p.len ≤ (⟨p.serializeUncheckedLen ++ t, []⟩ : DoubleBuf).join.length := by
    rw [join_mk, append_nil, length_append, p.length_serializeUncheckedLen]
    omega
  have hsplit : p.serializeUncheckedLen ++ t = beBytes 4 p.index.toNat ++
      (beBytes 4 p.begin.toNat ++ ((p.block0 ++ p.block1) ++ t)) := by
    simp only [Piece.serializeUncheckedLen, append_assoc]
  have hlenBlock : (p.block0 ++ p.block1).length = p.len := length_append
  rw [readPiece_eq msgId hlen, if_pos (by omega), hsplit, advance_mk_nil,
    advance_mk_nil, join_mk, append_nil, readWord_beBytes,
    drop_left' (length_beBytes _ _), readWord_beBytes, drop_left' (length_beBytes _ _),
    Nat.add_sub_cancel_left, ← hlenBlock, asIoslices_mk_nil, take_left]
  rfl

/-- **The messages that come back.**  What `serialize` writes for a message comes back from
`deserialize`, whatever follows it, exactly if the message is one a reader accepts and its length
fits into four bytes. -/
theorem Message.roundTrips_iff (m : Message) (hm : m.Sendable) {outLen n : ℕ} {w : ByteBuf}
    (h : m.serialize outLen .my = .ok (n, w)) :
    m.RoundTrips n w ↔ m.Acceptable ∧ n - 4 < 2 ^ 32 := by
  refine ⟨RoundTrips.acceptable, ?_⟩
  rintro ⟨hacc, hn⟩
  cases m with
  | choke | unchoke | interested | notInterested | haveAll | haveNone =>
    exact roundTrips_serializeFrame hn h rfl fun t => ⟨_, rfl, rfl⟩
  | have_ v | suggestPiece v | allowedFast v =>
    exact roundTrips_serializeFrame hn h (length_beBytes _ _) fun t =>
      ⟨_, readIndex_beBytes v _ _ t, rfl⟩
  | request r | cancel r | rejectRequest r =>
    exact roundTrips_serializeFrame hn h r.length_serializeUncheckedLen fun t =>
      ⟨_, readRequest_serialize r _ _ t, rfl⟩
  | port v =>
    refine roundTrips_serializeFrame hn h (length_portBytes v) fun t => ⟨.port v, ?_, rfl⟩
    have hlen : 2 ≤ (⟨portBytes v ++ t, []⟩ : DoubleBuf).join.length := by simp
    show readPort 2 _ _ = _
    rw [readPort_eq _ hlen, if_pos rfl, join_mk, append_nil,
      take_left' (length_portBytes v), portOfBytes_portBytes]
  | bitfield b =>
    refine roundTrips_serializeFrame hn h rfl fun t => ⟨.bitfield b, ?_, rfl⟩
    have hle : b.length ≤ (⟨b ++ t, []⟩ : DoubleBuf).buf0.length := by simp
    show readBitfield b.length _ _ = _
    rw [readBitfield, checkMsgLenMin, if_neg (Nat.not_lt.mpr hm), getContiguous,
      if_pos hle, take_left]
    rfl
  | keepAlive =>
    obtain ⟨_, -, h⟩ := Outcome.bind_eq_ok.mp h
    cases h
    refine ⟨length_beBytes _ _, by decide, fun t => ⟨.keepAlive, ?_, rfl⟩⟩
    rw [deserialize, deserializeBuf, readU32Be_eq, join_mk, append_nil,
      if_pos (by simp), take_left' (length_beBytes _ _)]
    exact if_pos (by decide)
  | piece p =>
    exact roundTrips_serializeFrame hn h p.length_serializeUncheckedLen fun t =>
      ⟨_, readPiece_serialize p hm _ t, congrArg piece p.joined_joined⟩
  | extended e =>
    obtain ⟨_, -, h⟩ := Outcome.bind_eq_ok.mp h
    obtain ⟨payload, hpayload, h⟩ := Outcome.bind_eq_ok.mp h
    obtain ⟨out, hout, h⟩ := Outcome.bind_eq_ok.mp h
    cases h
    have hlen : payload.length + 1 < 2 ^ 32 := by
      rw [preambleLen, integerLen] at hn
      omega
    rw [writePreamble_eq_ok hlen hout, ← length_frame .extended]
    refine roundTrips_frame hlen fun t => ?_
    obtain rfl := eq_payload_of_serialize hpayload
    rw [length_cons] at hlen
    obtain ⟨e', he', hsame⟩ := deserialize_payload hm hacc (by omega)
    refine ⟨.extended e', ?_, hsame⟩
    show Message.extended <$> ExtendedMessage.deserialize _ = _
    rw [withMaxLen, asIoslices_mk_nil, take_left, he', Outcome.map_ok]

/-- A piece of metadata of one byte. -/
def Message.oneByteMetadata : Message :=
  .extended (.utMetadata (.data { piece := 0, totalSize := 1, data0 := [7], data1 := [] }))

theorem Message.roundTrips_oneByteMetadata : oneByteMetadata.Sendable ∧
    oneByteMetadata.serialize 64 .my = .ok (48, frame .extended
      (3 :: (ascii "d8:msg_typei1e5:piecei0e10:total_sizei1ee" ++ [7]))) ∧
    (oneByteMetadata.RoundTrips 48 (frame .extended
      (3 :: (ascii "d8:msg_typei1e5:piecei0e10:total_sizei1ee" ++ [7]))) ↔
      oneByteMetadata.Acceptable ∧ 48 - 4 < 2 ^ 32) := by
  have hsend : oneByteMetadata.Sendable := trivial
  refine ⟨hsend, ?write, roundTrips_iff _ hsend ?write⟩
  decide

/-- The message may be sent and is written, and does not come back. -/
def Message.Lost (m : Message) : Prop :=
  m.Sendable ∧ ∃ n w, m.serialize 64 .my = .ok (n, w) ∧ ¬ m.RoundTrips n w

lemma Message.lost_of_not_acceptable {w} (hm : m.Sendable)
    (h : m.serialize 64 .my = .ok (n, w)) (hacc : ¬ m.Acceptable) : m.Lost :=
  ⟨hm, n, w, h, fun hround => hacc hround.acceptable.1⟩

/-- An error code in a message that is no error. -/
def Message.connectWithError : Message :=
  .extended (.utHolepunch {
    msgType := .connect
    addr := .v4 ⟨⟨⟨[1, 2, 3, 4], rfl⟩⟩, 6881⟩
    errorCode := some .noSupport })

/-- An address with a scope id. -/
def Message.rendezvousWithScope : Message :=
  .extended (.utHolepunch {
    msgType := .rendezvous
    addr := .v6 ⟨⟨⟨List.replicate 16 1, rfl⟩⟩, 6881, 0, 2⟩ })

/-- A piece of metadata that is too short. -/
def Message.shortMetadata : Message :=
  .extended (.utMetadata (.data { piece := 0, totalSize := 2, data0 := [7], data1 := [] }))

/-- **Three messages that are written and do not come back.** -/
theorem Message.lost_messages :
    connectWithError.Lost ∧ rendezvousWithScope.Lost ∧ shortMetadata.Lost := by
  refine ⟨lost_of_not_acceptable (n := 18) (w := frame .extended
      [4, 1, 0, 1, 2, 3, 4, 26, 225, 0, 0, 0, 3]) trivial (by decide) ?_,
    lost_of_not_acceptable (n := 26) (w := frame .extended
      ([4, 0, 1] ++ List.replicate 16 1 ++ [26, 225])) trivial (by decide) ?_,
    lost_of_not_acceptable (n := 48) (w := frame .extended
      (3 :: (ascii "d8:msg_typei1e5:piecei0e10:total_sizei2ee" ++ [7]))) trivial (by decide) ?_⟩
  · exact fun h => absurd (h.2.mp rfl) (by decide)
  · exact fun h => absurd h.1.2 (by decide)
  · exact fun h => absurd h.2 (by decide)

end Librtbit.Wire
