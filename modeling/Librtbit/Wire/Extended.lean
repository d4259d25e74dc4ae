import Librtbit.Bencode.Fields
import Librtbit.Bencode.Value
import Librtbit.Core.CompactIp
import Librtbit.Wire.DoubleBuf

/-!
# Wire/Extended — extended messages

An extended message is one byte of id and a payload.  The id stands for an extension: the handshake
that announces the ids (`ExtendedHandshake`), the exchange of metadata (`UtMetadata`), of peers
(`UtPex`) and of introductions through a common peer (`HolepunchMessage`), and any other id
(`ExtendedMessage.dyn`).  A peer is sent the ids it announced and sends ours.

All payloads but that of a holepunch are bencode.  The one of a metadata piece is a bencoded header
followed by the piece itself, in whatever slices it was received.
-/

namespace Librtbit.Wire

open Machinery Bencode CompactListInBuffer Net

/-! ## Errors -/

inductive MessageDeserializeError where
  /-- `not enough data (msgid={1:?}): expected at least {0} more bytes` -/
  | notEnoughData (missing : ℕ) (msgId : Option UInt8)
  /-- `need a contiguous input to deserialize` -/
  | needContiguous
  /-- `unsupported message id {0}` -/
  | unsupportedMessageId (msgId : UInt8)
  | bencode (e : DeError)
  /-- `incorrect message length msg_id={msg_id:?}, expected={expected}, received={received}` -/
  | incorrectMsgLen (received expected : ℕ) (msgId : UInt8)
  /-- `ut_metadata:data length must be <= {CHUNK_SIZE} but received {0} bytes` -/
  | utMetadataTooLarge (len : ℕ)
  /-- `ut_metadata: trailing bytes when decoding` -/
  | utMetadataTrailingBytes
  /-- `ut_metadata: missing total_size` -/
  | utMetadataMissingTotalSize
  /-- `ut_metadata: unrecognized message type: {0}` -/
  | utMetadataTypeUnknown (msgType : UInt32)
  /-- `ut_metadata: received piece {received_piece} > total pieces {total_pieces}` -/
  | utMetadataPieceOutOfBounds (totalPieces : ℕ) (receivedPiece : UInt32)
  /-- `ut_metadata: expected size {expected_size} != received size {received_size}` -/
  | utMetadataSizeMismatch (expectedSize receivedSize : ℕ)
  /-- `holepunch deserialization error: {0}` -/
  | holepunchDeserialize (msg : String)
  deriving DecidableEq

inductive SerializeError where
  /-- `not enough space in buffer` -/
  | noSpaceInBuffer
  /-- The bencode serializer ran out of space. -/
  | bencode
  /-- `need peer's handshake to serialize ut_metadata, or peer does't support ut_metadata` -/
  | needUtMetadata
  /-- `need peer's handshake to serialize ut_pex, or peer does't support ut_pex` -/
  | needPex
  /-- `need peer's handshake to serialize ut_holepunch, or peer doesn't support ut_holepunch` -/
  | needHolepunch
  deriving DecidableEq

/-! ## The handshake -/

/-- The ids a peer announced. -/
structure PeerExtendedMessageIds where
  utMetadata : Option UInt8 := none
  utPex : Option UInt8 := none
  utHolepunch : Option UInt8 := none
  deriving DecidableEq

namespace PeerExtendedMessageIds

/-- Our own ids. -/
def my : PeerExtendedMessageIds where
  utMetadata := some 3
  utPex := some 1
  utHolepunch := some 4

inductive Field where
  | utMetadata
  | utPex
  | utHolepunch
  deriving DecidableEq

def schema : Schema Field where
  all := [.utMetadata, .utPex, .utHolepunch]
  name
    | .utMetadata => "ut_metadata"
    | .utPex => "ut_pex"
    | .utHolepunch => "ut_holepunch"
  ty _ := UInt8
  write _ := serializeU8
  read _ := deserializeU8

def fields (ids : PeerExtendedMessageIds) : schema.Values
  | .utMetadata => ids.utMetadata
  | .utPex => ids.utPex
  | .utHolepunch => ids.utHolepunch

def ofFields (values : schema.Values) : Except DeError PeerExtendedMessageIds :=
  .ok ⟨values .utMetadata, values .utPex, values .utHolepunch⟩

def serialize (ids : PeerExtendedMessageIds) : ByteBuf := schema.serialize ids.fields

def deserialize : De PeerExtendedMessageIds := schema.deserialize ofFields

lemma sound_schema : schema.Sound where
  complete f := by cases f <;> decide
  nodup := by decide
  short f := by cases f <;> decide

lemma reads_deserialize (ids : PeerExtendedMessageIds) : Reads deserialize ids.serialize ids :=
  sound_schema.reads_deserialize (fun _ v _ => reads_deserializeU8 v) rfl

end PeerExtendedMessageIds

structure ExtendedHandshake where
  m : PeerExtendedMessageIds
  p : Option UInt32 := none
  v : Option ByteBuf := none
  yourip : Option Net.IpAddr := none
  ipv6 : Option Ipv6Addr := none
  ipv4 : Option Ipv4Addr := none
  reqq : Option UInt32 := none
  metadataSize : Option UInt32 := none
  completeAgo : Option Int32 := none
  uploadOnly : Option UInt32 := none
  deriving DecidableEq

namespace ExtendedHandshake

inductive Field where
  | m
  | p
  | v
  | yourip
  | ipv6
  | ipv4
  | reqq
  | metadataSize
  | completeAgo
  | uploadOnly
  deriving DecidableEq

abbrev Field.Ty : Field → Type
  | .m => PeerExtendedMessageIds
  | .v => ByteBuf
  | .yourip => Net.IpAddr
  | .ipv6 => Ipv6Addr
  | .ipv4 => Ipv4Addr
  | .completeAgo => Int32
  | .p | .reqq | .metadataSize | .uploadOnly => UInt32

def schema : Schema Field where
  all := [.m, .p, .v, .yourip, .ipv6, .ipv4, .reqq, .metadataSize, .completeAgo, .uploadOnly]
  name
    | .m => "m"
    | .p => "p"
    | .v => "v"
    | .yourip => "yourip"
    | .ipv6 => "ipv6"
    | .ipv4 => "ipv4"
    | .reqq => "reqq"
    | .metadataSize => "metadata_size"
    | .completeAgo => "complete_ago"
    | .uploadOnly => "upload_only"
  ty := Field.Ty
  write
    | .m, ids => ids.serialize
    | .v, bytes => writeBytes bytes
    | .yourip, ip => writeCompact ip
    | .ipv6, ip => writeCompact ip
    | .ipv4, ip => writeCompact ip
    | .completeAgo, n => serializeI32 n
    | .p, n | .reqq, n | .metadataSize, n | .uploadOnly, n => serializeU32 n
  read
    | .m => PeerExtendedMessageIds.deserialize
    | .v => parseBytes
    | .yourip => readCompact Net.IpAddr
    | .ipv6 => readCompact Ipv6Addr
    | .ipv4 => readCompact Ipv4Addr
    | .completeAgo => deserializeI32
    | .p | .reqq | .metadataSize | .uploadOnly => deserializeU32

def fields (h : ExtendedHandshake) : schema.Values
  | .m => some h.m
  | .p => h.p
  | .v => h.v
  | .yourip => h.yourip
  | .ipv6 => h.ipv6
  | .ipv4 => h.ipv4
  | .reqq => h.reqq
  | .metadataSize => h.metadataSize
  | .completeAgo => h.completeAgo
  | .uploadOnly => h.uploadOnly

def ofFields (values : schema.Values) : Except DeError ExtendedHandshake := do
  return {
    m := ← Schema.require values .m
    p := values .p
    v := values .v
    yourip := values .yourip
    ipv6 := values .ipv6
    ipv4 := values .ipv4
    reqq := values .reqq
    metadataSize := values .metadataSize
    completeAgo := values .completeAgo
    uploadOnly := values .uploadOnly }

def serialize (h : ExtendedHandshake) : ByteBuf := schema.serialize h.fields

def deserialize : De ExtendedHandshake := schema.deserialize ofFields

lemma sound_schema : schema.Sound where
  complete f := by cases f <;> decide
  nodup := by decide
  short f := by cases f <;> decide

/-- **A handshake is read back.** -/
theorem reads_deserialize {h} (hlen : h.serialize.length < 2 ^ 64) :
    Reads deserialize h.serialize h := by
  refine sound_schema.reads_deserialize (fun f v hv => ?_) rfl
  have hlt := Nat.lt_trans (sound_schema.length_write_lt hv) hlen
  cases f with
  | m => exact PeerExtendedMessageIds.reads_deserialize v
  | v => exact reads_writeBytes hlt
  | yourip => exact reads_readCompact (T := Net.IpAddr) hlt (Net.IpAddr.fromSlice_asSlice v)
  | ipv6 => exact reads_readCompact (T := Ipv6Addr) hlt (Ipv6Addr.fromSlice_asSlice v)
  | ipv4 => exact reads_readCompact (T := Ipv4Addr) hlt (Ipv4Addr.fromSlice_asSlice v)
  | completeAgo => exact reads_deserializeI32 v
  | p | reqq | metadataSize | uploadOnly => exact reads_deserializeU32 v

end ExtendedHandshake

/-! ## Peer exchange -/

/-- `Flags`, what is known about an added peer. -/
structure Flags where
  bits : UInt8
  deriving DecidableEq

instance : CompactSerialize Flags where
  expecting := "1 byte"
  asSlice flags := [flags.bits]
  fromSlice buf := buf.head?.map Flags.mk

instance : CompactSerializeFixedLen Flags := ⟨1⟩

structure UtPex where
  added : Option (CompactListInBuffer SocketAddrV4) := none
  addedF : Option (CompactListInBuffer Flags) := none
  added6 : Option (CompactListInBuffer SocketAddrV6) := none
  added6F : Option (CompactListInBuffer Flags) := none
  dropped : Option (CompactListInBuffer SocketAddrV4) := none
  dropped6 : Option (CompactListInBuffer SocketAddrV6) := none
  deriving DecidableEq

namespace UtPex

inductive Field where
  | added
  | addedF
  | added6
  | added6F
  | dropped
  | dropped6
  deriving DecidableEq

abbrev Field.Ty : Field → Type
  | .added | .dropped => CompactListInBuffer SocketAddrV4
  | .added6 | .dropped6 => CompactListInBuffer SocketAddrV6
  | .addedF | .added6F => CompactListInBuffer Flags

def schema : Schema Field where
  all := [.added, .addedF, .added6, .added6F, .dropped, .dropped6]
  name
    | .added => "added"
    | .addedF => "added.f"
    | .added6 => "added6"
    | .added6F => "added6.f"
    | .dropped => "dropped"
    | .dropped6 => "dropped6"
  ty := Field.Ty
  write
    | .added, l | .dropped, l => l.serialize
    | .added6, l | .dropped6, l => l.serialize
    | .addedF, l | .added6F, l => l.serialize
  read
    | .added | .dropped => deserialize SocketAddrV4
    | .added6 | .dropped6 => deserialize SocketAddrV6
    | .addedF | .added6F => deserialize Flags

def fields (m : UtPex) : schema.Values
  | .added => m.added
  | .addedF => m.addedF
  | .added6 => m.added6
  | .added6F => m.added6F
  | .dropped => m.dropped
  | .dropped6 => m.dropped6

def ofFields (values : schema.Values) : Except DeError UtPex :=
  .ok ⟨values .added, values .addedF, values .added6, values .added6F, values .dropped,
    values .dropped6⟩

def serialize (m : UtPex) : ByteBuf := schema.serialize m.fields

def deserialize : De UtPex := schema.deserialize ofFields

lemma sound_schema : schema.Sound where
  complete f := by cases f <;> decide
  nodup := by decide
  short f := by cases f <;> decide

/-- **A peer exchange message is read back.** -/
theorem reads_deserialize {m} (hlen : m.serialize.length < 2 ^ 64) :
    Reads deserialize m.serialize m := by
  refine sound_schema.reads_deserialize (fun f l hl => ?_) rfl
  have hlt := Nat.lt_trans (sound_schema.length_write_lt hl) hlen
  cases f with
  | added | dropped | added6 | dropped6 | addedF | added6F =>
    exact CompactListInBuffer.reads_deserialize hlt

end UtPex

/-! ## Holepunching -/

inductive HolepunchMsgType where
  | rendezvous
  | connect
  | error
  deriving DecidableEq

namespace HolepunchMsgType

def toU8 : HolepunchMsgType → UInt8
  | rendezvous => 0
  | connect => 1
  | error => 2

def fromU8 (v : UInt8) : Option HolepunchMsgType :=
  if v = 0 then some rendezvous
  else if v = 1 then some connect
  else if v = 2 then some error
  else none

@[simp] lemma fromU8_toU8 (t : HolepunchMsgType) : fromU8 t.toU8 = some t := by
  cases t <;> decide

end HolepunchMsgType

inductive HolepunchErrorCode where
  | noSuchPeer
  | notConnected
  | noSupport
  | noSelf
  deriving DecidableEq

namespace HolepunchErrorCode

def toU32 : HolepunchErrorCode → UInt32
  | noSuchPeer => 1
  | notConnected => 2
  | noSupport => 3
  | noSelf => 4

def fromU32 (v : UInt32) : Option HolepunchErrorCode :=
  if v = 1 then some noSuchPeer
  else if v = 2 then some notConnected
  else if v = 3 then some noSupport
  else if v = 4 then some noSelf
  else none

@[simp] lemma fromU32_toU32 (c : HolepunchErrorCode) : fromU32 c.toU32 = some c := by
  cases c <;> decide

end HolepunchErrorCode

/-- Holepunch extension message. -/
structure HolepunchMessage where
  msgType : HolepunchMsgType
  addr : Net.SocketAddr
  errorCode : Option HolepunchErrorCode := none
  deriving DecidableEq

namespace HolepunchMessage

/-- The type of an address and its octets. -/
def ipBytes : Net.IpAddr → ByteBuf
  | .v4 ip => 0 :: ip.octets.val
  | .v6 ip => 1 :: ip.octets.val

/-- The error code, if there is one. -/
def errorCodeBytes : Option HolepunchErrorCode → ByteBuf
  | some err => beBytes 4 err.toU32.toNat
  | none => []

def serialize (m : HolepunchMessage) : ByteBuf :=
  m.msgType.toU8 ::
    (ipBytes m.addr.ip ++ (portBytes m.addr.port ++ errorCodeBytes m.errorCode))

/-- The address behind its type, and what follows it. -/
def readIp (addrType : UInt8) (data : ByteBuf) : Except String (Net.IpAddr × ByteBuf) :=
  if addrType = 0 then
    if h : data.length < 4 + 2 then .error "holepunch IPv4 message too short"
    else .ok (.v4 ⟨data.take 4, by rw [List.length_take]; omega⟩, data.drop 4)
  else if addrType = 1 then
    if h : data.length < 16 + 2 then .error "holepunch IPv6 message too short"
    else .ok (.v6 ⟨data.take 16, by rw [List.length_take]; omega⟩, data.drop 16)
  else .error ("unknown holepunch addr_type " ++ toString addrType)

/-- The error code, which only an error message has. -/
def readErrorCode (msgType : HolepunchMsgType) (rest : ByteBuf) :
    Except String (Option HolepunchErrorCode) :=
  if msgType = .error then
    if rest.length < 4 then .error "holepunch error message missing error_code"
    else
      let code := UInt32.ofNat (beNat (rest.take 4))
      match HolepunchErrorCode.fromU32 code with
      | some err => .ok (some err)
      | none => .error ("unknown holepunch error_code " ++ toString code)
  else .ok none

def deserialize : ByteBuf → Except String HolepunchMessage
  | msgType :: addrType :: data => do
    match HolepunchMsgType.fromU8 msgType with
    | none => throw "unknown holepunch msg_type"
    | some msgType =>
      let (ip, rest) ← readIp addrType data
      if rest.length < 2 then throw "holepunch message missing port"
      else
        let port := portOfBytes (rest.take 2)
        let errorCode ← readErrorCode msgType (rest.drop 2)
        return { msgType, addr := .new ip port, errorCode }
  | _ => throw "holepunch message too short"

end HolepunchMessage

/-! ## Metadata -/

structure UtMetadataData where
  piece : UInt32
  totalSize : UInt32
  data0 : ByteBuf
  data1 : ByteBuf
  deriving DecidableEq

namespace UtMetadataData

def len (d : UtMetadataData) : ℕ := d.data0.length + d.data1.length

/-- All of the data in the first slice. -/
def joined (d : UtMetadataData) : UtMetadataData :=
  { d with data0 := d.data0 ++ d.data1, data1 := [] }

def validate (d : UtMetadataData) : Outcome MessageDeserializeError Unit :=
  if d.totalSize = 0 then .err .utMetadataMissingTotalSize
  else if chunkSize < d.len then .err (.utMetadataTooLarge (asU32 d.len))
  else do
    let totalPieces ← divCeil d.totalSize.toNat chunkSize
    if totalPieces ≤ d.piece.toNat then .err (.utMetadataPieceOutOfBounds totalPieces d.piece)
    else
      let start ← checkedMul32 d.piece.toNat chunkSize
      let expectedSize := min (d.totalSize.toNat - start) chunkSize
      if asU32 d.len ≠ expectedSize then
        .err (.utMetadataSizeMismatch expectedSize (asU32 d.len))
      else .ok ()

/-- The data is the piece it says it is. -/
def IsPiece (d : UtMetadataData) : Prop :=
  chunkSize * d.piece.toNat < d.totalSize.toNat ∧
    d.len = min (d.totalSize.toNat - chunkSize * d.piece.toNat) chunkSize
  deriving Decidable

end UtMetadataData

inductive UtMetadata where
  | request (piece : UInt32)
  | data (d : UtMetadataData)
  | reject (piece : UInt32)
  deriving DecidableEq

/-- The header of a metadata message. -/
structure UtMetadataMsg where
  msgType : UInt32
  piece : UInt32
  totalSize : Option UInt32 := none
  deriving DecidableEq

namespace UtMetadataMsg

inductive Field where
  | msgType
  | piece
  | totalSize
  deriving DecidableEq

def schema : Schema Field where
  all := [.msgType, .piece, .totalSize]
  name
    | .msgType => "msg_type"
    | .piece => "piece"
    | .totalSize => "total_size"
  ty _ := UInt32
  write _ := serializeU32
  read _ := deserializeU32

def fields (m : UtMetadataMsg) : schema.Values
  | .msgType => some m.msgType
  | .piece => some m.piece
  | .totalSize => m.totalSize

def ofFields (values : schema.Values) : Except DeError UtMetadataMsg := do
  return {
    msgType := ← Schema.require values .msgType
    piece := ← Schema.require values .piece
    totalSize := values .totalSize }

def serialize (m : UtMetadataMsg) : ByteBuf := schema.serialize m.fields

def deserialize : De UtMetadataMsg := schema.deserialize ofFields

lemma sound_schema : schema.Sound where
  complete f := by cases f <;> decide
  nodup := by decide
  short f := by cases f <;> decide

/-- **A header is read back.** -/
theorem reads_deserialize (m : UtMetadataMsg) : Reads deserialize m.serialize m :=
  sound_schema.reads_deserialize (fun _ v _ => reads_deserializeU32 v) rfl

lemma stable_deserialize : Stable deserialize :=
  Schema.stable_deserialize (fun _ => stable_deserializeUnsigned _ _)
    (fun _ => (consumes_parseInteger _).shrinks) _

end UtMetadataMsg

namespace UtMetadata

/-- The header, and the bytes behind it. -/
def parts : UtMetadata → UtMetadataMsg × ByteBuf × ByteBuf
  | request piece => ({ msgType := 0, piece }, [], [])
  | data d => ({ msgType := 1, piece := d.piece, totalSize := some d.totalSize }, d.data0, d.data1)
  | reject piece => ({ msgType := 2, piece }, [], [])

/-- All of the data in the first slice. -/
def joined : UtMetadata → UtMetadata
  | request piece => request piece
  | data d => data d.joined
  | reject piece => reject piece

/-- `MAX_BMSG_SIZE`. -/
def maxBmsgSize : ℕ := (ascii "d8:msg_typei10e5:piecei4294967296e10:total_sizei16384ee").length

/-- What the header says the bytes behind it are. -/
def ofParts (message : UtMetadataMsg) (buf : DoubleBuf) :
    Outcome MessageDeserializeError UtMetadata :=
  if message.msgType = 0 then
    if buf.isEmpty then .ok (request message.piece) else .err .utMetadataTrailingBytes
  else if message.msgType = 1 then do
    let totalSize ← Outcome.okOr .utMetadataMissingTotalSize message.totalSize
    let d : UtMetadataData :=
      { piece := message.piece, totalSize, data0 := buf.buf0, data1 := buf.buf1 }
    d.validate
    return data d
  else if message.msgType = 2 then
    if buf.isEmpty then .ok (reject message.piece) else .err .utMetadataTrailingBytes
  else .err (.utMetadataTypeUnknown message.msgType)

/-- The header is read from the first bytes if they lie in one slice, and from the first slice
otherwise. -/
def deserialize (buf : DoubleBuf) : Outcome MessageDeserializeError UtMetadata :=
  let (contig, isContig) :=
    match buf.getContiguous (min maxBmsgSize buf.len) with
    | some c => (c, true)
    | none => (buf.buf0, false)
  match UtMetadataMsg.deserialize.run (.newFromBuf contig) with
  | .ok message de => ofParts message (buf.advance (contig.length - de.buf.length))
  | .error e _ => if isContig then .err (.bencode e) else .err .needContiguous

end UtMetadata

/-! ## Extended messages -/

inductive ExtendedMessage where
  | handshake (h : ExtendedHandshake)
  | utMetadata (m : UtMetadata)
  | utPex (m : UtPex)
  | utHolepunch (m : HolepunchMessage)
  | dyn (msgId : UInt8) (v : BencodeTree)

/-- Writing behind what is already written, in a buffer of `cap` bytes. -/
def writeAll (cap : ℕ) (e : SerializeError) (bytes written : ByteBuf) :
    Outcome SerializeError ByteBuf :=
  if written.length + bytes.length ≤ cap then .ok (written ++ bytes) else .err e

/-- `from_bytes_contig`. -/
def fromBytesContig {T : Type} (de : De T) (buf : DoubleBuf) :
    Outcome MessageDeserializeError T := do
  let bytes ← Outcome.okOr .needContiguous (buf.getContiguous buf.len)
  match fromBytes de bytes with
  | .ok v => .ok v
  | .error e => .err (.bencode e.kind)

namespace ExtendedMessage

/-- The bytes written into a buffer of `cap` bytes. -/
def serialize (cap : ℕ) (ids : PeerExtendedMessageIds) :
    ExtendedMessage → Outcome SerializeError ByteBuf
  | dyn msgId v => do
    let out ← writeAll cap .noSpaceInBuffer [msgId] []
    writeAll cap .bencode v.serialize out
  | handshake h => do
    let out ← writeAll cap .noSpaceInBuffer [0] []
    writeAll cap .bencode h.serialize out
  | utMetadata u => do
    let emsgId ← Outcome.okOr .needUtMetadata ids.utMetadata
    let out ← writeAll cap .noSpaceInBuffer [emsgId] []
    let (message, data0, data1) := u.parts
    let out ← writeAll cap .bencode message.serialize out
    let out ← writeAll cap .noSpaceInBuffer data0 out
    writeAll cap .noSpaceInBuffer data1 out
  | utPex m => do
    let emsgId ← Outcome.okOr .needPex ids.utPex
    let out ← writeAll cap .noSpaceInBuffer [emsgId] []
    writeAll cap .bencode m.serialize out
  | utHolepunch m => do
    let emsgId ← Outcome.okOr .needHolepunch ids.utHolepunch
    let out ← writeAll cap .noSpaceInBuffer [emsgId] []
    writeAll cap .noSpaceInBuffer m.serialize out

/-- The payload behind an id. -/
def deserializePayload (emsgId : UInt8) (buf : DoubleBuf) :
    Outcome MessageDeserializeError ExtendedMessage :=
  if emsgId = 0 then handshake <$> fromBytesContig ExtendedHandshake.deserialize buf
  else if emsgId = 3 then utMetadata <$> UtMetadata.deserialize buf
  else if emsgId = 1 then utPex <$> fromBytesContig UtPex.deserialize buf
  else if emsgId = 4 then do
    let data ← Outcome.okOr .needContiguous (buf.getContiguous buf.len)
    match HolepunchMessage.deserialize data with
    | .ok m => .ok (utHolepunch m)
    | .error e => .err (.holepunchDeserialize e)
  else dyn emsgId <$> fromBytesContig BencodeTree.deserialize buf

def deserialize (buf : DoubleBuf) : Outcome MessageDeserializeError ExtendedMessage := do
  let (emsgId, buf) ← Outcome.okOr (.notEnoughData 1 (some 20)) buf.readU8
  deserializePayload emsgId buf

/-- All of the data in the first slice. -/
def joined : ExtendedMessage → ExtendedMessage
  | handshake h => handshake h
  | utMetadata m => utMetadata m.joined
  | utPex m => utPex m
  | utHolepunch m => utHolepunch m
  | dyn msgId v => dyn msgId v

end ExtendedMessage

end Librtbit.Wire
