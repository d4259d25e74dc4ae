import Librtbit.Wire.Extended

/-!
# Wire/Message — messages between peers

A message is a frame: the length of what follows in four bytes, a byte that says which message it
is, and a payload.  `Message.serialize` writes one into a buffer of a given size;
`Message.deserialize` reads one from the start of a string in two slices, and says how many bytes it
took or how many are missing.
-/

namespace Librtbit.Wire

open Machinery Outcome

/-- `INTEGER_LEN`. -/
def integerLen : ℕ := 4

/-- `PREAMBLE_LEN`. -/
def preambleLen : ℕ := integerLen + 1

/-- The ids of the messages. -/
inductive MsgId where
  | choke
  | unchoke
  | interested
  | notInterested
  | have_
  | bitfield
  | request
  | piece
  | cancel
  | port
  | suggestPiece
  | haveAll
  | haveNone
  | rejectRequest
  | allowedFast
  | extended
  deriving DecidableEq

namespace MsgId

def toU8 : MsgId → UInt8
  | choke => 0
  | unchoke => 1
  | interested => 2
  | notInterested => 3
  | have_ => 4
  | bitfield => 5
  | request => 6
  | piece => 7
  | cancel => 8
  | port => 9
  | suggestPiece => 13
  | haveAll => 14
  | haveNone => 15
  | rejectRequest => 16
  | allowedFast => 17
  | extended => 20

def all : List MsgId :=
  [choke, unchoke, interested, notInterested, have_, bitfield, request, piece, cancel, port,
    suggestPiece, haveAll, haveNone, rejectRequest, allowedFast, extended]

def ofU8 (v : UInt8) : Option MsgId := all.find? fun id => id.toU8 == v

end MsgId

structure Request where
  index : UInt32
  begin : UInt32
  length : UInt32
  deriving DecidableEq

namespace Request

def serializeUncheckedLen (r : Request) : ByteBuf :=
  beBytes 4 r.index.toNat ++ beBytes 4 r.begin.toNat ++ beBytes 4 r.length.toNat

/-- The request in twelve bytes. -/
def ofBytes (req : ByteBuf) : Request where
  index := UInt32.ofNat (beNat (req.take 4))
  begin := UInt32.ofNat (beNat ((req.drop 4).take 4))
  length := UInt32.ofNat (beNat ((req.drop 8).take 4))

end Request

/-- A piece of a block, in the slices it was received in. -/
structure Piece where
  index : UInt32
  begin : UInt32
  block0 : ByteBuf
  block1 : ByteBuf
  deriving DecidableEq

namespace Piece

def len (p : Piece) : ℕ := p.block0.length + p.block1.length

def serializeUncheckedLen (p : Piece) : ByteBuf :=
  beBytes 4 p.index.toNat ++ beBytes 4 p.begin.toNat ++ p.block0 ++ p.block1

/-- All of the block in the first slice. -/
def joined (p : Piece) : Piece := { p with block0 := p.block0 ++ p.block1, block1 := [] }

end Piece

inductive Message where
  | request (r : Request)
  | cancel (r : Request)
  | bitfield (b : ByteBuf)
  | keepAlive
  | have_ (index : UInt32)
  | choke
  | unchoke
  | interested
  | notInterested
  | port (port : UInt16)
  | suggestPiece (piece : UInt32)
  | haveAll
  | haveNone
  | rejectRequest (r : Request)
  | allowedFast (piece : UInt32)
  | piece (p : Piece)
  | extended (e : ExtendedMessage)

/-! ## Writing -/

/-- `check_len!`. -/
def checkLen (outLen len : ℕ) : Outcome SerializeError Unit :=
  if outLen < len then .err .noSpaceInBuffer else .ok ()

/-- `write_preamble!`. -/
def writePreamble (msgLen : ℕ) (msgId : MsgId) : Outcome SerializeError ByteBuf := do
  let lenPrefix ← checkedAdd32 (asU32 msgLen) 1
  return beBytes 4 lenPrefix ++ [msgId.toU8]

/-- A message whose payload is said to be `msgLen` bytes long: how many bytes the message takes, and
those bytes. -/
def serializeFrame (outLen msgLen : ℕ) (msgId : MsgId) (payload : ByteBuf) :
    Outcome SerializeError (ℕ × ByteBuf) := do
  checkLen outLen (preambleLen + msgLen)
  let out ← writePreamble msgLen msgId
  return (preambleLen + msgLen, out ++ payload)

namespace Message

/-- How many bytes are written into a buffer of `outLen` bytes, and those bytes. -/
def serialize (outLen : ℕ) (ids : PeerExtendedMessageIds) :
    Message → Outcome SerializeError (ℕ × ByteBuf)
  | request r => serializeFrame outLen (integerLen * 3) .request r.serializeUncheckedLen
  | cancel r => serializeFrame outLen (integerLen * 3) .cancel r.serializeUncheckedLen
  | rejectRequest r =>
    serializeFrame outLen (integerLen * 3) .rejectRequest r.serializeUncheckedLen
  | bitfield b => serializeFrame outLen b.length .bitfield b
  | choke => serializeFrame outLen 0 .choke []
  | unchoke => serializeFrame outLen 0 .unchoke []
  | interested => serializeFrame outLen 0 .interested []
  | notInterested => serializeFrame outLen 0 .notInterested []
  | haveAll => serializeFrame outLen 0 .haveAll []
  | haveNone => serializeFrame outLen 0 .haveNone []
  | piece p => serializeFrame outLen (integerLen * 2 + p.len) .piece p.serializeUncheckedLen
  | keepAlive => do
    checkLen outLen 4
    return (4, beBytes 4 0)
  | have_ v => serializeFrame outLen integerLen .have_ (beBytes 4 v.toNat)
  | port v => serializeFrame outLen 2 .port (portBytes v)
  | suggestPiece v => serializeFrame outLen integerLen .suggestPiece (beBytes 4 v.toNat)
  | allowedFast v => serializeFrame outLen integerLen .allowedFast (beBytes 4 v.toNat)
  | extended e => do
    checkLen outLen (preambleLen + 2)
    let payload ← e.serialize (outLen - preambleLen) ids
    let out ← writePreamble payload.length .extended
    return (preambleLen + payload.length, out ++ payload)

end Message

/-! ## Reading -/

/-- `check_msg_len!`. -/
def checkMsgLen (msgLen expected : ℕ) (msgId : UInt8) : Outcome MessageDeserializeError Unit :=
  if msgLen ≠ expected then .err (.incorrectMsgLen msgLen expected msgId) else .ok ()

/-- `check_msg_len!(min …)`. -/
def checkMsgLenMin (msgLen expected : ℕ) (msgId : UInt8) : Outcome MessageDeserializeError Unit :=
  if msgLen < expected then .err (.incorrectMsgLen msgLen expected msgId) else .ok ()

section

variable (msgLen : ℕ) (msgId : UInt8) (buf : DoubleBuf)

/-- A message without a payload. -/
def readEmpty (m : Message) : Outcome MessageDeserializeError Message := do
  checkMsgLen msgLen 0 msgId
  return m

/-- A message that is one number. -/
def readIndex (mk : UInt32 → Message) : Outcome MessageDeserializeError Message := do
  checkMsgLen msgLen 4 msgId
  let (v, _) ← unwrap buf.readU32Be
  return mk v

/-- A message that is a request. -/
def readRequest (mk : Request → Message) : Outcome MessageDeserializeError Message := do
  checkMsgLen msgLen 12 msgId
  let (req, _) ← unwrap (buf.consume 12)
  return mk (.ofBytes req)

def readPort : Outcome MessageDeserializeError Message := do
  checkMsgLen msgLen 2 msgId
  let (port, _) ← unwrap (buf.consume 2)
  return .port (portOfBytes port)

def readBitfield : Outcome MessageDeserializeError Message := do
  checkMsgLenMin msgLen 1 msgId
  let data ← okOr .needContiguous (buf.getContiguous msgLen)
  return .bitfield data

def readPiece : Outcome MessageDeserializeError Message := do
  checkMsgLenMin msgLen (integerLen * 2 + 1) msgId
  let (index, buf) ← unwrap buf.readU32Be
  let (begin, buf) ← unwrap buf.readU32Be
  let (block, _) ← unwrap (buf.consumeVariable (msgLen - integerLen * 2))
  return .piece { index, begin, block0 := block.buf0, block1 := block.buf1 }

/-- The message behind its id. -/
def readMessage : Outcome MessageDeserializeError Message :=
  match MsgId.ofU8 msgId with
  | some .choke => readEmpty msgLen msgId .choke
  | some .unchoke => readEmpty msgLen msgId .unchoke
  | some .interested => readEmpty msgLen msgId .interested
  | some .notInterested => readEmpty msgLen msgId .notInterested
  | some .have_ => readIndex msgLen msgId buf .have_
  | some .port => readPort msgLen msgId buf
  | some .suggestPiece => readIndex msgLen msgId buf .suggestPiece
  | some .allowedFast => readIndex msgLen msgId buf .allowedFast
  | some .haveAll => readEmpty msgLen msgId .haveAll
  | some .haveNone => readEmpty msgLen msgId .haveNone
  | some .bitfield => readBitfield msgLen msgId buf
  | some .request => readRequest msgLen msgId buf .request
  | some .cancel => readRequest msgLen msgId buf .cancel
  | some .rejectRequest => readRequest msgLen msgId buf .rejectRequest
  | some .piece => readPiece msgLen msgId buf
  | some .extended => .extended <$> ExtendedMessage.deserialize (buf.withMaxLen msgLen)
  | none => .err (.unsupportedMessageId msgId)

end

/-! ## Reads in terms of the joined string

Behind the check of its length, no message is short of bytes. -/

section

variable {msgLen : ℕ} (msgId : UInt8) {buf : DoubleBuf} (hlen : msgLen ≤ buf.join.length)

lemma readEmpty_eq (m : Message) : readEmpty msgLen msgId m =
      if msgLen = 0 then .ok m else .err (.incorrectMsgLen msgLen 0 msgId) := by
  rw [readEmpty, checkMsgLen, ite_not]
  split <;> rfl

include hlen

lemma readIndex_eq (mk : UInt32 → Message) : readIndex msgLen msgId buf mk =
      if msgLen = 4 then .ok (mk (UInt32.ofNat (beNat (buf.join.take 4))))
      else .err (.incorrectMsgLen msgLen 4 msgId) := by
  rw [readIndex, checkMsgLen, ite_not]
  by_cases h : msgLen = 4
  · rw [if_pos h, if_pos h, buf.readU32Be_eq, if_pos (h ▸ hlen)]
    rfl
  · rw [if_neg h, if_neg h]
    rfl

lemma readRequest_eq (mk : Request → Message) : readRequest msgLen msgId buf mk =
      if msgLen = 12 then .ok (mk (.ofBytes (buf.join.take 12)))
      else .err (.incorrectMsgLen msgLen 12 msgId) := by
  rw [readRequest, checkMsgLen, ite_not]
  by_cases h : msgLen = 12
  · rw [if_pos h, if_pos h, buf.consume_eq, if_pos (h ▸ hlen)]
    rfl
  · rw [if_neg h, if_neg h]
    rfl

lemma readPort_eq : readPort msgLen msgId buf =
      if msgLen = 2 then .ok (.port (portOfBytes (buf.join.take 2)))
      else .err (.incorrectMsgLen msgLen 2 msgId) := by
  rw [readPort, checkMsgLen, ite_not]
  by_cases h : msgLen = 2
  · rw [if_pos h, if_pos h, buf.consume_eq, if_pos (h ▸ hlen)]
    rfl
  · rw [if_neg h, if_neg h]
    rfl

/-- The block of a piece is what follows the two numbers. -/
lemma readPiece_eq : readPiece msgLen msgId buf =
      if 9 ≤ msgLen then
        .ok (.piece {
          index := UInt32.ofNat (beNat (buf.join.take 4))
          begin := UInt32.ofNat (beNat ((buf.join.drop 4).take 4))
          block0 := (((buf.advance 4).advance 4).asIoslices (msgLen - 8)).buf0
          block1 := (((buf.advance 4).advance 4).asIoslices (msgLen - 8)).buf1 })
      else .err (.incorrectMsgLen msgLen 9 msgId) := by
  rw [readPiece, checkMsgLenMin, integerLen]
  by_cases h : 9 ≤ msgLen
  · rw [if_neg (Nat.not_lt.mpr h), if_pos h, buf.readU32Be_eq, if_pos (by omega)]
    simp only [unwrap, ok_bind]
    rw [DoubleBuf.readU32Be_eq, DoubleBuf.join_advance, if_pos (by rw [List.length_drop]; omega)]
    simp only [ok_bind]
    rw [DoubleBuf.consumeVariable_eq, DoubleBuf.join_advance, DoubleBuf.join_advance,
      if_pos (by rw [List.length_drop, List.length_drop]; omega)]
    rfl
  · rw [if_pos (Nat.not_le.mp h), if_neg h]
    rfl

end

namespace Message

/-- The message at the start of the string, and how many bytes it takes. -/
def deserializeBuf (buf : DoubleBuf) : Outcome MessageDeserializeError (Message × ℕ) :=
  match buf.readU32Be with
  | .error rem => .err (.notEnoughData rem none)
  | .ok (lenPrefix, buf) =>
    if lenPrefix = 0 then .ok (keepAlive, lenPrefix.toNat + 4)
    else do
      let (msgId, buf) ← okOr (.notEnoughData lenPrefix.toNat none) buf.readU8
      let msgLen := lenPrefix.toNat - 1
      if buf.len < msgLen then .err (.notEnoughData (msgLen - buf.len) (some msgId))
      else
        let m ← readMessage msgLen msgId buf
        return (m, lenPrefix.toNat + 4)

def deserialize (buf buf2 : ByteBuf) : Outcome MessageDeserializeError (Message × ℕ) :=
  deserializeBuf ⟨buf, buf2⟩

/-- All of its contents in the first slice. -/
def joined : Message → Message
  | piece p => piece p.joined
  | extended e => extended e.joined
  | m => m

end Message

end Librtbit.Wire
