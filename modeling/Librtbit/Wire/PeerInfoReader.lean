import Librtbit.Machinery.Run
import Librtbit.Wire.Message

/-!
# Wire/PeerInfoReader — reading the info of a torrent from a peer

Before a magnet link can be downloaded its info has to come from a peer.  The extended handshake
says how long it is and installs a buffer; each piece of it that comes is written into the buffer
once; and when all have come, and the hash of the whole is the info hash, the info is reported.

The peer is not trusted: it may send handshakes and pieces in any order (`Download.step`).
`Download.Sound` says that it cannot spoil the buffer or get anything reported that is not the info;
`Download.returns_iff_findsBuffer`, that it can make the handler panic, with a piece that finds no
buffer, and only so.

What parses an info (`parse`) is a parameter, and total: `Sound` only looks at what it is given.
-/

namespace Librtbit

open Machinery Wire Bencode Outcome List

/-! ## The buffer -/

/-- What ends the connection. -/
inductive PeerInfoError where
  /-- `wrong info hash` -/
  | wrongInfoHash
  /-- `connecting to ourselves` -/
  | connectingToOurselves
  /-- `this peer does not support extended handshaking, which is a prerequisite to download
  metadata` -/
  | notExtended
  /-- `peer does not have metadata_size` -/
  | noMetadataSize
  /-- `peer does not support ut_metadata` -/
  | noUtMetadata
  /-- `metadata size {metadata_size} is too big` -/
  | metadataTooBig (metadataSize : UInt32)
  /-- `channel closed` -/
  | channelClosed
  /-- `wrong index` -/
  | wrongIndex
  /-- `expected length of piece {} to be {}, but got {}` -/
  | wrongLength (piece : UInt32) (expected got : ℕ)
  /-- `already received piece {piece}` -/
  | alreadyReceived (piece : UInt32)
  /-- `info checksum invalid` -/
  | checksumInvalid
  /-- `oneshot is consumed` -/
  | oneshotConsumed
  /-- `torrent info deserialized, but consumer closed` -/
  | consumerClosed
  deriving DecidableEq

/-- `UtMetadataData::copy_to_slice`: one slice of the data, then the other. -/
def Wire.UtMetadataData.copyToSlice {ε : Type} (d : UtMetadataData) (out : ByteBuf) :
    Outcome ε ByteBuf :=
  if out.length < d.data0.length then .abort .outOfBounds
  else if out.length < d.data0.length + d.data1.length then .abort .outOfBounds
  else .ok (splice (splice out 0 d.data0) d.data0.length d.data1)

structure HandlerLocked where
  metadataSize : UInt32
  totalPieces : ℕ
  buffer : ByteBuf
  receivedPieces : List Bool
  deriving DecidableEq

namespace HandlerLocked

def new (metadataSize : UInt32) : Outcome PeerInfoError HandlerLocked :=
  if 32 * 1024 * 1024 < metadataSize.toNat then .err (.metadataTooBig metadataSize)
  else do
    let totalPieces ← divCeil metadataSize.toNat chunkSize
    return {
      metadataSize
      totalPieces
      buffer := List.replicate metadataSize.toNat 0
      receivedPieces := List.replicate totalPieces false }

variable (l : HandlerLocked)

def pieceSize (index : UInt32) : Outcome PeerInfoError ℕ := do
  let last ← checkedSub l.totalPieces 1
  if index.toNat = last then lastElementSize l.metadataSize.toNat chunkSize else return chunkSize

/-- A slice of the buffer is taken and the data copied to it. -/
def copyFrom (d : UtMetadataData) (offset : ℕ) : Outcome PeerInfoError ByteBuf :=
  if l.buffer.length < offset + d.len then .abort .outOfBounds
  else do
    let out ← d.copyToSlice ((l.buffer.drop offset).take d.len)
    return splice l.buffer offset out

/-- `record_piece`, up to the point where the piece is in the buffer. -/
def fill (d : UtMetadataData) : Outcome PeerInfoError HandlerLocked :=
  if l.totalPieces ≤ d.piece.toNat then .err .wrongIndex
  else do
    let offset ← checkedMul32 d.piece.toNat chunkSize
    let size ← l.pieceSize d.piece
    if d.len ≠ size then .err (.wrongLength d.piece size d.len)
    else
      match l.receivedPieces[d.piece.toNat]? with
      | none => .abort .outOfBounds
      | some true => .err (.alreadyReceived d.piece)
      | some false =>
        let buffer ← l.copyFrom d offset
        return { l with buffer, receivedPieces := l.receivedPieces.set d.piece.toNat true }

/-- `record_piece`: whether the piece was the last one missing. -/
def recordPiece (sha1 : ByteBuf → ByteBuf) (d : UtMetadataData) (infoHash : ByteBuf) :
    HandlerLocked × Outcome PeerInfoError Bool :=
  match l.fill d with
  | .ok l' =>
    (l', if l'.receivedPieces.all id then
        if sha1 l'.buffer ≠ infoHash then .err .checksumInvalid else .ok true
      else .ok false)
  | .err e => (l, .err e)
  | .abort f => (l, .abort f)

end HandlerLocked

/-! ## The handler -/

/-- The handshake of the protocol. -/
structure Wire.Handshake where
  reserved : UInt64
  infoHash : ByteBuf
  peerId : ByteBuf
  deriving DecidableEq

/-- `reserved.to_be_bytes()[5] & 0x10 > 0` -/
def Wire.Handshake.supportsExtended (h : Handshake) : Bool :=
  (h.reserved >>> 16).toUInt8 &&& 0x10 > 0

/-- `Handler`, with what went out through its two channels; `Info` is what is parsed. -/
structure PeerInfoHandler (Info : Type) where
  infoHash : ByteBuf
  /-- What was sent through `writer_tx`… -/
  outgoing : List Message := []
  /-- …and whether anyone takes it. -/
  writerClosed : Bool := false
  /-- `result_tx` is still there… -/
  resultTx : Bool := true
  /-- …and so is who waits for the result. -/
  consumerClosed : Bool := false
  result : Option (Except DeError (Info × ByteBuf)) := none
  locked : Option HandlerLocked := none

namespace PeerInfoHandler

variable {Info : Type} (sha1 : ByteBuf → ByteBuf) (parse : ByteBuf → Except DeError Info)
  (h : PeerInfoHandler Info)

/-- The whole buffer, its hash checked, is parsed and the result handed over. -/
def report (buf : ByteBuf) : PeerInfoHandler Info × Outcome PeerInfoError Unit :=
  if !h.resultTx then (h, .err .oneshotConsumed)
  else if h.consumerClosed then ({ h with resultTx := false }, .err .consumerClosed)
  else ({ h with resultTx := false, result := some ((parse buf).map fun i => (i, buf)) }, .ok ())

def onReceivedMessage : Message → PeerInfoHandler Info × Outcome PeerInfoError Unit
  | .extended (.utMetadata (.data utdata)) =>
    match h.locked with
    | none => (h, .abort .unwrap)
    | some l =>
      match l.recordPiece sha1 utdata h.infoHash with
      | (l', .ok true) => { h with locked := none }.report parse l'.buffer
      | (l', .ok false) => ({ h with locked := some l' }, .ok ())
      | (l', .err e) => ({ h with locked := some l' }, .err e)
      | (l', .abort f) => ({ h with locked := some l' }, .abort f)
  | _ => (h, .ok ())

/-- The piece numbers, at most 2048 of them, fit their type. -/
def requests (totalPieces : ℕ) : List Message :=
  (List.range totalPieces).map fun i => .extended (.utMetadata (.request (.ofNat i)))

def onExtendedHandshake (hs : ExtendedHandshake) :
    PeerInfoHandler Info × Outcome PeerInfoError Unit :=
  match hs.metadataSize with
  | none => (h, .err .noMetadataSize)
  | some metadataSize =>
    if hs.m.utMetadata.isNone then (h, .err .noUtMetadata)
    else if h.writerClosed then (h, .err .channelClosed)
    else
      let h := { h with outgoing := h.outgoing ++ [.unchoke, .interested] }
      match HandlerLocked.new metadataSize with
      | .ok inner =>
        ({ h with
          locked := some inner, outgoing := h.outgoing ++ requests inner.totalPieces }, .ok ())
      | .err e => (h, .err e)
      | .abort f => (h, .abort f)

end PeerInfoHandler

/-! ## Connections -/

/-- What was written into one buffer. -/
structure Fill where
  size : ℕ
  blocks : List (ℕ × ByteBuf) := []
  deriving DecidableEq

namespace Fill

variable (f : Fill)

def pieces : ℕ := f.size ⌈/⌉ chunkSize

/-- The length of a piece. -/
def lengthOf (i : ℕ) : ℕ := min (f.size - chunkSize * i) chunkSize

def indices : List ℕ := f.blocks.map Prod.fst

/-- One more block is written. -/
def write (i : ℕ) (block : ByteBuf) : Fill := { f with blocks := f.blocks ++ [(i, block)] }

/-- The bytes of the buffer. -/
def content : ByteBuf :=
  f.blocks.foldl (fun buf b => splice buf (chunkSize * b.1) b.2) (List.replicate f.size 0)

/-- **Each piece was filled at most once, with a block of just its length.** -/
def Proper : Prop := f.indices.Nodup ∧ ∀ b ∈ f.blocks, b.1 < f.pieces ∧ b.2.length = f.lengthOf b.1

/-- Every piece was received. -/
def Whole : Prop := ∀ i < f.pieces, i ∈ f.indices

end Fill

/-- The buffer is the one that `f` was written into. -/
structure HandlerLocked.Holds (l : HandlerLocked) (f : Fill) : Prop where
  size : l.metadataSize.toNat = f.size
  small : f.size ≤ 32 * 1024 * 1024
  pieces : l.totalPieces = f.pieces
  buffer : l.buffer = f.content
  received : l.receivedPieces = (List.range f.pieces).map fun i => decide (i ∈ f.indices)

inductive Phase where
  /-- The handshake of the peer is awaited. -/
  | connecting
  | reading
  | closed (e : PeerInfoError)
  | panicked (f : Fault)
  deriving DecidableEq

def Phase.ofOutcome : Outcome PeerInfoError Unit → Phase
  | .ok () => .reading
  | .err e => .closed e
  | .abort f => .panicked f

/-- A connection to a peer that the info is read from. -/
structure Download (Info : Type) where
  peerId : ByteBuf
  handler : PeerInfoHandler Info
  phase : Phase := .connecting
  /-- What was written into the buffers so far, the last one first.  No step looks at it. -/
  fills : List Fill := []

/-- What a connection waits for. -/
inductive Download.Event where
  | handshake (h : Handshake)
  | message (m : Message)
  /-- The other ends of the two channels go away. -/
  | writerCloses
  | consumerCloses

namespace Download

variable {Info : Type} (sha1 : ByteBuf → ByteBuf) (parse : ByteBuf → Except DeError Info)
  (s : Download Info)

def onHandshake (h : Handshake) : Outcome PeerInfoError Unit :=
  if h.infoHash ≠ s.handler.infoHash then .err .wrongInfoHash
  else if h.peerId = s.peerId then .err .connectingToOurselves
  else if !h.supportsExtended then .err .notExtended
  else .ok ()

/-- What a message writes into the buffers. -/
def fillsAfter : Message → List Fill
  | .extended (.handshake hs) =>
    match (s.handler.onExtendedHandshake hs).2, hs.metadataSize with
    | .ok (), some size => { size := size.toNat } :: s.fills
    | _, _ => s.fills
  | .extended (.utMetadata (.data d)) =>
    match s.handler.locked, s.fills with
    | some l, f :: fs =>
      match l.fill d with
      | .ok _ => f.write d.piece.toNat (d.data0 ++ d.data1) :: fs
      | _ => f :: fs
    | _, fs => fs
  | _ => s.fills

/-- The handler gets a message. -/
def handle (m : Message) : PeerInfoHandler Info × Outcome PeerInfoError Unit :=
  match m with
  | .extended (.handshake hs) => s.handler.onExtendedHandshake hs
  | m => s.handler.onReceivedMessage sha1 parse m

/-- The state after a message. -/
def received (m : Message) : Download Info :=
  { s with
    handler := (s.handle sha1 parse m).1
    phase := .ofOutcome (s.handle sha1 parse m).2
    fills := s.fillsAfter m }

def step : Event → Option (Download Info)
  | .handshake h =>
    match s.phase with
    | .connecting => some { s with phase := .ofOutcome (s.onHandshake h) }
    | _ => none
  | .message m =>
    match s.phase with
    | .reading => some (s.received sha1 parse m)
    | _ => none
  | .writerCloses => some { s with handler := { s.handler with writerClosed := true } }
  | .consumerCloses => some { s with handler := { s.handler with consumerClosed := true } }

/-- The connection as it is opened. -/
def opened (infoHash peerId : ByteBuf) : Download Info where
  peerId
  handler := { infoHash }

/-- The handler has not panicked. -/
def Returns : Prop := ∀ f, s.phase ≠ .panicked f

/-- A piece finds a buffer. -/
def FindsBuffer : Event → Prop
  | .message (.extended (.utMetadata (.data _))) => s.handler.locked ≠ none
  | _ => True

/-- **What the peer cannot spoil**: every buffer was filled properly, the present one holds what was
written into it, and a result is parsed from a whole buffer with the right hash. -/
structure Sound : Prop where
  proper : ∀ f ∈ s.fills, f.Proper
  held : ∀ l ∈ s.handler.locked, ∃ f fs, s.fills = f :: fs ∧ l.Holds f
  reported : ∀ r ∈ s.handler.result, ∃ f ∈ s.fills,
    f.Whole ∧ sha1 f.content = s.handler.infoHash ∧
      r = (parse f.content).map fun i => (i, f.content)

end Download

/-! ## The buffer holds what was written into it -/

namespace Fill

variable {f : Fill}

lemma content_write (f : Fill) (i : ℕ) (block : ByteBuf) :
    (f.write i block).content = splice f.content (chunkSize * i) block := by
  rw [content, write, foldl_append]
  rfl

lemma indices_write (f : Fill) (i : ℕ) (block : ByteBuf) :
    (f.write i block).indices = f.indices ++ [i] := map_append

/-- A piece lies in the buffer. -/
lemma mul_add_lengthOf_le {i} (hi : i < f.pieces) :
    chunkSize * i + f.lengthOf i ≤ f.size := by
  have hlt : chunkSize * i < f.size := (lt_ceilDiv_iff_mul_lt (by decide)).mp hi
  have hle : f.lengthOf i ≤ f.size - chunkSize * i := min_le_left _ _
  omega

lemma Proper.write {i block} (h : f.Proper) (hi : i < f.pieces)
    (hlen : block.length = f.lengthOf i) (hnew : i ∉ f.indices) : (f.write i block).Proper := by
  refine ⟨?_, fun b hb => ?_⟩
  · rw [indices_write]
    exact nodup_append.mpr
      ⟨h.1, nodup_singleton i, fun a ha b hb => by
        rw [mem_singleton.mp hb]
        rintro rfl
        exact hnew ha⟩
  · rcases mem_append.mp hb with hold | hold
    · exact h.2 b hold
    · rw [mem_singleton.mp hold]
      exact ⟨hi, hlen⟩

lemma Proper.length_content (h : f.Proper) : f.content.length = f.size := by
  have hfold : ∀ (blocks : List (ℕ × ByteBuf)) (buf : ByteBuf), buf.length = f.size →
      (∀ b ∈ blocks, b.1 < f.pieces ∧ b.2.length = f.lengthOf b.1) →
      (blocks.foldl (fun buf b => splice buf (chunkSize * b.1) b.2) buf).length = f.size := by
    intro blocks
    induction blocks with
    | nil => exact fun buf hbuf _ => hbuf
    | cons b blocks ih =>
      intro buf hbuf hblocks
      obtain ⟨hb, hlen⟩ := hblocks b mem_cons_self
      have hend := mul_add_lengthOf_le hb
      refine ih _ ?_ fun c hc => hblocks c (mem_cons_of_mem b hc)
      rw [length_splice (by omega), hbuf]
  exact hfold f.blocks _ length_replicate h.2

end Fill

lemma Wire.UtMetadataData.copyToSlice_eq {ε : Type} {d : UtMetadataData} {out}
    (h : out.length = d.len) :
    (d.copyToSlice out : Outcome ε ByteBuf) = .ok (d.data0 ++ d.data1) := by
  have hlen : out.length = d.data0.length + d.data1.length := h
  have hjoin := @splice_splice _ out 0 d.data0 d.data1 (by rw [length_append]; omega)
  rw [Nat.zero_add] at hjoin
  rw [copyToSlice, if_neg (by omega), if_neg (by omega), hjoin, splice, drop_eq_nil_of_le]
  · rw [take_zero, nil_append, append_nil]
  · rw [length_append]
    omega

namespace HandlerLocked

variable {l : HandlerLocked} {f : Fill} {d : UtMetadataData}

lemma copyFrom_eq {offset} (h : offset + d.len ≤ l.buffer.length) :
    l.copyFrom d offset = .ok (splice l.buffer offset (d.data0 ++ d.data1)) := by
  have hout : ((l.buffer.drop offset).take d.len).length = d.len := by
    rw [length_take, length_drop]
    omega
  rw [copyFrom, if_neg (by omega), UtMetadataData.copyToSlice_eq hout]
  rfl

/-- A new buffer. -/
lemma Holds.new {size} (h : HandlerLocked.new size = .ok l) :
    l.Holds { size := size.toNat } := by
  rw [HandlerLocked.new] at h
  split at h
  · cases h
  · rename_i hsmall
    cases h
    refine ⟨rfl, Nat.le_of_not_lt hsmall, rfl, rfl, ?_⟩
    simp [Fill.pieces, Fill.indices]

lemma returns_new (size : UInt32) : (HandlerLocked.new size).Returns := by
  rw [HandlerLocked.new]
  split
  · exact returns_err _
  · rw [divCeil]
    exact returns_ok _

variable (h : l.Holds f)
include h

/-- **The length a piece must have**, the last one included. -/
theorem Holds.pieceSize_eq {index} (hi : index.toNat < f.pieces) :
    l.pieceSize index = .ok (f.lengthOf index.toNat) := by
  have hchunk : 0 < chunkSize := by decide
  have hpos : 0 < f.size := by
    have := (lt_ceilDiv_iff_mul_lt hchunk).mp hi
    omega
  obtain ⟨k, hk, hlast⟩ := Lengths.exists_lastElementSize hchunk hpos
  have hmod := Nat.mod_lt f.size hchunk
  rw [Fill.pieces] at hi
  rw [pieceSize, h.pieces, Fill.pieces, hk, checkedSub, if_neg (by omega), Nat.add_sub_cancel,
    ok_bind, Fill.lengthOf]
  by_cases hend : index.toNat = k
  · rw [if_pos hend, hend, h.size, lastElementSize, checkedRem, if_neg (by decide), ok_bind]
    rw [Nat.mul_comm] at hlast
    split at hlast
    · rename_i hzero
      rw [if_pos hzero, min_eq_right (by omega)]
      rfl
    · rename_i hzero
      rw [if_neg hzero]
      exact congrArg ok (by omega)
  · -- all pieces before the last one are full
    have hfull : chunkSize * (index.toNat + 1) ≤ chunkSize * k := Nat.mul_le_mul_left _ (by omega)
    rw [Nat.mul_succ] at hfull
    rw [if_neg hend, min_eq_right (by rw [Nat.mul_comm] at hlast; omega)]
    rfl

/-- **What becomes of a piece that comes**: it is refused, or written into the buffer. -/
theorem Holds.fill_eq (hf : f.Proper) (d : UtMetadataData) : l.fill d =
      if f.pieces ≤ d.piece.toNat then .err .wrongIndex
      else if d.len ≠ f.lengthOf d.piece.toNat then
        .err (.wrongLength d.piece (f.lengthOf d.piece.toNat) d.len)
      else if d.piece.toNat ∈ f.indices then .err (.alreadyReceived d.piece)
      else .ok { l with
        buffer := (f.write d.piece.toNat (d.data0 ++ d.data1)).content
        receivedPieces := l.receivedPieces.set d.piece.toNat true } := by
  rw [fill, h.pieces]
  split
  · rfl
  · rename_i hindex
    rw [not_le] at hindex
    have hstart := (lt_ceilDiv_iff_mul_lt (by decide)).mp hindex
    have hsmall := h.small
    rw [checkedMul32, Nat.mul_comm, if_pos (by omega), ok_bind, h.pieceSize_eq hindex, ok_bind]
    split
    · rfl
    · rename_i hlen
      have hbit : l.receivedPieces[d.piece.toNat]? = some (decide (d.piece.toNat ∈ f.indices)) := by
        rw [h.received, getElem?_map, getElem?_range hindex]
        rfl
      have hend := Fill.mul_add_lengthOf_le hindex
      have hbuf : chunkSize * d.piece.toNat + d.len ≤ l.buffer.length := by
        rw [h.buffer, hf.length_content]
        omega
      rw [hbit]
      by_cases hmem : d.piece.toNat ∈ f.indices
      · rw [if_pos hmem, decide_eq_true hmem]
      · rw [if_neg hmem, decide_eq_false hmem, copyFrom_eq hbuf, Fill.content_write, h.buffer]
        rfl

/-- A piece that was not refused. -/
lemma Holds.fill_eq_ok {l'} (hf : f.Proper) (hfill : l.fill d = .ok l') :
    d.piece.toNat < f.pieces ∧ d.piece.toNat ∉ f.indices ∧
      (f.write d.piece.toNat (d.data0 ++ d.data1)).Proper ∧
      l'.Holds (f.write d.piece.toNat (d.data0 ++ d.data1)) := by
  rw [h.fill_eq hf] at hfill
  split at hfill
  · cases hfill
  split at hfill
  · cases hfill
  split at hfill
  · cases hfill
  rename_i hindex hlen hnew
  rw [not_le] at hindex
  rw [not_not] at hlen
  cases hfill
  refine ⟨hindex, hnew, hf.write hindex (by rw [length_append]; exact hlen) hnew,
    h.size, h.small, h.pieces, rfl, ?_⟩
  -- one more bit is set
  rw [h.received]
  refine ext_getElem? fun i => ?_
  rw [Fill.indices_write, getElem?_set, getElem?_map, getElem?_map, length_map, length_range]
  change _ = ((List.range f.pieces)[i]?).map _
  by_cases hi : d.piece.toNat = i
  · rw [if_pos hi, if_pos (by omega), getElem?_range (by omega)]
    simp [hi]
  rw [if_neg hi]
  refine Option.map_congr fun j hj => ?_
  obtain rfl : i = j := by
    rw [List.getElem?_eq_some_iff] at hj
    obtain ⟨hlt, hj⟩ := hj
    rwa [getElem_range] at hj
  simp [Ne.symm hi]

lemma Holds.returns_fill (hf : f.Proper) (d : UtMetadataData) :
    (l.fill d).Returns := by
  rw [h.fill_eq hf]
  split
  · exact returns_err _
  split
  · exact returns_err _
  split
  · exact returns_err _
  · exact returns_ok _

/-- Every bit is set when every piece was received. -/
lemma Holds.whole (hall : l.receivedPieces.all id) : f.Whole := by
  intro i hi
  rw [h.received, all_map, all_eq_true] at hall
  exact of_decide_eq_true (hall i (mem_range.mpr hi))

end HandlerLocked

/-! ## Every message leaves the download sound -/

namespace Download

variable {Info : Type} {sha1 : ByteBuf → ByteBuf} {parse : ByteBuf → Except DeError Info}
  {s s' : Download Info}

lemma sound_opened (infoHash peerId : ByteBuf) :
    (opened infoHash peerId : Download Info).Sound sha1 parse where
  proper _ hf := absurd hf not_mem_nil
  held _ hl := by cases hl
  reported _ hr := by cases hr

/-- **How an extended handshake ends**: with a new buffer, or with an error. -/
theorem onExtendedHandshake_cases (h : PeerInfoHandler Info) (hs : ExtendedHandshake) :
    (∃ size inner outgoing, hs.metadataSize = some size ∧ HandlerLocked.new size = .ok inner ∧
      h.onExtendedHandshake hs = ({ h with outgoing, locked := some inner }, .ok ())) ∨
    ∃ e outgoing, h.onExtendedHandshake hs = ({ h with outgoing }, .err e) := by
  rw [PeerInfoHandler.onExtendedHandshake]
  cases hsize : hs.metadataSize with
  | none => exact .inr ⟨_, h.outgoing, rfl⟩
  | some size =>
    dsimp only
    split
    · exact .inr ⟨_, h.outgoing, rfl⟩
    split
    · exact .inr ⟨_, h.outgoing, rfl⟩
    cases hnew : HandlerLocked.new size with
    | ok inner => exact .inl ⟨size, inner, _, rfl, hnew, rfl⟩
    | err e => exact .inr ⟨e, _, rfl⟩
    | abort f => exact absurd hnew (HandlerLocked.returns_new size f)

section

variable (h : s.Sound sha1 parse)
include h

/-- Steps that leave the buffer, the result and what was written alone. -/
lemma Sound.congr (hlocked : s'.handler.locked = s.handler.locked)
    (hresult : s'.handler.result = s.handler.result)
    (hhash : s'.handler.infoHash = s.handler.infoHash) (hfills : s'.fills = s.fills) :
    s'.Sound sha1 parse where
  proper := hfills ▸ h.proper
  held := by
    rw [hlocked, hfills]
    exact h.held
  reported := by
    rw [hresult, hfills, hhash]
    exact h.reported

lemma Sound.handshake (hs : ExtendedHandshake) :
    (s.received sha1 parse (.extended (.handshake hs))).Sound sha1 parse ∧
      (s.received sha1 parse (.extended (.handshake hs))).Returns := by
  rw [received, handle, fillsAfter]
  rcases onExtendedHandshake_cases s.handler hs with
    ⟨size, inner, outgoing, hsize, hnew, heq⟩ | ⟨e, outgoing, heq⟩
  · rw [heq, hsize]
    refine ⟨⟨fun f hf => ?_, ?_, fun r hr => ?_⟩, fun f hf => by cases hf⟩
    · rcases mem_cons.mp hf with rfl | hf
      · exact ⟨nodup_nil, fun b hb => absurd hb not_mem_nil⟩
      · exact h.proper f hf
    · rintro l ⟨⟩
      exact ⟨_, _, rfl, .new hnew⟩
    · obtain ⟨f, hf, hwhole⟩ := h.reported r hr
      exact ⟨f, mem_cons_of_mem _ hf, hwhole⟩
  · rw [heq]
    exact ⟨h.congr rfl rfl rfl rfl, fun f hf => by cases hf⟩

/-- A block more in the present buffer: the download stays sound if the buffer is kept or given up
with nothing reported… -/
lemma Sound.write {l l' : HandlerLocked} {d f fs}
    (hfills : s.fills = f :: fs) (hholds : l.Holds f) (hfill : l.fill d = .ok l')
    (hfills' : s'.fills = f.write d.piece.toNat (d.data0 ++ d.data1) :: fs)
    (hhash : s'.handler.infoHash = s.handler.infoHash) (hlocked : ∀ k ∈ s'.handler.locked, k = l')
    (hresult : ∀ r ∈ s'.handler.result, r ∈ s.handler.result ∨
      l'.receivedPieces.all id ∧ sha1 l'.buffer = s.handler.infoHash ∧
      r = (parse l'.buffer).map fun i => (i, l'.buffer)) :
    s'.Sound sha1 parse := by
  have hf : f.Proper := h.proper f (hfills ▸ mem_cons_self)
  obtain ⟨hi, hnew, hproper, hholds'⟩ := hholds.fill_eq_ok hf hfill
  refine ⟨fun g hg => ?_, fun k hk => ?_, fun r hr => ?_⟩
  · rw [hfills'] at hg
    rcases mem_cons.mp hg with rfl | hg
    · exact hproper
    · exact h.proper g (hfills ▸ mem_cons_of_mem f hg)
  · rw [hlocked k hk]
    exact ⟨_, fs, hfills', hholds'⟩
  · rw [hfills', hhash]
    rcases hresult r hr with hold | ⟨hall, hsha, rfl⟩
    · obtain ⟨g, hg, hwhole, hrest⟩ := h.reported r hold
      rw [hfills] at hg
      rcases mem_cons.mp hg with rfl | hg
      · exact absurd (hwhole _ hi) hnew
      · exact ⟨g, mem_cons_of_mem _ hg, hwhole, hrest⟩
    · rw [hholds'.buffer] at hsha ⊢
      exact ⟨_, mem_cons_self, hholds'.whole hall, hsha, rfl⟩

lemma Sound.data {l} (hl : s.handler.locked = some l) (d : UtMetadataData) :
    (s.received sha1 parse (.extended (.utMetadata (.data d)))).Sound sha1 parse ∧
      (s.received sha1 parse (.extended (.utMetadata (.data d)))).Returns := by
  obtain ⟨f, fs, hfills, hholds⟩ := h.held l hl
  have hf : f.Proper := h.proper f (hfills ▸ mem_cons_self)
  rw [received, handle, fillsAfter, PeerInfoHandler.onReceivedMessage, hl, hfills]
  · dsimp only
    rw [HandlerLocked.recordPiece]
    cases hfill : l.fill d with
    | abort e => exact absurd hfill (hholds.returns_fill hf d e)
    | err e => exact ⟨h.congr hl.symm rfl rfl hfills.symm, fun f hf => by cases hf⟩
    | ok l' =>
      dsimp only
      by_cases hall : l'.receivedPieces.all id
      · rw [if_pos hall]
        by_cases hsha : sha1 l'.buffer = s.handler.infoHash
        · rw [if_neg (not_not.mpr hsha)]
          dsimp only [PeerInfoHandler.report]
          split
          · exact ⟨h.write hfills hholds hfill rfl rfl (fun k hk => by cases hk)
              fun r hr => .inl hr, fun f hf => by cases hf⟩
          split
          · exact ⟨h.write hfills hholds hfill rfl rfl (fun k hk => by cases hk)
              fun r hr => .inl hr, fun f hf => by cases hf⟩
          refine ⟨h.write hfills hholds hfill rfl rfl (fun k hk => by cases hk) ?_,
            fun f hf => by cases hf⟩
          rintro r ⟨⟩
          exact .inr ⟨hall, hsha, rfl⟩
        · rw [if_pos hsha]
          refine ⟨h.write hfills hholds hfill rfl rfl ?_ fun r hr => .inl hr,
            fun f hf => by cases hf⟩
          rintro k ⟨⟩
          rfl
      · rw [if_neg hall]
        refine ⟨h.write hfills hholds hfill rfl rfl ?_ fun r hr => .inl hr, fun f hf => by cases hf⟩
        rintro k ⟨⟩
        rfl
  · intro hs hne
    cases hne

/-- A message that is neither a handshake nor data. -/
lemma Sound.other {m} (hhandle : s.handle sha1 parse m = (s.handler, .ok ()))
    (hfills : s.fillsAfter m = s.fills) :
    (s.received sha1 parse m).Sound sha1 parse ∧ (s.received sha1 parse m).Returns := by
  rw [received, hhandle, hfills]
  exact ⟨h.congr rfl rfl rfl rfl, fun f hf => by cases hf⟩

/-- **A step lemma**: a message that is not data for which there is no buffer. -/
theorem Sound.received {m} (hbuf : s.FindsBuffer (.message m)) :
    (s.received sha1 parse m).Sound sha1 parse ∧ (s.received sha1 parse m).Returns := by
  cases m with
  | extended e =>
    cases e with
    | handshake hs => exact h.handshake hs
    | utMetadata u =>
      cases u with
      | data d =>
        obtain ⟨l, hl⟩ := Option.ne_none_iff_exists'.mp hbuf
        exact h.data hl d
      | _ => exact h.other rfl rfl
    | _ => exact h.other rfl rfl
  | _ => exact h.other rfl rfl

end

/-- …and one that is. -/
lemma received_of_not_findsBuffer (sha1 : ByteBuf → ByteBuf)
    (parse : ByteBuf → Except DeError Info) {m} (hbuf : ¬ s.FindsBuffer (.message m)) :
    s.received sha1 parse m = { s with phase := .panicked .unwrap } := by
  unfold FindsBuffer at hbuf
  split at hbuf
  · rename_i d heq
    obtain rfl := Event.message.inj heq
    have hnone : s.handler.locked = none := not_not.mp hbuf
    rw [Download.received, handle, fillsAfter, PeerInfoHandler.onReceivedMessage, hnone]
    · rfl
    · intro hs hne
      cases hne
  · exact absurd trivial hbuf

lemma returns_onHandshake (s : Download Info) (hs : Handshake) :
    Returns { s with phase := .ofOutcome (s.onHandshake hs) } := by
  rw [onHandshake]
  intro f hf
  split at hf
  · cases hf
  split at hf
  · cases hf
  split at hf <;> cases hf

/-- **A step keeps the download sound, and makes the handler panic exactly when a piece finds no
buffer.** -/
theorem sound_step {a} (h : s.Sound sha1 parse) (hstep : s.step sha1 parse a = some s') :
    s'.Sound sha1 parse ∧ (s.Returns → (s'.Returns ↔ s.FindsBuffer a)) := by
  cases a with
  | handshake hs =>
    rw [step] at hstep
    split at hstep <;> cases hstep
    exact ⟨h.congr rfl rfl rfl rfl, fun _ => iff_true_intro (returns_onHandshake s hs)⟩
  | message m =>
    rw [step] at hstep
    split at hstep <;> cases hstep
    by_cases hbuf : s.FindsBuffer (.message m)
    · exact (h.received hbuf).imp_right fun hret _ => iff_of_true hret hbuf
    · rw [received_of_not_findsBuffer sha1 parse hbuf]
      exact ⟨h.congr rfl rfl rfl rfl, fun _ => iff_of_false (fun hret => hret .unwrap rfl) hbuf⟩
  | writerCloses | consumerCloses =>
    cases hstep
    exact ⟨h.congr rfl rfl rfl rfl, fun hret => iff_true_intro hret⟩

/-- **The metadata handler panics exactly when a piece finds no buffer**: none was installed yet, or
the info was complete.  Whatever the peer sends, the download is sound. -/
theorem returns_iff_findsBuffer (sha1 : ByteBuf → ByteBuf) (parse : ByteBuf → Except DeError Info)
    (infoHash peerId : ByteBuf) (as : List Event) :
    (Always (step sha1 parse) Returns (opened infoHash peerId) as ↔
      Along (step sha1 parse) FindsBuffer (opened infoHash peerId) as) ∧
    Always (step sha1 parse) (Sound sha1 parse) (opened infoHash peerId) as :=
  ⟨always_iff_along_of_invariant (fun _ _ _ h hstep => (sound_step h hstep).1)
      (fun _ _ _ h hret hstep => (sound_step h hstep).2 hret) (sound_opened infoHash peerId)
      (fun f hf => by cases hf) as,
    always_of_step (fun _ _ _ h hstep => (sound_step h hstep).1) (sound_opened infoHash peerId) as⟩

/-- A peer sends the one byte of a one-byte info before it says how long the info is. -/
theorem not_returns_early_data :
    ¬ Always (step (fun _ => [0]) fun _ => .ok ()) Returns (opened [0] [1])
      [.handshake { reserved := 0x100000, infoHash := [0], peerId := [2] },
        .message (.extended (.utMetadata (.data
          { piece := 0, totalSize := 1, data0 := [0], data1 := [] })))] := by
  intro h
  exact (h.2 _ rfl).2 _ rfl .unwrap rfl

end Download

end Librtbit
