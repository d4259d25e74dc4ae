import Librtbit.Live.PeerPieces
import Librtbit.Live.UploadSlots
import Librtbit.Machinery.Broadcast
import Librtbit.Tracker.Counters

/-!
# Live/Advertise — telling a peer the pieces we have

A peer learns of our pieces in two ways.  When its connection starts, the writer sends a bit field
of what we have by then; and every piece that is completed is broadcast to the connections, whose
writers pass it on as a `Have`.  The connection subscribes to the broadcast before it looks at the
pieces, and a piece is marked, counted and only then broadcast, so that none falls between the two:
a piece that was broadcast before the subscription has been counted, and then there is a bit field
with it.

What falls through does so later.  The receiver loses what comes while it is full, which it gets
while the writer waits for a slot to upload; and `should_transmit_have` takes a peer that has not
sent a bit field for one that has every piece.  `complete_of_orderly` says that there is nothing
else.

The torrent is live throughout.  The entry of the peer in the map of peers is changed by other tasks
as well; all that matters here is what it has for the bits of the peer, if the peer is live
(`EntryChange`).
-/

namespace Librtbit

open Machinery List Option

variable {L : Lengths}

/-! ## The writer and what surrounds it -/

/-- The number of values `have_broadcast_tx` holds. -/
def haveBroadcastCapacity : ℕ := 128

/-- What the writer has taken to send. -/
inductive Outgoing (L : Lengths) where
  | have_ (p : ValidPieceIndex L)
  | request (r : WriterRequest L)

/-- Where a connection is that is about to tell our pieces. -/
inductive WriterStage (L : Lengths) where
  | absent
  /-- Subscribed; the handshakes are under way. -/
  | connecting
  /-- The writer is about to ask whether there is a bit field to send… -/
  | starting
  /-- …and is about to make it… -/
  | serializing
  /-- …and writes it. -/
  | writingBitfield (bits : PieceBits L)
  | choking
  | waiting
  | unchoking
  /-- In the `select!` of the loop. -/
  | idle
  | writing (w : Outgoing L)
  | closed

/-- A live torrent, a peer, and the connection to it. -/
structure Advertising (L : Lengths) where
  havePieces : PieceBits L
  /-- `have_bytes` of the statistics. -/
  haveBytes : ℕ
  /-- Pieces that are marked downloaded, and not counted yet. -/
  marked : List (ValidPieceIndex L) := []
  /-- Pieces that are counted, and not broadcast yet. -/
  counted : List (ValidPieceIndex L) := []
  /-- The peer, if its entry is live. -/
  live : Option (LivePeerState L) := none
  stage : WriterStage L := .absent
  /-- `have_broadcast` -/
  haves : Receiver (ValidPieceIndex L) := {}
  outgoingChan : List (WriterRequest L) := []
  /-- What the peer has told us of its pieces. -/
  heard : List PieceMessage := []
  /-- The pieces that were written to the peer, in a bit field or a `Have`. -/
  advertised : List (ValidPieceIndex L) := []

inductive AdvertiseStep (L : Lengths) where
  /-- A piece whose hash is right is marked downloaded, by the connection to any peer… -/
  | record (p : ValidPieceIndex L)
  /-- …and counted… -/
  | count (p : ValidPieceIndex L)
  /-- …and broadcast, after `on_piece_completed`. -/
  | transmit (p : ValidPieceIndex L)
  /-- Another task changes the entry of the peer. -/
  | entry (live : Option (LivePeerState L))
  /-- The peer tells its pieces. -/
  | message (m : PieceMessage)
  | enqueue (r : WriterRequest L)
  | subscribe
  /-- The handshake, with whether the entry of the peer is still `Connecting`. -/
  | handshake (connecting : Bool)
  | shouldSendBitfield
  | serializeBitfield
  | wroteBitfield
  | wroteChoke
  | slot
  | wroteUnchoke
  | recvHave
  | recvOutgoing
  | keepAlive
  | wrote
  | close

namespace AdvertiseStep

def isTransmit : AdvertiseStep L → Bool
  | .transmit _ => true
  | _ => false

def isRecvHave : AdvertiseStep L → Bool
  | .recvHave => true
  | _ => false

end AdvertiseStep

/-- `should_transmit_have` -/
def shouldTransmitHave (disableUpload : Bool) (live : Option (LivePeerState L))
    (id : ValidPieceIndex L) : Bool :=
  if disableUpload then false
  else !((live.map fun l => (l.bitfield[id.1]?).getD true).getD true)

/-- `should_send_bitfield` -/
def shouldSendBitfield (disableUpload : Bool) (approxHaveBytes : ℕ) : Bool :=
  if disableUpload then false else decide (0 < approxHaveBytes)

/-- **What other tasks make of an entry**: the peer is live with the bits it had, or with none as it
has just gone live, or it is not live. -/
def EntryChange (live live' : Option (LivePeerState L)) : Prop :=
  ∀ l' ∈ live', l'.bitfield = [] ∨ ∃ l ∈ live, l'.bitfield = l.bitfield
  deriving Decidable

namespace WriterStage

/-- The receiver is there. -/
def isSubscribed : WriterStage L → Bool
  | .absent | .closed => false
  | _ => true

def isIdle : WriterStage L → Bool
  | .idle => true
  | _ => false

end WriterStage

namespace Advertising

variable (disableUpload : Bool) (s : Advertising L)

/-- What the writer reads off the broadcast, in its loop. -/
def recvHave : Option (Advertising L) :=
  match s.haves.recv with
  | none => none
  | some (.lagged, haves) => some { s with haves }
  | some (.value id, haves) =>
    if shouldTransmitHave disableUpload s.live id then
      some { s with haves, stage := .writing (.have_ id) }
    else some { s with haves }

/-- What the writer has taken is written; a `Disconnect` ends it. -/
def wrote : Outgoing L → Advertising L
  | .have_ p => { s with stage := .idle, advertised := p :: s.advertised }
  | .request r => { s with stage := if r.isDisconnect then .closed else .idle }

/-- The peer tells its pieces, on this connection or another one; a bit field of an unexpected size
ends the connection. -/
def onMessage (m : PieceMessage) : Advertising L :=
  match (s.live.getD { peerInterested := false }).onReceivedMessage m with
  | none => { s with stage := .closed }
  | some live => { s with live := s.live.map fun _ => live, heard := m :: s.heard }

/-- A bit field has the pieces it has. -/
def wroteBitfield (bits : PieceBits L) : Advertising L :=
  { s with
    stage := .choking
    advertised := (List.finRange L.totalPieces).filter (fun p => bits.get p.1) ++ s.advertised }

/-- The steps of the connection. -/
def writerStep : WriterStage L → AdvertiseStep L → Option (Advertising L)
  | .absent, .subscribe => some { s with stage := .connecting, haves := {} }
  | .connecting, .handshake connecting =>
    some { s with
      stage := .starting
      live := if connecting then some { peerInterested := false } else s.live }
  | .starting, .shouldSendBitfield =>
    some { s with
      stage := if shouldSendBitfield disableUpload s.haveBytes then .serializing else .choking }
  | .serializing, .serializeBitfield => some { s with stage := .writingBitfield s.havePieces }
  | .writingBitfield bits, .wroteBitfield => some (s.wroteBitfield bits)
  | .choking, .wroteChoke => some { s with stage := .waiting }
  | .waiting, .slot => some { s with stage := .unchoking }
  | .unchoking, .wroteUnchoke => some { s with stage := .idle }
  | .idle, .recvHave => s.recvHave disableUpload
  | .idle, .recvOutgoing =>
    match s.outgoingChan with
    | [] => none
    | r :: outgoingChan => some { s with outgoingChan, stage := .writing (.request r) }
  | .idle, .keepAlive => some { s with stage := .writing (.request (.message .keepAlive)) }
  | .writing w, .wrote => some (s.wrote w)
  | _, _ => none

/-- **One step of the system.** -/
def step : AdvertiseStep L → Option (Advertising L)
  | .record p =>
    some { s with havePieces := s.havePieces.set p.1 true, marked := p :: s.marked }
  | .count p =>
    if p ∈ s.marked then
      some { s with
        marked := s.marked.erase p
        counted := p :: s.counted
        haveBytes := s.haveBytes + L.pieceLengthOf p }
    else none
  | .transmit p =>
    if p ∈ s.counted then
      some { s with
        counted := s.counted.erase p
        haves := if s.stage.isSubscribed then s.haves.push haveBroadcastCapacity p else s.haves }
    else none
  | .entry live => if EntryChange s.live live then some { s with live } else none
  | .message m => some (s.onMessage m)
  | .enqueue r => some { s with outgoingChan := s.outgoingChan ++ [r] }
  | .close => some { s with stage := .closed }
  | a => s.writerStep disableUpload s.stage a

/-- A live torrent that has some pieces, before the connection. -/
def start (havePieces : PieceBits L) : Advertising L where
  havePieces
  haveBytes := bytesOf fun p : ValidPieceIndex L => havePieces.get p.1

end Advertising

/-! ## What is asked -/

/-- The message says that the peer has the piece. -/
def PieceMessage.tells (m : PieceMessage) (p : ValidPieceIndex L) : Bool :=
  match m with
  | .bitfield b => (b[p.1 / 8]?).any fun byte => byte.toNat.testBit (7 - p.1 % 8)
  | .have_ index => decide (p.1 = index.toNat)
  | .haveAll => true
  | .haveNone => false

namespace Advertising

variable (s : Advertising L)

/-- The peer has told us that it has the piece. -/
def Told (p : ValidPieceIndex L) : Prop := ∃ m ∈ s.heard, m.tells p = true
  deriving Decidable

/-- The piece is marked downloaded, and its completion is not over yet. -/
def Completing (p : ValidPieceIndex L) : Prop := p ∈ s.marked ∨ p ∈ s.counted
  deriving Decidable

/-- The writer waits, and there is nothing for it to send. -/
def Idle : Prop := s.stage.isIdle = true ∧ s.haves.unread = [] ∧ s.outgoingChan.isEmpty = true
  deriving Decidable

/-- **The advertisement is complete**: when the writer has nothing to do, the peer has every piece
we have, or was told of it. -/
def Complete : Prop :=
  s.Idle → ∀ p : ValidPieceIndex L, s.havePieces.get p.1 = true → ¬ s.Completing p → ¬ s.Told p →
    p ∈ s.advertised
  deriving Decidable

end Advertising

/-- The piece is in what the writer is about to write, or in the bit field it will make. -/
def WriterStage.carries (stage : WriterStage L) (p : ValidPieceIndex L) : Bool :=
  match stage with
  | .absent | .connecting | .starting | .serializing | .closed => true
  | .writingBitfield bits => bits.get p.1
  | .writing (.have_ q) => decide (q = p)
  | .writing (.request _) | .choking | .waiting | .unchoking | .idle => false

namespace Advertising

/-- The peer has the piece, or was told of it, or is about to be. -/
def Accounted (s : Advertising L) (p : ValidPieceIndex L) : Prop :=
  s.Told p ∨ p ∈ s.advertised ∨ s.stage.carries p = true
  deriving Decidable

/-- **What a connection must not run into**: a piece broadcast to a receiver that is full, so that
the oldest is lost, and a piece read off the broadcast before the peer has a bit field; unless the
piece is accounted for. -/
def Orderly (s : Advertising L) (a : AdvertiseStep L) : Prop :=
  (a.isTransmit = true → s.stage.isSubscribed = true →
    haveBroadcastCapacity ≤ s.haves.unread.length →
    ∀ q ∈ s.haves.unread.head?, s.Accounted q) ∧
  (a.isRecvHave = true → s.haves.lagged = false → ∀ p ∈ s.haves.unread.head?,
      s.Accounted p ∨ s.live.any (fun live => p.1 < live.bitfield.length) = true)
  deriving Decidable

end Advertising

/-! ## The bits of a peer -/

variable {p : ValidPieceIndex L}

/-- **A bit that a message sets is one it tells of.** -/
theorem LivePeerState.bit_of_onReceivedMessage {live live' : LivePeerState L} {m : PieceMessage}
    (h : live.onReceivedMessage m = some live')
    (hbit : live'.bitfield[p.1]? = some true) :
    live.bitfield[p.1]? = some true ∨ m.tells p := by
  cases m with
  | bitfield b =>
    obtain ⟨-, rfl⟩ := onBitfield_eq_some.mp h
    obtain ⟨byte, hbyte, hset⟩ := hasPiece_fromBoxedSlice.mp (hasPiece_iff.mpr hbit)
    refine .inr ?_
    rw [PieceMessage.tells, hbyte]
    exact hset
  | have_ index =>
    cases h
    rw [onHave] at hbit
    rcases eq_or_ne index.toNat p.1 with heq | hne
    · exact .inr (decide_eq_true heq.symm)
    rw [getElem?_set_ne hne] at hbit
    split at hbit
    · rw [getElem?_replicate] at hbit
      split at hbit <;> cases hbit
    · exact .inl hbit
  | haveAll => exact .inr rfl
  | haveNone =>
    obtain ⟨-, rfl⟩ := onBitfield_eq_some.mp h
    cases (hasPiece_makePieceBitfield p).symm.trans (hasPiece_iff.mpr hbit)

/-- A peer that has a bit field is sent a `Have` unless it has the piece. -/
lemma bit_of_not_shouldTransmitHave {live}
    (h : shouldTransmitHave false (some live) p = false) (hp : p.1 < live.bitfield.length) :
    live.bitfield[p.1]? = some true := by
  rw [shouldTransmitHave, if_neg Bool.false_ne_true, map_some, getD_some,
    getElem?_eq_getElem hp, getD_some, Bool.not_eq_false'] at h
  rw [getElem?_eq_getElem hp, h]

/-! ## What is kept -/

namespace Advertising

/-- **No piece is forgotten**: the bits of the peer are told, a piece that is not counted is about
to be, and a piece whose completion is over is on its way or accounted for. -/
structure Kept (s : Advertising L) : Prop where
  bits : ∀ live, s.live = some live → ∀ p : ValidPieceIndex L,
    live.bitfield[p.1]? = some true → s.Told p
  counted : ∀ p : ValidPieceIndex L, s.havePieces.get p.1 = true →
    p ∈ s.marked ∨ 0 < s.haveBytes
  covered : ∀ p : ValidPieceIndex L, s.havePieces.get p.1 = true →
    s.Completing p ∨ p ∈ s.haves.unread ∨ s.Accounted p

lemma kept_start (hL : L.Exact) (havePieces : PieceBits L) : (start havePieces).Kept where
  bits := nofun
  counted p hp := by
    have hle := pieceLengthOf_le_bytesOf (f := fun p : ValidPieceIndex L => havePieces.get p.1) hp
    exact .inr ((hL.pieceLengthOf_pos p).trans_le hle)
  covered _ _ := .inr (.inr (.inr (.inr rfl)))

section Steps

variable {s s' : Advertising L}

lemma Kept.record (h : s.Kept) (q : ValidPieceIndex L) :
    Kept { s with havePieces := s.havePieces.set q.1 true, marked := q :: s.marked } := by
  have hold : ∀ p, (s.havePieces.set q.1 true).get p.1 →
      p = q ∨ s.havePieces.get p.1 := by
    intro p hp
    rcases eq_or_ne q p with rfl | hne
    · exact .inl rfl
    · rw [BitField.get_set_of_ne _ (fun heq => hne (Fin.ext heq))] at hp
      exact .inr hp
  refine ⟨h.bits, fun p hp => ?_, fun p hp => ?_⟩
  · rcases hold p hp with rfl | hp
    · exact .inl mem_cons_self
    · exact (h.counted p hp).imp_left (mem_cons_of_mem q)
  · rcases hold p hp with rfl | hp
    · exact .inl (.inl mem_cons_self)
    · exact (h.covered p hp).imp_left (Or.imp_left (mem_cons_of_mem q))

lemma Kept.count (hL : L.Exact) (h : s.Kept) (q : ValidPieceIndex L) : Kept { s with
      marked := s.marked.erase q
      counted := q :: s.counted
      haveBytes := s.haveBytes + L.pieceLengthOf q } := by
  have hpos := hL.pieceLengthOf_pos q
  refine ⟨h.bits, fun p _ => .inr (Nat.add_pos_right _ hpos), fun p hp => ?_⟩
  rcases h.covered p hp with (hmarked | hcounted) | hrest
  · rcases eq_or_ne p q with rfl | hne
    · exact .inl (.inr mem_cons_self)
    · exact .inl (.inl ((mem_erase_of_ne hne).mpr hmarked))
  · exact .inl (.inr (mem_cons_of_mem q hcounted))
  · exact .inr hrest

variable {stage : WriterStage L}

lemma carries_of_not_subscribed (h : stage.isSubscribed = false)
    (p : ValidPieceIndex L) : stage.carries p := by
  cases stage with
  | absent | closed => rfl
  | _ => cases h

variable (h : s.Kept)
include h

/-- **A piece that is broadcast is read, or was not waited for.** -/
theorem Kept.transmit (q : ValidPieceIndex L) (horderly : s.Orderly (.transmit q)) :
    Kept { s with
      counted := s.counted.erase q
      haves := if s.stage.isSubscribed then s.haves.push haveBroadcastCapacity q
        else s.haves } := by
  refine ⟨h.bits, h.counted, fun p hp => ?_⟩
  cases hsub : s.stage.isSubscribed with
  | false => exact .inr (.inr (.inr (.inr (carries_of_not_subscribed hsub p))))
  | true =>
    rcases h.covered p hp with (hmarked | hcounted) | hunread | haccounted
    · exact .inl (.inl hmarked)
    · rcases eq_or_ne p q with rfl | hne
      · exact .inr (.inl Receiver.mem_push_self)
      · exact .inl (.inr ((mem_erase_of_ne hne).mpr hcounted))
    · rcases Receiver.mem_push hunread with hunread | ⟨hfull, hhead⟩
      · exact .inr (.inl hunread)
      · exact .inr (.inr (horderly.1 rfl hsub hfull p hhead))
    · exact .inr (.inr haccounted)

lemma Kept.entry {live} (hlive : EntryChange s.live live) :
    Kept { s with live } := by
  refine ⟨fun l' hl' p hbit => ?_, h.counted, h.covered⟩
  rcases hlive l' hl' with hnil | ⟨l, hl, hsame⟩
  · rw [hnil] at hbit
    cases hbit
  · exact h.bits l hl p (hsame ▸ hbit)

lemma Kept.close : Kept { s with stage := .closed } :=
  ⟨h.bits, h.counted, fun _ _ => .inr (.inr (.inr (.inr rfl)))⟩

lemma Kept.onMessage (m : PieceMessage) : (s.onMessage m).Kept := by
  rw [Advertising.onMessage]
  split
  · exact h.close
  next live hlive =>
  -- what was told stays told
  have htold : ∀ p, s.Told p →
      ∃ m' ∈ m :: s.heard, m'.tells p := by
    rintro p ⟨m', hm', htells⟩
    exact ⟨m', mem_cons_of_mem m hm', htells⟩
  refine ⟨fun l' hl' p hbit => ?_, h.counted, fun p hp => ?_⟩
  · obtain ⟨l, hl, rfl⟩ := map_eq_some_iff.mp hl'
    rw [hl] at hlive
    rcases LivePeerState.bit_of_onReceivedMessage hlive hbit with hold | hnew
    · exact htold p (h.bits l hl p hold)
    · exact ⟨m, mem_cons_self, hnew⟩
  · exact (h.covered p hp).imp_right (Or.imp_right (Or.imp_left (htold p)))

omit h

variable {outgoingChan : List (WriterRequest L)} (h : s.Kept)
include h

/-- The connection goes on, and what was accounted for still is. -/
lemma Kept.goesOn {haves advertised} (hcovered : ∀ p, s.havePieces.get p.1 →
      p ∈ s.haves.unread ∨ s.Accounted p → p ∈ haves.unread ∨
        s.Told p ∨ p ∈ advertised ∨ stage.carries p) :
    Kept { s with stage, haves, outgoingChan, advertised } :=
  ⟨h.bits, h.counted, fun p hp => (h.covered p hp).imp_right (hcovered p hp)⟩

/-- The connection goes on without having written anything. -/
lemma Kept.restage {old stage} (hold : s.stage = old)
    (hcarries : ∀ p, s.havePieces.get p.1 →
      old.carries p → stage.carries p) :
    Kept { s with stage, outgoingChan } :=
  h.goesOn fun p hp => Or.imp_right (Or.imp_right (Or.imp_right (hold ▸ hcarries p hp)))

/-- **Whether a bit field is sent or not, no piece is forgotten**: without one all that we have is
about to be counted, and will be broadcast. -/
theorem Kept.shouldSendBitfield : Kept { s with
      stage := if shouldSendBitfield false s.haveBytes then .serializing else .choking } := by
  cases hsend : Librtbit.shouldSendBitfield false s.haveBytes with
  | true => exact h.restage rfl fun _ _ _ => rfl
  | false =>
    have hzero : ¬ 0 < s.haveBytes := by
      exact of_decide_eq_false hsend
    refine ⟨h.bits, h.counted, fun p hp => ?_⟩
    exact .inl (.inl ((h.counted p hp).resolve_right hzero))

lemma Kept.wroteBitfield {bits}
    (hstage : s.stage = .writingBitfield bits) : (s.wroteBitfield bits).Kept := by
  refine h.goesOn fun p _ => Or.imp_right (Or.imp_right ?_)
  rintro (hadvertised | hcarries)
  · exact .inl (mem_append_right _ hadvertised)
  · rw [hstage] at hcarries
    refine .inl (mem_append_left _ (mem_filter.mpr ⟨mem_finRange p, ?_⟩))
    exact hcarries

/-- **What is read off the broadcast is sent, or need not be.** -/
theorem Kept.recvHave (hstage : s.stage = .idle) (horderly : s.Orderly .recvHave)
    (hrecv : s.recvHave false = some s') : s'.Kept := by
  rw [Advertising.recvHave] at hrecv
  split at hrecv
  · cases hrecv
  · next haves hlagged =>
    cases hrecv
    refine h.goesOn fun p _ => ?_
    rw [Receiver.recv_lagged hlagged]
    exact id
  · next id haves hvalue =>
    obtain ⟨hlag, hunread⟩ := Receiver.recv_value hvalue
    -- a piece that is read later, or one that is accounted for
    have hother : ∀ {stage : WriterStage L} (p : ValidPieceIndex L),
        (p = id → s.Told p ∨ p ∈ s.advertised ∨ stage.carries p) →
        p ∈ s.haves.unread ∨ s.Accounted p →
        p ∈ haves.unread ∨ s.Told p ∨ p ∈ s.advertised ∨ stage.carries p := by
      rintro stage p hid (hp | htold | hadvertised | hcarries)
      · rw [hunread] at hp
        rcases mem_cons.mp hp with rfl | hp
        · exact .inr (hid rfl)
        · exact .inl hp
      · exact .inr (.inl htold)
      · exact .inr (.inr (.inl hadvertised))
      · rw [hstage] at hcarries
        cases hcarries
    split at hrecv
    · cases hrecv
      refine h.goesOn fun p _ => hother p fun heq => .inr (.inr ?_)
      exact decide_eq_true heq.symm
    next hskip =>
    cases hrecv
    refine h.goesOn fun p _ => hother p fun heq => ?_
    subst heq
    rcases horderly.2 rfl hlag p (by rw [hunread]; rfl) with haccounted | hlong
    · exact haccounted
    obtain ⟨live, hlive, hlen⟩ := (Option.any_eq_true _ _).mp hlong
    rw [hlive, Bool.not_eq_true] at hskip
    exact .inl (h.bits live hlive p (bit_of_not_shouldTransmitHave hskip (of_decide_eq_true hlen)))

lemma Kept.wrote {w} (hstage : s.stage = .writing w) :
    (s.wrote w).Kept := by
  cases w with
  | have_ q =>
    refine h.goesOn fun p _ => Or.imp_right (Or.imp_right ?_)
    rintro (hadvertised | hcarries)
    · exact .inl (mem_cons_of_mem q hadvertised)
    · rw [hstage] at hcarries
      exact .inl (of_decide_eq_true hcarries ▸ mem_cons_self)
  | request r => exact h.restage hstage fun _ _ hcarries => absurd hcarries Bool.false_ne_true

omit h

variable {a : AdvertiseStep L}

/-- **A step of the connection forgets no piece.** -/
theorem Kept.writerStep (h : s.Kept) (horderly : s.Orderly a)
    (hstep : s.writerStep false s.stage a = some s') : s'.Kept := by
  unfold Advertising.writerStep at hstep
  split at hstep
  · cases hstep
    exact h.goesOn fun _ _ _ => .inr (.inr (.inr rfl))
  · next connecting hstage =>
    cases hstep
    refine ⟨fun live hlive p hbit => ?_, h.counted, fun _ _ => .inr (.inr (.inr (.inr rfl)))⟩
    cases connecting with
    | false => exact h.bits live hlive p hbit
    | true =>
      cases hlive
      cases hbit
  · cases hstep
    exact h.shouldSendBitfield
  · cases hstep
    exact h.restage rfl fun _ hp _ => hp
  · next bits hstage =>
    cases hstep
    exact h.wroteBitfield hstage
  · next hstage =>
    cases hstep
    exact h.restage hstage fun _ _ => id
  · next hstage =>
    cases hstep
    exact h.restage hstage fun _ _ => id
  · next hstage =>
    cases hstep
    exact h.restage hstage fun _ _ => id
  · next hstage => exact h.recvHave hstage horderly hstep
  · next hstage =>
    split at hstep <;> cases hstep
    exact h.restage hstage fun _ _ => id
  · next hstage =>
    cases hstep
    exact h.restage hstage fun _ _ => id
  · next w hstage =>
    cases hstep
    exact h.wrote hstage
  · cases hstep

/-- **A step that meets the condition forgets no piece.** -/
theorem Kept.step (hL : L.Exact) (h : s.Kept) (horderly : s.Orderly a)
    (hstep : s.step false a = some s') : s'.Kept := by
  unfold Advertising.step at hstep
  split at hstep
  · cases hstep
    exact h.record _
  · split at hstep <;> cases hstep
    exact h.count hL _
  · split at hstep <;> cases hstep
    exact h.transmit _ horderly
  · split at hstep
    · next hlive =>
      cases hstep
      exact h.entry hlive
    · cases hstep
  · cases hstep
    exact h.onMessage _
  · cases hstep
    exact ⟨h.bits, h.counted, h.covered⟩
  · cases hstep
    exact h.close
  · exact h.writerStep horderly hstep

lemma Kept.complete (h : s.Kept) : s.Complete := by
  rintro ⟨hidle, hunread, -⟩ p hp hcompleting htold
  rcases h.covered p hp with hwait | hwait | hwait | hwait | hcarries
  · exact absurd hwait hcompleting
  · rw [hunread] at hwait
    cases hwait
  · exact absurd hwait htold
  · exact hwait
  · cases hstage : s.stage with
    | idle =>
      rw [hstage] at hcarries
      cases hcarries
    | _ =>
      rw [hstage] at hidle
      cases hidle

end Steps

/-- **When the advertisement is complete**: in every run in which the receiver of the connection
loses no piece the peer has yet to be told of, and no such piece is read off the broadcast before
the peer has a bit field. -/
theorem complete_of_orderly (hL : L.Exact) (havePieces : PieceBits L) (as : List (AdvertiseStep L))
    (h : Along (step false) Orderly (start havePieces) as) :
    Always (step false) Complete (start havePieces) as :=
  (always_of_along (fun _ _ _ hs horderly hstep => hs.step hL horderly hstep)
    (kept_start hL havePieces) h).mono fun _ hs => hs.complete

/-- The connection starts, and the peer may tell its pieces. -/
def starts (ms : List PieceMessage) : List (AdvertiseStep L) :=
  [.subscribe, .handshake true] ++ ms.map .message ++ [.shouldSendBitfield, .wroteChoke]

/-- The writer gets a slot. -/
def getsSlot : List (AdvertiseStep L) := [.slot, .wroteUnchoke]

/-- A piece is completed. -/
def completes (p : ValidPieceIndex L) : List (AdvertiseStep L) := [.record p, .count p, .transmit p]

/-- A peer that has told its pieces is told of one that is completed. -/
theorem complete_of_orderly_have :
    Always (step false) Complete (start (BitField.zeros _) : Advertising Lengths.onePiece)
      (starts [.haveNone] ++ getsSlot ++ completes 0 ++ [.recvHave, .wrote]) :=
  complete_of_orderly (Lengths.exact_of_new
    (show Lengths.new 16384 16384 = .ok Lengths.onePiece by decide) (by norm_num) (by decide)) _ _
    (by decide)

/-- A torrent of more pieces than the broadcast holds. -/
def manyPieces : Lengths := ⟨130, 1, 129, 1, 1⟩

/-- **A peer that has not told its pieces is not told of ours; and of the pieces completed while the
writer waits for a slot, only the last 128 are told.** -/
theorem not_complete_quiet_lagged :
    ¬ Always (step false) Complete (start (BitField.zeros _) : Advertising Lengths.onePiece)
      (starts [] ++ getsSlot ++ completes 0 ++ [.recvHave]) ∧
    ¬ Always (step false) Complete (start (BitField.zeros _) : Advertising manyPieces)
      (starts [.haveNone] ++ ((List.finRange manyPieces.totalPieces).take 129).flatMap completes ++
        getsSlot ++
        .recvHave :: (List.replicate 128 [.recvHave, .wrote]).flatten) :=
  ⟨not_always_of_run (by decide), not_always_of_run (by decide +kernel)⟩

end Advertising

end Librtbit
