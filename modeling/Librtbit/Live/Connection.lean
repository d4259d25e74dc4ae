import Librtbit.Live.Peers

/-!
# Live/Connection — the task that talks to one peer

A connection is one task: a requester that acquires pieces and asks for their chunks, and a reader
that handles what the peer sends.  The two take turns, except in `write_to_disk`, which blocks the
task from the check that the piece is still ours to the end of the hash check and what follows.
That is cut into the steps between which other tasks can run, that is, at each lock the function
takes:

    received → writing → checking → checked → completing → disconnecting

`writing` holds the lock of the piece, which is what a steal tries to take.  A label names one step
and resolves what the connection does not decide itself: the messages of the peer, clock readings,
streaming positions, the result of a hash check.
-/

namespace Librtbit

variable {L : Lengths}

/-! ## States -/

/-- What `on_received_piece` is at. -/
inductive Reader (L : Lengths) where
  | idle
  /-- A chunk we asked for has come; waiting for a slot to block in. -/
  | received (piece : ReceivedPiece) (chunk : ChunkInfo L)
  /-- Writing it, with the lock of the piece held for reading. -/
  | writing (piece : ReceivedPiece) (chunk : ChunkInfo L)
  /-- The piece was complete and taken out of flight; `check_piece` runs. -/
  | checking (p : ValidPieceIndex L)
  /-- `check_piece` returned, the result is not recorded yet. -/
  | checked (p : ValidPieceIndex L) (ok : Bool)
  /-- The piece is marked downloaded, `on_piece_completed` has not counted it yet. -/
  | completing (p : ValidPieceIndex L)
  /-- In the loop of `disconnect_all_peers_that_have_full_torrent`. -/
  | disconnecting

/-- The task is blocked, the requester cannot run and the task cannot end. -/
def Reader.blocks : Reader L → Bool
  | .idle | .received .. => false
  | _ => true

/-- What `task_peer_chunk_requester` is at. -/
inductive Requester (L : Lengths) where
  | idle
  /-- A piece was stolen, the other peer has not been told. -/
  | stealing (fromPeer : PeerHandle) (p : ValidPieceIndex L)
  | requesting (chunks : List (ChunkInfo L))

inductive Task (L : Lengths) where
  | running (reader : Reader L) (requester : Requester L)
  /-- The connection is over, `on_peer_died` has not run yet. -/
  | dying (withError : Bool)
  /-- The torrent was paused under a hash check, which still runs. -/
  | stale (p : ValidPieceIndex L)
  | over

structure Connection (L : Lengths) where
  addr : PeerHandle
  incoming : Bool
  iAmChoked : Bool := true
  task : Task L := .running .idle .idle

/-- What the torrent is and does not change: its files and the option. -/
structure TorrentShared where
  fileInfos : List FileInfo
  disableUpload : Bool

/-! ## Steps -/

/-- The messages that change what we know of the peer or of the connection. -/
inductive PeerMessage where
  | handshake
  /-- With the port the peer listens on. -/
  | extendedHandshake (outgoing : SocketAddr)
  | bitfield (bits : List Bool)
  | havePiece (index : ℕ)
  | interested
  | choke
  | unchoke

/-- What an acquisition reads that the torrent does not decide. -/
structure AcquireInput (L : Lengths) where
  peerAvgTime : Option Duration := none
  /-- The next pieces of the streams. -/
  priorityPieces : List (ValidPieceIndex L) := []
  now : Instant := 0
  elapsedAt : (threshold : ℕ) → ValidPieceIndex L → Instant := fun _ _ => 0

inductive RequesterStep (L : Lengths) where
  | acquire (input : AcquireInput L)
  | onSteal
  | request

inductive ReaderStep where
  | receive (piece : ReceivedPiece)
  | checkSteal
  | wrote (now : Instant)
  | writeFailed
  /-- `none` is a storage error. -/
  | hashed (result : Option Bool)
  | record
  /-- With the files that are streamed. -/
  | complete (streams : List ℕ)
  | disconnect (peer : PeerHandle)
  | disconnected

inductive ConnectionStep (L : Lengths) where
  | message (m : PeerMessage)
  | requester (a : RequesterStep L)
  | reader (a : ReaderStep)
  /-- A network error, or an orderly end. -/
  | finish (withError : Bool)
  | died (streams : List ℕ)

/-- The peer the step disconnects, if it has the full torrent. -/
def ConnectionStep.disconnects : ConnectionStep L → Option PeerHandle
  | .reader (.disconnect peer) => some peer
  | _ => none

namespace ChunkTracker

/-- `has_active_streams_unfinished_files` -/
def hasActiveStreamsUnfinishedFiles (ct : ChunkTracker L) (fileInfos : List FileInfo)
    (streams : List ℕ) : Bool :=
  streams.any fun fileId => (fileInfos[fileId]?).any fun fi => !ct.isFileFinished fi

/-- `is_finished_and_no_active_streams` -/
def isFinishedAndNoActiveStreams (ct : ChunkTracker L) (fileInfos : List FileInfo)
    (streams : List ℕ) : Bool :=
  ct.isFinished && !ct.hasActiveStreamsUnfinishedFiles fileInfos streams

end ChunkTracker

namespace Connection

variable (shared : TorrentShared) (pt : PieceTracker L) (peers : PeerStates L) (c : Connection L)

def onMessage : PeerMessage → PeerStates L × Connection L
  | .handshake => (peers.withPeerMut c.addr Peer.connectingToLive, c)
  | .extendedHandshake outgoing =>
    if c.incoming then
      (peers.withPeerMut c.addr fun peer => { peer with outgoingAddress := some outgoing }, c)
    else (peers, c)
  | .bitfield bits =>
    if bits.length = L.pieceBits then
      (peers.withLiveMut c.addr fun live => { live with bitfield := bits }, c)
    else (peers, { c with task := .dying true })
  | .havePiece index => (peers.withLiveMut c.addr fun live => live.onHave index, c)
  | .interested => (peers.withLiveMut c.addr fun live => { live with peerInterested := true }, c)
  | .choke => (peers, { c with iAmChoked := true })
  | .unchoke => (peers, { c with iAmChoked := false })

/-- The request `acquire_next_piece` makes; `locked` tells which pieces are locked for writing. -/
def acquireRequest (filePriorities : List ℕ) (locked : ValidPieceIndex L → Bool)
    (live : LivePeerState L) (input : AcquireInput L) : AcquireRequest L where
  peer := c.addr
  peerAvgTime := input.peerAvgTime
  priorityPieces := input.priorityPieces
  filePriorities
  fileInfos := shared.fileInfos
  peerHasPiece := live.hasPiece
  canSteal p := !locked p
  now := input.now
  elapsedAt := input.elapsedAt

/-- `acquire_next_piece`, under the lock of the peer and that of the torrent. -/
def acquireNextPiece (filePriorities : List ℕ) (locked : ValidPieceIndex L → Bool)
    (input : AcquireInput L) : PieceTracker L × Requester L :=
  match peers.getLive c.addr with
  | none => (pt, .idle)
  | some live =>
    if c.iAmChoked then (pt, .idle)
    else
      match pt.acquirePiece (c.acquireRequest shared filePriorities locked live input) with
      | (pt', .reserved p) => (pt', .requesting (L.iterChunkInfos p))
      | (pt', .stolen p fromPeer) => (pt', .stealing fromPeer p)
      | (pt', .noneAvailable) => (pt', .idle)

def requesterStep (filePriorities : List ℕ) (locked : ValidPieceIndex L → Bool)
    (reader : Reader L) :
    Requester L → RequesterStep L → Option (PieceTracker L × PeerStates L × Task L)
  | .idle, .acquire input =>
    let (pt', requester) := c.acquireNextPiece shared pt peers filePriorities locked input
    some (pt', peers, .running reader requester)
  | .stealing fromPeer p, .onSteal =>
    some (pt, peers.onSteal fromPeer p, .running reader (.requesting (L.iterChunkInfos p)))
  | .requesting [], .request => some (pt, peers, .running reader .idle)
  | .requesting (chunk :: chunks), .request =>
    match peers.getLive c.addr with
    | none => some (pt, peers, .dying false)
    | some _ =>
      some (pt, peers.withLiveMut c.addr fun live =>
          { live with inflightRequests := live.inflightRequests.insert chunk },
        .running reader (.requesting chunks))
  | _, _ => none

/-- `on_received_piece` up to the wait for a slot: the chunk must be one we asked for. -/
def receive (requester : Requester L) (piece : ReceivedPiece) : PeerStates L × Task L :=
  match (L.validatePieceIndex piece.index).bind fun p =>
      L.chunkInfoFromReceivedData p piece.begin piece.block.length with
  | none => (peers, .dying true)
  | some chunk =>
    match peers.getLive c.addr with
    | none => (peers, .dying true)
    | some live =>
      if chunk ∈ live.inflightRequests then
        (peers.withLiveMut c.addr fun live =>
          { live with inflightRequests := live.inflightRequests.erase chunk },
          .running (.received piece chunk) requester)
      else (peers, .dying true)

/-- If someone stole the piece by now, ignore it. -/
def checkSteal (requester : Requester L) (piece : ReceivedPiece) (chunk : ChunkInfo L) : Task L :=
  match pt.inflight chunk.pieceIndex with
  | some info =>
    if info.peer = c.addr then .running (.writing piece chunk) requester
    else .running .idle requester
  | none => .running .idle requester

/-- The chunk is written: mark it, and take the piece out of flight if that was the last one. -/
def wrote (requester : Requester L) (piece : ReceivedPiece) (chunk : ChunkInfo L)
    (now : Instant) : PieceTracker L × Task L :=
  match pt.markChunkDownloaded piece with
  | (pt', some .completed) =>
    match pt'.takeInflight chunk.pieceIndex now with
    | (pt'', some _) => (pt'', .running (.checking chunk.pieceIndex) requester)
    | (pt'', none) => (pt'', .running .idle requester)
  | (pt', some .previouslyCompleted) => (pt', .running .idle requester)
  | (pt', some .notCompleted) => (pt', .running .idle requester)
  | (pt', none) => (pt', .dying true)

/-- `on_piece_completed` under the lock of the torrent. -/
def complete (requester : Requester L) (p : ValidPieceIndex L) (streams : List ℕ) :
    PieceTracker L × Task L :=
  let chunks := pt.chunks.onPieceCompleted shared.fileInfos p
  ({ pt with chunks }, if chunks.isFinishedAndNoActiveStreams shared.fileInfos streams then
      .running .disconnecting requester
    else .running .idle requester)

def readerStep (requester : Requester L) :
    Reader L → ReaderStep → Option (PieceTracker L × PeerStates L × Task L)
  | .idle, .receive piece =>
    let (peers', task) := c.receive peers requester piece
    some (pt, peers', task)
  | .received piece chunk, .checkSteal =>
    some (pt, peers, c.checkSteal pt requester piece chunk)
  | .writing piece chunk, .wrote now =>
    let (pt', task) := wrote pt requester piece chunk now
    some (pt', peers, task)
  | .writing _ _, .writeFailed => some (pt, peers, .dying true)
  | .checking p, .hashed (some ok) => some (pt, peers, .running (.checked p ok) requester)
  | .checking _, .hashed none => some (pt, peers, .dying true)
  | .checked p true, .record =>
    some (pt.markPieceHashOk p, peers, .running (.completing p) requester)
  | .checked p false, .record => some (pt.markPieceHashFailed p, peers, .dying true)
  | .completing p, .complete streams =>
    let (pt', task) := complete shared pt requester p streams
    some (pt', peers, task)
  | .disconnecting, .disconnect peer =>
    some (pt, peers.withPeerMut peer Peer.disconnectIfFull, .running .disconnecting requester)
  | .disconnecting, .disconnected => some (pt, peers, .running .idle requester)
  | _, _ => none

/-- The state a peer is left in when its connection has died. -/
def stateAfterDeath (withError : Bool) (streams : List ℕ) : PeerState L :=
  if !withError then .notNeeded
  else if pt.chunks.isFinishedAndNoActiveStreams shared.fileInfos streams then .notNeeded
  else .dead

/-- `on_peer_died`, under the lock of the peer. -/
def onPeerDied (withError : Bool) (streams : List ℕ) : PieceTracker L × PeerStates L :=
  match peers c.addr with
  | none => (pt, peers)
  | some peer =>
    match peer.state with
    | .connecting =>
      (pt, peers.insert c.addr (peer.setState (stateAfterDeath shared pt withError streams)))
    | .live _ =>
      let (pt', _) := pt.releasePiecesOwnedBy c.addr
      (pt', peers.insert c.addr (peer.setState (stateAfterDeath shared pt' withError streams)))
    | .notNeeded => (pt, peers)
    | .queued | .dead => (pt, peers.dropPeer c.addr)

/-- One step of a connection of a live torrent. -/
def step (filePriorities : List ℕ) (locked : ValidPieceIndex L → Bool) :
    ConnectionStep L → Option (PieceTracker L × PeerStates L × Connection L)
  | .message m =>
    match c.task with
    | .running .idle _ =>
      let (peers', c') := c.onMessage peers m
      some (pt, peers', c')
    | _ => none
  | .requester a =>
    match c.task with
    | .running reader requester =>
      if reader.blocks then none
      else
        (c.requesterStep shared pt peers filePriorities locked reader requester a).map
          fun (pt', peers', task) => (pt', peers', { c with task })
    | _ => none
  | .reader a =>
    match c.task with
    | .running reader requester =>
      (c.readerStep shared pt peers requester reader a).map
        fun (pt', peers', task) => (pt', peers', { c with task })
    | _ => none
  | .finish withError =>
    match c.task with
    | .running reader _ =>
      if reader.blocks then none else some (pt, peers, { c with task := .dying withError })
    | _ => none
  | .died streams =>
    match c.task with
    | .dying withError =>
      let (pt', peers') := c.onPeerDied shared pt peers withError streams
      some (pt', peers', { c with task := .over })
    | _ => none

end Connection

end Librtbit
