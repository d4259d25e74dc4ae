import Librtbit.Live.Connection

/-!
# Live/Torrent — a torrent over its whole life, in every interleaving

The state of the system: the torrent, which is being initialized, paused, live or in error; the map
of its peers; every connection that was ever opened; and the task that adds peers.  One `step` is
what one task does between two points where another may run, and a list of labels is one
interleaving.

A pause takes the piece tracker away from the connections of the live torrent.  They come to their
end without it: all that is left of them is the hash checks that are still running (`Task.stale`),
whose results will not be recorded.
-/

namespace Librtbit

variable {L : Lengths}

/-! ## States -/

inductive ManagedTorrentState (L : Lengths) where
  | initializing
  | paused (chunkTracker : ChunkTracker L)
  /-- With the sorted file list in which order to download them. -/
  | live (pieces : PieceTracker L) (filePriorities : List ℕ)
  | error

/-- The piece tracker of a live torrent; a paused one has no piece in flight. -/
def ManagedTorrentState.tracker : ManagedTorrentState L → Option (PieceTracker L)
  | .live pt _ => some pt
  | .paused ct => some (.new ct)
  | .initializing | .error => none

variable {state : ManagedTorrentState L}

lemma ManagedTorrentState.mem_tracker_of_live
    {pt filePriorities} (h : state = .live pt filePriorities) :
    pt ∈ state.tracker := by
  rw [h]
  rfl

lemma ManagedTorrentState.mem_tracker_of_paused
    {ct} (h : state = .paused ct) : PieceTracker.new ct ∈ state.tracker := by
  rw [h]
  rfl

structure Torrent (L : Lengths) where
  state : ManagedTorrentState L := .initializing
  peers : PeerStates L := fun _ => none
  connections : List (Connection L) := []
  /-- The peer that `task_peer_adder` found not needed and is about to mark. -/
  notNeeded : Option PeerHandle := none

/-- What a connection has in hand, seen from the outside. -/
inductive Work (L : Lengths) where
  | rest
  /-- A chunk of the piece is being written, under the lock of the piece. -/
  | writing (p : ValidPieceIndex L)
  /-- The hash of the piece is being checked, or the result is to be recorded. -/
  | checking (p : ValidPieceIndex L)
  /-- The piece is marked downloaded and not counted yet. -/
  | completing (p : ValidPieceIndex L)
  /-- The hash of the piece is being checked for a torrent that was paused meanwhile. -/
  | stale (p : ValidPieceIndex L)
  deriving DecidableEq

namespace Connection

variable (c : Connection L)

def work : Work L :=
  match c.task with
  | .running (.writing _ chunk) _ => .writing chunk.pieceIndex
  | .running (.checking p) _ => .checking p
  | .running (.checked p _) _ => .checking p
  | .running (.completing p) _ => .completing p
  | .running .idle _ | .running (.received ..) _ | .running .disconnecting _ => .rest
  | .dying _ | .over => .rest
  | .stale p => .stale p

/-- What becomes of a connection when the torrent stops being live. -/
def abandon : Connection L :=
  { c with
    task := match c.work with
      | .checking p | .stale p => .stale p
      | .rest | .writing _ | .completing _ => .over }

end Connection

/-! ## Steps -/

inductive TorrentStep (L : Lengths) where
  | addPeerIfNotSeen (addr : PeerHandle)
  | addIncomingPeer (addr : PeerHandle)
  /-- The peer adder takes an address from its queue and finds it needed… -/
  | manageOutgoingPeer (addr : PeerHandle)
  /-- …or finds that the torrent has finished, and then marks the peer. -/
  | ignorePeer (addr : PeerHandle) (streams : List ℕ)
  | markPeerNotNeeded
  | requeueDeadPeer (addr : PeerHandle)
  | pruneDeadPeers (expired : PeerHandle → Bool)
  | connection (id : ℕ) (a : ConnectionStep L)
  /-- A hash check ends whose torrent was paused meanwhile. -/
  | staleCheckEnds (id : ℕ)
  | updateOnlyFiles (onlyFiles : List ℕ) (reached : PeerHandle → Bool)
  | pause
  | start (filePriorities : List ℕ)
  | stopWithError
  /-- The error is cleared, or a recheck is forced. -/
  | recheck
  | initialized (havePieces : PieceBits L) (onlyFiles : Option (List ℕ))

namespace Torrent

variable (shared : TorrentShared) (t : Torrent L)

/-- The piece is locked for writing. -/
def locked (p : ValidPieceIndex L) : Bool := t.connections.any fun c => c.work = .writing p

/-- The torrent is not live any more; a new live torrent starts without peers. -/
def leaveLive (state : ManagedTorrentState L) : Torrent L where
  state
  connections := t.connections.map Connection.abandon

def spawn (c : Connection L) (peers : PeerStates L) : Torrent L :=
  { t with peers, connections := t.connections ++ [c] }

def connectionStep (id : ℕ) (a : ConnectionStep L) : Option (Torrent L) :=
  match t.state with
  | .live pt filePriorities =>
    (t.connections[id]?).bind fun c =>
      (c.step shared pt t.peers filePriorities t.locked a).map fun (pt', peers, c') =>
        { t with state := .live pt' filePriorities, peers, connections := t.connections.set id c' }
  | _ => none

/-- `update_only_files` -/
def updateOnlyFiles (onlyFiles : List ℕ) (reached : PeerHandle → Bool) : Option (Torrent L) :=
  if onlyFiles.all (· < shared.fileInfos.length) then
    match t.state with
    | .initializing => none
    | .error => some t
    | .paused ct => some { t with state := .paused (ct.updateOnlyFiles shared.fileInfos onlyFiles) }
    | .live pt filePriorities =>
      let pt' := pt.updateOnlyFiles shared.fileInfos onlyFiles
      some { t with
        state := .live pt' filePriorities
        peers :=
          if pt'.chunks.hns.finished then t.peers else t.peers.reconnectAllNotNeededPeers reached }
  else none

/-- The end of `TorrentStateInitializing::check`, with the pieces it found. -/
def initialized (havePieces : PieceBits L) (onlyFiles : Option (List ℕ)) : Option (Torrent L) :=
  match t.state with
  | .initializing =>
    let selected := computeSelectedPieces L
      (fun id => (onlyFiles.map fun files => files.contains id).getD true) shared.fileInfos
    match ChunkTracker.new havePieces selected shared.fileInfos with
    | .ok ct => some { t with state := .paused ct }
    | .error _ => some { t with state := .error }
  | _ => none

/-- The files in some order: they are sorted by name, and names can be equal. -/
def isFileOrder (filePriorities : List ℕ) : Bool :=
  filePriorities.isPerm (List.range shared.fileInfos.length)

/-- **One step of the system.** -/
def step : TorrentStep L → Option (Torrent L)
  | .addPeerIfNotSeen addr =>
    match t.state with
    | .live .. => some { t with peers := t.peers.addIfNotSeen addr }
    | _ => none
  | .addIncomingPeer addr =>
    match t.state with
    | .live .. => (t.peers.addIncomingPeer addr).map (t.spawn { addr, incoming := true })
    | _ => none
  | .manageOutgoingPeer addr =>
    match t.state with
    | .live .. => (t.peers.markPeerConnecting addr).map (t.spawn { addr, incoming := false })
    | _ => none
  | .ignorePeer addr streams =>
    match t.state with
    | .live pt _ =>
      if shared.disableUpload &&
          pt.chunks.isFinishedAndNoActiveStreams shared.fileInfos streams then
        some { t with notNeeded := some addr }
      else none
    | _ => none
  | .markPeerNotNeeded =>
    t.notNeeded.map fun addr =>
      { t with peers := t.peers.markPeerNotNeeded addr, notNeeded := none }
  | .requeueDeadPeer addr => some { t with peers := t.peers.withPeerMut addr Peer.deadToQueued }
  | .pruneDeadPeers expired => some { t with peers := t.peers.pruneDeadPeers expired }
  | .connection id a => t.connectionStep shared id a
  | .staleCheckEnds id =>
    (t.connections[id]?).bind fun c =>
      match c.task with
      | .stale _ => some { t with connections := t.connections.set id { c with task := .over } }
      | _ => none
  | .updateOnlyFiles onlyFiles reached => t.updateOnlyFiles shared onlyFiles reached
  | .pause =>
    match t.state with
    | .live pt _ => some (t.leaveLive (.paused pt.intoChunks))
    | _ => none
  | .start filePriorities =>
    match t.state with
    | .paused ct =>
      if isFileOrder shared filePriorities then
        some { t with state := .live (PieceTracker.new ct) filePriorities }
      else none
    | _ => none
  | .stopWithError => some (t.leaveLive .error)
  | .recheck =>
    match t.state with
    | .initializing => none
    | _ => some (t.leaveLive .initializing)
  | .initialized havePieces onlyFiles => t.initialized shared havePieces onlyFiles

/-! ### Parts of runs -/

/-- Two files of one byte, each a piece. -/
def twoFiles : TorrentShared where
  fileInfos := fileInfosFrom Lengths.twoBytePieces 0 [{ len := 1 }, { len := 1 }]
  disableUpload := false

/-- Two peers. -/
def peerOne : PeerHandle := ⟨.v4 1, 1⟩

@[inherit_doc peerOne]
def peerTwo : PeerHandle := ⟨.v4 2, 2⟩

/-- A peer connects, has every piece and lets us download. -/
def comes (id : ℕ) (addr : PeerHandle) : List (TorrentStep L) :=
  [.addIncomingPeer addr, .connection id (.message (.bitfield (List.replicate L.pieceBits true))),
    .connection id (.message .unchoke)]

/-- A connection acquires the next piece and asks for its first chunk. -/
def asks (id : ℕ) (input : AcquireInput L) : List (TorrentStep L) :=
  [.connection id (.requester (.acquire input)), .connection id (.requester .request)]

/-- The one chunk of a piece comes and is written, and the piece is checked. -/
def sends (id : ℕ) (piece : ReceivedPiece) (result : Option Bool) : List (TorrentStep L) :=
  [.connection id (.reader (.receive piece)), .connection id (.reader .checkSteal),
    .connection id (.reader (.wrote 0)), .connection id (.reader (.hashed result))]

end Torrent

end Librtbit
