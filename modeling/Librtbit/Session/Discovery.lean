import Librtbit.Managed.Tasks

/-!
# Session/Discovery — where the peers of a torrent come from

A torrent gets its peers from a *peer stream*, which merges a lookup in the DHT, the local service
discovery, the trackers and the peers that were given when the torrent was added.  A lookup may also
announce the torrent.  The local discovery knows one stream for each info hash, the last one that
was opened; the task that announces a torrent in the local network goes on when the stream is gone.

A private torrent has neither of the two.  Whether it is private is in its info dictionary, which is
not there yet when a magnet link is added.

This is the life of all that concerns one info hash.  Calls (`Call`) open a stream and hand it over;
a torrent (`Handle`) has tasks that hold a stream or feed the torrent from it (`Feeder`).  A step
changes the state (`Discovery.next`) and lets something out (`Discovery.events`), which is written
down from when the info dictionary is known.
-/

namespace Librtbit

namespace Discovery

/-! ## Peer streams -/

/-- Where an address was obtained. -/
inductive Source where
  | dht
  | lsd
  | tracker
  /-- `initial_peers` -/
  | user
  /-- Another peer: `ut_pex` or `ut_holepunch`. -/
  | peer
  deriving DecidableEq

/-- The DHT and the local discovery. -/
def Source.isPublic : Source → Bool
  | .dht | .lsd => true
  | .tracker | .user | .peer => false

/-- The session: whether it has a DHT and a local discovery, and what trackers it talks to. -/
structure Config where
  dht : Bool
  lsd : Bool
  disableTrackers : Bool := false
  trackers : List String := []
  /-- The tracker has a scheme that is supported. -/
  supported : String → Bool := fun _ => true

/-- The info dictionary that the info hash stands for. -/
structure Info where
  isPrivate : Bool
  /-- `info_bytes.len()` -/
  infoBytes : ℕ
  fileInfos : List FileInfo

/-- `PeerStream`, the sources that are merged. -/
structure PeerStream where
  /-- `RequestPeersStream`, and whether it announces. -/
  dht : Option Bool := none
  /-- `AddrStream`, by its number. -/
  lsd : Option ℕ := none
  trackers : List String := []
  initialPeers : List PeerHandle := []
  /-- What came out of the stream while the magnet link was resolved, and was put back. -/
  seenPeers : List (Source × PeerHandle) := []
  /-- It was opened for a magnet link, without an info dictionary. -/
  magnet : Bool
  deriving DecidableEq

/-- `Announce`, of the local discovery, with the receiving end of its channel. -/
structure Announce where
  /-- It has a port to announce. -/
  port : Bool
  magnet : Bool
  rx : List PeerHandle := []
  deriving DecidableEq

/-- `apply_tracker_policy` -/
def Config.applyTrackerPolicy (config : Config) (trackers : List String) (isPrivate : Bool) :
    List String :=
  if config.disableTrackers then []
  else if !isPrivate then trackers ++ config.trackers
  else trackers

/-- Which of the merged streams an address comes out of. -/
inductive Pull where
  | dht (addr : PeerHandle)
  | lsd
  | tracker (addr : PeerHandle)
  | initialPeer
  | seenPeer

namespace PeerStream

variable (stream : PeerStream)

/-- The sources of `make_peer_rx`; the next number of the local discovery is `lsd`. -/
def new (config : Config) (trackers : List String) (announce : Bool)
    (initialPeers : List PeerHandle) (isPrivate magnet : Bool) (lsd : ℕ) : PeerStream where
  dht := if isPrivate || !config.dht then none else some announce
  lsd := if isPrivate || !config.lsd then none else some lsd
  trackers := (config.applyTrackerPolicy trackers isPrivate).filter config.supported
  initialPeers := initialPeers
  magnet := magnet

/-- `merge_two_optional_streams`: there is no stream if there is no source. -/
def merged : Option PeerStream :=
  if stream.dht.isNone && stream.lsd.isNone && stream.trackers.isEmpty &&
      stream.initialPeers.isEmpty then none
  else some stream

/-- `peer_rx.next()`: an address, and what is left. -/
def pull (announces : List Announce) :
    Pull → Option ((Source × PeerHandle) × PeerStream × List Announce)
  | .dht addr => if stream.dht.isSome then some ((.dht, addr), stream, announces) else none
  | .lsd =>
    stream.lsd.bind fun r => announces[r]?.bind fun announce =>
      match announce.rx with
      | addr :: rest => some ((.lsd, addr), stream, announces.set r { announce with rx := rest })
      | [] => none
  | .tracker addr =>
    if stream.trackers.isEmpty then none else some ((.tracker, addr), stream, announces)
  | .initialPeer =>
    match stream.initialPeers with
    | addr :: rest => some ((.user, addr), { stream with initialPeers := rest }, announces)
    | [] => none
  | .seenPeer =>
    match stream.seenPeers with
    | seen :: rest => some (seen, { stream with seenPeers := rest }, announces)
    | [] => none

end PeerStream

/-! ## Torrents -/

structure AddTorrentOptions where
  paused : Bool := false
  listOnly : Bool := false
  /-- Those of the torrent file or the magnet link, too. -/
  trackers : List String := []
  initialPeers : List PeerHandle := []

/-- A task with a peer stream. -/
inductive Feeder where
  /-- `initialize_and_start` keeps the stream until the check is over. -/
  | initializing (task : ℕ) (stream : PeerStream)
  /-- `external_peer_adder`; when its stream has ended it waits for a rediscovery signal. -/
  | adder (live : ℕ) (stream : Option PeerStream)
  /-- `added_peer_source` -/
  | added (live : ℕ) (stream : PeerStream)
  | over

namespace Feeder

def stream? : Feeder → Option PeerStream
  | .initializing _ stream | .added _ stream => some stream
  | .adder _ stream => stream
  | .over => none

/-- The stream that the torrent is fed from: that of `drain_peer_stream`. -/
def drained? : Feeder → Option PeerStream
  | .adder _ stream => stream
  | .added _ stream => some stream
  | .initializing _ _ | .over => none

/-- The stream with an address less. -/
def withStream (stream : PeerStream) : Feeder → Feeder
  | .initializing task _ => .initializing task stream
  | .adder live _ => .adder live (some stream)
  | .added live _ => .added live stream
  | .over => .over

/-- The feeder is the task of the initial check. -/
def isTask (task : ℕ) : Feeder → Bool
  | .initializing task' _ => task' = task
  | _ => false

end Feeder

/-- `ManagedTorrent`, with the tasks that have to do with its peers. -/
structure Handle (L : Lengths) where
  torrent : ManagedTorrent L
  trackers : List String
  initialPeers : List PeerHandle
  feeders : List Feeder := []
  /-- The peers for which `sending_pex_to_peer` runs. -/
  sendingPex : List PeerHandle := []

variable {L : Lengths}

namespace Handle

variable (handle : Handle L)

/-- `with_metadata(|m| m.info.info().private).unwrap_or(false)` -/
def isPrivate (info : Info) : Bool := handle.torrent.metadata && info.isPrivate

def setFeeder (k : ℕ) (feeder : Feeder) : Handle L :=
  { handle with feeders := handle.feeders.set k feeder }

def setTorrent (torrent : ManagedTorrent L) : Handle L := { handle with torrent }

/-- The task that was started with the stream, if one was: that of the initial check, or the peer
adder of a torrent that has gone live. -/
def startedWith (torrent : ManagedTorrent L) (stream : PeerStream) : Option Feeder :=
  match torrent.tasks[handle.torrent.tasks.length]? with
  | some (.initialize_ ..) => some (.initializing handle.torrent.tasks.length stream)
  | some (.fatalErrors live ..) => some (.adder live (some stream))
  | _ => none

/-- The torrent after `_start`, with a task that has the stream; or else the stream is dropped. -/
def started (torrent : ManagedTorrent L) (stream : Option PeerStream) :
    Handle L × Option PeerStream :=
  match stream.bind (handle.startedWith torrent) with
  | some feeder => ({ handle.setTorrent torrent with feeders := handle.feeders ++ [feeder] }, none)
  | none => (handle.setTorrent torrent, stream)

/-- The stream of the task of an initial check. -/
def streamOf (task : ℕ) : Option PeerStream :=
  (handle.feeders.find? (Feeder.isTask task)).bind Feeder.stream?

/-- `add_torrent_internal`, about to start it. -/
def new (opts : AddTorrentOptions) : Handle L where
  torrent := { paused := opts.paused }
  trackers := opts.trackers
  initialPeers := opts.initialPeers

/-- The task gives its stream away. -/
def release (task : ℕ) : Handle L :=
  { handle with feeders := handle.feeders.map fun f => if f.isTask task then .over else f }

end Handle

/-! ## Calls -/

/-- `AddTorrent`, or what a torrent is restored from. -/
inductive AddTorrent where
  | torrentFile
  | magnet
  /-- `into_add_torrent`; whether `torrent_bytes` are there. -/
  | restored (torrentBytes : Bool)

def AddTorrent.isMagnet : AddTorrent → Bool
  | .torrentFile => false
  | .magnet => true
  | .restored torrentBytes => !torrentBytes

inductive Call where
  /-- `resolve_magnet`, with the addresses that have come out of the stream. -/
  | resolving (opts : AddTorrentOptions) (stream : PeerStream) (seen : List (Source × PeerHandle))
  /-- `add_torrent_internal`, with the info dictionary at hand. -/
  | adding (opts : AddTorrentOptions) (stream : Option PeerStream)
  /-- The torrent is in the session, and is being stored. -/
  | storing (h : ℕ) (startPaused : Bool) (stream : Option PeerStream)
  /-- Before `start`: also the end of `unpause` and of `force_recheck`. -/
  | starting (h : ℕ) (startPaused : Bool) (stream : Option PeerStream)
  /-- Before `add_peer_stream`: the end of `add_trackers`. -/
  | addingSource (h : ℕ) (stream : PeerStream)
  | over

def Call.stream? : Call → Option PeerStream
  | .resolving _ stream _ | .addingSource _ stream => some stream
  | .adding _ stream | .storing _ _ stream | .starting _ _ stream => stream
  | .over => none

/-- An extension message of a peer. -/
inductive Message where
  | utMetadataRequest (piece : ℕ)
  | utPex (peers : List PeerHandle)
  /-- Whether the target is connected. -/
  | rendezvous (target : PeerHandle) (connected : Bool)
  | connect (addr : PeerHandle)
  | error

/-- What goes out into the network, or into the torrent. -/
inductive Event where
  | fed (source : Source) (addr : PeerHandle)
  | dhtAnnounce
  | lsdAnnounce
  | utPex (peer : PeerHandle)
  /-- `UtMetadata::Data`, with the range of the info dictionary. -/
  | utMetadata (peer : PeerHandle) (start stop : ℕ)
  | utHolepunch (peer : PeerHandle)
  deriving DecidableEq

/-- A private torrent must not do that. -/
def Event.forbidden : Event → Bool
  | .fed source _ => source.isPublic
  | _ => true

/-- Where a stream is. -/
inductive Place where
  | call (c : ℕ)
  | feeder (h k : ℕ)

inductive Step (L : Lengths) where
  | addTorrent (add : AddTorrent) (opts : AddTorrentOptions)
  /-- An address comes out of the stream of a magnet link. -/
  | nextAddr (c : ℕ) (pull : Pull)
  /-- A peer has sent the info dictionary. -/
  | resolve (c : ℕ)
  /-- An add fails: the magnet link is not resolved in time, the options are wrong… -/
  | fail (c : ℕ)
  /-- The torrent gets an id, possibly that of another torrent, and its storage. -/
  | insert (c : ℕ) (sameId : Bool) (created : StorageResult)
  | stored (c : ℕ) (success : Bool)
  | unpause (h : ℕ)
  | forceRecheck (h : ℕ) (taken created : StorageResult)
  | start (c : ℕ) (created : StorageResult)
  | addTrackers (h : ℕ) (trackers : List String)
  | addPeerStream (c : ℕ)
  /-- `remove_torrent`, of a torrent that is deleted. -/
  | remove
  /-- Whatever else users and tasks do with a torrent. -/
  | life (h : ℕ) (a : LifeStep L)
  /-- The initial check is over. -/
  | checked (h task : ℕ) (result : Except String (ChunkTracker L))
  | feed (h k : ℕ) (pull : Pull)
  /-- A stream has come to its end. -/
  | exhausted (h k : ℕ)
  | rediscover (h k : ℕ)
  /-- A task ends: its live torrent was paused, or an error occurred. -/
  | feederEnds (h k : ℕ)
  /-- A lookup announces the torrent to a node that has answered. -/
  | dhtAnnounce (place : Place)
  /-- `task_announce_periodically` -/
  | lsdAnnounce (r : ℕ)
  /-- `recv_and_process_one`; whether a reply is within the rate limit. -/
  | lsdReceive (addr : PeerHandle) (reply : Bool)
  | setAnnouncePort (port : Option ℕ)
  | extendedHandshake (h : ℕ) (peer : PeerHandle) (utPex : Bool)
  /-- `task_send_pex_to_peer` -/
  | sendPex (h j : ℕ)
  | pexEnds (h j : ℕ)
  | message (h : ℕ) (peer : PeerHandle) (m : Message)

end Discovery

/-! ## One info hash -/

/-- All that concerns one info hash. -/
structure Discovery (L : Lengths) where
  /-- `AnnouncePort`: set once the session listens. -/
  announcePort : Option ℕ := none
  calls : List Discovery.Call := []
  /-- The torrents there have been, and the one that is in the session. -/
  handles : List (Discovery.Handle L) := []
  managed : Option ℕ := none
  /-- The announces of the local discovery, and the one in `receivers`. -/
  announces : List Discovery.Announce := []
  receiver : Option ℕ := none
  /-- The info dictionary is known… -/
  known : Bool := false
  /-- …and what went out since. -/
  log : List Discovery.Event := []

namespace Discovery

variable {L : Lengths} (config : Config) (info : Info) (s : Discovery L)

def setCall (c : ℕ) (call : Call) : Discovery L := { s with calls := s.calls.set c call }

def addCall (call : Call) : Discovery L := { s with calls := s.calls ++ [call] }

def setHandle (h : ℕ) (handle : Handle L) : Discovery L :=
  { s with handles := s.handles.set h handle }

def addHandle (handle : Handle L) : Discovery L := { s with handles := s.handles ++ [handle] }

def setAnnounces (announces : List Announce) : Discovery L := { s with announces }

def setManaged (managed : Option ℕ) : Discovery L := { s with managed }

def learn : Discovery L := { s with known := true }

/-- A stream is dropped.  The local discovery forgets the info hash, whichever stream it has. -/
def drop (stream : Option PeerStream) : Discovery L :=
  { s with receiver := if (stream.bind PeerStream.lsd).isSome then none else s.receiver }

/-- `make_peer_rx` -/
def makePeerRx (trackers : List String) (announce : Bool) (initialPeers : List PeerHandle)
    (isPrivate magnet : Bool) : Option PeerStream :=
  (PeerStream.new config trackers announce initialPeers isPrivate magnet s.announces.length).merged

/-- The local discovery has a new announce, if it is among the sources of the stream. -/
def register (stream : Option PeerStream) (announce : Bool) : Discovery L :=
  match stream with
  | some stream =>
    if stream.lsd.isSome then
      { s with
        announces := s.announces ++ [⟨announce, stream.magnet, []⟩]
        receiver := some s.announces.length }
    else s
  | none => s

def streamAt : Place → Option PeerStream
  | .call c => s.calls[c]?.bind Call.stream?
  | .feeder h k => s.handles[h]?.bind fun handle => handle.feeders[k]?.bind Feeder.stream?

/-- The stream that a torrent is fed from. -/
def drainedAt (h k : ℕ) : Option PeerStream :=
  s.handles[h]?.bind fun handle => handle.feeders[k]?.bind Feeder.drained?

/-! ## Adding a torrent -/

/-- The beginning of `add_torrent_internal`. -/
def addTorrent (add : AddTorrent) (opts : AddTorrentOptions) : Option (Discovery L) :=
  let announce := !opts.paused && !opts.listOnly
  if add.isMagnet then
    let stream := s.makePeerRx config opts.trackers announce opts.initialPeers false true
    stream.map fun rx => (s.register stream announce).addCall (.resolving opts rx [])
  else
    let stream :=
      if announce then
        s.makePeerRx config opts.trackers announce opts.initialPeers info.isPrivate false
      else none
    some ((s.register stream announce).learn.addCall (.adding opts stream))

/-- `read_metainfo_from_peer_receiver` takes an address. -/
def nextAddr (c : ℕ) (pull : Pull) : Option (Discovery L) :=
  match s.calls[c]? with
  | some (.resolving opts stream seen) =>
    (stream.pull s.announces pull).map fun (found, stream, announces) =>
      (s.setAnnounces announces).setCall c (.resolving opts stream
        (if found.2 ∈ seen.map Prod.snd then seen else seen ++ [found]))
  | _ => none

/-- The info dictionary is there.  What was taken out of the stream is put back. -/
def resolve (c : ℕ) : Option (Discovery L) :=
  match s.calls[c]? with
  | some (.resolving opts stream seen) =>
    some (s.learn.setCall c (.adding opts (some { stream with seenPeers := seen })))
  | _ => none

def fail (c : ℕ) : Option (Discovery L) :=
  match s.calls[c]? with
  | some (.resolving _ stream _) => some ((s.drop (some stream)).setCall c .over)
  | some (.adding _ stream) => some ((s.drop stream).setCall c .over)
  | _ => none

/-- The torrent is entered, unless it was only to be listed or there is one already. -/
def insert (c : ℕ) (sameId : Bool) (created : StorageResult) : Option (Discovery L) :=
  match s.calls[c]? with
  | some (.adding opts stream) =>
    if opts.listOnly || s.managed.isSome || sameId then some ((s.drop stream).setCall c .over)
    else
      match created with
      | .error _ => some ((s.drop stream).setCall c .over)
      | .ok () =>
        some (((s.addHandle (.new opts)).setManaged (some s.handles.length)).setCall c
          (.storing s.handles.length opts.paused stream))
  | _ => none

def stored (c : ℕ) (success : Bool) : Option (Discovery L) :=
  match s.calls[c]? with
  | some (.storing h startPaused stream) =>
    some (if success then s.setCall c (.starting h startPaused stream)
      else ((s.drop stream).setManaged none).setCall c .over)
  | _ => none

/-! ## Starting a torrent -/

/-- The torrent is given a stream, or the stream is dropped. -/
def giveStream (h : ℕ) (handle : Handle L) (torrent : ManagedTorrent L)
    (stream : Option PeerStream) : Discovery L :=
  (s.drop (handle.started torrent stream).2).setHandle h (handle.started torrent stream).1

def start (c : ℕ) (created : StorageResult) : Option (Discovery L) :=
  match s.calls[c]? with
  | some (.starting h startPaused stream) =>
    s.handles[h]?.map fun handle =>
      let started := (handle.torrent.start true startPaused created).1
      (s.giveStream h handle started stream).setCall c .over
  | _ => none

/-- `make_peer_rx_managed_torrent` -/
def makePeerRxManagedTorrent (handle : Handle L) (announce : Bool) : Option PeerStream :=
  s.makePeerRx config handle.trackers announce handle.initialPeers (handle.isPrivate info) false

/-- A call that is about to start a torrent with the stream it has opened. -/
def callStart (h : ℕ) (startPaused : Bool) (stream : Option PeerStream) : Discovery L :=
  (s.register stream true).addCall (.starting h startPaused stream)

def unpause (h : ℕ) : Option (Discovery L) :=
  s.handles[h]?.map fun handle =>
    s.callStart h false (s.makePeerRxManagedTorrent config info handle true)

/-- Only a torrent that was live gets a stream. -/
def forceRecheck (h : ℕ) (taken created : StorageResult) : Option (Discovery L) :=
  s.handles[h]?.map fun handle =>
    let prepared := handle.torrent.prepareForceRecheck taken created
    let rechecked := s.setHandle h (handle.setTorrent prepared.1)
    match prepared.2 with
    | .error _ => rechecked
    | .ok resumeAfterCheck =>
      rechecked.callStart h (!resumeAfterCheck)
        (if resumeAfterCheck then s.makePeerRxManagedTorrent config info handle true else none)

/-- The initial check is over: the torrent goes live with the stream of the task, or does not. -/
def checked (h task : ℕ) (result : Except String (ChunkTracker L)) : Option (Discovery L) :=
  s.handles[h]?.bind fun handle =>
    (handle.torrent.step info.fileInfos (.checked task result)).map fun torrent =>
      s.giveStream h (handle.release task) torrent (handle.streamOf task)

/-- The steps of a torrent that streams have no part in; a task that ends drops its own. -/
def life (h : ℕ) (a : LifeStep L) : Option (Discovery L) :=
  s.handles[h]?.bind fun handle =>
    match a with
    | .managed (.start ..) | .managed (.prepareForceRecheck ..) | .managed (.checked ..) => none
    | .managed (.taskEnds task) =>
      (handle.torrent.life info.fileInfos a).map fun torrent =>
        (s.drop (handle.streamOf task)).setHandle h ((handle.release task).setTorrent torrent)
    | _ =>
      (handle.torrent.life info.fileInfos a).map fun torrent =>
        s.setHandle h (handle.setTorrent torrent)

/-! ## Feeding a torrent -/

/-- `drain_peer_stream` takes an address. -/
def feed (h k : ℕ) (pull : Pull) : Option (Discovery L) :=
  s.handles[h]?.bind fun handle => handle.feeders[k]?.bind fun feeder =>
    feeder.drained?.bind fun stream =>
      (stream.pull s.announces pull).map fun (_, stream, announces) =>
        (s.setAnnounces announces).setHandle h (handle.setFeeder k (feeder.withStream stream))

/-- The peer adder goes on to wait for a signal, other tasks are over. -/
def exhausted (h k : ℕ) : Option (Discovery L) :=
  s.handles[h]?.bind fun handle =>
    match handle.feeders[k]? with
    | some (.adder live (some stream)) =>
      some ((s.drop (some stream)).setHandle h (handle.setFeeder k (.adder live none)))
    | some (.added _ stream) =>
      some ((s.drop (some stream)).setHandle h (handle.setFeeder k .over))
    | _ => none

/-- The peer adder has got a signal, and the torrent is not finished. -/
def rediscover (h k : ℕ) : Option (Discovery L) :=
  s.handles[h]?.bind fun handle =>
    match handle.feeders[k]? with
    | some (.adder live none) =>
      let stream := s.makePeerRx config handle.trackers true [] info.isPrivate false
      some ((s.register stream true).setHandle h (handle.setFeeder k (.adder live stream)))
    | _ => none

def feederEnds (h k : ℕ) : Option (Discovery L) :=
  s.handles[h]?.bind fun handle =>
    match handle.feeders[k]? with
    | some (.adder _ stream) => some ((s.drop stream).setHandle h (handle.setFeeder k .over))
    | some (.added _ stream) =>
      some ((s.drop (some stream)).setHandle h (handle.setFeeder k .over))
    | _ => none

/-- A live torrent gets a stream of its own for the trackers that are new. -/
def addTrackers (h : ℕ) (trackers : List String) : Option (Discovery L) :=
  s.handles[h]?.map fun handle =>
    let added := trackers.dedup.filter (· ∉ handle.trackers)
    let s' := s.setHandle h { handle with trackers := handle.trackers ++ added }
    match handle.torrent.state, s.makePeerRx config added true [] (handle.isPrivate info) false with
    | .live _, some stream =>
      if added.isEmpty then s'
      else (s'.register (some stream) true).addCall (.addingSource h stream)
    | _, _ => s'

def addPeerStream (c : ℕ) : Option (Discovery L) :=
  match s.calls[c]? with
  | some (.addingSource h stream) =>
    s.handles[h]?.map fun handle =>
      match handle.torrent.state with
      | .live live =>
        (s.setHandle h
          { handle with feeders := handle.feeders ++ [.added live stream] }).setCall c .over
      | _ => (s.drop (some stream)).setCall c .over
  | _ => none

/-! ## Announces and messages -/

/-- A message of the local discovery about the torrent is received. -/
def lsdReceive (addr : PeerHandle) : Option (Discovery L) :=
  s.receiver.bind fun r => s.announces[r]?.map fun announce =>
    s.setAnnounces (s.announces.set r { announce with rx := announce.rx ++ [addr] })

/-- There is a port to reply with. -/
def replies : Bool := (s.receiver.bind (s.announces[·]?)).any Announce.port && s.announcePort.isSome

/-- `on_extended_handshake` -/
def extendedHandshake (h : ℕ) (peer : PeerHandle) (utPex : Bool) : Option (Discovery L) :=
  s.handles[h]?.map fun handle =>
    if !info.isPrivate && utPex then
      s.setHandle h { handle with sendingPex := handle.sendingPex ++ [peer] }
    else s

/-- `send_metadata_piece`: the range that is sent, with the arithmetic of `u32`. -/
def metadataPiece (infoBytes piece : ℕ) : Option (ℕ × ℕ) :=
  let offset := piece * chunkSize % 2 ^ 32
  let stop := min ((offset + chunkSize) % 2 ^ 32) infoBytes
  if infoBytes = 0 ∨ 2 ^ 32 ≤ infoBytes ∨ infoBytes ⌈/⌉ chunkSize < piece ∨ stop < offset then none
  else some (offset, stop)

/-- What a torrent that is not private does on an extension message. -/
def Message.answers (infoBytes : ℕ) (peer : PeerHandle) : Message → List Event
  | .utMetadataRequest piece =>
    ((metadataPiece infoBytes piece).map fun range => .utMetadata peer range.1 range.2).toList
  | .utPex peers => peers.map (.fed .peer)
  | .rendezvous target connected =>
    if connected then [.utHolepunch target, .utHolepunch peer] else [.utHolepunch peer]
  | .connect addr => [.fed .peer addr]
  | .error => []

/-! ## Steps -/

/-- The state after a step. -/
def next : Step L → Option (Discovery L)
  | .addTorrent add opts => s.addTorrent config info add opts
  | .nextAddr c pull => s.nextAddr c pull
  | .resolve c => s.resolve c
  | .fail c => s.fail c
  | .insert c sameId created => s.insert c sameId created
  | .stored c success => s.stored c success
  | .unpause h => s.unpause config info h
  | .forceRecheck h taken created => s.forceRecheck config info h taken created
  | .start c created => s.start c created
  | .addTrackers h trackers => s.addTrackers config info h trackers
  | .addPeerStream c => s.addPeerStream c
  | .remove => some (s.setManaged none)
  | .life h a => s.life info h a
  | .checked h task result => s.checked info h task result
  | .feed h k pull => s.feed h k pull
  | .exhausted h k => s.exhausted h k
  | .rediscover h k => s.rediscover config info h k
  | .feederEnds h k => s.feederEnds h k
  | .dhtAnnounce place =>
    if (s.streamAt place).bind PeerStream.dht = some true ∧ s.announcePort.isSome then some s
    else none
  | .lsdAnnounce r =>
    if s.announces[r]?.any Announce.port && s.announcePort.isSome then some s else none
  | .lsdReceive addr _ => s.lsdReceive addr
  | .setAnnouncePort port => some { s with announcePort := port }
  | .extendedHandshake h peer utPex => s.extendedHandshake info h peer utPex
  | .sendPex h j => s.handles[h]?.bind fun handle => handle.sendingPex[j]?.map fun _ => s
  | .pexEnds h j =>
    s.handles[h]?.map fun handle =>
      s.setHandle h { handle with sendingPex := handle.sendingPex.eraseIdx j }
  | .message h _ _ => s.handles[h]?.map fun _ => s

/-- What goes out. -/
def events : Step L → List Event
  | .feed h k pull =>
    (((s.drainedAt h k).bind (·.pull s.announces pull)).map fun (found, _) =>
      .fed found.1 found.2).toList
  | .dhtAnnounce _ => [.dhtAnnounce]
  | .lsdAnnounce _ => [.lsdAnnounce]
  | .lsdReceive _ reply => if reply && s.replies then [.lsdAnnounce] else []
  | .sendPex h j =>
    ((s.handles[h]?.bind fun handle => handle.sendingPex[j]?).map .utPex).toList
  | .message _ peer m => if info.isPrivate then [] else m.answers info.infoBytes peer
  | _ => []

/-- **One step.** -/
def step (a : Step L) : Option (Discovery L) :=
  (s.next config info a).map fun s' =>
    { s' with log := (if s.known then s.events info a else []) ++ s.log }

end Discovery

end Librtbit
