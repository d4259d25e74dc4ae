import Librtbit.Swarm.Peers

/-!
# Swarm/Tasks — everything that works on the peers of a live torrent at the same time

The peer map has a lock for each entry, the queue of the peer adder is a bounded channel, and the
state of a peer and its place in the queue are not changed together.  So a `step` here is what a
task does under one lock, or one operation on the queue or on a counter, and a list of labels is
one interleaving of:

* the calls of `add_peer_if_not_seen`, which insert a peer, count it and then queue it;
* the peer adder, which takes an address from the queue, and skips it or starts a connection;
* the connections, incoming and outgoing, up to the end of `on_peer_died`, and the timers that it
  leaves behind;
* the loops over the whole map, one entry at a time: the disconnection of the peers that have the
  full torrent, the reconnection of the ones that were not needed, the re-queueing of dead ones and
  the pruning.

The locks of these loops cover the sending of the address as well; everywhere else a task can be
overtaken between the two.
-/

namespace Librtbit

open Option

variable {L : Lengths}

/-! ## States -/

/-- A connection to a peer, as its `PeerHandler` knows it. -/
structure PeerHandler where
  addr : PeerHandle
  incoming : Bool
  /-- The `PeerCounters` of the peer it was opened for. -/
  counters : ℕ
  /-- Which of the connections of its address it is. -/
  generation : ℕ
  deriving DecidableEq

/-- The two sets of counters a peer is counted in. -/
inductive StatsOf where
  | torrent
  | session
  deriving DecidableEq

inductive SwarmTask where
  /-- `add_if_not_seen` has inserted the peer and has still to count it. -/
  | adding (addr : PeerHandle) (todo : List StatsOf)
  /-- The address is about to be queued. -/
  | sending (addr : PeerHandle)
  /-- `task_manage_outgoing_peer` was spawned. -/
  | dialing (addr : PeerHandle)
  /-- …and has marked the peer as connecting. -/
  | marked (addr : PeerHandle) (generation : ℕ)
  /-- There is a handler, and no connection yet. -/
  | connecting (handler : PeerHandler)
  | connected (handler : PeerHandler)
  /-- The connection has ended, with or without an error. -/
  | dying (handler : PeerHandler) (error : Bool)
  /-- `on_peer_died` has found the peer in a wrong state and is about to drop it. -/
  | dropping (handler : PeerHandler)
  /-- `drop_peer` has removed the peer and has still to take it out of the counters. -/
  | dropped (state : CountedState) (todo : List StatsOf)
  /-- The peer is dead, and is tried again later. -/
  | waiting (addr : PeerHandle)
  | over
  deriving DecidableEq

structure Swarm (L : Lengths) where
  peers : CountedPeers L := {}
  peerQueue : List PeerHandle := []
  /-- The address that the peer adder has taken from the queue. -/
  adder : Option PeerHandle := none
  tasks : List SwarmTask := []
  /-- Who downloads which piece. -/
  inflight : ValidPieceIndex L → Option PeerHandle := fun _ => none
  /-- How many connections of an address were begun: queued, or without having been queued. -/
  generation : PeerHandle → ℕ := fun _ => 0

/-- The addresses the peer adder does not connect to. -/
structure PeerFilter where
  ipv4Only : Bool
  blocklist : IpAddr → Bool
  allowlist : Option (IpAddr → Bool)

def IpAddr.isIpv6 : IpAddr → Bool
  | .v4 _ => false
  | .v6 _ => true

def PeerFilter.skips (filter : PeerFilter) (addr : PeerHandle) : Bool :=
  (filter.ipv4Only && addr.ip.isIpv6) || addr.port == 0 || filter.blocklist addr.ip ||
    filter.allowlist.any fun allowlist => !allowlist addr.ip

/-- The size of the queue of the peer adder. -/
def peerQueueSize : ℕ := 10000

/-! ## Steps -/

/-- What one task does next. -/
inductive SwarmTaskStep where
  /-- The next counter is incremented or decremented. -/
  | count
  | send
  | markPeerConnecting
  | getCounters
  | onConnected
  | onHandshake (kind : ConnectionKind)
  /-- The extended handshake can name a port, and an address. -/
  | onExtendedHandshake (ip : Option IpAddr) (port : Option UInt16)
  | ends (error : Bool)
  | onPeerDied (finished tracker : Bool)
  | dropPeer
  | wakes

inductive SwarmStep (L : Lengths) where
  | addPeerIfNotSeen (addr : PeerHandle)
  | addIncomingPeer (addr : PeerHandle) (kind : ConnectionKind)
  | adderReceives
  /-- The torrent is finished and does not upload. -/
  | adderMarksNotNeeded
  | adderSkips
  | adderSpawns
  | disconnectIfFull (addr : PeerHandle)
  | reconnectNotNeededPeer (addr : PeerHandle)
  | requeueDeadPeer (addr : PeerHandle)
  | pruneDeadPeer (addr : PeerHandle)
  | withLiveMut (addr : PeerHandle) (f : LivePeerState L → LivePeerState L)
  /-- A piece is given to a peer, or taken from it. -/
  | setOwner (p : ValidPieceIndex L) (owner : Option PeerHandle)
  | task (id : ℕ) (a : SwarmTaskStep)

namespace Swarm

variable (filter : PeerFilter) (s : Swarm L)

def withPeers (peers : CountedPeers L) : Swarm L := { s with peers }

/-- `try_send`: what does not fit into the queue is lost. -/
def trySend (addr : PeerHandle) : Swarm L :=
  if s.peerQueue.length < peerQueueSize then { s with peerQueue := s.peerQueue ++ [addr] } else s

def spawn (task : SwarmTask) : Swarm L := { s with tasks := s.tasks ++ [task] }

def setTask (id : ℕ) (task : SwarmTask) : Swarm L := { s with tasks := s.tasks.set id task }

/-- A peer is queued, connecting or live. -/
def isActive (addr : PeerHandle) : Bool := (s.peers.states addr).any fun e => !e.peer.isPrunable

/-- A new connection of the address begins, unless there is one already. -/
def begins (addr : PeerHandle) : Swarm L :=
  if s.isActive addr then s
  else { s with generation := Function.update s.generation addr (s.generation addr + 1) }

/-- `release_pieces_owned_by` -/
def releasePiecesOwnedBy (addr : PeerHandle) : Swarm L :=
  { s with inflight := fun p => if s.inflight p = some addr then none else s.inflight p }

/-- The number of the next `PeerCounters`, or the one the peer has. -/
def countersOf (addr : PeerHandle) : ℕ :=
  ((s.peers.states addr).map PeerEntry.counters).getD s.peers.allocated

/-- One operation on one of the two sets of counters. -/
def updateStats (f : AggregatePeerStats → AggregatePeerStats) : StatsOf → Swarm L
  | .torrent => s.withPeers { s.peers with stats := f s.peers.stats }
  | .session => s.withPeers { s.peers with sessionStats := f s.peers.sessionStats }

/-! ### The tasks -/

/-- The end of `on_peer_died`: only the death of a live peer gives its pieces back. -/
def onPeerDied (id : ℕ) (h : PeerHandler) (error finished tracker : Bool) : Swarm L :=
  let released :=
    if (s.peers.states h.addr).any PeerEntry.isLive then s.releasePiecesOwnedBy h.addr else s
  match s.peers.onPeerDied h.addr error finished tracker with
  | .gone => s.setTask id .over
  | .restored ps => (s.withPeers ps).setTask id .over
  | .wrongState ps => (s.withPeers ps).setTask id (.dropping h)
  | .noTracker ps => (s.withPeers ps).setTask id .over
  | .notNeeded ps => (released.withPeers ps).setTask id .over
  | .dead ps =>
    (released.withPeers ps).setTask id (if h.incoming then .over else .waiting h.addr)

/-- `mark_peer_connecting`: a task that finds its peer in another state gives up. -/
def markPeerConnecting (id : ℕ) (addr : PeerHandle) : Swarm L :=
  match s.peers.markPeerConnecting addr with
  | none => s.setTask id .over
  | some ps =>
    let s' := s.begins addr
    (s'.withPeers ps).setTask id (.marked addr (s'.generation addr))

/-- The peer can be removed before its counters are read. -/
def getCounters (id : ℕ) (addr : PeerHandle) (generation : ℕ) : Swarm L :=
  match s.peers.states addr with
  | none => s.setTask id .over
  | some e =>
    s.setTask id
      (.connecting { addr, incoming := false, counters := e.counters, generation })

/-- `set_peer_live`, for whatever state the peer of the address is in. -/
def onHandshake (addr : PeerHandle) (kind : ConnectionKind) : Swarm L :=
  match s.peers.setPeerLive addr kind with
  | none => s
  | some ps => s.withPeers ps

/-- `on_extended_handshake`: an incoming connection tells where the peer listens. -/
def onExtendedHandshake (h : PeerHandler) (ip : Option IpAddr) (port : Option UInt16) : Swarm L :=
  match port with
  | none => s
  | some port =>
    if h.incoming then
      match s.peers.updateOutgoingAddr h.addr ⟨ip.getD h.addr.ip, port⟩ with
      | none => s
      | some ps => s.withPeers ps
    else s

def dropPeer (id : ℕ) (addr : PeerHandle) : Swarm L :=
  match s.peers.dropPeer addr with
  | none => s.setTask id .over
  | some (ps, e) => (s.withPeers ps).setTask id (.dropped e.counted [.torrent, .session])

/-- The end of the timer of a dead peer. -/
def wakes (id : ℕ) (addr : PeerHandle) : Swarm L :=
  match s.peers.deadToQueued addr with
  | none => s.setTask id .over
  | some ps => ((s.begins addr).withPeers ps).setTask id (.sending addr)

def taskStep (id : ℕ) (task : SwarmTask) : SwarmTaskStep → Option (Swarm L)
  | .count =>
    match task with
    | .adding addr (which :: todo) =>
      some ((s.updateStats (·.atomicInc .queued) which).setTask id
        (if todo.isEmpty then .sending addr else .adding addr todo))
    | .dropped state (which :: todo) =>
      some ((s.updateStats (·.dec state.counters) which).setTask id
        (if todo.isEmpty then .over else .dropped state todo))
    | _ => none
  | .send =>
    match task with
    | .sending addr => some ((s.trySend addr).setTask id .over)
    | _ => none
  | .markPeerConnecting =>
    match task with
    | .dialing addr => some (s.markPeerConnecting id addr)
    | _ => none
  | .getCounters =>
    match task with
    | .marked addr generation => some (s.getCounters id addr generation)
    | _ => none
  | .onConnected =>
    match task with
    | .connecting h =>
      some ((s.withPeers (s.peers.onConnected h.counters)).setTask id (.connected h))
    | _ => none
  | .onHandshake kind =>
    match task with
    | .connected h => some (s.onHandshake h.addr kind)
    | _ => none
  | .onExtendedHandshake ip port =>
    match task with
    | .connected h => some (s.onExtendedHandshake h ip port)
    | _ => none
  | .ends error =>
    match task with
    | .connecting h | .connected h => some (s.setTask id (.dying h error))
    | _ => none
  | .onPeerDied finished tracker =>
    match task with
    | .dying h error => some (s.onPeerDied id h error finished tracker)
    | _ => none
  | .dropPeer =>
    match task with
    | .dropping h => some (s.dropPeer id h.addr)
    | _ => none
  | .wakes =>
    match task with
    | .waiting addr => some (s.wakes id addr)
    | _ => none

/-- **One step of the system.** -/
def step : SwarmStep L → Option (Swarm L)
  | .addPeerIfNotSeen addr =>
    (s.peers.addIfNotSeen addr).map fun ps =>
      ((s.begins addr).withPeers ps).spawn (.adding addr [.torrent, .session])
  | .addIncomingPeer addr kind =>
    (s.peers.addIncomingPeer addr kind).map fun ps =>
      let s' := s.begins addr
      (s'.withPeers ps).spawn (.connected
        { addr, incoming := true, counters := s.countersOf addr, generation := s'.generation addr })
  | .adderReceives =>
    match s.adder, s.peerQueue with
    | none, addr :: peerQueue => some { s with adder := some addr, peerQueue }
    | _, _ => none
  | .adderMarksNotNeeded =>
    s.adder.map fun addr =>
      { s.withPeers ((s.peers.markPeerNotNeeded addr).getD s.peers) with adder := none }
  | .adderSkips =>
    s.adder.bind fun addr => if filter.skips addr then some { s with adder := none } else none
  | .adderSpawns =>
    s.adder.bind fun addr =>
      if filter.skips addr then none else some ({ s with adder := none }.spawn (.dialing addr))
  | .disconnectIfFull addr => (s.peers.disconnectIfFull addr).map s.withPeers
  | .reconnectNotNeededPeer addr =>
    (s.peers.reconnectNotNeededPeer addr).map fun (ps, outgoing) =>
      (((if addr = outgoing then s.begins addr else s)).withPeers ps).trySend outgoing
  | .requeueDeadPeer addr =>
    (s.peers.deadToQueued addr).map fun ps => ((s.begins addr).withPeers ps).trySend addr
  | .pruneDeadPeer addr => (s.peers.pruneDeadPeer addr).map s.withPeers
  | .withLiveMut addr f => (s.peers.withLiveMut addr f).map s.withPeers
  | .setOwner p owner => some { s with inflight := Function.update s.inflight p owner }
  | .task id a => (s.tasks[id]?).bind fun task => s.taskStep id task a

/-! ## What the parts of a step leave alone -/

section

variable {s : Swarm L} (addr : PeerHandle)

@[simp] lemma peers_trySend : (s.trySend addr).peers = s.peers := by
  rw [trySend]
  split <;> rfl

@[simp] lemma peers_withPeers (peers : CountedPeers L) : (s.withPeers peers).peers = peers := rfl

variable (id : ℕ)

@[simp] lemma peers_setTask (task : SwarmTask) : (s.setTask id task).peers = s.peers :=
  rfl

@[simp] lemma peers_spawn (task : SwarmTask) : (s.spawn task).peers = s.peers := rfl

lemma peers_onPeerDied (h : PeerHandler) (error finished tracker : Bool) :
    (s.onPeerDied id h error finished tracker).peers =
      (s.peers.onPeerDied h.addr error finished tracker).peers s.peers := by
  rw [onPeerDied]
  cases s.peers.onPeerDied h.addr error finished tracker <;> rfl

@[simp] lemma tasks_begins : (s.begins addr).tasks = s.tasks := by
  rw [begins]
  split <;> rfl

@[simp] lemma tasks_trySend : (s.trySend addr).tasks = s.tasks := by
  rw [trySend]
  split <;> rfl

@[simp] lemma peerQueue_begins : (s.begins addr).peerQueue = s.peerQueue := by
  rw [begins]
  split <;> rfl

lemma peerQueue_onPeerDied (h : PeerHandler) (error finished tracker : Bool) :
    (s.onPeerDied id h error finished tracker).peerQueue = s.peerQueue := by
  rw [onPeerDied]
  split <;> try rfl
  all_goals
    split <;> rfl

/-- After its death a connection is over, about to drop the peer, or waiting to try again. -/
lemma exists_tasks_onPeerDied (h : PeerHandler) (error finished tracker : Bool) :
    ∃ task, (s.onPeerDied id h error finished tracker).tasks = s.tasks.set id task ∧
      (s.onPeerDied id h error finished tracker).adder = s.adder ∧
      (task = .over ∨ task = .dropping h ∨ task = .waiting h.addr) := by
  rw [onPeerDied]
  generalize hreleased :
    (if (s.peers.states h.addr).any PeerEntry.isLive then s.releasePiecesOwnedBy h.addr else s) =
      released
  have hsame : released.tasks = s.tasks ∧ released.adder = s.adder := by
    rw [← hreleased]
    split <;> exact ⟨rfl, rfl⟩
  cases s.peers.onPeerDied h.addr error finished tracker with
  | gone | restored | noTracker => exact ⟨.over, rfl, rfl, .inl rfl⟩
  | wrongState => exact ⟨.dropping h, rfl, rfl, .inr (.inl rfl)⟩
  | notNeeded ps => exact ⟨.over, by rw [← hsame.1]; rfl, hsame.2, .inl rfl⟩
  | dead ps =>
    refine ⟨if h.incoming then .over else .waiting h.addr, by rw [← hsame.1]; rfl, hsame.2, ?_⟩
    split
    · exact .inl rfl
    · exact .inr (.inr rfl)

end

/-! ## Every way a step can go -/

/-- One constructor for each way; what a task of the wrong kind is asked to do is not a step. -/
inductive Effect : SwarmStep L → Swarm L → Prop
  | addPeerIfNotSeen {addr ps} (hps : s.peers.addIfNotSeen addr = some ps) :
    Effect (.addPeerIfNotSeen addr)
      (((s.begins addr).withPeers ps).spawn (.adding addr [.torrent, .session]))
  | addIncomingPeer {addr kind ps} (hps : s.peers.addIncomingPeer addr kind = some ps) :
    Effect (.addIncomingPeer addr kind)
      (((s.begins addr).withPeers ps).spawn (.connected
        { addr, incoming := true, counters := s.countersOf addr,
          generation := (s.begins addr).generation addr }))
  | adderReceives {addr peerQueue} (hadder : s.adder = none)
      (hqueue : s.peerQueue = addr :: peerQueue) :
    Effect .adderReceives { s with adder := some addr, peerQueue }
  | adderMarksNotNeeded {addr} (hadder : s.adder = some addr) :
    Effect .adderMarksNotNeeded
      { s.withPeers ((s.peers.markPeerNotNeeded addr).getD s.peers) with adder := none }
  | adderSkips {addr} (hadder : s.adder = some addr) (hskips : filter.skips addr = true) :
    Effect .adderSkips { s with adder := none }
  | adderSpawns {addr} (hadder : s.adder = some addr) (hskips : filter.skips addr = false) :
    Effect .adderSpawns ({ s with adder := none }.spawn (.dialing addr))
  | disconnectIfFull {addr ps} (hps : s.peers.disconnectIfFull addr = some ps) :
    Effect (.disconnectIfFull addr) (s.withPeers ps)
  | reconnectNotNeededPeer {addr ps outgoing}
      (hps : s.peers.reconnectNotNeededPeer addr = some (ps, outgoing)) :
    Effect (.reconnectNotNeededPeer addr)
      (((if addr = outgoing then s.begins addr else s).withPeers ps).trySend outgoing)
  | requeueDeadPeer {addr ps} (hps : s.peers.deadToQueued addr = some ps) :
    Effect (.requeueDeadPeer addr) (((s.begins addr).withPeers ps).trySend addr)
  | pruneDeadPeer {addr ps} (hps : s.peers.pruneDeadPeer addr = some ps) :
    Effect (.pruneDeadPeer addr) (s.withPeers ps)
  | withLiveMut {addr f ps} (hps : s.peers.withLiveMut addr f = some ps) :
    Effect (.withLiveMut addr f) (s.withPeers ps)
  | setOwner (p owner) :
    Effect (.setOwner p owner) { s with inflight := Function.update s.inflight p owner }
  | countsAdded {id addr which todo}
      (htask : s.tasks[id]? = some (.adding addr (which :: todo))) :
    Effect (.task id .count)
      ((s.updateStats (·.atomicInc .queued) which).setTask id
        (if todo.isEmpty then .sending addr else .adding addr todo))
  | countsDropped {id state which todo}
      (htask : s.tasks[id]? = some (.dropped state (which :: todo))) :
    Effect (.task id .count)
      ((s.updateStats (·.dec state.counters) which).setTask id
        (if todo.isEmpty then .over else .dropped state todo))
  | sends {id addr} (htask : s.tasks[id]? = some (.sending addr)) :
    Effect (.task id .send) ((s.trySend addr).setTask id .over)
  | marks {id addr ps} (htask : s.tasks[id]? = some (.dialing addr))
      (hps : s.peers.markPeerConnecting addr = some ps) :
    Effect (.task id .markPeerConnecting)
      (((s.begins addr).withPeers ps).setTask id (.marked addr ((s.begins addr).generation addr)))
  | marksNot {id addr} (htask : s.tasks[id]? = some (.dialing addr))
      (hps : s.peers.markPeerConnecting addr = none) :
    Effect (.task id .markPeerConnecting) (s.setTask id .over)
  | getsCounters {id addr generation e} (htask : s.tasks[id]? = some (.marked addr generation))
      (he : s.peers.states addr = some e) :
    Effect (.task id .getCounters)
      (s.setTask id (.connecting { addr, incoming := false, counters := e.counters, generation }))
  | getsNoCounters {id addr generation} (htask : s.tasks[id]? = some (.marked addr generation))
      (he : s.peers.states addr = none) :
    Effect (.task id .getCounters) (s.setTask id .over)
  | onConnected {id h} (htask : s.tasks[id]? = some (.connecting h)) :
    Effect (.task id .onConnected)
      ((s.withPeers (s.peers.onConnected h.counters)).setTask id (.connected h))
  | onHandshake {id h kind ps} (htask : s.tasks[id]? = some (.connected h))
      (hps : s.peers.setPeerLive h.addr kind = some ps) :
    Effect (.task id (.onHandshake kind)) (s.withPeers ps)
  | ignoresHandshake {id h kind} (htask : s.tasks[id]? = some (.connected h))
      (hps : s.peers.setPeerLive h.addr kind = none) :
    Effect (.task id (.onHandshake kind)) s
  | onExtendedHandshake {id h ip port ps} (htask : s.tasks[id]? = some (.connected h))
      (hincoming : h.incoming = true)
      (hps : s.peers.updateOutgoingAddr h.addr ⟨ip.getD h.addr.ip, port⟩ = some ps) :
    Effect (.task id (.onExtendedHandshake ip (some port))) (s.withPeers ps)
  | ignoresExtendedHandshake {id h ip port} (htask : s.tasks[id]? = some (.connected h))
      (hnot : ∀ p ∈ port, h.incoming = true → s.peers.states h.addr = none) :
    Effect (.task id (.onExtendedHandshake ip port)) s
  | ends {id h error}
      (htask : s.tasks[id]? = some (.connecting h) ∨ s.tasks[id]? = some (.connected h)) :
    Effect (.task id (.ends error)) (s.setTask id (.dying h error))
  | onPeerDied {id h error} (finished tracker : Bool)
      (htask : s.tasks[id]? = some (.dying h error)) :
    Effect (.task id (.onPeerDied finished tracker)) (s.onPeerDied id h error finished tracker)
  | drops {id h e} (htask : s.tasks[id]? = some (.dropping h))
      (he : s.peers.states h.addr = some e) :
    Effect (.task id .dropPeer)
      ((s.withPeers (s.peers.remove h.addr)).setTask id (.dropped e.counted [.torrent, .session]))
  | dropsNothing {id h} (htask : s.tasks[id]? = some (.dropping h))
      (he : s.peers.states h.addr = none) :
    Effect (.task id .dropPeer) (s.setTask id .over)
  | wakes {id addr ps} (htask : s.tasks[id]? = some (.waiting addr))
      (hps : s.peers.deadToQueued addr = some ps) :
    Effect (.task id .wakes) (((s.begins addr).withPeers ps).setTask id (.sending addr))
  | wakesLate {id addr} (htask : s.tasks[id]? = some (.waiting addr))
      (hps : s.peers.deadToQueued addr = none) :
    Effect (.task id .wakes) (s.setTask id .over)

variable {filter s}

lemma effect_of_taskStep {s' id task}
    (htask : s.tasks[id]? = some task) {a} (hs : s.taskStep id task a = some s') :
    s.Effect filter (.task id a) s' := by
  rw [taskStep.eq_def] at hs
  cases a with
  | count =>
    dsimp only at hs
    split at hs
    · cases hs
      exact .countsAdded htask
    · cases hs
      exact .countsDropped htask
    · cases hs
  | send =>
    dsimp only at hs
    split at hs <;> cases hs
    exact .sends htask
  | markPeerConnecting =>
    dsimp only at hs
    split at hs <;> cases hs
    rw [markPeerConnecting]
    split
    · next hps => exact .marksNot htask hps
    · next ps hps => exact .marks htask hps
  | getCounters =>
    dsimp only at hs
    split at hs <;> cases hs
    rw [getCounters]
    split
    · next he => exact .getsNoCounters htask he
    · next e he => exact .getsCounters htask he
  | onConnected =>
    dsimp only at hs
    split at hs <;> cases hs
    exact .onConnected htask
  | onHandshake kind =>
    dsimp only at hs
    split at hs <;> cases hs
    rw [onHandshake]
    split
    · next hps => exact .ignoresHandshake htask hps
    · next ps hps => exact .onHandshake htask hps
  | onExtendedHandshake ip port =>
    dsimp only at hs
    split at hs <;> cases hs
    rw [onExtendedHandshake.eq_def]
    split
    · exact .ignoresExtendedHandshake htask nofun
    split
    · next hincoming =>
      split
      · next hps =>
        exact .ignoresExtendedHandshake htask fun _ _ _ => map_eq_none_iff.mp hps
      · next ps hps => exact .onExtendedHandshake htask hincoming hps
    · next hincoming =>
      exact .ignoresExtendedHandshake htask fun _ _ h => absurd h hincoming
  | ends error =>
    dsimp only at hs
    split at hs
    · cases hs
      exact .ends (.inl htask)
    · cases hs
      exact .ends (.inr htask)
    · cases hs
  | onPeerDied finished tracker =>
    dsimp only at hs
    split at hs <;> cases hs
    exact .onPeerDied finished tracker htask
  | dropPeer =>
    dsimp only at hs
    split at hs <;> cases hs
    rw [dropPeer]
    split
    · next hps => exact .dropsNothing htask (map_eq_none_iff.mp hps)
    next ps e hps =>
    obtain ⟨e', he, heq⟩ := map_eq_some_iff.mp hps
    cases heq
    exact .drops htask he
  | wakes =>
    dsimp only at hs
    split at hs <;> cases hs
    rw [wakes]
    split
    · next hps => exact .wakesLate htask hps
    · next ps hps => exact .wakes htask hps

/-- **Every step goes one of these ways.** -/
theorem effect_of_step {s' a} (hs : s.step filter a = some s') :
    s.Effect filter a s' := by
  cases a with
  | addPeerIfNotSeen addr =>
    obtain ⟨ps, hps, rfl⟩ := map_eq_some_iff.mp hs
    exact .addPeerIfNotSeen hps
  | addIncomingPeer addr kind =>
    obtain ⟨ps, hps, rfl⟩ := map_eq_some_iff.mp hs
    exact .addIncomingPeer hps
  | adderReceives =>
    rw [step.eq_def] at hs
    dsimp only at hs
    split at hs
    · next hadder hqueue =>
      cases hs
      exact .adderReceives hadder hqueue
    · cases hs
  | adderMarksNotNeeded =>
    obtain ⟨addr, hadder, rfl⟩ := map_eq_some_iff.mp hs
    exact .adderMarksNotNeeded hadder
  | adderSkips =>
    obtain ⟨addr, hadder, hs⟩ := bind_eq_some_iff.mp hs
    split at hs
    · next hskips =>
      cases hs
      exact .adderSkips hadder hskips
    · cases hs
  | adderSpawns =>
    obtain ⟨addr, hadder, hs⟩ := bind_eq_some_iff.mp hs
    split at hs
    · cases hs
    · next hskips =>
      cases hs
      exact .adderSpawns hadder (Bool.eq_false_of_not_eq_true hskips)
  | disconnectIfFull addr =>
    obtain ⟨ps, hps, rfl⟩ := map_eq_some_iff.mp hs
    exact .disconnectIfFull hps
  | reconnectNotNeededPeer addr =>
    obtain ⟨⟨ps, outgoing⟩, hps, rfl⟩ := map_eq_some_iff.mp hs
    exact .reconnectNotNeededPeer hps
  | requeueDeadPeer addr =>
    obtain ⟨ps, hps, rfl⟩ := map_eq_some_iff.mp hs
    exact .requeueDeadPeer hps
  | pruneDeadPeer addr =>
    obtain ⟨ps, hps, rfl⟩ := map_eq_some_iff.mp hs
    exact .pruneDeadPeer hps
  | withLiveMut addr f =>
    obtain ⟨ps, hps, rfl⟩ := map_eq_some_iff.mp hs
    exact .withLiveMut hps
  | setOwner p owner =>
    cases hs
    exact .setOwner p owner
  | task id a =>
    obtain ⟨task, htask, hs⟩ := bind_eq_some_iff.mp hs
    exact effect_of_taskStep htask hs

/-! ### Parts of runs -/

/-- No address is skipped. -/
def noFilter : PeerFilter where
  ipv4Only := false
  blocklist := fun _ => false
  allowlist := none

/-- A peer. -/
def listening : PeerHandle := ⟨.v4 1, 1⟩

/-- A peer is found, and the adder connects to it: the first and the second task of a run. -/
def dials (addr : PeerHandle) : List (SwarmStep L) :=
  [.addPeerIfNotSeen addr, .task 0 .count, .task 0 .count, .task 0 .send,
    .adderReceives, .adderSpawns,
    .task 1 .markPeerConnecting, .task 1 .getCounters, .task 1 .onConnected,
    .task 1 (.onHandshake .tcp)]

end Swarm

end Librtbit
