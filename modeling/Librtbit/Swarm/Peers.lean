import Librtbit.Live.Peers

/-!
# Swarm/Peers — the peer map with everything that is kept next to it

Next to the map of the peers a live torrent keeps how many of them are in each state, once for
itself and once for the session, and the set of the addresses it is connected to.  All of it is
updated where the state of a peer is: in `set_state`, which every method of `Peer` goes through,
and in the few methods that put a peer into the map or take it out.

The counters are integers here.  The code keeps them in 32 bits, which are enough for the peers of
a map in memory, and what can go wrong is that one of them is decremented at zero: this is noted in
`underflowed`.
-/

namespace Librtbit

open Function Option

variable {L : Lengths}

/-! ## How many peers are in which state -/

inductive ConnectionKind where
  | tcp
  | utp
  | socks
  deriving DecidableEq

/-- The counters of `AggregatePeerStats` that depend on the states of the peers. -/
inductive PeerCounter where
  | queued
  | connecting
  | live
  | liveKind (kind : ConnectionKind)
  | dead
  | notNeeded
  deriving DecidableEq

/-- The state of a peer, as far as it is counted. -/
inductive CountedState where
  | queued
  | connecting
  | live (kind : ConnectionKind)
  | dead
  | notNeeded
  deriving DecidableEq

/-- The counters of a state, in the order in which they are touched. -/
def CountedState.counters : CountedState → List PeerCounter
  | .queued => [.queued]
  | .connecting => [.connecting]
  | .live kind => [.liveKind kind, .live]
  | .dead => [.dead]
  | .notNeeded => [.notNeeded]

def PeerState.counted (kind : ConnectionKind) : PeerState L → CountedState
  | .queued => .queued
  | .connecting => .connecting
  | .live _ => .live kind
  | .dead => .dead
  | .notNeeded => .notNeeded

structure AggregatePeerStats where
  value : PeerCounter → ℤ := fun _ => 0
  /-- A counter was decremented that was not positive. -/
  underflowed : Bool := false

namespace AggregatePeerStats

variable (stats : AggregatePeerStats)

def atomicInc (c : PeerCounter) : AggregatePeerStats :=
  { stats with value := update stats.value c (stats.value c + 1) }

def atomicDec (c : PeerCounter) : AggregatePeerStats where
  value := update stats.value c (stats.value c - 1)
  underflowed := stats.underflowed || decide (stats.value c ≤ 0)

def inc (counters : List PeerCounter) : AggregatePeerStats := counters.foldl atomicInc stats

def dec (counters : List PeerCounter) : AggregatePeerStats := counters.foldl atomicDec stats

def incdec (old new : List PeerCounter) : AggregatePeerStats := (stats.dec old).inc new

end AggregatePeerStats

/-! ## The peer map -/

/-- A peer of the map, with what its statistics are needed for. -/
structure PeerEntry (L : Lengths) where
  peer : Peer L
  /-- How we are connected to the peer, as long as it is live. -/
  kind : ConnectionKind := .tcp
  /-- Which `PeerCounters` the peer has: its connections share them and can outlive the entry. -/
  counters : ℕ

namespace PeerEntry

variable (e : PeerEntry L)

def withState (new : PeerState L) (kind : ConnectionKind := e.kind) : PeerEntry L :=
  { e with peer := e.peer.setState new, kind }

def counted : CountedState := e.peer.state.counted e.kind

/-- The counters of the torrent and of the session that count this peer. -/
def countedIn : List PeerCounter := e.counted.counters

def isLive : Bool := e.peer.isLive

end PeerEntry

/-- `PeerStates`, with the connections that were made to each peer. -/
structure CountedPeers (L : Lengths) where
  states : PeerHandle → Option (PeerEntry L) := fun _ => none
  sessionStats : AggregatePeerStats := {}
  stats : AggregatePeerStats := {}
  /-- This keeps track of live addresses we connected to, for PEX. -/
  liveOutgoingPeers : Finset PeerHandle := ∅
  /-- The `outgoing_connections` of every `PeerCounters` that was made. -/
  outgoingConnections : ℕ → ℕ := fun _ => 0
  /-- How many `PeerCounters` were made. -/
  allocated : ℕ := 0

namespace CountedPeers

variable (ps : CountedPeers L) (addr : PeerHandle)

/-! ### One peer -/

/-- The set of live addresses when a peer changes its state. -/
def liveOutgoingAfter (e : PeerEntry L) (new : PeerState L) : Finset PeerHandle :=
  match e.peer.outgoingAddress with
  | none => ps.liveOutgoingPeers
  | some a =>
    let left := if e.isLive then ps.liveOutgoingPeers.erase a else ps.liveOutgoingPeers
    if (e.withState new).isLive && decide (0 < ps.outgoingConnections e.counters) then
      insert a left
    else left

/-- `set_state`, for the peer `e` of the address. -/
def setState (e : PeerEntry L) (new : PeerState L) (kind : ConnectionKind := e.kind) :
    CountedPeers L :=
  { ps with
    sessionStats := ps.sessionStats.incdec e.countedIn (e.withState new kind).countedIn
    stats := ps.stats.incdec e.countedIn (e.withState new kind).countedIn
    liveOutgoingPeers := ps.liveOutgoingAfter e new
    states := update ps.states addr (some (e.withState new kind)) }

/-- `take_state` -/
def takeState (e : PeerEntry L) : CountedPeers L := ps.setState addr e .queued

/-- `take_state` and then `set_state`. -/
def takeAndSetState (e : PeerEntry L) (new : PeerState L) (kind : ConnectionKind := e.kind) :
    CountedPeers L :=
  (ps.takeState addr e).setState addr (e.withState .queued) new kind

/-- A new entry of the map. -/
def insert (peer : Peer L) (kind : ConnectionKind := .tcp) : CountedPeers L :=
  { ps with
    states := update ps.states addr (some { peer, kind, counters := ps.allocated })
    allocated := ps.allocated + 1 }

def remove : CountedPeers L := { ps with states := update ps.states addr none }

/-! ### The methods, each as far as it goes under the lock of the entry

They give `none` where the map is left as it is. -/

/-- The insertion of `add_if_not_seen`: the peer is counted when the lock is given back. -/
def addIfNotSeen : Option (CountedPeers L) :=
  match ps.states addr with
  | some _ => none
  | none => some (ps.insert addr (Peer.newWithOutgoingAddress addr))

/-- The entry of `add_incoming_peer`. -/
def addIncomingPeer (kind : ConnectionKind) : Option (CountedPeers L) :=
  match ps.states addr with
  | some e =>
    match e.peer.state with
    | .connecting | .live _ => none
    | .queued | .dead | .notNeeded =>
      some (ps.takeAndSetState addr e (.live { peerInterested := true }) kind)
  | none =>
    let counters : List PeerCounter := [.liveKind kind, .live]
    some ({ ps with
      sessionStats := ps.sessionStats.inc counters
      stats := ps.stats.inc counters }.insert addr Peer.newLiveForIncomingConnection kind)

/-- `mark_peer_connecting` -/
def markPeerConnecting : Option (CountedPeers L) :=
  (ps.states addr).bind fun e =>
    match e.peer.state with
    | .queued | .notNeeded => some (ps.setState addr e .connecting)
    | .connecting | .live _ | .dead => none

/-- `set_peer_live` -/
def setPeerLive (kind : ConnectionKind) : Option (CountedPeers L) :=
  (ps.states addr).bind fun e =>
    match e.peer.state with
    | .connecting => some (ps.takeAndSetState addr e (.live { peerInterested := false }) kind)
    | .queued | .live _ | .dead | .notNeeded => none

/-- `mark_peer_not_needed` -/
def markPeerNotNeeded : Option (CountedPeers L) :=
  (ps.states addr).map fun e => ps.setState addr e .notNeeded

/-- `disconnect_all_peers_that_have_full_torrent`, for one peer of the loop. -/
def disconnectIfFull : Option (CountedPeers L) :=
  (ps.states addr).bind fun e =>
    match e.peer.state with
    | .live live => if live.hasFullTorrent then some (ps.setState addr e .notNeeded) else none
    | .queued | .connecting | .dead | .notNeeded => none

/-- `reconnect_not_needed_peer`: also the address to queue. -/
def reconnectNotNeededPeer : Option (CountedPeers L × SocketAddr) :=
  (ps.states addr).bind fun e =>
    match e.peer.state with
    | .notNeeded =>
      e.peer.outgoingAddress.map fun outgoing =>
        (if addr = outgoing then ps.setState addr e .queued else ps, outgoing)
    | .queued | .connecting | .live _ | .dead => none

/-- A dead peer is to be tried again. -/
def deadToQueued : Option (CountedPeers L) :=
  (ps.states addr).bind fun e =>
    match e.peer.state with
    | .dead => some (ps.setState addr e .queued)
    | .queued | .connecting | .live _ | .notNeeded => none

/-- The end of `on_extended_handshake`. -/
def updateOutgoingAddr (outgoing : SocketAddr) : Option (CountedPeers L) :=
  (ps.states addr).map fun e =>
    { ps with
      states := update ps.states addr
        (some { e with peer := { e.peer with outgoingAddress := some outgoing } }) }

/-- What the messages of a peer change in its live state. -/
def withLiveMut (f : LivePeerState L → LivePeerState L) : Option (CountedPeers L) :=
  (ps.states addr).bind fun e =>
    e.peer.getLive.map fun live =>
      { ps with
        states := update ps.states addr
          (some { e with peer := e.peer.setState (.live (f live)) }) }

/-- `on_connected` -/
def onConnected (counters : ℕ) : CountedPeers L :=
  { ps with
    outgoingConnections :=
      update ps.outgoingConnections counters (ps.outgoingConnections counters + 1) }

/-- `drop_peer`: the peer is counted until the lock is given back. -/
def dropPeer : Option (CountedPeers L × PeerEntry L) :=
  (ps.states addr).map fun e => (ps.remove addr, e)

/-- The peer is counted no longer, in the order in which the loops have the two statistics. -/
def uncount (counters : List PeerCounter) : CountedPeers L :=
  { ps with sessionStats := ps.sessionStats.dec counters, stats := ps.stats.dec counters }

/-- `prune_dead_peers`, for one peer that has not changed its state for too long. -/
def pruneDeadPeer : Option (CountedPeers L) :=
  (ps.states addr).bind fun e =>
    if e.peer.isPrunable then some ((ps.uncount e.countedIn).remove addr) else none

/-- `destroy`, for one peer of a torrent that is dropped. -/
def destroy : Option (CountedPeers L) :=
  (ps.states addr).map fun e =>
    { (ps.uncount e.countedIn).remove addr with
      liveOutgoingPeers :=
        match e.peer.outgoingAddress with
        | some a => if e.isLive then ps.liveOutgoingPeers.erase a else ps.liveOutgoingPeers
        | none => ps.liveOutgoingPeers }

/-! ### The death of a connection -/

/-- What `on_peer_died` finds in the map, after it has taken the state. -/
inductive Death (L : Lengths) where
  /-- The peer is not in the map. -/
  | gone
  /-- The peer was not needed, and is not. -/
  | restored (ps : CountedPeers L)
  /-- The peer was queued or dead: it is to be dropped. -/
  | wrongState (ps : CountedPeers L)
  /-- The piece tracker is not there any more: the peer stays as it is. -/
  | noTracker (ps : CountedPeers L)
  | notNeeded (ps : CountedPeers L)
  | dead (ps : CountedPeers L)

/-- The map afterwards. -/
def Death.peers (ps : CountedPeers L) : Death L → CountedPeers L
  | .gone => ps
  | .restored ps' | .wrongState ps' | .noTracker ps' | .notNeeded ps' | .dead ps' => ps'

/-- `on_peer_died`, up to where it gives the lock of the entry back: whether the connection ended
with an error, whether there is nothing to download, and whether the torrent is still live. -/
def onPeerDied (error finished tracker : Bool) : Death L :=
  match ps.states addr with
  | none => .gone
  | some e =>
    match e.peer.state with
    | .notNeeded => .restored (ps.takeAndSetState addr e .notNeeded)
    | .queued | .dead => .wrongState (ps.takeState addr e)
    | .connecting =>
      if !error || finished then .notNeeded (ps.takeAndSetState addr e .notNeeded)
      else .dead (ps.takeAndSetState addr e .dead)
    | .live _ =>
      if !tracker then .noTracker (ps.takeState addr e)
      else if !error || finished then .notNeeded (ps.takeAndSetState addr e .notNeeded)
      else .dead (ps.takeAndSetState addr e .dead)

end CountedPeers

/-! ### The entries afterwards -/

lemma PeerEntry.withState_eq_self_iff {e : PeerEntry L} {new : PeerState L} :
    e.withState new = e ↔ new = e.peer.state := by
  constructor
  · intro h
    exact congrArg (fun e => e.peer.state) h
  · rintro rfl
    rfl

/-- What `on_peer_died` makes of a peer. -/
def PeerEntry.afterDeath (e : PeerEntry L) (error finished tracker : Bool) : PeerState L :=
  match e.peer.state with
  | .notNeeded => .notNeeded
  | .queued | .dead => .queued
  | .connecting => if !error || finished then .notNeeded else .dead
  | .live _ => if !tracker then .queued else if !error || finished then .notNeeded else .dead

namespace CountedPeers

variable {ps : CountedPeers L} {addr : PeerHandle} {e : PeerEntry L}

lemma isLive_of_state {state} (he : e.peer.state = state) :
    e.isLive = (e.withState state).isLive := by
  rw [PeerEntry.isLive, Peer.isLive, Peer.getLive, he]
  rfl

variable (new : PeerState L)

lemma states_setState (kind : ConnectionKind) :
    (ps.setState addr e new kind).states =
      update ps.states addr (some (e.withState new kind)) := rfl

lemma states_takeAndSetState (kind : ConnectionKind) :
    (ps.takeAndSetState addr e new kind).states =
      update ps.states addr (some (e.withState new kind)) := by
  rw [takeAndSetState, states_setState, takeState, states_setState, update_idem]
  rfl

/-! ### What the methods do when they do something -/

variable {ps' : CountedPeers L}

lemma of_addIfNotSeen (hps : ps.addIfNotSeen addr = some ps') :
    ps.states addr = none ∧ ps' = ps.insert addr (Peer.newWithOutgoingAddress addr) := by
  rw [addIfNotSeen] at hps
  split at hps
  · cases hps
  · next hnone => exact ⟨hnone, (Option.some.inj hps).symm⟩

variable {kind : ConnectionKind}

lemma of_addIncomingPeer (hps : ps.addIncomingPeer addr kind = some ps') :
    (∃ e, ps.states addr = some e ∧ e.isLive = false ∧
      ps' = ps.takeAndSetState addr e (.live { peerInterested := true }) kind) ∨
    ps.states addr = none ∧
      ps' = { ps with
        sessionStats := ps.sessionStats.inc [.liveKind kind, .live]
        stats := ps.stats.inc [.liveKind kind, .live] }.insert addr
          Peer.newLiveForIncomingConnection kind := by
  rw [addIncomingPeer] at hps
  split at hps
  · next e he =>
    refine .inl ⟨e, he, ?_⟩
    split at hps
    · cases hps
    · cases hps
    all_goals
      next hstate =>
      exact ⟨isLive_of_state hstate, (Option.some.inj hps).symm⟩
  · next hnone => exact .inr ⟨hnone, (Option.some.inj hps).symm⟩

lemma of_markPeerConnecting (hps : ps.markPeerConnecting addr = some ps') :
    ∃ e, ps.states addr = some e ∧ e.isLive = false ∧ ps' = ps.setState addr e .connecting := by
  obtain ⟨e, he, hps⟩ := bind_eq_some_iff.mp hps
  refine ⟨e, he, ?_⟩
  split at hps
  case h_1 hstate | h_2 hstate =>
    exact ⟨isLive_of_state hstate, (Option.some.inj hps).symm⟩
  all_goals cases hps

lemma of_setPeerLive (hps : ps.setPeerLive addr kind = some ps') :
    ∃ e, ps.states addr = some e ∧ e.peer.state = .connecting ∧
      ps' = ps.takeAndSetState addr e (.live { peerInterested := false }) kind := by
  obtain ⟨e, he, hps⟩ := bind_eq_some_iff.mp hps
  refine ⟨e, he, ?_⟩
  split at hps
  case h_1 hstate => exact ⟨hstate, (Option.some.inj hps).symm⟩
  all_goals cases hps

lemma getD_markPeerNotNeeded_of_none (he : ps.states addr = none) :
    (ps.markPeerNotNeeded addr).getD ps = ps := by
  rw [markPeerNotNeeded, he]
  rfl

lemma getD_markPeerNotNeeded_of_some (he : ps.states addr = some e) :
    (ps.markPeerNotNeeded addr).getD ps = ps.setState addr e .notNeeded := by
  rw [markPeerNotNeeded, he]
  rfl

lemma of_disconnectIfFull (hps : ps.disconnectIfFull addr = some ps') :
    ∃ e, ps.states addr = some e ∧ e.isLive = true ∧ ps' = ps.setState addr e .notNeeded := by
  obtain ⟨e, he, hps⟩ := bind_eq_some_iff.mp hps
  refine ⟨e, he, ?_⟩
  split at hps
  · next live hstate =>
    split at hps
    · exact ⟨isLive_of_state hstate, (Option.some.inj hps).symm⟩
    · cases hps
  all_goals cases hps

/-- Only a peer whose outgoing address is its own is queued again. -/
lemma of_reconnectNotNeededPeer {outgoing}
    (hps : ps.reconnectNotNeededPeer addr = some (ps', outgoing)) :
    ∃ e, ps.states addr = some e ∧ e.peer.state = .notNeeded ∧
      e.peer.outgoingAddress = some outgoing ∧
      ps' = if addr = outgoing then ps.setState addr e .queued else ps := by
  obtain ⟨e, he, hps⟩ := bind_eq_some_iff.mp hps
  refine ⟨e, he, ?_⟩
  split at hps
  · next hstate =>
    obtain ⟨a, ha, hpair⟩ := map_eq_some_iff.mp hps
    cases hpair
    exact ⟨hstate, ha, rfl⟩
  all_goals cases hps

lemma of_deadToQueued (hps : ps.deadToQueued addr = some ps') :
    ∃ e, ps.states addr = some e ∧ e.peer.state = .dead ∧ ps' = ps.setState addr e .queued := by
  obtain ⟨e, he, hps⟩ := bind_eq_some_iff.mp hps
  refine ⟨e, he, ?_⟩
  split at hps
  · next hstate => exact ⟨hstate, (Option.some.inj hps).symm⟩
  all_goals cases hps

lemma of_pruneDeadPeer (hps : ps.pruneDeadPeer addr = some ps') :
    ∃ e, ps.states addr = some e ∧ e.peer.isPrunable = true ∧
      ps' = (ps.uncount e.countedIn).remove addr := by
  obtain ⟨e, he, hps⟩ := bind_eq_some_iff.mp hps
  refine ⟨e, he, ?_⟩
  split at hps
  · next hprune => exact ⟨hprune, (Option.some.inj hps).symm⟩
  · cases hps

/-- **The death of a connection** changes the entry of its address and no other. -/
theorem states_onPeerDied (error finished tracker : Bool) :
    ((ps.onPeerDied addr error finished tracker).peers ps).states =
      update ps.states addr
        ((ps.states addr).map fun e => e.withState (e.afterDeath error finished tracker)) := by
  rw [onPeerDied]
  cases he : ps.states addr with
  | none =>
    have hself : update ps.states addr none = ps.states := by
      rw [← he, update_eq_self]
    exact hself.symm
  | some e =>
    dsimp only [map_some]
    rw [PeerEntry.afterDeath]
    split
    · exact states_takeAndSetState ..
    · rfl
    · rfl
    · split <;> exact states_takeAndSetState ..
    · split
      · rfl
      · split <;> exact states_takeAndSetState ..

end CountedPeers

end Librtbit
