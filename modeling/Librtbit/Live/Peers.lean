import Librtbit.Tracker.PieceTracker

/-!
# Live/Peers — the peers of a live torrent

A peer is queued, connecting, live, dead or not needed, and the map of the peers is keyed by their
addresses.  Every method of `Peer` and of `PeerStates` that moves a peer from one state to another
is here, so `isLive` can be followed through all of them: what makes a peer stop being live is
`setNotNeeded` and the death of its connection, and nothing else.

Counters, back-off times and the channels to the connections are left out: none of them decides a
transition.  A channel can only end a connection, and a connection can end at any time.
-/

namespace Librtbit

open Function Option

variable {L : Lengths}

/-! ## One peer -/

/-- What we know of a peer we are connected to. -/
structure LivePeerState (L : Lengths) where
  peerInterested : Bool
  /-- The pieces the peer has; empty as long as it has not told. -/
  bitfield : List Bool := []
  /-- When the peer sends us data this is used to track if we asked for it. -/
  inflightRequests : List (ChunkInfo L) := []

namespace LivePeerState

variable (live : LivePeerState L)

def hasPiece (p : ValidPieceIndex L) : Bool := live.bitfield.getD p.1 false

def hasFullTorrent : Bool :=
  decide (L.totalPieces ≤ live.bitfield.length) && (live.bitfield.take L.totalPieces).all id

/-- `on_have`: some clients start empty, so they never send a bit field. -/
def onHave (index : ℕ) : LivePeerState L :=
  let bitfield :=
    if live.bitfield.isEmpty then List.replicate L.pieceBits false else live.bitfield
  { live with bitfield := bitfield.set index true }

end LivePeerState

inductive PeerState (L : Lengths) where
  /-- Will be tried to be connected as soon as possible. -/
  | queued
  | connecting
  | live (live : LivePeerState L)
  /-- There was an error, and it's waiting for exponential backoff. -/
  | dead
  /-- We don't need to do anything with the peer any longer. -/
  | notNeeded

structure Peer (L : Lengths) where
  state : PeerState L := .queued
  outgoingAddress : Option SocketAddr := none

namespace Peer

variable (peer : Peer L)

def newLiveForIncomingConnection : Peer L where
  state := .live { peerInterested := true }

def newWithOutgoingAddress (addr : SocketAddr) : Peer L where
  outgoingAddress := some addr

def getLive : Option (LivePeerState L) :=
  match peer.state with
  | .live live => some live
  | _ => none

def setState (state : PeerState L) : Peer L := { peer with state }

def setNotNeeded : Peer L := peer.setState .notNeeded

/-- `none` if the peer is not idle. -/
def idleToConnecting : Option (Peer L) :=
  match peer.state with
  | .queued | .notNeeded => some (peer.setState .connecting)
  | _ => none

/-- `none` if the peer is already active. -/
def incomingConnection : Option (Peer L) :=
  match peer.state with
  | .queued | .dead | .notNeeded => some (peer.setState (.live { peerInterested := true }))
  | .connecting | .live _ => none

def connectingToLive : Peer L :=
  match peer.state with
  | .connecting => peer.setState (.live { peerInterested := false })
  | _ => peer

/-- A peer that is to be retried on another address stays as it is. -/
def reconnectNotNeededPeer (addr : SocketAddr) : Peer L :=
  match peer.state with
  | .notNeeded => if peer.outgoingAddress = some addr then peer.setState .queued else peer
  | _ => peer

/-- A dead peer that waited long enough. -/
def deadToQueued : Peer L :=
  match peer.state with
  | .dead => peer.setState .queued
  | _ => peer

/-- Only a peer that is dead or not needed is forgotten. -/
def isPrunable : Bool :=
  match peer.state with
  | .dead | .notNeeded => true
  | _ => false

/-- `disconnect_all_peers_that_have_full_torrent`, for one peer of the loop. -/
def disconnectIfFull : Peer L :=
  match peer.state with
  | .live live => if live.hasFullTorrent then peer.setNotNeeded else peer
  | _ => peer

end Peer

/-! ## All of them -/

/-- The peer map. -/
abbrev PeerStates (L : Lengths) : Type := PeerHandle → Option (Peer L)

namespace PeerStates

variable (peers : PeerStates L) (addr : PeerHandle)

def insert (peer : Peer L) : PeerStates L := update peers addr (some peer)

def dropPeer : PeerStates L := update peers addr none

def withPeerMut (f : Peer L → Peer L) : PeerStates L := update peers addr ((peers addr).map f)

/-- The live state of a peer, if the peer is there and live. -/
def getLive : Option (LivePeerState L) := (peers addr).bind Peer.getLive

def withLiveMut (f : LivePeerState L → LivePeerState L) : PeerStates L :=
  peers.withPeerMut addr fun peer =>
    match peer.state with
    | .live live => peer.setState (.live (f live))
    | _ => peer

def addIfNotSeen : PeerStates L :=
  match peers addr with
  | some _ => peers
  | none => peers.insert addr (Peer.newWithOutgoingAddress addr)

/-- `none` if the peer is not there or not idle. -/
def markPeerConnecting : Option (PeerStates L) :=
  ((peers addr).bind Peer.idleToConnecting).map (peers.insert addr)

/-- The entry of `add_incoming_peer`; `none` if the peer is already active. -/
def addIncomingPeer : Option (PeerStates L) :=
  match peers addr with
  | some peer => peer.incomingConnection.map (peers.insert addr)
  | none => some (peers.insert addr Peer.newLiveForIncomingConnection)

def markPeerNotNeeded : PeerStates L := peers.withPeerMut addr Peer.setNotNeeded

/-- The peer a piece was stolen from is not asked for it any more. -/
def onSteal (fromPeer : PeerHandle) (stolenIdx : ValidPieceIndex L) : PeerStates L :=
  peers.withLiveMut fromPeer fun live =>
    { live with
      inflightRequests := live.inflightRequests.filter fun req => req.pieceIndex ≠ stolenIdx }

/-- `expired` tells which peers have not changed their state for too long. -/
def pruneDeadPeers (expired : PeerHandle → Bool) : PeerStates L := fun addr =>
  (peers addr).filter fun peer => !(peer.isPrunable && expired addr)

/-- `reached` tells how far the loop comes before the queue of the peer adder is full. -/
def reconnectAllNotNeededPeers (reached : PeerHandle → Bool) : PeerStates L := fun addr =>
  (peers addr).map fun peer => if reached addr then peer.reconnectNotNeededPeer addr else peer

end PeerStates

/-! ## Who is live -/

namespace Peer

def isLive (peer : Peer L) : Bool := peer.getLive.isSome

section

variable {peer : Peer L} {live : LivePeerState L}

lemma getLive_eq_some :
    peer.getLive = some live ↔ peer.state = .live live := by
  rw [getLive]
  split
  · next live' hstate => rw [hstate, Option.some.injEq, PeerState.live.injEq]
  next hstate =>
  constructor
  · intro h
    cases h
  · intro h
    exact absurd h (hstate live)

/-- A peer that is disconnected is live no longer. -/
lemma isLive_disconnectIfFull (hlive : peer.getLive = some live)
    (hfull : live.hasFullTorrent) :
    peer.disconnectIfFull.isLive = false := by
  rw [getLive_eq_some] at hlive
  rw [disconnectIfFull, hlive]
  dsimp only
  rw [if_pos hfull]
  rfl

lemma isLive_connectingToLive (h : peer.isLive) : peer.connectingToLive.isLive := by
  rw [connectingToLive]
  split
  · rfl
  · exact h

lemma isLive_reconnectNotNeededPeer (addr : SocketAddr) (h : peer.isLive) :
    (peer.reconnectNotNeededPeer addr).isLive = true := by
  rw [reconnectNotNeededPeer]
  split
  · next hstate => simp [isLive, getLive, hstate] at h
  · exact h

lemma isLive_deadToQueued (h : peer.isLive) : peer.deadToQueued.isLive := by
  rw [deadToQueued]
  split
  · next hstate => simp [isLive, getLive, hstate] at h
  · exact h

lemma isPrunable_of_isLive (h : peer.isLive) : peer.isPrunable = false := by
  rw [isPrunable]
  split
  · next hstate => simp [isLive, getLive, hstate] at h
  · next hstate => simp [isLive, getLive, hstate] at h
  · rfl

end

end Peer

namespace PeerStates

variable {peers : PeerStates L} {addr a : PeerHandle}

def isLive (peers : PeerStates L) (addr : PeerHandle) : Bool := (peers addr).any Peer.isLive

/-- **No peer stops being live.** -/
def LiveLE (peers peers' : PeerStates L) : Prop :=
  ∀ addr, peers.isLive addr = true → peers'.isLive addr = true

lemma LiveLE.refl (peers : PeerStates L) : peers.LiveLE peers := fun _ h => h

lemma isLive_iff_getLive : peers.isLive addr ↔ ∃ live, peers.getLive addr = some live := by
  rw [isLive, getLive, Option.any_eq_true]
  simp only [bind_eq_some_iff, Peer.isLive, isSome_iff_exists]
  constructor
  · rintro ⟨peer, hpeer, live, hlive⟩
    exact ⟨live, peer, hpeer, hlive⟩
  · rintro ⟨live, peer, hpeer, hlive⟩
    exact ⟨peer, hpeer, live, hlive⟩

/-- Changing one entry leaves the others. -/
lemma liveLE_update {entry} (h : peers.isLive addr → entry.any Peer.isLive) :
    peers.LiveLE (update peers addr entry) := by
  intro a ha
  rw [isLive]
  rcases eq_or_ne a addr with rfl | hne
  · rw [update_self]
    exact h ha
  · rwa [update_of_ne hne]

lemma liveLE_withPeerMut {f} (hf : ∀ peer, peer.isLive → (f peer).isLive) :
    peers.LiveLE (peers.withPeerMut addr f) := by
  refine liveLE_update fun h => ?_
  rw [isLive, Option.any_eq_true] at h
  obtain ⟨peer, hpeer, hlive⟩ := h
  rw [hpeer]
  exact hf peer hlive

lemma liveLE_withLiveMut (f : LivePeerState L → LivePeerState L) :
    peers.LiveLE (peers.withLiveMut addr f) := by
  refine liveLE_withPeerMut fun peer h => ?_
  split
  · rfl
  · exact h

lemma liveLE_addIfNotSeen : peers.LiveLE (peers.addIfNotSeen addr) := by
  rw [addIfNotSeen]
  split
  · exact LiveLE.refl _
  next hnone =>
  refine liveLE_update fun h => ?_
  rw [isLive, hnone] at h
  cases h

variable {peers' : PeerStates L}

lemma liveLE_markPeerConnecting
    (h : peers.markPeerConnecting addr = some peers') : peers.LiveLE peers' := by
  obtain ⟨peer', hpeer', rfl⟩ := map_eq_some_iff.mp h
  obtain ⟨peer, hpeer, hidle⟩ := bind_eq_some_iff.mp hpeer'
  refine liveLE_update fun hlive => ?_
  rw [isLive, hpeer] at hlive
  rw [Peer.idleToConnecting] at hidle
  split at hidle
  · next hstate => simp [Peer.isLive, Peer.getLive, hstate] at hlive
  · next hstate => simp [Peer.isLive, Peer.getLive, hstate] at hlive
  · cases hidle

lemma liveLE_addIncomingPeer
    (h : peers.addIncomingPeer addr = some peers') : peers.LiveLE peers' := by
  rw [addIncomingPeer] at h
  split at h
  · obtain ⟨peer', hpeer', rfl⟩ := map_eq_some_iff.mp h
    refine liveLE_update fun _ => ?_
    rw [Peer.incomingConnection] at hpeer'
    split at hpeer' <;> cases hpeer' <;> rfl
  · cases h
    exact liveLE_update fun _ => rfl

lemma liveLE_onSteal (fromPeer : PeerHandle) (p : ValidPieceIndex L) :
    peers.LiveLE (peers.onSteal fromPeer p) :=
  liveLE_withLiveMut _

lemma liveLE_pruneDeadPeers (expired : PeerHandle → Bool) :
    peers.LiveLE (peers.pruneDeadPeers expired) := by
  intro a ha
  rw [isLive, Option.any_eq_true] at ha
  obtain ⟨peer, hpeer, hlive⟩ := ha
  simp [isLive, pruneDeadPeers, hpeer, hlive, Peer.isPrunable_of_isLive hlive, Option.filter]

lemma liveLE_reconnectAllNotNeededPeers (reached : PeerHandle → Bool) :
    peers.LiveLE (peers.reconnectAllNotNeededPeers reached) := by
  intro a ha
  rw [isLive, Option.any_eq_true] at ha
  obtain ⟨peer, hpeer, hlive⟩ := ha
  rw [isLive, reconnectAllNotNeededPeers, hpeer]
  split
  · exact Peer.isLive_reconnectNotNeededPeer a hlive
  · exact hlive

end PeerStates

end Librtbit
