import Librtbit.Swarm.Tasks

/-!
# Swarm/Superseded — the death of a connection that a newer one has replaced

A connection is known by the address of its peer, and by nothing else.  A peer can be found not
needed and be queued again while its connection is still coming to its end: `on_peer_died` of the
old connection then works on the state of the new one.

Each connection of an address has a number here, its generation: a peer that is in the map and
neither dead nor not needed is in one generation, and the next one begins when it is queued, or
connects to us, after that.

* `Swarm.respects_iff_finds` — the deaths of superseded connections leave the peer alone exactly
  when they find it not needed or gone, or are late with dropping it.
-/

namespace Librtbit

open Machinery SwarmTask PeerEntry

variable {L : Lengths}

/-! ## Superseded connections -/

/-- The connection that a task brings to its end. -/
def SwarmTask.dying? : SwarmTask → Option PeerHandler
  | .dying h _ => some h
  | _ => none

@[inherit_doc dying?]
def SwarmTask.dropping? : SwarmTask → Option PeerHandler
  | .dropping h => some h
  | _ => none

/-- The death handler of a superseded connection leaves a peer in these states. -/
def PeerEntry.isIdle (e : PeerEntry L) : Bool :=
  match e.peer.state with
  | .queued | .notNeeded => true
  | .connecting | .live _ | .dead => false

namespace Swarm

variable {filter : PeerFilter} {s s' : Swarm L}

/-- Another connection of the address was queued, began to connect or became live since. -/
def Superseded (s : Swarm L) (h : PeerHandler) : Prop := h.generation < s.generation h.addr
  deriving Decidable

/-- The connection whose `on_peer_died` takes the step. -/
def dyingOf (s : Swarm L) : SwarmStep L → Option PeerHandler
  | .task id (.onPeerDied ..) => (s.tasks[id]?).bind dying?
  | _ => none

/-- The connection whose `on_peer_died` takes the step, if it goes on to drop the peer. -/
def droppingOf (s : Swarm L) : SwarmStep L → Option PeerHandler
  | .task id .dropPeer => (s.tasks[id]?).bind dropping?
  | _ => none

def deathOf (s : Swarm L) (a : SwarmStep L) : Option PeerHandler :=
  (s.dyingOf a).or (s.droppingOf a)

/-- The map has the same peer in the same state, it has its place in the queue, and it has the
pieces it had. -/
structure Leaves (s s' : Swarm L) (addr : PeerHandle) : Prop where
  entry : s'.peers.states addr = s.peers.states addr
  queue : s'.peerQueue = s.peerQueue
  pieces : ∀ p, s'.inflight p = some addr ↔ s.inflight p = some addr

/-- **The death of an older connection does not touch what belongs to a newer one.** -/
def RespectsNewer (filter : PeerFilter) (s : Swarm L) (a : SwarmStep L) : Prop :=
  ∀ h ∈ s.deathOf a, s.Superseded h → ∀ s' ∈ s.step filter a, s.Leaves s' h.addr

/-- **What the death handler of a superseded connection has to find.** -/
def FindsIdle (s : Swarm L) (a : SwarmStep L) : Prop :=
  (∀ h ∈ s.dyingOf a, s.Superseded h → ∀ e ∈ s.peers.states h.addr, e.isIdle = true) ∧
    ∀ h ∈ s.droppingOf a, s.Superseded h → (s.peers.states h.addr).isNone = true
  deriving Decidable

/-! ## One death -/

lemma afterDeath_eq_state_iff {e : PeerEntry L} (error finished tracker : Bool) :
    e.afterDeath error finished tracker = e.peer.state ↔ e.isIdle := by
  rw [afterDeath, isIdle]
  cases hstate : e.peer.state with
  | queued | notNeeded => simp
  | connecting => cases error <;> cases finished <;> simp
  | live => cases error <;> cases finished <;> cases tracker <;> simp
  | dead => simp

lemma isLive_of_isIdle {e : PeerEntry L} (h : e.isIdle) : e.isLive = false := by
  rw [isIdle] at h
  rw [isLive, Peer.isLive, Peer.getLive]
  cases hstate : e.peer.state with
  | live => simp [hstate] at h
  | queued | connecting | dead | notNeeded => rfl

/-- Only the death of a live peer gives pieces back. -/
lemma inflight_onPeerDied (id : ℕ) (h : PeerHandler) (error finished tracker : Bool)
    (hlive : (s.peers.states h.addr).any isLive = false) :
    (s.onPeerDied id h error finished tracker).inflight = s.inflight := by
  rw [onPeerDied, hlive]
  split <;> rfl

/-- **A death leaves a peer that it finds idle, and no other.** -/
theorem leaves_onPeerDied (id : ℕ) (h : PeerHandler) (error finished tracker : Bool) :
    s.Leaves (s.onPeerDied id h error finished tracker) h.addr ↔
      ∀ e ∈ s.peers.states h.addr, e.isIdle := by
  have hentry : (s.onPeerDied id h error finished tracker).peers.states h.addr =
      (s.peers.states h.addr).map fun e => e.withState (e.afterDeath error finished tracker) := by
    rw [peers_onPeerDied, CountedPeers.states_onPeerDied, Function.update_self]
  constructor
  · intro hleaves e he
    have hsame := hentry.symm.trans hleaves.entry
    rw [he, Option.map_some, Option.some.injEq, withState_eq_self_iff] at hsame
    exact (afterDeath_eq_state_iff error finished tracker).mp hsame
  · intro hidle
    refine ⟨?_, peerQueue_onPeerDied .., fun p => ?_⟩
    · rw [hentry]
      cases he : s.peers.states h.addr with
      | none => rfl
      | some e =>
        rw [Option.map_some, Option.some.injEq, withState_eq_self_iff, afterDeath_eq_state_iff]
        exact hidle e he
    · rw [inflight_onPeerDied]
      rw [Option.any_eq_false]
      exact fun e he => Bool.not_eq_true _ ▸ isLive_of_isIdle (hidle e he)

/-- **The step lemma.** -/
theorem respectsNewer_iff {a} (hs : s.step filter a = some s') :
    s.RespectsNewer filter a ↔ s.FindsIdle a := by
  have hstep : s.RespectsNewer filter a ↔
      ∀ h ∈ s.deathOf a, s.Superseded h → s.Leaves s' h.addr := by
    simp only [RespectsNewer, hs, Option.mem_some_iff, forall_eq']
  rw [hstep]
  cases effect_of_step hs with
  | @onPeerDied id h error finished tracker htask =>
    simp [deathOf, FindsIdle, dyingOf, droppingOf, htask, dying?, leaves_onPeerDied]
  | @drops id h e htask he =>
    have hnot : ¬ s.Leaves ((s.withPeers (s.peers.remove h.addr)).setTask id
        (.dropped e.counted [.torrent, .session])) h.addr := by
      intro hleaves
      have hentry := hleaves.entry
      rw [he] at hentry
      simp [CountedPeers.remove] at hentry
    simp [deathOf, FindsIdle, dyingOf, droppingOf, htask, dropping?, hnot, he]
  | @dropsNothing id h htask he =>
    have hleaves : s.Leaves (s.setTask id .over) h.addr := ⟨rfl, rfl, fun _ => Iff.rfl⟩
    simp [deathOf, FindsIdle, dyingOf, droppingOf, htask, dropping?, hleaves, he]
  | _ => simp [deathOf, FindsIdle, dyingOf, droppingOf]

/-! ## Runs

A peer that has the full torrent is disconnected when the torrent is finished.  Then more files are
selected, and the peer is queued again.  Now its old connection ends: its death handler finds the
peer queued, takes this for an error, and removes it from the map. -/

/-- The peer has every piece. -/
def hasEverything (live : LivePeerState L) : LivePeerState L :=
  { live with bitfield := List.replicate L.pieceBits true }

def reselected : List (SwarmStep Lengths.onePiece) :=
  dials listening ++
    [.withLiveMut listening hasEverything, .disconnectIfFull listening,
      .reconnectNotNeededPeer listening,
      .task 1 (.ends false), .task 1 (.onPeerDied false true), .task 1 .dropPeer]

theorem not_respectsNewer_reselected :
    ¬ Along (step noFilter) (RespectsNewer noFilter) {} reselected := by
  rw [along_congr fun _ _ _ hs => respectsNewer_iff hs]
  decide

/-- **Superseded connections**: along every run, the death handlers of connections that were
superseded leave the newer connection alone exactly when each of them finds the peer of its address
queued, not needed or gone, and finds it gone when it comes to dropping it. -/
theorem respects_iff_finds (as : List (SwarmStep L)) :
    Along (step filter) (RespectsNewer filter) {} as ↔ Along (step filter) FindsIdle {} as :=
  along_congr (fun _ _ _ hs => respectsNewer_iff hs) {} as

end Swarm

end Librtbit
