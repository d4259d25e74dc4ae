import Librtbit.Swarm.Tasks

/-!
# Swarm/LiveOutgoing — what is told to other peers about the ones we are connected to

`live_outgoing_peers` is to be the set of the outgoing addresses of the peers that are live and that
we connected to at least once.  It is kept up to date where a peer changes its state, by the address
that the peer has at that moment.  This is not enough: two peers can have one outgoing address, the
address of a live peer can be changed by an extended handshake, and a peer can be removed, or
connected to for the first time, while it is live.

* `Swarm.liveOutgoing_iff_keeps` — the set is exact throughout a run exactly when no step of the
  run does one of these.
-/

namespace Librtbit

open Machinery Function CountedPeers Option

variable {L : Lengths}

namespace CountedPeers

variable {ps ps' : CountedPeers L} {addr a : PeerHandle} {e : PeerEntry L}

/-! ## The set -/

/-- The peer is live, was connected to at least once, and has this outgoing address. -/
def Reaches (ps : CountedPeers L) (e : PeerEntry L) (a : SocketAddr) : Prop :=
  e.isLive = true ∧ 0 < ps.outgoingConnections e.counters ∧ e.peer.outgoingAddress = some a
  deriving Decidable

/-- **What the set of live outgoing addresses is to be.** -/
def LiveExact (ps : CountedPeers L) : Prop :=
  ∀ a, a ∈ ps.liveOutgoingPeers ↔ ∃ addr, ∃ e ∈ ps.states addr, ps.Reaches e a

/-- Another peer of the map has the outgoing address. -/
def Shared (ps : CountedPeers L) (addr : PeerHandle) (a : SocketAddr) : Prop :=
  ∃ addr', addr' ≠ addr ∧ ∃ e ∈ ps.states addr', ps.Reaches e a

/-! ### One entry changes -/

/-- **One entry of the map changes**: the others contribute to the set what they did. -/
theorem exists_reaches_iff (entry : Option (PeerEntry L))
    (hstates : ps'.states = update ps.states addr entry)
    (hconnections : ps'.outgoingConnections = ps.outgoingConnections) (a : SocketAddr) :
    (∃ addr, ∃ e ∈ ps'.states addr, ps'.Reaches e a) ↔
      (∃ e ∈ entry, ps.Reaches e a) ∨ ps.Shared addr a := by
  simp only [Reaches, Shared, hconnections, hstates]
  constructor
  · rintro ⟨addr', e, he, hreach⟩
    rcases eq_or_ne addr' addr with rfl | hne
    · rw [update_self] at he
      exact .inl ⟨e, he, hreach⟩
    · rw [update_of_ne hne] at he
      exact .inr ⟨addr', hne, e, he, hreach⟩
  · rintro (⟨e, he, hreach⟩ | ⟨addr', hne, e, he, hreach⟩)
    · exact ⟨addr, e, by rwa [update_self], hreach⟩
    · exact ⟨addr', e, by rwa [update_of_ne hne], hreach⟩

lemma exists_reaches_of_eq_some (he : ps.states addr = some e) (a : SocketAddr) :
    (∃ addr, ∃ e ∈ ps.states addr, ps.Reaches e a) ↔ ps.Reaches e a ∨ ps.Shared addr a := by
  have hself : ps.states = update ps.states addr (some e) := by
    rw [← he, update_eq_self]
  rw [exists_reaches_iff (some e) hself rfl]
  simp only [mem_some_iff, exists_eq_left']

variable (new : PeerState L)

lemma exists_reaches_setState (kind : ConnectionKind) (a : SocketAddr) :
    (∃ addr', ∃ e' ∈ (ps.setState addr e new kind).states addr',
      (ps.setState addr e new kind).Reaches e' a) ↔
      ps.Reaches (e.withState new) a ∨ ps.Shared addr a := by
  have hstates : (ps.setState addr e new kind).states =
      update ps.states addr (some (e.withState new kind)) := rfl
  rw [exists_reaches_iff _ hstates rfl]
  simp only [mem_some_iff, exists_eq_left']
  exact Iff.rfl

/-- Nothing changes that the set depends on. -/
lemma liveExact_congr (hstates : ps'.states = ps.states)
    (hconnections : ps'.outgoingConnections = ps.outgoingConnections)
    (hlive : ps'.liveOutgoingPeers = ps.liveOutgoingPeers) : ps'.LiveExact ↔ ps.LiveExact := by
  simp only [LiveExact, Reaches, hstates, hconnections, hlive]

/-! ### A peer changes its state -/

lemma mem_liveOutgoingAfter : a ∈ ps.liveOutgoingAfter e new ↔
      ps.Reaches (e.withState new) a ∨
        a ∈ ps.liveOutgoingPeers ∧ ¬ (e.peer.outgoingAddress = some a ∧ e.isLive) := by
  have hout : (e.withState new).peer.outgoingAddress = e.peer.outgoingAddress := rfl
  have hcounters : (e.withState new).counters = e.counters := rfl
  rw [liveOutgoingAfter, Reaches, hout, hcounters]
  cases e.peer.outgoingAddress with
  | none => simp
  | some b =>
    by_cases hlive : e.isLive = true <;> by_cases hnew : (e.withState new).isLive = true <;>
      by_cases hpos : 0 < ps.outgoingConnections e.counters <;>
      simp [hlive, hnew, hpos, eq_comm, and_comm]

/-- **`set_state` keeps the set exact** unless it takes an address out that another peer has. -/
theorem liveExact_setState (h : ps.LiveExact) (he : ps.states addr = some e) (new : PeerState L)
    (kind : ConnectionKind) :
    (ps.setState addr e new kind).LiveExact ↔
      ∀ a, e.peer.outgoingAddress = some a → e.isLive → ps.Shared addr a →
        ps.Reaches (e.withState new) a := by
  refine forall_congr' fun a => ?_
  have hmem : a ∈ ps.liveOutgoingPeers ↔ ps.Reaches e a ∨ ps.Shared addr a :=
    (h a).trans (exists_reaches_of_eq_some he a)
  have hafter : a ∈ (ps.setState addr e new kind).liveOutgoingPeers ↔
      ps.Reaches (e.withState new) a ∨ (ps.Reaches e a ∨ ps.Shared addr a) ∧
        ¬ (e.peer.outgoingAddress = some a ∧ e.isLive) := by
    rw [← hmem]
    exact mem_liveOutgoingAfter new
  have hreach : ps.Reaches e a → e.peer.outgoingAddress = some a ∧ e.isLive :=
    fun h => ⟨h.2.2, h.1⟩
  rw [hafter, exists_reaches_setState]
  constructor
  · exact fun hiff ha hlive hshared =>
      (hiff.mpr (.inr hshared)).elim id fun hleft => absurd ⟨ha, hlive⟩ hleft.2
  · grind

/-- A peer that is not live takes nothing out of the set. -/
lemma LiveExact.setState_of_not_isLive (h : ps.LiveExact) (he : ps.states addr = some e)
    (hlive : e.isLive = false) (new : PeerState L) (kind : ConnectionKind) :
    (ps.setState addr e new kind).LiveExact := by
  rw [liveExact_setState h he]
  intro a _ hlive'
  rw [hlive] at hlive'
  cases hlive'

lemma states_setState_self (kind : ConnectionKind) :
    (ps.setState addr e new kind).states addr = some (e.withState new kind) :=
  update_self ..

lemma liveExact_setState_of_not_live (he : ps.states addr = some e) (hlive : e.isLive = false)
    {new} (hnew : (e.withState new).isLive = false) (kind : ConnectionKind) :
    (ps.setState addr e new kind).LiveExact ↔ ps.LiveExact := by
  refine forall_congr' fun a => ?_
  have hset : a ∈ (ps.setState addr e new kind).liveOutgoingPeers ↔ a ∈ ps.liveOutgoingPeers := by
    refine (mem_liveOutgoingAfter new).trans ?_
    simp [Reaches, hlive, hnew]
  rw [hset, exists_reaches_setState, exists_reaches_of_eq_some he]
  simp [Reaches, hlive, hnew]

/-- **A peer that is live can end**: no other one has its outgoing address. -/
def EndsAlone (ps : CountedPeers L) (addr : PeerHandle) : Prop :=
  ∀ e ∈ ps.states addr, e.isLive = true → ∀ a ∈ e.peer.outgoingAddress, ¬ ps.Shared addr a

section

variable (h : ps.LiveExact)
include h

variable {new : PeerState L} (he : ps.states addr = some e)
include he

/-- **A peer that comes to its end**, in whatever state it was. -/
theorem liveExact_setState_iff_endsAlone
    (hnew : (e.withState new).isLive = false) (kind : ConnectionKind) :
    (ps.setState addr e new kind).LiveExact ↔ ps.EndsAlone addr := by
  rw [liveExact_setState h he, EndsAlone, he]
  simp only [mem_some_iff, forall_eq', Reaches, hnew, Bool.false_eq_true, false_and, imp_false]
  exact ⟨fun h hlive a ha => h a ha hlive, fun h a ha hlive => h hlive a ha⟩

lemma liveExact_takeAndSetState_iff (hnew : (e.withState new).isLive = false) :
    (ps.takeAndSetState addr e new).LiveExact ↔ ps.EndsAlone addr := by
  have htaken : (ps.takeState addr e).states addr = some (e.withState .queued) :=
    states_setState_self ..
  rw [takeAndSetState, liveExact_setState_of_not_live htaken rfl hnew]
  exact liveExact_setState_iff_endsAlone h he rfl _

lemma LiveExact.takeAndSetState_of_not_isLive
    (hlive : e.isLive = false) (new : PeerState L) (kind : ConnectionKind) :
    (ps.takeAndSetState addr e new kind).LiveExact :=
  (h.setState_of_not_isLive he hlive _ _).setState_of_not_isLive (states_setState_self ..) rfl _ _

omit he

/-! ### The other changes of one entry -/

variable (entry : Option (PeerEntry L)) (hstates : ps'.states = update ps.states addr entry)
include hstates

variable (hconnections : ps'.outgoingConnections = ps.outgoingConnections)
include hconnections

/-- One entry changes, and the set stays as it is. -/
lemma liveExact_update_iff (hset : ps'.liveOutgoingPeers = ps.liveOutgoingPeers) :
    ps'.LiveExact ↔ ∀ a,
      (∃ e ∈ ps.states addr, ps.Reaches e a) ∨ ps.Shared addr a ↔
        (∃ e ∈ entry, ps.Reaches e a) ∨ ps.Shared addr a := by
  have hself : ps.states = update ps.states addr (ps.states addr) :=
    (update_eq_self addr ps.states).symm
  refine forall_congr' fun a => ?_
  rw [hset, exists_reaches_iff entry hstates hconnections, h a, exists_reaches_iff _ hself rfl]

/-- One entry changes and counts for as much as it did. -/
lemma LiveExact.update (hset : ps'.liveOutgoingPeers = ps.liveOutgoingPeers)
    (hentry : ∀ a, (∃ e ∈ ps.states addr, ps.Reaches e a) ↔ ∃ e ∈ entry, ps.Reaches e a) :
    ps'.LiveExact :=
  (liveExact_update_iff h entry hstates hconnections hset).mpr fun a => by rw [hentry]

omit hconnections hstates

lemma LiveExact.insert (hnone : ps.states addr = none) {peer}
    (hpeer : peer.isLive = false ∨ peer.outgoingAddress = none) (kind : ConnectionKind) :
    (ps.insert addr peer kind).LiveExact := by
  refine h.update _ rfl rfl rfl fun a => ?_
  rw [hnone]
  rcases hpeer with hpeer | hpeer <;> simp [Reaches, PeerEntry.isLive, hpeer]

end

/-- **A peer can be dropped**: it does not count, or another peer has its outgoing address. -/
def DropsShared (ps : CountedPeers L) (addr : PeerHandle) : Prop :=
  ∀ e ∈ ps.states addr, ∀ a, ps.Reaches e a → ps.Shared addr a

lemma liveExact_remove (h : ps.LiveExact) : (ps.remove addr).LiveExact ↔ ps.DropsShared addr := by
  refine Iff.trans (liveExact_update_iff h none rfl rfl rfl) ?_
  simp only [not_mem_none, false_and, exists_false, false_or, or_iff_right_iff_imp,
    forall_exists_index, and_imp, DropsShared]
  exact ⟨fun h e he a => h a e he, fun h a e he => h e he a⟩

lemma not_reaches_of_isPrunable (hprune : e.peer.isPrunable) (a : SocketAddr) :
    ¬ ps.Reaches e a := by
  rintro ⟨hlive, -⟩
  rw [Peer.isPrunable_of_isLive hlive] at hprune
  cases hprune

/-- **The outgoing address of a peer can change**: the peer does not count, or the set has the new
address and keeps the old one rightly. -/
def MovesShared (ps : CountedPeers L) (addr : PeerHandle) (outgoing : SocketAddr) : Prop :=
  ∀ e ∈ ps.states addr, e.isLive = true → 0 < ps.outgoingConnections e.counters →
    e.peer.outgoingAddress = some outgoing ∨
      ps.Shared addr outgoing ∧ ∀ a ∈ e.peer.outgoingAddress, ps.Shared addr a

lemma liveExact_updateOutgoingAddr (h : ps.LiveExact) {outgoing}
    (hps : ps.updateOutgoingAddr addr outgoing = some ps') :
    ps'.LiveExact ↔ ps.MovesShared addr outgoing := by
  obtain ⟨e, he, rfl⟩ := map_eq_some_iff.mp hps
  refine Iff.trans (liveExact_update_iff h _ rfl rfl rfl) ?_
  rw [MovesShared, he]
  simp only [mem_some_iff, exists_eq_left', forall_eq', Reaches]
  have hlive : ({ e with peer := { e.peer with outgoingAddress := some outgoing } } :
      PeerEntry L).isLive = e.isLive := rfl
  rw [hlive]
  by_cases hreach : e.isLive ∧ 0 < ps.outgoingConnections e.counters
  · simp only [hreach.1, hreach.2, true_and, forall_const, Option.some.injEq]
    constructor
    · intro hiff
      by_cases hsame : e.peer.outgoingAddress = some outgoing
      · exact .inl hsame
      refine .inr ⟨((hiff outgoing).mpr (.inl rfl)).resolve_left hsame, fun a ha => ?_⟩
      refine ((hiff a).mp (.inl ha)).resolve_left ?_
      rintro rfl
      exact hsame ha
    · rintro (hsame | ⟨hnew, hold⟩) a
      · rw [hsame, Option.some.injEq]
      constructor
      · exact fun ha => .inr (ha.elim (hold a) id)
      · rintro (rfl | ha)
        · exact .inr hnew
        · exact .inr ha
  · refine ⟨fun _ hlive hpos => absurd ⟨hlive, hpos⟩ hreach, fun _ a => or_congr ?_ Iff.rfl⟩
    exact ⟨fun h => absurd ⟨h.1, h.2.1⟩ hreach, fun h => absurd ⟨h.1, h.2.1⟩ hreach⟩

lemma LiveExact.withLiveMut (h : ps.LiveExact) {f}
    (hps : ps.withLiveMut addr f = some ps') : ps'.LiveExact := by
  obtain ⟨e, he, hmap⟩ := bind_eq_some_iff.mp hps
  obtain ⟨live, hlive, rfl⟩ := map_eq_some_iff.mp hmap
  have hisLive : e.isLive := by
    rw [PeerEntry.isLive, Peer.isLive, hlive]
    rfl
  refine h.update _ rfl rfl rfl fun a => ?_
  simp only [he, mem_some_iff, exists_eq_left', Reaches, hisLive]
  exact ⟨fun h => ⟨rfl, h.2⟩, fun h => ⟨trivial, h.2⟩⟩

/-- **A connection can be counted**: a peer that is live and counts because of it is in the set. -/
def ConnectsKnown (ps : CountedPeers L) (counters : ℕ) : Prop :=
  ∀ addr, ∀ e ∈ ps.states addr, e.counters = counters → e.isLive = true →
    ∀ a ∈ e.peer.outgoingAddress, a ∈ ps.liveOutgoingPeers

lemma reaches_onConnected {counters} : (ps.onConnected counters).Reaches e a ↔
      ps.Reaches e a ∨
        e.counters = counters ∧ e.isLive ∧ e.peer.outgoingAddress = some a := by
  simp only [Reaches, onConnected]
  rcases eq_or_ne e.counters counters with rfl | hne
  · rw [update_self]
    simp only [Nat.zero_lt_succ, true_and]
    exact ⟨.inr, fun h => h.elim (fun h => ⟨h.1, h.2.2⟩) id⟩
  · rw [update_of_ne hne]
    simp only [hne, false_and, or_false]

section

variable (h : ps.LiveExact)
include h

lemma liveExact_onConnected (counters : ℕ) :
    (ps.onConnected counters).LiveExact ↔ ps.ConnectsKnown counters := by
  have hiff := h
  have hset : (ps.onConnected counters).liveOutgoingPeers = ps.liveOutgoingPeers := rfl
  have hstates : (ps.onConnected counters).states = ps.states := rfl
  simp only [LiveExact, hset, hstates, reaches_onConnected]
  constructor
  · exact fun h' addr e he hcounters hlive a ha =>
      (h' a).mpr ⟨addr, e, he, .inr ⟨hcounters, hlive, ha⟩⟩
  intro hknown a
  constructor
  · intro ha
    obtain ⟨addr, e, he, hreach⟩ := (hiff a).mp ha
    exact ⟨addr, e, he, .inl hreach⟩
  · rintro ⟨addr, e, he, hreach | ⟨hcounters, hlive, ha⟩⟩
    · exact (hiff a).mpr ⟨addr, e, he, hreach⟩
    · exact hknown addr e he hcounters hlive a ha

/-! ### The methods -/

lemma LiveExact.addIfNotSeen (hps : ps.addIfNotSeen addr = some ps') : ps'.LiveExact := by
  obtain ⟨hnone, rfl⟩ := of_addIfNotSeen hps
  exact h.insert hnone (.inl rfl) _

variable {kind : ConnectionKind}

lemma LiveExact.addIncomingPeer
    (hps : ps.addIncomingPeer addr kind = some ps') : ps'.LiveExact := by
  rcases of_addIncomingPeer hps with ⟨e, he, hlive, rfl⟩ | ⟨hnone, rfl⟩
  · exact h.takeAndSetState_of_not_isLive he hlive _ _
  · refine LiveExact.insert ?_ hnone (.inr rfl) _
    exact (liveExact_congr rfl rfl rfl).mpr h

lemma LiveExact.markPeerConnecting (hps : ps.markPeerConnecting addr = some ps') :
    ps'.LiveExact := by
  obtain ⟨e, he, hlive, rfl⟩ := of_markPeerConnecting hps
  exact h.setState_of_not_isLive he hlive _ _

lemma LiveExact.setPeerLive (hps : ps.setPeerLive addr kind = some ps') :
    ps'.LiveExact := by
  obtain ⟨e, he, hstate, rfl⟩ := of_setPeerLive hps
  exact h.takeAndSetState_of_not_isLive he (isLive_of_state hstate) _ _

lemma LiveExact.deadToQueued (hps : ps.deadToQueued addr = some ps') : ps'.LiveExact := by
  obtain ⟨e, he, hstate, rfl⟩ := of_deadToQueued hps
  exact h.setState_of_not_isLive he (isLive_of_state hstate) _ _

lemma LiveExact.reconnectNotNeededPeer {outgoing}
    (hps : ps.reconnectNotNeededPeer addr = some (ps', outgoing)) : ps'.LiveExact := by
  obtain ⟨e, he, hstate, -, rfl⟩ := of_reconnectNotNeededPeer hps
  split
  · exact h.setState_of_not_isLive he (isLive_of_state hstate) _ _
  · exact h

lemma LiveExact.pruneDeadPeer (hps : ps.pruneDeadPeer addr = some ps') : ps'.LiveExact := by
  obtain ⟨e, he, hprune, rfl⟩ := of_pruneDeadPeer hps
  have huncount : (ps.uncount e.countedIn).LiveExact := (liveExact_congr rfl rfl rfl).mpr h
  refine (liveExact_remove huncount).mpr fun e' he' a hreach => ?_
  cases he.symm.trans he'
  exact absurd hreach (not_reaches_of_isPrunable hprune a)

lemma liveExact_markPeerNotNeeded :
    ((ps.markPeerNotNeeded addr).getD ps).LiveExact ↔ ps.EndsAlone addr := by
  rw [markPeerNotNeeded]
  cases he : ps.states addr with
  | none =>
    refine iff_of_true h fun e he' => ?_
    rw [he] at he'
    cases he'
  | some e => exact liveExact_setState_iff_endsAlone h he rfl _

lemma liveExact_disconnectIfFull (hps : ps.disconnectIfFull addr = some ps') :
    ps'.LiveExact ↔ ps.EndsAlone addr := by
  obtain ⟨e, he, -, rfl⟩ := of_disconnectIfFull hps
  exact liveExact_setState_iff_endsAlone h he rfl _

/-- **The death of a connection** keeps the set if the peer of its address can end. -/
theorem liveExact_onPeerDied (error finished tracker : Bool) :
    ((ps.onPeerDied addr error finished tracker).peers ps).LiveExact ↔ ps.EndsAlone addr := by
  rw [onPeerDied]
  cases he : ps.states addr with
  | none =>
    refine iff_of_true h fun e he' => ?_
    rw [he] at he'
    cases he'
  | some e =>
    have htake : (ps.takeState addr e).LiveExact ↔ ps.EndsAlone addr :=
      liveExact_setState_iff_endsAlone h he rfl _
    have hnotNeeded : (ps.takeAndSetState addr e .notNeeded).LiveExact ↔ ps.EndsAlone addr :=
      liveExact_takeAndSetState_iff h he rfl
    have hdead : (ps.takeAndSetState addr e .dead).LiveExact ↔ ps.EndsAlone addr :=
      liveExact_takeAndSetState_iff h he rfl
    dsimp only
    split
    · exact hnotNeeded
    · exact htake
    · exact htake
    · split
      · exact hnotNeeded
      · exact hdead
    · split
      · exact htake
      · split
        · exact hnotNeeded
        · exact hdead

end

end CountedPeers

/-! ## Runs -/

namespace Swarm

variable {filter : PeerFilter} {s s' : Swarm L}

/-- **The step keeps the set of live outgoing addresses exact**, as far as it can be told before. -/
def KeepsLiveOutgoing (s : Swarm L) : SwarmStep L → Prop
  | .adderMarksNotNeeded => ∀ addr ∈ s.adder, s.peers.EndsAlone addr
  | .disconnectIfFull addr => s.peers.EndsAlone addr
  | .task id .onConnected =>
    ∀ h : PeerHandler, s.tasks[id]? = some (.connecting h) → s.peers.ConnectsKnown h.counters
  | .task id (.onExtendedHandshake ip (some port)) =>
    ∀ h : PeerHandler, s.tasks[id]? = some (.connected h) → h.incoming = true →
      s.peers.MovesShared h.addr ⟨ip.getD h.addr.ip, port⟩
  | .task id (.onPeerDied ..) =>
    ∀ (h : PeerHandler) (error : Bool), s.tasks[id]? = some (.dying h error) →
      s.peers.EndsAlone h.addr
  | .task id .dropPeer =>
    ∀ h : PeerHandler, s.tasks[id]? = some (.dropping h) → s.peers.DropsShared h.addr
  | _ => True

/-- **The step lemma.** -/
theorem liveExact_step (h : s.peers.LiveExact) {a}
    (hs : s.step filter a = some s') : s'.peers.LiveExact ↔ s.KeepsLiveOutgoing a := by
  cases effect_of_step hs with
  | addPeerIfNotSeen hps => exact iff_true_intro (h.addIfNotSeen hps)
  | addIncomingPeer hps => exact iff_true_intro (h.addIncomingPeer hps)
  | adderMarksNotNeeded hadder =>
    rw [KeepsLiveOutgoing, hadder]
    simp only [mem_some_iff, forall_eq']
    exact liveExact_markPeerNotNeeded h
  | disconnectIfFull hps => exact liveExact_disconnectIfFull h hps
  | reconnectNotNeededPeer hps =>
    refine iff_true_intro ?_
    rw [peers_trySend]
    exact h.reconnectNotNeededPeer hps
  | requeueDeadPeer hps =>
    refine iff_true_intro ?_
    rw [peers_trySend]
    exact h.deadToQueued hps
  | pruneDeadPeer hps => exact iff_true_intro (h.pruneDeadPeer hps)
  | withLiveMut hps => exact iff_true_intro (h.withLiveMut hps)
  | @countsAdded _ _ which | @countsDropped _ _ which =>
    refine iff_true_intro ?_
    cases which <;> exact (liveExact_congr rfl rfl rfl).mpr h
  | sends =>
    refine iff_true_intro ?_
    rwa [peers_setTask, peers_trySend]
  | marks htask hps => exact iff_true_intro (h.markPeerConnecting hps)
  | adderReceives | adderSkips | adderSpawns | setOwner | marksNot | getsCounters
  | getsNoCounters | ignoresHandshake | ends | wakesLate => exact iff_true_intro h
  | @onConnected _ handler htask =>
    have hiff := liveExact_onConnected h handler.counters
    simpa [KeepsLiveOutgoing, htask] using hiff
  | onHandshake htask hps => exact iff_true_intro (h.setPeerLive hps)
  | onExtendedHandshake htask hincoming hps =>
    have hiff := liveExact_updateOutgoingAddr h hps
    simpa [KeepsLiveOutgoing, htask, hincoming] using hiff
  | @ignoresExtendedHandshake _ handler _ port htask hnot =>
    refine iff_of_true h ?_
    cases port with
    | none => trivial
    | some port =>
      intro handler' htask' hincoming e he
      obtain rfl : handler = handler' := by simpa [htask] using htask'
      rw [hnot port rfl hincoming] at he
      cases he
  | onPeerDied finished tracker htask =>
    rw [peers_onPeerDied, liveExact_onPeerDied h]
    simp [KeepsLiveOutgoing, htask]
  | drops htask he =>
    refine (liveExact_remove h).trans ?_
    simp [KeepsLiveOutgoing, htask]
  | @dropsNothing _ handler htask hnone =>
    refine iff_of_true h ?_
    intro handler' htask' e he
    obtain rfl : handler = handler' := by simpa [htask] using htask'
    rw [hnone] at he
    cases he
  | wakes htask hps => exact iff_true_intro (h.deadToQueued hps)

lemma liveExact_empty : ({} : Swarm L).peers.LiveExact := by
  intro a
  simp

/-! ### A run

We connect to a peer.  The peer connects to us as well, from another port, and says where it
listens: the two connections are two peers of the map with one outgoing address.  When the second
one ends, the address leaves the set, and we are still connected to it. -/

/-- The port from which the peer connects to us. -/
def ephemeral : PeerHandle := ⟨.v4 1, 2⟩

def connectsTwice : List (SwarmStep Lengths.onePiece) :=
  dials listening ++
    [.addIncomingPeer ephemeral .tcp, .task 2 (.onExtendedHandshake none (some 1)),
      .task 2 (.ends false), .task 2 (.onPeerDied false true)]

theorem not_liveOutgoing_connectsTwice :
    ¬ Always (step noFilter) (fun s => s.peers.LiveExact) {} connectsTwice := by
  intro h
  have hweak := h.mono fun s hs e he hreach => (hs listening).mpr ⟨listening, e, he, hreach⟩
  exact not_always_of_run (by decide) hweak

/-- **The set of live outgoing addresses**: throughout a run it is exactly the set of the outgoing
addresses of the peers that are live and were connected to, exactly when every step of the run keeps
it so: a live peer that ends shares its outgoing address with no other, a live peer that is dropped
does share it, and the address of a live peer does not change to one that no other has. -/
theorem liveOutgoing_iff_keeps (as : List (SwarmStep L)) :
    Always (step filter) (fun s => s.peers.LiveExact) {} as ↔
      Along (step filter) KeepsLiveOutgoing {} as :=
  always_iff_along (fun _ _ _ h hs => liveExact_step h hs) liveExact_empty as

end Swarm

end Librtbit
