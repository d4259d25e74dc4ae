import Librtbit.Live.Effect

/-!
# Live/Owners — whose pieces are in flight

Which peer downloads a piece is known to the piece tracker, whether the peer is live to the map of
the peers, and no lock covers both.  A connection that ends releases the pieces of its peer; the
steps that set a live peer to *not needed* do not, and when the connection of such a peer ends
`on_peer_died` returns early.  The pieces stay in flight at a peer that will never send them.

`KeepsOwners` names the steps that do no such thing, and it is exact
(`ownersLive_iff_keepsOwners`).
-/

namespace Librtbit

open Machinery PeerStates Function Option

variable {L : Lengths}

/-! ## One step of a connection -/

namespace Connection

variable {shared : TorrentShared} {pt pt' : PieceTracker L} {peers peers' : PeerStates L}
  {filePriorities : List ℕ} {locked : ValidPieceIndex L → Bool} {c c' : Connection L}

variable {a : ConnectionStep L}

/-- **A piece comes into flight only at the live peer of the connection.** -/
theorem Effect.inflight {w}
    (h : c.Effect shared pt peers filePriorities locked a pt' w) {p info}
    (hp : pt'.inflight p = some info) :
    pt.inflight p = some info ∨ (info.peer = c.addr ∧ peers.isLive c.addr) := by
  have hupdate : ∀ {q v},
      update pt.inflight q v p = some info →
        pt.inflight p = some info ∨ v = some info := by
    intro q v hv
    rcases eq_or_ne p q with rfl | hne
    · rw [update_self] at hv
      exact .inr hv
    · rw [update_of_ne hne] at hv
      exact .inl hv
  cases h with
  | reserve hlive _ _ _ | handOver hlive _ _ =>
    refine (hupdate hp).imp_right fun hinfo => ?_
    cases hinfo
    exact ⟨rfl, isLive_iff_getLive.mpr ⟨_, hlive⟩⟩
  | take _ _ =>
    refine (hupdate hp).imp_right fun hinfo => ?_
    cases hinfo
  | release _ _ =>
    rw [PieceTracker.inflight_releasePiecesOwnedBy, filter_eq_some_iff] at hp
    exact .inl hp.1
  | _ => exact .inl hp

lemma liveLE_onMessage (m : PeerMessage) : peers.LiveLE (c.onMessage peers m).1 := by
  cases m with
  | handshake => exact liveLE_withPeerMut fun _ => Peer.isLive_connectingToLive
  | extendedHandshake outgoing =>
    rw [onMessage]
    split
    · exact liveLE_withPeerMut fun _ h => h
    · exact .refl _
  | bitfield bits =>
    rw [onMessage]
    split
    · exact liveLE_withLiveMut _
    · exact .refl _
  | havePiece index | interested => exact liveLE_withLiveMut _
  | choke | unchoke => exact .refl _

variable {requester : Requester L} {reader : Reader L}

lemma liveLE_requesterStep {a task}
    (h : c.requesterStep shared pt peers filePriorities locked reader requester a
      = some (pt', peers', task)) : peers.LiveLE peers' := by
  rw [requesterStep.eq_def] at h
  split at h
  · cases h
    exact .refl _
  · cases h
    exact liveLE_onSteal _ _
  · cases h
    exact .refl _
  · split at h <;> cases h
    · exact .refl _
    · exact liveLE_withLiveMut _
  · cases h

lemma liveLE_receive (requester : Requester L) (piece : ReceivedPiece) :
    peers.LiveLE (c.receive peers requester piece).1 := by
  rw [receive]
  split
  · exact .refl _
  split
  · exact .refl _
  · split
    · exact liveLE_withLiveMut _
    · exact .refl _

/-- Of the steps of a reader only a disconnection takes a peer out of the live ones. -/
lemma liveLE_readerStep {a task} (hne : ∀ peer, a ≠ .disconnect peer)
    (h : c.readerStep shared pt peers requester reader a = some (pt', peers', task)) :
    peers.LiveLE peers' := by
  rw [readerStep.eq_def] at h
  split at h
  · cases h
    exact liveLE_receive _ _
  case h_10 => exact absurd rfl (hne _)
  all_goals
    cases h <;> exact .refl _

/-- A connection that ends takes only its own peer out of the live ones, and releases its
pieces. -/
lemma liveLE_onPeerDied (withError : Bool) (streams : List ℕ) :
    peers.LiveLE (c.onPeerDied shared pt peers withError streams).2 ∨
      ((c.onPeerDied shared pt peers withError streams).1 = (pt.releasePiecesOwnedBy c.addr).1 ∧
        ∀ addr, addr ≠ c.addr →
          (c.onPeerDied shared pt peers withError streams).2.isLive addr = peers.isLive addr) := by
  have hentry : ∀ {peer} (entry : Option (Peer L)), peers c.addr = some peer →
      peer.getLive = none → peers.LiveLE (update peers c.addr entry) := by
    intro peer entry hpeer hdead
    refine liveLE_update fun hlive => ?_
    rw [isLive, hpeer, any_some, Peer.isLive, hdead] at hlive
    cases hlive
  rw [onPeerDied]
  split
  · exact .inl (.refl _)
  next peer hpeer =>
  split
  · next hstate => exact .inl (hentry _ hpeer (by rw [Peer.getLive, hstate]))
  · refine .inr ⟨rfl, fun addr hne => ?_⟩
    simp only [PeerStates.isLive, PeerStates.insert, update_of_ne hne]
  · exact .inl (.refl _)
  · next hstate => exact .inl (hentry _ hpeer (by rw [Peer.getLive, hstate]))
  · next hstate => exact .inl (hentry _ hpeer (by rw [Peer.getLive, hstate]))

/-- **Who stops being live in a step of a connection**, a disconnection apart: nobody, or the peer
of a connection that ends, and then its pieces are released. -/
theorem liveLE_step (hne : a.disconnects = none)
    (h : c.step shared pt peers filePriorities locked a = some (pt', peers', c')) :
    peers.LiveLE peers' ∨
      (pt' = (pt.releasePiecesOwnedBy c.addr).1 ∧
        ∀ addr, addr ≠ c.addr → peers'.isLive addr = peers.isLive addr) := by
  cases a with
  | message m =>
    rw [step] at h
    split at h <;> cases h
    exact .inl (liveLE_onMessage m)
  | requester a =>
    rw [step] at h
    split at h
    · split at h
      · cases h
      · obtain ⟨⟨pt₁, peers₁, task⟩, ha, he⟩ := map_eq_some_iff.mp h
        cases he
        exact .inl (liveLE_requesterStep ha)
    · cases h
  | reader a =>
    rw [step] at h
    split at h
    · obtain ⟨⟨pt₁, peers₁, task⟩, ha, he⟩ := map_eq_some_iff.mp h
      cases he
      refine .inl (liveLE_readerStep ?_ ha)
      rintro peer rfl
      cases hne
    · cases h
  | finish withError =>
    rw [step] at h
    split at h
    · split at h <;> cases h
      exact .inl (.refl _)
    · cases h
  | died streams =>
    rw [step] at h
    split at h <;> cases h
    exact liveLE_onPeerDied _ streams

/-- A disconnection leaves the tracker alone. -/
lemma step_disconnect {peer} (ha : a.disconnects = some peer)
    (h : c.step shared pt peers filePriorities locked a = some (pt', peers', c')) :
    pt' = pt ∧ peers' = peers.withPeerMut peer Peer.disconnectIfFull := by
  rw [ConnectionStep.disconnects.eq_def] at ha
  split at ha <;> cases ha
  rw [step] at h
  split at h
  · next reader requester htask =>
    obtain ⟨⟨pt₁, peers₁, task⟩, ha, he⟩ := map_eq_some_iff.mp h
    cases he
    cases reader with
    | disconnecting =>
      cases ha
      exact ⟨rfl, rfl⟩
    | checked p ok => cases ok <;> cases ha
    | _ => cases ha
  · cases h

end Connection

/-! ## The whole system -/

namespace Torrent

variable {shared : TorrentShared} {t t' : Torrent L}

/-- The pieces in flight; none unless the torrent is live. -/
def inflight (t : Torrent L) (p : ValidPieceIndex L) : Option InflightPiece :=
  match t.state with
  | .live pt _ => pt.inflight p
  | _ => none

/-- **Every piece in flight is at a live peer.** -/
def OwnersLive (t : Torrent L) : Prop :=
  ∀ p, (t.inflight p).all (fun info => t.peers.isLive info.peer) = true
  deriving Decidable

lemma ownersLive_iff : t.OwnersLive ↔
    ∀ p info, t.inflight p = some info → t.peers.isLive info.peer := by
  refine forall_congr' fun p => ?_
  rw [Option.all_eq_true]

/-- The peer downloads nothing. -/
def OwnsNothing (t : Torrent L) (addr : PeerHandle) : Prop :=
  ∀ p info, t.inflight p = some info → info.peer ≠ addr

/-- The steps that leave no piece behind: a peer that is disconnected because it has the full
torrent, or marked because the torrent has finished, downloads nothing. -/
def KeepsOwners (t : Torrent L) : TorrentStep L → Prop
  | .connection _ a => ∀ peer live, a.disconnects = some peer →
    t.peers.getLive peer = some live → live.hasFullTorrent = true → t.OwnsNothing peer
  | .markPeerNotNeeded => ∀ addr, t.notNeeded = some addr → t.OwnsNothing addr
  | _ => True

lemma OwnersLive.mono (h : t.OwnersLive) (hle : t.peers.LiveLE t'.peers)
    (hnew : ∀ p info, t'.inflight p = some info →
      t.inflight p = some info ∨ t.peers.isLive info.peer) : t'.OwnersLive := by
  rw [ownersLive_iff] at h ⊢
  intro p info hp
  rcases hnew p info hp with hold | hlive
  · exact hle _ (h p info hold)
  · exact hle _ hlive

/-- Where nothing is in flight, nothing is lost. -/
lemma ownersLive_of_inflight_eq_none (h : ∀ p, t.inflight p = none) : t.OwnersLive := by
  intro p
  rw [h p]
  rfl

/-- **Taking one peer out of the live ones is harmless exactly if it downloads nothing.** -/
theorem ownersLive_iff_ownsNothing (h : t.OwnersLive) {addr}
    (hin : ∀ p, t'.inflight p = t.inflight p) (haddr : t'.peers.isLive addr = false)
    (hother : ∀ a, a ≠ addr → t'.peers.isLive a = t.peers.isLive a) :
    t'.OwnersLive ↔ t.OwnsNothing addr := by
  rw [ownersLive_iff] at h ⊢
  constructor
  · rintro h' p info hp rfl
    rw [h' p info ((hin p).trans hp)] at haddr
    cases haddr
  intro hnothing p info hp
  rw [hin] at hp
  rw [hother _ (hnothing p info hp)]
  exact h p info hp

lemma inflight_eq {pt filePriorities}
    (h : t.state = .live pt filePriorities) : t.inflight = pt.inflight := by
  funext p
  rw [inflight, h]

/-- A peer that has no full torrent, or is not live, is not touched by a disconnection. -/
lemma withPeerMut_disconnectIfFull {peers : PeerStates L} {peer : PeerHandle}
    (h : ∀ live, peers.getLive peer = some live → live.hasFullTorrent = false) :
    peers.withPeerMut peer Peer.disconnectIfFull = peers := by
  rw [withPeerMut, update_eq_self_iff]
  cases hpeer : peers peer with
  | none => rfl
  | some entry =>
    rw [map_some, Peer.disconnectIfFull]
    split
    · next live hstate =>
      have hfull := h live (by
        rw [getLive, hpeer, bind_some, Peer.getLive, hstate])
      rw [hfull]
      rfl
    · rfl

section

variable (h : t.OwnersLive)
include h

/-- **A disconnection is harmless exactly if the peer it reaches downloads nothing.** -/
theorem ownersLive_disconnect_iff {peer} (hin : ∀ p, t'.inflight p = t.inflight p)
    (hpeers : t'.peers = t.peers.withPeerMut peer Peer.disconnectIfFull) :
    t'.OwnersLive ↔ ∀ live, t.peers.getLive peer = some live → live.hasFullTorrent →
      t.OwnsNothing peer := by
  by_cases hfull : ∃ live, t.peers.getLive peer = some live ∧ live.hasFullTorrent
  · obtain ⟨live, hlive, hfull⟩ := hfull
    have hiff : t'.OwnersLive ↔ t.OwnsNothing peer := by
      refine ownersLive_iff_ownsNothing h hin ?_ fun a hne => ?_
      · obtain ⟨entry, hentry, hlive⟩ := bind_eq_some_iff.mp hlive
        rw [hpeers, isLive, withPeerMut, update_self, hentry]
        exact Peer.isLive_disconnectIfFull hlive hfull
      · rw [hpeers, isLive, withPeerMut, update_of_ne hne, isLive]
    rw [hiff]
    exact ⟨fun hn _ _ _ => hn, fun hn => hn live hlive hfull⟩
  · push Not at hfull
    rw [withPeerMut_disconnectIfFull fun live hlive => Bool.eq_false_iff.mpr (hfull live hlive)]
      at hpeers
    refine iff_of_true (h.mono (hpeers ▸ .refl _) fun p info hp => ?_)
      fun live hlive hf => absurd hf (hfull live hlive)
    exact .inl ((hin p).symm.trans hp)

/-- **Marking a peer not needed is harmless exactly if it downloads nothing.** -/
theorem ownersLive_markPeerNotNeeded_iff {addr}
    (hin : ∀ p, t'.inflight p = t.inflight p) (hpeers : t'.peers = t.peers.markPeerNotNeeded addr) :
    t'.OwnersLive ↔ t.OwnsNothing addr := by
  refine ownersLive_iff_ownsNothing h hin ?_ fun a hne => ?_
  · rw [hpeers, isLive, markPeerNotNeeded, withPeerMut, update_self]
    cases t.peers addr <;> rfl
  · rw [hpeers, isLive, markPeerNotNeeded, withPeerMut, update_of_ne hne, isLive]

lemma ownersLive_connectionStep_iff {id a} (hstep : t.connectionStep shared id a = some t') :
    t'.OwnersLive ↔ t.KeepsOwners (.connection id a) := by
  obtain ⟨pt, filePriorities, c, pt', peers, c', hstate, hc, hcstep, rfl⟩ :=
    connectionStep_eq_some hstep
  have hin := inflight_eq hstate
  cases hpeer : a.disconnects with
  | some peer =>
    obtain ⟨rfl, rfl⟩ := Connection.step_disconnect hpeer hcstep
    rw [ownersLive_disconnect_iff h (fun p => by rw [hin]; rfl) rfl]
    constructor
    · intro hnothing peer' live hpeer'
      cases hpeer.symm.trans hpeer'
      exact hnothing live
    · intro hnothing live
      exact hnothing peer live hpeer
  | none =>
    refine iff_of_true ?_ fun peer live hpeer' => ?_
    · have heffect := Connection.effect_of_step hcstep
      rcases Connection.liveLE_step hpeer hcstep with hle | ⟨hrelease, hother⟩
      · refine h.mono hle fun p info hp => ?_
        rw [hin]
        refine (heffect.inflight hp).imp_right ?_
        rintro ⟨hown, hlive⟩
        rw [hown]
        exact hlive
      · rw [ownersLive_iff] at h ⊢
        intro p info hp
        change pt'.inflight p = some info at hp
        rw [hrelease, PieceTracker.inflight_releasePiecesOwnedBy, filter_eq_some_iff] at hp
        obtain ⟨hold, hne⟩ := hp
        exact (hother _ (of_decide_eq_true hne)).trans (h p info (by rw [hin]; exact hold))
    · rw [hpeer] at hpeer'
      cases hpeer'

lemma OwnersLive.updateOnlyFiles {onlyFiles reached}
    (hstep : t.updateOnlyFiles shared onlyFiles reached = some t') : t'.OwnersLive := by
  rw [Torrent.updateOnlyFiles] at hstep
  split at hstep
  · split at hstep
    · cases hstep
    · cases hstep
      exact h
    · cases hstep
      exact ownersLive_of_inflight_eq_none fun _ => rfl
    · next pt filePriorities hstate =>
      cases hstep
      refine h.mono ?_ fun p info hp => .inl ?_
      · dsimp only
        split
        · exact .refl _
        · exact liveLE_reconnectAllNotNeededPeers reached
      · rw [inflight_eq hstate]
        exact hp
  · cases hstep

lemma OwnersLive.of_peers (hle : t.peers.LiveLE t'.peers) (hstate : t'.state = t.state) :
    t'.OwnersLive := by
  refine h.mono hle fun p info hp => .inl ?_
  rwa [inflight, ← hstate]

variable {a : TorrentStep L} (hstep : t.step shared a = some t')
include hstep

/-- The steps that only the torrent or its map of peers takes part in, but for the one that marks a
peer not needed. -/
lemma OwnersLive.step
    (hconn : ∀ id b, a ≠ .connection id b) (hmark : a ≠ .markPeerNotNeeded) : t'.OwnersLive := by
  cases a with
  | connection id b => exact absurd rfl (hconn id b)
  | markPeerNotNeeded => exact absurd rfl hmark
  | addPeerIfNotSeen addr =>
    rw [Torrent.step] at hstep
    split at hstep <;> cases hstep
    exact h.of_peers liveLE_addIfNotSeen rfl
  | addIncomingPeer addr =>
    rw [Torrent.step] at hstep
    split at hstep
    · obtain ⟨peers, hmap, rfl⟩ := map_eq_some_iff.mp hstep
      exact h.of_peers (liveLE_addIncomingPeer hmap) rfl
    · cases hstep
  | manageOutgoingPeer addr =>
    rw [Torrent.step] at hstep
    split at hstep
    · obtain ⟨peers, hmap, rfl⟩ := map_eq_some_iff.mp hstep
      exact h.of_peers (liveLE_markPeerConnecting hmap) rfl
    · cases hstep
  | ignorePeer addr streams =>
    rw [Torrent.step] at hstep
    split at hstep
    · split at hstep <;> cases hstep
      exact h.of_peers (.refl _) rfl
    · cases hstep
  | requeueDeadPeer addr =>
    cases hstep
    exact h.of_peers (liveLE_withPeerMut fun _ => Peer.isLive_deadToQueued) rfl
  | pruneDeadPeers expired =>
    cases hstep
    exact h.of_peers (liveLE_pruneDeadPeers expired) rfl
  | staleCheckEnds id =>
    obtain ⟨c, -, hend⟩ := bind_eq_some_iff.mp hstep
    split at hend <;> cases hend
    exact h.of_peers (.refl _) rfl
  | updateOnlyFiles onlyFiles reached => exact h.updateOnlyFiles hstep
  | pause | recheck =>
    rw [Torrent.step] at hstep
    split at hstep <;> cases hstep
    exact ownersLive_of_inflight_eq_none fun _ => rfl
  | start filePriorities =>
    rw [Torrent.step] at hstep
    split at hstep
    · split at hstep <;> cases hstep
      exact ownersLive_of_inflight_eq_none fun _ => rfl
    · cases hstep
  | stopWithError =>
    cases hstep
    exact ownersLive_of_inflight_eq_none fun _ => rfl
  | initialized havePieces onlyFiles =>
    rw [Torrent.step, initialized.eq_def] at hstep
    split at hstep
    · dsimp only at hstep
      split at hstep <;> cases hstep <;> exact ownersLive_of_inflight_eq_none fun _ => rfl
    · cases hstep

/-- **One step keeps every piece in flight at a live peer exactly when it is one of
`KeepsOwners`.** -/
theorem ownersLive_step_iff :
    t'.OwnersLive ↔ t.KeepsOwners a := by
  rw [KeepsOwners.eq_def]
  split
  · exact ownersLive_connectionStep_iff h hstep
  · obtain ⟨addr, haddr, rfl⟩ := map_eq_some_iff.mp hstep
    refine Iff.trans (ownersLive_markPeerNotNeeded_iff h (fun _ => rfl) rfl) ?_
    rw [haddr]
    exact ⟨fun hnothing addr' heq => Option.some.inj heq ▸ hnothing, fun hnothing => hnothing _ rfl⟩
  · next hconn hmark =>
    rw [iff_true]
    exact h.step hstep hconn hmark

end

/-- **In a run of the system every piece in flight is always at a live peer exactly when no step
takes a peer that downloads something out of the live ones.** -/
theorem ownersLive_iff_keepsOwners (as : List (TorrentStep L)) :
    Always (step shared) OwnersLive ({} : Torrent L) as ↔
      Along (step shared) KeepsOwners ({} : Torrent L) as :=
  always_iff_along (fun _ _ _ h hstep => ownersLive_step_iff h hstep)
    (ownersLive_of_inflight_eq_none fun _ => rfl) as

/-! ### A seeder that downloads a piece that was deselected -/

/-- **A piece stays in flight at a peer that was disconnected.**  Two peers download the two pieces,
the file of the second is deselected, and the first piece completes: the torrent is finished, and
the peer that downloads the second piece is not needed any more. -/
theorem not_ownersLive_disconnected_seeder :
    ¬ Always (step twoFiles) OwnersLive ({} : Torrent Lengths.twoBytePieces)
      ([.initialized (BitField.zeros _) none, .start [0, 1]] ++ comes 0 peerOne ++
        comes 1 peerTwo ++ asks 0 {} ++ asks 1 {} ++ [.updateOnlyFiles [0] fun _ => true] ++
        sends 0 ⟨0, 0, [7]⟩ (some true) ++
        [.connection 0 (.reader .record), .connection 0 (.reader (.complete [])),
          .connection 0 (.reader (.disconnect peerTwo))]) :=
  not_always_of_run (by decide)

end Torrent

end Librtbit
