import Librtbit.Live.Torrent

/-!
# Live/Effect — what a connection can do to the piece tracker

The steps of a connection are many, what they do to the tracker is not.  `Connection.Effect` lists
it: the tracker and the work in hand before a step, and both after it.  `effect_of_step` is the one
place where the steps are taken apart; the invariants of the system are about effects.
-/

namespace Librtbit

open Function Connection List

variable {L : Lengths}

namespace Connection

section

variable (shared : TorrentShared) (pt : PieceTracker L) (peers : PeerStates L)
  (filePriorities : List ℕ) (locked : ValidPieceIndex L → Bool) (c : Connection L)

/-- **What a step of a connection does to the tracker and to the work in hand.** -/
inductive Effect : ConnectionStep L → PieceTracker L → Work L → Prop
  /-- Nothing. -/
  | keep (a : ConnectionStep L) : Effect a pt c.work
  /-- A write fails. -/
  | failWrite {p} (h : c.work = .writing p) :
    Effect (.reader .writeFailed) pt .rest
  | reserve {input live p}
      (hlive : peers.getLive c.addr = some live) (hchoked : c.iAmChoked = false)
      (hsteal : pt.trySteal (c.acquireRequest shared filePriorities locked live input) 10 = none)
      (h : pt.findReservable (c.acquireRequest shared filePriorities locked live input) = some p) :
    Effect (.requester (.acquire input))
      (pt.reservePiece p c.addr input.now) c.work
  | handOver {input live p info} (hlive : peers.getLive c.addr = some live)
      (h : pt.inflight p = some info) (hlocked : locked p = false) :
    Effect (.requester (.acquire input))
      ⟨pt.chunks, update pt.inflight p (some ⟨c.addr, input.now⟩)⟩ c.work
  /-- A write begins, of a piece in flight at the peer. -/
  | write {piece chunk requester info} (h : c.task = .running (.received piece chunk) requester)
      (hinfo : pt.inflight chunk.pieceIndex = some info) (hpeer : info.peer = c.addr) :
    Effect (.reader .checkSteal) pt
      (.writing chunk.pieceIndex)
  /-- A write ends, and the piece is not complete. -/
  | mark {p now chunkStatus}
      (h : c.work = .writing p) :
    Effect (.reader (.wrote now))
      { pt with chunks := { pt.chunks with chunkStatus } } .rest
  /-- A write ends, and the piece is taken out of flight to be checked. -/
  | take {p now chunkStatus}
      (h : c.work = .writing p) (hinflight : pt.isInflight p = true) :
    Effect (.reader (.wrote now))
      ⟨{ pt.chunks with chunkStatus }, update pt.inflight p none⟩ (.checking p)
  /-- The check of a hash ends in a storage error. -/
  | failCheck {p requester}
      (h : c.task = .running (.checking p) requester) :
    Effect (.reader (.hashed none)) pt .rest
  | recordOk {p requester}
      (h : c.task = .running (.checked p true) requester) :
    Effect (.reader .record) (pt.markPieceHashOk p)
      (.completing p)
  | recordFailed {p requester}
      (h : c.task = .running (.checked p false) requester) :
    Effect (.reader .record) (pt.markPieceHashFailed p)
      .rest
  | count {p streams} (h : c.work = .completing p) :
    Effect (.reader (.complete streams))
      { pt with chunks := pt.chunks.onPieceCompleted shared.fileInfos p } .rest
  | release {streams} (h : c.work = .rest) (hlive : peers.isLive c.addr = true) :
    Effect (.died streams)
      (pt.releasePiecesOwnedBy c.addr).1 .rest

end

section OneStep

variable {shared : TorrentShared} {pt pt' : PieceTracker L} {peers peers' : PeerStates L}
  {filePriorities : List ℕ} {locked : ValidPieceIndex L → Bool} {c c' : Connection L}

variable {requester : Requester L} {reader : Reader L} (h : c.task = .running reader requester)
include h

/-- The requester has no part in the work in hand. -/
lemma work_eq_of_reader (requester' : Requester L) :
    ({ c with task := .running reader requester' } : Connection L).work = c.work := by
  rw [work, work, h]
  cases reader <;> rfl

/-- A task that is not blocked has nothing in hand. -/
lemma work_eq_rest (hblocks : reader.blocks = false) :
    c.work = .rest := by
  cases reader with
  | idle | received piece chunk => simp [work, h]
  | _ => cases hblocks

omit h

lemma effect_of_onMessage {m}
    (h : c.task = .running .idle requester) (hm : c.onMessage peers m = (peers', c')) :
    Effect shared pt peers filePriorities locked c (.message m) pt c'.work := by
  have hwork : c.work = .rest := by simp [work, h]
  have hkeep : c'.work = .rest → Effect shared pt peers filePriorities locked c (.message m) pt
      c'.work := by
    intro hrest
    rw [hrest, ← hwork]
    exact .keep _
  refine hkeep ?_
  cases m with
  | extendedHandshake outgoing =>
    rw [onMessage] at hm
    split at hm <;> cases hm <;> exact hwork
  | bitfield bits =>
    rw [onMessage] at hm
    split at hm <;> cases hm
    · exact hwork
    · rfl
  | handshake | havePiece index | interested => cases hm; exact hwork
  | choke | unchoke => cases hm; simp [work, h]

lemma effect_of_acquire {requester' input} (h : c.task = .running reader requester)
    (hacq : c.acquireNextPiece shared pt peers filePriorities locked input = (pt', requester')) :
    Effect shared pt peers filePriorities locked c (.requester (.acquire input)) pt'
      ({ c with task := .running reader requester' } : Connection L).work := by
  rw [work_eq_of_reader h]
  rw [acquireNextPiece] at hacq
  split at hacq
  · cases hacq
    exact .keep _
  next live hlive =>
  split at hacq
  · cases hacq
    exact .keep _
  next hchoked =>
  rcases pt.acquirePiece_cases (c.acquireRequest shared filePriorities locked live input) with
    he | ⟨p, hsteal, hp, he⟩ | ⟨p, info, hinfo, -, -, hcan, he⟩
  · rw [he] at hacq
    cases hacq
    exact .keep _
  · rw [he] at hacq
    cases hacq
    exact .reserve hlive (Bool.eq_false_iff.mpr hchoked) hsteal hp
  · rw [he] at hacq
    cases hacq
    exact .handOver hlive hinfo (by simpa [acquireRequest] using hcan)

variable {task : Task L}

lemma effect_of_requesterStep {a} (h : c.task = .running reader requester)
    (hblocks : reader.blocks = false)
    (ha : c.requesterStep shared pt peers filePriorities locked reader requester a
      = some (pt', peers', task)) :
    Effect shared pt peers filePriorities locked c (.requester a) pt'
      ({ c with task } : Connection L).work := by
  have hdying : ({ c with task := .dying false } : Connection L).work = c.work :=
    (work_eq_rest h hblocks).symm
  cases requester with
  | idle =>
    cases a with
    | acquire input =>
      cases ha
      exact effect_of_acquire h rfl
    | _ => cases ha
  | stealing fromPeer p =>
    cases a with
    | onSteal =>
      cases ha
      rw [work_eq_of_reader h]
      exact .keep _
    | _ => cases ha
  | requesting chunks =>
    cases chunks with
    | nil =>
      cases a with
      | request =>
        cases ha
        rw [work_eq_of_reader h]
        exact .keep _
      | _ => cases ha
    | cons chunk chunks =>
      cases a with
      | request =>
        rw [requesterStep] at ha
        split at ha
        · cases ha
          rw [hdying]
          exact .keep _
        · cases ha
          rw [work_eq_of_reader h]
          exact .keep _
      | _ => cases ha

variable {piece : ReceivedPiece} {chunk : ChunkInfo L}

/-- After a write the tracker has one chunk more, and a complete piece is out of flight. -/
lemma effect_of_wrote {now} (h : c.task = .running (.writing piece chunk) requester)
    (hw : wrote pt requester piece chunk now = (pt', task)) :
    Effect shared pt peers filePriorities locked c (.reader (.wrote now)) pt'
      ({ c with task } : Connection L).work := by
  have hwork : c.work = .writing chunk.pieceIndex := by simp [work, h]
  obtain ⟨chunkStatus, hchunks⟩ := pt.chunks.exists_markChunkDownloaded_fst piece
  have hmark : (pt.markChunkDownloaded piece).1
      = { pt with chunks := { pt.chunks with chunkStatus } } := by
    rw [PieceTracker.markChunkDownloaded, ← hchunks]
  rw [wrote] at hw
  generalize hresult : pt.markChunkDownloaded piece = marked at hw hmark
  obtain ⟨pt₁, result⟩ := marked
  obtain rfl : pt₁ = { pt with chunks := { pt.chunks with chunkStatus } } := hmark
  split at hw
  · next heq =>
    cases heq
    cases hinfo : pt.inflight chunk.pieceIndex with
    | none =>
      rw [PieceTracker.takeInflight] at hw
      simp only [hinfo] at hw
      cases hw
      exact .mark hwork
    | some info =>
      rw [PieceTracker.takeInflight] at hw
      simp only [hinfo] at hw
      cases hw
      exact .take hwork (by simp [PieceTracker.isInflight, hinfo])
  all_goals
    next heq =>
    cases heq
    cases hw
    exact .mark hwork

lemma work_receive (requester : Requester L) (piece : ReceivedPiece) :
    ({ c with task := (c.receive peers requester piece).2 } : Connection L).work = .rest := by
  rw [receive]
  split
  · rfl
  · split
    · rfl
    · split <;> rfl

lemma effect_of_checkSteal (h : c.task = .running (.received piece chunk) requester) :
    Effect shared pt peers filePriorities locked c (.reader .checkSteal) pt
      ({ c with task := c.checkSteal pt requester piece chunk } : Connection L).work := by
  have hkeep : Effect shared pt peers filePriorities locked c (.reader .checkSteal) pt .rest := by
    have hwork : c.work = .rest := work_eq_rest h rfl
    rw [← hwork]
    exact .keep _
  rw [checkSteal]
  split
  · next info hinfo =>
    split
    · next hpeer => exact .write h hinfo hpeer
    · exact hkeep
  · exact hkeep

lemma effect_of_complete {p} (streams : List ℕ)
    (h : c.task = .running (.completing p) requester) :
    Effect shared pt peers filePriorities locked c (.reader (.complete streams))
      (complete shared pt requester p streams).1
      ({ c with task := (complete shared pt requester p streams).2 } : Connection L).work := by
  have hrest : ({ c with task := (complete shared pt requester p streams).2 } : Connection L).work
      = .rest := by
    rw [complete]
    split <;> rfl
  rw [hrest]
  exact .count (by rw [work, h])

lemma effect_of_readerStep {a} (h : c.task = .running reader requester)
    (ha : c.readerStep shared pt peers requester reader a = some (pt', peers', task)) :
    Effect shared pt peers filePriorities locked c (.reader a) pt'
      ({ c with task } : Connection L).work := by
  have hkeep : ∀ {a w}, w = c.work →
      Effect shared pt peers filePriorities locked c a pt w := by
    rintro a w rfl
    exact .keep _
  rw [readerStep.eq_def] at ha
  split at ha
  · cases ha
    exact hkeep ((work_receive requester _).trans (work_eq_rest h rfl).symm)
  · cases ha
    exact effect_of_checkSteal h
  · cases ha
    exact effect_of_wrote h rfl
  · cases ha
    exact .failWrite (show c.work = .writing _ by rw [work, h])
  · cases ha
    exact hkeep (by simp [work, h])
  · cases ha
    exact .failCheck h
  · cases ha
    exact .recordOk h
  · cases ha
    exact .recordFailed h
  · cases ha
    exact effect_of_complete _ h
  · cases ha
    exact hkeep (by simp [work, h])
  · cases ha
    exact hkeep (by simp [work, h])
  · cases ha

lemma effect_of_onPeerDied {withError streams} (h : c.task = .dying withError) :
    Effect shared pt peers filePriorities locked c (.died streams)
      (c.onPeerDied shared pt peers withError streams).1 .rest := by
  have hwork : c.work = .rest := by rw [work, h]
  have hkeep : Effect shared pt peers filePriorities locked c (.died streams) pt .rest := by
    rw [← hwork]
    exact .keep _
  rw [onPeerDied]
  split
  · exact hkeep
  next peer hpeer =>
  split
  · exact hkeep
  · next live hlive =>
    refine .release hwork ?_
    rw [PeerStates.isLive, hpeer, Option.any_some, Peer.isLive, Peer.getLive, hlive]
    rfl
  · exact hkeep
  · exact hkeep
  · exact hkeep

/-- **A step of a connection has one of the effects.** -/
theorem effect_of_step {a}
    (hstep : c.step shared pt peers filePriorities locked a = some (pt', peers', c')) :
    Effect shared pt peers filePriorities locked c a pt' c'.work := by
  cases a with
  | message m =>
    rw [step] at hstep
    split at hstep
    · next requester htask =>
      cases hstep
      exact effect_of_onMessage htask rfl
    · cases hstep
  | requester a =>
    rw [step] at hstep
    split at hstep
    · next reader requester htask =>
      split at hstep
      · cases hstep
      next hblocks =>
      obtain ⟨⟨pt₁, peers₁, task⟩, ha, he⟩ := Option.map_eq_some_iff.mp hstep
      cases he
      exact effect_of_requesterStep htask (Bool.eq_false_iff.mpr hblocks) ha
    · cases hstep
  | reader a =>
    rw [step] at hstep
    split at hstep
    · next reader requester htask =>
      obtain ⟨⟨pt₁, peers₁, task⟩, ha, he⟩ := Option.map_eq_some_iff.mp hstep
      cases he
      exact effect_of_readerStep htask ha
    · cases hstep
  | finish withError =>
    rw [step] at hstep
    split at hstep
    · next reader requester htask =>
      split at hstep
      · cases hstep
      next hblocks =>
      cases hstep
      have hwork := work_eq_rest htask (Bool.eq_false_iff.mpr hblocks)
      change Effect shared pt peers filePriorities locked c _ pt .rest
      rw [← hwork]
      exact .keep _
    · cases hstep
  | died streams =>
    rw [step] at hstep
    split at hstep
    · next withError htask =>
      cases hstep
      exact effect_of_onPeerDied htask
    · cases hstep

/-- Only the record of a good hash changes what we have. -/
lemma Effect.havePieces_eq_or {a w}
    (h : c.Effect shared pt peers filePriorities locked a pt' w) :
    pt'.chunks.havePieces = pt.chunks.havePieces ∨ a = .reader .record ∧
      ∃ p requester, c.task = .running (.checked p true) requester ∧
        pt' = pt.markPieceHashOk p := by
  cases h with
  | recordOk htask => exact .inr ⟨rfl, _, _, htask, rfl⟩
  | recordFailed => exact .inl (ChunkTracker.havePieces_markPieceBrokenIfNotHave ..)
  | count => exact .inl (ChunkTracker.havePieces_onPieceCompleted ..)
  | release => exact .inl (PieceTracker.havePieces_releasePiecesOwnedBy ..)
  | _ => exact .inl rfl

end OneStep

end Connection

/-! ## The whole system -/

/-- What is left of the work of a connection when the torrent stops being live. -/
def Work.abandon : Work L → Work L
  | .checking p | .stale p => .stale p
  | .rest | .writing _ | .completing _ => .rest

lemma Work.abandon_abandon (w : Work L) : w.abandon.abandon = w.abandon := by
  cases w <;> rfl

lemma Connection.work_abandon (c : Connection L) : c.abandon.work = c.work.abandon := by
  rw [abandon]
  cases c.work <;> rfl

section Works

variable {works : ℕ → Work L} {id : ℕ}

/-- Work that is not the new work of a connection was in hand before. -/
lemma Work.eq_of_update {w v} (hw : w ≠ v) {i} (h : update works id w i = v) : works i = v := by
  rw [update_apply] at h
  split at h
  · exact absurd h hw
  · exact h

/-- A connection that keeps its work. -/
lemma Connection.update_work {c : Connection L} (hid : works id = c.work) :
    update works id c.work = works := by
  rw [← hid]
  exact update_eq_self id works

end Works

namespace Torrent

/-- What the connection numbered `i` has in hand. -/
def workOf (t : Torrent L) (i : ℕ) : Work L := ((t.connections[i]?).map work).getD .rest

section

variable (shared : TorrentShared) (t : Torrent L)

/-- **What a step of the system does to the torrent and to the work in hand.** -/
inductive Effect : TorrentStep L → ManagedTorrentState L → (ℕ → Work L) → Prop
  /-- Nothing: the step is about peers only. -/
  | keep (a : TorrentStep L) : Effect a t.state t.workOf
  | connection {id c a pt pt' filePriorities w} (hstate : t.state = .live pt filePriorities)
      (hc : t.connections[id]? = some c)
      (h : c.Effect shared pt t.peers filePriorities t.locked a pt' w) :
    Effect (.connection id a) (.live pt' filePriorities)
      (update t.workOf id w)
  | staleCheckEnds {id p} (h : t.workOf id = .stale p) :
    Effect (.staleCheckEnds id) t.state (update t.workOf id .rest)
  | selectPaused {ct onlyFiles reached}
      (hstate : t.state = .paused ct) :
    Effect (.updateOnlyFiles onlyFiles reached)
      (.paused (ct.updateOnlyFiles shared.fileInfos onlyFiles)) t.workOf
  | selectLive {pt filePriorities onlyFiles reached} (hstate : t.state = .live pt filePriorities) :
    Effect (.updateOnlyFiles onlyFiles reached)
      (.live (pt.updateOnlyFiles shared.fileInfos onlyFiles) filePriorities) t.workOf
  | pause {pt filePriorities}
      (hstate : t.state = .live pt filePriorities) :
    Effect .pause (.paused pt.intoChunks) fun i => (t.workOf i).abandon
  | start {ct filePriorities} (hstate : t.state = .paused ct)
      (horder : filePriorities.Perm (List.range shared.fileInfos.length)) :
    Effect (.start filePriorities) (.live (PieceTracker.new ct) filePriorities) t.workOf
  | stopWithError : Effect .stopWithError .error fun i => (t.workOf i).abandon
  | recheck : Effect .recheck .initializing fun i => (t.workOf i).abandon
  | initialized {havePieces selected onlyFiles ct} (hstate : t.state = .initializing)
      (h : ChunkTracker.new havePieces selected shared.fileInfos = .ok ct) :
    Effect (.initialized havePieces onlyFiles) (.paused ct) t.workOf
  | initFailed {havePieces onlyFiles}
      (hstate : t.state = .initializing) :
    Effect (.initialized havePieces onlyFiles) .error t.workOf

end

section Step

variable {shared : TorrentShared} {t t' : Torrent L} {a : TorrentStep L}

lemma workOf_spawn (c : Connection L) (peers : PeerStates L) (hc : c.work = .rest) :
    (t.spawn c peers).workOf = t.workOf := by
  funext i
  rw [workOf, workOf, spawn, getElem?_append]
  split
  · rfl
  · next hlen =>
    rw [getElem?_eq_none (Nat.not_lt.mp hlen), getElem?_singleton]
    split <;> simp [hc]

variable {id : ℕ}

lemma workOf_set {c c'} (hc : t.connections[id]? = some c)
    (state : ManagedTorrentState L) (peers : PeerStates L) (notNeeded : Option PeerHandle) :
    (⟨state, peers, t.connections.set id c', notNeeded⟩ : Torrent L).workOf
      = update t.workOf id c'.work := by
  obtain ⟨hid, -⟩ := List.getElem?_eq_some_iff.mp hc
  funext i
  rcases eq_or_ne i id with rfl | hne
  · rw [update_self, workOf, getElem?_set_self hid]
    rfl
  · rw [update_of_ne hne, workOf, getElem?_set_ne hne.symm]
    rfl

lemma workOf_leaveLive (state : ManagedTorrentState L) :
    (t.leaveLive state).workOf = fun i => (t.workOf i).abandon := by
  funext i
  rw [workOf, workOf, leaveLive, getElem?_map]
  cases t.connections[i]? with
  | none => rfl
  | some c => exact c.work_abandon

lemma workOf_eq {c} (hc : t.connections[id]? = some c) :
    t.workOf id = c.work := by
  rw [workOf, hc]
  rfl

lemma workOf_ne {w} (hw : w ≠ .rest) (h : ∀ c ∈ t.connections, c.work ≠ w) (i : ℕ) :
    t.workOf i ≠ w := by
  rw [workOf]
  cases hc : t.connections[i]? with
  | none => exact hw.symm
  | some c => exact h c (mem_of_getElem? hc)

/-- Some connection has such work in hand. -/
lemma any_work_iff {f : Work L → Bool} (hf : f .rest = false) :
    t.connections.any (fun c => f c.work) = true ↔ ∃ i, f (t.workOf i) = true := by
  rw [any_eq_true]
  constructor
  · rintro ⟨c, hc, hw⟩
    obtain ⟨i, hi⟩ := mem_iff_getElem?.mp hc
    exact ⟨i, by rwa [workOf_eq hi]⟩
  rintro ⟨i, hi⟩
  rw [workOf] at hi
  cases hc : t.connections[i]? with
  | none =>
    rw [hc] at hi
    exact absurd hi (Bool.eq_false_iff.mp hf)
  | some c =>
    rw [hc] at hi
    exact ⟨c, mem_of_getElem? hc, hi⟩

lemma connectionStep_eq_some {a} (h : t.connectionStep shared id a = some t') :
    ∃ pt filePriorities c pt' peers c', t.state = .live pt filePriorities ∧
      t.connections[id]? = some c ∧
      c.step shared pt t.peers filePriorities t.locked a = some (pt', peers, c') ∧
      t' = { t with
        state := .live pt' filePriorities, peers, connections := t.connections.set id c' } := by
  rw [connectionStep] at h
  split at h
  · next pt filePriorities hstate =>
    obtain ⟨c, hc, hmap⟩ := Option.bind_eq_some_iff.mp h
    obtain ⟨⟨pt', peers, c'⟩, hstep, rfl⟩ := Option.map_eq_some_iff.mp hmap
    exact ⟨pt, filePriorities, c, pt', peers, c', hstate, hc, hstep, rfl⟩
  · cases h

lemma effect_of_updateOnlyFiles {onlyFiles reached}
    (h : t.updateOnlyFiles shared onlyFiles reached = some t') :
    Effect shared t (.updateOnlyFiles onlyFiles reached) t'.state t'.workOf := by
  rw [updateOnlyFiles] at h
  split at h
  · split at h
    · cases h
    · cases h
      exact .keep _
    · next ct hstate =>
      cases h
      exact .selectPaused hstate
    · next pt filePriorities hstate =>
      cases h
      exact .selectLive hstate
  · cases h

lemma effect_of_initialized {havePieces onlyFiles}
    (h : t.initialized shared havePieces onlyFiles = some t') :
    Effect shared t (.initialized havePieces onlyFiles) t'.state t'.workOf := by
  rw [initialized.eq_def] at h
  split at h
  · next hstate =>
    dsimp only at h
    split at h
    · next ct hct =>
      cases h
      exact .initialized hstate hct
    · cases h
      exact .initFailed hstate
  · cases h

/-- **A step of the system has one of the effects.** -/
theorem effect_of_step (h : t.step shared a = some t') : Effect shared t a t'.state t'.workOf := by
  have hspawn : ∀ {a} {peers? : Option (PeerStates L)} {c : Connection L},
      c.work = .rest → peers?.map (t.spawn c) = some t' →
      Effect shared t a t'.state t'.workOf := by
    intro a peers? c hc hmap
    obtain ⟨peers, -, rfl⟩ := Option.map_eq_some_iff.mp hmap
    rw [workOf_spawn c peers hc]
    exact .keep a
  cases a with
  | addPeerIfNotSeen addr =>
    rw [step] at h
    split at h <;> cases h
    exact .keep _
  | addIncomingPeer addr | manageOutgoingPeer addr =>
    rw [step] at h
    split at h
    · exact hspawn rfl h
    · cases h
  | ignorePeer addr streams =>
    rw [step] at h
    split at h
    · split at h <;> cases h
      exact .keep _
    · cases h
  | markPeerNotNeeded =>
    obtain ⟨addr, -, rfl⟩ := Option.map_eq_some_iff.mp h
    exact .keep _
  | requeueDeadPeer addr | pruneDeadPeers expired =>
    cases h
    exact .keep _
  | connection id a =>
    obtain ⟨pt, filePriorities, c, pt', peers, c', hstate, hc, hstep, rfl⟩ :=
      connectionStep_eq_some h
    rw [workOf_set hc]
    exact .connection hstate hc (Connection.effect_of_step hstep)
  | staleCheckEnds id =>
    obtain ⟨c, hc, hstep⟩ := Option.bind_eq_some_iff.mp h
    split at hstep
    · next p htask =>
      cases hstep
      rw [workOf_set hc]
      exact .staleCheckEnds ((workOf_eq hc).trans (show c.work = .stale p by
        rw [work, htask]))
    · cases hstep
  | updateOnlyFiles onlyFiles reached => exact effect_of_updateOnlyFiles h
  | pause =>
    rw [step] at h
    split at h
    · next pt filePriorities hstate =>
      cases h
      rw [workOf_leaveLive]
      exact .pause hstate
    · cases h
  | start filePriorities =>
    rw [step] at h
    split at h
    · next ct hstate =>
      split at h
      · next horder =>
        cases h
        exact .start hstate (isPerm_iff.mp horder)
      · cases h
    · cases h
  | stopWithError =>
    cases h
    rw [workOf_leaveLive]
    exact .stopWithError
  | recheck =>
    rw [step] at h
    split at h <;> cases h
    rw [workOf_leaveLive]
    exact .recheck
  | initialized havePieces onlyFiles => exact effect_of_initialized h

/-! ### When the torrent is not live -/

/-- **Unless the torrent is live, no connection has anything in hand** but checks that are stale. -/
def IdleUnlessLive (state : ManagedTorrentState L) (works : ℕ → Work L) : Prop :=
  (∀ pt filePriorities, state ≠ .live pt filePriorities) → ∀ i, (works i).abandon = works i

lemma Effect.idleUnlessLive {state works}
    (heffect : Effect shared t a state works) (h : IdleUnlessLive t.state t.workOf) :
    IdleUnlessLive state works := by
  intro hlive
  cases heffect with
  | keep => exact h hlive
  | connection | selectLive | start => exact absurd rfl (hlive _ _)
  | staleCheckEnds _ =>
    intro i
    rw [update_apply]
    split
    · rfl
    · exact h hlive i
  | pause | stopWithError | recheck => exact fun i => Work.abandon_abandon _
  | selectPaused hstate | initialized hstate _ | initFailed hstate =>
    exact h fun _ _ => by rw [hstate]; nofun

lemma idleUnlessLive_initial : IdleUnlessLive ({} : Torrent L).state ({} : Torrent L).workOf :=
  fun _ _ => rfl

/-! ### The pieces we have -/

lemma Effect.havePieces_eq_or {state works pt pt'} (h : Effect shared t a state works)
    (hpt : pt ∈ t.state.tracker) (hpt' : pt' ∈ state.tracker) :
    pt'.chunks.havePieces = pt.chunks.havePieces ∨ ∃ id c p requester,
      a = .connection id (.reader .record) ∧ t.connections[id]? = some c ∧
      c.task = .running (.checked p true) requester ∧ pt' = pt.markPieceHashOk p := by
  cases h with
  | keep | staleCheckEnds => exact .inl (by rw [Option.mem_unique hpt hpt'])
  | connection hstate hc h =>
    rw [hstate] at hpt
    cases hpt
    cases hpt'
    rcases h.havePieces_eq_or with heq | ⟨rfl, p, requester, htask, heq⟩
    · exact .inl heq
    · exact .inr ⟨_, _, p, requester, rfl, hc, htask, heq⟩
  | selectPaused hstate | selectLive hstate =>
    rw [hstate] at hpt
    cases hpt
    cases hpt'
    exact .inl (ChunkTracker.havePieces_updateOnlyFiles ..)
  | pause hstate =>
    -- the pieces in flight go back to the queue
    rw [hstate] at hpt
    cases hpt
    cases hpt'
    exact .inl (ChunkTracker.havePieces_foldl_markPieceBrokenIfNotHave ..)
  | start hstate =>
    rw [hstate] at hpt
    cases hpt
    cases hpt'
    exact .inl rfl
  | initialized hstate =>
    rw [hstate] at hpt
    cases hpt
  | stopWithError | recheck | initFailed => cases hpt'

/-- **A piece is there once its good hash is recorded, and stays**: as long as the torrent is live
or paused, nothing else changes what we have, whatever the peers do. -/
theorem moves_havePieces (shared : TorrentShared) (t : Torrent L) (as : List (TorrentStep L)) :
    Machinery.Moves (·.step shared) (fun t a t' =>
      ∀ pt ∈ t.state.tracker, ∀ pt' ∈ t'.state.tracker,
        pt'.chunks.havePieces = pt.chunks.havePieces ∨ ∃ id c p requester,
          a = .connection id (.reader .record) ∧ t.connections[id]? = some c ∧
          c.task = .running (.checked p true) requester ∧
          ∀ q, pt'.chunks.isPieceHave q ↔ pt.chunks.isPieceHave q ∨ p = q) t as := by
  induction as generalizing t with
  | nil => trivial
  | cons a as ih =>
    refine fun t' hstep => ⟨fun pt hpt pt' hpt' => ?_, ih t'⟩
    rcases (effect_of_step hstep).havePieces_eq_or hpt hpt' with
      heq | ⟨id, c, p, requester, ha, hc, htask, rfl⟩
    · exact .inl heq
    · refine .inr ⟨id, c, p, requester, ha, hc, htask, fun q => ?_⟩
      simp [PieceTracker.markPieceHashOk, ChunkTracker.isPieceHave_markPieceDownloaded]

end Step

end Torrent

end Librtbit
