import Librtbit.Live.Effect
import Librtbit.Tracker.FileProgress

/-!
# Live/NoLoss — no selected piece is lost

A piece we still need has to be somewhere: in the queue, in flight, or under a hash check.  And a
queued piece has to be found by `iter_queued_pieces`, which passes over the files that are complete
by their counters.

* **Kept.**  A piece is taken out of flight before its hash is checked, and only the result of the
  check brings it back.  A check that ends in a storage error, or after a pause, records no result:
  the piece is nowhere.  `ChecksEndWell` says that no such check was the last hold on a piece, and
  it is exact (`kept_iff_checksEndWell`).
* **Yielded.**  Counters run ahead when a piece is counted twice, and a piece that is recorded while
  it is queued stays in the queue.  `RecordsNew` excludes both.
-/

namespace Librtbit

open Machinery ChunkTracker ManagedTorrentState PieceTracker Function Work List Option

variable {L : Lengths}

/-- The hash of the piece is being checked, whether or not the result will be recorded. -/
def Work.checks (w : Work L) (p : ValidPieceIndex L) : Bool :=
  decide (w = .checking p) || decide (w = .stale p)

@[simp] lemma checks_rest (p : ValidPieceIndex L) : rest.checks p = false := rfl

@[simp] lemma checks_writing (p q : ValidPieceIndex L) : (writing p).checks q = false := rfl

@[simp] lemma checks_checking (p q : ValidPieceIndex L) :
    (checking p).checks q = decide (p = q) := by
  simp [checks]

@[simp] lemma checks_abandon (w : Work L) (p : ValidPieceIndex L) :
    w.abandon.checks p = w.checks p := by
  cases w <;> simp [abandon, checks]

/-- The connection whose hash check a step ends without a result, if any. -/
def TorrentStep.endsCheck : TorrentStep L → Option ℕ
  | .connection id (.reader (.hashed none)) => some id
  | .staleCheckEnds id => some id
  | _ => none

/-! ## What is asked -/

namespace Torrent

/-- The hash check of the piece is still running. -/
def isChecked (t : Torrent L) (p : ValidPieceIndex L) : Bool :=
  t.connections.any fun c => c.work.checks p

/-- **Every piece that is selected and not there is queued, in flight or checked.** -/
def Kept (t : Torrent L) : Prop :=
  ∀ pt ∈ t.state.tracker, ∀ p, pt.chunks.isSelected p = true → pt.chunks.isPieceHave p = false →
    pt.chunks.isQueued p = true ∨ pt.isInflight p = true ∨ t.isChecked p = true
  deriving Decidable

/-- The file priorities of a live torrent; a paused one may get any when it is started. -/
def InOrder (shared : TorrentShared) (t : Torrent L) (filePriorities : List ℕ) : Prop :=
  match t.state with
  | .live _ current => filePriorities = current
  | .initializing | .paused _ | .error => isFileOrder shared filePriorities = true

/-- **The queue yields every queued piece.** -/
def Yields (shared : TorrentShared) (t : Torrent L) : Prop :=
  ∀ pt ∈ t.state.tracker, ∀ filePriorities, t.InOrder shared filePriorities →
    ∀ p, pt.chunks.isQueued p = true →
      p ∈ pt.chunks.iterQueuedPieces filePriorities shared.fileInfos

/-- **No selected piece is lost.** -/
structure NoLoss (shared : TorrentShared) (t : Torrent L) : Prop where
  kept : t.Kept
  yields : t.Yields shared

/-- The hash check of connection `id` may end without a result: if its piece is still needed, it is
queued, in flight or checked by another connection. -/
def CheckEndsWell (t : Torrent L) (id : ℕ) : Prop :=
  ∀ p, (t.workOf id).checks p = true → ∀ pt ∈ t.state.tracker,
    pt.chunks.isSelected p = true → pt.chunks.isPieceHave p = false →
      pt.chunks.isQueued p = true ∨ pt.isInflight p = true ∨
        ∃ j, j < t.connections.length ∧ j ≠ id ∧ (t.workOf j).checks p = true

instance (t : Torrent L) (id : ℕ) : Decidable (t.CheckEndsWell id) :=
  inferInstanceAs (Decidable (∀ _ : ValidPieceIndex L, _ → ∀ pt ∈ t.state.tracker, _ → _ → _))

/-- The checks that end without a result are not the last hold on a piece. -/
def ChecksEndWell (t : Torrent L) (a : TorrentStep L) : Prop :=
  ∀ id ∈ a.endsCheck, t.CheckEndsWell id
  deriving Decidable

/-- The piece whose good hash connection `id` is about to record. -/
def verified (t : Torrent L) (id : ℕ) : Option (ValidPieceIndex L) :=
  (t.connections[id]?).bind fun c =>
    match c.task with
    | .running (.checked p true) _ => some p
    | _ => none

/-- The piece whose good hash a step records, if any. -/
def records (t : Torrent L) : TorrentStep L → Option (ValidPieceIndex L)
  | .connection id (.reader .record) => t.verified id
  | _ => none

/-- A good hash is recorded of a piece that is neither there nor queued. -/
def RecordsNew (t : Torrent L) (a : TorrentStep L) : Prop :=
  ∀ p ∈ t.records a, ∀ pt ∈ t.state.tracker,
    pt.chunks.isPieceHave p = false ∧ pt.chunks.isQueued p = false
  deriving Decidable

end Torrent

/-! ## Kept: one step of a connection -/

namespace PieceTracker

variable {pt pt' : PieceTracker L} {works : ℕ → Work L} {p : ValidPieceIndex L} {id : ℕ}

/-- The piece is queued, in flight, or its hash is being checked. -/
def Tends (pt : PieceTracker L) (works : ℕ → Work L) (p : ValidPieceIndex L) : Prop :=
  pt.chunks.isQueued p = true ∨ pt.isInflight p = true ∨ ∃ i, (works i).checks p = true

/-- Every piece that is selected and not there is tended. -/
def TendsAll (pt : PieceTracker L) (works : ℕ → Work L) : Prop :=
  ∀ p, pt.chunks.isSelected p = true → pt.chunks.isPieceHave p = false → pt.Tends works p

/-- A step after which the same pieces are needed, and each is tended if it was. -/
lemma TendsAll.mono (h : pt.TendsAll works) {works'}
    (hselected : ∀ p, pt'.chunks.isSelected p = pt.chunks.isSelected p)
    (hhave : ∀ p, pt'.chunks.isPieceHave p = pt.chunks.isPieceHave p)
    (htends : ∀ p, pt.chunks.isPieceHave p = false → pt.Tends works p → pt'.Tends works' p) :
    pt'.TendsAll works' := by
  intro p hsel hnot
  rw [hselected] at hsel
  rw [hhave] at hnot
  exact htends p hnot (h p hsel hnot)

variable {w : Work L} (hw : (works id).checks p = true → w.checks p = true)
include hw

lemma exists_checks_update (h : ∃ i, (works i).checks p) :
    ∃ i, (update works id w i).checks p := by
  obtain ⟨i, hi⟩ := h
  refine ⟨i, ?_⟩
  rw [update_apply]
  split
  · next heq =>
    rw [heq] at hi
    exact hw hi
  · exact hi

/-- Work that is no check changes hands. -/
lemma Tends.update (h : pt.Tends works p) : pt.Tends (update works id w) p :=
  h.imp_right fun h' => h'.imp_right (exists_checks_update hw)

omit hw

/-- **A check that ends leaves its piece to the others.** -/
theorem tends_update_rest_iff : pt.Tends (update works id .rest) p ↔
      pt.chunks.isQueued p ∨ pt.isInflight p ∨
        ∃ j, j ≠ id ∧ (works j).checks p := by
  refine or_congr .rfl (or_congr .rfl (exists_congr fun j => ?_))
  rcases eq_or_ne j id with rfl | hne
  · simp
  · simp [hne]

/-- A piece that is taken out of the queue is in flight. -/
lemma Tends.reservePiece (h : pt.Tends works p) (q : ValidPieceIndex L) (peer : PeerHandle)
    (now : Instant) : (pt.reservePiece q peer now).Tends works p := by
  rw [Tends, PieceTracker.reservePiece, isInflight_update, isQueued_reserveNeededPiece]
  rcases eq_or_ne p q with rfl | hne
  · exact .inr (.inl (by simp))
  · simpa [Tends, hne, hne.symm] using h

variable {q : ValidPieceIndex L} (h : pt.Tends works p)
include h

/-- A piece that is taken out of flight is checked. -/
lemma Tends.take (hid : works id = .writing q) (chunkStatus : BitField L.chunkBits) :
    (⟨{ pt.chunks with chunkStatus }, Function.update pt.inflight q none⟩ : PieceTracker L).Tends
      (Function.update works id (.checking q)) p := by
  rcases eq_or_ne p q with rfl | hne
  · exact .inr (.inr ⟨id, by simp⟩)
  · have hw : (works id).checks p → (checking q).checks p := by simp [hid]
    refine h.imp_right (Or.imp (fun hin => ?_) (exists_checks_update hw))
    rwa [isInflight_update, if_neg hne]

/-- A piece whose hash was wrong is queued again. -/
lemma Tends.recordFailed (hid : works id = .checking q) (hp : pt.chunks.isPieceHave p = false) :
    (pt.markPieceHashFailed q).Tends (Function.update works id .rest) p := by
  rw [tends_update_rest_iff, markPieceHashFailed, isQueued_markPieceBrokenIfNotHave, hp]
  rcases h with hq | hin | ⟨i, hi⟩
  · exact .inl (by simp [hq])
  · exact .inr (.inl hin)
  · rcases eq_or_ne i id with rfl | hne
    · rw [hid, checks_checking] at hi
      exact .inl (by simp [hi])
    · exact .inr (.inr ⟨i, hne, hi⟩)

/-- The pieces of a peer that died are queued again. -/
lemma Tends.release (hp : pt.chunks.isPieceHave p = false)
    (peer : PeerHandle) : (pt.releasePiecesOwnedBy peer).1.Tends works p := by
  rw [Tends, isQueued_releasePiecesOwnedBy, isInflight, inflight_releasePiecesOwnedBy]
  rcases h with hq | hin | hchecked
  · exact .inl (.inl hq)
  · obtain ⟨info, hinfo⟩ := isSome_iff_exists.mp hin
    by_cases hpeer : info.peer = peer
    · exact .inl (.inr ⟨⟨info, hinfo, hpeer⟩, hp⟩)
    · exact .inr (.inl (by simp [hinfo, Option.filter, hpeer]))
  · exact .inr (.inr hchecked)

omit h

variable {shared : TorrentShared} {peers : PeerStates L} {filePriorities : List ℕ}
  {locked : ValidPieceIndex L → Bool} {c : Connection L}

/-- **A step of a connection loses no piece**, unless it ends a check without a result. -/
theorem TendsAll.effect (h : pt.TendsAll works) (hid : works id = c.work) {a}
    (heffect : c.Effect shared pt peers filePriorities locked a pt' w)
    (ha : a ≠ .reader (.hashed none)) : pt'.TendsAll (update works id w) := by
  have hself := Connection.update_work hid
  have hno : ∀ {w : Work L} {p}, c.work.checks p = false →
      (works id).checks p → w.checks p := by
    intro w p hnot hp
    rw [hid, hnot] at hp
    cases hp
  cases heffect with
  | keep => rwa [hself]
  | failWrite hw | mark hw =>
    exact h.mono (fun _ => rfl) (fun _ => rfl) fun p _ hp => hp.update (hno (by rw [hw]; rfl))
  | reserve _ _ _ _ =>
    rw [hself]
    exact h.mono (fun _ => rfl) (fun _ => rfl) fun p _ hp => hp.reservePiece _ _ _
  | handOver _ _ _ =>
    rw [hself]
    refine h.mono (fun _ => rfl) (fun _ => rfl) fun p _ hp => ?_
    refine hp.imp_right (Or.imp_left fun hin => ?_)
    rw [isInflight_update]
    split
    · rfl
    · exact hin
  | write htask _ _ =>
    refine h.mono (fun _ => rfl) (fun _ => rfl) fun p _ hp => hp.update (hno ?_)
    rw [Connection.work_eq_rest htask rfl, checks_rest]
  | take hw _ =>
    exact h.mono (fun _ => rfl) (fun _ => rfl) fun p _ hp => hp.take (hid.trans hw) _
  | failCheck _ => exact absurd rfl ha
  | @recordOk p _ htask =>
    intro q hsel hnot
    rw [markPieceHashOk, isPieceHave_markPieceDownloaded, Bool.or_eq_false_iff,
      decide_eq_false_iff_not] at hnot
    rw [markPieceHashOk, isSelected_markPieceDownloaded] at hsel
    have htends : pt.Tends (update works id (.completing p)) q :=
      (h q hsel hnot.1).update (hno (by simpa [Connection.work, htask] using hnot.2))
    rwa [Tends, markPieceHashOk, isQueued_markPieceDownloaded]
  | recordFailed htask =>
    exact h.mono (fun _ => isSelected_markPieceBrokenIfNotHave _ _ _)
      (fun _ => isPieceHave_markPieceBrokenIfNotHave _ _ _)
      fun p hnot hp => hp.recordFailed (hid.trans (by rw [Connection.work, htask])) hnot
  | count hw =>
    obtain ⟨perFileBytes, he⟩ := pt.chunks.exists_onPieceCompleted _ shared.fileInfos
    rw [he]
    exact h.mono (fun _ => rfl) (fun _ => rfl) fun p _ hp => hp.update (hno (by rw [hw]; rfl))
  | release hw _ =>
    rw [← hw, hself]
    refine h.mono (fun p => ?_) (fun p => ?_) fun p hnot hp => hp.release hnot _
    · rw [isSelected, chunks_releasePiecesOwnedBy,
        selected_foldl_markPieceBrokenIfNotHave, isSelected]
    · rw [isPieceHave, havePieces_releasePiecesOwnedBy, isPieceHave]

/-- A piece that a new selection adds is queued. -/
lemma TendsAll.updateOnlyFiles (h : pt.TendsAll works) (fileInfos : List FileInfo)
    (onlyFiles : List ℕ) : (pt.updateOnlyFiles fileInfos onlyFiles).TendsAll works := by
  intro p hsel hnot
  rw [PieceTracker.updateOnlyFiles, isPieceHave_updateOnlyFiles] at hnot
  have hqueued : pt.chunks.isQueued p ∨ pt.chunks.Reselected fileInfos onlyFiles p →
      (pt.updateOnlyFiles fileInfos onlyFiles).Tends works p := fun hq =>
    .inl ((pt.chunks.isQueued_updateOnlyFiles fileInfos onlyFiles p).mpr ⟨hq, .inl hsel⟩)
  by_cases hbefore : pt.chunks.isSelected p
  · rcases h p hbefore hnot with hq | hrest
    · exact hqueued (.inl hq)
    · exact .inr hrest
  · exact hqueued (.inr ⟨hsel, Bool.eq_false_iff.mpr hbefore, hnot⟩)

/-- A pause queues what was in flight. -/
lemma TendsAll.intoChunks (h : pt.TendsAll works) :
    (new pt.intoChunks).TendsAll fun i => (works i).abandon := by
  refine h.mono (fun p => ?_) (fun p => ?_) fun p hnot hp => ?_
  · rw [new, isSelected, PieceTracker.intoChunks,
      selected_foldl_markPieceBrokenIfNotHave, isSelected]
  · rw [new, isPieceHave, PieceTracker.intoChunks,
      havePieces_foldl_markPieceBrokenIfNotHave, isPieceHave]
  · have hqueued : pt.chunks.isQueued p ∨ pt.isInflight p →
        pt.intoChunks.isQueued p := by
      rw [PieceTracker.intoChunks, isQueued_foldl_markPieceBrokenIfNotHave, hnot]
      rintro (hq | hin)
      · simp [hq]
      · rw [isInflight] at hin
        simp [inflightKeys, hin]
    rcases hp with hq | hin | hchecked
    · exact .inl (hqueued (.inl hq))
    · exact .inl (hqueued (.inr hin))
    · exact .inr (.inr (by simpa using hchecked))

end PieceTracker

/-! ## Kept: the whole system -/

namespace Torrent

variable {shared : TorrentShared} {t t' : Torrent L} {a : TorrentStep L}

lemma kept_iff : t.Kept ↔ ∀ pt ∈ t.state.tracker, pt.TendsAll t.workOf := by
  have hchecked : ∀ p, t.isChecked p ↔ ∃ i, (t.workOf i).checks p := fun p =>
    any_work_iff (f := fun w => w.checks p) rfl
  simp only [Kept, hchecked, PieceTracker.TendsAll, PieceTracker.Tends]

variable {id : ℕ}

lemma exists_lt_length_iff {p} :
    (∃ j, j < t.connections.length ∧ j ≠ id ∧ (t.workOf j).checks p) ↔
      ∃ j, j ≠ id ∧ (t.workOf j).checks p := by
  refine exists_congr fun j => ⟨And.right, fun h => ⟨?_, h⟩⟩
  by_contra hlen
  rw [workOf, getElem?_eq_none (Nat.not_lt.mp hlen)] at h
  exact absurd h.2 (by simp)

/-- **When a check ends without a result, every piece is kept exactly when it ends well.** -/
theorem kept_checkEnds_iff (h : t.Kept) (hstate : t'.state = t.state)
    (hworks : t'.workOf = update t.workOf id .rest) : t'.Kept ↔ t.CheckEndsWell id := by
  rw [kept_iff] at h ⊢
  simp only [CheckEndsWell, exists_lt_length_iff, ← tends_update_rest_iff, hstate, hworks]
  constructor
  · intro h' p _ pt hpt hsel hnot
    exact h' pt hpt p hsel hnot
  intro hends pt hpt p hsel hnot
  by_cases hp : (t.workOf id).checks p
  · exact hends p hp pt hpt hsel hnot
  · exact (h pt hpt p hsel hnot).update fun hp' => absurd hp' hp

/-- A storage error ends the check and with it the connection. -/
lemma step_hashed_none (h : t.step shared (.connection id (.reader (.hashed none))) = some t') :
    t'.state = t.state ∧ t'.workOf = update t.workOf id .rest := by
  obtain ⟨pt, filePriorities, c, pt', peers, c', hstate, hc, hstep, rfl⟩ :=
    connectionStep_eq_some h
  rw [Connection.step] at hstep
  split at hstep
  · next reader requester htask =>
    obtain ⟨⟨pt₁, peers₁, task⟩, ha, he⟩ := map_eq_some_iff.mp hstep
    cases he
    rw [workOf_set hc, hstate]
    cases reader with
    | checking p =>
      cases ha
      exact ⟨rfl, rfl⟩
    | checked p ok => cases ok <;> cases ha
    | _ => cases ha
  · cases hstep

/-- Every other step keeps every piece. -/
lemma Effect.tendsAll {state works}
    (heffect : Effect shared t a state works) (h : ∀ pt ∈ t.state.tracker, pt.TendsAll t.workOf)
    (hhashed : ∀ id, a ≠ .connection id (.reader (.hashed none)))
    (hstale : ∀ id, a ≠ .staleCheckEnds id) : ∀ pt ∈ state.tracker, pt.TendsAll works := by
  cases heffect with
  | keep => exact h
  | connection hstate hc heffect =>
    simp only [tracker, mem_some_iff, forall_eq']
    refine (h _ (mem_tracker_of_live hstate)).effect (workOf_eq hc) heffect ?_
    rintro rfl
    exact hhashed _ rfl
  | staleCheckEnds _ => exact absurd rfl (hstale _)
  | selectPaused hstate =>
    simp only [tracker, mem_some_iff, forall_eq']
    exact (h _ (mem_tracker_of_paused hstate)).updateOnlyFiles _ _
  | selectLive hstate =>
    simp only [tracker, mem_some_iff, forall_eq']
    exact (h _ (mem_tracker_of_live hstate)).updateOnlyFiles _ _
  | pause hstate =>
    simp only [tracker, mem_some_iff, forall_eq']
    exact (h _ (mem_tracker_of_live hstate)).intoChunks
  | start hstate _ =>
    simp only [tracker, mem_some_iff, forall_eq']
    exact h _ (mem_tracker_of_paused hstate)
  | initialized _ hnew =>
    simp only [tracker, mem_some_iff, forall_eq']
    intro p hsel hnot
    refine .inl ?_
    rw [PieceTracker.new, isQueued_of_new hnew]
    simp only [PieceTracker.new] at hsel hnot
    rw [hsel, hnot]
    rfl
  | stopWithError | recheck | initFailed => exact nofun

/-- **One step keeps every piece exactly when the checks it ends end well.** -/
theorem kept_step_iff (h : t.Kept) (hstep : t.step shared a = some t') :
    t'.Kept ↔ t.ChecksEndWell a := by
  have heffect := effect_of_step hstep
  rw [ChecksEndWell, TorrentStep.endsCheck.eq_def]
  split
  · obtain ⟨hstate, hworks⟩ := step_hashed_none hstep
    simp only [mem_some_iff, forall_eq']
    exact kept_checkEnds_iff h hstate hworks
  · obtain ⟨c, hc, hc'⟩ := bind_eq_some_iff.mp hstep
    simp only [mem_some_iff, forall_eq']
    split at hc'
    · cases hc'
      exact kept_checkEnds_iff h rfl (workOf_set hc _ _ _)
    · cases hc'
  · next hhashed hstale =>
    simp only [not_mem_none, false_imp_iff, implies_true, iff_true]
    rw [kept_iff]
    exact heffect.tendsAll (kept_iff.mp h) hhashed hstale

lemma kept_initial : ({} : Torrent L).Kept := by
  intro pt hpt
  cases hpt

/-- **No piece is lost along a run exactly when its checks end well.** -/
theorem kept_iff_checksEndWell (as : List (TorrentStep L)) :
    Always (step shared) Kept ({} : Torrent L) as ↔
      Along (step shared) ChecksEndWell ({} : Torrent L) as :=
  always_iff_along (fun _ _ _ => kept_step_iff) kept_initial as

end Torrent

/-! ## Yielded: what is counted

The counters of the files may lag behind the pieces we have, as a pause can come between the record
of a hash and its count.  They never run ahead: they count a set of pieces that we have. -/

/-- **The counters count pieces we have**, each once, and none that a connection is about to
count. -/
structure Counted (fileInfos : List FileInfo) (ct : ChunkTracker L) (works : ℕ → Work L)
    (counted : PieceBits L) : Prop where
  isHave : ∀ p : ValidPieceIndex L, counted.get p.1 = true → ct.isPieceHave p = true
  bytes : ∀ i fi, fileInfos[i]? = some fi → ct.perFileBytes.getD i 0 ≤ fileBytes counted fi
  completing : ∀ i p, works i = .completing p →
    ct.isPieceHave p = true ∧ counted.get p.1 = false
  unique : ∀ i j p, works i = .completing p → works j = .completing p → i = j

/-- **Nothing queued is there, and the counters count pieces we have.** -/
structure Countable (fileInfos : List FileInfo) (ct : ChunkTracker L) (works : ℕ → Work L) :
    Prop where
  queued : ∀ p, ct.isQueued p = true → ct.isPieceHave p = false
  counted : ∃ counted, Counted fileInfos ct works counted

namespace Countable

variable {fileInfos : List FileInfo} {ct ct' : ChunkTracker L} {works works' : ℕ → Work L}
  {p : ValidPieceIndex L} {id : ℕ}

/-- A step that moves neither what we have nor the counters. -/
lemma mono (h : Countable fileInfos ct works)
    (hqueued : ∀ p, ct'.isQueued p → ct'.isPieceHave p = false)
    (hhave : ct'.havePieces = ct.havePieces) (hbytes : ct'.perFileBytes = ct.perFileBytes)
    (hworks : ∀ i p, works' i = .completing p → works i = .completing p) :
    Countable fileInfos ct' works' := by
  obtain ⟨counted, hc⟩ := h.counted
  have hhave' : ∀ p, ct'.isPieceHave p = ct.isPieceHave p := fun p => by
    rw [isPieceHave, hhave, isPieceHave]
  refine ⟨hqueued, counted, ?_, ?_, ?_, ?_⟩
  · intro p hp
    rw [hhave']
    exact hc.isHave p hp
  · rw [hbytes]
    exact hc.bytes
  · intro i p hi
    rw [hhave']
    exact hc.completing i p (hworks i p hi)
  · exact fun i j p hi hj => hc.unique i j p (hworks i p hi) (hworks j p hj)

lemma rest_ne_completing (p : ValidPieceIndex L) : rest ≠ .completing p := by
  intro h
  cases h

variable {w : Work L}

lemma completing_of_update (hw : ∀ p, w ≠ .completing p) (i : ℕ)
    (p : ValidPieceIndex L) (h : update works id w i = .completing p) :
    works i = .completing p := eq_of_update (hw p) h

variable (h : Countable fileInfos ct works)
include h

/-- Work that is no count, in another's hands. -/
lemma update (hw : ∀ p, w ≠ .completing p) :
    Countable fileInfos ct (update works id w) :=
  h.mono h.queued rfl rfl (completing_of_update hw)

lemma requeue (ps : List (ValidPieceIndex L)) :
    Countable fileInfos (ps.foldl markPieceBrokenIfNotHave ct) works := by
  refine h.mono (fun p hp => ?_) (ct.havePieces_foldl_markPieceBrokenIfNotHave ps)
    (ct.perFileBytes_foldl_markPieceBrokenIfNotHave ps) fun _ _ hi => hi
  rw [isPieceHave, ct.havePieces_foldl_markPieceBrokenIfNotHave]
  rw [ct.isQueued_foldl_markPieceBrokenIfNotHave, Bool.or_eq_true, Bool.and_eq_true,
    Bool.not_eq_true'] at hp
  exact hp.elim (h.queued p) And.right

/-- A good hash of a new piece is recorded: it is there, and to be counted. -/
lemma record (hhave : ct.isPieceHave p = false) (hqueued : ct.isQueued p = false) :
    Countable fileInfos (ct.markPieceDownloaded p) (Function.update works id (.completing p)) := by
  obtain ⟨counted, hc⟩ := h.counted
  have hmono : ∀ q, ct.isPieceHave q → (ct.markPieceDownloaded p).isPieceHave q := by
    intro q hq
    rw [isPieceHave_markPieceDownloaded, hq, Bool.true_or]
  have hcases : ∀ i q, Function.update works id (.completing p) i = .completing q →
      (i = id ∧ q = p) ∨ (works i = .completing q ∧ q ≠ p) := by
    intro i q hi
    rw [update_apply] at hi
    split at hi
    · next heq =>
      cases hi
      exact .inl ⟨heq, rfl⟩
    refine .inr ⟨hi, ?_⟩
    rintro rfl
    rw [(hc.completing i q hi).1] at hhave
    cases hhave
  refine ⟨?_, counted, ?_, ?_, ?_, ?_⟩
  · intro q hq
    rw [isQueued_markPieceDownloaded] at hq
    rw [isPieceHave_markPieceDownloaded, h.queued q hq, Bool.false_or, decide_eq_false_iff_not]
    rintro rfl
    rw [hq] at hqueued
    cases hqueued
  · exact fun q hq => hmono q (hc.isHave q hq)
  · rw [perFileBytes_markPieceDownloaded]
    exact hc.bytes
  · intro i q hi
    rcases hcases i q hi with ⟨-, rfl⟩ | ⟨hi, -⟩
    · refine ⟨by simp [isPieceHave_markPieceDownloaded], ?_⟩
      rw [Bool.eq_false_iff]
      intro hcounted
      rw [hc.isHave q hcounted] at hhave
      cases hhave
    · exact ⟨hmono q (hc.completing i q hi).1, (hc.completing i q hi).2⟩
  · intro i j q hi hj
    rcases hcases i q hi with ⟨rfl, rfl⟩ | ⟨hi, hne⟩
    · rcases hcases j q hj with ⟨rfl, -⟩ | ⟨-, hne⟩
      · rfl
      · exact absurd rfl hne
    · rcases hcases j q hj with ⟨-, rfl⟩ | ⟨hj, -⟩
      · exact absurd rfl hne
      · exact hc.unique i j q hi hj

omit h

/-- The files of a counted piece grow by what they share with it, at most. -/
lemma bytes_onPieceCompleted (hpl : 0 < L.pieceLength) {counted : PieceBits L}
    (hp : counted.get p.1 = false)
    (h : ∀ i fi, fileInfos[i]? = some fi → ct.perFileBytes.getD i 0 ≤ fileBytes counted fi)
    {i : ℕ} {fi : FileInfo} (hi : fileInfos[i]? = some fi) :
    (ct.onPieceCompleted fileInfos p).perFileBytes.getD i 0
      ≤ fileBytes (counted.set p.1 true) fi := by
  have hfound : (fi, i) ∈ filesFound fileInfos p →
      fi.pieceRange.contains p.1 := fun hmem =>
    mem_takeWhile_imp (p := fun f : FileInfo × ℕ => f.1.pieceRange.contains p.1) hmem
  have hle := h i fi hi
  rw [fileBytes_set hp, getD_eq_getElem?_getD,
    getElem?_perFileBytes_onPieceCompleted fileInfos p hpl ct hi]
  rw [getD_eq_getElem?_getD] at hle
  cases hbytes : ct.perFileBytes[i]? with
  | none => exact Nat.zero_le _
  | some bytes =>
    rw [hbytes] at hle
    refine Nat.add_le_add hle ?_
    split
    · next hmem => rw [if_pos (hfound hmem)]
    · exact Nat.zero_le _

/-- The piece is counted. -/
lemma count (hpl : 0 < L.pieceLength) (h : Countable fileInfos ct works)
    (hid : works id = .completing p) :
    Countable fileInfos (ct.onPieceCompleted fileInfos p) (Function.update works id .rest) := by
  obtain ⟨counted, hc⟩ := h.counted
  obtain ⟨hhave, hnot⟩ := hc.completing id p hid
  have hsame : ∀ q, (ct.onPieceCompleted fileInfos p).isPieceHave q = ct.isPieceHave q := by
    intro q
    rw [isPieceHave, havePieces_onPieceCompleted, isPieceHave]
  have hworks : ∀ i q, Function.update works id .rest i = .completing q →
      works i = .completing q := completing_of_update rest_ne_completing
  refine ⟨?_, counted.set p.1 true, ?_, ?_, ?_, ?_⟩
  · intro q hq
    obtain ⟨perFileBytes, he⟩ := ct.exists_onPieceCompleted p fileInfos
    rw [he] at hq
    rw [hsame]
    exact h.queued q hq
  · intro q hq
    rw [hsame]
    rcases eq_or_ne q p with rfl | hne
    · exact hhave
    · rw [BitField.get_set_of_ne _ (Fin.val_ne_of_ne hne.symm)] at hq
      exact hc.isHave q hq
  · exact fun i fi hi => bytes_onPieceCompleted hpl hnot hc.bytes hi
  · intro i q hi
    have hi' := hworks i q hi
    rw [hsame]
    refine ⟨(hc.completing i q hi').1, ?_⟩
    have hne : q ≠ p := by
      rintro rfl
      obtain rfl := hc.unique i id q hi' hid
      rw [update_self] at hi
      cases hi
    rw [BitField.get_set_of_ne _ (Fin.val_ne_of_ne hne.symm)]
    exact (hc.completing i q hi').2
  · exact fun i j q hi hj => hc.unique i j q (hworks i q hi) (hworks j q hj)

variable {shared : TorrentShared} {pt pt' : PieceTracker L} {peers : PeerStates L}
  {filePriorities : List ℕ} {locked : ValidPieceIndex L → Bool} {c : Connection L}

/-- **A step of a connection counts pieces we have**, if the piece it records is new. -/
theorem effect (hpl : 0 < L.pieceLength) (h : Countable shared.fileInfos pt.chunks works)
    (hid : works id = c.work) {a}
    (heffect : c.Effect shared pt peers filePriorities locked a pt' w)
    (hnew : ∀ p requester, a = .reader .record → c.task = .running (.checked p true) requester →
      pt.chunks.isPieceHave p = false ∧ pt.chunks.isQueued p = false) :
    Countable shared.fileInfos pt'.chunks (Function.update works id w) := by
  have hself := Connection.update_work hid
  cases heffect with
  | keep => rwa [hself]
  | failWrite _ | write _ _ _ | failCheck _ => exact h.update nofun
  | reserve _ _ _ _ =>
    rw [hself]
    refine h.mono (fun p hp => ?_) rfl rfl fun _ _ hi => hi
    rw [reservePiece, isQueued_reserveNeededPiece, Bool.and_eq_true] at hp
    exact h.queued p hp.1
  | handOver _ _ _ => rwa [hself]
  | mark _ | take _ _ => exact h.mono h.queued rfl rfl (completing_of_update nofun)
  | recordOk htask =>
    obtain ⟨hhave, hqueued⟩ := hnew _ _ rfl htask
    exact h.record hhave hqueued
  | recordFailed _ => exact (h.requeue [_]).update nofun
  | count hw => exact h.count hpl (hid.trans hw)
  | release _ _ =>
    rw [chunks_releasePiecesOwnedBy]
    exact (h.requeue _).update nofun

lemma updateOnlyFiles (h : Countable fileInfos ct works) (onlyFiles : List ℕ) :
    Countable fileInfos (ct.updateOnlyFiles fileInfos onlyFiles) works := by
  refine h.mono (fun p hp => ?_) (ct.havePieces_updateOnlyFiles _ _)
    (ct.perFileBytes_updateOnlyFiles _ _) fun _ _ hi => hi
  rw [ct.isPieceHave_updateOnlyFiles]
  rcases ((ct.isQueued_updateOnlyFiles _ _ p).mp hp).1 with hq | ⟨-, -, hhave⟩
  · exact h.queued p hq
  · exact hhave

/-- A new tracker counts the pieces we have. -/
lemma of_new (hpl : 0 < L.pieceLength) {havePieces selected}
    (hnew : new havePieces selected fileInfos = .ok ct)
    (hworks : ∀ i, (works i).abandon = works i) : Countable fileInfos ct works := by
  have hqueued := isQueued_of_new hnew
  obtain ⟨chunkStatus, -, rfl⟩ := new_eq_ok hnew
  have hno : ∀ i p, works i ≠ .completing p := by
    intro i p hi
    have := hworks i
    rw [hi] at this
    cases this
  refine ⟨?_, havePieces, fun p hp => hp, ?_, fun i p hi => absurd hi (hno i p),
    fun i _ p hi => absurd hi (hno i p)⟩
  · intro p hp
    rw [hqueued, Bool.and_eq_true, Bool.not_eq_true'] at hp
    exact hp.1
  · intro i fi hi
    rw [recalculatePerFileBytes_eq hpl, getD_eq_getElem?_getD, getElem?_map, hi]
    exact le_rfl

/-- **A queued piece lies in a file that is not complete by its counter**, so the queue yields
it. -/
theorem mem_iterQueuedPieces (lay : Layout L) (h : Countable lay.fileInfos ct works)
    {filePriorities}
    (horder : filePriorities.Perm (List.range lay.fileInfos.length))
    (hp : ct.isQueued p) : p ∈ ct.iterQueuedPieces filePriorities lay.fileInfos := by
  obtain ⟨counted, hc⟩ := h.counted
  obtain ⟨fi, hfi, hcontains⟩ := lay.exists_contains p
  obtain ⟨i, hi⟩ := mem_iff_getElem?.mp hfi
  have hnot : counted.get p.1 = false := by
    rw [Bool.eq_false_iff]
    intro hcounted
    have hhave := h.queued p hp
    rw [hc.isHave p hcounted] at hhave
    cases hhave
  have hlt : fileBytes counted fi < fi.len := by
    have hset := fileBytes_set hnot fi
    rw [if_pos hcontains] at hset
    have hle := fileBytes_le (counted.set p.1 true) fi
    have hpos := lay.bytesInFile_pos p hfi hcontains
    omega
  refine ct.mem_iterQueuedPieces.mpr
    ⟨hp, i, ?_, fi, hi, ?_, lay.mem_iterPiecePriorities hfi hcontains⟩
  · rw [horder.mem_iff, mem_range]
    exact (List.getElem?_eq_some_iff.mp hi).1
  · exact (lt_of_le_of_lt (hc.bytes i fi hi) hlt).ne

end Countable

/-! ## Yielded: the whole system -/

namespace Torrent

variable {shared : TorrentShared} {t t' : Torrent L} {a : TorrentStep L}

/-- A live torrent has its files in some order. -/
def Ordered (shared : TorrentShared) (state : ManagedTorrentState L) : Prop :=
  ∀ pt filePriorities, state = .live pt filePriorities →
    filePriorities.Perm (List.range shared.fileInfos.length)

variable {state : ManagedTorrentState L} {works : ℕ → Work L}

lemma Effect.ordered (heffect : Effect shared t a state works) (h : Ordered shared t.state) :
    Ordered shared state := by
  intro pt filePriorities hlive
  cases heffect with
  | keep | staleCheckEnds => exact h _ _ hlive
  | connection hstate | selectLive hstate =>
    obtain ⟨-, rfl⟩ := live.inj hlive
    exact h _ _ hstate
  | start _ horder =>
    obtain ⟨-, rfl⟩ := live.inj hlive
    exact horder
  | selectPaused | pause | stopWithError | recheck | initialized | initFailed => cases hlive

/-- **One step counts pieces we have.** -/
theorem Effect.countable (hpl : 0 < L.pieceLength) (heffect : Effect shared t a state works)
    (hidle : IdleUnlessLive t.state t.workOf)
    (h : ∀ pt ∈ t.state.tracker, Countable shared.fileInfos pt.chunks t.workOf)
    (hC : t.RecordsNew a) : ∀ pt ∈ state.tracker, Countable shared.fileInfos pt.chunks works := by
  have habandon : ∀ i p, (t.workOf i).abandon = .completing p → t.workOf i = .completing p := by
    intro i p hi
    cases hw : t.workOf i <;> rw [hw] at hi <;> cases hi
  cases heffect with
  | keep => exact h
  | connection hstate hc heffect =>
    simp only [tracker, mem_some_iff, forall_eq']
    have hpt := mem_tracker_of_live hstate
    refine (h _ hpt).effect hpl (workOf_eq hc) heffect ?_
    rintro p requester rfl htask
    exact hC p (by simp [records, verified, hc, htask]) _ hpt
  | staleCheckEnds _ => exact fun pt hpt => (h pt hpt).update nofun
  | selectPaused hstate =>
    simp only [tracker, mem_some_iff, forall_eq']
    exact (h _ (mem_tracker_of_paused hstate)).updateOnlyFiles _
  | selectLive hstate =>
    simp only [tracker, mem_some_iff, forall_eq']
    exact (h _ (mem_tracker_of_live hstate)).updateOnlyFiles _
  | @pause pt _ hstate =>
    simp only [tracker, mem_some_iff, forall_eq']
    have hrequeue := (h pt (mem_tracker_of_live hstate)).requeue pt.inflightKeys
    exact hrequeue.mono hrequeue.queued rfl rfl habandon
  | start hstate _ =>
    simp only [tracker, mem_some_iff, forall_eq']
    exact h _ (mem_tracker_of_paused hstate)
  | initialized hstate hnew =>
    simp only [tracker, mem_some_iff, forall_eq']
    exact .of_new hpl hnew (hidle fun _ _ => by rw [hstate]; nofun)
  | stopWithError | recheck | initFailed => exact nofun

/-- The queue of a torrent that counts pieces it has yields every queued piece. -/
lemma yields_of_countable (lay : Layout L) (hlay : shared.fileInfos = lay.fileInfos)
    (hordered : Ordered shared t.state)
    (h : ∀ pt ∈ t.state.tracker, Countable shared.fileInfos pt.chunks t.workOf) :
    t.Yields shared := by
  intro pt hpt filePriorities horder p hp
  have hperm : filePriorities.Perm (List.range shared.fileInfos.length) := by
    rw [InOrder] at horder
    split at horder
    · next hstate =>
      rw [horder]
      exact hordered _ _ hstate
    all_goals exact isPerm_iff.mp horder
  have hcountable := h pt hpt
  rw [hlay] at hperm hcountable ⊢
  exact hcountable.mem_iterQueuedPieces lay hperm hp

/-- **No selected piece is lost along a run whose checks end well and which records new pieces
only**; and in a run without a loss all checks end well. -/
theorem noLoss_along_checksEndWell (lay : Layout L) (hlay : shared.fileInfos = lay.fileInfos)
    (as : List (TorrentStep L)) :
    (Along (step shared) (fun t a => ChecksEndWell t a ∧ RecordsNew t a) ({} : Torrent L) as →
      Always (step shared) (NoLoss shared) ({} : Torrent L) as) ∧
    (Always (step shared) (NoLoss shared) ({} : Torrent L) as →
      Along (step shared) ChecksEndWell ({} : Torrent L) as) := by
  refine ⟨fun h => ?_, fun h => (kept_iff_checksEndWell as).mp (h.mono fun _ => NoLoss.kept)⟩
  have hinv := always_of_along
    (I := fun t : Torrent L => t.Kept ∧ IdleUnlessLive t.state t.workOf ∧ Ordered shared t.state ∧
      ∀ pt ∈ t.state.tracker, Countable shared.fileInfos pt.chunks t.workOf)
    (fun t a t' hI hC hstep => by
      obtain ⟨hkept, hidle, hordered, hcountable⟩ := hI
      have heffect := effect_of_step hstep
      exact ⟨(kept_step_iff hkept hstep).mpr hC.1, heffect.idleUnlessLive hidle,
        heffect.ordered hordered,
        heffect.countable lay.exact.pieceLength_pos hidle hcountable hC.2⟩)
    ⟨kept_initial, idleUnlessLive_initial, nofun, fun _ hpt => by cases hpt⟩ h
  exact hinv.mono fun t ⟨hkept, _, hordered, hcountable⟩ =>
    ⟨hkept, yields_of_countable lay hlay hordered hcountable⟩

/-- A piece is sent with a wrong hash, queued again and sent once more; then the torrent is
paused. -/
def sentAgain : List (TorrentStep Lengths.twoBytePieces) :=
  [.initialized (BitField.zeros _) none, .start [0, 1]] ++ comes 0 peerOne ++ comes 1 peerTwo ++
    asks 0 {} ++ sends 0 ⟨0, 0, [7]⟩ (some false) ++
    [.connection 0 (.reader .record), .connection 0 (.died [])] ++ asks 1 {} ++
    sends 1 ⟨0, 0, [8]⟩ (some true) ++
    [.connection 1 (.reader .record), .connection 1 (.reader (.complete [])), .pause]

/-- The run goes through, and loses no piece. -/
theorem noLoss_sent_again : (run (step twoFiles) {} sentAgain).isSome = true ∧
      Always (step twoFiles) (NoLoss twoFiles) {} sentAgain :=
  ⟨by decide, (noLoss_along_checksEndWell Layout.oneByteFiles rfl _).1 (by decide)⟩

/-- **A piece is lost when the check of its hash ends in a storage error.**  It was taken out of
flight for the check, and the peer that dies of the error has no piece in flight to release. -/
theorem not_noLoss_storage_error :
    ¬ Always (step twoFiles) (NoLoss twoFiles) ({} : Torrent Lengths.twoBytePieces)
      ([.initialized (BitField.zeros _) none, .start [0, 1]] ++ comes 0 peerOne ++ asks 0 {} ++
        sends 0 ⟨0, 0, [7]⟩ none ++ [.connection 0 (.died [])]) :=
  fun h => not_always_of_run (by decide) (h.mono fun _ => NoLoss.kept)

end Torrent

end Librtbit
