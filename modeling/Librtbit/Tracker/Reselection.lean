import Librtbit.Tracker.ChunkBits
import Librtbit.Tracker.FileProgress
import Librtbit.Tracker.PieceStates

/-!
# Tracker/Reselection — only the last selection matters

`update_only_files` changes a tracker piece by piece, where `ChunkTracker::new` computes it from
scratch.  When nothing is in flight the two agree (`Reselects`): the queue, the selection, the
counters and the chunks of the missing pieces are those of a fresh tracker for the same pieces and
the same files.

That rests on two facts about the time between two calls (`Selecting.Inv`): a piece we have is not
queued, and a missing piece that nobody works on has no chunk and is queued if it is selected.  A
good hash recorded for a piece that is on the queue breaks the first, and that is what becomes of a
piece which was deselected and selected again while a peer was downloading it.
-/

namespace Librtbit

open Machinery ChunkTracker PieceTracker Function BitField List Option

variable {L : Lengths}

/-! ## The selected pieces -/

/-- The range of a file is a slice of a piece field. -/
lemma Layout.slice_pieceRange (lay : Layout L) {fi} (hfi : fi ∈ lay.fileInfos) :
    fi.pieceRange.start ≤ fi.pieceRange.stop ∧ fi.pieceRange.stop ≤ L.pieceBits := by
  obtain ⟨-, hend, hrange⟩ := mem_fileInfosFrom hfi
  rw [lay.sum_len, Nat.zero_add] at hend
  have hpl := lay.exact.pieceLength_pos
  have hlt := lay.exact.totalPieces_lt
  have hbits := L.totalPieces_le_pieceBits
  have hceil : (fi.offsetInTorrent + fi.len) ⌈/⌉ L.pieceLength ≤ L.totalPieces := by
    rw [ceilDiv_le_iff_le_mul hpl, lay.exact.totalPieces_eq]
    exact hend.trans (le_mul_ceilDiv hpl)
  have hfloor : fi.offsetInTorrent / L.pieceLength
      ≤ (fi.offsetInTorrent + fi.len) ⌈/⌉ L.pieceLength :=
    Nat.div_le_of_le_mul ((Nat.le_add_right _ _).trans (le_mul_ceilDiv hpl))
  rw [hrange, Lengths.iterPiecesWithinOffset, Nat.min_eq_left (Nat.le_of_add_right_le hend),
    Nat.min_eq_left hend]
  dsimp only
  rw [asU32_of_lt (hfloor.trans_lt (hceil.trans_lt hlt)), asU32_of_lt (hceil.trans_lt hlt)]
  split <;> omega

/-- **The pieces of the chosen files that are not padding.** -/
theorem Layout.get_computeSelectedPieces (lay : Layout L) (chosen : ℕ → Bool)
    (p : ValidPieceIndex L) :
    (computeSelectedPieces L chosen lay.fileInfos).get p.1 ↔
      ∃ i fi, lay.fileInfos[i]? = some fi ∧ fi.attrs.padding = false ∧ chosen i ∧
        fi.pieceRange.contains p.1 := by
  -- after some of the files, the bits of their pieces are set
  have hloop : ∀ (fs : List (FileInfo × ℕ)) (bits : PieceBits L),
      (∀ f ∈ fs, f.1 ∈ lay.fileInfos) →
      ((fs.foldl (fun bits f => bits.fillSlice f.1.pieceRange true) bits).get p.1 = true ↔
        bits.get p.1 ∨ ∃ f ∈ fs, f.1.pieceRange.contains p.1) := by
    intro fs
    induction fs with
    | nil => simp
    | cons f fs ih =>
      intro bits hfs
      obtain ⟨hf, hrest⟩ := forall_mem_cons.mp hfs
      rw [foldl_cons, ih _ hrest,
        get_fillSlice _ (lay.slice_pieceRange hf) _ (Lengths.lt_pieceBits p)]
      by_cases hcontains : f.1.pieceRange.contains p.1
      · simp only [hcontains, if_true, true_or, true_iff]
        exact .inr ⟨f, mem_cons_self, hcontains⟩
      · simp only [hcontains, if_false, exists_mem_cons_iff, Bool.false_eq_true, false_or]
  refine (hloop _ _ fun f hf => ?_).trans ?_
  · have hmem := mem_of_mem_filter (mem_of_mem_filter hf)
    exact mem_of_getElem? (mem_zipIdx_iff_getElem?.mp hmem)
  rw [get_zeros]
  simp only [Bool.false_eq_true, false_or, mem_filter, Prod.exists,
    mem_zipIdx_iff_getElem?, Bool.not_eq_true']
  constructor
  · rintro ⟨fi, i, ⟨⟨hi, hpad⟩, hchosen⟩, hcontains⟩
    exact ⟨i, fi, hi, hpad, hchosen, hcontains⟩
  · rintro ⟨i, fi, hi, hpad, hchosen, hcontains⟩
    exact ⟨fi, i, ⟨⟨hi, hpad⟩, hchosen⟩, hcontains⟩

/-! ## Downloads and selections -/

/-- A tracker of a torrent whose files are chosen while it is downloaded. -/
structure Selecting (L : Lengths) where
  tracker : PieceTracker L
  /-- The pieces out of flight whose hash is not recorded yet. -/
  checking : ValidPieceIndex L → Bool := fun _ => false
  /-- The pieces that are counted in their files. -/
  counted : PieceBits L

namespace Selecting

/-- One call: of a peer that downloads, or of the user. -/
inductive Call (L : Lengths) where
  | acquirePiece (req : AcquireRequest L)
  | markChunkDownloaded (piece : ReceivedPiece)
  | takeInflight (piece : ValidPieceIndex L) (now : Instant)
  | markPieceHashOk (piece : ValidPieceIndex L)
  | markPieceHashFailed (piece : ValidPieceIndex L)
  | onPieceCompleted (piece : ValidPieceIndex L)
  | releasePiecesOwnedBy (peer : PeerHandle)
  | updateOnlyFiles (newOnlyFiles : List ℕ)

/-- A call is always possible. -/
def step (fileInfos : List FileInfo) (s : Selecting L) : Call L → Option (Selecting L)
  | .acquirePiece req => some { s with tracker := (s.tracker.acquirePiece req).1 }
  | .markChunkDownloaded piece => some { s with tracker := (s.tracker.markChunkDownloaded piece).1 }
  | .takeInflight p now => some { s with
      tracker := (s.tracker.takeInflight p now).1
      checking := if s.tracker.isInflight p then update s.checking p true else s.checking }
  | .markPieceHashOk p => some { s with
      tracker := s.tracker.markPieceHashOk p
      checking := update s.checking p false }
  | .markPieceHashFailed p => some { s with
      tracker := s.tracker.markPieceHashFailed p
      checking := update s.checking p false }
  | .onPieceCompleted p => some { s with
      tracker := { s.tracker with chunks := s.tracker.chunks.onPieceCompleted fileInfos p }
      counted := s.counted.set p.1 true }
  | .releasePiecesOwnedBy peer => some { s with tracker := (s.tracker.releasePiecesOwnedBy peer).1 }
  | .updateOnlyFiles files => some { s with tracker := s.tracker.updateOnlyFiles fileInfos files }

/-- **Two trackers agree** in their queues, selections, counters and the chunks of the pieces that
are missing. -/
structure Agrees (ct fresh : ChunkTracker L) : Prop where
  isQueued : ∀ p, ct.isQueued p = fresh.isQueued p
  selected : ct.selected = fresh.selected
  hns : ct.hns = fresh.hns
  perFileBytes : ct.perFileBytes = fresh.perFileBytes
  chunkBit : ∀ p, ct.isPieceHave p = false → ∀ i < L.chunksPerPieceOf p,
    ct.chunkBit p i = fresh.chunkBit p i

/-- **What a new selection does**: the selected pieces are those of the chosen files, no piece comes
or goes, and with nothing in flight the tracker is as if it were new. -/
def Reselects (fileInfos : List FileInfo) (s : Selecting L) (a : Call L) (s' : Selecting L) :
    Prop :=
  ∀ files, a = .updateOnlyFiles files →
    (∀ p, s'.tracker.chunks.isSelected p = true ↔ ∃ i fi, fileInfos[i]? = some fi ∧
      fi.attrs.padding = false ∧ i ∈ files ∧ fi.pieceRange.contains p.1 = true) ∧
    s'.tracker.chunks.havePieces = s.tracker.chunks.havePieces ∧
    ((∀ p, s.tracker.inflight p = none) → ∃ fresh,
      new s'.tracker.chunks.havePieces s'.tracker.chunks.selected fileInfos = .ok fresh ∧
        Agrees s'.tracker.chunks fresh)

/-- Someone works on the piece. -/
def Busy (s : Selecting L) (p : ValidPieceIndex L) : Prop :=
  s.tracker.isInflight p = true ∨ s.checking p = true

/-- **The calls that come in order.**  A block is marked of a piece that someone works on (or that
is there); a good hash is recorded of a piece that is not queued; a piece is counted once, and
between two files that contain it there are only files that contain it; and with nothing in flight a
selection comes when every piece taken out of flight is recorded and counted. -/
def Orderly (fileInfos : List FileInfo) (s : Selecting L) : Call L → Prop
  | .markChunkDownloaded piece => ∀ p, L.validatePieceIndex piece.index = some p →
      s.Busy p ∨ s.tracker.chunks.isPieceHave p = true
  | .markPieceHashOk p => s.tracker.chunks.isPieceHave p = true ∨
      s.tracker.chunks.isQueued p = false
  | .onPieceCompleted p => s.counted.get p.1 = false ∧
      Gapless (fun fi : FileInfo => fi.pieceRange.contains p.1) fileInfos
  | .updateOnlyFiles _ => (∀ p, s.tracker.inflight p = none) →
      (∀ p, s.checking p = false) ∧ s.counted = s.tracker.chunks.havePieces
  | _ => True

/-! ## Between two selections -/

/-- **What holds at every moment**: a piece we have is not queued, a missing piece nobody works on
has no chunk and is queued if it is selected, and the counters of the files are those of the pieces
counted. -/
structure Inv (fileInfos : List FileInfo) (s : Selecting L) : Prop where
  not_queued : ∀ p, s.tracker.chunks.isPieceHave p = true → s.tracker.chunks.isQueued p = false
  queued : ∀ p, s.tracker.chunks.isPieceHave p = false → ¬ s.Busy p →
    s.tracker.chunks.isSelected p = true → s.tracker.chunks.isQueued p = true
  empty : ∀ p, s.tracker.chunks.isPieceHave p = false → ¬ s.Busy p →
    ∀ i < L.chunksPerPieceOf p, s.tracker.chunks.chunkBit p i = false
  perFileBytes : s.tracker.chunks.perFileBytes = fileInfos.map (fileBytes s.counted)

section Steps

variable {fileInfos : List FileInfo} {s s' : Selecting L}

/-- A step that leaves the chunks alone and the pieces that are worked on busy. -/
lemma Inv.of_busy (h : s.Inv fileInfos) (hchunks : s'.tracker.chunks = s.tracker.chunks)
    (hcounted : s'.counted = s.counted) (hbusy : ∀ p, s.Busy p → s'.Busy p) :
    s'.Inv fileInfos where
  not_queued := by
    rw [hchunks]
    exact h.not_queued
  queued p hp hidle := by
    rw [hchunks] at hp ⊢
    exact h.queued p hp (mt (hbusy p) hidle)
  empty p hp hidle := by
    rw [hchunks] at hp ⊢
    exact h.empty p hp (mt (hbusy p) hidle)
  perFileBytes := by
    rw [hchunks, hcounted]
    exact h.perFileBytes

lemma Inv.acquirePiece (h : s.Inv fileInfos) (req : AcquireRequest L) :
    ({ s with tracker := (s.tracker.acquirePiece req).1 } : Selecting L).Inv fileInfos := by
  rcases s.tracker.acquirePiece_cases req with he | ⟨p, -, -, he⟩ | ⟨p, info, -, -, -, -, he⟩
  · rw [he]
    exact h
  · rw [he]
    have hqueued := isQueued_reserveNeededPiece s.tracker.chunks p
    -- the reserved piece is in flight, so nothing is asked of it
    have hidle : ∀ q, ¬ Busy { s with tracker := s.tracker.reservePiece p req.peer req.now } q →
        p ≠ q ∧ ¬ s.Busy q := by
      intro q hq
      have hfly := s.tracker.isInflight_update p q (some ⟨req.peer, req.now⟩)
        (s.tracker.chunks.reserveNeededPiece p)
      have hq' : ¬ ((s.tracker.reservePiece p req.peer req.now).isInflight q = true ∨
        s.checking q) := hq
      rw [reservePiece, hfly] at hq'
      by_cases hqp : q = p
      · simp [hqp] at hq'
      · rw [if_neg hqp] at hq'
        exact ⟨Ne.symm hqp, hq'⟩
    refine ⟨fun q hq => ?_, fun q hq hfree hsel => ?_, fun q hq hfree => ?_, h.perFileBytes⟩
    · refine (hqueued q).trans ?_
      rw [h.not_queued q hq, Bool.false_and]
    · obtain ⟨hpq, hfree'⟩ := hidle q hfree
      refine (hqueued q).trans ?_
      rw [h.queued q hq hfree' hsel]
      simp [hpq]
    · exact h.empty q hq (hidle q hfree).2
  · rw [he]
    refine h.of_busy rfl rfl fun q hq => ?_
    refine hq.imp_left fun hfly => ?_
    rw [s.tracker.isInflight_update p q]
    split
    · rfl
    · exact hfly

lemma Inv.markChunkDownloaded (hfit : L.ChunksFit) (h : s.Inv fileInfos) {piece}
    (hC : s.Orderly fileInfos (.markChunkDownloaded piece)) :
    ({ s with tracker := (s.tracker.markChunkDownloaded piece).1 } : Selecting L).Inv
      fileInfos := by
  obtain ⟨chunkStatus, hchunks⟩ := s.tracker.chunks.exists_markChunkDownloaded_fst piece
  have htracker : (s.tracker.markChunkDownloaded piece).1.chunks
      = { s.tracker.chunks with chunkStatus } := hchunks
  refine ⟨?_, ?_, fun q hq hfree i hi => ?_, ?_⟩
  · rw [htracker]
    exact h.not_queued
  · rw [htracker]
    exact h.queued
  · have hq' : s.tracker.chunks.isPieceHave q = false := by
      rw [htracker] at hq
      exact hq
    have hfree' : ¬ s.Busy q := hfree
    cases hchunk : piece.chunkInfo L with
    | none =>
      have hsame : s.tracker.chunks.markChunkDownloaded piece = (s.tracker.chunks, none) := by
        rw [ReceivedPiece.chunkInfo] at hchunk
        rw [ChunkTracker.markChunkDownloaded, hchunk]
      refine (congrArg (fun r => r.1.chunkBit q i) hsame).trans ?_
      exact h.empty q hq' hfree' i hi
    | some chunk =>
      refine (chunkBit_markChunkDownloaded hfit s.tracker.chunks hchunk hi).trans ?_
      -- the piece of the block is worked on or there, so it is another one
      have hne : chunk.pieceIndex ≠ q := by
        rintro rfl
        obtain ⟨p, hp, hinfo⟩ := bind_eq_some_iff.mp hchunk
        obtain ⟨_, -, -, -, rfl⟩ := Lengths.chunkInfoFromReceivedData_eq_some.mp hinfo
        rcases hC _ hp with hbusy | hhave
        · exact hfree' hbusy
        · rw [hq'] at hhave
          cases hhave
      rw [h.empty q hq' hfree' i hi]
      simp [hne]
  · rw [htracker]
    exact h.perFileBytes

lemma Inv.takeInflight (h : s.Inv fileInfos) (p : ValidPieceIndex L) (now : Instant) : ({ s with
      tracker := (s.tracker.takeInflight p now).1
      checking := if s.tracker.isInflight p then update s.checking p true
        else s.checking } : Selecting L).Inv fileInfos := by
  unfold PieceTracker.takeInflight
  cases hp : s.tracker.inflight p with
  | none =>
    have hnot : ¬ s.tracker.isInflight p = true := by simp [isInflight, hp]
    rw [if_neg hnot]
    exact h
  | some info =>
    have hfly : s.tracker.isInflight p := by simp [isInflight, hp]
    rw [if_pos hfly]
    refine h.of_busy rfl rfl fun q hq => ?_
    rcases eq_or_ne q p with rfl | hqp
    · exact .inr (update_self ..)
    refine hq.imp (fun hq => ?_) fun hq => ?_
    · dsimp only
      rw [s.tracker.isInflight_update p q, if_neg hqp]
      exact hq
    · exact (update_of_ne hqp ..).trans hq

/-- What is worked on once the check of a piece is over. -/
lemma busy_of_checked {tracker p q} (hqp : q ≠ p)
    (hfly : tracker.isInflight q = s.tracker.isInflight q) :
    ({ s with tracker, checking := update s.checking p false } : Selecting L).Busy q ↔
      s.Busy q := by
  have hcheck : update s.checking p false q = s.checking q := update_of_ne hqp ..
  rw [Busy, Busy]
  dsimp only
  rw [hfly, hcheck]

variable {p : ValidPieceIndex L}

lemma Inv.markPieceHashOk (h : s.Inv fileInfos) (hC : s.Orderly fileInfos (.markPieceHashOk p)) :
    ({ s with
      tracker := s.tracker.markPieceHashOk p
      checking := update s.checking p false } : Selecting L).Inv fileInfos := by
  have hhave := isPieceHave_markPieceDownloaded s.tracker.chunks p
  have hqueued := isQueued_markPieceDownloaded s.tracker.chunks p
  have hselected := isSelected_markPieceDownloaded s.tracker.chunks p
  have hmissing : ∀ q, (s.tracker.chunks.markPieceDownloaded p).isPieceHave q = false →
      q ≠ p ∧ s.tracker.chunks.isPieceHave q = false := by
    intro q hq
    rw [hhave, Bool.or_eq_false_iff] at hq
    exact ⟨fun he => by simp [he] at hq, hq.1⟩
  refine ⟨fun q hq => ?_, fun q hq hfree hsel => ?_, fun q hq hfree i hi => ?_, ?_⟩
  · refine (hqueued q).trans ?_
    rcases Bool.or_eq_true_iff.mp ((hhave q).symm.trans hq) with hq | hpq
    · exact h.not_queued q hq
    obtain rfl := of_decide_eq_true hpq
    rcases hC with hp | hp
    · exact h.not_queued p hp
    · exact hp
  · obtain ⟨hqp, hq'⟩ := hmissing q hq
    refine (hqueued q).trans ?_
    exact h.queued q hq' (mt (busy_of_checked hqp rfl).mpr hfree) ((hselected q).symm.trans hsel)
  · obtain ⟨hqp, hq'⟩ := hmissing q hq
    have hsame : (s.tracker.chunks.markPieceDownloaded p).chunkBit q i
        = s.tracker.chunks.chunkBit q i := by
      rw [markPieceDownloaded]
      split <;> rfl
    refine hsame.trans ?_
    exact h.empty q hq' (mt (busy_of_checked hqp rfl).mpr hfree) i hi
  · exact (perFileBytes_markPieceDownloaded s.tracker.chunks p).trans h.perFileBytes

lemma Inv.markPieceHashFailed (hfit : L.ChunksFit) (h : s.Inv fileInfos) (p : ValidPieceIndex L) :
    ({ s with
      tracker := s.tracker.markPieceHashFailed p
      checking := update s.checking p false } : Selecting L).Inv fileInfos := by
  have hhave := isPieceHave_markPieceBrokenIfNotHave s.tracker.chunks p
  have hqueued := isQueued_markPieceBrokenIfNotHave s.tracker.chunks p
  have hselected := isSelected_markPieceBrokenIfNotHave s.tracker.chunks p
  refine ⟨fun q hq => ?_, fun q hq hfree hsel => ?_, fun q hq hfree i hi => ?_, ?_⟩
  · have hq' := (hhave q).symm.trans hq
    refine (hqueued q).trans ?_
    simp [h.not_queued q hq', hq']
  · have hq' := (hhave q).symm.trans hq
    refine (hqueued q).trans ?_
    rcases eq_or_ne q p with rfl | hqp
    · simp [hq']
    · rw [h.queued q hq' (mt (busy_of_checked hqp rfl).mpr hfree) ((hselected q).symm.trans hsel),
        Bool.true_or]
  · have hq' := (hhave q).symm.trans hq
    refine (chunkBit_markPieceBrokenIfNotHave hfit s.tracker.chunks hi).trans ?_
    rcases eq_or_ne q p with rfl | hqp
    · simp [hq']
    · rw [h.empty q hq' (mt (busy_of_checked hqp rfl).mpr hfree) i hi, Bool.false_and]
  · exact (perFileBytes_markPieceBrokenIfNotHave s.tracker.chunks p).trans
      h.perFileBytes

lemma Inv.onPieceCompleted (hpl : 0 < L.pieceLength) (h : s.Inv fileInfos)
    (hC : s.Orderly fileInfos (.onPieceCompleted p)) :
    ({ s with
      tracker := { s.tracker with chunks := s.tracker.chunks.onPieceCompleted fileInfos p }
      counted := s.counted.set p.1 true } : Selecting L).Inv fileInfos := by
  obtain ⟨hnew, hgap⟩ := hC
  obtain ⟨perFileBytes, hchunks⟩ := s.tracker.chunks.exists_onPieceCompleted p fileInfos
  refine ⟨?_, ?_, ?_, ?_⟩
  · rw [hchunks]
    exact h.not_queued
  · rw [hchunks]
    exact h.queued
  · rw [hchunks]
    exact h.empty
  · refine ext_getElem? fun i => ?_
    rw [getElem?_map]
    cases hi : fileInfos[i]? with
    | none =>
      have hlen : (s.tracker.chunks.onPieceCompleted fileInfos p).perFileBytes[i]? = none := by
        refine (getElem?_perFileBytes_foldl p _ i s.tracker.chunks).trans ?_
        rw [h.perFileBytes, getElem?_map, hi]
        rfl
      exact hlen
    | some fi =>
      refine (getElem?_perFileBytes_onPieceCompleted fileInfos p hpl _ hi).trans ?_
      rw [h.perFileBytes, getElem?_map, hi, map_some, map_some, map_some, fileBytes_set hnew]
      simp only [mem_filesFound_iff fileInfos p hgap hi]

lemma Inv.releasePiecesOwnedBy (hfit : L.ChunksFit) (h : s.Inv fileInfos) (peer : PeerHandle) :
    ({ s with tracker := (s.tracker.releasePiecesOwnedBy peer).1 } : Selecting L).Inv
      fileInfos := by
  have hchunks := s.tracker.chunks_releasePiecesOwnedBy peer
  have hhave : ∀ q, (s.tracker.releasePiecesOwnedBy peer).1.chunks.isPieceHave q
      = s.tracker.chunks.isPieceHave q := by
    intro q
    rw [isPieceHave, havePieces_releasePiecesOwnedBy, isPieceHave]
  have hqueued := s.tracker.isQueued_releasePiecesOwnedBy peer
  have hselected : ∀ q, (s.tracker.releasePiecesOwnedBy peer).1.chunks.isSelected q
      = s.tracker.chunks.isSelected q := by
    intro q
    rw [isSelected, hchunks, selected_foldl_markPieceBrokenIfNotHave, isSelected]
  -- a piece that is free now was free before, or was the peer's
  have hidle : ∀ q, ¬ Busy { s with tracker := (s.tracker.releasePiecesOwnedBy peer).1 } q →
      ¬ s.Busy q ∨ ∃ info, s.tracker.inflight q = some info ∧ info.peer = peer := by
    intro q hfree
    obtain ⟨hfly, hcheck⟩ := not_or.mp hfree
    rw [isInflight, inflight_releasePiecesOwnedBy] at hfly
    cases hq : s.tracker.inflight q with
    | none =>
      refine .inl (not_or.mpr ⟨?_, hcheck⟩)
      simp [isInflight, hq]
    | some info =>
      refine .inr ⟨info, rfl, ?_⟩
      by_contra hpeer
      simp [hq, hpeer, Option.filter] at hfly
  refine ⟨fun q hq => ?_, fun q hq hfree hsel => ?_, fun q hq hfree i hi => ?_, ?_⟩
  · have hq' := (hhave q).symm.trans hq
    refine Bool.eq_false_iff.mpr fun hqueue => ?_
    rcases (hqueued q).mp hqueue with hqueue | ⟨-, hnot⟩
    · rw [h.not_queued q hq'] at hqueue
      cases hqueue
    · rw [hq'] at hnot
      cases hnot
  · have hq' := (hhave q).symm.trans hq
    refine (hqueued q).mpr ?_
    rcases hidle q hfree with hfree' | howned
    · exact .inl (h.queued q hq' hfree' ((hselected q).symm.trans hsel))
    · exact .inr ⟨howned, hq'⟩
  · have hq' := (hhave q).symm.trans hq
    rw [hchunks, chunkBit_foldl_markPieceBrokenIfNotHave hfit _ _ hi]
    rcases hidle q hfree with hfree' | ⟨info, hinfo, hpeer⟩
    · rw [h.empty q hq' hfree' i hi, Bool.false_and]
    · have howned : q ∈ s.tracker.piecesOwnedBy peer := by
        simp [piecesOwnedBy, hinfo, hpeer]
      simp [howned, hq']
  · dsimp only
    rw [hchunks, perFileBytes_foldl_markPieceBrokenIfNotHave]
    exact h.perFileBytes

/-- **After a new selection the missing pieces that are free are queued exactly when selected.** -/
theorem Inv.isQueued_updateOnlyFiles (h : s.Inv fileInfos) (files : List ℕ) (hfree : ¬ s.Busy p) :
    (s.tracker.chunks.updateOnlyFiles fileInfos files).isQueued p
      = (!s.tracker.chunks.isPieceHave p &&
        (s.tracker.chunks.updateOnlyFiles fileInfos files).isSelected p) := by
  have hqueued := s.tracker.chunks.isQueued_updateOnlyFiles fileInfos files p
  cases hhave : s.tracker.chunks.isPieceHave p with
  | true =>
    refine Bool.eq_false_iff.mpr fun hqueue => ?_
    rcases (hqueued.mp hqueue).1 with hwas | hres
    · rw [h.not_queued p hhave] at hwas
      cases hwas
    · rw [hres.2.2] at hhave
      cases hhave
  | false =>
    rw [Bool.not_false, Bool.true_and]
    refine Bool.eq_iff_iff.mpr (hqueued.trans ⟨fun ⟨_, hsel⟩ => ?_, fun hsel => ⟨?_, .inl hsel⟩⟩)
    · rw [hhave] at hsel
      exact hsel.resolve_right (by decide)
    · cases hwas : s.tracker.chunks.isSelected p with
      | true => exact .inl (h.queued p hhave hfree hwas)
      | false => exact .inr ⟨hsel, hwas, hhave⟩

variable (hfit : L.ChunksFit)
include hfit

lemma Inv.updateOnlyFiles (h : s.Inv fileInfos) (files : List ℕ) :
    ({ s with tracker := s.tracker.updateOnlyFiles fileInfos files } : Selecting L).Inv
      fileInfos := by
  have hhave := s.tracker.chunks.isPieceHave_updateOnlyFiles fileInfos files
  refine ⟨fun q hq => ?_, fun q hq hfree hsel => ?_, fun q hq hfree i hi => ?_, ?_⟩
  · have hq' := (hhave q).symm.trans hq
    refine Bool.eq_false_iff.mpr fun hqueue => ?_
    rcases ((s.tracker.chunks.isQueued_updateOnlyFiles fileInfos files q).mp hqueue).1 with
      hwas | hres
    · rw [h.not_queued q hq'] at hwas
      cases hwas
    · rw [hres.2.2] at hq'
      cases hq'
  · have hq' := (hhave q).symm.trans hq
    refine (h.isQueued_updateOnlyFiles files hfree).trans ?_
    rw [hq']
    exact hsel
  · have hq' := (hhave q).symm.trans hq
    refine (chunkBit_updateOnlyFiles hfit _ fileInfos files hi).trans ?_
    rw [h.empty q hq' hfree i hi, Bool.false_and]
  · exact (s.tracker.chunks.perFileBytes_updateOnlyFiles fileInfos files).trans h.perFileBytes

/-- **Every call in order keeps the invariant.** -/
theorem Inv.step (hpl : 0 < L.pieceLength) (h : s.Inv fileInfos) {a}
    (hC : s.Orderly fileInfos a) (hstep : s.step fileInfos a = some s') : s'.Inv fileInfos := by
  cases a with
  | acquirePiece req =>
    cases hstep
    exact h.acquirePiece req
  | markChunkDownloaded piece =>
    cases hstep
    exact h.markChunkDownloaded hfit hC
  | takeInflight p now =>
    cases hstep
    exact h.takeInflight p now
  | markPieceHashOk p =>
    cases hstep
    exact h.markPieceHashOk hC
  | markPieceHashFailed p =>
    cases hstep
    exact h.markPieceHashFailed hfit p
  | onPieceCompleted p =>
    cases hstep
    exact h.onPieceCompleted hpl hC
  | releasePiecesOwnedBy peer =>
    cases hstep
    exact h.releasePiecesOwnedBy hfit peer
  | updateOnlyFiles files =>
    cases hstep
    exact h.updateOnlyFiles hfit files

/-- **With nothing in flight a new selection leaves the tracker as if it were new.** -/
theorem Inv.agrees (hpl : 0 < L.pieceLength) (h : s.Inv fileInfos)
    {files} (hC : s.Orderly fileInfos (.updateOnlyFiles files))
    (hidle : ∀ p, s.tracker.inflight p = none) {fresh}
    (hfresh : new s.tracker.chunks.havePieces
      (s.tracker.chunks.updateOnlyFiles fileInfos files).selected fileInfos = .ok fresh) :
    Agrees (s.tracker.chunks.updateOnlyFiles fileInfos files) fresh := by
  obtain ⟨hchecked, hcounted⟩ := hC hidle
  have hfree : ∀ p, ¬ s.Busy p := by
    intro p hbusy
    rcases hbusy with hfly | hcheck
    · simp [isInflight, hidle p] at hfly
    · rw [hchecked p] at hcheck
      cases hcheck
  have hqueued := isQueued_of_new hfresh
  have hbits : ∀ p (i), i < L.chunksPerPieceOf p →
      fresh.chunkBit p i = s.tracker.chunks.havePieces.get p.1 :=
    fun p i hi => chunkBit_of_new hfit hfresh hi
  obtain ⟨chunkStatus, -, rfl⟩ := new_eq_ok hfresh
  refine ⟨fun p => ?_, rfl, ?_, ?_, fun p hp i hi => ?_⟩
  · exact (h.isQueued_updateOnlyFiles files (hfree p)).trans (hqueued p).symm
  · rw [selected_updateOnlyFiles]
    rfl
  · rw [perFileBytes_updateOnlyFiles, h.perFileBytes, hcounted]
    exact (recalculatePerFileBytes_eq hpl _ _).symm
  · have hp' := (s.tracker.chunks.isPieceHave_updateOnlyFiles fileInfos files p).symm.trans hp
    rw [hbits p i hi, chunkBit_updateOnlyFiles hfit _ fileInfos files hi,
      h.empty p hp' (hfree p) i hi, Bool.false_and]
    exact hp'.symm

end Steps

/-! ## Whole runs -/

/-- A new tracker queues what is selected and missing. -/
lemma inv_new (hfit : L.ChunksFit) (hpl : 0 < L.pieceLength) {havePieces selected fileInfos ct}
    (hnew : new havePieces selected fileInfos = .ok ct) :
    ({ tracker := .new ct, counted := havePieces } : Selecting L).Inv fileInfos := by
  have hqueued := isQueued_of_new hnew
  refine ⟨fun p hp => ?_, fun p hp _ hsel => ?_, fun p hp _ i hi => ?_, ?_⟩
  · refine (hqueued p).trans ?_
    rw [show ct.isPieceHave p = true from hp, Bool.not_true, Bool.false_and]
  · refine (hqueued p).trans ?_
    rw [show ct.isPieceHave p = false from hp]
    exact hsel
  · refine (chunkBit_of_new hfit hnew hi).trans ?_
    obtain ⟨chunkStatus, -, rfl⟩ := new_eq_ok hnew
    exact hp
  · obtain ⟨chunkStatus, -, rfl⟩ := new_eq_ok hnew
    exact recalculatePerFileBytes_eq hpl havePieces fileInfos

/-- **In a run of calls that come in order only the last selection matters.** -/
theorem reselects_of_orderly (lay : Layout L) (hfit : L.ChunksFit)
    {havePieces selected : PieceBits L} {ct : ChunkTracker L}
    (hnew : new havePieces selected lay.fileInfos = .ok ct) {as : List (Call L)}
    (horderly : Along (step lay.fileInfos) (Orderly lay.fileInfos)
      { tracker := .new ct, counted := havePieces } as) :
    Moves (step lay.fileInfos) (Reselects lay.fileInfos)
      { tracker := .new ct, counted := havePieces } as := by
  have hpl := lay.exact.pieceLength_pos
  refine moves_of_along (fun s a s' h hC hstep => ⟨h.step hfit hpl hC hstep, ?_⟩)
    (inv_new hfit hpl hnew) horderly
  rintro files rfl
  cases hstep
  refine ⟨fun p => ?_, ?_, fun hidle => ?_⟩
  · have hselected := s.tracker.chunks.selected_updateOnlyFiles lay.fileInfos files
    refine (Eq.congr_left (congrArg (get · p.1) hselected)).trans ?_
    simpa only [contains_iff_mem] using lay.get_computeSelectedPieces files.contains p
  · exact s.tracker.chunks.havePieces_updateOnlyFiles lay.fileInfos files
  · have hhave := s.tracker.chunks.havePieces_updateOnlyFiles lay.fileInfos files
    obtain ⟨fresh, hfresh, -⟩ := exists_new hfit s.tracker.chunks.havePieces
      (s.tracker.chunks.updateOnlyFiles lay.fileInfos files).selected lay.fileInfos
    refine ⟨fresh, ?_, h.agrees hfit hpl hC hidle hfresh⟩
    rw [← hfresh]
    exact congrArg (new · _ _) hhave

/-! ### A piece deselected and selected again while it is downloaded -/

section Reselected

open Lengths ChunkTracker PieceTracker

/-- One file of one piece. -/
def oneFileLayout : Layout onePiece where
  entries := [{ len := 16384 }]
  exact := exact_of_new (show Lengths.new 16384 16384 = .ok onePiece by decide) (by norm_num)
    (by decide)
  sum_len := rfl

/-- The piece is downloaded, checked and counted, and the file deselected. -/
def downloads : List (Call onePiece) :=
  [.acquirePiece (seederRequest peerA oneFile), .takeInflight 0 1, .markPieceHashOk 0,
    .onPieceCompleted 0, .updateOnlyFiles []]

/-- Deselecting a file that is there leaves a tracker as if it were new. -/
theorem reselects_of_orderly_download : new (zeros _) ((zeros _).set 0 true) oneFileLayout.fileInfos
        = .ok emptyTracker ∧
      Moves (step oneFileLayout.fileInfos) (Reselects oneFileLayout.fileInfos)
        { tracker := .new emptyTracker, counted := zeros _ } downloads := by
  refine ⟨?new, reselects_of_orderly oneFileLayout (by decide) ?new ?_⟩
  · decide
  intro s hs
  cases hs
  refine ⟨trivial, fun s hs => ?_⟩
  cases hs
  refine ⟨trivial, fun s hs => ?_⟩
  cases hs
  refine ⟨.inr (by decide), fun s hs => ?_⟩
  cases hs
  refine ⟨⟨by decide, gapless_iff.mpr (by decide)⟩, fun s hs => ?_⟩
  cases hs
  exact ⟨fun _ => ⟨by decide, by decide⟩, trivial⟩

/-- **A file deselected and selected again while its piece is downloaded leaves the piece on the
queue when it is there**, whatever is selected next. -/
theorem not_reselects_in_flight : new (zeros _) ((zeros _).set 0 true) oneFileLayout.fileInfos
        = .ok emptyTracker ∧
      ¬ Moves (step oneFileLayout.fileInfos) (Reselects oneFileLayout.fileInfos)
        { tracker := .new emptyTracker, counted := zeros _ }
        ([.acquirePiece (seederRequest peerA oneFile), .updateOnlyFiles [], .updateOnlyFiles [0],
          .takeInflight 0 1, .markPieceHashOk 0, .onPieceCompleted 0] ++
          [.updateOnlyFiles [0]]) := by
  refine ⟨by decide, ?_⟩
  -- the piece is there, and queued
  refine not_moves_of_run (fun s s' => (s.tracker.inflight 0).isNone &&
    (s'.tracker.chunks.isQueued 0 && s'.tracker.chunks.isPieceHave 0)) (fun s s' hbad hmove => ?_)
    (by decide)
  simp only [Bool.and_eq_true, isNone_iff_eq_none] at hbad
  obtain ⟨hidle, hqueued, hhave⟩ := hbad
  obtain ⟨-, -, hagrees⟩ := hmove [0] rfl
  have honly : ∀ p : ValidPieceIndex onePiece, p = 0 := by decide
  obtain ⟨fresh, hfresh, hagrees⟩ := hagrees fun p => honly p ▸ hidle
  have hfresh' := isQueued_of_new hfresh 0
  obtain ⟨chunkStatus, -, rfl⟩ := new_eq_ok hfresh
  rw [← hagrees.isQueued 0, hqueued] at hfresh'
  have hhave' : s'.tracker.chunks.havePieces.get 0 := hhave
  simp [isPieceHave, hhave'] at hfresh'

end Reselected

end Selecting

end Librtbit
