import Librtbit.Tracker.FileInfo

/-!
# Tracker/ChunkTracker — what we have, what we want, what is queued

`ChunkTracker` holds four bit fields over the pieces and chunks of a torrent and two sets of
counters derived from them.  The lengths of the bit fields are those of the torrent's geometry, so
a valid piece always has its bit.
-/

namespace Librtbit

open Machinery BitField List

/-- Quick to retrieve stats, that must be in sync with `havePieces` and `selected`. -/
structure HaveNeededSelected where
  /-- How many bytes we have downloaded and verified. -/
  haveBytes : ℕ := 0
  /-- How many bytes we need to download for selected to be a subset of have. -/
  neededBytes : ℕ := 0
  /-- How many bytes the user selected (by picking files). -/
  selectedBytes : ℕ := 0
  deriving DecidableEq

def HaveNeededSelected.finished (hns : HaveNeededSelected) : Bool := hns.neededBytes == 0

/-- A block received from a peer: `Piece`, its two buffers joined. -/
structure ReceivedPiece where
  index : ℕ
  begin : ℕ
  block : List UInt8
  deriving DecidableEq

inductive ChunkMarkingResult where
  | previouslyCompleted
  | notCompleted
  | completed
  deriving DecidableEq

structure ChunkTracker (L : Lengths) where
  /-- One bit per piece we need and nobody downloads yet. -/
  queuePieces : PieceBits L
  /-- One bit per chunk written to the output file, valid or not. -/
  chunkStatus : BitField L.chunkBits
  /-- The pieces we have, fully checked and downloaded. -/
  havePieces : PieceBits L
  /-- The pieces that the user selected. -/
  selected : PieceBits L
  /-- How many bytes we have per file. -/
  perFileBytes : List ℕ
  hns : HaveNeededSelected
  deriving DecidableEq

variable {L : Lengths}

/-! ## Building a tracker -/

/-- `compute_chunk_have_status`: one bit per chunk of a piece we have. -/
def computeChunkHaveStatus (havePieces : PieceBits L) : Except String (BitField L.chunkBits) :=
  (List.finRange L.totalPieces).foldlM
    (fun chunkBf p =>
      let offset := asU32 (L.chunksPerPiece * p.1)
      let range : Span := ⟨offset, offset + L.chunksPerPieceOf p⟩
      if havePieces.get p.1 then
        if range.stop ≤ L.chunkBits then .ok (chunkBf.fill range true)
        else .error ("bug in bitvec: error getting range " ++ toString range.start ++ ".." ++
          toString range.stop ++ " from chunk_bf")
      else .ok chunkBf)
    (zeros L.chunkBits)

/-- `compute_queued_pieces`: needed only if it is selected and we do not have it. -/
def computeQueuedPieces (havePieces selectedPieces : PieceBits L) : PieceBits L :=
  havePieces.not.and selectedPieces

/-- `compute_selected_pieces`: the pieces of the chosen files that are not padding. -/
def computeSelectedPieces (L : Lengths) (onlyFilesContains : ℕ → Bool)
    (fileInfos : List FileInfo) : PieceBits L :=
  ((fileInfos.zipIdx.filter fun (fi, _) => !fi.attrs.padding).filter
    fun (_, id) => onlyFilesContains id).foldl
      (fun bf (fi, _) => bf.fillSlice fi.pieceRange true) (zeros L.pieceBits)

namespace ChunkTracker

/-- `recalculate_per_file_bytes`: the bytes of each file that lie in a piece we have. -/
def recalculatePerFileBytes (havePieces : PieceBits L) (fileInfos : List FileInfo) : List ℕ :=
  fileInfos.map fun fi =>
    ((fi.pieceRange.toList.filter havePieces.get).map fun id =>
      L.sizeOfPieceInFile id fi.offsetInTorrent fi.len).sum

/-- `calc_hns`: the counters, recomputed from the bit fields. -/
def calcHns (havePieces selected : PieceBits L) : HaveNeededSelected :=
  (L.iterPieceInfos).foldl
    (fun hns piece =>
      let id := piece.pieceIndex.1
      let isHave := havePieces.get id
      let isSelected := selected.get id
      let isNeeded := isSelected && !isHave
      { haveBytes := hns.haveBytes + piece.len * isHave.toNat
        selectedBytes := hns.selectedBytes + piece.len * isSelected.toNat
        neededBytes := hns.neededBytes + piece.len * isNeeded.toNat })
    {}

/-- `ChunkTracker::new`.  Both bit fields have the length of the geometry, so of its two length
checks neither can fail here. -/
def new (havePieces selectedPieces : PieceBits L) (fileInfos : List FileInfo) :
    Except String (ChunkTracker L) := do
  let chunkStatus ← computeChunkHaveStatus havePieces
  return {
    chunkStatus
    queuePieces := computeQueuedPieces havePieces selectedPieces
    selected := selectedPieces
    havePieces
    perFileBytes := recalculatePerFileBytes havePieces fileInfos
    hns := calcHns havePieces selectedPieces }

variable {havePieces selectedPieces : PieceBits L} {fileInfos : List FileInfo}

lemma new_eq_ok {ct} (h : new havePieces selectedPieces fileInfos = .ok ct) :
    ∃ chunkStatus, computeChunkHaveStatus havePieces = .ok chunkStatus ∧
      ct = {
        chunkStatus
        queuePieces := computeQueuedPieces havePieces selectedPieces
        selected := selectedPieces
        havePieces
        perFileBytes := recalculatePerFileBytes havePieces fileInfos
        hns := calcHns havePieces selectedPieces } := by
  unfold new at h
  cases hs : computeChunkHaveStatus havePieces with
  | error e => rw [hs] at h; cases h
  | ok chunkStatus =>
    rw [hs] at h
    cases h
    exact ⟨chunkStatus, rfl, rfl⟩

/-- The one file of a torrent of one piece. -/
def oneFile : List FileInfo := fileInfosFrom Lengths.onePiece 0 [{ len := 16384 }]

/-- Nothing there, the one piece selected. -/
def emptyTracker : ChunkTracker Lengths.onePiece where
  queuePieces := (zeros _).set 0 true
  chunkStatus := zeros _
  havePieces := zeros _
  selected := (zeros _).set 0 true
  perFileBytes := [0]
  hns := { neededBytes := 16384, selectedBytes := 16384 }

example : new (zeros _) ((zeros _).set 0 true) oneFile = .ok emptyTracker := by
  decide

/-! ## Operations -/

variable (ct : ChunkTracker L)

def reserveNeededPiece (index : ValidPieceIndex L) : ChunkTracker L :=
  { ct with queuePieces := ct.queuePieces.set index.1 false }

/-- The queued pieces, file by file in the order of `filePriorities`; a file whose counter says it
is complete is passed over. -/
def iterQueuedPieces (filePriorities : List ℕ) (fileInfos : List FileInfo) :
    List (ValidPieceIndex L) :=
  ((((filePriorities.filterMap fun p => (fileInfos[p]?).map fun f => (p, f)).filter
      fun (id, f) => ct.perFileBytes.getD id 0 != f.len).flatMap
        fun (_, f) => f.iterPiecePriorities).filter ct.queuePieces.get).filterMap
          L.validatePieceIndex

def isPieceHave (id : ValidPieceIndex L) : Bool := ct.havePieces.get id.1

/-- Back to the queue, with no chunk of it downloaded; a piece we have is left alone. -/
def markPieceBrokenIfNotHave (index : ValidPieceIndex L) : ChunkTracker L :=
  if ct.havePieces.get index.1 then ct
  else { ct with
    queuePieces := ct.queuePieces.set index.1 true
    chunkStatus := ct.chunkStatus.fillSlice (L.chunkRange index) false }

def markPieceDownloaded (idx : ValidPieceIndex L) : ChunkTracker L :=
  if ct.havePieces.get idx.1 then ct
  else
    let len := L.pieceLengthOf idx
    { ct with
      havePieces := ct.havePieces.set idx.1 true
      hns := { ct.hns with
        haveBytes := ct.hns.haveBytes + len
        neededBytes :=
          if ct.selected.get idx.1 then ct.hns.neededBytes - len else ct.hns.neededBytes } }

/-- Returns what the block completes, `none` if it is no block of the torrent. -/
def markChunkDownloaded (piece : ReceivedPiece) : ChunkTracker L × Option ChunkMarkingResult :=
  match (L.validatePieceIndex piece.index).bind fun p =>
      L.chunkInfoFromReceivedData p piece.begin piece.block.length with
  | none => (ct, none)
  | some chunkInfo =>
    let chunkRange := L.chunkRange chunkInfo.pieceIndex
    if ct.chunkStatus.all chunkRange then (ct, some .previouslyCompleted)
    else
      let chunkStatus := ct.chunkStatus.set (chunkRange.start + chunkInfo.chunkIndex) true
      ({ ct with chunkStatus },
        some (if chunkStatus.all chunkRange then .completed else .notCompleted))

/-- The pieces a new selection adds: not selected before, and we do not have them. -/
def newlySelected (selected : PieceBits L) : List ℕ :=
  selected.ones.filter fun idx => !ct.selected.get idx && !ct.havePieces.get idx

/-- `update_only_files`. -/
def updateOnlyFiles (fileInfos : List FileInfo) (newOnlyFiles : List ℕ) : ChunkTracker L :=
  let selected := computeSelectedPieces L newOnlyFiles.contains fileInfos
  -- prev_selected=false and selected=true and have=false: requeue the piece
  let requeued := ((ct.newlySelected selected).filterMap L.validatePieceIndex).foldl
    markPieceBrokenIfNotHave { ct with selected }
  -- selected=false, have=false: don't need the piece, and don't have it
  { requeued with
    queuePieces := requeued.queuePieces.and (selected.or ct.havePieces)
    hns := calcHns ct.havePieces selected }

/-- Every piece of the file is there; a range outside the torrent counts as finished. -/
def isFileFinished (fi : FileInfo) : Bool :=
  if fi.pieceRange.start ≤ fi.pieceRange.stop ∧ fi.pieceRange.stop ≤ L.pieceBits then
    ct.havePieces.all fi.pieceRange
  else true

def isFinished : Bool := ct.hns.finished

/-- Adds the bytes of the piece to the counter of one file; returns the bytes that remain. -/
def updateFileHaveOnPieceCompleted (pieceId : ValidPieceIndex L) (fileId : ℕ)
    (fi : FileInfo) : ChunkTracker L × ℕ :=
  let diffHave := L.sizeOfPieceInFile pieceId.1 fi.offsetInTorrent fi.len
  let bytes := ct.perFileBytes.getD fileId 0 + diffHave
  ({ ct with perFileBytes := ct.perFileBytes.set fileId bytes }, fi.len - bytes)

/-- The bookkeeping of `on_piece_completed`: from the first file whose range contains the piece on,
every file is counted until one does not contain it. -/
def onPieceCompleted (fileInfos : List FileInfo) (id : ValidPieceIndex L) : ChunkTracker L :=
  ((fileInfos.zipIdx.dropWhile fun f => !f.1.pieceRange.contains id.1).takeWhile
    fun f => f.1.pieceRange.contains id.1).foldl
      (fun ct f => (ct.updateFileHaveOnPieceCompleted id f.2 f.1).1) ct

/-! ## What the operations read and write

Three readers, one per bit field over the pieces, and what each operation does to them.  Only
`chunkStatus` is not followed: no reader of the piece states looks at it. -/

/-- The piece waits in the queue. -/
def isQueued (id : ValidPieceIndex L) : Bool := ct.queuePieces.get id.1

/-- The piece belongs to a file the user selected. -/
def isSelected (id : ValidPieceIndex L) : Bool := ct.selected.get id.1

/-- **A new tracker queues what is selected and not there.** -/
theorem isQueued_of_new {ct} (h : new havePieces selectedPieces fileInfos = .ok ct)
    (p : ValidPieceIndex L) : ct.isQueued p = (!ct.isPieceHave p && ct.isSelected p) := by
  obtain ⟨_, -, rfl⟩ := new_eq_ok h
  rw [isQueued, computeQueuedPieces, get_and, get_not _ (L.lt_pieceBits p), isPieceHave, isSelected]

/-- **What the queue yields**: a queued piece is passed over when each of its files is complete by
its counter. -/
theorem mem_iterQueuedPieces {filePriorities p} : p ∈ ct.iterQueuedPieces filePriorities fileInfos ↔
      ct.isQueued p ∧ ∃ i ∈ filePriorities, ∃ fi, fileInfos[i]? = some fi ∧
        ct.perFileBytes.getD i 0 ≠ fi.len ∧ p.1 ∈ fi.iterPiecePriorities := by
  simp only [iterQueuedPieces, mem_filterMap, mem_filter, mem_flatMap, Prod.exists,
    Option.map_eq_some_iff, Prod.mk.injEq, bne_iff_ne, Lengths.validatePieceIndex_eq_some, isQueued]
  constructor
  · rintro ⟨n, ⟨⟨i, fi, ⟨⟨i', hi', fi', hfi', rfl, rfl⟩, hbytes⟩, hn⟩, hq⟩, rfl⟩
    exact ⟨hq, i', hi', fi', hfi', hbytes, hn⟩
  · rintro ⟨hq, i, hi, fi, hfi, hbytes, hp⟩
    exact ⟨p.1, ⟨⟨i, fi, ⟨⟨i, hi, fi, hfi, rfl, rfl⟩, hbytes⟩, hp⟩, hq⟩, rfl⟩

section Readers

variable (p q : ValidPieceIndex L)

lemma isQueued_reserveNeededPiece :
    (ct.reserveNeededPiece p).isQueued q = (ct.isQueued q && decide (p ≠ q)) := by
  rcases eq_or_ne p q with rfl | hpq
  · simp [isQueued, reserveNeededPiece, Lengths.lt_pieceBits]
  · simp [isQueued, reserveNeededPiece, get_set, Fin.val_ne_of_ne hpq, hpq]

@[simp] lemma isPieceHave_reserveNeededPiece :
    (ct.reserveNeededPiece p).isPieceHave q = ct.isPieceHave q := rfl

@[simp] lemma havePieces_markPieceBrokenIfNotHave :
    (ct.markPieceBrokenIfNotHave p).havePieces = ct.havePieces := by
  unfold markPieceBrokenIfNotHave
  split <;> rfl

@[simp] lemma selected_markPieceBrokenIfNotHave :
    (ct.markPieceBrokenIfNotHave p).selected = ct.selected := by
  unfold markPieceBrokenIfNotHave
  split <;> rfl

@[simp] lemma perFileBytes_markPieceBrokenIfNotHave :
    (ct.markPieceBrokenIfNotHave p).perFileBytes = ct.perFileBytes := by
  unfold markPieceBrokenIfNotHave
  split <;> rfl

@[simp] lemma hns_markPieceBrokenIfNotHave : (ct.markPieceBrokenIfNotHave p).hns = ct.hns := by
  unfold markPieceBrokenIfNotHave
  split <;> rfl

@[simp] lemma isPieceHave_markPieceBrokenIfNotHave :
    (ct.markPieceBrokenIfNotHave p).isPieceHave q = ct.isPieceHave q := by
  rw [isPieceHave, havePieces_markPieceBrokenIfNotHave, isPieceHave]

@[simp] lemma isSelected_markPieceBrokenIfNotHave :
    (ct.markPieceBrokenIfNotHave p).isSelected q = ct.isSelected q := by
  rw [isSelected, selected_markPieceBrokenIfNotHave, isSelected]

lemma isQueued_markPieceBrokenIfNotHave : (ct.markPieceBrokenIfNotHave p).isQueued q
      = (ct.isQueued q || (decide (p = q) && !ct.isPieceHave q)) := by
  unfold markPieceBrokenIfNotHave isQueued isPieceHave
  rcases eq_or_ne p q with rfl | hpq
  · by_cases hp : ct.havePieces.get p.1
    · simp [hp]
    · simp [hp, Lengths.lt_pieceBits]
  · split
    · simp [hpq]
    · simp [hpq, get_set, Fin.val_ne_of_ne hpq]

@[simp] lemma queuePieces_markPieceDownloaded :
    (ct.markPieceDownloaded p).queuePieces = ct.queuePieces := by
  unfold markPieceDownloaded
  split <;> rfl

@[simp] lemma selected_markPieceDownloaded :
    (ct.markPieceDownloaded p).selected = ct.selected := by
  unfold markPieceDownloaded
  split <;> rfl

@[simp] lemma perFileBytes_markPieceDownloaded :
    (ct.markPieceDownloaded p).perFileBytes = ct.perFileBytes := by
  unfold markPieceDownloaded
  split <;> rfl

@[simp] lemma isQueued_markPieceDownloaded :
    (ct.markPieceDownloaded p).isQueued q = ct.isQueued q := by
  rw [isQueued, queuePieces_markPieceDownloaded, isQueued]

@[simp] lemma isSelected_markPieceDownloaded :
    (ct.markPieceDownloaded p).isSelected q = ct.isSelected q := by
  rw [isSelected, selected_markPieceDownloaded, isSelected]

lemma isPieceHave_markPieceDownloaded :
    (ct.markPieceDownloaded p).isPieceHave q = (ct.isPieceHave q || decide (p = q)) := by
  unfold markPieceDownloaded isPieceHave
  rcases eq_or_ne p q with rfl | hpq
  · split
    · simpa using ‹_›
    · simp [Lengths.lt_pieceBits]
  · split
    · simp [hpq]
    · simp [hpq, get_set, Fin.val_ne_of_ne hpq]

variable (piece : ReceivedPiece)

/-- **A received block moves chunk bits only.** -/
theorem exists_markChunkDownloaded_fst :
    ∃ chunkStatus, (ct.markChunkDownloaded piece).1 = { ct with chunkStatus } := by
  unfold markChunkDownloaded
  split
  · exact ⟨ct.chunkStatus, rfl⟩
  dsimp only
  split
  · exact ⟨ct.chunkStatus, rfl⟩
  · exact ⟨_, rfl⟩

@[simp] lemma havePieces_markChunkDownloaded :
    (ct.markChunkDownloaded piece).1.havePieces = ct.havePieces := by
  obtain ⟨_, h⟩ := ct.exists_markChunkDownloaded_fst piece
  rw [h]

@[simp] lemma selected_markChunkDownloaded :
    (ct.markChunkDownloaded piece).1.selected = ct.selected := by
  obtain ⟨_, h⟩ := ct.exists_markChunkDownloaded_fst piece
  rw [h]

@[simp] lemma hns_markChunkDownloaded :
    (ct.markChunkDownloaded piece).1.hns = ct.hns := by
  obtain ⟨_, h⟩ := ct.exists_markChunkDownloaded_fst piece
  rw [h]

/-- **Counting a completed piece moves the per-file counters only.** -/
theorem exists_onPieceCompleted (fileInfos : List FileInfo) :
    ∃ perFileBytes, ct.onPieceCompleted fileInfos p = { ct with perFileBytes } := by
  unfold onPieceCompleted
  generalize List.takeWhile _ _ = fs
  induction fs generalizing ct with
  | nil => exact ⟨ct.perFileBytes, rfl⟩
  | cons f fs ih =>
    obtain ⟨perFileBytes, h⟩ := ih (ct.updateFileHaveOnPieceCompleted p f.2 f.1).1
    exact ⟨perFileBytes, h⟩

@[simp] lemma havePieces_onPieceCompleted (fileInfos : List FileInfo) :
    (ct.onPieceCompleted fileInfos p).havePieces = ct.havePieces := by
  obtain ⟨_, h⟩ := ct.exists_onPieceCompleted p fileInfos
  rw [h]

end Readers

/-! ### Requeueing several pieces -/

section

variable (ps : List (ValidPieceIndex L))
include ps

lemma havePieces_foldl_markPieceBrokenIfNotHave :
    (ps.foldl markPieceBrokenIfNotHave ct).havePieces = ct.havePieces := by
  induction ps generalizing ct with
  | nil => rfl
  | cons p ps ih => rw [foldl_cons, ih, havePieces_markPieceBrokenIfNotHave]

lemma selected_foldl_markPieceBrokenIfNotHave :
    (ps.foldl markPieceBrokenIfNotHave ct).selected = ct.selected := by
  induction ps generalizing ct with
  | nil => rfl
  | cons p ps ih => rw [foldl_cons, ih, selected_markPieceBrokenIfNotHave]

lemma perFileBytes_foldl_markPieceBrokenIfNotHave :
    (ps.foldl markPieceBrokenIfNotHave ct).perFileBytes = ct.perFileBytes := by
  induction ps generalizing ct with
  | nil => rfl
  | cons p ps ih => rw [foldl_cons, ih, perFileBytes_markPieceBrokenIfNotHave]

/-- **A requeued piece is queued unless we have it**, and no other piece moves. -/
theorem isQueued_foldl_markPieceBrokenIfNotHave (q : ValidPieceIndex L) :
    (ps.foldl markPieceBrokenIfNotHave ct).isQueued q
      = (ct.isQueued q || (decide (q ∈ ps) && !ct.isPieceHave q)) := by
  induction ps generalizing ct with
  | nil => simp
  | cons p ps ih =>
    rw [foldl_cons, ih, isQueued_markPieceBrokenIfNotHave, isPieceHave_markPieceBrokenIfNotHave]
    rcases eq_or_ne p q with rfl | hpq
    · cases ct.isQueued p <;> cases ct.isPieceHave p <;> simp
    · simp [hpq, Ne.symm hpq]

end

/-! ### Choosing other files -/

section UpdateOnlyFiles

variable (fileInfos : List FileInfo) (files : List ℕ)

@[simp] lemma havePieces_updateOnlyFiles :
    (ct.updateOnlyFiles fileInfos files).havePieces = ct.havePieces :=
  havePieces_foldl_markPieceBrokenIfNotHave _ _

@[simp] lemma selected_updateOnlyFiles : (ct.updateOnlyFiles fileInfos files).selected
      = computeSelectedPieces L files.contains fileInfos :=
  selected_foldl_markPieceBrokenIfNotHave _ _

@[simp] lemma perFileBytes_updateOnlyFiles :
    (ct.updateOnlyFiles fileInfos files).perFileBytes = ct.perFileBytes :=
  perFileBytes_foldl_markPieceBrokenIfNotHave _ _

variable (q : ValidPieceIndex L)

@[simp] lemma isPieceHave_updateOnlyFiles :
    (ct.updateOnlyFiles fileInfos files).isPieceHave q = ct.isPieceHave q := by
  rw [isPieceHave, havePieces_updateOnlyFiles, isPieceHave]

/-- A piece a new selection requeues: selected now, not before, and we do not have it. -/
def Reselected (q : ValidPieceIndex L) : Prop :=
  (ct.updateOnlyFiles fileInfos files).isSelected q = true ∧ ct.isSelected q = false ∧
    ct.isPieceHave q = false
  deriving Decidable

/-- The pieces `update_only_files` requeues. -/
lemma mem_newlySelected_iff :
    q ∈ (ct.newlySelected (computeSelectedPieces L files.contains fileInfos)).filterMap
      L.validatePieceIndex ↔ ct.Reselected fileInfos files q := by
  simp only [mem_filterMap, newlySelected, mem_filter, mem_ones, Reselected,
    isSelected, isPieceHave, selected_updateOnlyFiles, Lengths.validatePieceIndex_eq_some]
  constructor
  · rintro ⟨i, ⟨hsel, hrest⟩, rfl⟩
    exact ⟨hsel, by simpa using hrest⟩
  · rintro ⟨hsel, hrest⟩
    exact ⟨q.1, ⟨hsel, by simpa using hrest⟩, rfl⟩

/-- **After a new selection a piece is queued exactly when it was queued or is requeued**, and is
selected or had. -/
theorem isQueued_updateOnlyFiles :
    (ct.updateOnlyFiles fileInfos files).isQueued q
      ↔ (ct.isQueued q = true ∨ ct.Reselected fileInfos files q) ∧
        ((ct.updateOnlyFiles fileInfos files).isSelected q = true ∨ ct.isPieceHave q) := by
  have hq := isQueued_foldl_markPieceBrokenIfNotHave
    { ct with selected := computeSelectedPieces L files.contains fileInfos }
    ((ct.newlySelected (computeSelectedPieces L files.contains fileInfos)).filterMap
      L.validatePieceIndex) q
  simp only [mem_newlySelected_iff] at hq
  have hand : (ct.updateOnlyFiles fileInfos files).isQueued q
      = ((((ct.newlySelected (computeSelectedPieces L files.contains fileInfos)).filterMap
          L.validatePieceIndex).foldl markPieceBrokenIfNotHave
            { ct with selected := computeSelectedPieces L files.contains fileInfos }).isQueued q
        && ((ct.updateOnlyFiles fileInfos files).isSelected q || ct.isPieceHave q)) := by
    rw [isSelected, selected_updateOnlyFiles]
    simp only [isQueued, isPieceHave, updateOnlyFiles, get_and, get_or]
  rw [hand, hq]
  simp only [Bool.and_eq_true, Bool.or_eq_true, decide_eq_true_eq, Bool.not_eq_true']
  refine and_congr_left fun _ => or_congr Iff.rfl ⟨fun h => h.1, fun h => ⟨h, h.2.2⟩⟩

end UpdateOnlyFiles

end ChunkTracker

end Librtbit
