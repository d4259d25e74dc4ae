import Librtbit.Core.Geometry
import Librtbit.Tracker.Counters

/-!
# Tracker/ChunkBits — the chunks of a piece, received one by one

The chunks of all the pieces share one bit field, and each operation finds the bits of its piece by
a formula of its own.  Where the chunks can be numbered in 32 bits (`Lengths.ChunksFit`) the
formulas agree, and an operation on a piece is one on the bits of that piece (`chunkBit`).
-/

namespace Librtbit

open Machinery

variable {L : Lengths}

/-- The chunk a received block is. -/
def ReceivedPiece.chunkInfo (L : Lengths) (piece : ReceivedPiece) : Option (ChunkInfo L) :=
  (L.validatePieceIndex piece.index).bind fun p =>
    L.chunkInfoFromReceivedData p piece.begin piece.block.length

namespace ChunkTracker

/-- The bit of the chunk `i` of the piece `p`. -/
def chunkBit (ct : ChunkTracker L) (p : ValidPieceIndex L) (i : ℕ) : Bool :=
  ct.chunkStatus.get ((L.chunkRange p).start + i)

/-! ## The bits of a piece -/

lemma chunkIndex_lt {piece : ReceivedPiece} {chunk} (h : piece.chunkInfo L = some chunk) :
    chunk.chunkIndex < L.chunksPerPieceOf chunk.pieceIndex := by
  obtain ⟨p, -, hchunk⟩ := Option.bind_eq_some_iff.mp h
  obtain ⟨i, hlt, -, -, rfl⟩ := Lengths.chunkInfoFromReceivedData_eq_some.mp hchunk
  exact hlt

section Fit

variable (hfit : L.ChunksFit) {p q : ValidPieceIndex L} {i j : ℕ}

include hfit

lemma start_le_stop_chunkRange (p : ValidPieceIndex L) :
    (L.chunkRange p).start ≤ (L.chunkRange p).stop := by
  rw [hfit.chunkRange_eq]
  exact Nat.le_add_right _ _

variable (hi : i < L.chunksPerPieceOf p)
include hi

/-- A chunk of a piece lies in the slice of the piece. -/
lemma contains_chunkRange :
    (L.chunkRange p).contains ((L.chunkRange p).start + i) := by
  rw [hfit.chunkRange_eq, Span.contains_iff]
  dsimp only
  omega

lemma start_add_lt_chunkBits :
    (L.chunkRange p).start + i < L.chunkBits := by
  have hlt := (Span.contains_iff.mp (contains_chunkRange hfit hi)).2
  exact hlt.trans_le (hfit.stop_chunkRange_le p)

/-- **Two chunks have one bit only if they are the same chunk.** -/
theorem eq_of_start_add_eq (hj : j < L.chunksPerPieceOf q)
    (h : (L.chunkRange p).start + i = (L.chunkRange q).start + j) : p = q ∧ i = j := by
  have hp := contains_chunkRange hfit hi
  have hq := contains_chunkRange hfit hj
  rw [← h] at hq
  obtain rfl := hfit.eq_of_contains hp hq
  exact ⟨rfl, Nat.add_left_cancel h⟩

omit hi

lemma contains_chunkRange_start_add_iff (hi : i < L.chunksPerPieceOf q) :
    (L.chunkRange p).contains ((L.chunkRange q).start + i) = true ↔ p = q := by
  constructor
  · exact fun h => hfit.eq_of_contains h (contains_chunkRange hfit hi)
  · rintro rfl
    exact contains_chunkRange hfit hi

lemma all_chunkRange_iff (bits : BitField L.chunkBits) : bits.all (L.chunkRange p) ↔
      ∀ i < L.chunksPerPieceOf p, bits.get ((L.chunkRange p).start + i) := by
  rw [BitField.all_eq_true_iff, hfit.chunkRange_eq]
  dsimp only
  constructor
  · exact fun h i hi => h _ (Nat.le_add_right _ _) (Nat.add_lt_add_left hi _)
  · intro h i hlo hhi
    have := h (i - p.1 * L.chunksPerPiece) (by omega)
    rwa [Nat.add_sub_cancel' hlo] at this

/-! ## What the operations do to them -/

variable (ct : ChunkTracker L)

/-- **A requeued piece loses its chunks**, and no other piece does. -/
theorem chunkBit_markPieceBrokenIfNotHave (hi : i < L.chunksPerPieceOf q) :
    (ct.markPieceBrokenIfNotHave p).chunkBit q i
      = (ct.chunkBit q i && !(decide (p = q) && !ct.isPieceHave q)) := by
  have hslice := And.intro (start_le_stop_chunkRange hfit p) (hfit.stop_chunkRange_le p)
  have hcontains := contains_chunkRange_start_add_iff (p := p) hfit hi
  unfold markPieceBrokenIfNotHave chunkBit isPieceHave
  by_cases hpq : p = q
  · subst hpq
    split
    · next hhave => simp [hhave]
    next hhave =>
    rw [BitField.get_fillSlice _ hslice _ (start_add_lt_chunkBits hfit hi),
      if_pos (hcontains.mpr rfl)]
    simp [hhave]
  · split
    · simp [hpq]
    · rw [BitField.get_fillSlice _ hslice _ (start_add_lt_chunkBits hfit hi),
        if_neg (mt hcontains.mp hpq)]
      simp [hpq]

lemma chunkBit_foldl_markPieceBrokenIfNotHave (ps : List (ValidPieceIndex L))
    (hi : i < L.chunksPerPieceOf q) :
    (ps.foldl markPieceBrokenIfNotHave ct).chunkBit q i
      = (ct.chunkBit q i && !(decide (q ∈ ps) && !ct.isPieceHave q)) := by
  induction ps generalizing ct with
  | nil => simp
  | cons p ps ih =>
    rw [List.foldl_cons, ih, chunkBit_markPieceBrokenIfNotHave hfit ct hi,
      isPieceHave_markPieceBrokenIfNotHave]
    rcases eq_or_ne p q with rfl | hpq
    · cases ct.chunkBit p i <;> cases ct.isPieceHave p <;> simp
    · simp [hpq, Ne.symm hpq]

/-- **A new selection takes the chunks of the pieces it requeues.** -/
theorem chunkBit_updateOnlyFiles (fileInfos : List FileInfo) (files : List ℕ)
    (hi : i < L.chunksPerPieceOf q) :
    (ct.updateOnlyFiles fileInfos files).chunkBit q i
      = (ct.chunkBit q i && !decide (ct.Reselected fileInfos files q)) := by
  have hfold := chunkBit_foldl_markPieceBrokenIfNotHave hfit
    { ct with selected := computeSelectedPieces L files.contains fileInfos }
    ((ct.newlySelected (computeSelectedPieces L files.contains fileInfos)).filterMap
      L.validatePieceIndex) hi
  simp only [mem_newlySelected_iff] at hfold
  refine hfold.trans ?_
  by_cases hres : ct.Reselected fileInfos files q
  · have hhave : ({ ct with selected := computeSelectedPieces L files.contains fileInfos } :
        ChunkTracker L).isPieceHave q = false := hres.2.2
    simp [hres, hhave]
  · simp only [hres, decide_false, Bool.false_and, Bool.not_false, Bool.and_true]
    rfl

/-- **A block sets the bit of its chunk**, and no other. -/
theorem chunkBit_markChunkDownloaded {piece chunk}
    (h : piece.chunkInfo L = some chunk) (hi : i < L.chunksPerPieceOf q) :
    (ct.markChunkDownloaded piece).1.chunkBit q i
      = (ct.chunkBit q i || decide (chunk.pieceIndex = q ∧ chunk.chunkIndex = i)) := by
  have hindex := chunkIndex_lt h
  rw [ReceivedPiece.chunkInfo] at h
  rw [markChunkDownloaded, h]
  dsimp only
  split
  · next hall =>
    have hset := (all_chunkRange_iff hfit ct.chunkStatus).mp hall
    by_cases hsame : chunk.pieceIndex = q ∧ chunk.chunkIndex = i
    · obtain ⟨rfl, rfl⟩ := hsame
      rw [show ct.chunkBit _ _ = true from hset _ hindex, Bool.true_or]
    · simp [hsame]
  · rw [chunkBit, BitField.get_set]
    by_cases hsame : chunk.pieceIndex = q ∧ chunk.chunkIndex = i
    · obtain ⟨rfl, rfl⟩ := hsame
      simp [start_add_lt_chunkBits hfit hindex]
    have hne : ¬ ((L.chunkRange chunk.pieceIndex).start + chunk.chunkIndex
        = (L.chunkRange q).start + i ∧
      (L.chunkRange chunk.pieceIndex).start + chunk.chunkIndex < L.chunkBits) :=
      fun h => hsame (eq_of_start_add_eq hfit hindex hi h.1)
    simp [hne, hsame, chunkBit]

/-- The loop of `compute_chunk_have_status` never fails. -/
lemma computeChunkHaveStatus_eq (havePieces : PieceBits L) :
    computeChunkHaveStatus havePieces = .ok ((List.finRange L.totalPieces).foldl
      (fun bits p => if havePieces.get p.1 then bits.fill (L.chunkRange p) true else bits)
      (BitField.zeros L.chunkBits)) := by
  refine Eq.trans ?_ (List.foldlM_pure)
  rw [computeChunkHaveStatus]
  congr 1
  funext bits p
  have hrange : (⟨asU32 (L.chunksPerPiece * p.1),
      asU32 (L.chunksPerPiece * p.1) + L.chunksPerPieceOf p⟩ : Span) = L.chunkRange p := by
    have hstart : (L.chunkRange p).start = asU32 (L.chunksPerPiece * p.1) := by
      rw [Nat.mul_comm]
      rfl
    rw [← hstart, hfit.chunkRange_eq]
  have hstop : asU32 (L.chunksPerPiece * p.1) + L.chunksPerPieceOf p ≤ L.chunkBits :=
    (congrArg Span.stop hrange).trans_le (hfit.stop_chunkRange_le p)
  dsimp only
  rw [if_pos hstop, hrange]
  split <;> rfl

/-- **The chunks of a new tracker are those of the pieces that are there.** -/
theorem exists_computeChunkHaveStatus (havePieces : PieceBits L) :
    ∃ chunkStatus, computeChunkHaveStatus havePieces = .ok chunkStatus ∧
      ∀ p (i), i < L.chunksPerPieceOf p →
        chunkStatus.get ((L.chunkRange p).start + i) = havePieces.get p.1 := by
  -- after some of the pieces, the bits of those of them that are there are set
  have hloop : ∀ (ps : List (ValidPieceIndex L)) (bits : BitField L.chunkBits)
      (p : ValidPieceIndex L) (i), i < L.chunksPerPieceOf p →
      (ps.foldl (fun bits p => if havePieces.get p.1 then bits.fill (L.chunkRange p) true else bits)
        bits).get ((L.chunkRange p).start + i)
      = (bits.get ((L.chunkRange p).start + i) || (decide (p ∈ ps) && havePieces.get p.1)) := by
    intro ps
    induction ps with
    | nil => simp
    | cons q ps ih =>
      intro bits p i hi
      have hcontains := contains_chunkRange_start_add_iff (p := q) hfit hi
      rw [List.foldl_cons, ih _ p i hi]
      rcases eq_or_ne p q with rfl | hpq
      · by_cases hhave : havePieces.get p.1
        · rw [if_pos hhave, BitField.get_fill _ _ _ (start_add_lt_chunkBits hfit hi),
            if_pos (hcontains.mpr rfl)]
          simp [hhave]
        · simp [hhave]
      · split
        · rw [BitField.get_fill _ _ _ (start_add_lt_chunkBits hfit hi),
            if_neg (mt hcontains.mp hpq.symm)]
          simp [hpq]
        · simp [hpq]
  refine ⟨_, computeChunkHaveStatus_eq hfit havePieces, fun p i hi => ?_⟩
  rw [hloop _ _ p i hi]
  simp

/-- **A tracker can be built for any pieces**, and has the chunks of the pieces that are there. -/
theorem exists_new (havePieces selected : PieceBits L) (fileInfos : List FileInfo) :
    ∃ ct, new havePieces selected fileInfos = .ok ct ∧
      ∀ p (i), i < L.chunksPerPieceOf p →
        ct.chunkBit p i = havePieces.get p.1 := by
  obtain ⟨chunkStatus, hstatus, hbits⟩ := exists_computeChunkHaveStatus hfit havePieces
  have hnew : new havePieces selected fileInfos = .ok {
      chunkStatus
      queuePieces := computeQueuedPieces havePieces selected
      selected
      havePieces
      perFileBytes := recalculatePerFileBytes havePieces fileInfos
      hns := calcHns havePieces selected } := by
    rw [new, hstatus]
    rfl
  exact ⟨_, hnew, hbits⟩

lemma chunkBit_of_new {havePieces selected fileInfos ct}
    (h : new havePieces selected fileInfos = .ok ct)
    (hi : i < L.chunksPerPieceOf p) : ct.chunkBit p i = havePieces.get p.1 := by
  obtain ⟨fresh, hfresh, hbits⟩ := exists_new hfit havePieces selected fileInfos
  obtain rfl := Except.ok.inj (hfresh.symm.trans h)
  exact hbits p i hi

end Fit

end ChunkTracker

end Librtbit
