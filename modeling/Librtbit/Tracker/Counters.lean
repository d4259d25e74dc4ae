import Librtbit.Machinery.Run
import Librtbit.Tracker.ChunkTracker
import Mathlib.Algebra.BigOperators.Fin
import Mathlib.Algebra.Order.BigOperators.Group.Finset

/-!
# Tracker/Counters — the cached byte counters stay in sync

`HaveNeededSelected` caches three sums over the pieces of a torrent.  `markPieceDownloaded` moves
them incrementally, `updateOnlyFiles` recomputes them, and the other operations must leave them
alone.  Here the sums are what they are for — the bytes of a set of pieces (`bytesOf`) — and an
operation is described by what it does to the set.
-/

namespace Librtbit

open Machinery List

variable {L : Lengths}

/-! ## The bytes of a set of pieces -/

/-- The bytes of the pieces for which `f` holds. -/
def bytesOf (f : ValidPieceIndex L → Bool) : ℕ := ∑ p, L.pieceLengthOf p * (f p).toNat

variable {f g : ValidPieceIndex L → Bool}

/-- A larger set of pieces has at least as many bytes. -/
lemma bytesOf_mono (h : ∀ p, f p → g p) :
    bytesOf f ≤ bytesOf g := by
  refine Finset.sum_le_sum fun p _ => Nat.mul_le_mul_left _ ?_
  have hp := h p
  revert hp
  cases f p <;> cases g p <;> simp

variable {p : ValidPieceIndex L}

/-- **Adding a piece to a set adds its length.** -/
theorem bytesOf_insert (hf : f p = false) (hg : g p) (hne : ∀ q, q ≠ p → f q = g q) :
    bytesOf f + L.pieceLengthOf p = bytesOf g := by
  have hrest : ∑ q ∈ Finset.univ.erase p, L.pieceLengthOf q * (f q).toNat
      = ∑ q ∈ Finset.univ.erase p, L.pieceLengthOf q * (g q).toNat :=
    Finset.sum_congr rfl fun q hq => by rw [hne q (Finset.ne_of_mem_erase hq)]
  have hfsum := Finset.sum_erase_add Finset.univ
    (fun q => L.pieceLengthOf q * (f q).toNat) (Finset.mem_univ p)
  have hgsum := Finset.sum_erase_add Finset.univ
    (fun q => L.pieceLengthOf q * (g q).toNat) (Finset.mem_univ p)
  simp only [hf, Bool.toNat_false, Nat.mul_zero, Nat.add_zero] at hfsum
  simp only [hg, Bool.toNat_true, Nat.mul_one] at hgsum
  rw [bytesOf, bytesOf, ← hfsum, ← hgsum, hrest]

/-- A member of a set is no longer than the set. -/
lemma pieceLengthOf_le_bytesOf {f} (hp : f p) : L.pieceLengthOf p ≤ bytesOf f := by
  have h := Finset.single_le_sum (f := fun q => L.pieceLengthOf q * (f q).toNat)
    (fun _ _ => Nat.zero_le _) (Finset.mem_univ p)
  simp only [hp, Bool.toNat_true, Nat.mul_one] at h
  exact h

namespace ChunkTracker

/-! ## What `calcHns` computes -/

/-- **The recomputed counters are the bytes of three sets of pieces.** -/
theorem calcHns_eq (havePieces selected : PieceBits L) : calcHns havePieces selected =
      { haveBytes := bytesOf fun p : ValidPieceIndex L => havePieces.get p.1
        neededBytes := bytesOf fun p : ValidPieceIndex L => selected.get p.1 && !havePieces.get p.1
        selectedBytes := bytesOf fun p : ValidPieceIndex L => selected.get p.1 } := by
  -- the loop adds each piece to the sums so far
  have hfold : ∀ (ps : List (ValidPieceIndex L)) (hns : HaveNeededSelected),
      (ps.map fun idx => (⟨idx, L.pieceLengthOf idx⟩ : PieceInfo L)).foldl
        (fun hns piece =>
          let id := piece.pieceIndex.1
          let isHave := havePieces.get id
          let isSelected := selected.get id
          let isNeeded := isSelected && !isHave
          { haveBytes := hns.haveBytes + piece.len * isHave.toNat
            selectedBytes := hns.selectedBytes + piece.len * isSelected.toNat
            neededBytes := hns.neededBytes + piece.len * isNeeded.toNat }) hns
      = { haveBytes := hns.haveBytes +
            (ps.map fun p => L.pieceLengthOf p * (havePieces.get p.1).toNat).sum
          neededBytes := hns.neededBytes +
            (ps.map fun p => L.pieceLengthOf p *
              (selected.get p.1 && !havePieces.get p.1).toNat).sum
          selectedBytes := hns.selectedBytes +
            (ps.map fun p => L.pieceLengthOf p * (selected.get p.1).toNat).sum } := by
    intro ps
    induction ps with
    | nil => intro hns; rfl
    | cons p ps ih =>
      intro hns
      rw [map_cons, foldl_cons, ih]
      simp only [map_cons, sum_cons, Nat.add_assoc]
  have h := hfold (List.finRange L.totalPieces) {}
  simp only [Nat.zero_add, ← Fin.sum_univ_def] at h
  exact h

/-! ## The invariant -/

/-- **The counters are what `calcHns` recomputes from `havePieces` and `selected`.** -/
def InSync (ct : ChunkTracker L) : Prop := ct.hns = calcHns ct.havePieces ct.selected

/-- No subtraction on the counters goes below zero: neither the one `markPieceDownloaded` would do
for any piece, nor the one of `progress`. -/
def SubtractionsFit (ct : ChunkTracker L) : Prop :=
  (∀ p, ct.isPieceHave p = false → ct.isSelected p = true →
    L.pieceLengthOf p ≤ ct.hns.neededBytes) ∧
  ct.hns.neededBytes ≤ ct.hns.selectedBytes

variable {ct : ChunkTracker L}

lemma InSync.subtractionsFit (h : ct.InSync) : ct.SubtractionsFit := by
  rw [SubtractionsFit, h, calcHns_eq]
  refine ⟨fun p hhave hsel => pieceLengthOf_le_bytesOf ?_, bytesOf_mono fun p hp => ?_⟩
  · simp only [isPieceHave] at hhave
    simp only [isSelected] at hsel
    simp [hhave, hsel]
  · exact (Bool.and_eq_true _ _ ▸ hp).1

/-- **A downloaded piece moves the counters as it moves the sets**: into `have`, and out of
`needed` if it was there. -/
theorem InSync.markPieceDownloaded (h : ct.InSync)
    (p : ValidPieceIndex L) : (ct.markPieceDownloaded p).InSync := by
  unfold ChunkTracker.markPieceDownloaded
  split
  · exact h
  · rename_i hnot
    have hp : ct.havePieces.get p.1 = false := Bool.eq_false_iff.mpr hnot
    have hself : (ct.havePieces.set p.1 true).get p.1 :=
      BitField.get_set_self _ (Lengths.lt_pieceBits p) _
    have hother : ∀ q, q ≠ p →
        (ct.havePieces.set p.1 true).get q.1 = ct.havePieces.get q.1 := fun q hq =>
      BitField.get_set_of_ne _ (Fin.val_ne_of_ne hq.symm) _
    have hhave := bytesOf_insert
      hp hself
      fun q hq => (hother q hq).symm
    rw [InSync, calcHns_eq] at h ⊢
    rw [h]
    dsimp only
    congr 1
    split
    · rename_i hsel
      have hneeded := bytesOf_insert (p := p)
        (f := fun q => ct.selected.get q.1 && !(ct.havePieces.set p.1 true).get q.1)
        (g := fun q => ct.selected.get q.1 && !ct.havePieces.get q.1)
        (by simp [hself]) (by simp [hsel, hp]) fun q hq => by simp [hother q hq]
      rw [← hneeded, Nat.add_sub_cancel]
    · rename_i hsel
      congr 1
      funext q
      rcases eq_or_ne q p with rfl | hq
      · simp [hsel]
      · rw [hother q hq]

/-! ## Over a run -/

/-- One call on a chunk tracker, with all its arguments. -/
inductive Op (L : Lengths) where
  | markPieceDownloaded (idx : ValidPieceIndex L)
  | markPieceBrokenIfNotHave (index : ValidPieceIndex L)
  | reserveNeededPiece (index : ValidPieceIndex L)
  | markChunkDownloaded (piece : ReceivedPiece)
  | updateOnlyFiles (fileInfos : List FileInfo) (newOnlyFiles : List ℕ)
  | updateFileHaveOnPieceCompleted (pieceId : ValidPieceIndex L) (fileId : ℕ) (fi : FileInfo)

/-- The tracker after a call; a call is always possible. -/
def apply (ct : ChunkTracker L) : Op L → Option (ChunkTracker L)
  | .markPieceDownloaded idx => some (ct.markPieceDownloaded idx)
  | .markPieceBrokenIfNotHave index => some (ct.markPieceBrokenIfNotHave index)
  | .reserveNeededPiece index => some (ct.reserveNeededPiece index)
  | .markChunkDownloaded piece => some (ct.markChunkDownloaded piece).1
  | .updateOnlyFiles fileInfos files => some (ct.updateOnlyFiles fileInfos files)
  | .updateFileHaveOnPieceCompleted pieceId fileId fi =>
    some (ct.updateFileHaveOnPieceCompleted pieceId fileId fi).1

/-- A step lemma: every call keeps the counters in sync. -/
lemma InSync.apply {ct ct' : ChunkTracker L} {op : Op L} (h : ct.InSync)
    (hstep : ct.apply op = some ct') : ct'.InSync := by
  cases op with
  | markPieceDownloaded idx =>
    cases hstep
    exact h.markPieceDownloaded idx
  | markPieceBrokenIfNotHave index =>
    cases hstep
    simpa only [InSync, hns_markPieceBrokenIfNotHave, havePieces_markPieceBrokenIfNotHave,
      selected_markPieceBrokenIfNotHave] using h
  | markChunkDownloaded piece =>
    cases hstep
    simpa only [InSync, hns_markChunkDownloaded, havePieces_markChunkDownloaded,
      selected_markChunkDownloaded] using h
  | updateOnlyFiles fileInfos files =>
    cases hstep
    rw [InSync, havePieces_updateOnlyFiles, selected_updateOnlyFiles]
    rfl
  | reserveNeededPiece index | updateFileHaveOnPieceCompleted pieceId fileId fi =>
    cases hstep
    exact h

/-- **The cached counters always equal the recomputed ones, and no subtraction on them
underflows.** -/
theorem inSync_and_subtractionsFit {havePieces selected : PieceBits L} {fileInfos : List FileInfo}
    {ct : ChunkTracker L} (hnew : new havePieces selected fileInfos = .ok ct) (ops : List (Op L)) :
    Always apply (fun ct => ct.InSync ∧ ct.SubtractionsFit) ct ops := by
  have hstart : ct.InSync := by
    obtain ⟨cs, -, rfl⟩ := new_eq_ok hnew
    rfl
  have hrun : Always apply InSync ct ops :=
    always_of_step (fun _ _ _ h hstep => h.apply hstep) hstart ops
  exact hrun.mono fun _ h => ⟨h, h.subtractionsFit⟩

/-- The one piece reserved, reported downloaded twice, and its file deselected. -/
theorem inSync_download_twice :
    new (BitField.zeros _) ((BitField.zeros _).set 0 true) oneFile = .ok emptyTracker ∧
      Always apply (fun ct => ct.InSync ∧ ct.SubtractionsFit) emptyTracker
        [.reserveNeededPiece 0, .markPieceDownloaded 0, .markPieceDownloaded 0,
          .updateOnlyFiles oneFile []] := by
  refine ⟨?new, inSync_and_subtractionsFit ?new _⟩
  decide

/-- **A torrent is finished exactly when it has all that is selected**, whatever was called. -/
theorem always_isFinished_iff (hL : L.Exact) {havePieces selected : PieceBits L} {fileInfos ct}
    (hnew : new havePieces selected fileInfos = .ok ct) (ops : List (Op L)) : Always apply
      (fun ct => ct.isFinished ↔ ∀ p, ct.isSelected p → ct.isPieceHave p) ct ops := by
  have hstart : ct.InSync := by
    obtain ⟨cs, -, rfl⟩ := new_eq_ok hnew
    rfl
  refine (always_of_step (fun _ _ _ h hstep => h.apply hstep) hstart ops).mono fun ct h => ?_
  -- no piece is empty, so what is needed has bytes
  have hpos (p) := (hL.pieceLengthOf_pos p).ne'
  rw [isFinished, HaveNeededSelected.finished, h, calcHns_eq]
  simp [bytesOf, hpos, isSelected, isPieceHave]

/-- The one piece, downloaded and deselected. -/
theorem isFinished_iff_onePiece : Always apply
    (fun ct => ct.isFinished ↔ ∀ p, ct.isSelected p → ct.isPieceHave p) emptyTracker
    [.markPieceDownloaded 0, .updateOnlyFiles oneFile []] :=
  always_isFinished_iff (Lengths.exact_of_new (show Lengths.new 16384 16384 = .ok .onePiece by
      decide) (by norm_num) (by decide))
    (show new (BitField.zeros _) ((BitField.zeros _).set 0 true) oneFile = _ by decide) _

end ChunkTracker

end Librtbit
