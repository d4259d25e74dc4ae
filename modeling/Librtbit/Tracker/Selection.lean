import Librtbit.Tracker.PieceStates

/-!
# Tracker/Selection — what is queued is selected

`update_only_files` takes a deselected piece off the queue, but looks at the queue of that moment
only.  A piece in flight is not on it, and comes back later without a look at the selection: when
its hash fails, when its peer dies, when the torrent is paused.  The one thing `update_only_files`
itself leaves on the queue is a deselected piece that we have.

`Event.RequeuesSelected` names the events that put no deselected piece on the queue, from the state
before the event, and it is exact (`queueSelected_iff_requeuesSelected`).
-/

namespace Librtbit

open Machinery ChunkTracker

variable {L : Lengths}

namespace PieceTracker

/-- **Every queued piece is selected.** -/
def QueueSelected (pt : PieceTracker L) : Prop :=
  ∀ p, pt.chunks.isQueued p = true → pt.chunks.isSelected p = true
  deriving Decidable

/-- What happens to the tracker of a torrent: a call, or a pause, which takes the tracker apart,
and the resume that wraps its chunks again. -/
inductive Event (L : Lengths) where
  | call (op : Op L)
  | pauseResume

/-- The tracker after an event; an event is always possible. -/
def handle (pt : PieceTracker L) : Event L → Option (PieceTracker L)
  | .call op => pt.apply op
  | .pauseResume => some (new pt.intoChunks)

/-- The events that queue selected pieces only.  What a bad hash, a dead peer or a pause gives up
is selected unless we have it, and a new selection leaves out no piece that we have and that is
queued all the same. -/
def Event.RequeuesSelected (pt : PieceTracker L) : Event L → Prop
  | .call (.markPieceHashFailed p) =>
      pt.chunks.isPieceHave p = false → pt.chunks.isSelected p = true
  | .call (.releasePiecesOwnedBy peer) => ∀ p ∈ pt.piecesOwnedBy peer,
      pt.chunks.isPieceHave p = false → pt.chunks.isSelected p = true
  | .call (.updateOnlyFiles fileInfos files) => ∀ p, pt.chunks.isQueued p = true →
      pt.chunks.isPieceHave p = true →
        (pt.chunks.updateOnlyFiles fileInfos files).isSelected p = true
  | .call _ => True
  | .pauseResume => ∀ p ∈ pt.inflightKeys,
      pt.chunks.isPieceHave p = false → pt.chunks.isSelected p = true

/-! ## One event -/

section OneEvent

variable {pt : PieceTracker L} {pt' : PieceTracker L}

/-- A queue that only shrinks stays selected. -/
lemma QueueSelected.of_le (h : pt.QueueSelected)
    (hsel : ∀ p, pt'.chunks.isSelected p = pt.chunks.isSelected p)
    (hle : ∀ p, pt'.chunks.isQueued p → pt.chunks.isQueued p) :
    pt'.QueueSelected :=
  fun p hp => (hsel p).trans (h p (hle p hp))

/-- **Giving up pieces keeps the queue selected exactly when those of them we do not have are
selected.** -/
theorem QueueSelected.foldl_iff (h : pt.QueueSelected) (ps : List (ValidPieceIndex L))
    (hpt' : pt'.chunks = ps.foldl markPieceBrokenIfNotHave pt.chunks) :
    pt'.QueueSelected ↔
      ∀ p ∈ ps, pt.chunks.isPieceHave p = false → pt.chunks.isSelected p := by
  have hqueue : ∀ p, pt'.chunks.isQueued p ↔ pt.chunks.isQueued p ∨
      (p ∈ ps ∧ pt.chunks.isPieceHave p = false) := by
    intro p
    rw [hpt', isQueued_foldl_markPieceBrokenIfNotHave]
    simp
  have hsel : ∀ p, pt'.chunks.isSelected p = pt.chunks.isSelected p := by
    intro p
    rw [hpt', isSelected, selected_foldl_markPieceBrokenIfNotHave, isSelected]
  constructor
  · intro h' p hp hhave
    rw [← hsel]
    exact h' p ((hqueue p).mpr (Or.inr ⟨hp, hhave⟩))
  intro hps p hp
  rw [hsel]
  rcases (hqueue p).mp hp with hp | ⟨hp, hhave⟩
  · exact h p hp
  · exact hps p hp hhave

/-- **A new selection keeps the queue selected exactly when every piece that is queued although we
have it is selected.** -/
theorem QueueSelected.updateOnlyFiles_iff (fileInfos : List FileInfo) (files : List ℕ) :
    (pt.updateOnlyFiles fileInfos files).QueueSelected ↔
      ∀ p, pt.chunks.isQueued p → pt.chunks.isPieceHave p →
        (pt.chunks.updateOnlyFiles fileInfos files).isSelected p := by
  have hqueue := fun p => pt.chunks.isQueued_updateOnlyFiles fileInfos files p
  constructor
  · intro h' p hp hhave
    exact h' p ((hqueue p).mpr ⟨Or.inl hp, Or.inr hhave⟩)
  intro hc p hp
  obtain ⟨hwas, hsel | hhave⟩ := (hqueue p).mp hp
  · exact hsel
  · rcases hwas with hwas | hres
    · exact hc p hwas hhave
    · exact hres.1

section

variable (h : pt.QueueSelected)
include h

/-- Acquiring a piece takes at most one piece off the queue. -/
lemma QueueSelected.acquirePiece (req : AcquireRequest L) :
    (pt.acquirePiece req).1.QueueSelected := by
  rcases pt.acquirePiece_cases req with he | ⟨p, -, -, he⟩ | ⟨p, info, -, -, -, -, he⟩
  · rw [he]
    exact h
  · rw [he]
    refine h.of_le (fun _ => rfl) fun q hq => ?_
    rw [show (pt.reservePiece p req.peer req.now).chunks = pt.chunks.reserveNeededPiece p from rfl,
      isQueued_reserveNeededPiece, Bool.and_eq_true] at hq
    exact hq.1
  · rw [he]
    exact h.of_le (fun _ => rfl) fun _ => id

variable (p : ValidPieceIndex L)

lemma QueueSelected.takeInflight (now : Instant) :
    (pt.takeInflight p now).1.QueueSelected := by
  unfold PieceTracker.takeInflight
  split
  · exact h
  · exact h

lemma QueueSelected.markChunkDownloaded (piece : ReceivedPiece) :
    (pt.markChunkDownloaded piece).1.QueueSelected := by
  obtain ⟨_, he⟩ := pt.chunks.exists_markChunkDownloaded_fst piece
  refine h.of_le (fun p => ?_) fun p hp => ?_
  · simp only [PieceTracker.markChunkDownloaded, he, isSelected]
  · simpa only [PieceTracker.markChunkDownloaded, he, isQueued] using hp

lemma QueueSelected.markPieceHashOk :
    (pt.markPieceHashOk p).QueueSelected :=
  h.of_le (fun q => isSelected_markPieceDownloaded _ p q)
    fun q hq => (isQueued_markPieceDownloaded _ p q).symm.trans hq

/-- **One event keeps the queue selected exactly when it is one of `Event.RequeuesSelected`.** -/
theorem queueSelected_handle_iff {e pt'}
    (hstep : pt.handle e = some pt') : pt'.QueueSelected ↔ e.RequeuesSelected pt := by
  cases e with
  | pauseResume =>
    cases hstep
    exact h.foldl_iff pt.inflightKeys rfl
  | call op =>
    cases op with
    | acquirePiece req =>
      cases hstep
      exact iff_true_intro (h.acquirePiece req)
    | takeInflight p now =>
      cases hstep
      exact iff_true_intro (h.takeInflight p now)
    | markChunkDownloaded piece =>
      cases hstep
      exact iff_true_intro (h.markChunkDownloaded piece)
    | markPieceHashOk p =>
      cases hstep
      exact iff_true_intro (h.markPieceHashOk p)
    | markPieceHashFailed p =>
      cases hstep
      refine (h.foldl_iff [p] rfl).trans ?_
      rw [List.forall_mem_singleton]
      exact Iff.rfl
    | releasePiecesOwnedBy peer =>
      cases hstep
      exact h.foldl_iff (pt.piecesOwnedBy peer) (pt.chunks_releasePiecesOwnedBy peer)
    | updateOnlyFiles fileInfos files =>
      cases hstep
      exact QueueSelected.updateOnlyFiles_iff fileInfos files

end

end OneEvent

/-! ## Whole runs -/

/-- **In a run of a tracker what is queued is always selected exactly when all its events requeue
selected pieces only.** -/
theorem queueSelected_iff_requeuesSelected {havePieces selected : PieceBits L}
    {fileInfos : List FileInfo} {ct : ChunkTracker L}
    (hnew : ChunkTracker.new havePieces selected fileInfos = .ok ct) (es : List (Event L)) :
    Always handle QueueSelected (new ct) es ↔
      Along handle (fun pt e => e.RequeuesSelected pt) (new ct) es :=
  always_iff_along (fun _ _ _ h hstep => queueSelected_handle_iff h hstep)
    (fun p hp => by rw [new, isQueued_of_new hnew, Bool.and_eq_true] at hp; exact hp.2) es

/-! ### A piece deselected while it is downloaded -/

section Deselect

open Lengths ChunkTracker

/-- A piece whose peer dies while its file is selected goes back to the queue as it should. -/
theorem queueSelected_release :
    ChunkTracker.new (BitField.zeros _) ((BitField.zeros _).set 0 true) oneFile
        = .ok emptyTracker ∧
      Always handle QueueSelected (new emptyTracker)
        [.call (.acquirePiece (seederRequest peerA oneFile)),
          .call (.releasePiecesOwnedBy peerA)] := by
  refine ⟨?new, (queueSelected_iff_requeuesSelected ?new _).mpr ?_⟩
  · decide
  intro pt hpt
  cases hpt
  refine ⟨trivial, fun pt hpt => ⟨fun p _ _ => ?_, trivial⟩⟩
  revert p
  decide

/-- **The death of a peer queues a piece the user has deselected.** -/
theorem not_queueSelected_deselect :
    ChunkTracker.new (BitField.zeros _) ((BitField.zeros _).set 0 true) oneFile
        = .ok emptyTracker ∧
      ¬ Always handle QueueSelected (new emptyTracker)
        [.call (.acquirePiece (seederRequest peerA oneFile)), .call (.updateOnlyFiles oneFile []),
          .call (.releasePiecesOwnedBy peerA)] :=
  ⟨by decide, not_always_of_run (by decide)⟩

end Deselect

end PieceTracker

end Librtbit
