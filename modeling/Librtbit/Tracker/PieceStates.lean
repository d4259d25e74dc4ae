import Librtbit.Tracker.PieceTracker

/-!
# Tracker/PieceStates — the documented piece states, over whole runs of a tracker

`STATE.md` promises that HAVE, IN_FLIGHT and QUEUED are disjoint.  The operations do not all keep
that promise: `updateOnlyFiles` requeues a piece it finds newly selected without looking whether a
peer is downloading it, and a hash result is recorded for a piece that may have been reserved or
requeued since it was taken out of flight.

`Op.KeepsApart` names the steps that do keep the states apart, from the state before the step, and
it is exact (`statesDisjoint_iff_keepsApart`): a run stays within the documented states if and only
if all its steps are of that kind.
-/

namespace Librtbit

open Machinery ChunkTracker

variable {L : Lengths}

namespace PieceTracker

/-- **The documented piece states exclude each other.** -/
def StatesDisjoint (pt : PieceTracker L) : Prop :=
  ∀ p, ¬ (pt.chunks.isPieceHave p = true ∧ pt.isInflight p = true) ∧
    ¬ (pt.chunks.isPieceHave p = true ∧ pt.chunks.isQueued p = true) ∧
    ¬ (pt.isInflight p = true ∧ pt.chunks.isQueued p = true)
  deriving Decidable

/-- One call on a tracker, with all its arguments. -/
inductive Op (L : Lengths) where
  | acquirePiece (req : AcquireRequest L)
  | takeInflight (piece : ValidPieceIndex L) (now : Instant)
  | markChunkDownloaded (piece : ReceivedPiece)
  | markPieceHashOk (piece : ValidPieceIndex L)
  | markPieceHashFailed (piece : ValidPieceIndex L)
  | releasePiecesOwnedBy (peer : PeerHandle)
  | updateOnlyFiles (fileInfos : List FileInfo) (newOnlyFiles : List ℕ)

/-- The tracker after a call; a call is always possible. -/
def apply (pt : PieceTracker L) : Op L → Option (PieceTracker L)
  | .acquirePiece req => some (pt.acquirePiece req).1
  | .takeInflight piece now => some (pt.takeInflight piece now).1
  | .markChunkDownloaded piece => some (pt.markChunkDownloaded piece).1
  | .markPieceHashOk piece => some (pt.markPieceHashOk piece)
  | .markPieceHashFailed piece => some (pt.markPieceHashFailed piece)
  | .releasePiecesOwnedBy peer => some (pt.releasePiecesOwnedBy peer).1
  | .updateOnlyFiles fileInfos files => some (pt.updateOnlyFiles fileInfos files)

/-- The calls that keep the piece states apart: a good hash is recorded for a piece that is not in
flight and not queued, a bad one for a piece that is not in flight (unless we have it already),
and a new selection brings in no piece in flight. -/
def Op.KeepsApart (pt : PieceTracker L) : Op L → Prop
  | .markPieceHashOk p => pt.chunks.isPieceHave p = true ∨
      (pt.isInflight p = false ∧ pt.chunks.isQueued p = false)
  | .markPieceHashFailed p => pt.chunks.isPieceHave p = true ∨ pt.isInflight p = false
  | .updateOnlyFiles fileInfos files =>
      ∀ p, pt.chunks.Reselected fileInfos files p → pt.isInflight p = false
  | _ => True

/-! ## One call -/

section OneCall

variable {pt : PieceTracker L}

section

variable (h : pt.StatesDisjoint)
include h

variable {p : ValidPieceIndex L}

lemma StatesDisjoint.reservePiece (hp : pt.chunks.isPieceHave p = false)
    (peer : PeerHandle) (now : Instant) :
    (pt.reservePiece p peer now).StatesDisjoint := by
  intro q
  simp only [PieceTracker.reservePiece, isInflight_update,
    isPieceHave_reserveNeededPiece, isQueued_reserveNeededPiece]
  rcases eq_or_ne q p with rfl | hqp
  · simp [hp]
  · simpa [hqp, Ne.symm hqp] using h q

lemma StatesDisjoint.handOver {info} (hp : pt.inflight p = some info) (info' : InflightPiece) :
    (⟨pt.chunks, Function.update pt.inflight p (some info')⟩ : PieceTracker L).StatesDisjoint := by
  intro q
  simp only [isInflight_update]
  rcases eq_or_ne q p with rfl | hqp
  · have hq := h q
    simpa [isInflight, hp] using hq
  · simpa [hqp] using h q

/-- **An acquisition keeps the states apart.** -/
theorem StatesDisjoint.acquirePiece (req : AcquireRequest L) :
    (pt.acquirePiece req).1.StatesDisjoint := by
  rcases pt.acquirePiece_cases req with he | ⟨p, -, hp, he⟩ | ⟨p, info, hinfo, -, -, -, he⟩
  · rw [he]; exact h
  · rw [he]
    refine h.reservePiece ?_ req.peer req.now
    rcases (pt.findReservable_eq_some hp).2 with ⟨-, hhave, -⟩ | hqueued
    · exact hhave
    · by_contra hhave
      exact (h p).2.1 ⟨by simpa using hhave, hqueued⟩
  · rw [he]; exact h.handOver hinfo _

lemma StatesDisjoint.takeInflight (p : ValidPieceIndex L) (now : Instant) :
    (pt.takeInflight p now).1.StatesDisjoint := by
  unfold PieceTracker.takeInflight
  split
  · exact h
  intro q
  simp only [isInflight_update]
  rcases eq_or_ne q p with rfl | hqp
  · simpa using (h q).2.1
  · simpa [hqp] using h q

lemma StatesDisjoint.releasePiecesOwnedBy (peer : PeerHandle) :
    (pt.releasePiecesOwnedBy peer).1.StatesDisjoint := by
  intro q
  obtain ⟨h1, h2, h3⟩ := h q
  have hhave : (pt.releasePiecesOwnedBy peer).1.chunks.isPieceHave q
      = pt.chunks.isPieceHave q := by
    simp [isPieceHave]
  have hfly : (pt.releasePiecesOwnedBy peer).1.isInflight q ↔
      ∃ info, pt.inflight q = some info ∧ info.peer ≠ peer := by
    rw [isInflight, inflight_releasePiecesOwnedBy]
    cases pt.inflight q with
    | none => simp
    | some info => by_cases hp : info.peer = peer <;> simp [hp, Option.filter]
  rw [hhave, hfly, isQueued_releasePiecesOwnedBy]
  refine ⟨?_, ?_, ?_⟩
  · rintro ⟨hh, info, hinfo, -⟩
    exact h1 ⟨hh, by simp [isInflight, hinfo]⟩
  · rintro ⟨hh, hq | ⟨-, hnh⟩⟩
    · exact h2 ⟨hh, hq⟩
    · rw [hh] at hnh
      exact absurd hnh (by decide)
  · rintro ⟨⟨info, hinfo, hne⟩, hq | ⟨⟨info', hinfo', heq⟩, -⟩⟩
    · exact h3 ⟨by simp [isInflight, hinfo], hq⟩
    · rw [hinfo] at hinfo'
      exact hne (Option.some.inj hinfo' ▸ heq)

/-- **A good hash keeps the states apart exactly when the piece is in none of the others.** -/
theorem statesDisjoint_markPieceHashOk_iff (p : ValidPieceIndex L) :
    (pt.markPieceHashOk p).StatesDisjoint ↔ pt.chunks.isPieceHave p ∨
      (pt.isInflight p = false ∧ pt.chunks.isQueued p = false) := by
  have hat : ∀ q, (pt.markPieceHashOk p).chunks.isPieceHave q
      = (pt.chunks.isPieceHave q || decide (p = q)) :=
    fun q => isPieceHave_markPieceDownloaded _ _ _
  have hqueue : ∀ q, (pt.markPieceHashOk p).chunks.isQueued q = pt.chunks.isQueued q :=
    fun q => isQueued_markPieceDownloaded _ _ _
  have hfly : ∀ q, (pt.markPieceHashOk p).isInflight q = pt.isInflight q := fun q => rfl
  constructor
  · intro h'
    obtain ⟨h1, h2, -⟩ := h' p
    simp only [hat, hqueue, hfly, decide_true, Bool.or_true, true_and] at h1 h2
    exact Or.inr ⟨by simpa using h1, by simpa using h2⟩
  · intro hp q
    simp only [hat, hqueue, hfly]
    rcases eq_or_ne p q with rfl | hpq
    · rcases hp with hp | ⟨hf, hq⟩
      · simpa [hp] using h p
      · simp [hf, hq]
    · simpa [hpq] using h q

/-- **A bad hash keeps the states apart exactly when the piece is not in flight**, or is had. -/
theorem statesDisjoint_markPieceHashFailed_iff (p : ValidPieceIndex L) :
    (pt.markPieceHashFailed p).StatesDisjoint ↔
      pt.chunks.isPieceHave p ∨ pt.isInflight p = false := by
  have hat : ∀ q, (pt.markPieceHashFailed p).chunks.isPieceHave q = pt.chunks.isPieceHave q :=
    fun q => isPieceHave_markPieceBrokenIfNotHave _ _ _
  have hqueue : ∀ q, (pt.markPieceHashFailed p).chunks.isQueued q
      = (pt.chunks.isQueued q || (decide (p = q) && !pt.chunks.isPieceHave q)) :=
    fun q => isQueued_markPieceBrokenIfNotHave _ _ _
  have hfly : ∀ q, (pt.markPieceHashFailed p).isInflight q = pt.isInflight q := fun q => rfl
  constructor
  · intro h'
    obtain ⟨-, -, h3⟩ := h' p
    rw [hqueue, hfly] at h3
    by_contra hp
    obtain ⟨hh, hf⟩ := not_or.mp hp
    exact h3 ⟨by simpa using hf, by simp [show pt.chunks.isPieceHave p = false by simpa using hh]⟩
  · intro hp q
    simp only [hat, hqueue, hfly]
    rcases eq_or_ne p q with rfl | hpq
    · rcases hp with hp | hf
      · simpa [hp] using h p
      · have := h p
        cases hh : pt.chunks.isPieceHave p <;> simp_all
    · simpa [hpq] using h q

/-- **A new selection keeps the states apart exactly when it requeues no piece in flight.** -/
theorem statesDisjoint_updateOnlyFiles_iff (fileInfos : List FileInfo) (files : List ℕ) :
    (pt.updateOnlyFiles fileInfos files).StatesDisjoint ↔
      ∀ p, pt.chunks.Reselected fileInfos files p → pt.isInflight p = false := by
  have hat : ∀ q, (pt.updateOnlyFiles fileInfos files).chunks.isPieceHave q
      = pt.chunks.isPieceHave q := fun q => isPieceHave_updateOnlyFiles _ _ _ _
  have hqueue := fun q => pt.chunks.isQueued_updateOnlyFiles fileInfos files q
  have hfly : ∀ q, (pt.updateOnlyFiles fileInfos files).isInflight q = pt.isInflight q :=
    fun q => rfl
  constructor
  · intro h' p hp
    by_contra hf
    exact (h' p).2.2 ⟨by rw [hfly]; simpa using hf, (hqueue p).mpr ⟨Or.inr hp, Or.inl hp.1⟩⟩
  intro hc q
  obtain ⟨h1, h2, h3⟩ := h q
  rw [hat, hfly]
  refine ⟨h1, ?_, ?_⟩
  · rintro ⟨hh, hq⟩
    rcases ((hqueue q).mp hq).1 with hq | hr
    · exact h2 ⟨hh, hq⟩
    · rw [hr.2.2] at hh
      exact absurd hh (by decide)
  · rintro ⟨hf, hq⟩
    rcases ((hqueue q).mp hq).1 with hq | hr
    · exact h3 ⟨hf, hq⟩
    · rw [hc q hr] at hf
      exact absurd hf (by decide)

/-- **One call keeps the states apart exactly when it is one of `Op.KeepsApart`.** -/
theorem statesDisjoint_apply_iff {op pt'} (hstep : pt.apply op = some pt') :
    pt'.StatesDisjoint ↔ op.KeepsApart pt := by
  cases op with
  | acquirePiece req =>
    cases hstep
    exact iff_true_intro (h.acquirePiece req)
  | takeInflight p now =>
    cases hstep
    exact iff_true_intro (h.takeInflight p now)
  | markChunkDownloaded piece =>
    cases hstep
    refine iff_true_intro (fun q => ?_)
    obtain ⟨_, he⟩ := pt.chunks.exists_markChunkDownloaded_fst piece
    have hq := h q
    simpa [PieceTracker.markChunkDownloaded, he, isPieceHave, isQueued, isInflight] using hq
  | markPieceHashOk p =>
    cases hstep
    exact statesDisjoint_markPieceHashOk_iff h p
  | markPieceHashFailed p =>
    cases hstep
    exact statesDisjoint_markPieceHashFailed_iff h p
  | releasePiecesOwnedBy peer =>
    cases hstep
    exact iff_true_intro (h.releasePiecesOwnedBy peer)
  | updateOnlyFiles fileInfos files =>
    cases hstep
    exact statesDisjoint_updateOnlyFiles_iff h fileInfos files

end

end OneCall

/-! ## Whole runs -/

/-- **A run of a tracker stays within the documented states exactly when all its calls keep them
apart.** -/
theorem statesDisjoint_iff_keepsApart {havePieces selected : PieceBits L}
    {fileInfos : List FileInfo} {ct : ChunkTracker L}
    (hnew : ChunkTracker.new havePieces selected fileInfos = .ok ct) (ops : List (Op L)) :
    Always apply StatesDisjoint (new ct) ops ↔
      Along apply (fun pt op => op.KeepsApart pt) (new ct) ops :=
  always_iff_along (fun _ _ _ h hstep => statesDisjoint_apply_iff h hstep)
    (fun p => by simp only [new, isInflight, isQueued_of_new hnew]; cases ct.isPieceHave p <;> simp)
    ops

/-! ### A piece deselected and selected again while it is downloaded -/

section Reselect

open Lengths ChunkTracker

/-- A peer that has every piece asks for one. -/
def seederRequest (peer : PeerHandle) (fileInfos : List FileInfo) : AcquireRequest L where
  peer
  peerAvgTime := none
  priorityPieces := []
  filePriorities := List.range fileInfos.length
  fileInfos
  peerHasPiece _ := true
  canSteal _ := true
  now := 0
  elapsedAt _ _ := 0

/-- Some peer. -/
def peerA : PeerHandle := ⟨.v4 1, 1⟩

/-- A piece downloaded and checked, in the order the program does it, passes through the documented
states only. -/
theorem statesDisjoint_download :
    ChunkTracker.new (BitField.zeros _) ((BitField.zeros _).set 0 true) oneFile
        = .ok emptyTracker ∧
      Always apply StatesDisjoint (new emptyTracker)
        [.acquirePiece (seederRequest peerA oneFile), .takeInflight 0 1, .markPieceHashOk 0] := by
  refine ⟨?new, (statesDisjoint_iff_keepsApart ?new _).mpr ?_⟩
  · decide
  intro pt hpt
  cases hpt
  refine ⟨trivial, fun pt hpt => ?_⟩
  cases hpt
  refine ⟨trivial, fun pt hpt => ⟨Or.inr ⟨?_, ?_⟩, trivial⟩⟩ <;> decide

/-- **Deselecting and selecting a file again queues a piece that is in flight.** -/
theorem not_statesDisjoint_reselect :
    ChunkTracker.new (BitField.zeros _) ((BitField.zeros _).set 0 true) oneFile
        = .ok emptyTracker ∧
      ¬ Always apply StatesDisjoint (new emptyTracker)
        [.acquirePiece (seederRequest peerA oneFile), .updateOnlyFiles oneFile [],
          .updateOnlyFiles oneFile [0]] :=
  ⟨by decide, not_always_of_run (by decide)⟩

end Reselect

end PieceTracker

end Librtbit
