import Librtbit.Tracker.ChunkBits

/-!
# Tracker/Completion — a piece is completed once

`mark_chunk_downloaded` answers for each block it is handed whether the block completes its piece.
`Receipts` keeps, next to the tracker, what has been received of each piece since it was last
requeued and what was answered since.  Where the chunks can be numbered in 32 bits the answers are
those of a set that fills up (`receipts_exact`), and no block makes the call panic.

Two numbers of a geometry are multiplied in 32 bits, and nothing looks whether the product fits: a
torrent of `2 ^ 31 + 1` pieces of two chunks has a chunk field of eight bits, and a block of its
eleventh piece ends the call in an `unwrap` (`not_receipts_exact_wrapped`).
-/

namespace Librtbit

open Machinery BitField Lengths ReceivedPiece Function

variable {L : Lengths}

namespace ChunkTracker

variable (ct : ChunkTracker L)

/-- `mark_chunk_downloaded` with its panics: the length of a block of a valid piece is cast to 32
bits and unwrapped, the slice of the piece is unwrapped, and a bit is set in it. -/
def markChunkDownloadedOrPanic (piece : ReceivedPiece) :
    Outcome Empty (ChunkTracker L × Option ChunkMarkingResult) :=
  match L.validatePieceIndex piece.index with
  | none => .ok (ct, none)
  | some p =>
    if 2 ^ 32 ≤ piece.block.length then .abort .unwrap
    else
      match L.chunkInfoFromReceivedData p piece.begin piece.block.length with
      | none => .ok (ct, none)
      | some chunkInfo =>
        let chunkRange := L.chunkRange chunkInfo.pieceIndex
        if ¬ (chunkRange.start ≤ chunkRange.stop ∧ chunkRange.stop ≤ L.chunkBits) then
          .abort .unwrap
        else if ct.chunkStatus.all chunkRange then .ok (ct, some .previouslyCompleted)
        else if chunkRange.len ≤ chunkInfo.chunkIndex then .abort .outOfBounds
        else
          let chunkStatus := ct.chunkStatus.set (chunkRange.start + chunkInfo.chunkIndex) true
          .ok ({ ct with chunkStatus },
            some (if chunkStatus.all chunkRange then .completed else .notCompleted))

/-- The piece goes back to the queue in a call, with none of its chunks. -/
def requeues : Op L → ValidPieceIndex L → Bool
  | .markPieceBrokenIfNotHave p, q => decide (p = q) && !ct.isPieceHave q
  | .updateOnlyFiles fileInfos files, q => decide (ct.Reselected fileInfos files q)
  | _, _ => false

/-- Every chunk of the piece has its bit. -/
def Full (p : ValidPieceIndex L) : Prop := ∀ i < L.chunksPerPieceOf p, ct.chunkBit p i = true

instance (p : ValidPieceIndex L) : Decidable (ct.Full p) := inferInstanceAs (Decidable (∀ i < _, _))

end ChunkTracker

/-- A tracker, and what it was told and answered since each piece was requeued. -/
structure Receipts (L : Lengths) where
  chunks : ChunkTracker L
  received : ValidPieceIndex L → Finset ℕ := fun _ => ∅
  answers : ValidPieceIndex L → List ChunkMarkingResult := fun _ => []
  panicked : Bool := false

namespace Receipts

open ChunkTracker

/-- A chunk is received, and answered. -/
def record (s : Receipts L) (chunk : ChunkInfo L) (answer : ChunkMarkingResult)
    (chunks : ChunkTracker L) : Receipts L :=
  { s with
    chunks
    received := update s.received chunk.pieceIndex
      (insert chunk.chunkIndex (s.received chunk.pieceIndex))
    answers := update s.answers chunk.pieceIndex (s.answers chunk.pieceIndex ++ [answer]) }

/-- One call.  A block comes in a message, which gives its length in 32 bits; after a panic there
are no more calls. -/
def step (s : Receipts L) (op : Op L) : Option (Receipts L) :=
  if s.panicked then none
  else
    match op with
    | .markChunkDownloaded piece =>
      if 2 ^ 32 ≤ piece.block.length then none
      else
        match s.chunks.markChunkDownloadedOrPanic piece, piece.chunkInfo L with
        | .ok (chunks, some answer), some chunk => some (s.record chunk answer chunks)
        | .ok (chunks, _), _ => some { s with chunks }
        | _, _ => some { s with panicked := true }
    | op =>
      (s.chunks.apply op).map fun chunks => { s with
        chunks
        received := fun p => if s.chunks.requeues op p then ∅ else s.received p
        answers := fun p => if s.chunks.requeues op p then [] else s.answers p }

/-- **Every chunk of the piece was received** since it was requeued. -/
def Covered (s : Receipts L) (p : ValidPieceIndex L) : Prop :=
  ∀ chunk ∈ L.iterChunkInfos p, chunk.chunkIndex ∈ s.received p
  deriving Decidable

/-- **The answer a block should get**, from what was received before it and with it. -/
def answerOf (s s' : Receipts L) (p : ValidPieceIndex L) : ChunkMarkingResult :=
  if s.Covered p then .previouslyCompleted else if s'.Covered p then .completed else .notCompleted

/-- **What the answers for a piece are**: it is not completed as long as a chunk is missing, then it
is completed once, and from then on it was completed before. -/
def AnswersExact (s : Receipts L) (p : ValidPieceIndex L) : Prop :=
  (¬ s.Covered p → ∀ a ∈ s.answers p, a = .notCompleted) ∧
    (s.Covered p → ∃ early late, s.answers p = early ++ .completed :: late ∧
      (∀ a ∈ early, a = .notCompleted) ∧ ∀ a ∈ late, a = .previouslyCompleted)

/-- **No call panicked, and the answers are right for every piece that was not there at first.** -/
def Exact (havePieces : PieceBits L) (s : Receipts L) : Prop :=
  s.panicked = false ∧ ∀ p : ValidPieceIndex L, havePieces.get p.1 = false → s.AnswersExact p

/-- **What a block does**: it is answered by what it adds, and touches no chunk of another piece; a
block that is none of the torrent's is refused. -/
def Receives (havePieces : PieceBits L) (s : Receipts L) (op : Op L) (s' : Receipts L) : Prop :=
  ∀ piece, op = .markChunkDownloaded piece →
    match piece.chunkInfo L with
    | none => s' = s
    | some chunk =>
      (∀ q, q ≠ chunk.pieceIndex → ∀ i < L.chunksPerPieceOf q,
        s'.chunks.chunkBit q i = s.chunks.chunkBit q i) ∧
      (havePieces.get chunk.pieceIndex.1 = false → s'.answers chunk.pieceIndex
          = s.answers chunk.pieceIndex ++ [s.answerOf s' chunk.pieceIndex])

/-! ## One block -/

section Block

variable (ct : ChunkTracker L) {piece : ReceivedPiece} {chunk : ChunkInfo L} (hfit : L.ChunksFit)

include hfit

/-- **Where the chunks can be numbered no block makes the call panic.** -/
theorem markChunkDownloadedOrPanic_eq (hlen : piece.block.length < 2 ^ 32) :
    ct.markChunkDownloadedOrPanic piece = .ok (ct.markChunkDownloaded piece) := by
  rw [markChunkDownloadedOrPanic, markChunkDownloaded]
  cases hp : L.validatePieceIndex piece.index with
  | none => rfl
  | some p =>
    dsimp only [Option.bind_some]
    rw [if_neg (not_le.mpr hlen)]
    cases hchunk : L.chunkInfoFromReceivedData p piece.begin piece.block.length with
    | none => rfl
    | some chunk =>
      have hinfo : piece.chunkInfo L = some chunk := by
        rw [chunkInfo, hp]
        exact hchunk
      have hindex := chunkIndex_lt hinfo
      have hslice := And.intro (start_le_stop_chunkRange hfit chunk.pieceIndex)
        (hfit.stop_chunkRange_le chunk.pieceIndex)
      have hlen : ¬ (L.chunkRange chunk.pieceIndex).len ≤ chunk.chunkIndex := by
        rw [hfit.chunkRange_eq, Span.len]
        dsimp only
        omega
      dsimp only
      rw [if_neg (not_not.mpr hslice)]
      split <;> rfl

variable (h : piece.chunkInfo L = some chunk)
include h

/-- A block of a piece that is full already changes nothing. -/
lemma markChunkDownloaded_of_full (hfull : ct.Full chunk.pieceIndex) :
    ct.markChunkDownloaded piece = (ct, some .previouslyCompleted) := by
  rw [chunkInfo] at h
  rw [markChunkDownloaded, h]
  exact if_pos ((all_chunkRange_iff hfit ct.chunkStatus).mpr hfull)

/-- **A block of a piece that is not full is answered by whether the piece is full now.** -/
theorem snd_markChunkDownloaded_of_not_full (hfull : ¬ ct.Full chunk.pieceIndex) {answer}
    (hanswer : (ct.markChunkDownloaded piece).2 = some answer) :
    answer = if (ct.markChunkDownloaded piece).1.Full chunk.pieceIndex then .completed
      else .notCompleted := by
  have hall : ¬ ct.chunkStatus.all (L.chunkRange chunk.pieceIndex) :=
    fun hall => hfull ((all_chunkRange_iff hfit ct.chunkStatus).mp hall)
  obtain ⟨chunkStatus, hmark⟩ : ∃ chunkStatus, ct.markChunkDownloaded piece =
      ({ ct with chunkStatus }, some (if chunkStatus.all (L.chunkRange chunk.pieceIndex) then
        .completed else .notCompleted)) := by
    rw [chunkInfo] at h
    rw [markChunkDownloaded, h]
    exact ⟨_, if_neg hall⟩
  rw [hmark] at hanswer ⊢
  rw [← Option.some.inj hanswer]
  exact if_congr (all_chunkRange_iff hfit chunkStatus) rfl rfl

end Block

/-! ## Other calls -/

/-- **A call that brings no block takes the chunks of the pieces it requeues.** -/
theorem chunkBit_apply (hfit : L.ChunksFit) {ct ct' : ChunkTracker L} {op}
    (hop : ∀ piece, op ≠ .markChunkDownloaded piece) (h : ct.apply op = some ct')
    {q i} (hi : i < L.chunksPerPieceOf q) :
    ct'.chunkBit q i = (ct.chunkBit q i && !ct.requeues op q) := by
  cases op with
  | markPieceDownloaded idx =>
    cases h
    refine Eq.trans ?_ (Bool.and_true _).symm
    rw [markPieceDownloaded]
    split <;> rfl
  | markPieceBrokenIfNotHave index =>
    cases h
    exact chunkBit_markPieceBrokenIfNotHave hfit ct hi
  | reserveNeededPiece index | updateFileHaveOnPieceCompleted pieceId fileId fi =>
    cases h
    exact (Bool.and_true _).symm
  | markChunkDownloaded piece => exact absurd rfl (hop piece)
  | updateOnlyFiles fileInfos files =>
    cases h
    exact chunkBit_updateOnlyFiles hfit ct fileInfos files hi

/-! ## Whole runs -/

/-- **The bits of a piece are the chunks received of it**, for the pieces that were not there at
first. -/
def Tracks (havePieces : PieceBits L) (s : Receipts L) : Prop :=
  ∀ p : ValidPieceIndex L, havePieces.get p.1 = false → ∀ i < L.chunksPerPieceOf p,
    s.chunks.chunkBit p i = decide (i ∈ s.received p)

/-- What holds of a run of calls at every moment. -/
structure Inv (havePieces : PieceBits L) (s : Receipts L) : Prop where
  exact : s.Exact havePieces
  tracks : s.Tracks havePieces

section Run

variable {havePieces : PieceBits L} {s s' : Receipts L}

/-- What is answered for a piece depends on what was received and answered for it. -/
lemma answersExact_congr {p} (hreceived : s'.received p = s.received p)
    (hanswers : s'.answers p = s.answers p) : s'.AnswersExact p ↔ s.AnswersExact p := by
  have hcovered : s'.Covered p ↔ s.Covered p := by
    unfold Covered
    rw [hreceived]
  rw [AnswersExact, AnswersExact, hcovered, hanswers]

variable (hfit : L.ChunksFit)
  (hcount : ∀ p, L.chunksPerPieceOf p = L.pieceLengthOf p ⌈/⌉ chunkSize)

section

include hcount

lemma covered_iff (s : Receipts L) (p : ValidPieceIndex L) :
    s.Covered p ↔ ∀ i < L.chunksPerPieceOf p, i ∈ s.received p := by
  rw [Covered, L.iterChunkInfos_eq, hcount]
  simp only [List.forall_mem_map, List.mem_range]
  rfl

/-- A piece is full when all of it was received. -/
lemma Tracks.full_iff (h : s.Tracks havePieces) {p}
    (hp : havePieces.get p.1 = false) : s.chunks.Full p ↔ s.Covered p := by
  rw [covered_iff hcount]
  refine forall₂_congr fun i hi => ?_
  rw [h p hp i hi, decide_eq_true_eq]

end

/-! ### A block -/

section Record

variable {piece : ReceivedPiece} {chunk : ChunkInfo L} {answer : ChunkMarkingResult}

lemma received_record_of_ne {q} (hq : q ≠ chunk.pieceIndex) (chunks : ChunkTracker L) :
    (s.record chunk answer chunks).received q = s.received q ∧
      (s.record chunk answer chunks).answers q = s.answers q :=
  ⟨update_of_ne hq .., update_of_ne hq ..⟩

variable (chunks : ChunkTracker L)

lemma received_record_self :
    (s.record chunk answer chunks).received chunk.pieceIndex
      = insert chunk.chunkIndex (s.received chunk.pieceIndex) := update_self ..

lemma answers_record_self :
    (s.record chunk answer chunks).answers chunk.pieceIndex
      = s.answers chunk.pieceIndex ++ [answer] := update_self ..

/-- A block only adds to what was received. -/
lemma Covered.record (h : s.Covered chunk.pieceIndex) (chunks : ChunkTracker L) :
    (s.record chunk answer chunks).Covered chunk.pieceIndex := by
  intro c hc
  rw [received_record_self]
  exact Finset.mem_insert_of_mem (h c hc)

/-- **The right answer keeps the answers right.** -/
theorem AnswersExact.record (h : s.AnswersExact chunk.pieceIndex) {chunks}
    (hanswer : answer = s.answerOf (s.record chunk answer chunks) chunk.pieceIndex) :
    (s.record chunk answer chunks).AnswersExact chunk.pieceIndex := by
  obtain ⟨hmissing, hcovered⟩ := h
  rw [answerOf] at hanswer
  rw [AnswersExact, answers_record_self]
  by_cases hbefore : s.Covered chunk.pieceIndex
  · obtain ⟨early, late, hs, hearly, hlate⟩ := hcovered hbefore
    rw [if_pos hbefore] at hanswer
    refine ⟨fun hnot => absurd (hbefore.record chunks) hnot, fun _ => ?_⟩
    refine ⟨early, late ++ [answer], by rw [hs]; simp, hearly, ?_⟩
    simpa [hanswer, or_imp, forall_and] using hlate
  · have hearly := hmissing hbefore
    rw [if_neg hbefore] at hanswer
    constructor
    · intro hafter
      rw [if_neg hafter] at hanswer
      simpa [hanswer, or_imp, forall_and] using hearly
    · intro hafter
      rw [if_pos hafter] at hanswer
      exact ⟨s.answers chunk.pieceIndex, [], by rw [hanswer], hearly, by simp⟩

include hfit

/-- **How a block is recorded.** -/
theorem step_markChunkDownloaded (hpanicked : s.panicked = false)
    (hstep : s.step (.markChunkDownloaded piece) = some s') :
    (piece.chunkInfo L = none ∧ s' = s) ∨
      ∃ chunk answer, piece.chunkInfo L = some chunk ∧
        (s.chunks.markChunkDownloaded piece).2 = some answer ∧
        s' = s.record chunk answer (s.chunks.markChunkDownloaded piece).1 := by
  rw [step, if_neg (Bool.eq_false_iff.mp hpanicked)] at hstep
  split at hstep
  · cases hstep
  next hlen =>
  rw [markChunkDownloadedOrPanic_eq s.chunks hfit (not_le.mp hlen)] at hstep
  cases hchunk : piece.chunkInfo L with
  | none =>
    have hmark : s.chunks.markChunkDownloaded piece = (s.chunks, none) := by
      rw [chunkInfo] at hchunk
      rw [markChunkDownloaded, hchunk]
    rw [hmark] at hstep
    exact Or.inl ⟨rfl, (Option.some.inj hstep).symm⟩
  | some chunk =>
    obtain ⟨answer, hanswer⟩ :
        ∃ answer, (s.chunks.markChunkDownloaded piece).2 = some answer := by
      by_cases hfull : s.chunks.Full chunk.pieceIndex
      · rw [markChunkDownloaded_of_full s.chunks hfit hchunk hfull]
        exact ⟨_, rfl⟩
      rw [chunkInfo] at hchunk
      rw [markChunkDownloaded, hchunk]
      dsimp only
      split <;> exact ⟨_, rfl⟩
    refine Or.inr ⟨chunk, answer, rfl, hanswer, ?_⟩
    rw [hchunk, ← Prod.mk.eta (p := s.chunks.markChunkDownloaded piece), hanswer] at hstep
    exact (Option.some.inj hstep).symm

lemma Tracks.record (h : s.Tracks havePieces) (hchunk : piece.chunkInfo L = some chunk) :
    (s.record chunk answer (s.chunks.markChunkDownloaded piece).1).Tracks havePieces := by
  intro p hp i hi
  refine (chunkBit_markChunkDownloaded hfit s.chunks hchunk hi).trans ?_
  rw [h p hp i hi]
  rcases eq_or_ne p chunk.pieceIndex with rfl | hne
  · rw [received_record_self]
    simp [Bool.or_comm, eq_comm]
  · rw [(received_record_of_ne hne _).1]
    simp [hne.symm]

end Record

/-! ### A call -/

section Call

include hfit hcount

/-- **A block keeps the answers right, and is answered by what it adds.** -/
theorem Inv.markChunkDownloaded (h : s.Inv havePieces) {piece}
    (hstep : s.step (.markChunkDownloaded piece) = some s') :
    s'.Inv havePieces ∧ s.Receives havePieces (.markChunkDownloaded piece) s' := by
  obtain ⟨⟨hpanicked, hanswers⟩, htracks⟩ := h
  rcases step_markChunkDownloaded hfit hpanicked hstep with ⟨hchunk, rfl⟩ |
    ⟨chunk, answer, hchunk, hanswer, hs'⟩
  · refine ⟨⟨⟨hpanicked, hanswers⟩, htracks⟩, ?_⟩
    rintro _ ⟨⟩
    rw [hchunk]
  have htracks' : s'.Tracks havePieces := hs' ▸ htracks.record hfit hchunk
  -- the answer is about bits, which are what was received
  have hright : havePieces.get chunk.pieceIndex.1 = false →
      answer = s.answerOf s' chunk.pieceIndex := by
    intro hp
    have hbefore := htracks.full_iff hcount hp
    have hafter := htracks'.full_iff hcount hp
    rw [answerOf]
    by_cases hfull : s.chunks.Full chunk.pieceIndex
    · rw [if_pos (hbefore.mp hfull)]
      rw [markChunkDownloaded_of_full s.chunks hfit hchunk hfull] at hanswer
      exact (Option.some.inj hanswer).symm
    rw [if_neg (mt hbefore.mpr hfull),
      snd_markChunkDownloaded_of_not_full s.chunks hfit hchunk hfull hanswer]
    refine if_congr ?_ rfl rfl
    rw [← hafter, hs']
    rfl
  refine ⟨⟨⟨?_, fun p hp => ?_⟩, htracks'⟩, ?_⟩
  · rw [hs']
    exact hpanicked
  · rcases eq_or_ne p chunk.pieceIndex with rfl | hne
    · rw [hs'] at hright ⊢
      exact (hanswers chunk.pieceIndex hp).record (hright hp)
    obtain ⟨hreceived, hans⟩ : s'.received p = s.received p ∧ s'.answers p = s.answers p := by
      rw [hs']
      exact received_record_of_ne hne _
    exact (answersExact_congr hreceived hans).mpr (hanswers p hp)
  · rintro _ ⟨⟩
    rw [hchunk]
    refine ⟨fun q hq i hi => ?_, fun hp => ?_⟩
    · rw [hs']
      refine (chunkBit_markChunkDownloaded hfit s.chunks hchunk hi).trans ?_
      simp [hq.symm]
    · rw [← hright hp, hs', answers_record_self]

variable (hpos : ∀ p, 0 < L.chunksPerPieceOf p)

include hpos

/-- **Every call keeps the answers right.** -/
theorem Inv.step (h : s.Inv havePieces) {op} (hstep : s.step op = some s') :
    s'.Inv havePieces ∧ s.Receives havePieces op s' := by
  by_cases hblock : ∃ piece, op = .markChunkDownloaded piece
  · obtain ⟨piece, rfl⟩ := hblock
    exact h.markChunkDownloaded hfit hcount hstep
  have hop : ∀ piece, op ≠ .markChunkDownloaded piece := fun piece he => hblock ⟨piece, he⟩
  obtain ⟨⟨hpanicked, hanswers⟩, htracks⟩ := h
  obtain ⟨chunks, hchunks, rfl⟩ : ∃ chunks, s.chunks.apply op = some chunks ∧ s' = { s with
      chunks
      received := fun p => if s.chunks.requeues op p then ∅ else s.received p
      answers := fun p => if s.chunks.requeues op p then [] else s.answers p } := by
    rw [Receipts.step.eq_def, if_neg (Bool.eq_false_iff.mp hpanicked)] at hstep
    split at hstep
    · exact absurd rfl (hop _)
    · obtain ⟨chunks, hchunks, rfl⟩ := Option.map_eq_some_iff.mp hstep
      exact ⟨chunks, hchunks, rfl⟩
  refine ⟨⟨⟨hpanicked, fun p hp => ?_⟩, fun p hp i hi => ?_⟩, fun piece he => absurd he (hop _)⟩
  · by_cases hrequeued : s.chunks.requeues op p
    · -- nothing was received of it yet, and it has a chunk
      refine ⟨fun _ a ha => ?_, fun hcovered => ?_⟩
      · simp [hrequeued] at ha
      · have hfirst := (covered_iff hcount _ p).mp hcovered 0 (hpos p)
        simp [hrequeued] at hfirst
    · refine (answersExact_congr ?_ ?_).mpr (hanswers p hp)
      · exact if_neg hrequeued
      · exact if_neg hrequeued
  · refine (chunkBit_apply hfit hop hchunks hi).trans ?_
    rw [htracks p hp i hi]
    by_cases hrequeued : s.chunks.requeues op p
    · simp [hrequeued]
    · simp [hrequeued]

end Call

end Run

/-- A new tracker has received nothing. -/
lemma inv_new (hfit : L.ChunksFit)
    (hcount : ∀ p, L.chunksPerPieceOf p = L.pieceLengthOf p ⌈/⌉ chunkSize)
    (hpos : ∀ p, 0 < L.chunksPerPieceOf p) {havePieces selected fileInfos ct}
    (hnew : ChunkTracker.new havePieces selected fileInfos = .ok ct) :
    ({ chunks := ct } : Receipts L).Inv havePieces := by
  refine ⟨⟨rfl, fun p hp => ⟨fun _ a ha => ?_, fun hcovered => ?_⟩⟩, fun p hp i hi => ?_⟩
  · cases ha
  · have hfirst := (covered_iff hcount _ p).mp hcovered 0 (hpos p)
    exact absurd hfirst (Finset.notMem_empty _)
  · refine (chunkBit_of_new hfit hnew hi).trans (hp.trans ?_)
    exact (decide_eq_false (Finset.notMem_empty i)).symm

/-- **Where the chunks of a torrent can be numbered in 32 bits, every piece is completed once**
between two requeues, by the block that brings its last chunk; no block touches another piece, and
none makes the tracker panic. -/
theorem receipts_exact {total : UInt64} {len : UInt32}
    (hL : new total.toNat len.toNat = .ok L) (hfit : L.ChunksFit)
    {havePieces selected : PieceBits L} {fileInfos : List FileInfo} {ct : ChunkTracker L}
    (hnew : ChunkTracker.new havePieces selected fileInfos = .ok ct) (ops : List (Op L)) :
    Always step (Exact havePieces) { chunks := ct } ops ∧
      Moves step (Receives havePieces) { chunks := ct } ops := by
  have hcount := chunksPerPieceOf_of_new hL len.toNat_lt
  have hpos := chunksPerPieceOf_pos_of_new hL len.toNat_lt
  have hinv := inv_new hfit hcount hpos hnew
  constructor
  · have hrun : Always step (Inv havePieces) { chunks := ct } ops :=
      always_of_step (fun _ _ _ h hstep => (h.step hfit hcount hpos hstep).1) hinv ops
    exact hrun.mono fun _ h => h.exact
  · exact moves_of_along
      (fun _ _ _ h _ hstep => h.step hfit hcount hpos hstep) hinv (along_true _ ops)

/-! ### Two pieces of a byte, and too many pieces of two chunks -/

/-- Two pieces of one byte, none of them there. -/
def twoByteTracker : ChunkTracker twoBytePieces where
  queuePieces := zeros _
  chunkStatus := zeros _
  havePieces := zeros _
  selected := zeros _
  perFileBytes := []
  hns := {}

/-- A byte comes twice, its piece is requeued, and it comes again. -/
theorem receipts_exact_twoBytes : new (2 : UInt64).toNat (1 : UInt32).toNat = .ok twoBytePieces ∧
      twoBytePieces.ChunksFit ∧
      ChunkTracker.new (zeros _) (zeros _) [] = .ok twoByteTracker ∧
      Always step (Exact (zeros _)) { chunks := twoByteTracker }
        [.markChunkDownloaded ⟨0, 0, [7]⟩, .markChunkDownloaded ⟨0, 0, [7]⟩,
          .markPieceBrokenIfNotHave 0, .markChunkDownloaded ⟨0, 0, [8]⟩] := by
  refine ⟨?lengths, by decide, ?new, (receipts_exact ?lengths (by decide) ?new _).1⟩
  · decide
  · decide

/-- `2 ^ 31 + 1` pieces of two chunks: the chunks are counted as two. -/
def wrapped : Lengths := ⟨35186519588865, 16385, 2147483648, 16385, 2⟩

/-- With nothing there no chunk is there. -/
lemma computeChunkHaveStatus_zeros (L : Lengths) :
    computeChunkHaveStatus (zeros L.pieceBits) = .ok (zeros L.chunkBits) := by
  have hloop : ∀ (ps : List (ValidPieceIndex L)) (bits : BitField L.chunkBits),
      ps.foldlM (fun bits _ => (pure bits : Except String _)) bits = .ok bits := by
    intro ps
    induction ps with
    | nil => exact fun bits => rfl
    | cons p ps ih => exact fun bits => (List.foldlM_cons ..).trans (ih bits)
  rw [computeChunkHaveStatus, ← hloop (List.finRange L.totalPieces) (zeros L.chunkBits)]
  congr 1
  funext bits p
  rw [get_zeros]
  rfl

/-- **A block of the eleventh of `2 ^ 31 + 1` pieces makes the tracker panic.** -/
theorem not_receipts_exact_wrapped :
    new (35186519588865 : UInt64).toNat (16385 : UInt32).toNat = .ok wrapped ∧
      ∃ ct, ChunkTracker.new (L := wrapped) (zeros _) (zeros _) [] = .ok ct ∧
        ¬ Always step (Exact (zeros _)) { chunks := ct }
          [.markChunkDownloaded ⟨10, 16384, [0]⟩] := by
  refine ⟨by decide, ?_⟩
  have hnew := computeChunkHaveStatus_zeros wrapped
  refine ⟨_, by rw [ChunkTracker.new, hnew]; rfl, fun halways => ?_⟩
  have hexact := halways.2 _ rfl
  exact absurd hexact.1 (by decide)

end Receipts

end Librtbit
