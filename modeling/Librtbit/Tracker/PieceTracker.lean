import Librtbit.Core.Duration
import Librtbit.Machinery.Run
import Librtbit.Tracker.ChunkTracker

/-!
# Tracker/PieceTracker — which peer downloads which piece

`PieceTracker` wraps a `ChunkTracker` with the map of the pieces in flight.  A piece is documented
to be in one state at a time: HAVE, IN_FLIGHT, QUEUED or none of them (`StatesDisjoint`).

The map is a partial function on the valid pieces.  Its iteration order is that of a hash map and
so unspecified; `try_steal` only looks for the entry that has waited longest, and since the clock
readings of a request are arbitrary, so is the entry it finds among those that are old enough.
-/

namespace Librtbit

open Function List

/-! ## Peers -/

inductive IpAddr where
  | v4 (octets : BitVec 32)
  | v6 (segments : BitVec 128)
  deriving DecidableEq

structure SocketAddr where
  ip : IpAddr
  port : UInt16
  deriving DecidableEq

/-- A peer is known by its address. -/
abbrev PeerHandle : Type := SocketAddr

/-- Tracks a piece currently being downloaded. -/
structure InflightPiece where
  peer : PeerHandle
  started : Instant
  deriving DecidableEq

/-- Result of attempting to acquire a piece. -/
inductive AcquireResult (L : Lengths) where
  | reserved (piece : ValidPieceIndex L)
  | stolen (piece : ValidPieceIndex L) (fromPeer : PeerHandle)
  | noneAvailable
  deriving DecidableEq

/-- Parameters for acquiring a piece.  `now` and `elapsedAt` are the clock: the instant a
reservation starts at, and for each threshold and piece the instant its age is read at. -/
structure AcquireRequest (L : Lengths) where
  peer : PeerHandle
  /-- The peer's average piece download time (for steal calculations). -/
  peerAvgTime : Option Duration
  /-- Priority pieces to check first (e.g., for streaming). -/
  priorityPieces : List (ValidPieceIndex L)
  filePriorities : List ℕ
  fileInfos : List FileInfo
  peerHasPiece : ValidPieceIndex L → Bool
  /-- The piece can be stolen (e.g., it is not locked for writing). -/
  canSteal : ValidPieceIndex L → Bool
  now : Instant
  elapsedAt : (threshold : ℕ) → ValidPieceIndex L → Instant

structure PieceTracker (L : Lengths) where
  chunks : ChunkTracker L
  inflight : ValidPieceIndex L → Option InflightPiece

variable {L : Lengths}

namespace PieceTracker

def new (chunks : ChunkTracker L) : PieceTracker L := ⟨chunks, fun _ => none⟩

variable (pt : PieceTracker L)

/-- The pieces in flight. -/
def inflightKeys : List (ValidPieceIndex L) :=
  (List.finRange L.totalPieces).filter fun p => (pt.inflight p).isSome

/-- Give up every piece in flight, as pausing a torrent does. -/
def intoChunks : ChunkTracker L :=
  pt.inflightKeys.foldl ChunkTracker.markPieceBrokenIfNotHave pt.chunks

/-! ## Piece acquisition -/

/-- Reserve a piece: remove from queue, add to inflight. -/
def reservePiece (piece : ValidPieceIndex L) (peer : PeerHandle) (now : Instant) : PieceTracker L :=
  ⟨pt.chunks.reserveNeededPiece piece, update pt.inflight piece (some ⟨peer, now⟩)⟩

/-- The entries a request may take over at a threshold: another peer's, of a piece the requester
has, and old enough. -/
def stealCandidates (req : AcquireRequest L) (minElapsed : Duration) (threshold : ℕ) :
    List (ValidPieceIndex L × PeerHandle × Duration) :=
  ((((List.finRange L.totalPieces).filterMap fun p =>
      (pt.inflight p).map fun info => (p, info)).filter
        fun (_, info) => info.peer ≠ req.peer).filter fun (p, _) => req.peerHasPiece p).map
          (fun (p, info) => (p, info.peer, req.elapsedAt threshold p - info.started))
    |>.filter fun (_, _, elapsed) => minElapsed ≤ elapsed

/-- Try to steal a piece from a slower peer. -/
def trySteal (req : AcquireRequest L) (threshold : ℕ) :
    Option (PieceTracker L × AcquireResult L) := do
  let myAvg ← req.peerAvgTime
  let minElapsed := myAvg.mulF64 threshold
  let (piece, oldPeer, _) ←
    (pt.stealCandidates req minElapsed threshold).argmax fun (_, _, elapsed) => elapsed
  if !req.canSteal piece then none
  else
    some (⟨pt.chunks, update pt.inflight piece (some ⟨req.peer, req.now⟩)⟩, .stolen piece oldPeer)

/-- The first piece a request may reserve: a priority piece that is neither there nor in flight,
then a queued one. -/
def findReservable (req : AcquireRequest L) : Option (ValidPieceIndex L) :=
  (req.priorityPieces.find? fun piece =>
    !pt.chunks.isPieceHave piece && (pt.inflight piece).isNone && req.peerHasPiece piece).or
  ((pt.chunks.iterQueuedPieces req.filePriorities req.fileInfos).find? req.peerHasPiece)

/-- Attempt to acquire a piece: steal from a peer that is 10x slower, else reserve, else steal from
a peer that is 3x slower. -/
def acquirePiece (req : AcquireRequest L) : PieceTracker L × AcquireResult L :=
  match pt.trySteal req 10 with
  | some result => result
  | none =>
    match pt.findReservable req with
    | some piece => (pt.reservePiece piece req.peer req.now, .reserved piece)
    | none =>
      match pt.trySteal req 3 with
      | some result => result
      | none => (pt, .noneAvailable)

/-! ## Piece completion -/

/-- Remove a piece from inflight tracking; returns how long it was in flight at `now`. -/
def takeInflight (piece : ValidPieceIndex L) (now : Instant) : PieceTracker L × Option Duration :=
  match pt.inflight piece with
  | none => (pt, none)
  | some info => (⟨pt.chunks, update pt.inflight piece none⟩, some (now - info.started))

/-- Mark piece as downloaded after successful hash verification. -/
def markPieceHashOk (piece : ValidPieceIndex L) : PieceTracker L :=
  { pt with chunks := pt.chunks.markPieceDownloaded piece }

/-- Mark piece as failed after hash verification failure - requeues the piece. -/
def markPieceHashFailed (piece : ValidPieceIndex L) : PieceTracker L :=
  { pt with chunks := pt.chunks.markPieceBrokenIfNotHave piece }

/-- The pieces a peer has in flight. -/
def piecesOwnedBy (peer : PeerHandle) : List (ValidPieceIndex L) :=
  (List.finRange L.totalPieces).filter fun p => (pt.inflight p).any fun info => info.peer = peer

/-- Release all pieces owned by a peer (on peer death); returns how many there were. -/
def releasePiecesOwnedBy (peer : PeerHandle) : PieceTracker L × ℕ :=
  let piecesToRelease := pt.piecesOwnedBy peer
  (piecesToRelease.foldl (fun pt piece =>
      ⟨pt.chunks.markPieceBrokenIfNotHave piece, update pt.inflight piece none⟩) pt,
    piecesToRelease.length)

def markChunkDownloaded (piece : ReceivedPiece) : PieceTracker L × Option ChunkMarkingResult :=
  let (chunks, result) := pt.chunks.markChunkDownloaded piece
  ({ pt with chunks }, result)

def updateOnlyFiles (fileInfos : List FileInfo) (newOnlyFiles : List ℕ) : PieceTracker L :=
  { pt with chunks := pt.chunks.updateOnlyFiles fileInfos newOnlyFiles }

/-! ## What an acquisition does

One inversion lemma: whichever of its three strategies succeeds, an acquisition moves one piece or
none. -/

/-- The piece is in flight. -/
def isInflight (p : ValidPieceIndex L) : Bool := (pt.inflight p).isSome

lemma isInflight_update (p q : ValidPieceIndex L) (v : Option InflightPiece)
    (chunks : ChunkTracker L) :
    (⟨chunks, update pt.inflight p v⟩ : PieceTracker L).isInflight q
      = if q = p then v.isSome else pt.isInflight q := by
  rcases eq_or_ne q p with rfl | hqp
  · simp [isInflight]
  · simp [isInflight, hqp]

variable {req : AcquireRequest L} {p : ValidPieceIndex L}

lemma mem_stealCandidates {minElapsed threshold old elapsed} :
    (p, old, elapsed) ∈ pt.stealCandidates req minElapsed threshold ↔
      ∃ info, pt.inflight p = some info ∧ info.peer = old ∧ old ≠ req.peer ∧
        req.peerHasPiece p ∧ elapsed = req.elapsedAt threshold p - info.started ∧
        minElapsed ≤ elapsed := by
  simp only [stealCandidates, mem_filter, mem_map, mem_filterMap, mem_finRange,
    true_and, decide_eq_true_eq, Prod.exists, Prod.mk.injEq, Option.map_eq_some_iff]
  constructor
  · rintro ⟨⟨q, info, ⟨⟨⟨q', info', hinfo, rfl, rfl⟩, hne⟩, hhas⟩, rfl, rfl, rfl⟩, hle⟩
    exact ⟨info', hinfo, rfl, hne, hhas, rfl, hle⟩
  · rintro ⟨info, hinfo, rfl, hne, hhas, rfl, hle⟩
    exact ⟨⟨p, info, ⟨⟨⟨p, info, hinfo, rfl, rfl⟩, hne⟩, hhas⟩, rfl, rfl, rfl⟩, hle⟩

/-- **A steal hands one piece in flight over to the requester.** -/
theorem trySteal_eq_some {threshold r} (h : pt.trySteal req threshold = some r) :
    ∃ p info avg, pt.inflight p = some info ∧ info.peer ≠ req.peer ∧
      req.peerHasPiece p ∧ req.canSteal p ∧ req.peerAvgTime = some avg ∧
      avg.mulF64 threshold ≤ req.elapsedAt threshold p - info.started ∧
      r = (⟨pt.chunks, update pt.inflight p (some ⟨req.peer, req.now⟩)⟩, .stolen p info.peer) := by
  simp only [trySteal, Option.bind_eq_bind, Option.bind_eq_some_iff] at h
  obtain ⟨avg, havg, ⟨p, old, elapsed⟩, hmax, hrest⟩ := h
  obtain ⟨info, hinfo, rfl, hne, hhas, rfl, hle⟩ :=
    (pt.mem_stealCandidates).mp (argmax_mem hmax)
  by_cases hcan : req.canSteal p
  · simp only [hcan, Bool.not_true, Bool.false_eq_true, if_false, Option.some.injEq] at hrest
    exact ⟨p, info, avg, hinfo, hne, hhas, hcan, havg, hle, hrest.symm⟩
  · simp [hcan] at hrest

/-- **A reservable piece is at the peer, and is either new to the tracker or queued.** -/
theorem findReservable_eq_some (h : pt.findReservable req = some p) :
    req.peerHasPiece p = true ∧
      ((p ∈ req.priorityPieces ∧ pt.chunks.isPieceHave p = false ∧ pt.isInflight p = false) ∨
        pt.chunks.isQueued p) := by
  rcases Option.or_eq_some_iff.mp h with hprio | ⟨-, hqueue⟩
  · have hp := find?_some hprio
    simp only [Bool.and_eq_true, Bool.not_eq_true', Option.isNone_iff_eq_none] at hp
    obtain ⟨⟨hhave, hnone⟩, hhas⟩ := hp
    exact ⟨hhas, .inl ⟨mem_of_find?_eq_some hprio, hhave, by simp [isInflight, hnone]⟩⟩
  · exact ⟨find?_some hqueue,
      .inr (pt.chunks.mem_iterQueuedPieces.mp (mem_of_find?_eq_some hqueue)).1⟩

/-- **What an acquisition does**: it changes nothing, or reserves a piece, or hands one over. -/
theorem acquirePiece_cases (req : AcquireRequest L) : pt.acquirePiece req = (pt, .noneAvailable) ∨
    (∃ p, pt.trySteal req 10 = none ∧ pt.findReservable req = some p ∧
      pt.acquirePiece req = (pt.reservePiece p req.peer req.now, .reserved p)) ∨
    (∃ p info, pt.inflight p = some info ∧ info.peer ≠ req.peer ∧ req.peerHasPiece p ∧
      req.canSteal p ∧
      pt.acquirePiece req =
        (⟨pt.chunks, update pt.inflight p (some ⟨req.peer, req.now⟩)⟩, .stolen p info.peer)) := by
  have hsteal : ∀ t r, pt.trySteal req t = some r → ∃ p info, pt.inflight p = some info ∧
      info.peer ≠ req.peer ∧ req.peerHasPiece p ∧ req.canSteal p ∧
      r = (⟨pt.chunks, update pt.inflight p (some ⟨req.peer, req.now⟩)⟩, .stolen p info.peer) := by
    intro t r hr
    obtain ⟨p, info, avg, hinfo, hne, hhas, hcan, -, -, rfl⟩ := pt.trySteal_eq_some hr
    exact ⟨p, info, hinfo, hne, hhas, hcan, rfl⟩
  unfold acquirePiece
  cases h10 : pt.trySteal req 10 with
  | some r => exact .inr (.inr (hsteal 10 r h10))
  | none =>
    cases hres : pt.findReservable req with
    | some p => exact .inr (.inl ⟨p, rfl, rfl, rfl⟩)
    | none =>
      cases h3 : pt.trySteal req 3 with
      | some r => exact .inr (.inr (hsteal 3 r h3))
      | none => exact .inl rfl

/-! ## What a release does -/

variable (peer : PeerHandle)

lemma chunks_releasePiecesOwnedBy : (pt.releasePiecesOwnedBy peer).1.chunks
      = (pt.piecesOwnedBy peer).foldl ChunkTracker.markPieceBrokenIfNotHave pt.chunks := by
  unfold releasePiecesOwnedBy
  dsimp only
  generalize pt.piecesOwnedBy peer = ps
  induction ps generalizing pt with
  | nil => rfl
  | cons p ps ih => rw [foldl_cons, ih, foldl_cons]

/-- **A release forgets exactly the peer's pieces in flight.** -/
theorem inflight_releasePiecesOwnedBy (q : ValidPieceIndex L) :
    (pt.releasePiecesOwnedBy peer).1.inflight q
      = (pt.inflight q).filter fun info => info.peer ≠ peer := by
  have hfold : ∀ (ps : List (ValidPieceIndex L)) (pt : PieceTracker L),
      (ps.foldl (fun pt piece => (⟨pt.chunks.markPieceBrokenIfNotHave piece,
        update pt.inflight piece none⟩ : PieceTracker L)) pt).inflight q
      = if q ∈ ps then none else pt.inflight q := by
    intro ps
    induction ps with
    | nil => simp
    | cons p ps ih =>
      intro pt
      rw [foldl_cons, ih]
      rcases eq_or_ne q p with rfl | hqp
      · simp
      · simp [hqp]
  have hmem : q ∈ pt.piecesOwnedBy peer ↔ ∃ info, pt.inflight q = some info ∧ info.peer = peer := by
    simp [piecesOwnedBy, Option.any_eq_true]
  refine (hfold _ pt).trans ?_
  cases hq : pt.inflight q with
  | none => simp
  | some info =>
    by_cases hpeer : info.peer = peer
    · simp [hmem, hq, hpeer, Option.filter]
    · simp [hmem, hq, hpeer, Option.filter]

/-- A released piece is queued unless we have it. -/
lemma isQueued_releasePiecesOwnedBy (q : ValidPieceIndex L) :
    (pt.releasePiecesOwnedBy peer).1.chunks.isQueued q ↔
      pt.chunks.isQueued q ∨
        (∃ info, pt.inflight q = some info ∧ info.peer = peer) ∧
          pt.chunks.isPieceHave q = false := by
  rw [chunks_releasePiecesOwnedBy, ChunkTracker.isQueued_foldl_markPieceBrokenIfNotHave]
  simp [piecesOwnedBy, Option.any_eq_true]

/-- A release takes nothing into flight. -/
lemma isInflight_of_releasePiecesOwnedBy {peer q}
    (h : (pt.releasePiecesOwnedBy peer).1.isInflight q) : pt.isInflight q := by
  rw [isInflight, inflight_releasePiecesOwnedBy] at h
  obtain ⟨info, hinfo⟩ := Option.isSome_iff_exists.mp h
  rw [isInflight, (Option.filter_eq_some_iff.mp hinfo).1]
  rfl

@[simp] lemma havePieces_releasePiecesOwnedBy :
    (pt.releasePiecesOwnedBy peer).1.chunks.havePieces = pt.chunks.havePieces := by
  rw [chunks_releasePiecesOwnedBy, ChunkTracker.havePieces_foldl_markPieceBrokenIfNotHave]

end PieceTracker

end Librtbit
