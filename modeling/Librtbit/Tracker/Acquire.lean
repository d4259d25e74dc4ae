import Librtbit.Tracker.PieceStates

/-!
# Tracker/Acquire — what an acquired piece is

`acquire_piece` tries three strategies over two collections.  `Acquires` says what each of its
answers promises and what it leaves alone, for any predicates and priorities the caller brings;
`acquirePiece_acquires` proves it in every state in which the documented piece states are disjoint.

A steal needs the owner to have had the piece for three times the requester's average.  The product
is computed in doubles, so that is exact below `2 ^ 20` seconds only; above, the age may fall short
of it by the rounding.
-/

namespace Librtbit

open Machinery Function

variable {L : Lengths}

namespace PieceTracker

/-- **Only the owner of `p` changes**: every other entry in flight, every other bit of the queue and
all else the tracker holds stay as they were. -/
structure OwnerChanges (pt : PieceTracker L) (p : ValidPieceIndex L) (peer : PeerHandle)
    (pt' : PieceTracker L) : Prop where
  owner : ∃ started, pt'.inflight p = some ⟨peer, started⟩
  inflight : ∀ q, q ≠ p → pt'.inflight q = pt.inflight q
  queuePieces : ∀ q : ℕ, q ≠ p.1 → pt'.chunks.queuePieces.get q = pt.chunks.queuePieces.get q
  havePieces : pt'.chunks.havePieces = pt.chunks.havePieces
  chunkStatus : pt'.chunks.chunkStatus = pt.chunks.chunkStatus
  selected : pt'.chunks.selected = pt.chunks.selected
  perFileBytes : pt'.chunks.perFileBytes = pt.chunks.perFileBytes
  hns : pt'.chunks.hns = pt.chunks.hns

/-- **What an answer to a request promises**, when a piece may be stolen at the age `minAge` of the
requester's average time. -/
def Acquires (minAge : Duration → Duration) (pt : PieceTracker L) (req : AcquireRequest L)
    (pt' : PieceTracker L) : AcquireResult L → Prop
  | .reserved p => pt.chunks.isPieceHave p = false ∧ pt.inflight p = none ∧
      req.peerHasPiece p = true ∧ pt.OwnerChanges p req.peer pt'
  | .stolen p fromPeer => fromPeer ≠ req.peer ∧ req.peerHasPiece p = true ∧
      req.canSteal p = true ∧ pt'.chunks = pt.chunks ∧ pt.OwnerChanges p req.peer pt' ∧
      ∃ avg started, req.peerAvgTime = some avg ∧ pt.inflight p = some ⟨fromPeer, started⟩ ∧
        ∃ threshold ∈ [10, 3], minAge avg ≤ req.elapsedAt threshold p - started
  | .noneAvailable => pt' = pt ∧
      ∀ p ∈ pt.chunks.iterQueuedPieces req.filePriorities req.fileInfos, req.peerHasPiece p = false

variable {pt : PieceTracker L} {req : AcquireRequest L}

lemma ownerChanges_reservePiece (p : ValidPieceIndex L) (peer : PeerHandle) (now : Instant) :
    pt.OwnerChanges p peer (pt.reservePiece p peer now) where
  owner := ⟨now, update_self ..⟩
  inflight _ hq := update_of_ne hq ..
  queuePieces _ hq := BitField.get_set_of_ne _ hq.symm _
  havePieces := rfl
  chunkStatus := rfl
  selected := rfl
  perFileBytes := rfl
  hns := rfl

variable {result : AcquireResult L} {pt' : PieceTracker L}

/-- A steal at a threshold of three or more. -/
lemma acquires_of_trySteal {threshold} (hthreshold : threshold ∈ [10, 3])
    (h : pt.trySteal req threshold = some (pt', result)) :
    Acquires (·.mulF64 3) pt req pt' result := by
  obtain ⟨p, ⟨fromPeer, started⟩, avg, hinfo, hne, hhas, hcan, havg, hage, hresult⟩ :=
    pt.trySteal_eq_some h
  cases hresult
  have hthree : 3 ≤ threshold := by
    rcases List.mem_pair.mp hthreshold with rfl | rfl <;> omega
  refine ⟨hne, hhas, hcan, rfl, ⟨⟨req.now, update_self ..⟩, fun _ hq => update_of_ne hq ..,
    fun _ _ =>
    rfl, rfl, rfl, rfl, rfl, rfl⟩, avg, started, havg, hinfo, threshold, hthreshold, ?_⟩
  exact (avg.mulF64_mono hthree).trans hage

lemma StatesDisjoint.acquires_reserved (h : pt.StatesDisjoint) {p}
    (hp : pt.findReservable req = some p) (minAge : Duration → Duration) :
    Acquires minAge pt req (pt.reservePiece p req.peer req.now) (.reserved p) := by
  obtain ⟨hhas, hnew⟩ := pt.findReservable_eq_some hp
  obtain ⟨-, hhave, hfly⟩ := h p
  have hfree : pt.chunks.isPieceHave p = false ∧ pt.isInflight p = false := by
    rcases hnew with ⟨-, hnot⟩ | hqueued
    · exact hnot
    · exact ⟨Bool.eq_false_iff.mpr fun hp => hhave ⟨hp, hqueued⟩,
        Bool.eq_false_iff.mpr fun hp => hfly ⟨hp, hqueued⟩⟩
  refine ⟨hfree.1, ?_, hhas, ownerChanges_reservePiece p req.peer req.now⟩
  exact Option.isSome_eq_false_iff.mp hfree.2 |> Option.isNone_iff_eq_none.mp

/-- Below `2 ^ 20` seconds the double product is the product. -/
lemma Acquires.exact (h : Acquires (·.mulF64 3) pt req pt' result)
    (havg : ∀ avg ∈ req.peerAvgTime, avg < 2 ^ 20 * 10 ^ 9) :
    Acquires (3 * ·) pt req pt' result := by
  cases result with
  | reserved p | noneAvailable => exact h
  | stolen p fromPeer =>
    obtain ⟨hne, hhas, hcan, hchunks, howner, avg, started, hreq, hinfo, threshold, hmem, hage⟩ := h
    refine ⟨hne, hhas, hcan, hchunks, howner, avg, started, hreq, hinfo, threshold, hmem, ?_⟩
    exact (Duration.mulF64_three_eq (havg avg hreq)).symm.trans_le hage

/-- **An acquisition keeps its promise**: whatever it answers, it looked at the right pieces and
touched no other one. -/
theorem acquirePiece_acquires (h : pt.StatesDisjoint) (req : AcquireRequest L) :
    Acquires (·.mulF64 3) pt req (pt.acquirePiece req).1 (pt.acquirePiece req).2 ∧
      ((∀ avg ∈ req.peerAvgTime, avg < 2 ^ 20 * 10 ^ 9) →
        Acquires (3 * ·) pt req (pt.acquirePiece req).1 (pt.acquirePiece req).2) := by
  have hacquires : Acquires (·.mulF64 3) pt req (pt.acquirePiece req).1
      (pt.acquirePiece req).2 := by
    unfold acquirePiece
    split
    · next result hsteal => exact acquires_of_trySteal (by decide) hsteal
    split
    · next p hp => exact h.acquires_reserved hp _
    next hnone =>
    split
    · next result hsteal => exact acquires_of_trySteal (by decide) hsteal
    · refine ⟨rfl, fun p hp => ?_⟩
      obtain ⟨-, hqueue⟩ := Option.or_eq_none_iff.mp hnone
      exact Bool.eq_false_iff.mpr (List.find?_eq_none.mp hqueue p hp)
  exact ⟨hacquires, hacquires.exact⟩

/-! ### An average of more than twelve days -/

section SlowPeer

open Lengths ChunkTracker

/-- The one piece is in flight at a peer from the start on. -/
def slowTracker : PieceTracker onePiece where
  chunks := emptyTracker.reserveNeededPiece 0
  inflight _ := some ⟨peerA, 0⟩

/-- Some other peer. -/
def peerB : PeerHandle := ⟨.v4 2, 1⟩

/-- A peer asks whose average is `avg`, when the piece has been in flight for `age`. -/
def stealRequest (avg age : Duration) : AcquireRequest onePiece :=
  { seederRequest peerB oneFile with
    peerAvgTime := some avg
    now := age
    elapsedAt := fun _ _ => age }

/-- A piece that is three seconds old is stolen by a peer with an average of one. -/
theorem acquirePiece_acquires_one_second : slowTracker.StatesDisjoint ∧
      (slowTracker.acquirePiece (stealRequest (10 ^ 9) (3 * 10 ^ 9))).2 = .stolen 0 peerA ∧
      Acquires (3 * ·) slowTracker (stealRequest (10 ^ 9) (3 * 10 ^ 9))
        (slowTracker.acquirePiece (stealRequest (10 ^ 9) (3 * 10 ^ 9))).1 (.stolen 0 peerA) := by
  have hdisjoint : slowTracker.StatesDisjoint := by decide
  have hresult : (slowTracker.acquirePiece (stealRequest (10 ^ 9) (3 * 10 ^ 9))).2
      = .stolen 0 peerA := by decide +kernel
  refine ⟨hdisjoint, hresult, ?_⟩
  have h := (acquirePiece_acquires hdisjoint (stealRequest (10 ^ 9) (3 * 10 ^ 9))).2 ?_
  · rwa [hresult] at h
  · rintro _ ⟨⟩
    decide

/-- **With an average of 1048668.819 seconds a piece is stolen a nanosecond early.** -/
theorem not_acquires_slow_peer : slowTracker.StatesDisjoint ∧
      (slowTracker.acquirePiece (stealRequest 1048668819000000 3146006456999999)).2
        = .stolen 0 peerA ∧
      ¬ Acquires (3 * ·) slowTracker (stealRequest 1048668819000000 3146006456999999)
        (slowTracker.acquirePiece (stealRequest 1048668819000000 3146006456999999)).1
        (.stolen 0 peerA) := by
  refine ⟨by decide, by decide +kernel, ?_⟩
  rintro ⟨-, -, -, -, -, avg, started, ⟨⟩, ⟨⟩, threshold, -, hage⟩
  have hearly : ¬ 3 * 1048668819000000 ≤ 3146006456999999 - 0 := by decide
  exact hearly hage

end SlowPeer

end PieceTracker

end Librtbit
