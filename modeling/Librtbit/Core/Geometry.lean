import Librtbit.Core.Lengths

/-!
# Core/Geometry — pieces and chunks partition the torrent

The formulas of `Lengths` treat the last piece and the last chunk each in its own way.  They agree
(`Lengths.Partition`): the pieces tile the torrent, the chunks of a piece tile the piece, and the
chunks of all the pieces are numbered in order without a gap.

Two numbers must fit 32 bits for that, the pieces and the chunks, and `Lengths.new` checks neither:
`partition_iff_of_new` says that nothing else is needed.
-/

namespace Librtbit.Lengths

open Machinery List

variable (L : Lengths)

/-- The bytes of a piece. -/
def pieceBytes (p : ValidPieceIndex L) : Span :=
  ⟨L.pieceOffset p, L.pieceOffset p + L.pieceLengthOf p⟩

/-- The absolute indices of the chunks of a piece, in order. -/
def absoluteIndices (p : ValidPieceIndex L) : List ℕ :=
  (L.iterChunkInfos p).map ChunkInfo.absoluteIndex

variable {L} in
/-- **The chunks follow each other from `off` to `stop`**, none of them empty. -/
def Consecutive : (off : ℕ) → List (ChunkInfo L) → (stop : ℕ) → Prop
  | off, [], stop => off = stop
  | off, c :: cs, stop => c.offset = off ∧ 0 < c.size ∧ Consecutive (off + c.size) cs stop

/-- **Pieces and chunks partition the torrent.** -/
structure Partition : Prop where
  lt_totalLength : ∀ p b, (L.pieceBytes p).contains b = true → b < L.totalLength
  existsUnique_piece : ∀ b < L.totalLength, ∃! p, (L.pieceBytes p).contains b = true
  consecutive : ∀ p, Consecutive 0 (L.iterChunkInfos p) (L.pieceLengthOf p)
  flatMap_absoluteIndices :
    (List.finRange L.totalPieces).flatMap L.absoluteIndices = List.range L.totalChunks
  toList_chunkRange : ∀ p, (L.chunkRange p).toList = L.absoluteIndices p
  disjoint : ∀ p q, p ≠ q → List.Disjoint (L.chunkRange p).toList (L.chunkRange q).toList

/-- The number of chunks of a torrent: those of the full pieces and those of the rest. -/
def chunkCount (total len : ℕ) : ℕ := total / len * (len ⌈/⌉ chunkSize) + total % len ⌈/⌉ chunkSize

/-! ## The chunks of a piece -/

/-- The `i`-th chunk of a piece of length `len`. -/
def chunkAt (p : ValidPieceIndex L) (len i : ℕ) : ChunkInfo L where
  pieceIndex := p
  chunkIndex := i
  absoluteIndex := asU32 (p.1 * L.chunksPerPiece + i)
  size := min (len - i * chunkSize) chunkSize
  offset := i * chunkSize

/-- Taking a chunk off leaves one chunk less. -/
lemma ceilDiv_chunkSize_eq {remaining} (h : remaining ≠ 0) :
    remaining ⌈/⌉ chunkSize = (remaining - min remaining chunkSize) ⌈/⌉ chunkSize + 1 := by
  have hceil := le_mul_ceilDiv (a := remaining - min remaining chunkSize) (b := chunkSize)
    (by decide)
  obtain ⟨n, hn⟩ : ∃ n, n = (remaining - min remaining chunkSize) ⌈/⌉ chunkSize := ⟨_, rfl⟩
  rw [← hn] at hceil ⊢
  refine ceilDiv_eq_succ ?_ ?_
  · rcases n with _ | k
    · omega
    have hlt := (lt_ceilDiv_iff_mul_lt (a := remaining - min remaining chunkSize)
      (b := chunkSize) (k := k) (by decide)).mp (by omega)
    rw [Nat.mul_succ]
    omega
  · rw [Nat.mul_succ]
    omega

section

variable (p : ValidPieceIndex L)
include p

/-- **`iter_chunk_infos` from chunk `idx` on yields the chunks that are left.** -/
theorem iterChunkInfosFrom_eq (len idx : ℕ) {fuel remaining} (hfuel : remaining ≤ fuel)
    (hrem : remaining = len - idx * chunkSize) :
    L.iterChunkInfosFrom p fuel remaining (idx * chunkSize) idx
      = (List.range' idx (remaining ⌈/⌉ chunkSize)).map (L.chunkAt p len) := by
  induction fuel generalizing remaining idx with
  | zero =>
    obtain rfl : remaining = 0 := Nat.le_zero.mp hfuel
    rfl
  | succ fuel ih =>
    rw [iterChunkInfosFrom]
    split
    · rename_i hzero
      rw [hzero]
      rfl
    · rename_i hne
      rw [ceilDiv_chunkSize_eq hne, range'_succ, map_cons]
      dsimp only
      congr 1
      · rw [hrem, chunkAt]
      by_cases hlast : remaining ≤ chunkSize
      · have hdone : remaining - min remaining chunkSize = 0 := by omega
        rw [hdone]
        cases fuel <;> rfl
      have hstep : idx * chunkSize + min remaining chunkSize = (idx + 1) * chunkSize := by
        rw [Nat.add_mul]
        omega
      have hpos : 0 < min remaining chunkSize := by
        have : 0 < chunkSize := by decide
        omega
      rw [hstep]
      exact ih (idx + 1) (by omega) (by omega)

/-- **A piece is cut into `⌈length / CHUNK_SIZE⌉` chunks.** -/
theorem iterChunkInfos_eq : L.iterChunkInfos p = (List.range (L.pieceLengthOf p ⌈/⌉ chunkSize)).map
      (L.chunkAt p (L.pieceLengthOf p)) := by
  have h := L.iterChunkInfosFrom_eq p (L.pieceLengthOf p) 0 (le_refl (L.pieceLengthOf p))
    (by simp)
  rwa [Nat.zero_mul, ← range_eq_range'] at h

lemma consecutive_range' (len idx : ℕ) {n} (hn : (len - idx * chunkSize) ⌈/⌉ chunkSize = n)
    (hidx : idx * chunkSize ≤ len) :
    Consecutive (idx * chunkSize) ((List.range' idx n).map (L.chunkAt p len)) len := by
  induction n generalizing idx with
  | zero =>
    have hceil := le_mul_ceilDiv (a := len - idx * chunkSize) (b := chunkSize) (by decide)
    rw [hn] at hceil
    exact Nat.le_antisymm hidx (by omega)
  | succ n ih =>
    have hpos : 0 * chunkSize < len - idx * chunkSize := by
      rw [Nat.mul_comm, ← lt_ceilDiv_iff_mul_lt (by decide), hn]
      exact Nat.succ_pos n
    have hsize : 0 < chunkSize := by decide
    refine ⟨rfl, ?_, ?_⟩
    · show 0 < min (len - idx * chunkSize) chunkSize
      omega
    have hlast := ceilDiv_chunkSize_eq (show len - idx * chunkSize ≠ 0 by omega)
    rw [chunkAt]
    by_cases hfull : len - idx * chunkSize ≤ chunkSize
    · have hrest : len - idx * chunkSize - min (len - idx * chunkSize) chunkSize = 0 := by omega
      rw [hrest, zero_ceilDiv] at hlast
      obtain rfl : n = 0 := by omega
      show idx * chunkSize + min (len - idx * chunkSize) chunkSize = len
      omega
    · have hstep : idx * chunkSize + min (len - idx * chunkSize) chunkSize
          = (idx + 1) * chunkSize := by
        rw [Nat.add_mul]
        omega
      rw [hstep]
      refine ih (idx + 1) ?_ (by omega)
      rw [show len - (idx + 1) * chunkSize
        = len - idx * chunkSize - min (len - idx * chunkSize) chunkSize by omega]
      omega

/-- **The chunks of a piece tile the piece**, whatever its length. -/
theorem consecutive_iterChunkInfos : Consecutive 0 (L.iterChunkInfos p) (L.pieceLengthOf p) := by
  have h := L.consecutive_range' p (L.pieceLengthOf p) 0 rfl
    (Nat.zero_mul chunkSize ▸ Nat.zero_le (L.pieceLengthOf p))
  rw [iterChunkInfos_eq, range_eq_range']
  simpa using h

end

/-! ## The bits of the chunks

Each chunk has a bit under its absolute index.  The bits of a piece are a slice of the field of all
the chunks, and the slices of two pieces do not meet, when the chunks can be numbered in 32 bits. -/

/-- **The chunks of the torrent can be numbered in 32 bits.** -/
def ChunksFit : Prop := L.lastPieceId * L.chunksPerPiece + L.chunksPerPieceOf L.lastPiece < 2 ^ 32
  deriving Decidable

variable {L} in
lemma add_chunksPerPieceOf_le {p q : ValidPieceIndex L} (hpq : p.1 < q.1) :
    p.1 * L.chunksPerPiece + L.chunksPerPieceOf p ≤ q.1 * L.chunksPerPiece := by
  have hp : p.1 ≠ L.lastPieceId := by
    have : q.1 < L.lastPieceId + 1 := q.2
    omega
  have hmul := Nat.mul_le_mul_right L.chunksPerPiece (show p.1 + 1 ≤ q.1 from hpq)
  rw [Nat.succ_mul] at hmul
  rwa [chunksPerPieceOf, if_neg hp]

/-- The chunks of a piece end within the chunks of the torrent. -/
lemma add_chunksPerPieceOf_le_last (p : ValidPieceIndex L) :
    p.1 * L.chunksPerPiece + L.chunksPerPieceOf p
      ≤ L.lastPieceId * L.chunksPerPiece + L.chunksPerPieceOf L.lastPiece := by
  rcases (Nat.le_of_lt_succ p.2).lt_or_eq with hlt | heq
  · exact (add_chunksPerPieceOf_le (q := L.lastPiece) hlt).trans (Nat.le_add_right _ _)
  · obtain rfl : p = L.lastPiece := Fin.ext heq
    exact le_refl _

variable {total len : ℕ}

lemma chunksPerPieceOf_of_new {L} (h : new total len = .ok L)
    (hlen : len < 2 ^ 32) (p : ValidPieceIndex L) :
    L.chunksPerPieceOf p = L.pieceLengthOf p ⌈/⌉ chunkSize := by
  have hchunks : L.chunksPerPiece = L.pieceLength ⌈/⌉ chunkSize := by
    obtain ⟨-, -, -, rfl⟩ := new_eq_ok h
    have hle : len ⌈/⌉ chunkSize ≤ len :=
      (ceilDiv_le_iff_le_mul (by decide)).mpr (Nat.le_mul_of_pos_left _ (by decide))
    exact asU32_of_lt (hle.trans_lt hlen)
  rw [chunksPerPieceOf, pieceLengthOf]
  split
  · rfl
  · exact hchunks

/-- Every piece of a geometry `new` made has a chunk. -/
lemma chunksPerPieceOf_pos_of_new {L} (h : new total len = .ok L)
    (hlen : len < 2 ^ 32) (p : ValidPieceIndex L) : 0 < L.chunksPerPieceOf p := by
  have hpos : 0 < L.pieceLengthOf p := by
    obtain ⟨-, hpos, -, rfl⟩ := new_eq_ok h
    have hmod := Nat.mod_lt total hpos
    have hlast : 0 < asU32 (if total % len = 0 then len else total % len) := by
      rw [asU32_of_lt (by split <;> omega)]
      split <;> omega
    rw [pieceLengthOf]
    dsimp only
    split
    · exact hlast
    · exact hpos
  rw [chunksPerPieceOf_of_new h hlen, lt_ceilDiv_iff_mul_lt (by decide)]
  exact hpos

namespace ChunksFit

variable {L} (h : L.ChunksFit)

include h

variable (p : ValidPieceIndex L)

/-- `chunk_range` when nothing is cut off. -/
lemma chunkRange_eq :
    L.chunkRange p = ⟨p.1 * L.chunksPerPiece, p.1 * L.chunksPerPiece + L.chunksPerPieceOf p⟩ := by
  have hend := L.add_chunksPerPieceOf_le_last p
  have hfit : L.lastPieceId * L.chunksPerPiece + L.chunksPerPieceOf L.lastPiece < 2 ^ 32 := h
  rw [chunkRange, asU32_of_lt (by omega), asU32_of_lt (by omega)]

/-- The bits of a piece are a slice of the field. -/
lemma stop_chunkRange_le : (L.chunkRange p).stop ≤ L.chunkBits := by
  have hend := L.add_chunksPerPieceOf_le_last p
  have hceil := le_mul_ceilDiv (a := L.totalChunks) (b := 8) (by norm_num)
  have htotal : L.totalChunks
      = L.lastPieceId * L.chunksPerPiece + L.chunksPerPieceOf L.lastPiece := asU32_of_lt h
  rw [h.chunkRange_eq, chunkBits, chunkBitfieldBytes]
  dsimp only
  omega

/-- **No chunk belongs to two pieces.** -/
theorem eq_of_contains {p q i}
    (hp : (L.chunkRange p).contains i) (hq : (L.chunkRange q).contains i) :
    p = q := by
  rw [h.chunkRange_eq, Span.contains_iff] at hp hq
  dsimp only at hp hq
  by_contra hpq
  rcases Nat.lt_or_gt_of_ne (fun he => hpq (Fin.ext he)) with hlt | hlt
  all_goals
    have := add_chunksPerPieceOf_le hlt
    omega

end ChunksFit

/-! ## All the chunks -/

/-- Blocks of `n` numbers each, one after the other. -/
lemma flatMap_range'_mul (k n : ℕ) :
    (List.range k).flatMap (fun p => List.range' (p * n) n) = List.range (k * n) := by
  induction k with
  | zero => simp
  | succ k ih =>
    rw [range_succ, flatMap_append, ih, flatMap_singleton, Nat.add_mul,
      Nat.one_mul, range_add, range'_eq_map_range]

namespace Exact

variable {L} (h : L.Exact)

include h

/-- A piece has the chunks `chunks_per_piece` says. -/
lemma chunksPerPieceOf_eq (p : ValidPieceIndex L) :
    L.chunksPerPieceOf p = L.pieceLengthOf p ⌈/⌉ chunkSize := by
  rw [chunksPerPieceOf, pieceLengthOf]
  split
  · rfl
  · exact h.chunksPerPiece_eq

/-- No piece has more chunks than a full one. -/
lemma lastPieceLength_le : L.lastPieceLength ≤ L.pieceLength := by
  have hend := h.lastPieceLength_eq
  have hceil := le_mul_ceilDiv (a := L.totalLength) h.pieceLength_pos
  rw [← h.totalPieces_eq, totalPieces, Nat.mul_add, Nat.mul_comm] at hceil
  omega

/-- **The number of chunks, from the total and the piece length.** -/
theorem chunkCount_eq : chunkCount L.totalLength L.pieceLength
    = L.lastPieceId * L.chunksPerPiece + L.lastPieceLength ⌈/⌉ chunkSize := by
  have hend := h.lastPieceLength_eq
  have hle := h.lastPieceLength_le
  rw [chunkCount, ← h.chunksPerPiece_eq, ← hend]
  rcases hle.lt_or_eq with hlt | heq
  · rw [Nat.add_comm _ L.lastPieceLength, Nat.add_mul_div_right _ _ h.pieceLength_pos,
      Nat.div_eq_of_lt hlt, Nat.zero_add, Nat.add_mul_mod_self_right, Nat.mod_eq_of_lt hlt]
  · rw [heq, ← Nat.succ_mul, Nat.mul_div_cancel _ h.pieceLength_pos, Nat.mul_mod_left,
      zero_ceilDiv, ← h.chunksPerPiece_eq, Nat.add_zero, Nat.succ_mul]

lemma absoluteIndices_eq_map (p : ValidPieceIndex L) : L.absoluteIndices p
      = (List.range' (p.1 * L.chunksPerPiece) (L.chunksPerPieceOf p)).map asU32 := by
  rw [absoluteIndices, iterChunkInfos_eq, map_map, h.chunksPerPieceOf_eq,
    range'_eq_map_range, map_map]
  rfl

/-- **The chunks of all pieces are numbered in order**, up to the cut to 32 bits. -/
theorem flatMap_absoluteIndices_eq : (List.finRange L.totalPieces).flatMap L.absoluteIndices
      = (List.range (chunkCount L.totalLength L.pieceLength)).map asU32 := by
  obtain ⟨block, hblock⟩ : ∃ block, block = fun i =>
      List.range' (i * L.chunksPerPiece)
        (if i = L.lastPieceId then L.lastPieceLength ⌈/⌉ chunkSize else L.chunksPerPiece) :=
    ⟨_, rfl⟩
  have hfull : (List.range L.lastPieceId).flatMap block
      = List.range (L.lastPieceId * L.chunksPerPiece) := by
    rw [← flatMap_range'_mul]
    refine flatMap_congr fun i hi => ?_
    rw [hblock]
    dsimp only
    rw [if_neg (mem_range.mp hi).ne]
  calc (List.finRange L.totalPieces).flatMap L.absoluteIndices
      = ((List.finRange L.totalPieces).flatMap fun p => (block p.1).map asU32) := by
        refine flatMap_congr fun p _ => ?_
        rw [h.absoluteIndices_eq_map, hblock, chunksPerPieceOf]
    _ = ((List.range L.totalPieces).flatMap block).map asU32 := by
        rw [← map_coe_finRange_eq_range, flatMap_map, map_flatMap]
    _ = (List.range (chunkCount L.totalLength L.pieceLength)).map asU32 := by
        rw [totalPieces, range_succ, flatMap_append, hfull, flatMap_singleton,
          h.chunkCount_eq, range_add, hblock]
        dsimp only
        rw [if_pos rfl, range'_eq_map_range]

/-- The chunks of a torrent, counted by its geometry. -/
lemma chunksFit_iff : L.ChunksFit ↔ chunkCount L.totalLength L.pieceLength < 2 ^ 32 := by
  rw [ChunksFit, h.chunkCount_eq, chunksPerPieceOf,
    if_pos (show L.lastPiece.1 = L.lastPieceId from rfl)]

variable (hcount : chunkCount L.totalLength L.pieceLength < 2 ^ 32)

include hcount

lemma totalChunks_eq : L.totalChunks = chunkCount L.totalLength L.pieceLength := by
  rw [totalChunks, chunksPerPieceOf, if_pos (show L.lastPiece.1 = L.lastPieceId from rfl),
    ← h.chunkCount_eq, asU32_of_lt hcount]

lemma toList_chunkRange_eq (p : ValidPieceIndex L) :
    (L.chunkRange p).toList = L.absoluteIndices p := by
  have hfit : L.ChunksFit := h.chunksFit_iff.mpr hcount
  have hend := L.add_chunksPerPieceOf_le_last p
  rw [hfit.chunkRange_eq, h.absoluteIndices_eq_map, Span.toList, Span.len]
  rw [Nat.add_sub_cancel_left]
  refine ((map_congr_left fun i hi => ?_).trans (map_id _)).symm
  have hi' := (mem_range'_1.mp hi).2
  exact asU32_of_lt (lt_of_lt_of_le hi' (hend.trans hfit.le))

lemma disjoint_chunkRange {p q} (hpq : p ≠ q) :
    List.Disjoint (L.chunkRange p).toList (L.chunkRange q).toList := by
  have hfit : L.ChunksFit := h.chunksFit_iff.mpr hcount
  intro i hp hq
  rw [Span.mem_toList, ← Span.contains_iff] at hp hq
  exact hpq (hfit.eq_of_contains hp hq)

end Exact

/-! ## The pieces -/

/-- **In an exact geometry every byte lies in one piece.** -/
theorem Exact.existsUnique_contains {L : Lengths} (h : L.Exact) {b : ℕ} (hb : b < L.totalLength) :
    ∃! p, (L.pieceBytes p).contains b := by
  have hdiv := Nat.div_add_mod b L.pieceLength
  have hmod := Nat.mod_lt b h.pieceLength_pos
  have hlt : b / L.pieceLength < L.totalPieces := by
    rw [h.totalPieces_eq, lt_ceilDiv_iff_mul_lt h.pieceLength_pos]
    omega
  refine ⟨⟨b / L.pieceLength, hlt⟩, ?_, fun q hq => Fin.ext ?_⟩
  · dsimp only
    rw [Span.contains_iff, pieceBytes, h.pieceOffset_add_pieceLengthOf, pieceOffset,
      Nat.add_mul, Nat.one_mul, Nat.mul_comm]
    dsimp only
    omega
  · dsimp only at hq ⊢
    rw [Span.contains_iff, pieceBytes, h.pieceOffset_add_pieceLengthOf] at hq
    have hlo := Nat.le_div_iff_mul_le h.pieceLength_pos |>.mpr hq.1
    have hhi := Nat.div_lt_iff_lt_mul h.pieceLength_pos |>.mpr
      (lt_of_lt_of_le hq.2 (Nat.min_le_left _ _))
    omega

lemma Exact.partition {L : Lengths} (h : L.Exact)
    (hcount : chunkCount L.totalLength L.pieceLength < 2 ^ 32) : L.Partition where
  lt_totalLength p b hb := by
    rw [Span.contains_iff, pieceBytes, h.pieceOffset_add_pieceLengthOf] at hb
    exact lt_of_lt_of_le hb.2 (Nat.min_le_right _ _)
  existsUnique_piece _ hb := h.existsUnique_contains hb
  consecutive p := L.consecutive_iterChunkInfos p
  flatMap_absoluteIndices := by
    rw [h.flatMap_absoluteIndices_eq, h.totalChunks_eq hcount]
    refine (map_congr_left fun i hi => ?_).trans (map_id _)
    have := mem_range.mp hi
    exact asU32_of_lt (by omega)
  toList_chunkRange p := h.toList_chunkRange_eq hcount p
  disjoint _ _ hpq := h.disjoint_chunkRange hcount hpq

/-! ## What `Lengths::new` accepts -/

/-- A piece count of 33 bits or more leaves the last byte of the torrent to no piece. -/
lemma not_partition_of_new {L} (h : new total len = .ok L)
    (hcount : ¬ total ⌈/⌉ len < 2 ^ 32) : ¬ L.Partition := by
  intro hpart
  obtain ⟨htotal, hlen, hpieces, rfl⟩ := new_eq_ok h
  obtain ⟨p, hp, -⟩ := hpart.existsUnique_piece (total - 1) (show total - 1 < total by omega)
  -- the pieces end before `asU32 count` times the piece length
  obtain ⟨count, hc⟩ : ∃ count, count = total ⌈/⌉ len := ⟨_, rfl⟩
  have hcut : asU32 count + 2 ^ 32 ≤ count := by
    rw [asU32]
    omega
  have hend : p.1 + 1 ≤ asU32 count := by
    have hp := p.2
    dsimp only [totalPieces] at hp
    rw [hc]
    omega
  have hlast : asU32 (if total % len = 0 then len else total % len) ≤ len := by
    refine (Nat.mod_le _ _).trans ?_
    have := Nat.mod_lt total hlen
    split <;> omega
  rw [Span.contains_iff, pieceBytes, pieceOffset, pieceLengthOf] at hp
  dsimp only at hp
  have hle : p.1 * len + len ≤ (count - 1) * len := by
    rw [← Nat.succ_mul]
    exact Nat.mul_le_mul_right _ (by omega)
  have hreal : len * (count - 1) < total := by
    rw [← lt_ceilDiv_iff_mul_lt hlen]
    omega
  rw [Nat.mul_comm] at hreal
  split at hp <;> omega

/-- **Pieces and chunks partition the torrent exactly when their numbers fit 32 bits.** -/
theorem partition_iff_of_new {total : UInt64} {len : UInt32} {L : Lengths}
    (h : new total.toNat len.toNat = .ok L) :
    L.Partition ↔ total.toNat ⌈/⌉ len.toNat < 2 ^ 32 ∧
      chunkCount total.toNat len.toNat < 2 ^ 32 := by
  constructor
  · intro hpart
    have hcount : total.toNat ⌈/⌉ len.toNat < 2 ^ 32 := by
      by_contra hcount
      exact not_partition_of_new h hcount hpart
    have hexact := exact_of_new h len.toNat_lt hcount
    have htotal := totalLength_of_new h
    have hlen := pieceLength_of_new h
    have hlength := congrArg List.length
      (hexact.flatMap_absoluteIndices_eq.symm.trans hpart.flatMap_absoluteIndices)
    rw [length_map, length_range, length_range, htotal, hlen] at hlength
    refine ⟨hcount, ?_⟩
    rw [hlength]
    exact Nat.mod_lt _ (by norm_num)
  · rintro ⟨hcount, hchunks⟩
    have hexact := exact_of_new h len.toNat_lt hcount
    rw [← totalLength_of_new h, ← pieceLength_of_new h] at hchunks
    exact hexact.partition hchunks

/-- A torrent of two pieces of one chunk each is partitioned. -/
theorem partition_twoPieces : new (32768 : UInt64).toNat (16384 : UInt32).toNat = .ok twoPieces ∧
    twoPieces.Partition := by
  refine ⟨?new, (partition_iff_of_new ?new).mpr (by decide)⟩
  decide

/-- **A torrent of `2 ^ 32 + 1` pieces of one byte is accepted with a single piece**, and its second
byte lies in none. -/
theorem not_partition_truncated :
    new (4294967297 : UInt64).toNat (1 : UInt32).toNat = .ok ⟨4294967297, 1, 0, 1, 1⟩ ∧
      ¬ (⟨4294967297, 1, 0, 1, 1⟩ : Lengths).Partition := by
  refine ⟨by decide, fun hpart => ?_⟩
  obtain ⟨p, hp, -⟩ := hpart.existsUnique_piece 1 (by decide)
  revert p
  decide

/-! ## Received blocks -/

section

variable {L} {p : ValidPieceIndex L} {begin size : ℕ} {c : ChunkInfo L}

/-- **What `chunk_info_from_received_data` accepts.** -/
theorem chunkInfoFromReceivedData_eq_some : L.chunkInfoFromReceivedData p begin size = some c ↔
    ∃ i < L.chunksPerPieceOf p, L.chunkSizeOf p i = some size ∧ begin = i * chunkSize ∧
      c = ⟨p, i, asU32 (p.1 * L.chunksPerPiece + i), size, begin⟩ := by
  rw [chunkInfoFromReceivedData, chunkOffsetInPiece, Nat.mul_comm L.chunksPerPiece]
  constructor
  · intro h
    obtain ⟨expected, hsize, h⟩ := Option.bind_eq_some_iff.mp h
    obtain ⟨offset, hoffset, h⟩ := Option.bind_eq_some_iff.mp h
    grind
  · rintro ⟨i, hi, hsize, rfl, rfl⟩
    have hdiv : i * chunkSize / chunkSize = i := Nat.mul_div_cancel _ (by decide)
    simp [hdiv, hsize, hi.not_ge]

/-- `chunk_size` of a piece that is not empty. -/
lemma chunkSizeOf_eq_some (hpos : 0 < L.pieceLengthOf p) {i} :
    L.chunkSizeOf p i = some size ↔ i < L.pieceLengthOf p ⌈/⌉ chunkSize ∧
      min (L.pieceLengthOf p - i * chunkSize) chunkSize = size := by
  obtain ⟨k, hk, hlast⟩ := exists_lastElementSize (show 0 < chunkSize by decide) hpos
  have hmod := Nat.mod_lt (L.pieceLengthOf p) (show 0 < chunkSize by decide)
  rw [chunkSizeOf, hk, Nat.add_sub_cancel]
  rcases lt_trichotomy i k with hi | rfl | hi
  · have hfull : (i + 1) * chunkSize ≤ k * chunkSize := Nat.mul_le_mul_right _ hi
    rw [Nat.succ_mul] at hfull
    rw [if_pos hi, Option.some_inj, Nat.min_eq_right (by omega)]
    exact (and_iff_right (by omega)).symm
  · have hmin : min (L.pieceLengthOf p - i * chunkSize) chunkSize =
        if L.pieceLengthOf p % chunkSize = 0 then chunkSize else L.pieceLengthOf p % chunkSize := by
      split at hlast <;> split <;> omega
    simp [hmin]
  · rw [if_neg (by omega), if_neg (by omega)]
    exact iff_of_false nofun fun h => by omega

end

/-- **A block is accepted exactly when it is one we would ask for**, and as that chunk, the number
of which is not cut off. -/
def ReceivesChunks (p : ValidPieceIndex L) : Prop :=
  (∀ (begin size : UInt32) (c : ChunkInfo L),
    L.chunkInfoFromReceivedData p begin.toNat size.toNat = some c ↔
      c ∈ L.iterChunkInfos p ∧ c.offset = begin.toNat ∧ c.size = size.toNat) ∧
  ∀ c ∈ L.iterChunkInfos p, c.absoluteIndex = p.1 * L.chunksPerPiece + c.chunkIndex

lemma receivesChunks_iff {p} (hpos : 0 < L.pieceLengthOf p)
    (hchunks : L.chunksPerPieceOf p = L.pieceLengthOf p ⌈/⌉ chunkSize) :
    L.ReceivesChunks p ↔ p.1 * L.chunksPerPiece + L.chunksPerPieceOf p ≤ 2 ^ 32 := by
  rw [ReceivesChunks, iterChunkInfos_eq, and_iff_right]
  · have hsome : 0 < L.pieceLengthOf p ⌈/⌉ chunkSize := by
      rwa [lt_ceilDiv_iff_mul_lt (by decide), Nat.mul_zero]
    simp only [forall_mem_map, mem_range, chunkAt, asU32]
    constructor
    · intro h
      have := h (L.pieceLengthOf p ⌈/⌉ chunkSize - 1) (by omega)
      omega
    · intro h i hi
      omega
  · intro begin size c
    simp only [chunkInfoFromReceivedData_eq_some, chunkSizeOf_eq_some hpos, hchunks,
      mem_map, mem_range]
    constructor
    · rintro ⟨i, hi, ⟨-, hsize⟩, hbegin, rfl⟩
      exact ⟨⟨i, hi, by rw [chunkAt, hsize, hbegin]⟩, rfl, rfl⟩
    · rintro ⟨⟨i, hi, rfl⟩, hbegin, hsize⟩
      exact ⟨i, hi, ⟨hi, hsize⟩, hbegin.symm, by rw [chunkAt, ← hsize, ← hbegin]; rfl⟩

/-- **Blocks**: whatever geometry `new` accepts, a block of a piece is accepted exactly when it is
one we would ask for, and no number overflows, exactly when the chunks up to this piece can be
numbered in 32 bits. -/
theorem receivesChunks_iff_of_new {total : UInt64} {len : UInt32} {L : Lengths}
    (h : new total.toNat len.toNat = .ok L) (p : ValidPieceIndex L) :
    L.ReceivesChunks p ↔ p.1 * L.chunksPerPiece + L.chunksPerPieceOf p ≤ 2 ^ 32 := by
  have hchunks := chunksPerPieceOf_of_new h len.toNat_lt p
  have hpos := chunksPerPieceOf_pos_of_new h len.toNat_lt p
  rw [hchunks, lt_ceilDiv_iff_mul_lt (by decide)] at hpos
  exact L.receivesChunks_iff hpos hchunks

theorem receivesChunks_twoPieces :
    new (32768 : UInt64).toNat (16384 : UInt32).toNat = .ok twoPieces ∧
      twoPieces.ReceivesChunks 1 := by
  refine ⟨?new, (receivesChunks_iff_of_new ?new 1).mpr (by decide)⟩
  decide

/-- The last of `2 ^ 31 + 1` pieces of two chunks each: its chunks are numbered as those of the
first. -/
theorem not_receivesChunks_last :
    new (35186519588865 : UInt64).toNat (16385 : UInt32).toNat =
        .ok ⟨35186519588865, 16385, 2147483648, 16385, 2⟩ ∧
      ¬ (⟨35186519588865, 16385, 2147483648, 16385, 2⟩ : Lengths).ReceivesChunks
        ⟨2147483648, Nat.lt_succ_self _⟩ :=
  ⟨by decide +kernel, (receivesChunks_iff _ (by decide) (by decide +kernel)).not.mpr (by decide)⟩

end Librtbit.Lengths
