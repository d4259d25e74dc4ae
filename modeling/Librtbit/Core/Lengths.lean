import Librtbit.Machinery.BitField
import Librtbit.Machinery.Outcome
import Mathlib.Tactic.Ring
import Mathlib.Tactic.Linarith

/-!
# Core/Lengths — pieces and chunks of a torrent

`Lengths` is the geometry every index computation reads: the total length, the length of a piece,
the id and the length of the last (possibly shorter) piece.  `Lengths.new` is the only way the
program builds one, and it narrows the piece count to 32 bits without looking; `Lengths.Exact`
says that nothing was lost, and `exact_of_new` when that is so.

Integers are natural numbers.  A cast to `u32` keeps the low bits (`asU32`), and so do products and
sums of chunk numbers, as in a build without overflow checks.  `new` alone is that of a build
with them, and stops at a piece count that is cut to zero.
-/

namespace Librtbit

open Machinery

/-- `constants::CHUNK_SIZE`. -/
def chunkSize : ℕ := 16384

/-- `librtbit_core::Error`, the constructors the modelled functions return. -/
inductive Error where
  | badTorrentMultiFileEmpty
  | badTorrentFileNoName
  | badTorrentBothSingleAndMultiFile
  | badTorrentPathTraversal
  | badTorrentSeparatorInName
  | badTorrentZeroLength
  | badTorrentNoFiles
  | badTorrentDuplicateFilenames
  | v2OnlyNotSupported
  deriving DecidableEq

/-- `last_element_size`: the size of the last of the parts of size `pieceLength`. -/
def lastElementSize {ε : Type} (totalLength pieceLength : ℕ) : Outcome ε ℕ := do
  let rem ← checkedRem totalLength pieceLength
  if rem = 0 then return pieceLength else return rem

/-- The geometry of a torrent. -/
structure Lengths where
  /-- The total length of the torrent in bytes. -/
  totalLength : ℕ
  /-- The length in bytes of each piece (except the last one). -/
  pieceLength : ℕ
  lastPieceId : ℕ
  lastPieceLength : ℕ
  /-- How many chunks there are per normal piece (except the last piece). -/
  chunksPerPiece : ℕ
  deriving DecidableEq

namespace Lengths

/-- `Lengths::new`. -/
def new (totalLength pieceLength : ℕ) : Outcome Error Lengths :=
  if totalLength = 0 then .err .badTorrentZeroLength
  else do
    let totalPieces ← asU32 <$> divCeil totalLength pieceLength
    let chunksPerPiece ← asU32 <$> divCeil pieceLength chunkSize
    let lastPieceId ← checkedSub totalPieces 1
    let lastPieceLength ← asU32 <$> lastElementSize totalLength pieceLength
    return { totalLength, pieceLength, lastPieceId, lastPieceLength, chunksPerPiece }

variable (L : Lengths)

def totalPieces : ℕ := L.lastPieceId + 1

/-- How many bytes are required to store a bitfield with one bit for each piece. -/
def pieceBitfieldBytes : ℕ := L.totalPieces ⌈/⌉ 8

/-- The number of bits of such a bitfield. -/
def pieceBits : ℕ := L.pieceBitfieldBytes * 8

end Lengths

/-- A piece index that `validate_piece_index` let through. -/
abbrev ValidPieceIndex (L : Lengths) : Type := Fin L.totalPieces

instance (L : Lengths) : NeZero L.totalPieces := ⟨Nat.succ_ne_zero _⟩

/-- One bit for each piece, padded to whole bytes. -/
abbrev PieceBits (L : Lengths) : Type := BitField L.pieceBits

structure PieceInfo (L : Lengths) where
  pieceIndex : ValidPieceIndex L
  len : ℕ

/-- A chunk (block) of a piece, as requested from and sent by peers. -/
structure ChunkInfo (L : Lengths) where
  pieceIndex : ValidPieceIndex L
  /-- Index of the chunk within the piece. -/
  chunkIndex : ℕ
  /-- Absolute chunk index if the first chunk of the first piece was 0. -/
  absoluteIndex : ℕ
  size : ℕ
  /-- Offset of the chunk in bytes within the piece. -/
  offset : ℕ
  deriving DecidableEq

instance lawfulBEqChunkInfo {L : Lengths} : LawfulBEq (ChunkInfo L) := inferInstance

namespace Lengths

variable (L : Lengths)

def validatePieceIndex (index : ℕ) : Option (ValidPieceIndex L) :=
  if h : index ≤ L.lastPieceId then some ⟨index, Nat.lt_succ_of_le h⟩ else none

/-- `piece_length(index)`. -/
def pieceLengthOf (index : ValidPieceIndex L) : ℕ :=
  if index.1 = L.lastPieceId then L.lastPieceLength else L.pieceLength

def pieceOffset (index : ValidPieceIndex L) : ℕ := index.1 * L.pieceLength

/-- `chunks_per_piece(index)`. -/
def chunksPerPieceOf (index : ValidPieceIndex L) : ℕ :=
  if index.1 = L.lastPieceId then L.lastPieceLength ⌈/⌉ chunkSize else L.chunksPerPiece

/-- `last_piece_id()`. -/
def lastPiece : ValidPieceIndex L := ⟨L.lastPieceId, Nat.lt_succ_self _⟩

def totalChunks : ℕ := asU32 (L.lastPieceId * L.chunksPerPiece + L.chunksPerPieceOf L.lastPiece)

def chunkBitfieldBytes : ℕ := L.totalChunks ⌈/⌉ 8

/-- The number of bits of a bitfield with one bit for each chunk. -/
def chunkBits : ℕ := L.chunkBitfieldBytes * 8

def iterPieceInfos : List (PieceInfo L) :=
  (List.finRange L.totalPieces).map fun idx => ⟨idx, L.pieceLengthOf idx⟩

/-- The pieces a file at `offsetBytes` of length `len` lies in. -/
def iterPiecesWithinOffset (offsetBytes len : ℕ) : Span :=
  let offsetBytes := min offsetBytes L.totalLength
  let endBytes := min (offsetBytes + len) L.totalLength
  let startPieceId := asU32 (offsetBytes / L.pieceLength)
  let endPieceId :=
    if endBytes = offsetBytes then startPieceId else asU32 (endBytes ⌈/⌉ L.pieceLength)
  ⟨startPieceId, endPieceId⟩

/-- The absolute indices of the chunks of a piece. -/
def chunkRange (index : ValidPieceIndex L) : Span :=
  let start := asU32 (index.1 * L.chunksPerPiece)
  ⟨start, asU32 (start + L.chunksPerPieceOf index)⟩

def chunkOffsetInPiece (pieceIndex : ValidPieceIndex L) (chunkIndex : ℕ) : Option ℕ :=
  if chunkIndex ≥ L.chunksPerPieceOf pieceIndex then none else some (chunkIndex * chunkSize)

/-- `chunk_size(piece_index, chunk_index)`. -/
def chunkSizeOf (pieceIndex : ValidPieceIndex L) (chunkIndex : ℕ) : Option ℕ :=
  let pieceLength := L.pieceLengthOf pieceIndex
  let lastChunkId := pieceLength ⌈/⌉ chunkSize - 1
  if chunkIndex < lastChunkId then some chunkSize
  else if chunkIndex = lastChunkId then
    some (if pieceLength % chunkSize = 0 then chunkSize else pieceLength % chunkSize)
  else none

/-- The chunk a received block is, if it is one of the blocks a piece is cut into. -/
def chunkInfoFromReceivedData (pieceIndex : ValidPieceIndex L) (begin size : ℕ) :
    Option (ChunkInfo L) := do
  let index := begin / chunkSize
  let expectedChunkSize ← L.chunkSizeOf pieceIndex index
  let offset ← L.chunkOffsetInPiece pieceIndex index
  if offset ≠ begin then none
  else if expectedChunkSize ≠ size then none
  else
    let absoluteIndex := asU32 (L.chunksPerPiece * pieceIndex.1 + index)
    some { pieceIndex, chunkIndex := index, absoluteIndex, size, offset }

/-- `iter_chunk_infos` from chunk `idx` on; `remaining` bytes of the piece are left, and `fuel`
bounds the number of chunks. -/
def iterChunkInfosFrom (index : ValidPieceIndex L) :
    (fuel remaining offset idx : ℕ) → List (ChunkInfo L)
  | 0, _, _, _ => []
  | fuel + 1, remaining, offset, idx =>
    if remaining = 0 then []
    else
      let s := min remaining chunkSize
      { pieceIndex := index, chunkIndex := idx
        absoluteIndex := asU32 (index.1 * L.chunksPerPiece + idx), size := s, offset } ::
        iterChunkInfosFrom index fuel (remaining - s) (offset + s) (idx + 1)

/-- The chunks of a piece, in order. -/
def iterChunkInfos (index : ValidPieceIndex L) : List (ChunkInfo L) :=
  L.iterChunkInfosFrom index (L.pieceLengthOf index) (L.pieceLengthOf index) 0 0

/-- How many bytes of the given piece are present in the file at `fileOffset` of length
`fileLen`. -/
def sizeOfPieceInFile (pieceId fileOffset fileLen : ℕ) : ℕ :=
  let pieceOffset := pieceId * L.pieceLength
  let pieceEnd := pieceOffset + L.pieceLength
  let fileEnd := fileOffset + fileLen
  min fileEnd pieceEnd - max fileOffset pieceOffset

/-- A torrent of one piece of one chunk. -/
def onePiece : Lengths := ⟨16384, 16384, 0, 16384, 1⟩

/-- A torrent of two pieces of one chunk each. -/
def twoPieces : Lengths := ⟨32768, 16384, 1, 16384, 1⟩

/-- A torrent of two pieces of one byte each. -/
def twoBytePieces : Lengths := ⟨2, 1, 1, 1, 1⟩

example : new 16384 16384 = .ok onePiece ∧ new 32768 16384 = .ok twoPieces ∧
    new 2 1 = .ok twoBytePieces := by decide

/-! ## Valid indices -/

lemma totalPieces_le_pieceBits : L.totalPieces ≤ L.pieceBits := by
  have := le_mul_ceilDiv (a := L.totalPieces) (b := 8) (by norm_num)
  rw [pieceBits, pieceBitfieldBytes]
  omega

/-- A valid piece has a bit in every piece bitfield. -/
lemma lt_pieceBits {L} (p : ValidPieceIndex L) : p.1 < L.pieceBits :=
  lt_of_lt_of_le p.2 L.totalPieces_le_pieceBits

@[simp] lemma validatePieceIndex_val (p : ValidPieceIndex L) :
    L.validatePieceIndex p.1 = some p := by
  have : p.1 ≤ L.lastPieceId := Nat.le_of_lt_succ p.2
  simp [validatePieceIndex, this]

lemma validatePieceIndex_eq_some {i p} :
    L.validatePieceIndex i = some p ↔ p.1 = i := by
  constructor
  · intro h
    unfold validatePieceIndex at h
    split at h
    · exact (congrArg Fin.val (Option.some.inj h)).symm
    · exact absurd h (by simp)
  · rintro rfl
    exact L.validatePieceIndex_val p

/-! ## Geometry without truncation -/

/-- **The geometry is that of its total and piece length**: no cast of `new` lost a bit. -/
structure Exact (L : Lengths) : Prop where
  pieceLength_pos : 0 < L.pieceLength
  pieceLength_lt : L.pieceLength < 2 ^ 32
  totalPieces_eq : L.totalPieces = L.totalLength ⌈/⌉ L.pieceLength
  totalPieces_lt : L.totalPieces < 2 ^ 32
  lastPieceLength_eq : L.lastPieceId * L.pieceLength + L.lastPieceLength = L.totalLength
  chunksPerPiece_eq : L.chunksPerPiece = L.pieceLength ⌈/⌉ chunkSize

/-- **All parts but the last are full, and the last is what they leave.** -/
theorem exists_lastElementSize {total len : ℕ} (hlen : 0 < len) (htotal : 0 < total) :
    ∃ k, total ⌈/⌉ len = k + 1 ∧
      k * len + (if total % len = 0 then len else total % len) = total := by
  have hdiv := Nat.div_add_mod total len
  have hmod := Nat.mod_lt total hlen
  split
  · rename_i hzero
    obtain ⟨k, hk⟩ : ∃ k, total / len = k + 1 := by
      refine Nat.exists_eq_succ_of_ne_zero fun hq => ?_
      rw [hq] at hdiv
      omega
    rw [hk, Nat.mul_succ] at hdiv
    exact ⟨k, ceilDiv_eq_succ (by omega) (by rw [Nat.mul_succ]; omega), by rw [Nat.mul_comm]; omega⟩
  · rename_i hne
    exact ⟨total / len, ceilDiv_eq_succ (by omega) (by rw [Nat.mul_succ]; omega),
      by rw [Nat.mul_comm]; omega⟩

/-- **How `new` ends**: with an error on an empty torrent, aborted on a zero piece length or a piece
count that is a multiple of `2 ^ 32`, and otherwise with a geometry. -/
theorem new_eq (total len : ℕ) : new total len =
      if total = 0 then .err .badTorrentZeroLength
      else if len = 0 then .abort .divisionByZero
      else if asU32 (total ⌈/⌉ len) = 0 then .abort .overflow
      else .ok {
        totalLength := total
        pieceLength := len
        lastPieceId := asU32 (total ⌈/⌉ len) - 1
        lastPieceLength := asU32 (if total % len = 0 then len else total % len)
        chunksPerPiece := asU32 (len ⌈/⌉ chunkSize) } := by
  unfold new
  split
  · rfl
  split
  · simp [divCeil, *]
  · rename_i hlen
    have hchunk : ¬ chunkSize = 0 := by decide
    simp only [divCeil, hlen, if_false, hchunk, Outcome.map_ok, Outcome.ok_bind, checkedSub,
      Nat.lt_one_iff]
    split
    · rfl
    · simp only [Outcome.ok_bind, lastElementSize, checkedRem, hlen, if_false, Outcome.pure_eq]
      split <;> rfl

section

variable {total len : ℕ}

/-- **What `new` accepts, and what it makes of it.** -/
theorem new_eq_ok {L} (h : new total len = .ok L) :
    total ≠ 0 ∧ 0 < len ∧ asU32 (total ⌈/⌉ len) ≠ 0 ∧ L = {
      totalLength := total
      pieceLength := len
      lastPieceId := asU32 (total ⌈/⌉ len) - 1
      lastPieceLength := asU32 (if total % len = 0 then len else total % len)
      chunksPerPiece := asU32 (len ⌈/⌉ chunkSize) } := by
  rw [new_eq] at h
  split at h
  · cases h
  split at h
  · cases h
  split at h
  · cases h
  · rename_i htotal hlen hpieces
    exact ⟨htotal, Nat.pos_of_ne_zero hlen, hpieces, (Outcome.ok.inj h).symm⟩

lemma totalLength_of_new {L} (h : new total len = .ok L) : L.totalLength = total := by
  obtain ⟨-, -, -, rfl⟩ := new_eq_ok h
  rfl

lemma pieceLength_of_new {L} (h : new total len = .ok L) : L.pieceLength = len := by
  obtain ⟨-, -, -, rfl⟩ := new_eq_ok h
  rfl

lemma exists_new (htotal : total ≠ 0) (hlen : 0 < len) (hcount : total ⌈/⌉ len < 2 ^ 32) :
    ∃ L, new total len = .ok L ∧ L.totalPieces = total ⌈/⌉ len := by
  have hpos : 0 < total ⌈/⌉ len := by
    rw [lt_ceilDiv_iff_mul_lt hlen]
    exact Nat.pos_of_ne_zero htotal
  rw [new_eq, if_neg htotal, if_neg hlen.ne', asU32_of_lt hcount, if_neg hpos.ne']
  exact ⟨_, rfl, Nat.sub_add_cancel hpos⟩

/-- **A geometry whose piece count fits 32 bits is exact.** -/
theorem exact_of_new {L} (h : new total len = .ok L) (hlen : len < 2 ^ 32)
    (hcount : total ⌈/⌉ len < 2 ^ 32) : L.Exact := by
  obtain ⟨htotal, hpos, -, rfl⟩ := new_eq_ok h
  obtain ⟨k, hk, hlast⟩ := exists_lastElementSize hpos (Nat.pos_of_ne_zero htotal)
  have hlt : (if total % len = 0 then len else total % len) < 2 ^ 32 := by
    have := Nat.mod_lt total hpos
    split <;> omega
  have hchunks : len ⌈/⌉ chunkSize < 2 ^ 32 := by
    refine lt_of_le_of_lt ((ceilDiv_le_iff_le_mul (by decide)).mpr ?_) hlen
    exact Nat.le_mul_of_pos_left _ (by decide)
  rw [asU32_of_lt hcount, hk, asU32_of_lt hlt, asU32_of_lt hchunks]
  exact {
    pieceLength_pos := hpos
    pieceLength_lt := hlen
    totalPieces_eq := hk.symm
    totalPieces_lt := hk.symm.trans_lt hcount
    lastPieceLength_eq := hlast
    chunksPerPiece_eq := rfl }

end

namespace Exact

variable {L : Lengths} (h : L.Exact) (p : ValidPieceIndex L)

include h in
/-- A piece starts within the torrent. -/
lemma pieceOffset_lt : L.pieceOffset p < L.totalLength := by
  rw [pieceOffset, Nat.mul_comm, ← lt_ceilDiv_iff_mul_lt h.pieceLength_pos, ← h.totalPieces_eq]
  exact p.2

include h in
/-- **The pieces tile the torrent**: a piece ends where the next one starts, the last one at the end
of the torrent. -/
theorem pieceOffset_add_pieceLengthOf :
    L.pieceOffset p + L.pieceLengthOf p = min ((p.1 + 1) * L.pieceLength) L.totalLength := by
  have hend := h.lastPieceLength_eq
  have hceil := le_mul_ceilDiv (a := L.totalLength) h.pieceLength_pos
  rw [← h.totalPieces_eq, Nat.mul_comm] at hceil
  rw [pieceLengthOf, pieceOffset]
  split
  · rename_i hlast
    rw [hlast, hend]
    exact (Nat.min_eq_right hceil).symm
  · rename_i hlast
    have hnext : (p.1 + 1) * L.pieceLength < L.totalLength := by
      have hp : p.1 < L.lastPieceId + 1 := p.2
      exact h.pieceOffset_lt ⟨p.1 + 1, show p.1 + 1 < L.lastPieceId + 1 by omega⟩
    rw [Nat.min_eq_left hnext.le, Nat.add_mul, Nat.one_mul]

include h in
lemma pieceLengthOf_pos : 0 < L.pieceLengthOf p := by
  have hend := h.pieceOffset_add_pieceLengthOf p
  have hstart := h.pieceOffset_lt p
  have hpl := h.pieceLength_pos
  have hnext : L.pieceOffset p < (p.1 + 1) * L.pieceLength := by
    rw [pieceOffset, Nat.add_mul]
    omega
  omega

end Exact

end Lengths

end Librtbit
