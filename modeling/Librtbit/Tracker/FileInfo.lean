import Librtbit.Core.Sizes
import Librtbit.Core.StoragePaths

/-!
# Tracker/FileInfo — where the files of a torrent lie

A torrent is one flat blob of bytes; its files follow each other in it.  `fileInfosFrom` is the
scan that gives each file its offset and the pieces it touches, and `iterPiecePriorities` the order
in which the pieces of one file are asked for: first, last, then the rest.
-/

namespace Librtbit

open Machinery ValidatedTorrentMetaV1Info List

/-- What `TorrentMetadata::new` reads off one file of the torrent. -/
structure FileEntry where
  filename : PathBuf := []
  attrs : FileDetailsAttrs := {}
  len : ℕ
  deriving DecidableEq

structure FileInfo where
  relativeFilename : PathBuf
  offsetInTorrent : ℕ
  pieceRange : Span
  attrs : FileDetailsAttrs
  len : ℕ
  deriving DecidableEq

/-- The file infos of the files that follow `offset` in the torrent. -/
def fileInfosFrom (L : Lengths) : (offset : ℕ) → List FileEntry → List FileInfo
  | _, [] => []
  | offset, f :: fs =>
    { relativeFilename := f.filename, offsetInTorrent := offset
      pieceRange := L.iterPiecesWithinOffset offset f.len, attrs := f.attrs, len := f.len } ::
      fileInfosFrom L (offset + f.len) fs

/-- First and last of each file first, then the rest of pieces in that file. -/
def iterPiecePriorities (r : Span) : List ℕ :=
  let first := [r.start]
  -- on an empty range this wraps around; the final `take` drops it again
  let last := [asU64 (r.start + wrappingSub64 r.len 1)]
  let mid := (r.toList.drop 1).take (wrappingSub64 r.len 2)
  (first ++ last ++ mid).take r.len

section Order

variable {r : Span} (hstop : r.stop < 2 ^ 64)
include hstop

/-- The order of two pieces or more. -/
lemma iterPiecePriorities_eq {k} (hk : r.len = k + 2) : iterPiecePriorities r =
      r.start :: (r.start + (k + 1)) :: List.range' (r.start + 1) k := by
  have hlen : r.len = r.stop - r.start := rfl
  have hsub : ∀ j ≤ 2, wrappingSub64 (k + 2) j = k + 2 - j := by
    intro j hj
    rw [wrappingSub64, asU64]
    omega
  have hmid : (r.toList.drop 1).take k = List.range' (r.start + 1) k := by
    rw [Span.toList, hk, drop_range', Nat.mul_one, show k + 2 - 1 = k + 1 from rfl, range'_concat]
    exact take_left' length_range'
  rw [iterPiecePriorities, hk, hsub 1 (by omega), hsub 2 le_rfl, Nat.add_sub_cancel, hmid,
    asU64_of_lt (by omega), take_of_length_le (by simp)]
  rfl

/-- **First, last, and the rest**: the pieces of the range, each of them once. -/
theorem iterPiecePriorities_spec : (iterPiecePriorities r).Perm r.toList ∧
      (iterPiecePriorities r)[0]? = r.toList.head? ∧
      (1 < r.len → (iterPiecePriorities r)[1]? = r.toList.getLast?) := by
  rcases Nat.lt_or_ge r.len 2 with hshort | hlong
  · rcases Nat.le_one_iff_eq_zero_or_eq_one.mp (Nat.le_of_lt_succ hshort) with hzero | hone
    · simp [iterPiecePriorities, Span.toList, hzero]
    · simp [iterPiecePriorities, Span.toList, hone]
  obtain ⟨k, hk⟩ := Nat.exists_eq_add_of_le' hlong
  have hlist : r.toList = r.start :: (List.range' (r.start + 1) k ++ [r.start + (k + 1)]) := by
    rw [Span.toList, hk, range'_succ, range'_concat, Nat.one_mul, Nat.add_right_comm, Nat.add_assoc]
  rw [iterPiecePriorities_eq hstop hk, hlist, ← cons_append, getLast?_concat]
  exact ⟨(perm_append_singleton _ _).symm.cons _, rfl, fun _ => rfl⟩

/-- **Every piece of a range is asked for.** -/
theorem mem_iterPiecePriorities {p} (hp : r.contains p) : p ∈ iterPiecePriorities r :=
  (iterPiecePriorities_spec hstop).1.mem_iff.mpr (Span.mem_toList.mpr (Span.contains_iff.mp hp))

end Order

namespace FileInfo

/-- The pieces of a file, in the order they are asked for. -/
def iterPiecePriorities (fi : FileInfo) : List ℕ := Librtbit.iterPiecePriorities fi.pieceRange

end FileInfo

/-! ## With overflow checks -/

/-- `iter_piece_priorities` with overflow checks: the last piece is computed of an empty range
too. -/
def checkedPiecePriorities (r : Span) : Option (List ℕ) :=
  if r.start + wrappingSub64 r.len 1 < 2 ^ 64 then some (iterPiecePriorities r) else none

/-- **Nothing overflows**, and the pieces of the range come once each, the first one first and the
last one next. -/
def Ordered (r : Span) : Prop :=
  ∃ order, checkedPiecePriorities r = some order ∧ order.Perm r.toList ∧ order.Nodup ∧
    order[0]? = r.toList.head? ∧ (1 < r.len → order[1]? = r.toList.getLast?)

lemma ordered_iff {r} (hstop : r.stop < 2 ^ 64) :
    Ordered r ↔ r.start = 0 ∨ r.start < r.stop := by
  have hlen : r.len = r.stop - r.start := rfl
  have hcheck : r.start + wrappingSub64 r.len 1 < 2 ^ 64 ↔ r.start = 0 ∨ r.start < r.stop := by
    rw [wrappingSub64, asU64]
    omega
  rw [Ordered, checkedPiecePriorities]
  constructor
  · rintro ⟨order, horder, -⟩
    exact hcheck.mp (Option.ite_none_right_eq_some.mp horder).1
  intro h
  rw [if_pos (hcheck.mpr h)]
  obtain ⟨hperm, hends⟩ := iterPiecePriorities_spec hstop
  exact ⟨_, rfl, hperm, hperm.nodup_iff.mpr r.nodup_toList, hends⟩

/-- **The pieces of a file are ordered** exactly if its first piece has the number zero, or the file
is not empty and the numbers of its pieces, in 32 bits, increase.  An empty file in a later piece
makes the sum for its last piece overflow. -/
theorem ordered_iterPiecesWithinOffset_iff (L : Lengths) {offset len : ℕ}
    (hend : offset + len ≤ L.totalLength) :
    Ordered (L.iterPiecesWithinOffset offset len) ↔ offset / L.pieceLength % 2 ^ 32 = 0 ∨
      0 < len ∧ offset / L.pieceLength % 2 ^ 32 < (offset + len) ⌈/⌉ L.pieceLength % 2 ^ 32 := by
  have hu32 : ∀ n, n % 2 ^ 32 < 2 ^ 64 := fun n =>
    (Nat.mod_lt n (Nat.two_pow_pos 32)).trans (by norm_num)
  rw [Lengths.iterPiecesWithinOffset, Nat.min_eq_left (Nat.le_of_add_right_le hend),
    Nat.min_eq_left hend]
  rw [ordered_iff (by dsimp only; split <;> exact hu32 _)]
  dsimp only [asU32]
  split
  · omega
  · have hpos : 0 < len := by omega
    simp only [hpos, true_and]

/-- A file of two pieces. -/
theorem ordered_two_pieces : Ordered (Lengths.twoBytePieces.iterPiecesWithinOffset 0 2) :=
  (ordered_iterPiecesWithinOffset_iff .twoBytePieces (by decide)).mpr (.inr (by decide))

/-- An empty file at the end of two pieces. -/
theorem not_ordered_empty_file : ¬ Ordered (Lengths.twoBytePieces.iterPiecesWithinOffset 2 0) := by
  rw [ordered_iff (by decide)]
  decide

/-! ## The layout of a torrent

The files of a torrent whose lengths add up to the torrent, under a geometry that lost no bit.  A
piece index lies in the range of a file exactly when a byte of the piece lies in the file. -/

/-- The files of a torrent, in order. -/
structure Layout (L : Lengths) where
  entries : List FileEntry
  exact : L.Exact
  sum_len : (entries.map FileEntry.len).sum = L.totalLength

variable {L : Lengths}

/-- The file infos `TorrentMetadata::new` computes. -/
def Layout.fileInfos (lay : Layout L) : List FileInfo := fileInfosFrom L 0 lay.entries

/-- Two files of one byte, each a piece. -/
def Layout.oneByteFiles : Layout Lengths.twoBytePieces where
  entries := [{ len := 1 }, { len := 1 }]
  exact := Lengths.exact_of_new (show Lengths.new 2 1 = .ok Lengths.twoBytePieces by decide)
    (by norm_num) (by decide)
  sum_len := rfl

variable {fs : List FileEntry}

lemma mem_fileInfosFrom {offset fi} (h : fi ∈ fileInfosFrom L offset fs) :
    offset ≤ fi.offsetInTorrent ∧
      fi.offsetInTorrent + fi.len ≤ offset + (fs.map FileEntry.len).sum ∧
      fi.pieceRange = L.iterPiecesWithinOffset fi.offsetInTorrent fi.len := by
  induction fs generalizing offset with
  | nil => exact absurd h not_mem_nil
  | cons f fs ih =>
    rw [map_cons, sum_cons]
    rcases mem_cons.mp h with rfl | hrest
    · exact ⟨le_rfl, by dsimp only; omega, rfl⟩
    · obtain ⟨hlo, hhi, hrange⟩ := ih hrest
      exact ⟨by omega, by omega, hrange⟩

/-- **Every byte of the torrent lies in a file.** -/
theorem exists_mem_fileInfosFrom {offset b} (hlo : offset ≤ b)
    (hhi : b < offset + (fs.map FileEntry.len).sum) :
    ∃ fi ∈ fileInfosFrom L offset fs,
      fi.offsetInTorrent ≤ b ∧ b < fi.offsetInTorrent + fi.len := by
  induction fs generalizing offset with
  | nil => simp at hhi; omega
  | cons f fs ih =>
    rw [map_cons, sum_cons] at hhi
    rcases Nat.lt_or_ge b (offset + f.len) with hb | hb
    · exact ⟨_, mem_cons_self, hlo, hb⟩
    · obtain ⟨fi, hfi, hin⟩ := ih hb (by omega)
      exact ⟨fi, mem_cons_of_mem _ hfi, hin⟩

/-- The pieces of a range of bytes are those that share a byte with it. -/
lemma Lengths.Exact.contains_iterPiecesWithinOffset (h : L.Exact) {offset len p}
    (hend : offset + len ≤ L.totalLength) :
    (L.iterPiecesWithinOffset offset len).contains p = true ↔
      offset < (p + 1) * L.pieceLength ∧ p * L.pieceLength < offset + len ∧ 0 < len := by
  have hpl := h.pieceLength_pos
  have hceil : (offset + len) ⌈/⌉ L.pieceLength < 2 ^ 32 := by
    refine lt_of_le_of_lt ((ceilDiv_le_iff_le_mul hpl).mpr ?_) h.totalPieces_lt
    rw [h.totalPieces_eq]
    exact hend.trans (le_mul_ceilDiv hpl)
  have hfloor : offset / L.pieceLength < 2 ^ 32 :=
    lt_of_le_of_lt (Nat.div_le_of_le_mul ((Nat.le_add_right _ _).trans (le_mul_ceilDiv hpl))) hceil
  have hlo : offset / L.pieceLength ≤ p ↔ offset < (p + 1) * L.pieceLength := by
    rw [← Nat.lt_succ_iff, Nat.div_lt_iff_lt_mul hpl]
  have hhi : p < (offset + len) ⌈/⌉ L.pieceLength ↔ p * L.pieceLength < offset + len := by
    rw [lt_ceilDiv_iff_mul_lt hpl, Nat.mul_comm]
  simp only [Lengths.iterPiecesWithinOffset, Nat.min_eq_left (Nat.le_of_add_right_le hend),
    Nat.min_eq_left hend, Span.contains_iff, Nat.add_eq_left, asU32_of_lt hceil,
    asU32_of_lt hfloor, hlo]
  split
  · omega
  · rw [hhi]
    have : 0 < len := by omega
    simp [this]

/-- What the scan reads off one file of a validated info. -/
def FileEntry.ofDetails (encoding : Encoding) (fd : FileDetails) : FileEntry where
  filename := fd.filename.toPathbuf encoding
  attrs := fd.attrs
  len := fd.len.toNat

/-- The file infos of `TorrentMetadata::new`. -/
def ValidatedTorrentMetaV1Info.fileInfos (v : ValidatedTorrentMetaV1Info) : List FileInfo :=
  fileInfosFrom v.lengths 0 (v.iterFileDetails.map (FileEntry.ofDetails v.encoding))

/-- **The files of an accepted info whose sizes fit are laid out as a torrent.** -/
theorem exists_layout_of_validate {detectEncoding} {info : TorrentMetaV1Info} {v}
    (hfit : info.SizesFit detectEncoding) (hv : info.validate detectEncoding = .ok v) :
    ∃ lay : Layout v.lengths, lay.fileInfos = v.fileInfos := by
  obtain ⟨-, lengths, files, hlengths, hfiles, -, rfl⟩ := TorrentMetaV1Info.validate_eq_ok.mp hv
  obtain ⟨hsum, hrest⟩ := hfit files hfiles
  obtain ⟨-, hcount, -⟩ := hrest (TorrentMetaV1Info.totalLength_ne_zero hfiles hlengths)
  rw [TorrentMetaV1Info.fromTorrent_eq hfiles, if_pos hsum] at hlengths
  have hiter : iterFileDetails
      { encoding := detectEncoding info, lengths, info } = files := by
    simp only [iterFileDetails, hfiles]
  refine ⟨{
    entries := files.map (FileEntry.ofDetails (detectEncoding info))
    exact := Lengths.exact_of_new hlengths info.pieceLength.toNat_lt hcount
    sum_len := ?_ }, ?_⟩
  · rw [Lengths.totalLength_of_new hlengths, map_map]
    rfl
  · rw [Layout.fileInfos, fileInfos, hiter]

open TorrentMetaV1Info in
/-- One file of one byte. -/
theorem exists_layout_oneByteFile : ∃ lay : Layout (validatedOneByteFile [[0x61]]).lengths,
    lay.fileInfos = (validatedOneByteFile [[0x61]]).fileInfos := by
  refine @exists_layout_of_validate (fun _ => utf8Ascii) (oneByteFile [[0x61]]) _ ?_ rfl
  rintro files ⟨⟩
  refine ⟨by decide, fun _ => ⟨by decide, by decide, fun pieces hpieces _ _ => ?_⟩⟩
  cases hpieces
  decide

namespace Layout

variable (lay : Layout L) {fi : FileInfo} {p : ValidPieceIndex L}

/-- **A piece is in the range of a file exactly when they share a byte.** -/
theorem contains_pieceRange (hfi : fi ∈ lay.fileInfos) : fi.pieceRange.contains p.1 ↔
      fi.offsetInTorrent < (p.1 + 1) * L.pieceLength ∧
      p.1 * L.pieceLength < fi.offsetInTorrent + fi.len ∧ 0 < fi.len := by
  obtain ⟨-, hend, hrange⟩ := mem_fileInfosFrom hfi
  rw [lay.sum_len, Nat.zero_add] at hend
  rw [hrange, lay.exact.contains_iterPiecesWithinOffset hend]

/-- The pieces of a file are asked for when the file is. -/
lemma mem_iterPiecePriorities (hfi : fi ∈ lay.fileInfos)
    (hp : fi.pieceRange.contains p.1) : p.1 ∈ fi.iterPiecePriorities := by
  refine Librtbit.mem_iterPiecePriorities ?_ hp
  obtain ⟨-, -, hrange⟩ := mem_fileInfosFrom hfi
  have hu32 : ∀ n, asU32 n < 2 ^ 64 := fun n =>
    (Nat.mod_lt n (Nat.two_pow_pos 32)).trans (by norm_num)
  rw [hrange, Lengths.iterPiecesWithinOffset]
  split <;> exact hu32 _

/-- Every piece lies in a file. -/
lemma exists_contains (p : ValidPieceIndex L) :
    ∃ fi ∈ lay.fileInfos, fi.pieceRange.contains p.1 := by
  have hbyte : p.1 * L.pieceLength < L.totalLength := by
    rw [Nat.mul_comm, ← lt_ceilDiv_iff_mul_lt lay.exact.pieceLength_pos, ← lay.exact.totalPieces_eq]
    exact p.2
  obtain ⟨fi, hfi, hlo, hhi⟩ := exists_mem_fileInfosFrom (Nat.zero_le (p.1 * L.pieceLength))
    (by rw [lay.sum_len, Nat.zero_add]; exact hbyte)
  refine ⟨fi, hfi, (lay.contains_pieceRange hfi).mpr ⟨?_, hhi, by omega⟩⟩
  rw [Nat.add_mul]
  have := lay.exact.pieceLength_pos
  omega

end Layout

end Librtbit
