import Librtbit.Core.Metainfo

/-!
# Core/Sizes — the integers of an info dictionary

Three integers of an untrusted info dictionary meet in `Lengths::new`: the sum of the file lengths,
the piece length, and the piece count that both give.  Nothing bounds them, and nothing compares the
count with the length of `pieces`.

`SizesSound` is what the rest of the program relies on; `SizesFit` is the exact condition on the
dictionary under which it holds (`sizesSound_iff`).
-/

namespace Librtbit

open Machinery Lengths Outcome List

/-- The values `Lengths::new` narrows to `u32`. -/
def Lengths.narrowed (totalLength pieceLength : ℕ) : List ℕ :=
  [totalLength ⌈/⌉ pieceLength, pieceLength ⌈/⌉ chunkSize,
    if totalLength % pieceLength = 0 then pieceLength else totalLength % pieceLength]

namespace TorrentMetaV1Info

variable (detectEncoding : TorrentMetaV1Info → Encoding) (info : TorrentMetaV1Info)

/-- The mathematical sum of the file lengths. -/
def totalLength (files : List FileDetails) : ℕ := (files.map fun d => d.len.toNat).sum

/-- **What the geometry of an untrusted dictionary is relied on for**: neither `validate` nor
`Lengths::from_torrent` aborts, no narrowing loses a bit, and an accepted info has the right number
of pieces and a hash for each. -/
structure SizesSound : Prop where
  returns_validate : (info.validate detectEncoding).Returns
  returns_fromTorrent : (fromTorrent info).Returns
  lossless : ∀ files total, info.iterFileDetailsRaw = .ok files →
    (sumU64 (files.map fun d => d.len.toNat) : Outcome Error ℕ) = .ok total →
    total ≠ 0 → info.pieceLength.toNat ≠ 0 →
    ∀ n ∈ narrowed total info.pieceLength.toNat, n < 2 ^ 32
  count : ∀ v, info.validate detectEncoding = .ok v →
    ∃ files, info.iterFileDetailsRaw = .ok files ∧
      v.lengths.totalPieces = totalLength files ⌈/⌉ info.pieceLength.toNat
  fits : ∀ v, info.validate detectEncoding = .ok v → v.lengths.totalPieces < 2 ^ 32
  hashes : ∀ v, info.validate detectEncoding = .ok v → ∀ p : ValidPieceIndex v.lengths,
    ∃ hash, info.getHash p.1 = some hash ∧ hash.length = 20

/-- **The sizes fit**: the file lengths add up within 64 bits, and unless they add up to nothing the
piece length is not zero, the piece count fits 32 bits, and — for an info whose names are accepted —
`pieces` is long enough for all of them. -/
def SizesFit : Prop :=
  ∀ files, info.iterFileDetailsRaw = .ok files →
    totalLength files < 2 ^ 64 ∧
    (totalLength files ≠ 0 → 0 < info.pieceLength.toNat ∧
      totalLength files ⌈/⌉ info.pieceLength.toNat < 2 ^ 32 ∧
      ∀ pieces, info.pieces = some pieces → pieces ≠ [] →
        NamesAccepted (detectEncoding info) files →
        20 * (totalLength files ⌈/⌉ info.pieceLength.toNat) ≤ pieces.length)

variable {detectEncoding info}

lemma exists_getHash_iff {pieces} (hpieces : info.pieces = some pieces) {i} :
    (∃ hash, info.getHash i = some hash ∧ hash.length = 20) ↔ 20 * (i + 1) ≤ pieces.length := by
  simp only [getHash, hpieces, Option.bind_some]
  split
  · rename_i h
    refine ⟨fun _ => by omega, fun _ => ⟨_, rfl, ?_⟩⟩
    rw [length_take, length_drop]
    omega
  · simp
    omega

lemma hasV1Pieces_iff : info.hasV1Pieces = true ↔ ∃ pieces, info.pieces = some pieces ∧
    pieces ≠ [] := by
  rw [hasV1Pieces, Option.any_eq_true]
  simp

/-- How `Lengths::from_torrent` ends on a list of files. -/
lemma fromTorrent_eq {files} (h : info.iterFileDetailsRaw = .ok files) :
    fromTorrent info =
      if totalLength files < 2 ^ 64 then new (totalLength files) info.pieceLength.toNat
      else .abort .overflow := by
  rw [fromTorrent, h, ok_bind, sumU64_eq, totalLength]
  split
  · rw [ok_bind]
  · rw [abort_bind]

lemma returns_iterFileDetailsRaw : info.iterFileDetailsRaw.Returns := by
  unfold iterFileDetailsRaw
  split
  · exact returns_ok _
  · split
    · exact returns_err _
    · exact returns_ok _
  · exact returns_err _

section Fit

variable {files : List FileDetails}

/-- An info dictionary with a geometry is not empty. -/
lemma totalLength_ne_zero {lengths} (hfiles : info.iterFileDetailsRaw = .ok files)
    (h : fromTorrent info = .ok lengths) : totalLength files ≠ 0 := by
  intro hzero
  rw [fromTorrent_eq hfiles, hzero] at h
  cases h

/-- With sizes that fit, the geometry of an accepted info has the right number of pieces, and
`pieces` a hash for each. -/
lemma SizesFit.of_validate (hfit : SizesFit detectEncoding info)
    {v} (hv : info.validate detectEncoding = .ok v) :
    ∃ files pieces, info.iterFileDetailsRaw = .ok files ∧ info.pieces = some pieces ∧
      v.lengths.totalPieces = totalLength files ⌈/⌉ info.pieceLength.toNat ∧
      v.lengths.totalPieces < 2 ^ 32 ∧ 20 * v.lengths.totalPieces ≤ pieces.length := by
  obtain ⟨hv1, lengths, files, hlengths, hfiles, hnames, rfl⟩ := validate_eq_ok.mp hv
  obtain ⟨pieces, hpieces, hne⟩ := hasV1Pieces_iff.mp hv1
  have htotal := totalLength_ne_zero hfiles hlengths
  obtain ⟨hsum, hrest⟩ := hfit files hfiles
  obtain ⟨hlen, hcount, hhashes⟩ := hrest htotal
  obtain ⟨L, hL, hpiecesL⟩ := exists_new htotal hlen hcount
  obtain rfl : L = lengths := by
    rw [fromTorrent_eq hfiles, if_pos hsum, hL] at hlengths
    exact ok.inj hlengths
  refine ⟨files, pieces, hfiles, hpieces, hpiecesL, hpiecesL.trans_lt hcount, ?_⟩
  rw [hpiecesL]
  exact hhashes pieces hpieces hne hnames

lemma narrowed_lt {total len} (hlen : len ≠ 0) (hlt : len < 2 ^ 32)
    (hcount : total ⌈/⌉ len < 2 ^ 32) : ∀ n ∈ narrowed total len, n < 2 ^ 32 := by
  have hchunks : len ⌈/⌉ chunkSize ≤ len :=
    (ceilDiv_le_iff_le_mul (by decide)).mpr (Nat.le_mul_of_pos_left _ (by decide))
  have hmod := Nat.mod_lt total (Nat.pos_of_ne_zero hlen)
  simp only [narrowed, mem_cons, not_mem_nil, or_false, forall_eq_or_imp, forall_eq]
  refine ⟨hcount, by omega, ?_⟩
  split <;> omega

variable (hfit : SizesFit detectEncoding info)
include hfit

/-- With sizes that fit, `Lengths::from_torrent` does not abort. -/
lemma SizesFit.returns_fromTorrent :
    (fromTorrent info).Returns := by
  rw [fromTorrent, returns_bind]
  refine ⟨returns_iterFileDetailsRaw, fun files hfiles => ?_⟩
  obtain ⟨hsum, hrest⟩ := hfit files hfiles
  rw [sumU64_eq, if_pos (show (files.map fun d => d.len.toNat).sum < 2 ^ 64 from hsum),
    ok_bind, new_eq]
  split
  · exact returns_err _
  · rename_i htotal
    obtain ⟨hlen, hcount, -⟩ := hrest htotal
    obtain ⟨L, hL, -⟩ := exists_new htotal hlen hcount
    rw [new_eq, if_neg htotal] at hL
    rw [hL]
    exact returns_ok _

lemma SizesFit.sound : SizesSound detectEncoding info where
  returns_validate := returns_validate_iff.mpr fun _ => hfit.returns_fromTorrent
  returns_fromTorrent := hfit.returns_fromTorrent
  lossless := by
    intro files total hfiles htotal hne hlen
    obtain ⟨hsum, hrest⟩ := hfit files hfiles
    rw [sumU64_eq, if_pos (show (files.map fun d => d.len.toNat).sum < 2 ^ 64 from hsum),
      ok.injEq] at htotal
    subst htotal
    exact narrowed_lt hlen info.pieceLength.toNat_lt (hrest hne).2.1
  count := by
    intro v hv
    obtain ⟨files, _, hfiles, -, hcount, -⟩ := hfit.of_validate hv
    exact ⟨files, hfiles, hcount⟩
  fits := by
    intro v hv
    obtain ⟨_, _, -, -, -, hlt, -⟩ := hfit.of_validate hv
    exact hlt
  hashes := by
    intro v hv p
    obtain ⟨_, pieces, -, hpieces, -, -, hlen⟩ := hfit.of_validate hv
    exact (exists_getHash_iff hpieces).mpr (by omega)

end Fit

section Sound

variable {files : List FileDetails} (h : SizesSound detectEncoding info)
  (hfiles : info.iterFileDetailsRaw = .ok files)

include h hfiles

/-- A sum that overflows aborts. -/
lemma SizesSound.totalLength_lt : totalLength files < 2 ^ 64 := by
  have hret := h.returns_fromTorrent
  rw [fromTorrent_eq hfiles] at hret
  by_contra hsum
  rw [if_neg hsum] at hret
  exact not_returns_abort _ hret

variable (htotal : totalLength files ≠ 0)
include htotal

/-- A piece length of zero aborts, and a piece count that does not fit is narrowed. -/
lemma SizesSound.pieceCount_lt : 0 < info.pieceLength.toNat ∧
      totalLength files ⌈/⌉ info.pieceLength.toNat < 2 ^ 32 := by
  have hsum := h.totalLength_lt hfiles
  have hret := h.returns_fromTorrent
  rw [fromTorrent_eq hfiles, if_pos hsum, new_eq, if_neg htotal] at hret
  have hlen : info.pieceLength.toNat ≠ 0 := by
    intro hzero
    rw [if_pos hzero] at hret
    exact not_returns_abort _ hret
  exact ⟨Nat.pos_of_ne_zero hlen, h.lossless files _ hfiles
    (by rw [sumU64_eq]; exact if_pos hsum) htotal hlen _ mem_cons_self⟩

/-- The last piece has a hash, so all have. -/
lemma SizesSound.le_length_pieces {pieces}
    (hpieces : info.pieces = some pieces) (hne : pieces ≠ [])
    (hnames : NamesAccepted (detectEncoding info) files) :
    20 * (totalLength files ⌈/⌉ info.pieceLength.toNat) ≤ pieces.length := by
  obtain ⟨hlen, hcount⟩ := h.pieceCount_lt hfiles htotal
  obtain ⟨L, hL, hpiecesL⟩ := exists_new htotal hlen hcount
  have hlengths : fromTorrent info = .ok L := by
    rw [fromTorrent_eq hfiles, if_pos (h.totalLength_lt hfiles), hL]
  have hlast := h.hashes _ (validate_eq_ok.mpr ⟨hasV1Pieces_iff.mpr ⟨pieces, hpieces, hne⟩, L,
    files, hlengths, hfiles, hnames, rfl⟩) L.lastPiece
  rw [exists_getHash_iff hpieces] at hlast
  rw [← hpiecesL]
  exact hlast

end Sound

/-- **The integers of an info dictionary are sound exactly when its sizes fit.** -/
theorem sizesSound_iff : SizesSound detectEncoding info ↔ SizesFit detectEncoding info := by
  refine ⟨fun h files hfiles => ?_, fun hfit => hfit.sound⟩
  refine ⟨h.totalLength_lt hfiles, fun htotal => ?_⟩
  obtain ⟨hlen, hcount⟩ := h.pieceCount_lt hfiles htotal
  exact ⟨hlen, hcount, fun pieces => h.le_length_pieces hfiles htotal⟩

/-- **A piece length of zero aborts `validate`.** -/
theorem not_sizesSound_zero_pieceLength : ¬ SizesSound (fun _ => utf8Ascii)
      { pieces := some (List.replicate 20 0), pieceLength := 0, length := some 1 } := by
  intro h
  exact h.returns_validate .divisionByZero rfl

end TorrentMetaV1Info

end Librtbit
