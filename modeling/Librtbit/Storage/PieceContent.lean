import Librtbit.Storage.FileOps

/-!
# Storage/PieceContent — what is in a piece, and what `check_piece` says of it

The torrent is one flat sequence of bytes: `byteAt b` is the byte of the file that `b` lies in, zero
in a padding file, and nothing where that file is missing or too short.  A piece *matches* when all
its bytes are there and hash to its digest.

`checkPiece_eq_ok_true_iff` says that `check_piece` accepts exactly the pieces that match.
-/

namespace Librtbit

open Machinery List Option

/-! ## The bytes of a torrent -/

/-- The byte of a file at a position. -/
def Storage.fileByte (files : Storage) (f : FileInfo × ℕ) (i : ℕ) : Option UInt8 :=
  if f.1.attrs.padding then some 0 else (files f.2).bind fun content => content[i]?

/-- The file a byte of the torrent lies in. -/
def fileAt (fileInfos : List FileInfo) (b : ℕ) : Option (FileInfo × ℕ) :=
  fileInfos.zipIdx.find? fun f =>
    decide (f.1.offsetInTorrent ≤ b) && decide (b < f.1.offsetInTorrent + f.1.len)

/-- The files follow each other from `off` to `stop`. -/
def Laid : (off : ℕ) → List (FileInfo × ℕ) → (stop : ℕ) → Prop
  | off, [], stop => off = stop
  | off, f :: fs, stop => f.1.offsetInTorrent = off ∧ Laid (off + f.1.len) fs stop

variable {L : Lengths}

lemma laid_fileInfosFrom (entries : List FileEntry) (off i : ℕ) :
    Laid off ((fileInfosFrom L off entries).zipIdx i)
      (off + (entries.map FileEntry.len).sum) := by
  induction entries generalizing off i with
  | nil => exact (Nat.add_zero off).symm
  | cons e entries ih =>
    refine ⟨rfl, ?_⟩
    rw [map_cons, sum_cons, ← Nat.add_assoc]
    exact ih _ _

variable {fs : List (FileInfo × ℕ)} {f : FileInfo × ℕ}

lemma Laid.le {off stop} (h : Laid off fs stop) (hf : f ∈ fs) : off ≤ f.1.offsetInTorrent := by
  induction fs generalizing off with
  | nil => exact absurd hf not_mem_nil
  | cons g fs ih =>
    rcases mem_cons.mp hf with rfl | hf
    · exact h.1.ge
    · exact (Nat.le_add_right _ _).trans (ih h.2 hf)

/-- **A byte lies in one file.** -/
theorem Laid.find?_eq {off stop} (h : Laid off fs stop)
    (hf : f ∈ fs) {b} (hlo : f.1.offsetInTorrent ≤ b)
    (hhi : b < f.1.offsetInTorrent + f.1.len) :
    (fs.find? fun f =>
      decide (f.1.offsetInTorrent ≤ b) && decide (b < f.1.offsetInTorrent + f.1.len)) = some f := by
  induction fs generalizing off with
  | nil => exact absurd hf not_mem_nil
  | cons g fs ih =>
    rcases mem_cons.mp hf with rfl | hf
    · rw [find?_cons_of_pos (by simp [hlo, hhi])]
    have hle := h.2.le hf
    rw [find?_cons_of_neg, ih h.2 hf]
    have := h.1
    simp only [Bool.and_eq_true, decide_eq_true_eq]
    omega

namespace Layout

variable (lay : Layout L)

lemma laid : Laid 0 lay.fileInfos.zipIdx L.totalLength := by
  have h := laid_fileInfosFrom (L := L) lay.entries 0 0
  rwa [lay.sum_len, Nat.zero_add] at h

lemma fileAt_eq {f} (hf : f ∈ lay.fileInfos.zipIdx) {b}
    (hlo : f.1.offsetInTorrent ≤ b) (hhi : b < f.1.offsetInTorrent + f.1.len) :
    fileAt lay.fileInfos b = some f := lay.laid.find?_eq hf hlo hhi

end Layout

/-! ## Reading a file -/

/-- One chunk: zeros in a padding file, a read otherwise. -/
lemma readSlice_fileByte (files : Storage) (fi : FileInfo) (fileId pos : ℕ) {n} (hn : 0 < n) :
    readSlice (files.fileByte (fi, fileId)) pos n =
      if fi.attrs.padding then some (List.replicate n 0) else files.preadExact fileId pos n := by
  by_cases hpad : fi.attrs.padding = true
  · have : files.fileByte (fi, fileId) = fun _ => some 0 := by
      funext i
      simp [Storage.fileByte, hpad]
    rw [this, readSlice_const, if_pos hpad]
  · rw [if_neg hpad, Storage.preadExact]
    cases hfile : files fileId with
    | none =>
      refine readSlice_eq_none_iff.mpr ⟨pos, le_rfl, by omega, ?_⟩
      simp [Storage.fileByte, hpad, hfile]
    | some content =>
      have : files.fileByte (fi, fileId) = fun i => content[i]? := by
        funext i
        simp [Storage.fileByte, hpad, hfile]
      rw [this, bind_some]
      split
      · exact readSlice_getElem?_of_le (by omega)
      · exact readSlice_getElem?_of_lt hn (by omega)

/-- **`update_hash_from_file` feeds the hash the slice of the file it is asked for**, and fails if
the slice is not all there. -/
theorem updateHashFromFile_spec (files : Storage) (fileId : ℕ) (fi : FileInfo) {bufLen}
    (hbuf : 0 < bufLen) {fuel n} (hn : n ≤ fuel) (pos read : ℕ) (hash : ByteBuf) :
    match readSlice (files.fileByte (fi, fileId)) pos n with
    | some bytes =>
      updateHashFromFile files fileId fi bufLen fuel pos read n hash = (hash ++ bytes, .ok ())
    | none => ∃ hash' e,
      updateHashFromFile files fileId fi bufLen fuel pos read n hash = (hash', .error e) := by
  induction fuel generalizing n pos read hash with
  | zero =>
    obtain rfl : n = 0 := Nat.le_zero.mp hn
    simp [updateHashFromFile]
  | succ fuel ih =>
    rcases Nat.eq_zero_or_pos n with rfl | hpos
    · simp [updateHashFromFile]
    have hchunk : 0 < min bufLen n := by omega
    have hsplit := readSlice_add (files.fileByte (fi, fileId)) pos (min bufLen n)
      (n - min bufLen n)
    rw [Nat.add_sub_cancel' (Nat.min_le_right _ _)] at hsplit
    rw [hsplit, updateHashFromFile, if_neg hpos.ne']
    dsimp only
    rw [← readSlice_fileByte files fi fileId pos hchunk]
    cases hread : readSlice (files.fileByte (fi, fileId)) pos (min bufLen n) with
    | none => exact ⟨_, _, rfl⟩
    | some buf =>
      have hrest := ih (n := n - min bufLen n) (by omega) (pos + min bufLen n)
        (read + min bufLen n) (hash ++ buf)
      cases hread' : readSlice (files.fileByte (fi, fileId)) (pos + min bufLen n)
          (n - min bufLen n) with
      | none =>
        rw [hread'] at hrest
        exact hrest
      | some bytes =>
        rw [hread'] at hrest
        simpa using hrest

/-! ## Reading a piece -/

namespace FileOps

variable {Digest : Type} [DecidableEq Digest] (fo : FileOps Digest)

/-- **The byte of the torrent at a position**: that of the file it lies in. -/
def byteAt (b : ℕ) : Option UInt8 :=
  (fileAt fo.fileInfos b).bind fun f => fo.files.fileByte f (b - f.1.offsetInTorrent)

/-- The bytes of a piece, if all of them are there. -/
def pieceContent (p : ValidPieceIndex L) : Option ByteBuf :=
  readSlice fo.byteAt (L.pieceOffset p) (L.pieceLengthOf p)

/-- **All bytes of the piece are readable and hash to its digest.** -/
def PieceMatches (p : ValidPieceIndex L) : Prop :=
  ∃ bytes, fo.pieceContent p = some bytes ∧ fo.getHash p.1 = some (fo.sha1 bytes)

section Layout

variable {fo} {lay : Layout L} (hlay : fo.fileInfos = lay.fileInfos)

include hlay

omit [DecidableEq Digest] in
/-- A slice of a file is a slice of the torrent. -/
lemma readSlice_fileByte_eq {f} (hf : f ∈ fo.fileInfos.zipIdx) {pos n}
    (hend : pos + n ≤ f.1.len) :
    readSlice (fo.files.fileByte f) pos n = readSlice fo.byteAt (f.1.offsetInTorrent + pos) n := by
  refine readSlice_congr fun i hi => ?_
  rw [hlay] at hf
  rw [byteAt, hlay, lay.fileAt_eq hf (by omega) (by omega)]
  congr 1
  omega

omit [DecidableEq Digest] in
/-- **The loop of `check_piece` feeds the hash the bytes of the torrent**, from the position it
starts at. -/
theorem hashPieceFrom_spec {bufLen} (hbuf : 0 < bufLen) {fs}
    (hfs : ∀ f ∈ fs, f ∈ fo.fileInfos.zipIdx) {off} (hlaid : Laid off fs L.totalLength)
    (rel n : ℕ) (hend : off + rel + n ≤ L.totalLength) (hash : ByteBuf) :
    match readSlice fo.byteAt (off + rel) n with
    | some bytes => fo.hashPieceFrom bufLen fs rel n hash = .ok (hash ++ bytes)
    | none => ∃ e, fo.hashPieceFrom bufLen fs rel n hash = .error e := by
  induction fs generalizing off rel n hash with
  | nil =>
    have : off = L.totalLength := hlaid
    obtain ⟨rfl, rfl⟩ : rel = 0 ∧ n = 0 := by omega
    simp [hashPieceFrom]
  | cons f fs ih =>
    obtain ⟨fi, fileIdx⟩ := f
    obtain ⟨hf, hfs⟩ := forall_mem_cons.mp hfs
    obtain ⟨hoff, hlaid⟩ := hlaid
    dsimp only at hoff hlaid
    rw [hashPieceFrom]
    by_cases hskip : rel > fi.len
    · have hih := ih hfs hlaid (rel - fi.len) n (by omega) hash
      rw [show off + fi.len + (rel - fi.len) = off + rel by omega] at hih
      simpa only [if_pos hskip] using hih
    -- `m` bytes lie in this file, the rest in the files behind it
    obtain ⟨m, hm⟩ : ∃ m, m = min (fi.len - rel) n := ⟨_, rfl⟩
    have hread := updateHashFromFile_spec fo.files fileIdx fi hbuf (le_refl m) rel 0 hash
    rw [readSlice_fileByte_eq hlay hf (show rel + m ≤ fi.len by omega), hoff] at hread
    have hsplit := readSlice_add fo.byteAt (off + rel) m (n - m)
    rw [Nat.add_sub_cancel' (show m ≤ n by omega)] at hsplit
    rw [hsplit, if_neg hskip, ← hm]
    dsimp only
    cases hbytes : readSlice fo.byteAt (off + rel) m with
    | none =>
      rw [hbytes] at hread
      obtain ⟨hash', e, hread⟩ := hread
      rw [hread]
      exact ⟨_, rfl⟩
    | some bytes =>
      rw [hbytes] at hread
      rw [hread]
      dsimp only
      by_cases hdone : n - m = 0
      · simp [hdone]
      rw [if_neg hdone]
      have hih := ih hfs hlaid 0 (n - m) (by omega) (hash ++ bytes)
      rw [show off + fi.len + 0 = off + rel + m by omega] at hih
      cases hrest : readSlice fo.byteAt (off + rel + m) (n - m) with
      | none =>
        rw [hrest] at hih
        exact hih
      | some bytes' =>
        rw [hrest] at hih
        simpa using hih

omit [DecidableEq Digest] in
/-- Over all the files and a whole piece, the hash is fed the content of the piece. -/
lemma hashPieceFrom_zipIdx (p : ValidPieceIndex L) : match fo.pieceContent p with
    | some bytes => fo.hashPieceFrom (min 65536 (L.pieceLengthOf p)) fo.fileInfos.zipIdx
        (L.pieceOffset p) (L.pieceLengthOf p) [] = .ok bytes
    | none => ∃ e, fo.hashPieceFrom (min 65536 (L.pieceLengthOf p)) fo.fileInfos.zipIdx
        (L.pieceOffset p) (L.pieceLengthOf p) [] = .error e := by
  have hpos := lay.exact.pieceLengthOf_pos p
  have hend := lay.exact.pieceOffset_add_pieceLengthOf p
  have hbuf : 0 < min 65536 (L.pieceLengthOf p) := by omega
  have hlaid := lay.laid
  rw [← hlay] at hlaid
  have hhash := hashPieceFrom_spec hlay hbuf (fun f hf => hf) hlaid (L.pieceOffset p)
    (L.pieceLengthOf p) (by omega) []
  rw [Nat.zero_add] at hhash
  exact hhash

variable {p : ValidPieceIndex L}

lemma checkPiece_of_some {bytes} (h : fo.pieceContent p = some bytes) :
    fo.checkPiece p = match fo.compareHash p.1 (fo.sha1 bytes) with
      | some result => .ok result
      | none => .error .compareHashNotFound := by
  have hhash := hashPieceFrom_zipIdx hlay p
  rw [h] at hhash
  rw [checkPiece, hhash]
  rfl

/-- …and fails on any other. -/
lemma checkPiece_of_none (h : fo.pieceContent p = none) :
    ∃ e, fo.checkPiece p = .error e := by
  have hhash := hashPieceFrom_zipIdx hlay p
  rw [h] at hhash
  obtain ⟨e, he⟩ := hhash
  refine ⟨e, ?_⟩
  rw [checkPiece, he]
  rfl

/-- **`check_piece` accepts exactly the pieces that match.** -/
theorem checkPiece_eq_ok_true_iff (p : ValidPieceIndex L) :
    fo.checkPiece p = .ok true ↔ fo.PieceMatches p := by
  cases hcontent : fo.pieceContent p with
  | none =>
    obtain ⟨e, he⟩ := checkPiece_of_none hlay hcontent
    simp [he, PieceMatches, hcontent]
  | some bytes =>
    rw [checkPiece_of_some hlay hcontent, PieceMatches, hcontent, compareHash]
    cases fo.getHash p.1 with
    | none | some digest => simp

end Layout

end FileOps

end Librtbit
