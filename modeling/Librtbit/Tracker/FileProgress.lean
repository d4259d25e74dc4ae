import Librtbit.Machinery.Block
import Librtbit.Machinery.Run
import Librtbit.Tracker.ChunkTracker

/-!
# Tracker/FileProgress — the per-file byte counters

`perFileBytes` is computed once from the bit field and then kept up to date piece by piece.  What a
counter is meant to be needs no piece lengths: the number of bytes of the file that lie in a piece
we have (`fileBytes`).

`onPieceCompleted` looks for the files of a piece with a `skip_while` and a `take_while`, so it
misses the files behind a gap: a file of length zero lies in no piece, and one between two files
that share a piece ends the scan.  It also counts a piece that was there already.  `CountsOnce`
rules out both, and is exact on the layout of a torrent.
-/

namespace Librtbit

open Machinery BitField

variable {L : Lengths}

/-! ## The bytes a piece and a file share -/

/-- The number of bytes of a piece that lie in a file. -/
def bytesInFile (L : Lengths) (fi : FileInfo) (piece : ℕ) : ℕ :=
  (List.range' fi.offsetInTorrent fi.len).countP fun b => b / L.pieceLength = piece

/-- **`size_of_piece_in_file` counts the bytes of the piece that lie in the file.** -/
theorem sizeOfPieceInFile_eq (hpl : 0 < L.pieceLength) (fi : FileInfo) (piece : ℕ) :
    L.sizeOfPieceInFile piece fi.offsetInTorrent fi.len = bytesInFile L fi piece := by
  simp only [bytesInFile, Lengths.sizeOfPieceInFile]
  generalize fi.offsetInTorrent = offset
  induction fi.len with
  | zero => simp
  | succ n ih =>
    have hbyte : (offset + n) / L.pieceLength = piece ↔ piece * L.pieceLength ≤ offset + n ∧
        offset + n < piece * L.pieceLength + L.pieceLength := by
      rw [Nat.div_eq_iff hpl]
      omega
    rw [List.range'_1_concat, List.countP_append, List.countP_singleton]
    by_cases h : (offset + n) / L.pieceLength = piece
    · have := hbyte.mp h
      simp only [h, decide_true, if_true]
      omega
    · have := mt hbyte.mpr h
      simp only [h, decide_false, Bool.false_eq_true, if_false]
      omega

/-- Distinct pieces share no byte, so together they share at most the whole file with it. -/
lemma sum_bytesInFile_le (fi : FileInfo) {pieces : List ℕ} (hnodup : pieces.Nodup) :
    (pieces.map (bytesInFile L fi)).sum ≤ fi.len := by
  have hcons : ∀ (b : ℕ) (bs ps : List ℕ),
      (ps.map fun p => (b :: bs).countP fun b => b / L.pieceLength = p).sum
        = (ps.map fun p => bs.countP fun b => b / L.pieceLength = p).sum
          + ps.countP (fun p => b / L.pieceLength = p) := by
    intro b bs ps
    induction ps with
    | nil => rfl
    | cons p ps ih =>
      rw [List.map_cons, List.sum_cons, ih, List.map_cons, List.sum_cons, List.countP_cons,
        List.countP_cons]
      omega
  have hcount : ∀ bs : List ℕ,
      (pieces.map fun p => bs.countP fun b => b / L.pieceLength = p).sum ≤ bs.length := by
    intro bs
    induction bs with
    | nil => simp
    | cons b bs ih =>
      have hone : pieces.countP (fun p => b / L.pieceLength = p) ≤ 1 := by
        have h := List.nodup_iff_count_le_one.mp hnodup (b / L.pieceLength)
        simpa [List.count, eq_comm, beq_eq_decide] using h
      rw [hcons, List.length_cons]
      omega
  have h := hcount (List.range' fi.offsetInTorrent fi.len)
  rwa [List.length_range'] at h

/-! ## What the counters are for -/

/-- **The bytes of a file that lie in a piece we have.** -/
def fileBytes (havePieces : PieceBits L) (fi : FileInfo) : ℕ :=
  ((fi.pieceRange.toList.filter havePieces.get).map (bytesInFile L fi)).sum

lemma fileBytes_le (havePieces : PieceBits L) (fi : FileInfo) :
    fileBytes havePieces fi ≤ fi.len :=
  sum_bytesInFile_le fi (fi.pieceRange.nodup_toList.filter _)

lemma sum_filter_insert {f g p} (w : ℕ → ℕ) (hf : f p = false)
    (hg : g p) (hne : ∀ q, q ≠ p → f q = g q) {l : List ℕ} (hnodup : l.Nodup) :
    ((l.filter g).map w).sum = ((l.filter f).map w).sum + if p ∈ l then w p else 0 := by
  induction l with
  | nil => rfl
  | cons a l ih =>
    obtain ⟨ha, hl⟩ := List.nodup_cons.mp hnodup
    have ih := ih hl
    rcases eq_or_ne a p with rfl | hap
    · rw [if_neg ha] at ih
      rw [List.filter_cons_of_pos hg, List.filter_cons_of_neg (by simp [hf])]
      simp [ih, Nat.add_comm]
    simp only [List.mem_cons, hap.symm, false_or]
    by_cases hfa : f a
    · rw [List.filter_cons_of_pos (hne a hap ▸ hfa), List.filter_cons_of_pos hfa]
      simp only [List.map_cons, List.sum_cons, ih, Nat.add_assoc]
    · rw [List.filter_cons_of_neg (hne a hap ▸ hfa), List.filter_cons_of_neg hfa, ih]

/-- **A new piece adds the bytes it shares with the file**, if it is in the file's range. -/
theorem fileBytes_set {havePieces : PieceBits L} {p : ValidPieceIndex L}
    (hp : havePieces.get p.1 = false) (fi : FileInfo) :
    fileBytes (havePieces.set p.1 true) fi = fileBytes havePieces fi +
      if fi.pieceRange.contains p.1 = true then bytesInFile L fi p.1 else 0 := by
  have h := sum_filter_insert (bytesInFile L fi) hp
    (get_set_self _ (Lengths.lt_pieceBits p) _)
    (fun q hq => (get_set_of_ne _ (Ne.symm hq) _).symm) fi.pieceRange.nodup_toList
  simp only [Span.mem_toList, ← Span.contains_iff] at h
  exact h

lemma recalculatePerFileBytes_eq (hpl : 0 < L.pieceLength) (havePieces : PieceBits L)
    (fileInfos : List FileInfo) :
    ChunkTracker.recalculatePerFileBytes havePieces fileInfos
      = fileInfos.map (fileBytes havePieces) := by
  refine List.map_congr_left fun fi _ => ?_
  congr 1
  exact List.map_congr_left fun p _ => sizeOfPieceInFile_eq hpl fi p

namespace ChunkTracker

/-! ## One completed piece -/

section OnePiece

variable (fileInfos : List FileInfo) (p : ValidPieceIndex L) {i : ℕ} {fi : FileInfo}

/-- The files of a piece that `onPieceCompleted` finds, with their indices. -/
def filesFound : List (FileInfo × ℕ) :=
  firstBlock (fun f => f.1.pieceRange.contains p.1) fileInfos.zipIdx

lemma filesFound_sublist : (filesFound fileInfos p).Sublist fileInfos.zipIdx :=
  (List.takeWhile_sublist _).trans (List.dropWhile_sublist _)

/-- A file has one entry in a list of files with their indices. -/
lemma filter_zipIdx (hi : fileInfos[i]? = some fi) :
    fileInfos.zipIdx.filter (fun f => f.2 = i) = [(fi, i)] := by
  have hgen : ∀ (fs : List FileInfo) (n : ℕ), n ≤ i → fs[i - n]? = some fi →
      (fs.zipIdx n).filter (fun f => f.2 = i) = [(fi, i)] := by
    intro fs
    induction fs with
    | nil => intro n _ h; simp at h
    | cons f fs ih =>
      intro n hn h
      rcases Nat.eq_or_lt_of_le hn with rfl | hlt
      · have hrest : (fs.zipIdx (n + 1)).filter (fun f => f.2 = n) = [] := by
          refine List.filter_eq_nil_iff.mpr fun x hx => ?_
          have := List.le_snd_of_mem_zipIdx hx
          simp only [decide_eq_true_eq]
          omega
        rw [Nat.sub_self, List.getElem?_cons_zero, Option.some.injEq] at h
        simp [List.zipIdx_cons, hrest, h]
      · rw [List.zipIdx_cons, List.filter_cons_of_neg (by simp only [decide_eq_true_eq]; omega)]
        refine ih (n + 1) hlt ?_
        rwa [show i - n = i - (n + 1) + 1 by omega, List.getElem?_cons_succ] at h
  exact hgen fileInfos 0 (Nat.zero_le _) (by simpa using hi)

lemma getElem?_perFileBytes_foldl (fs : List (FileInfo × ℕ)) (i : ℕ) (ct : ChunkTracker L) :
    (fs.foldl (fun ct f => (ct.updateFileHaveOnPieceCompleted p f.2 f.1).1) ct).perFileBytes[i]?
      = ct.perFileBytes[i]?.map (· + ((fs.filter fun f => f.2 = i).map fun f =>
        L.sizeOfPieceInFile p.1 f.1.offsetInTorrent f.1.len).sum) := by
  induction fs generalizing ct with
  | nil => simp
  | cons f fs ih =>
    rw [List.foldl_cons, ih, updateFileHaveOnPieceCompleted]
    rcases eq_or_ne f.2 i with rfl | hfi
    · rw [List.getElem?_set_self']
      cases h : ct.perFileBytes[f.2]? with
      | none => simp
      | some n => simp [List.getD_eq_getElem?_getD, h, Nat.add_assoc]
    · rw [List.filter_cons_of_neg (by simpa using hfi), List.getElem?_set_ne hfi]

/-- **A completed piece adds to the counter of a file the bytes they share**, if the file is one of
those found. -/
theorem getElem?_perFileBytes_onPieceCompleted (hpl : 0 < L.pieceLength) (ct : ChunkTracker L)
    (hi : fileInfos[i]? = some fi) :
    (ct.onPieceCompleted fileInfos p).perFileBytes[i]? = ct.perFileBytes[i]?.map
      (· + if (fi, i) ∈ filesFound fileInfos p then bytesInFile L fi p.1 else 0) := by
  have hsub : ((filesFound fileInfos p).filter fun f => f.2 = i).Sublist [(fi, i)] :=
    filter_zipIdx fileInfos hi ▸ (filesFound_sublist fileInfos p).filter _
  refine (getElem?_perFileBytes_foldl p (filesFound fileInfos p) i ct).trans ?_
  congr 2
  funext n
  congr 1
  rcases List.sublist_singleton.mp hsub with hnil | hone
  · have hnot : (fi, i) ∉ filesFound fileInfos p := fun hmem => by
      simpa using List.filter_eq_nil_iff.mp hnil (fi, i) hmem
    rw [hnil, if_neg hnot]
    rfl
  · have hmem : (fi, i) ∈ filesFound fileInfos p :=
      List.mem_of_mem_filter (hone ▸ List.mem_singleton_self _)
    rw [hone, if_pos hmem, List.map_singleton, List.sum_singleton, sizeOfPieceInFile_eq hpl]

lemma gapless_zipIdx :
    Gapless (fun f : FileInfo × ℕ => f.1.pieceRange.contains p.1) fileInfos.zipIdx ↔
      Gapless (fun fi : FileInfo => fi.pieceRange.contains p.1) fileInfos := by
  rw [← gapless_map (c := fun fi : FileInfo => fi.pieceRange.contains p.1),
    List.zipIdx_map_fst]

/-- Without a gap every file of the piece is found. -/
lemma mem_filesFound_iff
    (hgap : Gapless (fun fi : FileInfo => fi.pieceRange.contains p.1) fileInfos)
    (hi : fileInfos[i]? = some fi) :
    (fi, i) ∈ filesFound fileInfos p ↔ fi.pieceRange.contains p.1 := by
  rw [← gapless_zipIdx, gapless_iff] at hgap
  have hnil : (afterBlock (fun f : FileInfo × ℕ => f.1.pieceRange.contains p.1)
      fileInfos.zipIdx).filter (fun f => f.1.pieceRange.contains p.1) = [] :=
    List.filter_eq_nil_iff.mpr fun f hf => by simpa using hgap f hf
  have hfound := filter_eq_firstBlock_append
    (c := fun f : FileInfo × ℕ => f.1.pieceRange.contains p.1) (l := fileInfos.zipIdx)
  rw [hnil, List.append_nil] at hfound
  rw [filesFound, ← hfound, List.mem_filter, List.mem_zipIdx_iff_getElem?]
  simp [hi]

/-- Some file of the piece is found, if there is one. -/
lemma exists_mem_filesFound (h : ∃ fi ∈ fileInfos, fi.pieceRange.contains p.1) :
    ∃ i fi, fileInfos[i]? = some fi ∧ fi.pieceRange.contains p.1 ∧
      (fi, i) ∈ filesFound fileInfos p := by
  obtain ⟨fi, hfi, hcontains⟩ := h
  obtain ⟨i, hi⟩ := List.mem_iff_getElem?.mp hfi
  obtain ⟨⟨fj, j⟩, hfound, hj⟩ := exists_mem_firstBlock
    (c := fun f : FileInfo × ℕ => f.1.pieceRange.contains p.1)
    ⟨(fi, i), List.mem_zipIdx_iff_getElem?.mpr hi, hcontains⟩
  exact ⟨j, fj, List.mem_zipIdx_iff_getElem?.mp ((filesFound_sublist _ p).subset hfound), hj,
    hfound⟩

/-- Behind a gap there is a file of the piece that is not found. -/
lemma exists_not_mem_filesFound
    (hgap : ¬ Gapless (fun fi : FileInfo => fi.pieceRange.contains p.1) fileInfos) :
    ∃ i fi, fileInfos[i]? = some fi ∧ fi.pieceRange.contains p.1 ∧
      (fi, i) ∉ filesFound fileInfos p := by
  rw [← gapless_zipIdx, gapless_iff] at hgap
  push Not at hgap
  obtain ⟨⟨fi, i⟩, hafter, hcontains⟩ := hgap
  have hnodup : fileInfos.zipIdx.Nodup := by
    refine List.Nodup.of_map Prod.snd ?_
    rw [List.zipIdx_map_snd]
    exact List.nodup_range'
  refine ⟨i, fi, ?_, Bool.eq_true_of_not_eq_false hcontains,
    fun hmem => disjoint_firstBlock_afterBlock hnodup hmem hafter⟩
  exact List.mem_zipIdx_iff_getElem?.mp ((List.dropWhile_sublist _).subset
    ((List.dropWhile_sublist _).subset hafter))

end OnePiece

/-! ## Whole runs -/

/-- **Every counter is the number of bytes of its file in the pieces we have.** -/
def FileBytesExact (fileInfos : List FileInfo) (ct : ChunkTracker L) : Prop :=
  ct.perFileBytes = fileInfos.map (fileBytes ct.havePieces)
  deriving Decidable

/-- No counter exceeds the length of its file. -/
def FileBytesFit (fileInfos : List FileInfo) (ct : ChunkTracker L) : Prop :=
  List.Forall₂ (fun bytes fi => bytes ≤ fi.len) ct.perFileBytes fileInfos

/-- One completion: the piece is marked downloaded and counted. -/
def completePiece (fileInfos : List FileInfo) (ct : ChunkTracker L) (p : ValidPieceIndex L) :
    Option (ChunkTracker L) :=
  some ((ct.markPieceDownloaded p).onPieceCompleted fileInfos p)

/-- A completion that counts right: the piece is new, and between two files that contain it there
are only files that contain it. -/
def CountsOnce (fileInfos : List FileInfo) (ct : ChunkTracker L) (p : ValidPieceIndex L) : Prop :=
  ct.isPieceHave p = false ∧ Gapless (fun fi : FileInfo => fi.pieceRange.contains p.1) fileInfos

variable {fileInfos : List FileInfo}

lemma FileBytesExact.fit {ct : ChunkTracker L}
    (h : FileBytesExact fileInfos ct) : FileBytesFit fileInfos ct := by
  rw [FileBytesFit, h, List.forall₂_map_left_iff, List.forall₂_same]
  exact fun fi _ => fileBytes_le _ fi

lemma havePieces_completePiece (fileInfos : List FileInfo) (ct : ChunkTracker L)
    (p : ValidPieceIndex L) :
    ((ct.markPieceDownloaded p).onPieceCompleted fileInfos p).havePieces
      = if ct.isPieceHave p = true then ct.havePieces else ct.havePieces.set p.1 true := by
  rw [havePieces_onPieceCompleted, markPieceDownloaded, isPieceHave]
  split <;> rfl

variable {ct ct' : ChunkTracker L} {p : ValidPieceIndex L}

/-- **A completion keeps the counters exact when it adds to each file what the piece newly
brings.** -/
theorem fileBytesExact_completePiece_iff (hpl : 0 < L.pieceLength) (h : FileBytesExact fileInfos ct)
    (hstep : completePiece fileInfos ct p = some ct') :
    FileBytesExact fileInfos ct' ↔ ∀ i fi, fileInfos[i]? = some fi →
      (if (fi, i) ∈ filesFound fileInfos p then bytesInFile L fi p.1 else 0)
        = if ct.isPieceHave p = false ∧ fi.pieceRange.contains p.1
          then bytesInFile L fi p.1 else 0 := by
  cases hstep
  have hbytes : (ct.markPieceDownloaded p).perFileBytes = fileInfos.map (fileBytes ct.havePieces) :=
    (ct.perFileBytes_markPieceDownloaded p).trans h
  have hnew : ∀ fi, fileBytes (if ct.isPieceHave p = true then ct.havePieces
        else ct.havePieces.set p.1 true) fi
      = fileBytes ct.havePieces fi +
        if ct.isPieceHave p = false ∧ fi.pieceRange.contains p.1
          then bytesInFile L fi p.1 else 0 := by
    intro fi
    by_cases hp : ct.isPieceHave p
    · simp [hp]
    · rw [Bool.not_eq_true] at hp
      simpa [hp] using fileBytes_set hp fi
  rw [FileBytesExact, havePieces_completePiece, List.ext_getElem?_iff]
  refine ⟨fun heq i fi hi => ?_, fun heq i => ?_⟩
  · have hcount := heq i
    rw [getElem?_perFileBytes_onPieceCompleted fileInfos p hpl _ hi, hbytes, List.getElem?_map,
      List.getElem?_map, hi] at hcount
    simpa [hnew] using hcount
  · cases hi : fileInfos[i]? with
    | none =>
      refine (getElem?_perFileBytes_foldl p (filesFound fileInfos p) i _).trans ?_
      rw [hbytes, List.getElem?_map, List.getElem?_map, hi]
      rfl
    | some fi =>
      rw [getElem?_perFileBytes_onPieceCompleted fileInfos p hpl _ hi, hbytes, List.getElem?_map,
        List.getElem?_map, hi]
      simpa [hnew] using heq i fi hi

lemma FileBytesExact.completePiece (hpl : 0 < L.pieceLength) (h : FileBytesExact fileInfos ct)
    (hcounts : CountsOnce fileInfos ct p) (hstep : completePiece fileInfos ct p = some ct') :
    FileBytesExact fileInfos ct' := by
  refine (fileBytesExact_completePiece_iff hpl h hstep).mpr fun i fi hi => ?_
  simp only [mem_filesFound_iff fileInfos p hcounts.2 hi, hcounts.1, true_and]

end ChunkTracker

/-! ## The layout of a torrent -/

namespace Layout

variable (lay : Layout L) {fi : FileInfo} (p : ValidPieceIndex L)

/-- A piece in the range of a file shares a byte with it. -/
lemma bytesInFile_pos (hfi : fi ∈ lay.fileInfos) (h : fi.pieceRange.contains p.1) :
    0 < bytesInFile L fi p.1 := by
  obtain ⟨hlo, hhi, hlen⟩ := (lay.contains_pieceRange hfi).mp h
  have hpl := lay.exact.pieceLength_pos
  rw [← sizeOfPieceInFile_eq hpl, Lengths.sizeOfPieceInFile]
  rw [Nat.add_mul] at hlo
  omega

end Layout

namespace ChunkTracker

/-- On the layout of a torrent, a completion keeps the counters exact only if it counts right. -/
lemma countsOnce_of_fileBytesExact (lay : Layout L) {ct ct'}
    {p : ValidPieceIndex L} (h : FileBytesExact lay.fileInfos ct)
    (hstep : completePiece lay.fileInfos ct p = some ct')
    (h' : FileBytesExact lay.fileInfos ct') : CountsOnce lay.fileInfos ct p := by
  have hiff := (fileBytesExact_completePiece_iff lay.exact.pieceLength_pos h hstep).mp h'
  have hpos : ∀ {i fi}, lay.fileInfos[i]? = some fi → fi.pieceRange.contains p.1 →
      0 < bytesInFile L fi p.1 := fun hi => lay.bytesInFile_pos p (List.mem_of_getElem? hi)
  have hnew : ct.isPieceHave p = false := by
    obtain ⟨i, fi, hi, hcontains, hfound⟩ :=
      exists_mem_filesFound lay.fileInfos p (lay.exists_contains p)
    have hcount := hiff i fi hi
    have hbytes := hpos hi hcontains
    rw [if_pos hfound] at hcount
    by_contra hhave
    rw [if_neg (by simp [hhave])] at hcount
    omega
  refine ⟨hnew, ?_⟩
  by_contra hgap
  obtain ⟨i, fi, hi, hcontains, hnot⟩ := exists_not_mem_filesFound lay.fileInfos p hgap
  have hcount := hiff i fi hi
  have hbytes := hpos hi hcontains
  rw [if_neg hnot, if_pos ⟨hnew, hcontains⟩] at hcount
  omega

/-- **The per-file counters are exact along every run of completions that count right**, and on the
layout of a torrent along no other. -/
theorem fileBytesExact_along_countsOnce (hpl : 0 < L.pieceLength)
    {havePieces selected : PieceBits L} {fileInfos : List FileInfo} {ct : ChunkTracker L}
    (hnew : new havePieces selected fileInfos = .ok ct) (ps : List (ValidPieceIndex L)) :
    (Along (completePiece fileInfos) (CountsOnce fileInfos) ct ps → Always (completePiece fileInfos)
        (fun ct => FileBytesExact fileInfos ct ∧ FileBytesFit fileInfos ct) ct ps) ∧
    ∀ lay : Layout L, fileInfos = lay.fileInfos →
      Always (completePiece fileInfos)
        (fun ct => FileBytesExact fileInfos ct ∧ FileBytesFit fileInfos ct) ct ps →
      Along (completePiece fileInfos) (CountsOnce fileInfos) ct ps := by
  have hstart : FileBytesExact fileInfos ct := by
    obtain ⟨_, -, rfl⟩ := new_eq_ok hnew
    exact recalculatePerFileBytes_eq hpl _ _
  constructor
  · intro hcounts
    have hrun := always_of_along (fun _ _ _ h hC hstep => h.completePiece hpl hC hstep) hstart
      hcounts
    exact hrun.mono fun _ h => ⟨h, h.fit⟩
  · rintro lay rfl hrun
    have hexact : ∀ ct ct' p, FileBytesExact lay.fileInfos ct →
        completePiece lay.fileInfos ct p = some ct' →
        (FileBytesExact lay.fileInfos ct' ↔ CountsOnce lay.fileInfos ct p) :=
      fun _ _ _ h hstep => ⟨countsOnce_of_fileBytesExact lay h hstep,
        fun hC => h.completePiece hpl hC hstep⟩
    exact (always_iff_along (fun _ _ _ h hstep => hexact _ _ _ h hstep) hstart ps).mp
      (hrun.mono fun _ h => h.1)

/-! ### A file of length zero in the middle of a piece -/

section EmptyFile

/-- A torrent of one piece of ten bytes. -/
def tenBytes : Lengths := ⟨10, 10, 0, 10, 1⟩

/-- Its files: of the given lengths. -/
def tenBytesLayout (lens : List ℕ) (h : lens.sum = 10) : Layout tenBytes where
  entries := lens.map fun len => { len }
  exact := Lengths.exact_of_new (show Lengths.new 10 10 = .ok tenBytes by decide) (by norm_num)
    (by decide)
  sum_len := by simpa [Function.comp_def, tenBytes] using h

/-- Nothing there, everything selected. -/
def tenBytesTracker (files : ℕ) : ChunkTracker tenBytes where
  queuePieces := (zeros _).set 0 true
  chunkStatus := zeros _
  havePieces := zeros _
  selected := (zeros _).set 0 true
  perFileBytes := List.replicate files 0
  hns := { neededBytes := 10, selectedBytes := 10 }

/-- Two files that share a piece: both are counted. -/
theorem fileBytesExact_two_files :
    new (zeros _) ((zeros _).set 0 true) (tenBytesLayout [5, 5] rfl).fileInfos
        = .ok (tenBytesTracker 2) ∧
      Always (completePiece (tenBytesLayout [5, 5] rfl).fileInfos)
        (fun ct => FileBytesExact (tenBytesLayout [5, 5] rfl).fileInfos ct ∧
          FileBytesFit (tenBytesLayout [5, 5] rfl).fileInfos ct) (tenBytesTracker 2) [0] := by
  refine ⟨?new, (fileBytesExact_along_countsOnce (by decide) ?new _).1 ?_⟩
  · decide
  intro ct' _
  refine ⟨⟨by decide, gapless_iff.mpr ?_⟩, trivial⟩
  decide

/-- **A file of length zero between two files that share a piece hides the second from the
count.** -/
theorem not_fileBytesExact_empty_file :
    new (zeros _) ((zeros _).set 0 true) (tenBytesLayout [5, 0, 5] rfl).fileInfos
        = .ok (tenBytesTracker 3) ∧
      ¬ Always (completePiece (tenBytesLayout [5, 0, 5] rfl).fileInfos)
        (fun ct => FileBytesExact (tenBytesLayout [5, 0, 5] rfl).fileInfos ct ∧
          FileBytesFit (tenBytesLayout [5, 0, 5] rfl).fileInfos ct) (tenBytesTracker 3) [0] := by
  refine ⟨by decide, fun h => ?_⟩
  have hexact : FileBytesExact (tenBytesLayout [5, 0, 5] rfl).fileInfos
      (((tenBytesTracker 3).markPieceDownloaded 0).onPieceCompleted
        (tenBytesLayout [5, 0, 5] rfl).fileInfos 0) := (h.2 _ rfl).1
  revert hexact
  decide

end EmptyFile

end ChunkTracker

end Librtbit
