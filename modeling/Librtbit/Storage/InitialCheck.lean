import Librtbit.Storage.PieceContent

/-!
# Storage/InitialCheck — one pass over the files, and what it misses

`initial_check` and `check_piece` are meant to agree on every piece.  They differ in one place: when
the cursor is in a file that failed to read in an *earlier* piece, the bytes of the current piece in
that file are passed over without a mark that something is missing, and the rest of the piece is
hashed alone.  `skippedBytes` is how many bytes that are.

`exists_initialCheck` describes every bit the pass sets, and `initialCheck_agrees_iff` says when all
of them are those of `check_piece`.
-/

namespace Librtbit.FileOps

open Machinery CurrentFile List Option

variable {L : Lengths} {Digest : Type} [DecidableEq Digest] (fo : FileOps Digest)

/-- The bytes at the beginning of a piece that lie in a file of which an earlier byte cannot be
read. -/
def skippedBytes (p : ValidPieceIndex L) : ℕ :=
  match fileAt fo.fileInfos (L.pieceOffset p) with
  | none => 0
  | some f =>
    if (readSlice (fo.files.fileByte f) 0 (L.pieceOffset p - f.1.offsetInTorrent)).isNone then
      min (f.1.offsetInTorrent + f.1.len - L.pieceOffset p) (L.pieceLengthOf p)
    else 0

/-- The piece, without the bytes that are passed over, hashes to its digest. -/
def RestMatches (p : ValidPieceIndex L) : Prop :=
  ∃ bytes, readSlice fo.byteAt (L.pieceOffset p + fo.skippedBytes p)
      (L.pieceLengthOf p - fo.skippedBytes p) = some bytes ∧
    fo.getHash p.1 = some (fo.sha1 bytes)

/-! ## The cursor -/

/-- **What reading a stretch of the torrent does to a scan**: its bytes are hashed, or the flag is
set when they cannot be read.  Of a scan with the flag the hash does not matter. -/
def PieceScan.Hashes (s s' : PieceScan) : Option ByteBuf → Prop
  | some bytes => s'.someFilesBroken = s.someFilesBroken ∧
      (s.someFilesBroken = false → s'.computedHash = s.computedHash ++ bytes)
  | none => s'.someFilesBroken = true

/-- Nothing is read. -/
lemma PieceScan.Hashes.of_eq {s s' : PieceScan} (hflag : s'.someFilesBroken = s.someFilesBroken)
    (hhash : s'.computedHash = s.computedHash) : s.Hashes s' (some []) :=
  ⟨hflag, fun _ => by rw [hhash, append_nil]⟩

/-- Two stretches are read one after the other. -/
lemma PieceScan.Hashes.trans {s s₁ s₂ : PieceScan} {first second}
    (h₁ : s.Hashes s₁ first) (h₂ : s₁.Hashes s₂ second) :
    s.Hashes s₂ (first.bind fun bytes => second.map (bytes ++ ·)) := by
  cases first with
  | none =>
    cases second with
    | none => exact h₂
    | some bytes' => exact h₂.1.trans h₁
  | some bytes =>
    cases second with
    | none => exact h₂
    | some bytes' =>
      refine ⟨h₂.1.trans h₁.1, fun hok => ?_⟩
      rw [h₂.2 (h₁.1.trans hok), h₁.2 hok, append_assoc]

/-- The cursor is at a position of the torrent, with the right files behind it, and its flag says
whether the file could be read so far. -/
structure CursorAt (total pos : ℕ) (current : CurrentFile) (rest : List (FileInfo × ℕ)) :
    Prop where
  current_mem : (current.fi, current.index) ∈ fo.fileInfos.zipIdx
  rest_mem : ∀ f ∈ rest, f ∈ fo.fileInfos.zipIdx
  laid : Laid (current.fi.offsetInTorrent + current.fi.len) rest total
  processed_le : current.processedBytes ≤ current.fi.len
  pos_eq : current.fi.offsetInTorrent + current.processedBytes = pos
  isBroken_iff : current.isBroken = true ↔
    readSlice (fo.files.fileByte (current.fi, current.index)) 0 current.processedBytes = none

variable {fo}

omit [DecidableEq Digest] in
/-- **Looking for the next file moves the cursor to one with bytes left**, without moving its
position; a file it changes to has not failed yet. -/
theorem CursorAt.nextFile {total pos n current rest}
    (h : fo.CursorAt total pos current rest) (hn : 0 < n) (hend : pos + n ≤ total) :
    ∃ current' rest', FileOps.nextFile n rest current = .ok (current', rest') ∧
      fo.CursorAt total pos current' rest' ∧ 0 < current'.remaining ∧
      (current' = current ∨ current.remaining = 0 ∧ current'.isBroken = false ∧
        current'.processedBytes = 0) := by
  induction rest generalizing current with
  | nil =>
    have hlast : current.fi.offsetInTorrent + current.fi.len = total := h.laid
    have hpos := h.pos_eq
    have hrem : 0 < current.remaining := by
      rw [remaining]
      omega
    refine ⟨current, [], ?_, h, hrem, .inl rfl⟩
    rw [FileOps.nextFile, if_neg (by omega)]
  | cons f rest ih =>
    rw [FileOps.nextFile]
    by_cases hzero : min current.remaining n = 0
    · have hrem : current.remaining = 0 := by omega
      have hpos := h.pos_eq
      have hle := h.processed_le
      rw [remaining] at hrem
      obtain ⟨hf, hrest⟩ := forall_mem_cons.mp h.rest_mem
      have henter : fo.CursorAt total pos (enter f) rest := {
        current_mem := hf
        rest_mem := hrest
        laid := by
          have hlaid := h.laid.2
          rw [← h.laid.1] at hlaid
          exact hlaid
        processed_le := Nat.zero_le _
        pos_eq := by
          have hlaid := h.laid.1
          simp only [enter]
          omega
        isBroken_iff := by simp [enter] }
      obtain ⟨current', rest', hnext, hat, hrem', hcase⟩ := ih henter
      refine ⟨current', rest', by rw [if_pos hzero, hnext], hat, hrem', .inr ⟨hrem, ?_⟩⟩
      rcases hcase with rfl | ⟨-, hfresh⟩
      · exact ⟨rfl, rfl⟩
      · exact hfresh
    · refine ⟨current, f :: rest, if_neg hzero, h, ?_, .inl rfl⟩
      omega

section Layout

variable {lay : Layout L} (hlay : fo.fileInfos = lay.fileInfos)

include hlay

omit [DecidableEq Digest] in
/-- **One read moves the cursor on.**  A file that failed before is passed over; otherwise the hash
gets the bytes of the torrent, or the flags are set. -/
theorem CursorAt.readInFile {pos m s}
    (h : fo.CursorAt L.totalLength pos s.current s.rest) (hm : m ≤ s.current.remaining) :
    fo.CursorAt L.totalLength (pos + m) (fo.readInFile s m).current (fo.readInFile s m).rest ∧
      (fo.readInFile s m).current.remaining = s.current.remaining - m ∧
      s.Hashes (fo.readInFile s m)
        (if s.current.isBroken = true then some [] else readSlice fo.byteAt pos m) := by
  have hle := h.processed_le
  have hpos := h.pos_eq
  rw [remaining] at hm
  have hslice : readSlice (fo.files.fileByte (s.current.fi, s.current.index))
      s.current.processedBytes m = readSlice fo.byteAt pos m := by
    rw [readSlice_fileByte_eq hlay h.current_mem (by dsimp only; omega), ← hpos]
  have hsplit := readSlice_add (fo.files.fileByte (s.current.fi, s.current.index)) 0
    s.current.processedBytes m
  rw [Nat.zero_add, hslice] at hsplit
  have hcursor : ∀ b, (b = true ↔ readSlice (fo.files.fileByte (s.current.fi, s.current.index)) 0
      (s.current.processedBytes + m) = none) →
      fo.CursorAt L.totalLength (pos + m)
        { s.current with processedBytes := s.current.processedBytes + m, isBroken := b } s.rest :=
    fun b hb => {
      current_mem := h.current_mem
      rest_mem := h.rest_mem
      laid := h.laid
      processed_le := by dsimp only; omega
      pos_eq := by dsimp only; omega
      isBroken_iff := hb }
  rw [FileOps.readInFile]
  by_cases hbroken : s.current.isBroken
  · have hnone := h.isBroken_iff.mp hbroken
    simp only [markProcessedBytes, hbroken, if_true]
    exact ⟨hcursor true (by rw [hsplit, hnone]; simp), Nat.sub_add_eq _ _ _, .of_eq rfl rfl⟩
  obtain ⟨before, hbefore⟩ := ne_none_iff_exists'.mp (mt h.isBroken_iff.mpr hbroken)
  have hread := updateHashFromFile_spec fo.files s.current.index s.current.fi
    (show 0 < 65536 by norm_num) (le_refl m) s.current.processedBytes 0 s.computedHash
  rw [hslice] at hread
  simp only [markProcessedBytes, hbroken, Bool.false_eq_true, if_false]
  rw [hbefore] at hsplit
  cases hbytes : readSlice fo.byteAt pos m with
  | none =>
    rw [hbytes] at hread hsplit
    obtain ⟨hash', e, hread⟩ := hread
    rw [hread]
    exact ⟨hcursor true (by simp [hsplit]), Nat.sub_add_eq _ _ _, rfl⟩
  | some bytes =>
    rw [hbytes] at hread hsplit
    rw [hread]
    exact ⟨hcursor false (by simp [hsplit]), Nat.sub_add_eq _ _ _, rfl, fun _ => rfl⟩

omit [DecidableEq Digest] in
/-- **The loop over a piece hashes the bytes of the torrent**, except those in a file that failed
before; the flag is set when one of the others cannot be read. -/
theorem scanPiece_spec {fuel n pos} (hn : n ≤ fuel) {s}
    (h : fo.CursorAt L.totalLength pos s.current s.rest) (hend : pos + n ≤ L.totalLength) :
    ∃ s', fo.scanPiece fuel n s = .ok s' ∧
      fo.CursorAt L.totalLength (pos + n) s'.current s'.rest ∧
      ∀ skip, skip = (if s.current.isBroken = true then min s.current.remaining n else 0) →
        s.Hashes s' (readSlice fo.byteAt (pos + skip) (n - skip)) := by
  induction fuel generalizing n pos s with
  | zero =>
    obtain rfl : n = 0 := Nat.le_zero.mp hn
    refine ⟨s, rfl, h, fun skip _ => ?_⟩
    rw [Nat.zero_sub]
    exact .of_eq rfl rfl
  | succ fuel ih =>
    rcases Nat.eq_zero_or_pos n with rfl | hpos
    · refine ⟨s, by simp [scanPiece], h, fun skip _ => ?_⟩
      rw [Nat.zero_sub]
      exact .of_eq rfl rfl
    obtain ⟨current, rest, hnext, hat, hrem, hcase⟩ := h.nextFile hpos hend
    obtain ⟨m, hm⟩ : ∃ m, m = min current.remaining n := ⟨_, rfl⟩
    obtain ⟨hat', hrem', hread⟩ := CursorAt.readInFile hlay (m := m)
      (s := { s with current, rest }) hat (by dsimp only; omega)
    obtain ⟨s', hs', hcur', hspec⟩ := ih (n := n - m) (by omega) hat' (by omega)
    refine ⟨s', ?_, ?_, fun skip hskip => ?_⟩
    · rw [scanPiece, if_neg hpos.ne', hnext]
      dsimp only [bind, Except.bind]
      rw [← hm]
      exact hs'
    · rw [show pos + n = pos + m + (n - m) by omega]
      exact hcur'
    · -- behind this read the cursor is at the end of its file, or the piece is read
      have hskip' : (0 : ℕ) =
          if (fo.readInFile { s with current, rest } m).current.isBroken = true then
            min (fo.readInFile { s with current, rest } m).current.remaining (n - m)
          else 0 := by
        rw [hrem']
        dsimp only
        split <;> omega
      have hspec := hread.trans (hspec 0 hskip')
      by_cases hbroken : current.isBroken
      · obtain rfl : current = s.current := by
          rcases hcase with heq | ⟨-, hfresh, -⟩
          · exact heq
          · rw [hbroken] at hfresh
            cases hfresh
        rw [hskip, if_pos hbroken, ← hm]
        simp only [hbroken, if_true, bind_some, nil_append, Option.map_id'] at hspec
        exact hspec
      · obtain rfl : skip = 0 := by
          rw [hskip]
          rcases hcase with rfl | ⟨hzero, -⟩
          · rw [if_neg hbroken]
          · rw [hzero, Nat.zero_min, ite_self]
        have hsplit := readSlice_add fo.byteAt pos m (n - m)
        rw [Nat.add_sub_cancel' (show m ≤ n by omega)] at hsplit
        rw [Nat.add_zero, Nat.sub_zero, hsplit]
        rwa [if_neg hbroken] at hspec

/-! ## One piece -/

variable {p : ValidPieceIndex L}

omit [DecidableEq Digest] in
/-- The bytes the loop passes over are those of `skippedBytes`. -/
lemma CursorAt.skip_eq {current rest}
    (h : fo.CursorAt L.totalLength (L.pieceOffset p) current rest) :
    fo.skippedBytes p =
      if current.isBroken = true then min current.remaining (L.pieceLengthOf p) else 0 := by
  have hend := lay.exact.pieceOffset_add_pieceLengthOf p
  obtain ⟨current', rest', -, hat, hrem, hcase⟩ :=
    h.nextFile (lay.exact.pieceLengthOf_pos p) (by omega)
  have hpos := hat.pos_eq
  rw [remaining] at hrem
  have hfile : fileAt fo.fileInfos (L.pieceOffset p) = some (current'.fi, current'.index) := by
    have hmem := hat.current_mem
    rw [hlay] at hmem ⊢
    exact lay.fileAt_eq hmem (by dsimp only; omega) (by dsimp only; omega)
  have hbefore : L.pieceOffset p - current'.fi.offsetInTorrent = current'.processedBytes := by omega
  rw [skippedBytes, hfile]
  simp only [hbefore, isNone_iff_eq_none, ← hat.isBroken_iff]
  rcases hcase with rfl | ⟨hzero, hfresh, -⟩
  · rw [remaining]
    congr 2
    omega
  · simp only [hfresh, Bool.false_eq_true, if_false, hzero, Nat.zero_min, ite_self]

section

variable {isCancelled : ValidPieceIndex L → Bool}

/-- **One round sets the bit of the piece exactly when what it hashed matches.** -/
theorem initialCheckPiece_spec {p} (hrun : isCancelled p = false)
    (hhash : (fo.getHash p.1).isSome) {st}
    (h : fo.CursorAt L.totalLength (L.pieceOffset p) st.current st.rest) :
    ∃ st', fo.initialCheckPiece isCancelled st ⟨p, L.pieceLengthOf p⟩ = .ok st' ∧
      fo.CursorAt L.totalLength (L.pieceOffset p + L.pieceLengthOf p) st'.current st'.rest ∧
      ∀ q, st'.havePieces.get q.1 ↔
        st.havePieces.get q.1 ∨ (q = p ∧ fo.RestMatches p) := by
  have hend := lay.exact.pieceOffset_add_pieceLengthOf p
  obtain ⟨s, hs, hcur, hspec⟩ := scanPiece_spec hlay (le_refl (L.pieceLengthOf p))
    (s := ⟨st.current, st.rest, [], false⟩) h (by omega)
  have hspec := hspec _ (CursorAt.skip_eq hlay h)
  obtain ⟨digest, hdigest⟩ := isSome_iff_exists.mp hhash
  rw [initialCheckPiece, hrun, hs]
  dsimp only [bind, Except.bind]
  cases hbytes : readSlice fo.byteAt (L.pieceOffset p + fo.skippedBytes p)
      (L.pieceLengthOf p - fo.skippedBytes p) with
  | none =>
    rw [hbytes] at hspec
    refine ⟨_, by rw [hspec]; rfl, hcur, fun q => ?_⟩
    simp [RestMatches, hbytes]
  | some bytes =>
    rw [hbytes] at hspec
    obtain ⟨hok, hcomputed⟩ := hspec
    rw [hcomputed rfl, hok, compareHash, hdigest]
    have hmatch : fo.RestMatches p ↔ digest = fo.sha1 bytes := by
      simp [RestMatches, hbytes, hdigest]
    rw [hmatch]
    by_cases heq : digest = fo.sha1 bytes
    · refine ⟨{ current := s.current, rest := s.rest
                havePieces := st.havePieces.set p.1 true }, by simp [heq]; rfl, hcur,
        fun q => ?_⟩
      rcases eq_or_ne q p with rfl | hqp
      · simp [heq, Lengths.lt_pieceBits]
      · simp [hqp, BitField.get_set_of_ne _ (Fin.val_ne_of_ne hqp.symm)]
    · refine ⟨{ st with current := s.current, rest := s.rest }, by simp [heq]; rfl, hcur,
        fun q => ?_⟩
      simp [heq]

/-! ## All pieces -/

variable (hrun : ∀ p, isCancelled p = false)
include hrun

variable (hhash : ∀ p : ValidPieceIndex L, (fo.getHash p.1).isSome)
include hhash

/-- **The rounds from piece `k` on set the bits of the pieces that match, and no other.** -/
theorem foldlM_initialCheckPiece {ps : List (ValidPieceIndex L)}
    {k} (hps : ps.map Fin.val = List.range' k ps.length) (st : CheckState L)
    (h : fo.CursorAt L.totalLength (min (k * L.pieceLength) L.totalLength) st.current st.rest) :
    ∃ st', (ps.map fun p => (⟨p, L.pieceLengthOf p⟩ : PieceInfo L)).foldlM
        (fo.initialCheckPiece isCancelled) st = .ok st' ∧
      ∀ q, st'.havePieces.get q.1 ↔
        st.havePieces.get q.1 ∨ (q ∈ ps ∧ fo.RestMatches q) := by
  induction ps generalizing k st with
  | nil => exact ⟨st, rfl, fun q => by simp⟩
  | cons p ps ih =>
    rw [map_cons, length_cons, range'_succ, List.cons.injEq] at hps
    obtain ⟨hp, hps⟩ := hps
    have hstart := lay.exact.pieceOffset_lt p
    have hend := lay.exact.pieceOffset_add_pieceLengthOf p
    rw [Nat.min_eq_left (by rw [← hp]; exact hstart.le), ← hp] at h
    obtain ⟨st₁, hst₁, hcur, hbits₁⟩ := initialCheckPiece_spec hlay (hrun p) (hhash p) h
    rw [hend, hp] at hcur
    obtain ⟨st', hst', hbits⟩ := ih hps st₁ hcur
    refine ⟨st', ?_, fun q => ?_⟩
    · rw [map_cons, foldlM_cons, hst₁]
      exact hst'
    rw [hbits, hbits₁, mem_cons]
    constructor
    · rintro ((hold | ⟨rfl, hmatch⟩) | ⟨hq, hmatch⟩)
      · exact .inl hold
      · exact .inr ⟨.inl rfl, hmatch⟩
      · exact .inr ⟨.inr hq, hmatch⟩
    · rintro (hold | ⟨rfl | hq, hmatch⟩)
      · exact .inl (.inl hold)
      · exact .inl (.inr ⟨rfl, hmatch⟩)
      · exact .inr ⟨hq, hmatch⟩

/-- **`initial_check` returns, and sets the bit of a piece exactly when its bytes that are not
passed over match.** -/
theorem exists_initialCheck :
    ∃ havePieces, fo.initialCheck isCancelled = .ok havePieces ∧
      ∀ p : ValidPieceIndex L, havePieces.get p.1 ↔ fo.RestMatches p := by
  have hlaid := lay.laid
  have htotal := lay.exact.pieceOffset_lt 0
  rw [← hlay] at hlaid
  rw [initialCheck]
  cases hfiles : fo.fileInfos.zipIdx with
  | nil =>
    rw [hfiles] at hlaid
    have : 0 = L.totalLength := hlaid
    omega
  | cons f rest =>
    rw [hfiles] at hlaid
    obtain ⟨hzero, hrest⟩ := hlaid
    have hcur : fo.CursorAt L.totalLength (min (0 * L.pieceLength) L.totalLength)
        (enter f) rest := {
      current_mem := by rw [hfiles]; exact mem_cons_self
      rest_mem := fun g hg => by rw [hfiles]; exact mem_cons_of_mem _ hg
      laid := by
        rw [← hzero] at hrest
        exact hrest
      processed_le := Nat.zero_le _
      pos_eq := by simp [enter, hzero]
      isBroken_iff := by simp [enter] }
    have hpieces : (List.finRange L.totalPieces).map Fin.val =
        List.range' 0 (List.finRange L.totalPieces).length := by
      rw [map_coe_finRange_eq_range, length_finRange, range_eq_range']
    obtain ⟨st, hst, hbits⟩ := foldlM_initialCheckPiece hlay hrun hhash hpieces
      ⟨enter f, rest, BitField.zeros L.pieceBits⟩ hcur
    refine ⟨st.havePieces, ?_, fun p => ?_⟩
    · dsimp only
      rw [Lengths.iterPieceInfos, hst]
      rfl
    · simp [hbits, mem_finRange]

end

/-! ## Agreement -/

omit [DecidableEq Digest] hlay in
lemma fileByte_eq_none {f pos i}
    (h : readSlice (fo.files.fileByte f) 0 pos = none) (hi : pos ≤ i) :
    fo.files.fileByte f i = none := by
  obtain ⟨j, -, hj, hnone⟩ := readSlice_eq_none_iff.mp h
  unfold Storage.fileByte at hnone ⊢
  split at hnone
  · cases hnone
  · rename_i hpad
    rw [if_neg hpad]
    cases hfile : fo.files f.2 with
    | none => rfl
    | some content =>
      rw [hfile, bind_some, List.getElem?_eq_none_iff] at hnone
      rw [bind_some, List.getElem?_eq_none_iff]
      omega

omit [DecidableEq Digest] hlay in
/-- Where bytes are passed over, the piece cannot be read. -/
lemma pieceContent_eq_none (lay : Layout L) (h : 0 < fo.skippedBytes p) :
    fo.pieceContent p = none := by
  rw [skippedBytes] at h
  cases hfile : fileAt fo.fileInfos (L.pieceOffset p) with
  | none =>
    rw [hfile] at h
    exact absurd h (lt_irrefl 0)
  | some f =>
    rw [hfile] at h
    dsimp only at h
    split at h
    · rename_i hnone
      refine readSlice_eq_none_iff.mpr ⟨L.pieceOffset p, le_rfl,
        Nat.lt_add_of_pos_right (lay.exact.pieceLengthOf_pos p), ?_⟩
      rw [byteAt, hfile]
      exact fileByte_eq_none (isNone_iff_eq_none.mp hnone) le_rfl
    · exact absurd h (lt_irrefl 0)

/-- **`initial_check` agrees with `check_piece` on every piece exactly when no piece matches without
bytes that were passed over.** -/
theorem initialCheck_agrees_iff {isCancelled : ValidPieceIndex L → Bool}
    (hrun : ∀ p, isCancelled p = false)
    (hhash : ∀ p : ValidPieceIndex L, (fo.getHash p.1).isSome) :
    ∃ havePieces : PieceBits L, fo.initialCheck isCancelled = .ok havePieces ∧
      (∀ p : ValidPieceIndex L, fo.checkPiece p = .ok true ↔ fo.PieceMatches p) ∧
      ((∀ p : ValidPieceIndex L, havePieces.get p.1 = true ↔ fo.checkPiece p = .ok true) ↔
        ∀ p : ValidPieceIndex L, 0 < fo.skippedBytes p → ¬ fo.RestMatches p) := by
  obtain ⟨havePieces, hcheck, hbits⟩ := exists_initialCheck hlay hrun hhash
  refine ⟨havePieces, hcheck, checkPiece_eq_ok_true_iff hlay, forall_congr' fun p => ?_⟩
  rw [hbits, checkPiece_eq_ok_true_iff hlay]
  rcases Nat.eq_zero_or_pos (fo.skippedBytes p) with hzero | hpos
  · simp [RestMatches, PieceMatches, pieceContent, hzero]
  have hnot : ¬ fo.PieceMatches p := by
    rintro ⟨bytes, hbytes, -⟩
    rw [pieceContent_eq_none lay hpos] at hbytes
    cases hbytes
  simp [hnot, hpos]

end Layout

/-! ### A missing file of two pieces -/

section MissingFile

/-- Two pieces of one byte in one file. -/
def twoBytesLayout : Layout .twoBytePieces :=
  { Layout.oneByteFiles with entries := [{ len := 2 }], sum_len := rfl }

/-- The file on disk, with the given digests.  The hash function is the identity, as injective as
can be. -/
def twoBytesOps (content : Option ByteBuf) (digests : List ByteBuf) : FileOps ByteBuf where
  sha1 := id
  getHash i := digests[i]?
  files _ := content
  fileInfos := twoBytesLayout.fileInfos

/-- On a file that is there the two checks agree. -/
theorem initialCheck_agrees_whole_file : ∃ havePieces : PieceBits .twoBytePieces,
      (twoBytesOps (some [5, 6]) [[5], [7]]).initialCheck (fun _ => false) = .ok havePieces ∧
      ∀ p : ValidPieceIndex .twoBytePieces, havePieces.get p.1 = true ↔
        (twoBytesOps (some [5, 6]) [[5], [7]]).checkPiece p = .ok true := by
  have hlay : (twoBytesOps (some [5, 6]) [[5], [7]]).fileInfos = twoBytesLayout.fileInfos := rfl
  obtain ⟨havePieces, hcheck, -, hagrees⟩ := initialCheck_agrees_iff hlay
    (fun _ : ValidPieceIndex .twoBytePieces => Eq.refl false) (by decide)
  have hskip : ∀ p : ValidPieceIndex .twoBytePieces,
      (twoBytesOps (some [5, 6]) [[5], [7]]).skippedBytes p = 0 := by decide
  refine ⟨havePieces, hcheck, hagrees.mpr fun p hpos => ?_⟩
  rw [hskip p] at hpos
  exact absurd hpos (lt_irrefl 0)

/-- **A missing file passes for a piece whose digest is that of nothing.** -/
theorem not_initialCheck_agrees_missing_file :
    (twoBytesOps none [[5], []]).initialCheck (fun _ : ValidPieceIndex .twoBytePieces => false)
        = .ok ((BitField.zeros _).set 1 true) ∧
      ¬ ∀ p : ValidPieceIndex .twoBytePieces,
        ((BitField.zeros Lengths.twoBytePieces.pieceBits).set 1 true).get p.1 = true ↔
          (twoBytesOps none [[5], []]).checkPiece p = .ok true := by
  refine ⟨by rfl, fun h => ?_⟩
  have h1 := (h 1).mp (by decide)
  revert h1
  decide

end MissingFile

end Librtbit.FileOps
