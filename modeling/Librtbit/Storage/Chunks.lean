import Librtbit.Storage.PieceContent
import Librtbit.Wire.DoubleBuf

/-!
# Storage/Chunks — a chunk written is the chunk read back

`write_chunk` and `read_chunk` walk over the files with a running offset and touch a part of each
file the chunk reaches into.  The two walks are one: `segments` lists the parts, and each function
does one thing to each of them (`Storage.writeSegment`, `Storage.readSegment`).

How many of the bytes it is given a vectored write takes is up to the system (`Disk`), and nobody
looks at the answer; and `read_chunk` fills the whole buffer it is handed, which may be longer than
the chunk.  `blockLaw_iff` says when a chunk is read back as it was written, and nothing else
changes, all the same.
-/

namespace Librtbit

open Machinery Storage DoubleBuf List

variable {L : Lengths}

def Lengths.chunkAbsoluteOffset (L : Lengths) (c : ChunkInfo L) : ℕ :=
  L.pieceOffset c.pieceIndex + c.offset

/-- A chunk that lies in its piece. -/
def ChunkInfo.InPiece (c : ChunkInfo L) : Prop :=
  0 < c.size ∧ c.offset + c.size ≤ L.pieceLengthOf c.pieceIndex
  deriving Decidable

/-! ## Positioned writes -/

/-- How many bytes the system takes of a write of `len` bytes to a file at a position; `none` if it
fails. -/
abbrev Disk : Type := (fileId pos len : ℕ) → Option ℕ

/-- A file after a write at `pos`: a write behind its end fills the gap with zeros, and a write of
no bytes leaves it alone. -/
def overwrite (content : ByteBuf) (pos : ℕ) (bytes : ByteBuf) : ByteBuf :=
  if bytes = [] then content
  else content.take pos ++ List.replicate (pos - content.length) 0 ++ bytes ++
    content.drop (pos + bytes.length)

/-- `pwrite_all_vectored`: one `pwritev`, which may take fewer bytes than it is given. -/
def Storage.pwriteAllVectored (files : Storage) (disk : Disk) (fileId pos : ℕ)
    (bufs : DoubleBuf) : Option (ℕ × Storage) := do
  let content ← files fileId
  if 2 ^ 63 ≤ pos then none
  else
    let taken ← disk fileId pos bufs.len
    let written := min taken bufs.len
    return (written,
      Function.update files fileId (some (overwrite content pos (bufs.join.take written))))

/-! ## The two walks -/

namespace FileOps

variable {Digest : Type} (fo : FileOps Digest)

/-- The loop of `read_chunk` over the files: `buf` is the part of the buffer still to be filled, and
the result what it is filled with. -/
def readChunkFrom (files : Storage) :
    List (FileInfo × ℕ) → (absoluteOffset : ℕ) → (buf : ByteBuf) → Except FileOpsError ByteBuf
  | [], _, buf => .ok buf
  | (fi, fileIdx) :: rest, absoluteOffset, buf =>
    if absoluteOffset > fi.len then readChunkFrom files rest (absoluteOffset - fi.len) buf
    else
      let toReadInFile := min (fi.len - absoluteOffset) buf.length
      let bytes := if fi.attrs.padding then some (List.replicate toReadInFile 0)
        else files.preadExact fileIdx absoluteOffset toReadInFile
      match bytes with
      | none => .error (.errorReadingChunk fileIdx toReadInFile)
      | some bytes =>
        let buf := buf.drop toReadInFile
        if buf.isEmpty then .ok bytes
        else (readChunkFrom files rest 0 buf).map (bytes ++ ·)

/-- `read_chunk`: the buffer after it. -/
def readChunk (c : ChunkInfo L) (resultBuf : ByteBuf) : Except FileOpsError ByteBuf :=
  if resultBuf.length < c.size then .error .notEnoughCapacity
  else readChunkFrom fo.files fo.fileInfos.zipIdx (L.chunkAbsoluteOffset c) resultBuf

/-- The loop of `write_chunk` over the files; the files written before an error stay written. -/
def writeChunkFrom (disk : Disk) :
    List (FileInfo × ℕ) → (absoluteOffset : ℕ) → (data : DoubleBuf) → (files : Storage) →
      Storage × Except FileOpsError Unit
  | [], _, _, files => (files, .ok ())
  | (fi, fileIdx) :: rest, absoluteOffset, data, files =>
    if absoluteOffset > fi.len then writeChunkFrom disk rest (absoluteOffset - fi.len) data files
    else
      let toWrite := min data.len (fi.len - absoluteOffset)
      let slices := data.asIoslices toWrite
      let result := if fi.attrs.padding then some files
        -- how much was written is only looked at in a debug build
        else (files.pwriteAllVectored disk fileIdx absoluteOffset slices).map Prod.snd
      match result with
      | none => (files, .error (.errorWriting fileIdx fi.relativeFilename))
      | some files =>
        let data := data.advance toWrite
        if data.isEmpty then (files, .ok ()) else writeChunkFrom disk rest 0 data files

/-- `write_chunk`: the storage after it, and whether it succeeded. -/
def writeChunk (disk : Disk) (c : ChunkInfo L) (data : DoubleBuf) :
    FileOps Digest × Except FileOpsError Unit :=
  let (files, result) :=
    writeChunkFrom disk fo.fileInfos.zipIdx (L.chunkAbsoluteOffset c) data fo.files
  ({ fo with files }, result)

end FileOps

/-! ## The parts of the files a walk touches -/

/-- A part of a file: `len` bytes from `pos` on, with `done` bytes of the walk before it. -/
structure Segment where
  file : FileInfo × ℕ
  pos : ℕ
  done : ℕ
  len : ℕ
  deriving DecidableEq

/-- The parts a walk over `n` bytes touches, `done` bytes into it. -/
def segments : List (FileInfo × ℕ) → (absoluteOffset done n : ℕ) → List Segment
  | [], _, _, _ => []
  | f :: rest, absoluteOffset, done, n =>
    if absoluteOffset > f.1.len then segments rest (absoluteOffset - f.1.len) done n
    else
      let m := min (f.1.len - absoluteOffset) n
      ⟨f, absoluteOffset, done, m⟩ :: if n - m = 0 then [] else segments rest 0 (done + m) (n - m)

/-- The read of one part. -/
def Storage.readSegment (files : Storage) (s : Segment) : Option ByteBuf :=
  if s.file.1.attrs.padding then some (List.replicate s.len 0)
  else files.preadExact s.file.2 s.pos s.len

/-- How many bytes of a part are written. -/
def Disk.taken (disk : Disk) (s : Segment) : ℕ := min ((disk s.file.2 s.pos s.len).getD 0) s.len

/-- A byte on disk. -/
def Storage.byte (files : Storage) (fileId i : ℕ) : Option UInt8 :=
  (files fileId).bind fun content => content[i]?

/-! ## Where the parts lie -/

section Segments

variable {fs : List (FileInfo × ℕ)} {rel done n : ℕ} {s : Segment}

lemma segments_sublist (fs : List (FileInfo × ℕ)) (rel done n : ℕ) :
    ((segments fs rel done n).map Segment.file).Sublist fs := by
  induction fs generalizing rel done n with
  | nil => exact List.Sublist.refl _
  | cons f fs ih =>
    rw [segments]
    split
    · exact (ih _ _ _).cons f
    refine List.Sublist.cons_cons f ?_
    split
    · exact nil_sublist fs
    · exact ih _ _ _

lemma mem_of_mem_segments (h : s ∈ segments fs rel done n) : s.file ∈ fs :=
  (segments_sublist fs rel done n).subset (mem_map_of_mem h)

/-- **A part lies in its file and in the walk**, and only the first one may start inside a file. -/
theorem bounds_of_mem_segments (h : s ∈ segments fs rel done n) :
    s.pos + s.len ≤ s.file.1.len ∧ done ≤ s.done ∧ s.done + s.len ≤ done + n ∧ s.pos ≤ rel ∧
      (s.done = done ∨ s.pos = 0) := by
  induction fs generalizing rel done n with
  | nil => exact absurd h not_mem_nil
  | cons f fs ih =>
    rw [segments] at h
    split at h
    · obtain ⟨hlen, hlo, hhi, hpos, hfirst⟩ := ih h
      exact ⟨hlen, hlo, hhi, by omega, hfirst⟩
    rcases mem_cons.mp h with rfl | h
    · dsimp only
      omega
    split at h
    · exact absurd h not_mem_nil
    · obtain ⟨hlen, hlo, hhi, hpos, -⟩ := ih h
      omega

/-- **A part lies in the torrent where the walk has got to.** -/
theorem offset_of_mem_segments {off stop} (hlaid : Laid off fs stop)
    (h : s ∈ segments fs rel done n) :
    s.file.1.offsetInTorrent + s.pos + done = off + rel + s.done := by
  induction fs generalizing off rel done n with
  | nil => exact absurd h not_mem_nil
  | cons f fs ih =>
    obtain ⟨hoff, hlaid⟩ := hlaid
    rw [segments] at h
    split at h
    · have := ih hlaid h
      omega
    rcases mem_cons.mp h with rfl | h
    · dsimp only
      omega
    split at h
    · exact absurd h not_mem_nil
    · have := ih hlaid h
      omega

/-- **Every byte of the walk lies in a part.** -/
theorem exists_mem_segments {off stop} (hlaid : Laid off fs stop) (rel done : ℕ) {n j}
    (hj : j < n) (hend : off + rel + j < stop) :
    ∃ s ∈ segments fs rel done n, s.done ≤ done + j ∧ done + j < s.done + s.len := by
  induction fs generalizing off rel done n j with
  | nil =>
    have : off = stop := hlaid
    omega
  | cons f fs ih =>
    obtain ⟨hoff, hlaid⟩ := hlaid
    rw [segments]
    split
    · exact ih hlaid _ _ hj (by omega)
    dsimp only
    by_cases hhead : j < min (f.1.len - rel) n
    · exact ⟨_, mem_cons_self, Nat.le_add_right _ _, by dsimp only; omega⟩
    rw [if_neg (by omega)]
    have hj' : j - min (f.1.len - rel) n < n - min (f.1.len - rel) n := by omega
    obtain ⟨s, hs, hlo, hhi⟩ := ih hlaid 0 (done + min (f.1.len - rel) n) hj' (by omega)
    exact ⟨s, mem_cons_of_mem _ hs, by omega, by omega⟩

/-- …and what a shorter walk touches, a longer one does. -/
lemma exists_mem_segments_of_le {n'} (hn : n ≤ n') (h : s ∈ segments fs rel done n) :
    ∃ s' ∈ segments fs rel done n',
      s'.file = s.file ∧ s'.pos = s.pos ∧ s'.done = s.done ∧ s.len ≤ s'.len := by
  induction fs generalizing rel done n n' with
  | nil => exact absurd h not_mem_nil
  | cons f fs ih =>
    rw [segments] at h ⊢
    split at h
    · rw [if_pos ‹_›]
      exact ih hn h
    rw [if_neg ‹_›]
    dsimp only at h ⊢
    rcases mem_cons.mp h with rfl | h
    · exact ⟨_, mem_cons_self, rfl, rfl, rfl, by dsimp only; omega⟩
    split at h
    · exact absurd h not_mem_nil
    have hm : min (f.1.len - rel) n = min (f.1.len - rel) n' := by omega
    rw [hm] at h
    have hle : n - min (f.1.len - rel) n' ≤ n' - min (f.1.len - rel) n' := by omega
    obtain ⟨s', hs', heq⟩ := ih hle h
    rw [if_neg (by omega)]
    exact ⟨s', mem_cons_of_mem _ hs', heq⟩

/-- One part a file. -/
lemma eq_of_mem_segments {t} (hnodup : (fs.map Prod.snd).Nodup)
    (hs : s ∈ segments fs rel done n) (ht : t ∈ segments fs rel done n)
    (heq : s.file.2 = t.file.2) : s = t := by
  have hsub := (segments_sublist fs rel done n).map Prod.snd
  rw [map_map] at hsub
  exact inj_on_of_nodup_map (hnodup.sublist hsub) hs ht heq

end Segments

/-! ## Reading the parts -/

section Read

variable {files files' : Storage} {s : Segment} {bytes : ByteBuf}

variable (h : files.readSegment s = some bytes)
include h

lemma length_readSegment : bytes.length = s.len := by
  rw [readSegment] at h
  split at h
  · cases h
    exact length_replicate
  rw [preadExact, Option.bind_eq_some_iff] at h
  obtain ⟨content, -, h⟩ := h
  split at h <;> cases h
  rw [length_take, length_drop]
  omega

/-- **The bytes of a part are those of its file.** -/
theorem getElem?_readSegment {i} (hi : i < s.len) :
    bytes[i]? = files.fileByte s.file (s.pos + i) := by
  rw [readSegment] at h
  rw [fileByte]
  split at h
  · cases h
    rw [if_pos ‹_›, getElem?_replicate, if_pos hi]
  rw [preadExact, Option.bind_eq_some_iff] at h
  obtain ⟨content, hcontent, h⟩ := h
  rw [if_neg ‹_›, hcontent, Option.bind_some]
  split at h <;> cases h
  rw [getElem?_take, if_pos hi, getElem?_drop]

omit h

lemma isSome_readSegment_iff (hpad : s.file.1.attrs.padding = false) :
    (files.readSegment s).isSome ↔
      ∃ content, files s.file.2 = some content ∧ (s.len = 0 ∨ s.pos + s.len ≤ content.length) := by
  rw [readSegment, if_neg (by simp [hpad]), preadExact]
  cases files s.file.2 with
  | none => simp
  | some content =>
    simp

/-- **A part is read alike from two storages that agree on it.** -/
theorem readSegment_congr (hsome : (files' s.file.2).isSome = (files s.file.2).isSome)
    (h : ∀ i < s.len, files'.byte s.file.2 (s.pos + i) = files.byte s.file.2 (s.pos + i)) :
    files'.readSegment s = files.readSegment s := by
  rw [readSegment, readSegment]
  rcases Nat.eq_zero_or_pos s.len with hzero | hpos
  · rw [hzero, preadExact, preadExact]
    cases hfile : files s.file.2 with
    | none => simp_all
    | some content =>
      obtain ⟨content', hfile'⟩ := Option.isSome_iff_exists.mp (hsome.trans (by rw [hfile]; rfl))
      simp [hfile']
  · rw [← readSlice_fileByte files' _ _ _ hpos, ← readSlice_fileByte files _ _ _ hpos]
    refine readSlice_congr fun i hi => ?_
    rw [fileByte, fileByte]
    split
    · rfl
    · exact h i hi

namespace FileOps

variable {fs : List (FileInfo × ℕ)} {rel : ℕ} {buf : ByteBuf}

/-- `read_chunk` reads part after part. -/
lemma readChunkFrom_cons (done : ℕ) {f} (hskip : ¬ rel > f.1.len) :
    readChunkFrom files (f :: fs) rel buf =
      match files.readSegment ⟨f, rel, done, min (f.1.len - rel) buf.length⟩ with
      | none => .error (.errorReadingChunk f.2 (min (f.1.len - rel) buf.length))
      | some bytes =>
        if buf.length - min (f.1.len - rel) buf.length = 0 then .ok bytes
        else (readChunkFrom files fs 0 (buf.drop (min (f.1.len - rel) buf.length))).map
          (bytes ++ ·) := by
  rw [readChunkFrom, if_neg hskip]
  dsimp only [readSegment]
  split
  · rename_i h
    rw [h]
  · rename_i bytes h
    rw [h]
    simp only [List.isEmpty_iff, drop_eq_nil_iff, Nat.sub_eq_zero_iff_le]

/-- **Two storages with the same parts are read alike.** -/
theorem readChunkFrom_congr (done : ℕ)
    (h : ∀ s ∈ segments fs rel done buf.length, files'.readSegment s = files.readSegment s) :
    readChunkFrom files' fs rel buf = readChunkFrom files fs rel buf := by
  induction fs generalizing rel done buf with
  | nil => rfl
  | cons f fs ih =>
    rw [segments] at h
    split at h
    · rw [readChunkFrom, readChunkFrom, if_pos ‹_›, if_pos ‹_›]
      exact ih _ h
    obtain ⟨hfirst, hrest⟩ := forall_mem_cons.mp h
    rw [readChunkFrom_cons done ‹_›, readChunkFrom_cons done ‹_›, hfirst]
    split
    · rfl
    split
    · rfl
    · rw [if_neg ‹_›] at hrest
      rw [ih (done + min (f.1.len - rel) buf.length)]
      rwa [length_drop]

/-- **`read_chunk` succeeds when every part can be read.** -/
theorem exists_readChunkFrom_iff (rel done : ℕ) (buf : ByteBuf) :
    (∃ r, readChunkFrom files fs rel buf = .ok r) ↔
      ∀ s ∈ segments fs rel done buf.length, (files.readSegment s).isSome := by
  induction fs generalizing rel done buf with
  | nil => exact ⟨fun _ s hs => absurd hs not_mem_nil, fun _ => ⟨buf, rfl⟩⟩
  | cons f fs ih =>
    rw [segments]
    split
    · rw [readChunkFrom, if_pos ‹_›]
      exact ih _ _ _
    rw [readChunkFrom_cons done ‹_›, forall_mem_cons]
    split
    · rename_i h
      simp [h]
    · rename_i bytes h
      rw [h]
      split
      · simp
      have hih := ih 0 (done + min (f.1.len - rel) buf.length)
        (buf.drop (min (f.1.len - rel) buf.length))
      rw [length_drop] at hih
      rw [← hih]
      cases readChunkFrom files fs 0 (buf.drop (min (f.1.len - rel) buf.length)) <;>
        simp [Except.map]

lemma eq_ok_of_map_eq_ok {ε α β : Type} {f} {x : Except ε α} {b : β}
    (h : x.map f = .ok b) : ∃ a, x = .ok a ∧ f a = b := by
  cases x with
  | error e => cases h
  | ok a => exact ⟨a, rfl, Except.ok.inj h⟩

/-- **The buffer is filled with the bytes of the parts.** -/
theorem getElem?_readChunkFrom {done r} (h : readChunkFrom files fs rel buf = .ok r)
    (hs : s ∈ segments fs rel done buf.length) {i} (hi : i < s.len) :
    r[s.done - done + i]? = files.fileByte s.file (s.pos + i) := by
  induction fs generalizing rel done buf r with
  | nil => exact absurd hs not_mem_nil
  | cons f fs ih =>
    rw [segments] at hs
    split at hs
    · rw [readChunkFrom, if_pos ‹_›] at h
      exact ih h hs
    rw [readChunkFrom_cons done ‹_›] at h
    split at h
    · cases h
    · rename_i bytes hbytes
      rcases mem_cons.mp hs with rfl | hs
      · -- the first part: the buffer begins with it
        have hlen := length_readSegment hbytes
        rw [Nat.sub_self, Nat.zero_add, ← getElem?_readSegment hbytes hi]
        split at h
        · cases h
          rfl
        · obtain ⟨r', -, rfl⟩ := eq_ok_of_map_eq_ok h
          rw [getElem?_append_left (by omega)]
      · split at hs
        · exact absurd hs not_mem_nil
        rw [if_neg ‹_›] at h
        obtain ⟨r', hr', rfl⟩ := eq_ok_of_map_eq_ok h
        have hlen := length_readSegment hbytes
        have hbounds := bounds_of_mem_segments hs
        rw [← length_drop] at hs
        have hih := ih hr' hs
        dsimp only at hlen
        rw [getElem?_append_right (by omega), ← hih]
        congr 1
        omega

end FileOps

end Read

/-! ## Writing the parts -/

variable (content : ByteBuf)

lemma getElem?_overwrite (pos : ℕ) (bytes : ByteBuf) (i : ℕ) :
    (overwrite content pos bytes)[i]? =
      if pos ≤ i ∧ i < pos + bytes.length then bytes[i - pos]?
      else if i < pos ∧ 0 < bytes.length then some (content[i]?.getD 0) else content[i]? := by
  rw [overwrite]
  by_cases hnil : bytes = []
  · rw [if_pos hnil, if_neg (by simp [hnil]), if_neg (by simp [hnil])]
  rw [if_neg hnil]
  have hhead : (content.take pos ++ List.replicate (pos - content.length) 0).length = pos := by
    rw [length_append, length_take, length_replicate]
    omega
  by_cases hlo : i < pos
  · rw [if_neg (by omega), if_pos ⟨hlo, length_pos_iff.mpr hnil⟩, append_assoc,
      getElem?_append_left (by omega), getElem?_append, length_take]
    by_cases hin : i < content.length
    · rw [if_pos (by omega), getElem?_take, if_pos hlo, getElem?_eq_getElem hin]
      rfl
    · rw [if_neg (by omega), getElem?_replicate, if_pos (by omega), getElem?_eq_none (by omega)]
      rfl
  · rw [append_assoc, getElem?_append_right (by omega), hhead, getElem?_append]
    by_cases hhi : i - pos < bytes.length
    · rw [if_pos hhi, if_pos (by omega)]
    · rw [if_neg hhi, if_neg (by omega), if_neg (by omega), getElem?_drop]
      congr 1
      omega

lemma length_overwrite (pos : ℕ) (bytes : ByteBuf) :
    (overwrite content pos bytes).length =
      if bytes = [] then content.length else max content.length (pos + bytes.length) := by
  rw [overwrite]
  split
  · rfl
  · simp only [length_append, length_take, length_replicate, length_drop]
    omega

section Write

variable {disk : Disk} {files files' : Storage} {fs : List (FileInfo × ℕ)} {rel : ℕ}

lemma Storage.pwriteAllVectored_eq {fileId pos bufs}
    (h : (files.pwriteAllVectored disk fileId pos bufs).map Prod.snd = some files') :
    ∃ content, files fileId = some content ∧
      files' = Function.update files fileId (some (overwrite content pos
        (bufs.join.take (min ((disk fileId pos bufs.len).getD 0) bufs.len)))) := by
  rw [pwriteAllVectored] at h
  cases hfile : files fileId with
  | none => simp [hfile] at h
  | some content =>
    rw [hfile] at h
    cases htaken : disk fileId pos bufs.len with
    | none => simp [htaken] at h
    | some taken =>
      by_cases hpos : 2 ^ 63 ≤ pos
      · simp only [Option.bind_eq_bind, Option.bind_some, if_pos hpos, Option.map_none] at h
        cases h
      · simp only [htaken, Option.bind_eq_bind, Option.bind_some, if_neg hpos, pure,
          Option.map_some, Option.some.injEq] at h
        exact ⟨content, rfl, h.symm⟩

lemma Storage.pwriteAllVectored_congr {fileId pos bufs bufs'} (h : bufs.join = bufs'.join) :
    files.pwriteAllVectored disk fileId pos bufs =
      files.pwriteAllVectored disk fileId pos bufs' := by
  rw [pwriteAllVectored, pwriteAllVectored, len_eq_of_join_eq h, h]

namespace FileOps

variable {data : DoubleBuf}

/-- **Where the data is cut in two makes no difference.** -/
theorem writeChunkFrom_congr {data'} (h : data.join = data'.join) :
    writeChunkFrom disk fs rel data files = writeChunkFrom disk fs rel data' files := by
  induction fs generalizing rel data data' files with
  | nil => rfl
  | cons f fs ih =>
    rw [writeChunkFrom, writeChunkFrom]
    split
    · exact ih h
    have hslices : ∀ k, (data.asIoslices k).join = (data'.asIoslices k).join := fun k => by
      rw [join_asIoslices, join_asIoslices, h]
    have hrest : ∀ k, (data.advance k).join = (data'.advance k).join := fun k => by
      rw [DoubleBuf.join_advance, DoubleBuf.join_advance, h]
    have hempty : ∀ k, (data.advance k).isEmpty = (data'.advance k).isEmpty := fun k => by
      rw [Bool.eq_iff_iff, DoubleBuf.isEmpty_iff, DoubleBuf.isEmpty_iff, hrest]
    dsimp only
    rw [len_eq_of_join_eq h, pwriteAllVectored_congr (hslices _), hempty]
    split
    · rfl
    · split
      · rfl
      · exact ih (hrest _)

/-- The write of one part. -/
lemma writePart_spec {fi fileIdx m} (hm : m ≤ data.len) (done : ℕ)
    (h : (if fi.attrs.padding then some files
      else (files.pwriteAllVectored disk fileIdx rel (data.asIoslices m)).map Prod.snd) =
        some files') :
    (∀ id, (fi.attrs.padding = false → fileIdx ≠ id) → files' id = files id) ∧
      (fi.attrs.padding = false → ∃ content, files fileIdx = some content ∧
        files' fileIdx = some (overwrite content rel
          (data.join.take (disk.taken ⟨(fi, fileIdx), rel, done, m⟩)))) := by
  split at h
  · rename_i hpad
    cases h
    exact ⟨fun id _ => rfl, fun hfalse => absurd hpad (by simp [hfalse])⟩
  · rename_i hpad
    have hlen : (data.asIoslices m).len = m := by
      rw [← length_join, join_asIoslices, length_take, length_join, Nat.min_eq_left hm]
    obtain ⟨content, hcontent, rfl⟩ := pwriteAllVectored_eq h
    refine ⟨fun id hid => ?_, fun _ => ⟨content, hcontent, ?_⟩⟩
    · rw [Function.update_of_ne (hid (by simpa using hpad)).symm]
    · rw [Function.update_self, hlen, join_asIoslices, take_take]
      congr 3
      exact Nat.min_eq_left (Nat.min_le_right _ _)

/-- **`write_chunk` overwrites the part of each file it reaches into**, up to what the system takes,
and no other file. -/
theorem writeChunkFrom_spec (hnodup : (fs.map Prod.snd).Nodup)
    (h : writeChunkFrom disk fs rel data files = (files', .ok ())) (done : ℕ) :
    (∀ id, (∀ s ∈ segments fs rel done data.len, s.file.1.attrs.padding = false →
        s.file.2 ≠ id) → files' id = files id) ∧
      ∀ s ∈ segments fs rel done data.len, s.file.1.attrs.padding = false →
        ∃ content, files s.file.2 = some content ∧ files' s.file.2 = some
          (overwrite content s.pos ((data.join.drop (s.done - done)).take (disk.taken s))) := by
  induction fs generalizing rel done data files with
  | nil =>
    cases h
    exact ⟨fun id _ => rfl, fun s hs => absurd hs not_mem_nil⟩
  | cons f fs ih =>
    obtain ⟨fi, fileIdx⟩ := f
    obtain ⟨hfresh, hnodup⟩ := nodup_cons.mp hnodup
    rw [writeChunkFrom] at h
    rw [segments]
    split at h
    · rw [if_pos ‹_›]
      exact ih hnodup h done
    rw [if_neg ‹_›]
    dsimp only at h ⊢
    rw [Nat.min_comm] at h
    obtain ⟨m, hm⟩ : ∃ m, m = min (fi.len - rel) data.len := ⟨_, rfl⟩
    rw [← hm] at h ⊢
    have hrestLen : (data.advance m).len = data.len - m := by
      rw [← length_join, join_advance, length_drop, length_join]
    split at h
    · cases h
    · rename_i files₁ hfirst
      obtain ⟨hframe₁, hwrite₁⟩ := writePart_spec (by omega) done hfirst
      by_cases hdone : data.len - m = 0
      · -- the data ends in this file
        rw [if_pos (by rw [DoubleBuf.isEmpty_iff, ← length_eq_zero_iff,
          DoubleBuf.length_join, hrestLen, hdone])] at h
        cases h
        rw [if_pos hdone]
        simp only [forall_mem_singleton, Nat.sub_self, drop_zero]
        exact ⟨hframe₁, hwrite₁⟩
      · rw [if_neg (by rw [DoubleBuf.isEmpty_iff, ← length_eq_zero_iff,
          DoubleBuf.length_join, hrestLen]; exact hdone)] at h
        obtain ⟨hframe, hwrite⟩ := ih hnodup h (done + m)
        rw [hrestLen] at hframe hwrite
        rw [if_neg hdone]
        have hother : ∀ s ∈ segments fs 0 (done + m) (data.len - m), s.file.2 ≠ fileIdx :=
          fun s hs heq => hfresh (mem_map.mpr ⟨s.file, mem_of_mem_segments hs, heq⟩)
        simp only [forall_mem_cons, Nat.sub_self, drop_zero]
        refine ⟨fun id hid => ?_, fun hpad => ?_, fun s hs hpad => ?_⟩
        · rw [hframe id hid.2, hframe₁ id hid.1]
        · obtain ⟨content, hcontent, hnew⟩ := hwrite₁ hpad
          exact ⟨content, hcontent, (hframe _ fun s hs _ => hother s hs).trans hnew⟩
        · obtain ⟨content, hcontent, hnew⟩ := hwrite s hs hpad
          rw [hframe₁ _ fun _ => (hother s hs).symm] at hcontent
          refine ⟨content, hcontent, ?_⟩
          have hlo := (bounds_of_mem_segments hs).2.1
          rw [hnew, join_advance, drop_drop,
            show m + (s.done - (done + m)) = s.done - done by omega]

end FileOps

end Write

/-! ## The law of a block -/

/-- The data as it is to be read back: zero where it falls in a padding file. -/
def maskPadding (fileInfos : List FileInfo) (start : ℕ) (data : ByteBuf) : ByteBuf :=
  data.mapIdx fun i b =>
    if (fileAt fileInfos (start + i)).any fun f => f.1.attrs.padding then 0 else b

/-- A byte of the torrent lies in a chunk. -/
def ChunkInfo.Covers (c : ChunkInfo L) (b : ℕ) : Prop :=
  L.chunkAbsoluteOffset c ≤ b ∧ b < L.chunkAbsoluteOffset c + c.size

namespace FileOps

variable {Digest : Type} (fo : FileOps Digest)

/-- **The law of block storage**, for a chunk that took `fo` to `fo'` and is read into `buf`: it is
read back as it was written, whatever lies outside of it is read as before, no byte outside of it
changes, and where the data was cut in two makes no difference. -/
structure BlockLaw (disk : Disk) (c : ChunkInfo L) (data : DoubleBuf) (buf : ByteBuf)
    (fo' : FileOps Digest) : Prop where
  readBack : ∃ r, fo'.readChunk c buf = .ok r ∧
    r.take c.size = maskPadding fo.fileInfos (L.chunkAbsoluteOffset c) data.join
  readOther : ∀ (c' : ChunkInfo L) (buf' : ByteBuf),
    (∀ b, L.chunkAbsoluteOffset c' ≤ b → b < L.chunkAbsoluteOffset c' + buf'.length →
      ¬ c.Covers b) → fo'.readChunk c' buf' = fo.readChunk c' buf'
  changed : ∀ id i, fo'.files.byte id i ≠ fo.files.byte id i →
    ∃ f ∈ fo.fileInfos.zipIdx, f.2 = id ∧ f.1.attrs.padding = false ∧ i < f.1.len ∧
      c.Covers (f.1.offsetInTorrent + i)
  split : ∀ data' : DoubleBuf, data'.join = data.join →
    fo.writeChunk disk c data' = fo.writeChunk disk c data

/-- The parts of the files that a walk over `n` bytes from a chunk on touches. -/
def segmentsOf (c : ChunkInfo L) (n : ℕ) : List Segment :=
  segments fo.fileInfos.zipIdx (L.chunkAbsoluteOffset c) 0 n

/-- **When the law holds.** -/
structure LandsWhole (disk : Disk) (c : ChunkInfo L) (data : DoubleBuf) (buf : ByteBuf) :
    Prop where
  /-- What a vectored write does not take was on disk already. -/
  taken : ∀ s ∈ fo.segmentsOf c c.size, s.file.1.attrs.padding = false →
    ∀ i < s.len, disk.taken s ≤ i → fo.files.byte s.file.2 (s.pos + i) = data.join[s.done + i]?
  /-- Nothing is written behind the end of a file. -/
  noHole : ∀ s ∈ fo.segmentsOf c c.size, s.file.1.attrs.padding = false → 0 < disk.taken s →
    ∀ i < s.pos, (fo.files.byte s.file.2 i).isSome
  /-- What the buffer takes behind the chunk can be read. -/
  behind : ∀ s ∈ fo.segmentsOf c buf.length, s ∉ fo.segmentsOf c c.size →
    (fo.files.readSegment s).isSome

section Law

variable {fo fo' : FileOps Digest} {lay : Layout L} {disk : Disk} {c : ChunkInfo L}
  {data : DoubleBuf} {buf : ByteBuf} {s : Segment}

lemma nodup_snd_zipIdx (l : List FileInfo) : (l.zipIdx.map Prod.snd).Nodup := by
  rw [zipIdx_map_snd]
  exact nodup_range'

lemma writeChunk_eq (h : fo.writeChunk disk c data = (fo', .ok ())) :
    fo'.fileInfos = fo.fileInfos ∧
      writeChunkFrom disk fo.fileInfos.zipIdx (L.chunkAbsoluteOffset c) data fo.files =
        (fo'.files, .ok ()) := by
  rw [writeChunk] at h
  cases hfrom : writeChunkFrom disk fo.fileInfos.zipIdx (L.chunkAbsoluteOffset c) data fo.files with
  | mk files result =>
    rw [hfrom] at h
    cases h
    exact ⟨rfl, rfl⟩

variable (hdata : data.len = c.size) (hwrite : fo.writeChunk disk c data = (fo', .ok ()))

include hdata hwrite

/-- A file no part of which is written is left alone. -/
lemma files_of_forall_ne {id}
    (h : ∀ s ∈ fo.segmentsOf c c.size, s.file.1.attrs.padding = false → s.file.2 ≠ id) :
    fo'.files id = fo.files id := by
  have hspec := writeChunkFrom_spec (nodup_snd_zipIdx _) (writeChunk_eq hwrite).2 0
  rw [hdata] at hspec
  exact hspec.1 id h

lemma files_of_mem (hs : s ∈ fo.segmentsOf c c.size) (hpad : s.file.1.attrs.padding = false) :
    ∃ content, fo.files s.file.2 = some content ∧ fo'.files s.file.2 = some
      (overwrite content s.pos ((data.join.drop s.done).take (disk.taken s))) := by
  have hspec := writeChunkFrom_spec (nodup_snd_zipIdx _) (writeChunk_eq hwrite).2 0
  rw [hdata] at hspec
  exact hspec.2 s hs hpad

/-- **The bytes of a file that was written to.** -/
theorem byte_of_mem (hs : s ∈ fo.segmentsOf c c.size) (hpad : s.file.1.attrs.padding = false)
    (i : ℕ) :
    fo'.files.byte s.file.2 i =
      if s.pos ≤ i ∧ i < s.pos + disk.taken s then data.join[s.done + (i - s.pos)]?
      else if i < s.pos ∧ 0 < disk.taken s then some ((fo.files.byte s.file.2 i).getD 0)
      else fo.files.byte s.file.2 i := by
  obtain ⟨content, hcontent, hnew⟩ := files_of_mem hdata hwrite hs hpad
  have hlen : ((data.join.drop s.done).take (disk.taken s)).length = disk.taken s := by
    have hbounds := bounds_of_mem_segments hs
    rw [length_take, length_drop, length_join, Disk.taken]
    omega
  rw [byte, byte, hcontent, hnew, Option.bind_some, getElem?_overwrite, hlen]
  split
  · rw [getElem?_take, if_pos (by omega), getElem?_drop]
  · rfl

/-- The files a write goes to are there before and after it, and none is cut off. -/
lemma exists_files_of_some {id content} (h : fo.files id = some content) :
    ∃ content', fo'.files id = some content' ∧ content.length ≤ content'.length := by
  by_cases hid : ∃ s ∈ fo.segmentsOf c c.size, s.file.1.attrs.padding = false ∧ s.file.2 = id
  · obtain ⟨s, hs, hpad, rfl⟩ := hid
    obtain ⟨content₀, hcontent, hnew⟩ := files_of_mem hdata hwrite hs hpad
    cases h.symm.trans hcontent
    refine ⟨_, hnew, ?_⟩
    rw [length_overwrite]
    split
    · exact le_rfl
    · exact le_max_left _ _
  · rw [files_of_forall_ne hdata hwrite fun s hs hpad heq => hid ⟨s, hs, hpad, heq⟩]
    exact ⟨content, h, le_rfl⟩

/-- What can be read can still be read. -/
lemma isSome_readSegment (h : (fo.files.readSegment s).isSome) :
    (fo'.files.readSegment s).isSome := by
  cases hpad : s.file.1.attrs.padding with
  | true => simp [readSegment, hpad]
  | false =>
    obtain ⟨content, hcontent, hlen⟩ := (isSome_readSegment_iff hpad).mp h
    obtain ⟨content', hcontent', hle⟩ := exists_files_of_some hdata hwrite hcontent
    exact (isSome_readSegment_iff hpad).mpr ⟨content', hcontent', by omega⟩

/-- Behind the chunk, nothing becomes readable that was not. -/
lemma isSome_readSegment_of_behind {n} (hn : c.size ≤ n) (hs : s ∈ fo.segmentsOf c n)
    (hbehind : s ∉ fo.segmentsOf c c.size) (h : (fo'.files.readSegment s).isSome) :
    (fo.files.readSegment s).isSome := by
  cases hpad : s.file.1.attrs.padding with
  | true => simp [readSegment, hpad]
  | false =>
    obtain ⟨content', hcontent', hlen⟩ := (isSome_readSegment_iff hpad).mp h
    refine (isSome_readSegment_iff hpad).mpr ?_
    by_cases hid : ∃ t ∈ fo.segmentsOf c c.size,
        t.file.1.attrs.padding = false ∧ t.file.2 = s.file.2
    · -- the last part of the chunk, which the longer walk goes on with
      obtain ⟨t, ht, htpad, hid⟩ := hid
      obtain ⟨t', ht', hfile, hpos, hdone, hle⟩ := exists_mem_segments_of_le hn ht
      obtain rfl : t' = s :=
        eq_of_mem_segments (nodup_snd_zipIdx _) ht' hs (by rw [hfile, hid])
      obtain ⟨content, hcontent, hnew⟩ := files_of_mem hdata hwrite ht htpad
      rw [hid] at hcontent hnew
      cases hcontent'.symm.trans hnew
      have hlt : t.len ≠ t'.len := by
        intro heq
        obtain rfl : t' = t := by
          cases t
          cases t'
          simp_all
        exact hbehind ht
      refine ⟨content, hcontent, ?_⟩
      rw [length_overwrite, length_take, Disk.taken] at hlen
      split at hlen
      · exact hlen
      · omega
    · refine ⟨content', ?_, hlen⟩
      rw [← hcontent']
      exact (files_of_forall_ne hdata hwrite fun t ht htpad heq =>
        hid ⟨t, ht, htpad, heq⟩).symm

/-- **The chunk is stored exactly when what was not taken was there already.** -/
theorem stored_iff_taken :
    (∀ s ∈ fo.segmentsOf c c.size, s.file.1.attrs.padding = false → ∀ i < s.len,
      fo'.files.byte s.file.2 (s.pos + i) = data.join[s.done + i]?) ↔
    ∀ s ∈ fo.segmentsOf c c.size, s.file.1.attrs.padding = false →
      ∀ i < s.len, disk.taken s ≤ i →
        fo.files.byte s.file.2 (s.pos + i) = data.join[s.done + i]? := by
  refine forall₃_congr fun s hs hpad => forall₂_congr fun i hi => ?_
  rw [byte_of_mem hdata hwrite hs hpad]
  by_cases htaken : disk.taken s ≤ i
  · rw [if_neg (by omega), if_neg (by omega)]
    exact ⟨fun h _ => h, fun h => h htaken⟩
  · rw [if_pos (by omega), Nat.add_sub_cancel_left]
    exact ⟨fun _ h => absurd h htaken, fun _ => rfl⟩

lemma isSome_files (id : ℕ) : (fo'.files id).isSome = (fo.files id).isSome := by
  by_cases hid : ∃ s ∈ fo.segmentsOf c c.size, s.file.1.attrs.padding = false ∧ s.file.2 = id
  · obtain ⟨s, hs, hpad, rfl⟩ := hid
    obtain ⟨content, hcontent, hnew⟩ := files_of_mem hdata hwrite hs hpad
    rw [hcontent, hnew]
    rfl
  · rw [files_of_forall_ne hdata hwrite fun s hs hpad heq => hid ⟨s, hs, hpad, heq⟩]

/-- A part that is stored can be read. -/
lemma isSome_readSegment_of_stored (hs : s ∈ fo.segmentsOf c c.size)
    (h : s.file.1.attrs.padding = false → ∀ i < s.len,
      fo'.files.byte s.file.2 (s.pos + i) = data.join[s.done + i]?) :
    (fo'.files.readSegment s).isSome := by
  cases hpad : s.file.1.attrs.padding with
  | true => simp [readSegment, hpad]
  | false =>
    obtain ⟨content, -, hnew⟩ := files_of_mem hdata hwrite hs hpad
    refine (isSome_readSegment_iff hpad).mpr ⟨_, hnew, ?_⟩
    rcases Nat.eq_zero_or_pos s.len with hzero | hpos
    · exact Or.inl hzero
    -- its last byte is there, so the file is that long
    have hlast := h hpad (s.len - 1) (by omega)
    have hbounds := bounds_of_mem_segments hs
    have hlt : s.done + (s.len - 1) < data.join.length := by
      rw [length_join]
      omega
    rw [byte, hnew, getElem?_eq_getElem hlt] at hlast
    have := (List.getElem?_eq_some_iff.mp hlast).1
    omega

variable (hlay : fo.fileInfos = lay.fileInfos)

omit hdata hwrite in
include hlay in
lemma offset_of_mem_segmentsOf {n} (hs : s ∈ fo.segmentsOf c n) :
    s.file.1.offsetInTorrent + s.pos = L.chunkAbsoluteOffset c + s.done := by
  have hlaid := lay.laid
  rw [← hlay] at hlaid
  have := offset_of_mem_segments hlaid hs
  omega

include hlay

/-- **The bytes a chunk changes lie in it**, unless it leaves a hole behind the end of a file. -/
theorem changed_iff_noHole : (∀ id i, fo'.files.byte id i ≠ fo.files.byte id i →
      ∃ f ∈ fo.fileInfos.zipIdx, f.2 = id ∧ f.1.attrs.padding = false ∧ i < f.1.len ∧
        c.Covers (f.1.offsetInTorrent + i)) ↔
    ∀ s ∈ fo.segmentsOf c c.size, s.file.1.attrs.padding = false → 0 < disk.taken s →
      ∀ i < s.pos, (fo.files.byte s.file.2 i).isSome := by
  constructor
  · intro h s hs hpad htaken i hi
    by_contra hnone
    rw [Option.not_isSome_iff_eq_none] at hnone
    have hbyte := byte_of_mem hdata hwrite hs hpad i
    rw [if_neg (by omega), if_pos ⟨hi, htaken⟩] at hbyte
    obtain ⟨f, hf, hid, -, -, hcovers⟩ := h s.file.2 i (by rw [hbyte, hnone]; simp)
    obtain rfl : f = s.file :=
      inj_on_of_nodup_map (nodup_snd_zipIdx _) hf (mem_of_mem_segments hs) hid
    -- only the first part starts inside a file, and it starts with the chunk
    have hoff := offset_of_mem_segmentsOf hlay hs
    have hbounds := bounds_of_mem_segments hs
    have hlo := hcovers.1
    omega
  · intro h id i hne
    by_cases hid : ∃ s ∈ fo.segmentsOf c c.size, s.file.1.attrs.padding = false ∧ s.file.2 = id
    · obtain ⟨s, hs, hpad, rfl⟩ := hid
      have hbounds := bounds_of_mem_segments hs
      have hoff := offset_of_mem_segmentsOf hlay hs
      have htaken : disk.taken s ≤ s.len := Nat.min_le_right _ _
      rw [byte_of_mem hdata hwrite hs hpad] at hne
      split at hne
      · refine ⟨s.file, mem_of_mem_segments hs, rfl, hpad, by omega, ?_⟩
        rw [ChunkInfo.Covers]
        omega
      split at hne
      · rename_i hhole
        obtain ⟨b, hb⟩ := Option.isSome_iff_exists.mp (h s hs hpad hhole.2 i hhole.1)
        exact absurd (by rw [hb]; rfl) hne
      · exact absurd rfl hne
    · rw [byte, byte, files_of_forall_ne hdata hwrite fun s hs hpad heq =>
        hid ⟨s, hs, hpad, heq⟩] at hne
      exact absurd rfl hne

/-- **A read that does not reach into the chunk is not changed by it.** -/
theorem readChunk_of_disjoint (hchanged : ∀ id i, fo'.files.byte id i ≠ fo.files.byte id i →
      ∃ f ∈ fo.fileInfos.zipIdx, f.2 = id ∧ f.1.attrs.padding = false ∧ i < f.1.len ∧
        c.Covers (f.1.offsetInTorrent + i))
    (c' : ChunkInfo L) (buf' : ByteBuf)
    (hdisj : ∀ b, L.chunkAbsoluteOffset c' ≤ b → b < L.chunkAbsoluteOffset c' + buf'.length →
      ¬ c.Covers b) :
    fo'.readChunk c' buf' = fo.readChunk c' buf' := by
  rw [readChunk, readChunk, (writeChunk_eq hwrite).1]
  split
  · rfl
  refine readChunkFrom_congr 0 fun s hs => readSegment_congr (isSome_files hdata hwrite _) ?_
  intro i hi
  by_contra hne
  obtain ⟨f, hf, hid, -, -, hcovers⟩ := hchanged _ _ hne
  obtain rfl : f = s.file :=
    inj_on_of_nodup_map (nodup_snd_zipIdx _) hf (mem_of_mem_segments hs) hid
  have hoff := offset_of_mem_segmentsOf hlay hs
  have hbounds := bounds_of_mem_segments hs
  exact hdisj _ (by omega) (by omega) hcovers

variable (hc : c.InPiece) (hbuf : c.size ≤ buf.length)

include hc hbuf

/-- **The chunk is read back exactly when all the buffer asks for can be read and it is stored.** -/
theorem readBack_iff : (∃ r, fo'.readChunk c buf = .ok r ∧
      r.take c.size = maskPadding fo.fileInfos (L.chunkAbsoluteOffset c) data.join) ↔
    (∀ s ∈ fo.segmentsOf c buf.length, (fo'.files.readSegment s).isSome) ∧
      ∀ s ∈ fo.segmentsOf c c.size, s.file.1.attrs.padding = false → ∀ i < s.len,
        fo'.files.byte s.file.2 (s.pos + i) = data.join[s.done + i]? := by
  have hend : L.chunkAbsoluteOffset c + c.size ≤ L.totalLength := by
    have hpiece := lay.exact.pieceOffset_add_pieceLengthOf c.pieceIndex
    have hsize := hc.2
    rw [Lengths.chunkAbsoluteOffset]
    omega
  have hlaid := lay.laid
  rw [← hlay] at hlaid
  rw [readChunk, if_neg (by omega), (writeChunk_eq hwrite).1, segmentsOf,
    ← FileOps.exists_readChunkFrom_iff, ← exists_and_right]
  refine exists_congr fun r => and_congr_right fun hr => ?_
  -- byte by byte, in the part it lies in
  have hbyte : ∀ s ∈ fo.segmentsOf c c.size, ∀ i < s.len,
      (r.take c.size)[s.done + i]? = fo'.files.fileByte s.file (s.pos + i) ∧
      (maskPadding fo.fileInfos (L.chunkAbsoluteOffset c) data.join)[s.done + i]? =
        if s.file.1.attrs.padding then some 0 else data.join[s.done + i]? := by
    intro s hs i hi
    have hbounds := bounds_of_mem_segments hs
    have hoff := offset_of_mem_segmentsOf hlay hs
    obtain ⟨s', hs', hfile, hpos, hdone, hle⟩ := exists_mem_segments_of_le hbuf hs
    have hfill := getElem?_readChunkFrom hr hs' (show i < s'.len by omega)
    rw [hfile, hpos, hdone, Nat.sub_zero] at hfill
    have hfileAt : fileAt fo.fileInfos (L.chunkAbsoluteOffset c + (s.done + i)) = some s.file := by
      have hmem := mem_of_mem_segments hs
      rw [hlay] at hmem ⊢
      exact lay.fileAt_eq hmem (by omega) (by omega)
    have hlt : s.done + i < data.join.length := by
      rw [length_join]
      omega
    refine ⟨by rw [getElem?_take, if_pos (by omega), hfill], ?_⟩
    rw [maskPadding, getElem?_mapIdx, hfileAt, getElem?_eq_getElem hlt]
    simp only [Option.any_some, Option.map_some]
    split <;> rfl
  constructor
  · intro heq s hs hpad i hi
    obtain ⟨hread, hmask⟩ := hbyte s hs i hi
    rw [heq, hmask, fileByte, hpad] at hread
    exact hread.symm
  · intro hstored
    refine ext_getElem? fun j => ?_
    by_cases hj : j < c.size
    · obtain ⟨s, hs, hlo, hhi⟩ :=
        exists_mem_segments hlaid (L.chunkAbsoluteOffset c) 0 hj (by omega)
      obtain ⟨i, rfl⟩ : ∃ i, j = s.done + i := ⟨j - s.done, by omega⟩
      obtain ⟨hread, hmask⟩ := hbyte s hs i (by omega)
      rw [hread, hmask, fileByte]
      split
      · rfl
      · rename_i hpad
        exact hstored s hs (by simpa using hpad) i (by omega)
    · rw [getElem?_eq_none (by rw [length_take]; omega), getElem?_eq_none]
      rw [maskPadding, length_mapIdx, length_join]
      omega

/-- **When a chunk is stored as the law has it**: whatever the layout of the files, a chunk that was
written is read back as written, and nothing else changes, exactly when the system takes all of each
write, no write starts behind the end of a file, and what the buffer takes behind the chunk can be
read. -/
theorem blockLaw_iff : fo.BlockLaw disk c data buf fo' ↔ fo.LandsWhole disk c data buf := by
  have hback := readBack_iff hdata hwrite hlay hc hbuf
  have hchanged := changed_iff_noHole hdata hwrite hlay
  have hstored := stored_iff_taken hdata hwrite
  constructor
  · intro h
    obtain ⟨hread, hall⟩ := hback.mp h.readBack
    exact
      { taken := hstored.mp hall
        noHole := hchanged.mp h.changed
        behind := fun s hs hnot =>
          isSome_readSegment_of_behind hdata hwrite hbuf hs hnot (hread s hs) }
  · intro h
    have hall := hstored.mpr h.taken
    refine
      { readBack := hback.mpr ⟨fun s hs => ?_, hall⟩
        readOther := readChunk_of_disjoint hdata hwrite hlay (hchanged.mpr h.noHole)
        changed := hchanged.mpr h.noHole
        split := fun data' hjoin => by rw [writeChunk, writeChunk, writeChunkFrom_congr hjoin] }
    by_cases hin : s ∈ fo.segmentsOf c c.size
    · exact isSome_readSegment_of_stored hdata hwrite hin (hall s hin)
    · exact isSome_readSegment hdata hwrite (h.behind s hs hin)

end Law

/-! ### Two files of one byte -/

/-- The first file is on disk and the second one holds `second`. -/
def oneByteStorage (second : ByteBuf) : FileOps Unit where
  sha1 _ := ()
  getHash _ := none
  files i := if i = 0 then some [0] else some second
  fileInfos := Layout.oneByteFiles.fileInfos

/-- The chunk that is the first file. -/
def firstByte : ChunkInfo Lengths.twoBytePieces where
  pieceIndex := ⟨0, by decide⟩
  chunkIndex := 0
  absoluteIndex := 0
  size := 1
  offset := 0

/-- A system that takes every write whole. -/
def Disk.whole : Disk := fun _ _ len => some len

/-- With the second file in place, a buffer may be longer than the chunk. -/
theorem blockLaw_long_buffer :
    ∃ fo', (oneByteStorage [0]).writeChunk Disk.whole firstByte ⟨[7], []⟩ = (fo', .ok ()) ∧
      (oneByteStorage [0]).BlockLaw Disk.whole firstByte ⟨[7], []⟩ [0, 0] fo' := by
  have hlay : (oneByteStorage [0]).fileInfos = Layout.oneByteFiles.fileInfos := rfl
  refine ⟨_, rfl, (blockLaw_iff rfl rfl hlay (by decide) (by decide)).mpr ?_⟩
  exact ⟨by decide, by decide, by decide⟩

/-- **An empty file behind the chunk makes `read_chunk` fail** in a buffer longer than the chunk. -/
theorem not_blockLaw_empty_file :
    ∃ fo', (oneByteStorage []).writeChunk Disk.whole firstByte ⟨[7], []⟩ = (fo', .ok ()) ∧
      ¬ (oneByteStorage []).BlockLaw Disk.whole firstByte ⟨[7], []⟩ [0, 0] fo' := by
  refine ⟨_, rfl, fun h => ?_⟩
  obtain ⟨r, hr, -⟩ := h.readBack
  cases hr

end FileOps

end Librtbit
