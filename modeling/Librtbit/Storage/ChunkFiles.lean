import Librtbit.Storage.Chunks

/-!
# Storage/ChunkFiles — which files a chunk needs, and what of it is stored

The walk of `read_chunk` passes over a file only if it ends before the chunk begins, and goes on as
long as there is room in the buffer.  So a file that ends where the chunk begins is opened as well,
and so is one behind the chunk if the buffer is longer: `framed_iff` says that no other file makes a
difference.

`write_chunk` does not look at how much of a part was taken.  `holdsChunk_iff` says when all of it
is on the disk all the same.
-/

namespace Librtbit.FileOps

open Storage List

variable {L : Lengths} {Digest : Type} (fo : FileOps Digest)

/-! ## Reading -/

/-- The file has a byte of the chunk. -/
def Overlaps (c : ChunkInfo L) (fi : FileInfo) : Prop :=
  max fi.offsetInTorrent (L.chunkAbsoluteOffset c) <
    min (fi.offsetInTorrent + fi.len) (L.chunkAbsoluteOffset c + c.size)
  deriving Decidable

/-- The two storages have the same files where the chunk has bytes. -/
def AgreeOn (c : ChunkInfo L) (files files' : Storage) : Prop :=
  ∀ f ∈ fo.fileInfos.zipIdx, f.1.attrs.padding = false → Overlaps c f.1 → files f.2 = files' f.2

/-- What is asked for of a read: the chunk, or the error. -/
def chunkRead (files : Storage) (c : ChunkInfo L) (buf : ByteBuf) : Except FileOpsError ByteBuf :=
  ({ fo with files }.readChunk c buf).map (List.take c.size)

/-- **A read needs no file but those of the chunk.** -/
def Framed (c : ChunkInfo L) (buf : ByteBuf) : Prop :=
  ∀ files files', fo.AgreeOn c files files' → fo.chunkRead files c buf = fo.chunkRead files' c buf

/-- Every file is there. -/
def allFiles : Storage := fun id => (fo.fileInfos[id]?).map fun fi => List.replicate fi.len 0

variable {fo} {c : ChunkInfo L} {buf : ByteBuf} {s : Segment}

lemma isSome_readSegment_allFiles (hs : s ∈ fo.segmentsOf c buf.length) :
    (fo.allFiles.readSegment s).isSome := by
  cases hpad : s.file.1.attrs.padding with
  | true => simp [readSegment, hpad]
  | false =>
    have hfile := mem_zipIdx_iff_getElem?.mp (mem_of_mem_segments hs)
    refine (isSome_readSegment_iff hpad).mpr ⟨_, by rw [allFiles, hfile, Option.map_some], .inr ?_⟩
    rw [length_replicate]
    exact (bounds_of_mem_segments hs).1

/-- **A read needs only the files of the chunk exactly when it opens no other**, padding apart. -/
theorem framed_iff (hbuf : c.size ≤ buf.length) : fo.Framed c buf ↔
      ∀ s ∈ fo.segmentsOf c buf.length, s.file.1.attrs.padding = false → Overlaps c s.file.1 := by
  have hread : ∀ files, fo.chunkRead files c buf =
      (readChunkFrom files fo.fileInfos.zipIdx (L.chunkAbsoluteOffset c) buf).map
        (List.take c.size) := fun files => by
    rw [chunkRead, readChunk, if_neg (Nat.not_lt.mpr hbuf)]
  constructor
  · intro hframed s hs hpad
    by_contra hnot
    -- all files are there, and then all but this one
    have hagree : fo.AgreeOn c fo.allFiles (Function.update fo.allFiles s.file.2 none) := by
      intro f hf _ hover
      refine (Function.update_of_ne (fun hid => hnot ?_) _ _).symm
      rwa [← inj_on_of_nodup_map (nodup_snd_zipIdx _) hf (mem_of_mem_segments hs) hid]
    have hsame := hframed _ _ hagree
    obtain ⟨r, hr⟩ := (exists_readChunkFrom_iff (L.chunkAbsoluteOffset c) 0 buf).mpr
      fun s hs => isSome_readSegment_allFiles hs
    rw [hread, hread, hr] at hsame
    obtain ⟨r', hr', -⟩ := eq_ok_of_map_eq_ok hsame.symm
    have hsome := (exists_readChunkFrom_iff _ 0 _).mp ⟨r', hr'⟩ s hs
    obtain ⟨content, hcontent, -⟩ := (isSome_readSegment_iff hpad).mp hsome
    rw [Function.update_self] at hcontent
    cases hcontent
  · intro hover files files' hagree
    rw [hread, hread, readChunkFrom_congr 0 fun s hs => ?_]
    rw [readSegment, readSegment]
    split
    · rfl
    · next hpad =>
      rw [Bool.not_eq_true] at hpad
      rw [preadExact, preadExact, hagree _ (mem_of_mem_segments hs) hpad (hover s hs hpad)]

/-- The first chunk of two files of one byte needs the first file only. -/
theorem framed_firstByte : (oneByteStorage []).Framed firstByte [0] :=
  (framed_iff (by decide)).mpr (by decide)

/-- The chunk that is the second file. -/
def secondByte : ChunkInfo Lengths.twoBytePieces where
  pieceIndex := ⟨1, by decide⟩
  chunkIndex := 0
  absoluteIndex := 1
  size := 1
  offset := 0

/-- **The file before the chunk is opened**, and with a longer buffer the one behind it. -/
theorem not_framed_neighbours : ¬ (oneByteStorage [0]).Framed secondByte [0] ∧
      ¬ (oneByteStorage [0]).Framed firstByte [0, 0] := by
  rw [framed_iff (by decide), framed_iff (by decide)]
  decide

/-! ## Writing -/

/-- **Every byte of the chunk that is not padding is on the disk at its place.** -/
def HoldsChunk (fo : FileOps Digest) (c : ChunkInfo L) (data : DoubleBuf) : Prop :=
  ∀ j < c.size, ∀ f ∈ fo.fileInfos.zipIdx, f.1.attrs.padding = false →
    f.1.offsetInTorrent ≤ L.chunkAbsoluteOffset c + j →
    L.chunkAbsoluteOffset c + j < f.1.offsetInTorrent + f.1.len →
    fo.files.byte f.2 (L.chunkAbsoluteOffset c + j - f.1.offsetInTorrent) = data.join[j]?

variable {fo' : FileOps Digest} {lay : Layout L} {disk : Disk} {data : DoubleBuf}

/-- **What a write that succeeds has left on the disk**: all of the chunk exactly when each byte
that the system has not taken was there already. -/
theorem holdsChunk_iff (hlay : fo.fileInfos = lay.fileInfos) (hdata : data.len = c.size)
    (hwrite : fo.writeChunk disk c data = (fo', .ok ())) :
    fo'.HoldsChunk c data ↔
      ∀ s ∈ fo.segmentsOf c c.size, s.file.1.attrs.padding = false →
        ∀ i < s.len, disk.taken s ≤ i →
          fo.files.byte s.file.2 (s.pos + i) = data.join[s.done + i]? := by
  rw [← stored_iff_taken hdata hwrite, HoldsChunk, (writeChunk_eq hwrite).1]
  constructor
  · intro h s hs hpad i hi
    have hoff := offset_of_mem_segmentsOf hlay hs
    have hbounds := bounds_of_mem_segments hs
    have hbyte := h (s.done + i) (by omega) s.file (mem_of_mem_segments hs)
      hpad (by omega) (by omega)
    rwa [show L.chunkAbsoluteOffset c + (s.done + i) - s.file.1.offsetInTorrent =
      s.pos + i by omega]
      at hbyte
  · intro h j hj f hf hpad hlo hhi
    rw [hlay] at hf
    obtain ⟨-, hend, -⟩ := mem_fileInfosFrom (fst_mem_of_mem_zipIdx hf)
    rw [lay.sum_len] at hend
    have hlaid := lay.laid
    rw [← hlay] at hlaid
    obtain ⟨s, hs, hdone, hlt⟩ :=
      exists_mem_segments hlaid (L.chunkAbsoluteOffset c) 0 hj (by omega)
    have hoff := offset_of_mem_segmentsOf hlay hs
    have hbounds := bounds_of_mem_segments hs
    -- the byte lies in one file
    have hfile : some f = some s.file := by
      rw [← lay.fileAt_eq hf hlo hhi]
      exact lay.fileAt_eq (hlay ▸ mem_of_mem_segments hs) (by omega) (by omega)
    cases hfile
    have hbyte := h s hs hpad (j - s.done) (by omega)
    rwa [show s.pos + (j - s.done) = L.chunkAbsoluteOffset c + j - s.file.1.offsetInTorrent
      by omega,
      show s.done + (j - s.done) = j by omega] at hbyte

/-- A byte that the system takes is there. -/
theorem holdsChunk_whole :
    ∃ fo', (oneByteStorage []).writeChunk Disk.whole firstByte ⟨[7], []⟩ = (fo', .ok ()) ∧
      fo'.HoldsChunk firstByte ⟨[7], []⟩ := by
  have hlay : (oneByteStorage []).fileInfos = Layout.oneByteFiles.fileInfos := rfl
  exact ⟨_, rfl, (holdsChunk_iff hlay rfl rfl).mpr (by decide)⟩

/-- **A write of which nothing is taken succeeds.** -/
theorem not_holdsChunk_short :
    ∃ fo', (oneByteStorage []).writeChunk (fun _ _ _ => some 0) firstByte ⟨[7], []⟩ =
        (fo', .ok ()) ∧ ¬ fo'.HoldsChunk firstByte ⟨[7], []⟩ := by
  refine ⟨_, rfl, fun h => ?_⟩
  cases h 0 (by decide) (_, 0) mem_cons_self (by decide) (by decide) (by decide)

end Librtbit.FileOps
