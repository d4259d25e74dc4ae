import Librtbit.Core.CompactIp
import Librtbit.Core.Sizes
import Librtbit.Machinery.Cut
import Librtbit.Machinery.Pool

/-!
# Storage/CreateTorrent — hashing files into the pieces of a new torrent

The files are read one after another, by reads that may return less than they were asked for.  One
checksum runs across the ends of files; it is finished, and begun anew, where a piece is full.

What is left in the checksum at the end is a last, shorter piece.  Whether there is one is decided
by the length of the last file: so there is a hash too many where the last file ends with a piece,
and one is missing where the last file is empty and the files before it do not
(`createTorrentRaw_sound_iff`).

The hash function is a parameter.
-/

namespace Librtbit

open Machinery TorrentMetaV1Info List

/-- A file to be hashed: its path below the directory, and its content, whose length is a `u64`. -/
structure InputFile where
  path : List ByteBuf
  content : ByteBuf
  length_lt : content.length < 2 ^ 64

/-- What the path that was given is: a file with a name, or a directory with a name. -/
inductive CreateTorrentPath where
  | file (basename content : ByteBuf) (length_lt : content.length < 2 ^ 64)
  | dir (basename : ByteBuf) (files : List InputFile)

structure CreateTorrentOptions where
  name : Option ByteBuf := none
  pieceLength : Option UInt32 := none

namespace CreateTorrentPath

def basename : CreateTorrentPath → ByteBuf
  | file basename _ _ => basename
  | dir basename _ => basename

/-- A single file has no path below itself. -/
def inputFiles : CreateTorrentPath → List InputFile
  | file _ content length_lt => [⟨[], content, length_lt⟩]
  | dir _ files => files

end CreateTorrentPath

/-- `READ_SIZE` -/
def createReadSize : ℕ := 8192

def choosePieceLength : UInt32 := 2 * 1024 * 1024

namespace CreateTorrent

/-- The state of the loops. -/
structure Hashing where
  length : UInt64 := 0
  remainingPieceLength : ℕ
  /-- What went into `piece_checksum`. -/
  pieceChecksum : ByteBuf := []
  pieceHashes : ByteBuf := []
  outputFiles : List TorrentMetaV1File := []
  /-- The number of reads so far. -/
  reads : ℕ := 0

section

variable (sha1 : ByteBuf → Octets 20) (want : ℕ → ℕ) (pieceLength : ℕ)

/-- What a read returns that is asked for `maxBytes` where `available` are left: at least one byte
if there is one, and as many as `want` says if that is possible. -/
def readSize (want maxBytes available : ℕ) : ℕ :=
  if min maxBytes available = 0 then 0 else max 1 (min want (min maxBytes available))

/-- Bytes go into the checksum, which is finished if they make the piece full. -/
def Hashing.update (h : Hashing) (bytes : ByteBuf) : Hashing :=
  let pieceChecksum := h.pieceChecksum ++ bytes
  let remainingPieceLength := h.remainingPieceLength - bytes.length
  let h := { h with length := h.length + UInt64.ofNat bytes.length }
  if remainingPieceLength = 0 then
    { h with
      remainingPieceLength := pieceLength
      pieceChecksum := []
      pieceHashes := h.pieceHashes ++ (sha1 pieceChecksum).val }
  else { h with remainingPieceLength, pieceChecksum }

/-- The inner loop, on what is left of a file; one that makes more reads than `fuel` does not
end. -/
def hashFile : (fuel : ℕ) → (rest : ByteBuf) → Hashing → Option Hashing
  | 0, _, _ => none
  | fuel + 1, rest, h =>
    let maxBytesToRead := min h.remainingPieceLength createReadSize
    let size := readSize (want h.reads) maxBytesToRead rest.length
    let h := { h with reads := h.reads + 1 }
    if size = 0 then some h
    else hashFile fuel (rest.drop size) (h.update sha1 pieceLength (rest.take size))

/-- The outer loop.  A read returns at least one byte, and the last one none. -/
def hashFiles : List InputFile → Hashing → Option Hashing
  | [], h => some h
  | file :: files, h => do
    let h ← hashFile sha1 want pieceLength (file.content.length + 1) file.content
      { h with length := 0 }
    hashFiles files
      { h with outputFiles := h.outputFiles ++ [{ length := h.length, path := file.path }] }

/-- What is left in the checksum is hashed. -/
def Hashing.finish (h : Hashing) : ByteBuf :=
  if h.remainingPieceLength > 0 ∧ h.length > 0 then h.pieceHashes ++ (sha1 h.pieceChecksum).val
  else h.pieceHashes

end

/-- `create_torrent_raw`: the info dictionary. -/
def createTorrentRaw (sha1 : ByteBuf → Octets 20) (want : ℕ → ℕ) (path : CreateTorrentPath)
    (options : CreateTorrentOptions) : Option TorrentMetaV1Info := do
  let name := options.name.getD path.basename
  let pieceLength := options.pieceLength.getD choosePieceLength
  let h ← hashFiles sha1 want pieceLength.toNat path.inputFiles
    { remainingPieceLength := pieceLength.toNat }
  let pieces := h.finish sha1
  match path with
  | .file _ _ _ => return { name, pieces, pieceLength, length := h.length }
  | .dir _ _ => return { name, pieces, pieceLength, files := h.outputFiles }

/-! ## What the loops keep -/

section

variable {sha1 : ByteBuf → Octets 20} (want : ℕ → ℕ) {pieceLength : ℕ} {data : ByteBuf}
  {h : Hashing}

/-- The hashes of pieces, one after another. -/
def hashesOf (sha1 : ByteBuf → Octets 20) (parts : List ByteBuf) : ByteBuf :=
  parts.flatMap fun p => (sha1 p).val

/-- **The bytes that were read are cut into pieces**: full ones have been hashed, and the rest is in
the checksum. -/
def Follows (sha1 : ByteBuf → Octets 20) (pieceLength : ℕ) (data : ByteBuf) (h : Hashing) : Prop :=
  ∃ parts, Cut pieceLength data parts h.pieceChecksum ∧ h.pieceHashes = hashesOf sha1 parts ∧
    h.pieceChecksum.length + h.remainingPieceLength = pieceLength

variable (hf : Follows sha1 pieceLength data h)
include hf

lemma Follows.remaining_pos :
    0 < h.remainingPieceLength := by
  obtain ⟨parts, hcut, -, hsum⟩ := hf
  have hlt := hcut.length_rest
  omega

lemma Follows.update (bytes : ByteBuf) (hle : bytes.length ≤ h.remainingPieceLength) :
    Follows sha1 pieceLength (data ++ bytes) (h.update sha1 pieceLength bytes) := by
  obtain ⟨parts, hcut, hhashes, hsum⟩ := hf
  rw [Hashing.update]
  split
  · next hzero =>
    have hfull : h.pieceChecksum.length + bytes.length = pieceLength := by omega
    refine ⟨parts ++ [h.pieceChecksum ++ bytes], hcut.complete hfull, ?_, Nat.zero_add _⟩
    rw [hashesOf, flatMap_append, flatMap_singleton, hhashes, hashesOf]
  · next hpos =>
    refine ⟨parts, hcut.append (by omega), hhashes, ?_⟩
    show (h.pieceChecksum ++ bytes).length + (h.remainingPieceLength - bytes.length) = pieceLength
    rw [length_append]
    omega

omit hf

lemma length_update (sha1 : ByteBuf → Octets 20) (pieceLength : ℕ) (h : Hashing)
    (bytes : ByteBuf) :
    (h.update sha1 pieceLength bytes).length = h.length + UInt64.ofNat bytes.length ∧
      (h.update sha1 pieceLength bytes).outputFiles = h.outputFiles := by
  rw [Hashing.update]
  split <;> exact ⟨rfl, rfl⟩

lemma readSize_spec (want : ℕ) {maxBytes} (available : ℕ) (hmax : 0 < maxBytes) :
    readSize want maxBytes available ≤ maxBytes ∧ readSize want maxBytes available ≤ available ∧
      (readSize want maxBytes available = 0 ↔ available = 0) := by
  rw [readSize]
  split <;> omega

/-- **A file is read to its end**, whatever the reads return. -/
theorem exists_hashFile (hf : Follows sha1 pieceLength data h) {fuel rest}
    (hfuel : rest.length < fuel) :
    ∃ h', hashFile sha1 want pieceLength fuel rest h = some h' ∧
      Follows sha1 pieceLength (data ++ rest) h' ∧
      h'.length = h.length + UInt64.ofNat rest.length ∧ h'.outputFiles = h.outputFiles := by
  induction fuel generalizing rest data h with
  | zero => omega
  | succ fuel ih =>
    have hmax : 0 < min h.remainingPieceLength createReadSize :=
      lt_min hf.remaining_pos (by decide)
    obtain ⟨hle, havailable, hzero⟩ := readSize_spec (want h.reads) rest.length hmax
    rw [hashFile]
    generalize readSize (want h.reads) (min h.remainingPieceLength createReadSize) rest.length =
      size at hle havailable hzero ⊢
    split
    · next hsize =>
      obtain rfl := length_eq_zero_iff.mp (hzero.mp hsize)
      rw [append_nil]
      exact ⟨_, rfl, hf, (UInt64.add_zero _).symm, rfl⟩
    · next hsize =>
      have htake : (rest.take size).length = size := length_take_of_le havailable
      have hdrop : (rest.drop size).length < fuel := by
        rw [length_drop]
        omega
      have hf' : Follows sha1 pieceLength (data ++ rest.take size)
          (Hashing.update sha1 pieceLength { h with reads := h.reads + 1 } (rest.take size)) :=
        Follows.update (h := { h with reads := h.reads + 1 }) hf _
          (htake.trans_le (hle.trans (min_le_left _ _)))
      obtain ⟨h', hrun, hfollows, hlength, hfiles⟩ := ih hf' hdrop
      obtain ⟨hlength', hfiles'⟩ := length_update sha1 pieceLength
        { h with reads := h.reads + 1 } (rest.take size)
      rw [append_assoc, take_append_drop] at hfollows
      refine ⟨h', hrun, hfollows, ?_, hfiles.trans hfiles'⟩
      rw [hlength, hlength', htake, UInt64.add_assoc, ← UInt64.ofNat_add, length_drop,
        Nat.add_sub_cancel' havailable]

/-- The file at the end, if there is one, is what the length is that of. -/
def lastLength (h : Hashing) (files : List InputFile) : UInt64 :=
  (files.getLast?.map fun f => UInt64.ofNat f.content.length).getD h.length

/-- **The files are read one after another.** -/
theorem exists_hashFiles (hf : Follows sha1 pieceLength data h) (files : List InputFile) :
    ∃ h', hashFiles sha1 want pieceLength files h = some h' ∧
      Follows sha1 pieceLength (data ++ files.flatMap InputFile.content) h' ∧
      h'.length = lastLength h files ∧
      h'.outputFiles = h.outputFiles ++ files.map fun f =>
        { length := UInt64.ofNat f.content.length, path := f.path } := by
  induction files generalizing data h with
  | nil =>
    refine ⟨h, rfl, ?_, rfl, (append_nil _).symm⟩
    rwa [flatMap_nil, append_nil]
  | cons file files ih =>
    obtain ⟨h₁, hrun, hf₁, hlength, hfiles⟩ := exists_hashFile want
      (h := { h with length := 0 }) hf (Nat.lt_succ_self file.content.length)
    obtain ⟨h', hrun', hf', hlength', hfiles'⟩ := ih (h := { h₁ with
      outputFiles := h₁.outputFiles ++ [{ length := h₁.length, path := file.path }] }) hf₁
    rw [UInt64.zero_add] at hlength
    refine ⟨h', ?_, ?_, ?_, ?_⟩
    · rw [hashFiles, hrun]
      exact hrun'
    · rwa [flatMap_cons, ← append_assoc]
    · rw [hlength']
      cases files with
      | nil => exact hlength
      | cons file' files => rfl
    · rw [hfiles', hfiles, hlength, append_assoc]
      rfl

/-- What the finished hashes are. -/
lemma finish_eq {parts} (hcut : Cut pieceLength data parts h.pieceChecksum)
    (hhashes : h.pieceHashes = hashesOf sha1 parts)
    (hsum : h.pieceChecksum.length + h.remainingPieceLength = pieceLength) :
    h.finish sha1 = hashesOf sha1 (if h.length = 0 then parts else parts ++ [h.pieceChecksum]) := by
  have hpos : 0 < h.remainingPieceLength := Follows.remaining_pos ⟨parts, hcut, hhashes, hsum⟩
  rw [Hashing.finish]
  by_cases hzero : h.length = 0
  · rw [if_neg (by simp [hzero]), if_pos hzero, hhashes]
  · have hlength : h.length > 0 := UInt64.pos_iff_ne_zero.mpr hzero
    rw [if_pos ⟨hpos, hlength⟩, if_neg hzero, hhashes, hashesOf, hashesOf, flatMap_append,
      flatMap_singleton]

end

/-! ## The torrent -/

end CreateTorrent

namespace CreateTorrentPath

variable (path : CreateTorrentPath)

/-- The concatenation of the files. -/
def data : ByteBuf := path.inputFiles.flatMap InputFile.content

/-- There is a last file, and it is not empty. -/
def lastNonempty : Bool := path.inputFiles.getLast?.any fun f => !f.content.isEmpty

/-- The files as the torrent has them. -/
def fileDetails (name : ByteBuf) : List FileDetails :=
  match path with
  | file _ content _ => [⟨.single name, UInt64.ofNat content.length, none⟩]
  | dir _ files => files.map fun f => ⟨.tree f.path, UInt64.ofNat f.content.length, none⟩

/-- The exact lengths are recorded, in order. -/
def RecordedIn (info : TorrentMetaV1Info) : Prop :=
  match path with
  | file _ content _ => info.length.map UInt64.toNat = some content.length ∧ info.files = none
  | dir _ files => info.length = none ∧
      info.files.map (fun fs => fs.map fun f => (f.path, f.length.toNat)) =
        some (files.map fun f => (f.path, f.content.length))

end CreateTorrentPath

namespace CreateTorrent

/-- **The torrent is right**: it has a hash for each piece and no more, each that of the bytes at
its place; it has the exact lengths; it passes `validate`. -/
structure Sound (sha1 : ByteBuf → Octets 20) (detectEncoding : TorrentMetaV1Info → Encoding)
    (path : CreateTorrentPath) (info : TorrentMetaV1Info) : Prop where
  length_pieces : info.pieces.map List.length =
    some (20 * (path.data.length ⌈/⌉ info.pieceLength.toNat))
  getHash_eq : ∀ i < path.data.length ⌈/⌉ info.pieceLength.toNat, info.getHash i =
    some (sha1 ((path.data.drop (i * info.pieceLength.toNat)).take info.pieceLength.toNat)).val
  recorded : path.RecordedIn info
  validates : ∃ v, info.validate detectEncoding = .ok v

/-- **When it is**: there is a last file that is not empty exactly if the last piece is not full;
the files are not all empty, their lengths add up within 64 bits and the number of pieces is not
cut to zero; and the names are accepted. -/
structure Fits (encoding : Encoding) (path : CreateTorrentPath) (name : ByteBuf)
    (pieceLength : ℕ) : Prop where
  last_iff : path.lastNonempty = true ↔ ¬ pieceLength ∣ path.data.length
  data_ne_nil : path.data ≠ []
  length_lt : path.data.length < 2 ^ 64
  count_ne_zero : asU32 (path.data.length ⌈/⌉ pieceLength) ≠ 0
  names : TorrentMetaV1Info.NamesAccepted encoding (path.fileDetails name)

lemma toNat_ofNat_length (f : InputFile) :
    (UInt64.ofNat f.content.length).toNat = f.content.length :=
  UInt64.toNat_ofNat_of_lt' f.length_lt

variable (path : CreateTorrentPath)

lemma totalLength_fileDetails (name : ByteBuf) :
    totalLength (path.fileDetails name) = path.data.length := by
  cases path with
  | file basename content length_lt =>
    have hlen := UInt64.toNat_ofNat_of_lt' length_lt
    simp [totalLength, CreateTorrentPath.fileDetails, CreateTorrentPath.data,
      CreateTorrentPath.inputFiles, hlen]
  | dir basename files =>
    rw [totalLength, CreateTorrentPath.fileDetails, map_map,
      CreateTorrentPath.data, CreateTorrentPath.inputFiles, length_flatMap]
    exact congrArg List.sum (map_congr_left fun f _ => toNat_ofNat_length f)

lemma lastLength_eq_zero_iff (h : Hashing) (hzero : h.length = 0) :
    lastLength h path.inputFiles = 0 ↔ path.lastNonempty = false := by
  rw [lastLength, CreateTorrentPath.lastNonempty]
  cases path.inputFiles.getLast? with
  | none => simp [hzero]
  | some f =>
    rw [Option.map_some, Option.getD_some, ← UInt64.toNat_inj, toNat_ofNat_length]
    simp

/-! ### Hashes -/

section

variable {sha1 : ByteBuf → Octets 20} {info : TorrentMetaV1Info} {parts : List ByteBuf}

lemma cut_hashesOf (sha1 : ByteBuf → Octets 20) (parts : List ByteBuf) :
    Cut 20 (hashesOf sha1 parts) (parts.map fun p => (sha1 p).val) [] := by
  refine ⟨?_, fun p hp => ?_, by decide⟩
  · rw [append_nil, hashesOf, flatMap_def]
  · obtain ⟨q, -, rfl⟩ := mem_map.mp hp
    exact (sha1 q).property

lemma length_hashesOf (sha1 : ByteBuf → Octets 20) (parts : List ByteBuf) :
    (hashesOf sha1 parts).length = 20 * parts.length := by
  rw [(cut_hashesOf sha1 parts).length_eq, length_map, length_nil, Nat.add_zero, Nat.mul_comm]

lemma getHash_hashesOf (hpieces : info.pieces = some (hashesOf sha1 parts)) {i p}
    (hp : parts[i]? = some p) : info.getHash i = some (sha1 p).val := by
  have hi : i < parts.length := (List.getElem?_eq_some_iff.mp hp).1
  have hpart : (parts.map fun p => (sha1 p).val)[i]? = some (sha1 p).val := by
    rw [getElem?_map, hp, Option.map_some]
  rw [getHash, hpieces, Option.bind_some, length_hashesOf, if_pos (by omega),
    (cut_hashesOf sha1 parts).take_drop hpart]

/-- **The hashes are those of the pieces exactly if what is left over is hashed where there is
something left over.** -/
theorem hashes_iff {n data rest last} (hcut : Cut n data parts rest) (hpieces : info.pieces =
      some (hashesOf sha1 (if last = true then parts ++ [rest] else parts))) :
    (info.pieces.map List.length = some (20 * (data.length ⌈/⌉ n)) ∧
      ∀ i < data.length ⌈/⌉ n, info.getHash i =
        some (sha1 ((data.drop (i * n)).take n)).val) ↔ (last = true ↔ ¬ n ∣ data.length) := by
  rw [hcut.ceilDiv_eq, ← hcut.rest_eq_nil_iff]
  constructor
  · rintro ⟨hlength, -⟩
    rw [hpieces, Option.map_some, Option.some.injEq, length_hashesOf] at hlength
    cases last with
    | false =>
      rw [if_neg Bool.false_ne_true] at hlength
      refine iff_of_false Bool.false_ne_true fun hne => ?_
      rw [if_neg hne] at hlength
      omega
    | true =>
      rw [if_pos rfl, length_append, length_singleton] at hlength
      refine iff_of_true rfl fun hnil => ?_
      rw [if_pos hnil] at hlength
      omega
  · intro hlast
    by_cases hnil : rest = []
    · have hfalse : last = false := Bool.eq_false_iff.mpr fun h => hlast.mp h hnil
      rw [hfalse, if_neg Bool.false_ne_true] at hpieces
      rw [if_pos hnil, Nat.add_zero]
      refine ⟨by rw [hpieces, Option.map_some, length_hashesOf], fun i hi => ?_⟩
      have hp : parts[i]? = some parts[i] := getElem?_eq_getElem hi
      rw [hcut.take_drop hp]
      exact getHash_hashesOf hpieces hp
    · rw [hlast.mpr hnil, if_pos rfl] at hpieces
      rw [if_neg hnil]
      refine ⟨by rw [hpieces, Option.map_some, length_hashesOf, length_append]; rfl, fun i hi => ?_⟩
      rcases Nat.lt_succ_iff_lt_or_eq.mp hi with hi | rfl
      · have hp : parts[i]? = some parts[i] := getElem?_eq_getElem hi
        rw [hcut.take_drop hp]
        exact getHash_hashesOf hpieces (getElem?_concat_of_some hp rest)
      · rw [hcut.take_drop_rest]
        exact getHash_hashesOf hpieces getElem?_concat_length

end

/-! ### The info dictionary -/

/-- **What the torrent is made of**, whatever the reads return. -/
theorem exists_createTorrentRaw (sha1 : ByteBuf → Octets 20) (want : ℕ → ℕ)
    (path : CreateTorrentPath) (options : CreateTorrentOptions)
    (hpos : 0 < (options.pieceLength.getD choosePieceLength).toNat) :
    ∃ info parts rest, createTorrentRaw sha1 want path options = some info ∧
      info.pieceLength = options.pieceLength.getD choosePieceLength ∧
      Cut info.pieceLength.toNat path.data parts rest ∧
      info.pieces =
        some (hashesOf sha1 (if path.lastNonempty = true then parts ++ [rest] else parts)) ∧
      path.RecordedIn info ∧
      ∀ files, info.iterFileDetailsRaw = .ok files ↔
        files = path.fileDetails (options.name.getD path.basename) ∧ files ≠ [] := by
  generalize hpl : options.pieceLength.getD choosePieceLength = pieceLength at hpos
  have hstart : Follows sha1 pieceLength.toNat []
      { remainingPieceLength := pieceLength.toNat } :=
    ⟨[], Cut.nil hpos, rfl, Nat.zero_add _⟩
  obtain ⟨h, hrun, ⟨parts, hcut, hhashes, hsum⟩, hlength, hfiles⟩ :=
    exists_hashFiles want hstart path.inputFiles
  have hpieces := finish_eq hcut hhashes hsum
  have hlast := lastLength_eq_zero_iff path { remainingPieceLength := pieceLength.toNat } rfl
  rw [← hlength] at hlast
  have hif : (if h.length = 0 then parts else parts ++ [h.pieceChecksum]) =
      if path.lastNonempty = true then parts ++ [h.pieceChecksum] else parts := by
    by_cases hzero : h.length = 0
    · rw [if_pos hzero, hlast.mp hzero, if_neg Bool.false_ne_true]
    · rw [if_neg hzero, if_pos (Bool.eq_true_of_not_eq_false fun hf => hzero (hlast.mpr hf))]
  rw [hif] at hpieces
  rw [createTorrentRaw, hpl, hrun]
  cases path with
  | file basename content length_lt =>
    have hcontent : h.length = UInt64.ofNat content.length := hlength
    refine ⟨_, parts, h.pieceChecksum, rfl, rfl, hcut, congrArg some hpieces, ⟨?_, rfl⟩,
      fun files => ?_⟩
    · show some h.length.toNat = some content.length
      rw [hcontent, UInt64.toNat_ofNat_of_lt' length_lt]
    show Outcome.ok [_] = Outcome.ok files ↔ _
    rw [hcontent, Outcome.ok.injEq]
    constructor
    · rintro rfl
      exact ⟨rfl, cons_ne_nil _ _⟩
    · exact fun hfiles => hfiles.1.symm
  | dir basename inputFiles =>
    have houtput : h.outputFiles = inputFiles.map fun f =>
        ({ length := UInt64.ofNat f.content.length, path := f.path } : TorrentMetaV1File) := hfiles
    refine ⟨_, parts, h.pieceChecksum, rfl, rfl, hcut, congrArg some hpieces, ⟨rfl, ?_⟩,
      fun files => ?_⟩
    · show some (h.outputFiles.map fun f => (f.path, f.length.toNat)) = _
      rw [houtput, map_map]
      refine congrArg some (map_congr_left fun f _ => ?_)
      exact congrArg (Prod.mk f.path) (toNat_ofNat_length f)
    · show (if h.outputFiles.isEmpty then Outcome.err Error.badTorrentMultiFileEmpty
        else .ok (h.outputFiles.map fun f => ⟨.tree f.path, f.length, f.attr⟩)) = .ok files ↔ _
      rw [houtput, map_map]
      cases inputFiles with
      | nil =>
        refine iff_of_false (fun herr => ?_) ?_
        · cases herr
        · rintro ⟨rfl, hne⟩
          exact hne rfl
      | cons f fs =>
        rw [if_neg (by simp), Outcome.ok.injEq]
        constructor
        · rintro rfl
          exact ⟨rfl, cons_ne_nil _ _⟩
        · exact fun hfiles => hfiles.1.symm

/-- **When the torrent passes `validate`.** -/
theorem validates_iff {detectEncoding} {info : TorrentMetaV1Info}
    {path : CreateTorrentPath} {name} (hpos : 0 < info.pieceLength.toNat)
    (hiter : ∀ files, info.iterFileDetailsRaw = .ok files ↔
      files = path.fileDetails name ∧ files ≠ []) :
    (∃ v, info.validate detectEncoding = .ok v) ↔ info.hasV1Pieces = true ∧ path.data ≠ [] ∧
      path.data.length < 2 ^ 64 ∧ asU32 (path.data.length ⌈/⌉ info.pieceLength.toNat) ≠ 0 ∧
      TorrentMetaV1Info.NamesAccepted (detectEncoding info) (path.fileDetails name) := by
  constructor
  · rintro ⟨v, hv⟩
    obtain ⟨hv1, lengths, files, hlengths, hfiles, hnames, -⟩ :=
      validate_eq_ok.mp hv
    obtain ⟨rfl, -⟩ := (hiter files).mp hfiles
    rw [fromTorrent_eq hfiles, totalLength_fileDetails] at hlengths
    split at hlengths
    · next hlt =>
      obtain ⟨htotal, -, hcount, -⟩ := Lengths.new_eq_ok hlengths
      exact ⟨hv1, fun hnil => htotal (by rw [hnil, length_nil]), hlt, hcount, hnames⟩
    · cases hlengths
  · rintro ⟨hv1, hdata, hlt, hcount, hnames⟩
    have hfiles := (hiter _).mpr ⟨rfl, hnames.ne_nil⟩
    have hlengths := fromTorrent_eq hfiles
    rw [totalLength_fileDetails, if_pos hlt, Lengths.new_eq,
      if_neg (fun hzero => hdata (length_eq_zero_iff.mp hzero)), if_neg hpos.ne',
      if_neg hcount] at hlengths
    exact ⟨_, validate_eq_ok.mpr ⟨hv1, _, _, hlengths, hfiles, hnames, rfl⟩⟩

/-- **The torrent is right exactly if the last file decides rightly whether there is a last piece**,
and the files make up a torrent that `validate` accepts. -/
theorem createTorrentRaw_sound_iff (sha1 : ByteBuf → Octets 20) (want : ℕ → ℕ)
    (detectEncoding : TorrentMetaV1Info → Encoding) (path : CreateTorrentPath)
    (options : CreateTorrentOptions)
    (hpos : 0 < (options.pieceLength.getD choosePieceLength).toNat) :
    ∃ info, createTorrentRaw sha1 want path options = some info ∧
      (Sound sha1 detectEncoding path info ↔
        Fits (detectEncoding info) path (options.name.getD path.basename)
          (options.pieceLength.getD choosePieceLength).toNat) := by
  obtain ⟨info, parts, rest, hrun, hpl, hcut, hpieces, hrecorded, hiter⟩ :=
    exists_createTorrentRaw sha1 want path options hpos
  rw [← hpl] at hpos ⊢
  have hhashes := hashes_iff hcut hpieces
  have hvalidates : (∃ v, info.validate detectEncoding = .ok v) ↔ _ := validates_iff hpos hiter
  refine ⟨info, hrun, ⟨fun hs => ?_, fun hf => ?_⟩⟩
  · obtain ⟨-, hdata, hlt, hcount, hnames⟩ := hvalidates.mp hs.validates
    exact ⟨hhashes.mp ⟨hs.length_pieces, hs.getHash_eq⟩, hdata, hlt, hcount, hnames⟩
  obtain ⟨hlength, hgetHash⟩ := hhashes.mpr hf.last_iff
  refine ⟨hlength, hgetHash, hrecorded, hvalidates.mpr
    ⟨?_, hf.data_ne_nil, hf.length_lt, hf.count_ne_zero, hf.names⟩⟩
  rw [hasV1Pieces_iff]
  refine ⟨_, hpieces, fun hnil => ?_⟩
  rw [hpieces, hnil] at hlength
  have hceil : path.data.length ⌈/⌉ info.pieceLength.toNat = 0 := by
    have hzero : 0 = 20 * (path.data.length ⌈/⌉ info.pieceLength.toNat) :=
      Option.some.inj hlength
    omega
  exact hf.count_ne_zero (by rw [hceil]; rfl)

/-- A hash function. -/
def zeroHash (_ : ByteBuf) : Octets 20 := ⟨List.replicate 20 0, rfl⟩

/-- A file of two pieces of two bytes, the second of which is not full. -/
theorem createTorrentRaw_sound_iff_threeBytes :
    ∃ info, createTorrentRaw zeroHash (fun _ => 1) (.file [0x61] [1, 2, 3] (by decide))
        { pieceLength := some 2 } = some info ∧
      Sound zeroHash (fun _ => utf8Ascii) (.file [0x61] [1, 2, 3] (by decide)) info := by
  obtain ⟨info, hrun, hiff⟩ := createTorrentRaw_sound_iff zeroHash (fun _ => 1)
    (fun _ => utf8Ascii) (.file [0x61] [1, 2, 3] (by decide)) { pieceLength := some 2 } (by decide)
  refine ⟨info, hrun, hiff.mpr ⟨by decide, by decide, by decide, by decide, ?_⟩⟩
  refine ⟨by decide, by decide, ?_, by decide, by decide⟩
  unfold TorrentMetaV1Info.BitAccepted
  decide

/-- **A hash too many, and a hash too few**: of one file of one byte in pieces of one byte, the
second hash is that of no bytes; of a file of one byte and an empty file in pieces of two bytes,
there is no hash at all. -/
theorem not_sound_created :
    (∃ info, createTorrentRaw zeroHash (fun _ => 1) (.file [0x61] [1] (by decide))
        { pieceLength := some 1 } = some info ∧
      ¬ Sound zeroHash (fun _ => utf8Ascii) (.file [0x61] [1] (by decide)) info) ∧
    ∃ info, createTorrentRaw zeroHash (fun _ => 1)
        (.dir [0x61] [⟨[[0x62]], [1], by decide⟩, ⟨[[0x63]], [], by decide⟩])
        { pieceLength := some 2 } = some info ∧
      ¬ Sound zeroHash (fun _ => utf8Ascii)
        (.dir [0x61] [⟨[[0x62]], [1], by decide⟩, ⟨[[0x63]], [], by decide⟩]) info := by
  refine ⟨⟨_, rfl, fun h => ?_⟩, ⟨_, rfl, fun h => ?_⟩⟩
  · exact absurd h.length_pieces (by decide)
  · exact absurd h.length_pieces (by decide)

end CreateTorrent

end Librtbit
