import Librtbit.Core.Lengths
import Librtbit.Core.Path

/-!
# Core/Metainfo — validating the info dictionary of a torrent

`TorrentMetaV1Info` is decoded from untrusted bytes, so its integers are machine integers and its
names are arbitrary byte strings.  `validate` computes the geometry, looks at the raw bytes of every
name, and then builds every path from the *decoded* names to see that they differ.

A character encoding is any function from bytes to text (`Encoding`), and which one is detected is
a parameter.
-/

namespace Librtbit

open Machinery Outcome List

abbrev ByteBuf : Type := List UInt8

/-- An ASCII byte string. -/
def asciiBytes (s : List Char) : ByteBuf := s.map Char.toUInt8

/-- A character encoding, as what its `decode` does to a whole name. -/
structure Encoding where
  decode : ByteBuf → List Char

/-- UTF-8, on ASCII bytes behind an optional byte order mark: the mark is sniffed and removed.  Any
other byte is replaced. -/
def utf8Ascii : Encoding where
  decode bytes :=
    let text := match bytes with
      | 0xEF :: 0xBB :: 0xBF :: rest => rest
      | _ => bytes
    text.map fun b => if b < 0x80 then Char.ofNat b.toNat else Char.ofNat 0xFFFD

/-- The BEP-47 attributes of a file. -/
structure FileDetailsAttrs where
  symlink : Bool := false
  hidden : Bool := false
  padding : Bool := false
  executable : Bool := false
  deriving DecidableEq

structure TorrentMetaV1File where
  length : UInt64
  path : List ByteBuf
  attr : Option ByteBuf := none
  deriving DecidableEq

/-- Main torrent information, shared by .torrent files and magnet link contents. -/
structure TorrentMetaV1Info where
  name : Option ByteBuf := none
  /-- v1 piece hashes (concatenated 20-byte SHA-1). -/
  pieces : Option ByteBuf
  pieceLength : UInt32
  /-- Single-file mode. -/
  length : Option UInt64 := none
  attr : Option ByteBuf := none
  /-- Multi-file mode. -/
  files : Option (List TorrentMetaV1File) := none
  deriving DecidableEq

/-- `FileIteratorNameData`: the one name of a single file, or the path of one of several. -/
inductive FileIteratorName where
  | single (name : Option ByteBuf)
  | tree (path : List ByteBuf)
  deriving DecidableEq

namespace FileIteratorName

/-- Iterate path components as bytes. -/
def iterComponentsBytes : FileIteratorName → List ByteBuf
  | single none => [asciiBytes
      ['t', 'o', 'r', 'r', 'e', 'n', 't', '-', 'c', 'o', 'n', 't', 'e', 'n', 't']]
  | single (some name) => [name]
  | tree path => path

/-- Iterate path components as strings. -/
def iterComponents (filename : FileIteratorName) (encoding : Encoding) : List (List Char) :=
  filename.iterComponentsBytes.map encoding.decode

/-- Convert path components into a `PathBuf`, for use with local FS. -/
def toPathbuf (filename : FileIteratorName) (encoding : Encoding) : PathBuf :=
  (filename.iterComponents encoding).foldl PathBuf.push []

end FileIteratorName

structure FileDetails where
  filename : FileIteratorName
  len : UInt64
  attr : Option ByteBuf
  deriving DecidableEq

/-- The attributes a string of attribute bytes sets; unknown bytes are ignored. -/
def FileDetails.attrs (fd : FileDetails) : FileDetailsAttrs :=
  match fd.attr with
  | none => {}
  | some bytes => bytes.foldl
      (fun result byte =>
        if byte = 'l'.toUInt8 then { result with symlink := true }
        else if byte = 'h'.toUInt8 then { result with hidden := true }
        else if byte = 'p'.toUInt8 then { result with padding := true }
        else if byte = 'x'.toUInt8 then { result with executable := true }
        else result) {}

namespace TorrentMetaV1Info

variable (info : TorrentMetaV1Info)

/-- The files of the torrent, in order. -/
def iterFileDetailsRaw : Outcome Error (List FileDetails) :=
  match info.length, info.files with
  | some length, none => .ok [⟨.single info.name, length, info.attr⟩]
  | none, some files =>
    if files.isEmpty then .err .badTorrentMultiFileEmpty
    else .ok (files.map fun f => ⟨.tree f.path, f.length, f.attr⟩)
  | _, _ => .err .badTorrentBothSingleAndMultiFile

/-- The hash of a piece, if `pieces` reaches that far. -/
def getHash (piece : ℕ) : Option ByteBuf :=
  info.pieces.bind fun pieces =>
    let start := piece * 20
    if start + 20 ≤ pieces.length then some ((pieces.drop start).take 20) else none

def hasV1Pieces : Bool := info.pieces.any fun p => !p.isEmpty

end TorrentMetaV1Info

/-- `Lengths::from_torrent`. -/
def Lengths.fromTorrent (torrent : TorrentMetaV1Info) : Outcome Error Lengths := do
  let details ← torrent.iterFileDetailsRaw
  let totalLength ← sumU64 (details.map fun d => d.len.toNat)
  Lengths.new totalLength torrent.pieceLength.toNat

structure ValidatedTorrentMetaV1Info where
  encoding : Encoding
  lengths : Lengths
  info : TorrentMetaV1Info

/-- The files of a validated info; the error was ruled out at creation time. -/
def ValidatedTorrentMetaV1Info.iterFileDetails (v : ValidatedTorrentMetaV1Info) :
    List FileDetails :=
  match v.info.iterFileDetailsRaw with
  | .ok files => files
  | .err _ => []
  | .abort _ => []

namespace TorrentMetaV1Info

/-- The components of one name, as bytes: none is `..`, none has a separator. -/
def checkComponents : List ByteBuf → Outcome Error Unit
  | [] => .ok ()
  | bit :: bits =>
    if bit = asciiBytes ['.', '.'] then .err .badTorrentPathTraversal
    else if bit.contains '/'.toUInt8 || bit.contains '\\'.toUInt8 then
      .err .badTorrentSeparatorInName
    else checkComponents bits

/-- The loop over the files, on the bytes of their names. -/
def checkNames : List FileDetails → Outcome Error Unit
  | [] => .ok ()
  | file :: files => do
    checkComponents file.filename.iterComponentsBytes
    if file.filename.iterComponentsBytes.isEmpty then .err .badTorrentFileNoName
    else checkNames files

/-- The paths of the files, none of them empty. -/
def checkPaths (encoding : Encoding) : List FileDetails → Outcome Error (List PathBuf)
  | [] => .ok []
  | file :: files =>
    let pb := file.filename.toPathbuf encoding
    if pb.isEmpty then .err .badTorrentFileNoName
    else do
      let rest ← checkPaths encoding files
      return pb :: rest

/-- `validate`, for an encoding detector. -/
def validate (detectEncoding : TorrentMetaV1Info → Encoding) (info : TorrentMetaV1Info) :
    Outcome Error ValidatedTorrentMetaV1Info :=
  -- BEP 52: reject v2-only torrents (no v1 piece hashes)
  if !info.hasV1Pieces then .err .v2OnlyNotSupported
  else do
    let lengths ← Lengths.fromTorrent info
    let encoding := detectEncoding info
    let files ← info.iterFileDetailsRaw
    checkNames files
    if files.length = 0 then .err .badTorrentNoFiles
    else
      let paths ← checkPaths encoding files
      -- the set of paths: two paths are one when their components are
      if (paths.map PathBuf.components).dedup.length ≠ files.length then
        .err .badTorrentDuplicateFilenames
      else return { encoding, lengths, info }

/-! ## What `validate` accepts -/

/-- A component that passes: its bytes are not `..` and hold no separator. -/
def BitAccepted (bit : ByteBuf) : Prop :=
  bit ≠ asciiBytes ['.', '.'] ∧ '/'.toUInt8 ∉ bit ∧ '\\'.toUInt8 ∉ bit

/-- The names of the files are accepted: each has a component and only components that pass, and
the decoded paths are neither empty nor equal. -/
structure NamesAccepted (encoding : Encoding) (files : List FileDetails) : Prop where
  ne_nil : files ≠ []
  bits_ne_nil : ∀ file ∈ files, file.filename.iterComponentsBytes ≠ []
  bitAccepted : ∀ file ∈ files, ∀ bit ∈ file.filename.iterComponentsBytes, BitAccepted bit
  path_ne_nil : ∀ file ∈ files, file.filename.toPathbuf encoding ≠ []
  nodup : (files.map fun file => (file.filename.toPathbuf encoding).components).Nodup

lemma checkComponents_eq_ok {bits} :
    checkComponents bits = .ok () ↔ ∀ bit ∈ bits, BitAccepted bit := by
  induction bits with
  | nil => simp [checkComponents]
  | cons bit bits ih =>
    rw [checkComponents, forall_mem_cons, BitAccepted]
    split
    · simp [*]
    split
    · rename_i hsep
      simp only [Bool.or_eq_true, contains_iff_mem] at hsep
      tauto
    · rename_i hsep
      simp only [Bool.or_eq_true, contains_iff_mem, not_or] at hsep
      tauto

lemma returns_checkComponents (bits : List ByteBuf) : (checkComponents bits).Returns := by
  induction bits with
  | nil => exact returns_ok _
  | cons bit bits ih =>
    rw [checkComponents]
    split
    · exact returns_err _
    · split
      · exact returns_err _
      · exact ih

variable {files : List FileDetails}

lemma checkNames_eq_ok :
    checkNames files = .ok () ↔ ∀ file ∈ files, file.filename.iterComponentsBytes ≠ [] ∧
      ∀ bit ∈ file.filename.iterComponentsBytes, BitAccepted bit := by
  induction files with
  | nil => simp [checkNames]
  | cons file files ih =>
    rw [checkNames, bind_eq_ok, forall_mem_cons, ← ih, ← checkComponents_eq_ok]
    constructor
    · rintro ⟨⟨⟩, hbits, hrest⟩
      split at hrest
      · cases hrest
      · rename_i hne
        exact ⟨⟨by simpa using hne, hbits⟩, hrest⟩
    · rintro ⟨⟨hne, hbits⟩, hrest⟩
      exact ⟨(), hbits, by rw [if_neg (by simpa using hne)]; exact hrest⟩

lemma returns_checkNames (files : List FileDetails) : (checkNames files).Returns := by
  induction files with
  | nil => exact returns_ok _
  | cons file files ih =>
    rw [checkNames, returns_bind]
    refine ⟨returns_checkComponents _, fun _ _ => ?_⟩
    split
    · exact returns_err _
    · exact ih

lemma checkPaths_eq_ok {encoding paths} :
    checkPaths encoding files = .ok paths ↔
      (∀ file ∈ files, file.filename.toPathbuf encoding ≠ []) ∧
        paths = files.map fun file => file.filename.toPathbuf encoding := by
  induction files generalizing paths with
  | nil =>
    rw [checkPaths, ok.injEq]
    exact ⟨fun h => ⟨fun _ hfile => absurd hfile not_mem_nil, h.symm⟩, fun h => h.2.symm⟩
  | cons file files ih =>
    rw [checkPaths, forall_mem_cons]
    split
    · rename_i hempty
      have hnil : file.filename.toPathbuf encoding = [] := by simpa using hempty
      simp [hnil]
    · rename_i hempty
      have hne : file.filename.toPathbuf encoding ≠ [] := by simpa using hempty
      simp only [bind_eq_ok, ih, pure_eq, ok.injEq]
      constructor
      · rintro ⟨rest, ⟨hrest, rfl⟩, rfl⟩
        exact ⟨⟨hne, hrest⟩, rfl⟩
      · rintro ⟨⟨-, hrest⟩, rfl⟩
        exact ⟨_, ⟨hrest, rfl⟩, rfl⟩

lemma returns_checkPaths (encoding : Encoding) (files : List FileDetails) :
    (checkPaths encoding files).Returns := by
  induction files with
  | nil => exact returns_ok _
  | cons file files ih =>
    rw [checkPaths]
    split
    · exact returns_err _
    · exact returns_bind.mpr ⟨ih, fun _ _ => returns_ok _⟩

lemma length_dedup_eq_iff {α : Type*} [DecidableEq α] {l : List α} :
    l.dedup.length = l.length ↔ l.Nodup :=
  ⟨fun h => dedup_eq_self.mp ((dedup_sublist l).eq_of_length h), fun h => by rw [h.dedup]⟩

variable {detectEncoding : TorrentMetaV1Info → Encoding} {info : TorrentMetaV1Info}

/-- **What an accepted info is**: it has v1 pieces and a geometry, and its names are accepted. -/
theorem validate_eq_ok {v} : info.validate detectEncoding = .ok v ↔
      info.hasV1Pieces = true ∧ ∃ lengths files, Lengths.fromTorrent info = .ok lengths ∧
        info.iterFileDetailsRaw = .ok files ∧ NamesAccepted (detectEncoding info) files ∧
        v = { encoding := detectEncoding info, lengths, info } := by
  rw [validate]
  split
  · rename_i hno
    simp_all
  · rename_i hv1
    simp only [bind_eq_ok, true_and, show info.hasV1Pieces = true by simpa using hv1]
    constructor
    · rintro ⟨lengths, hlengths, files, hfiles, ⟨⟩, hnames, hrest⟩
      split at hrest
      · cases hrest
      · rename_i hne
        obtain ⟨paths, hpaths, hrest⟩ := bind_eq_ok.mp hrest
        obtain ⟨hpath, rfl⟩ := checkPaths_eq_ok.mp hpaths
        split at hrest
        · cases hrest
        · rename_i hlen
          rw [map_map, not_not] at hlen
          refine ⟨lengths, files, hlengths, hfiles, ?_, (ok.inj hrest).symm⟩
          exact {
            ne_nil := by simpa using hne
            bits_ne_nil := fun file hfile => (checkNames_eq_ok.mp hnames file hfile).1
            bitAccepted := fun file hfile => (checkNames_eq_ok.mp hnames file hfile).2
            path_ne_nil := hpath
            nodup := length_dedup_eq_iff.mp (by rw [length_map]; exact hlen) }
    · rintro ⟨lengths, files, hlengths, hfiles, hnames, rfl⟩
      refine ⟨lengths, hlengths, files, hfiles, (), checkNames_eq_ok.mpr fun file hfile =>
        ⟨hnames.bits_ne_nil file hfile, hnames.bitAccepted file hfile⟩, ?_⟩
      rw [if_neg (by simpa using hnames.ne_nil),
        checkPaths_eq_ok.mpr ⟨hnames.path_ne_nil, rfl⟩, ok_bind, if_neg]
      · rfl
      have := length_dedup_eq_iff.mpr hnames.nodup
      rw [length_map] at this
      rw [map_map, not_not]
      exact this

/-- **Only the geometry can abort `validate`.** -/
theorem returns_validate_iff : (info.validate detectEncoding).Returns ↔
      (info.hasV1Pieces = true → (Lengths.fromTorrent info).Returns) := by
  rw [validate]
  split
  · rename_i hno
    simp_all
  · rename_i hv1
    have hv1 : info.hasV1Pieces = true := by simpa using hv1
    rw [returns_bind]
    refine ⟨fun h _ => h.1, fun h => ⟨h hv1, fun lengths hlengths => ?_⟩⟩
    obtain ⟨files, hfiles, -⟩ := bind_eq_ok.mp hlengths
    rw [hfiles, ok_bind, returns_bind]
    refine ⟨returns_checkNames files, fun _ _ => ?_⟩
    split
    · exact returns_err _
    refine returns_bind.mpr ⟨returns_checkPaths _ _, fun paths _ => ?_⟩
    split
    · exact returns_err _
    · exact returns_ok _

end TorrentMetaV1Info

end Librtbit
