import Librtbit.Core.Metainfo

/-!
# Session/Folders — the folder a torrent is stored in

A folder can have the category of the torrent in it: `expand_folder_template` puts it in the place
of a placeholder, without separators.  Below that folder, a torrent of several files gets one of its
own, with the name of the torrent (`defaultSubfolder`).
-/

namespace Librtbit

/-- Why a torrent is not added. -/
inductive AddError where
  /-- `only_files and only_files_regex are mutually exclusive` -/
  | onlyFilesAndRegex
  /-- `file id {id} is out of range` -/
  | outOfRange (id : ℕ)
  /-- `filename regex is incorrect` -/
  | incorrectRegex
  /-- `none of the filenames match the given regex` -/
  | noneMatch
  /-- `path traversal in torrent name detected` -/
  | pathTraversal
  /-- `can't determine longest filename` -/
  | noLongestFilename
  /-- `output_folder, output_folder_root, and sub_folder are mutually exclusive` -/
  | severalFolders
  deriving DecidableEq

/-! ## Templates -/

/-- `char::is_whitespace` -/
def isWhitespace (c : Char) : Bool :=
  let n := c.toNat
  (decide (9 ≤ n) && decide (n ≤ 13)) || (decide (0x2000 ≤ n) && decide (n ≤ 0x200A)) ||
    [0x20, 0x85, 0xA0, 0x1680, 0x2028, 0x2029, 0x202F, 0x205F, 0x3000].contains n

/-- `str::trim` -/
def trim (text : List Char) : List Char :=
  ((text.dropWhile isWhitespace).reverse.dropWhile isWhitespace).reverse

/-- Replaces the pattern in what follows `skip` letters, which belong to an occurrence. -/
def replaceFrom (pattern rep : List Char) : (skip : ℕ) → List Char → List Char
  | _, [] => []
  | skip + 1, _ :: text => replaceFrom pattern rep skip text
  | 0, c :: text =>
    if pattern <+: c :: text then rep ++ replaceFrom pattern rep (pattern.length - 1) text
    else c :: replaceFrom pattern rep 0 text

/-- The placeholder of the category. -/
def categoryTemplate : List Char := ['{', 'c', 'a', 't', 'e', 'g', 'o', 'r', 'y', '}']

/-- What a torrent without a category is put under. -/
def uncategorized : List Char := ['u', 'n', 'c', 'a', 't', 'e', 'g', 'o', 'r', 'i', 'z', 'e', 'd']

def sanitize (c : Char) : Char := if c = '/' ∨ c = '\\' ∨ c = '\x00' then '_' else c

def expandFolderTemplate (folder : PathBuf) (category : Option (List Char)) : PathBuf :=
  if categoryTemplate <:+: folder then
    let category := ((category.map trim).filter fun c => !c.isEmpty).getD uncategorized
    replaceFrom categoryTemplate (category.map sanitize) 0 folder
  else folder

/-- **A folder without a placeholder is its own expansion.** -/
theorem expandFolderTemplate_of_plain {folder : PathBuf} (h : ¬ categoryTemplate <:+: folder)
    (category : Option (List Char)) : expandFolderTemplate folder category = folder :=
  if_neg h

/-! ## The folder of a torrent -/

namespace ValidatedTorrentMetaV1Info

variable (info : ValidatedTorrentMetaV1Info)

/-- `name`, if it is not empty. -/
def name : Option (List Char) :=
  (info.info.name.map info.encoding.decode).filter fun name => !name.isEmpty

/-- The file that no other is longer than, the last one if there are several. -/
def longest : List (PathBuf × ℕ) → Option PathBuf
  | [] => none
  | file :: files =>
    some (files.foldl (fun best file => if best.2 ≤ file.2 then file else best) file).1

/-- `get_default_subfolder_for_torrent`, of a torrent file. -/
def defaultSubfolder : Except AddError (Option PathBuf) :=
  if info.info.files.isNone then .ok none
  else
    match info.name with
    | some name =>
      if (PathBuf.components name).all Component.isNormal then .ok (some name)
      else .error .pathTraversal
    | none =>
      match (longest (info.iterFileDetails.map fun fd =>
          (fd.filename.toPathbuf info.encoding, fd.len.toNat))).bind PathBuf.fileStem with
      | some stem => .ok (some stem)
      | none => .error .noLongestFilename

end ValidatedTorrentMetaV1Info

end Librtbit
