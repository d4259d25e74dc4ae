import Librtbit.Machinery.Slices
import Librtbit.Tracker.FileInfo

/-!
# Storage/FileOps — checking pieces against the files on disk

`check_piece` reads one piece, file by file, and compares its hash.  `initial_check` reads the whole
torrent once, with a cursor that walks over the files: the cursor remembers whether the current file
failed to read, and a file that did is not read again.

A hasher is the bytes it was fed, and `sha1` an arbitrary function of them.  A file is missing, or a
string of bytes of any length; a read beyond its end fails.
-/

namespace Librtbit

open Machinery

/-- What is on disk: for each file, its content if it is there. -/
abbrev Storage : Type := ℕ → Option ByteBuf

/-- `TorrentStorage::pread_exact`; into an empty buffer nothing is read, at any position. -/
def Storage.preadExact (files : Storage) (fileId pos len : ℕ) : Option ByteBuf :=
  (files fileId).bind fun content =>
    if len = 0 ∨ pos + len ≤ content.length then some ((content.drop pos).take len) else none

inductive FileOpsError where
  /-- `failed reading chunk of size {chunk}, read so far {read}` -/
  | failedReadingChunk (chunk read : ℕ)
  /-- `error reading {to_read_in_file} bytes, file_id: {file_idx}` -/
  | errorReading (toReadInFile fileIdx : ℕ) (cause : FileOpsError)
  /-- `compare_hash() did not find the piece` -/
  | compareHashNotFound
  /-- `empty input file list` -/
  | emptyInputFileList
  /-- `broken torrent metadata` -/
  | brokenTorrentMetadata
  /-- `bug: either torrent info broken or we have a bug - piece index invalid` -/
  | pieceIndexInvalid
  /-- `initial check cancelled` -/
  | initialCheckCancelled
  /-- `read_chunk(): not enough capacity in the provided buffer` -/
  | notEnoughCapacity
  /-- `error reading {file_idx} bytes, file_id: {to_read_in_file}`, as `read_chunk` has it -/
  | errorReadingChunk (fileIdx toReadInFile : ℕ)
  /-- `error writing to file {file_idx} ("{relative_filename}")` -/
  | errorWriting (fileIdx : ℕ) (relativeFilename : PathBuf)
  deriving DecidableEq

/-- `update_hash_from_file`, with `buf` as long as `bufLen`; `fuel` bounds the number of chunks.
The hash keeps what was read before an error. -/
def updateHashFromFile (files : Storage) (fileId : ℕ) (fi : FileInfo) (bufLen : ℕ) :
    (fuel pos read bytesToRead : ℕ) → (hash : ByteBuf) → ByteBuf × Except FileOpsError Unit
  | 0, _, _, _, hash => (hash, .ok ())
  | fuel + 1, pos, read, bytesToRead, hash =>
    if bytesToRead = 0 then (hash, .ok ())
    else
      let chunk := min bufLen bytesToRead
      let buf := if fi.attrs.padding then some (List.replicate chunk 0)
        else files.preadExact fileId pos chunk
      match buf with
      | none => (hash, .error (.failedReadingChunk chunk read))
      | some buf =>
        updateHashFromFile files fileId fi bufLen fuel (pos + chunk) (read + chunk)
          (bytesToRead - chunk) (hash ++ buf)

/-- The file a cursor is in. -/
structure CurrentFile where
  index : ℕ
  fi : FileInfo
  processedBytes : ℕ
  isBroken : Bool
  deriving DecidableEq

namespace CurrentFile

def remaining (c : CurrentFile) : ℕ := c.fi.len - c.processedBytes

def markProcessedBytes (c : CurrentFile) (bytes : ℕ) : CurrentFile :=
  { c with processedBytes := c.processedBytes + bytes }

/-- The cursor at the beginning of a file. -/
def enter (f : FileInfo × ℕ) : CurrentFile := ⟨f.2, f.1, 0, false⟩

end CurrentFile

/-- The files of a torrent with the hash of each piece. -/
structure FileOps (Digest : Type) where
  sha1 : ByteBuf → Digest
  /-- `info().get_hash(piece)` -/
  getHash : ℕ → Option Digest
  files : Storage
  fileInfos : List FileInfo

namespace FileOps

variable {L : Lengths} {Digest : Type} [DecidableEq Digest] (fo : FileOps Digest)

def compareHash (piece : ℕ) (hash : Digest) : Option Bool :=
  (fo.getHash piece).map fun expectedHash => decide (expectedHash = hash)

/-! ## One piece -/

/-- The loop of `check_piece` over the files, with `absoluteOffset` counted from the first of
them. -/
def hashPieceFrom (bufLen : ℕ) :
    List (FileInfo × ℕ) → (absoluteOffset pieceRemainingBytes : ℕ) → (hash : ByteBuf) →
      Except FileOpsError ByteBuf
  | [], _, _, hash => .ok hash
  | (fi, fileIdx) :: rest, absoluteOffset, pieceRemainingBytes, hash =>
    if absoluteOffset > fi.len then
      hashPieceFrom bufLen rest (absoluteOffset - fi.len) pieceRemainingBytes hash
    else
      let toReadInFile := min (fi.len - absoluteOffset) pieceRemainingBytes
      match updateHashFromFile fo.files fileIdx fi bufLen toReadInFile absoluteOffset 0
          toReadInFile hash with
      | (_, .error e) => .error (.errorReading toReadInFile fileIdx e)
      | (hash, .ok ()) =>
        if pieceRemainingBytes - toReadInFile = 0 then .ok hash
        else hashPieceFrom bufLen rest 0 (pieceRemainingBytes - toReadInFile) hash

/-- `check_piece`. -/
def checkPiece (pieceIndex : ValidPieceIndex L) : Except FileOpsError Bool := do
  let pieceLength := L.pieceLengthOf pieceIndex
  let hash ← fo.hashPieceFrom (min 65536 pieceLength) fo.fileInfos.zipIdx
    (L.pieceOffset pieceIndex) pieceLength []
  match fo.compareHash pieceIndex.1 (fo.sha1 hash) with
  | some result => .ok result
  | none => .error .compareHashNotFound

/-! ## All pieces -/

/-- Change to the next file until there is one with bytes to read. -/
def nextFile (pieceRemaining : ℕ) :
    List (FileInfo × ℕ) → CurrentFile → Except FileOpsError (CurrentFile × List (FileInfo × ℕ))
  | [], current =>
    if min current.remaining pieceRemaining = 0 then .error .brokenTorrentMetadata
    else .ok (current, [])
  | f :: rest, current =>
    if min current.remaining pieceRemaining = 0 then
      nextFile pieceRemaining rest (CurrentFile.enter f)
    else .ok (current, f :: rest)

/-- What `initial_check` carries through a piece: the cursor, the files behind it, the hash so far
and whether a read failed. -/
structure PieceScan where
  current : CurrentFile
  rest : List (FileInfo × ℕ)
  computedHash : ByteBuf
  someFilesBroken : Bool

/-- One read of `initial_check`: a file that is broken is passed over. -/
def readInFile (s : PieceScan) (toReadInFile : ℕ) : PieceScan :=
  let pos := s.current.processedBytes
  let current := s.current.markProcessedBytes toReadInFile
  if current.isBroken then { s with current }
  else
    match updateHashFromFile fo.files current.index current.fi 65536 toReadInFile pos 0
        toReadInFile s.computedHash with
    | (computedHash, .ok ()) => { s with current, computedHash }
    | (computedHash, .error _) =>
      { s with current := { current with isBroken := true }, computedHash, someFilesBroken := true }

/-- The loop of `initial_check` over the bytes of a piece; `fuel` bounds the number of reads. -/
def scanPiece : (fuel pieceRemaining : ℕ) → PieceScan → Except FileOpsError PieceScan
  | 0, _, s => .ok s
  | fuel + 1, pieceRemaining, s =>
    if pieceRemaining = 0 then .ok s
    else do
      let (current, rest) ← nextFile pieceRemaining s.rest s.current
      let toReadInFile := min current.remaining pieceRemaining
      scanPiece fuel (pieceRemaining - toReadInFile)
        (fo.readInFile { s with current, rest } toReadInFile)

/-- The state of `initial_check` between pieces. -/
structure CheckState (L : Lengths) where
  current : CurrentFile
  rest : List (FileInfo × ℕ)
  havePieces : PieceBits L

/-- One round of `initial_check`. -/
def initialCheckPiece (isCancelled : ValidPieceIndex L → Bool) (st : CheckState L)
    (pieceInfo : PieceInfo L) : Except FileOpsError (CheckState L) :=
  if isCancelled pieceInfo.pieceIndex then .error .initialCheckCancelled
  else do
    let s ← fo.scanPiece pieceInfo.len pieceInfo.len ⟨st.current, st.rest, [], false⟩
    let st := { st with current := s.current, rest := s.rest }
    if s.someFilesBroken then return st
    else
      match fo.compareHash pieceInfo.pieceIndex.1 (fo.sha1 s.computedHash) with
      | none => .error .pieceIndexInvalid
      | some true => return { st with
          havePieces := st.havePieces.set pieceInfo.pieceIndex.1 true }
      | some false => return st

/-- `initial_check`: the pieces we have. -/
def initialCheck (isCancelled : ValidPieceIndex L → Bool) : Except FileOpsError (PieceBits L) :=
  match fo.fileInfos.zipIdx with
  | [] => .error .emptyInputFileList
  | f :: rest => do
    let st ← L.iterPieceInfos.foldlM (fo.initialCheckPiece isCancelled)
      ⟨CurrentFile.enter f, rest, BitField.zeros L.pieceBits⟩
    return st.havePieces

end FileOps

end Librtbit
