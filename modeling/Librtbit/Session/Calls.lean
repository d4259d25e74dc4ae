import Librtbit.Machinery.Run
import Librtbit.Machinery.Table
import Mathlib.Data.Finset.Basic

/-!
# Session/Calls — torrents are added, changed and deleted at once

The session keeps its torrents under their ids, with an index by info hash, behind a lock.  With
persistence, it also keeps a store: what it has in memory, the file `session.json` that this is
written to, and the files of each torrent, under its info hash.

Calls run at the same time, and each gives up the lock between its steps.  An add takes an id from
the store first, then looks for the id and the info hash and enters the torrent, then has it stored,
and takes it out again if that fails.  A delete takes the torrent out first, and then out of the
store, and removes its files last.  Whatever changes a torrent has it stored again, under the id
that the torrent has, from a handle that the caller may have had for long.

A handle is known by the number of torrents that were made before it, and what of a torrent can
change is a parameter.
-/

namespace Librtbit.Session

open Machinery

/-! ## The data -/

/-- A handle to a torrent: which one it is, and what of it does not change. -/
structure Handle (H : Type) where
  /-- The number of torrents that were made before. -/
  key : ℕ
  id : ℕ
  infoHash : H
  /-- Its storage is the `FilesystemStorageFactory`. -/
  filesystem : Bool
  /-- The bytes of its torrent file are known. -/
  hasTorrentBytes : Bool
  deriving DecidableEq

/-- What is stored of a torrent: the info hash and what can change, such as whether it is paused. -/
structure SerializedTorrent (H M : Type) where
  infoHash : H
  settings : M
  deriving DecidableEq

structure SessionDatabase (H : Type) where
  torrents : Table ℕ (Handle H) := ∅
  infoHashToId : Table H ℕ := ∅

namespace SessionDatabase

variable {H : Type} [DecidableEq H] (db : SessionDatabase H)

def addTorrent (torrent : Handle H) (id : ℕ) : SessionDatabase H where
  torrents := db.torrents.insert id torrent
  infoHashToId := db.infoHashToId.insert torrent.infoHash id

def removeTorrent (id : ℕ) : SessionDatabase H :=
  match db.torrents.lookup id with
  | some torrent => ⟨db.torrents.erase id, db.infoHashToId.erase torrent.infoHash⟩
  | none => db

def getByInfoHash (infoHash : H) : Option (ℕ × Handle H) := do
  let id ← db.infoHashToId.lookup infoHash
  let torrent ← db.torrents.lookup id
  some (id, torrent)

end SessionDatabase

/-- `JsonSessionPersistenceStore` and its files. -/
structure JsonStore (H M : Type) where
  dbContent : Table ℕ (SerializedTorrent H M) := ∅
  /-- `session.json` -/
  disk : Table ℕ (SerializedTorrent H M) := ∅
  torrentFiles : Finset H := ∅
  bitvFiles : Finset H := ∅

namespace JsonStore

variable {H M : Type} (store : JsonStore H M)

def nextId : ℕ := (store.dbContent.keys.max?.map (· + 1)).getD 0

def flush : JsonStore H M := { store with disk := store.dbContent }

def insertEntry (id : ℕ) (st : SerializedTorrent H M) : JsonStore H M :=
  { store with dbContent := store.dbContent.insert id st }

def eraseEntry (id : ℕ) : JsonStore H M := { store with dbContent := store.dbContent.erase id }

variable [DecidableEq H]

def writeTorrentFile (infoHash : H) : JsonStore H M :=
  { store with torrentFiles := insert infoHash store.torrentFiles }

def writeBitv (infoHash : H) : JsonStore H M :=
  { store with bitvFiles := insert infoHash store.bitvFiles }

def removeTorrentFile (infoHash : H) : JsonStore H M :=
  { store with torrentFiles := store.torrentFiles.erase infoHash }

def removeBitv (infoHash : H) : JsonStore H M :=
  { store with bitvFiles := store.bitvFiles.erase infoHash }

end JsonStore

/-! ## Calls -/

/-- What `update_db` is at, with what it is going to store. -/
inductive UpdateDb (H M : Type) where
  | start
  | writingTorrentFile (st : SerializedTorrent H M)
  | inserting (st : SerializedTorrent H M)
  | flushing (st : SerializedTorrent H M)
  deriving DecidableEq

/-- Where a step of `update_db` leads: on, or to its result; an error comes with what was entered
before. -/
inductive UpdateDbNext (H M : Type) where
  | more (phase : UpdateDb H M)
  | ok
  | err (stored : Option (SerializedTorrent H M))

/-- A step of `update_db(id, torrent, write_torrent_file)`; `success` is that of its file
operation. -/
def UpdateDb.next {H M : Type} [DecidableEq H] (store : JsonStore H M) (torrent : Handle H)
    (settings : M) (writeTorrentFile success : Bool) :
    UpdateDb H M → JsonStore H M × UpdateDbNext H M
  | .start =>
    let st : SerializedTorrent H M := ⟨torrent.infoHash, settings⟩
    if torrent.filesystem then
      (store, .more (if writeTorrentFile && torrent.hasTorrentBytes then .writingTorrentFile st
        else .inserting st))
    else (store, .err none)
  | .writingTorrentFile st =>
    (if success then store.writeTorrentFile torrent.infoHash else store, .more (.inserting st))
  | .inserting st => (store.insertEntry torrent.id st, .more (.flushing st))
  | .flushing st => if success then (store.flush, .ok) else (store, .err (some st))

structure AddRequest (H M : Type) where
  infoHash : H
  preferredId : Option ℕ := none
  settings : M
  filesystem : Bool := true
  hasTorrentBytes : Bool := true

/-- What `add_torrent_internal` is at, once the metadata are known, or what it returned. -/
inductive AddPhase (H M : Type) where
  | allocating
  | checking (id : ℕ)
  | storing (torrent : Handle H) (phase : UpdateDb H M)
  /-- The torrent could not be stored; what was entered into the store. -/
  | rollingBack (torrent : Handle H) (stored : Option (SerializedTorrent H M))
  | starting (torrent : Handle H)
  | added (torrent : Handle H)
  | alreadyManaged (id : ℕ) (torrent : Handle H)
  /-- The storage could not be made. -/
  | createFailed
  /-- The torrent could not be stored; what was entered into the store, and what was taken out of
  the session. -/
  | storeFailed (torrent : Handle H) (stored : Option (SerializedTorrent H M))
      (removed : Option (Handle H))
  | startFailed (torrent : Handle H)

/-- Where the add goes on with what a step of its `store` came to. -/
def UpdateDbNext.addPhase {H M : Type} (torrent : Handle H) : UpdateDbNext H M → AddPhase H M
  | .more phase => .storing torrent phase
  | .ok => .starting torrent
  | .err stored => .rollingBack torrent stored

structure AddTask (H M : Type) where
  request : AddRequest H M
  phase : AddPhase H M := .allocating

/-- What `delete` is at. -/
inductive DeleteTask (H : Type) where
  | removing (id : ℕ)
  /-- The torrent was taken out of the session… -/
  | erasing (id : ℕ) (torrent : Handle H)
  /-- …and out of the store, where its info hash was this one. -/
  | flushing (torrent : Handle H) (infoHash : H)
  | removingTorrentFile (torrent : Handle H) (infoHash : H)
  | removingBitv (torrent : Handle H) (infoHash : H)
  | completed (torrent : Handle H)
  | notFound (id : ℕ)

/-- A call that stores the settings of a torrent: `update_metadata`. -/
structure UpdateTask (H M : Type) where
  torrent : Handle H
  phase : Option (UpdateDb H M) := some .start

/-- Where the call goes on; an error is logged. -/
def UpdateDbNext.updatePhase {H M : Type} : UpdateDbNext H M → Option (UpdateDb H M)
  | .more phase => some phase
  | .ok | .err _ => none

/-- The session. -/
structure State (H M : Type) where
  db : SessionDatabase H := {}
  persistence : Option (JsonStore H M)
  nextId : ℕ := 0
  /-- All torrents that were made, and their settings now. -/
  made : List (Handle H × M) := []
  adds : List (AddTask H M) := []
  deletes : List (DeleteTask H) := []
  updates : List (UpdateTask H M) := []
  /-- The info hashes that were deleted and have not been added since. -/
  deleted : List H := []

inductive Call (H M : Type) where
  | addTorrent (request : AddRequest H M)
  /-- The next step of an add; whether what it tries succeeds. -/
  | addNext (i : ℕ) (success : Bool)
  | deleteById (id : ℕ)
  | deleteByHash (infoHash : H)
  | deleteNext (i : ℕ) (success : Bool)
  /-- `pause`, `unpause` and what else changes the torrent with this key. -/
  | change (key : ℕ) (settings : M)
  /-- `try_update_persistence_metadata` on this torrent: after a change, or when it is complete. -/
  | updateMetadata (key : ℕ)
  | updateNext (i : ℕ) (success : Bool)
  | storeInitialCheck (key : ℕ)
  | storeSessionSettings

namespace State

variable {H M : Type} [DecidableEq H] (s : State H M)

def setAdd (i : ℕ) (task : AddTask H M) : State H M := { s with adds := s.adds.set i task }

def setDelete (i : ℕ) (task : DeleteTask H) : State H M :=
  { s with deletes := s.deletes.set i task }

def setUpdate (i : ℕ) (task : UpdateTask H M) : State H M :=
  { s with updates := s.updates.set i task }

def setDb (db : SessionDatabase H) : State H M := { s with db }

def setStore (store : JsonStore H M) : State H M := { s with persistence := some store }

/-! ### Adding -/

/-- The id of a new torrent: the one that was asked for, one of the store, or the next one… -/
def allocatedId (request : AddRequest H M) : ℕ :=
  match request.preferredId, s.persistence with
  | some id, _ => id
  | none, some store => store.nextId
  | none, none => s.nextId

/-- …which is then the one after it. -/
def allocate (request : AddRequest H M) : State H M :=
  { s with
    nextId := if request.preferredId.isNone && s.persistence.isNone then s.nextId + 1
      else s.nextId }

/-- A torrent with the id or the info hash. -/
def existing (id : ℕ) (infoHash : H) : Option (ℕ × Handle H) :=
  ((s.db.torrents.lookup id).map fun torrent => (id, torrent)).orElse
    fun _ => s.db.getByInfoHash infoHash

/-- The torrent that is made next. -/
def newHandle (id : ℕ) (request : AddRequest H M) : Handle H where
  key := s.made.length
  id
  infoHash := request.infoHash
  filesystem := request.filesystem
  hasTorrentBytes := request.hasTorrentBytes

/-- A torrent enters the session. -/
def enter (torrent : Handle H) (settings : M) : State H M :=
  { s with
    db := s.db.addTorrent torrent torrent.id
    made := s.made ++ [(torrent, settings)]
    deleted := s.deleted.filter (· ≠ torrent.infoHash) }

/-- A step of `add_torrent_internal`. -/
def addNext (i : ℕ) (task : AddTask H M) (success : Bool) : Option (State H M) :=
  match task.phase with
  | .allocating =>
    some ((s.allocate task.request).setAdd i
      { task with phase := .checking (s.allocatedId task.request) })
  | .checking id =>
    match s.existing id task.request.infoHash with
    | some (id, torrent) => some (s.setAdd i { task with phase := .alreadyManaged id torrent })
    | none =>
      if success then
        let torrent := s.newHandle id task.request
        some ((s.enter torrent task.request.settings).setAdd i
          { task with
            phase := if s.persistence.isSome then .storing torrent .start else .starting torrent })
      else some (s.setAdd i { task with phase := .createFailed })
  | .storing torrent phase =>
    match s.persistence, s.made[torrent.key]? with
    | some store, some (_, settings) =>
      let next := phase.next store torrent settings true success
      some ((s.setStore next.1).setAdd i { task with phase := next.2.addPhase torrent })
    | _, _ => none
  | .rollingBack torrent stored =>
    some ((s.setDb (s.db.removeTorrent torrent.id)).setAdd i
      { task with phase := .storeFailed torrent stored (s.db.torrents.lookup torrent.id) })
  | .starting torrent =>
    some (s.setAdd i
      { task with phase := if success then .added torrent else .startFailed torrent })
  | .added _ | .alreadyManaged .. | .createFailed | .storeFailed .. | .startFailed _ => none

/-! ### Deleting -/

/-- A delete is over; the torrent is gone unless one with its info hash was added meanwhile. -/
def completeDelete (i : ℕ) (torrent : Handle H) : State H M :=
  { s with
    deletes := s.deletes.set i (.completed torrent)
    deleted := if (s.db.infoHashToId.lookup torrent.infoHash).isSome then s.deleted
      else torrent.infoHash :: s.deleted }

/-- A step of `delete`.  Errors of the store are logged. -/
def deleteNext (i : ℕ) (task : DeleteTask H) (success : Bool) : Option (State H M) :=
  match task, s.persistence with
  | .removing id, persistence =>
    match s.db.torrents.lookup id with
    | none => some (s.setDelete i (.notFound id))
    | some torrent =>
      let s := s.setDb (s.db.removeTorrent id)
      some (if persistence.isSome then s.setDelete i (.erasing id torrent)
        else s.completeDelete i torrent)
  | .erasing id torrent, some store =>
    match store.dbContent.lookup id with
    | none => some (s.completeDelete i torrent)
    | some st =>
      some ((s.setStore (store.eraseEntry id)).setDelete i (.flushing torrent st.infoHash))
  | .flushing torrent infoHash, some store =>
    some (if success then
        (s.setStore store.flush).setDelete i (.removingTorrentFile torrent infoHash)
      else s.completeDelete i torrent)
  | .removingTorrentFile torrent infoHash, some store =>
    some ((s.setStore (if success then store.removeTorrentFile infoHash else store)).setDelete i
      (.removingBitv torrent infoHash))
  | .removingBitv torrent infoHash, some store =>
    some ((s.setStore (if success then store.removeBitv infoHash else store)).completeDelete i
      torrent)
  | _, _ => none

/-! ### Updating -/

/-- A step of `update_metadata`. -/
def updateNext (i : ℕ) (task : UpdateTask H M) (success : Bool) : Option (State H M) :=
  match task.phase, s.persistence, s.made[task.torrent.key]? with
  | some phase, some store, some (_, settings) =>
    let next := phase.next store task.torrent settings false success
    some ((s.setStore next.1).setUpdate i { task with phase := next.2.updatePhase })
  | _, _, _ => none

/-- **One step of one of the calls**, or a new call. -/
def step : Call H M → Option (State H M)
  | .addTorrent request => some { s with adds := s.adds ++ [{ request }] }
  | .addNext i success => (s.adds[i]?).bind fun task => s.addNext i task success
  | .deleteById id => some { s with deletes := s.deletes ++ [.removing id] }
  | .deleteByHash infoHash =>
    (s.db.getByInfoHash infoHash).map fun found =>
      { s with deletes := s.deletes ++ [.removing found.1] }
  | .deleteNext i success => (s.deletes[i]?).bind fun task => s.deleteNext i task success
  | .change key settings =>
    (s.made[key]?).map fun torrent => { s with made := s.made.set key (torrent.1, settings) }
  | .updateMetadata key =>
    (s.made[key]?).map fun torrent => { s with updates := s.updates ++ [{ torrent := torrent.1 }] }
  | .updateNext i success => (s.updates[i]?).bind fun task => s.updateNext i task success
  | .storeInitialCheck key =>
    match s.made[key]?, s.persistence with
    | some (torrent, _), some store => some (s.setStore (store.writeBitv torrent.infoHash))
    | _, _ => none
  | .storeSessionSettings => (s.persistence).map fun store => s.setStore store.flush

end State

end Librtbit.Session
