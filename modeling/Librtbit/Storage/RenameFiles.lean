import Librtbit.Storage.Relocate
import Librtbit.Tracker.FileInfo

/-!
# Storage/RenameFiles — giving the files of a torrent other names

`rename_files` checks a batch of new names, moves the files one after the other, and only then
records the names in the metadata.  A batch may name a file twice, exchange two names or lead a file
over a name another one has just left: what is checked is where the files end, and what is moved is
one file at a time to a place where there is nothing.

When a move fails, the files moved before it are moved back to where the batch found them.  Such a
move leads home from anywhere, so it does not matter how often a file was named
(`way_renameSteps`); what does is that the file whose move failed has not moved itself, which it has
when it could not be opened again (`renamesAllOrNothing_iff`).
-/

namespace Librtbit

open Machinery List

/-- `Path::join`, by components, onto a path that is not empty. -/
def FsPath.join (root : FsPath) (p : PathBuf) : FsPath :=
  if p.isAbsolute then p.components else root ++ (p.splitOn '/').filterMap PathBuf.component?

inductive RenameFilesError where
  /-- `torrent must be stopped before renaming files` -/
  | mustBeStopped
  /-- `torrent is not in a renamable state (must be stopped)` -/
  | notRenamable
  /-- `no files to rename` -/
  | noFiles
  /-- `no such file id {file_id}` -/
  | noSuchFileId (fileId : ℕ)
  /-- `new path for file {file_id} is empty` -/
  | emptyPath (fileId : ℕ)
  /-- `new path {new_relative} must be relative to the torrent root` -/
  | mustBeRelative (newRelative : PathBuf)
  /-- `new path {new_relative} must not contain '.', '..', or a root` -/
  | mustBeNormal (newRelative : PathBuf)
  /-- `rename would create two files at the same path: {path}` -/
  | samePath (path : PathBuf)
  /-- `failed to rename file on disk; rolled back` -/
  | onDisk (e : RenameError)
  deriving DecidableEq

/-- A file id and the path it is to get. -/
abbrev NewName : Type := ℕ × PathBuf

/-! ## What is checked -/

section Validate

/-- What is checked of one new name, with `count` files. -/
def checkRename (count : ℕ) (r : NewName) : Except RenameFilesError Unit :=
  if count ≤ r.1 then .error (.noSuchFileId r.1)
  else if r.2 = [] then .error (.emptyPath r.1)
  else if r.2.isAbsolute then .error (.mustBeRelative r.2)
  else if r.2.components.all Component.isNormal then .ok ()
  else .error (.mustBeNormal r.2)

/-- The first new name that does not pass decides. -/
def checkRenames (count : ℕ) : List NewName → Except RenameFilesError Unit
  | [] => .ok ()
  | r :: rest =>
    match checkRename count r with
    | .error e => .error e
    | .ok () => checkRenames count rest

/-- The first path that was seen before. -/
def findSeen : (seen : List FsPath) → List PathBuf → Option PathBuf
  | _, [] => none
  | seen, p :: rest => if p.components ∈ seen then some p else findSeen (p.components :: seen) rest

variable (fileInfos : List FileInfo) (renames : List NewName)

/-- The paths of the files with the new ones put in. -/
def pathsAfter : List PathBuf :=
  renames.foldl (fun paths r => paths.set r.1 r.2) (fileInfos.map FileInfo.relativeFilename)

def validateRenames : Except RenameFilesError Unit :=
  if renames = [] then .error .noFiles
  else
    match checkRenames fileInfos.length renames with
    | .error e => .error e
    | .ok () =>
      match findSeen [] (pathsAfter fileInfos renames) with
      | some p => .error (.samePath p)
      | none => .ok ()

/-- Only the path changes. -/
def FileInfo.withPath (fi : FileInfo) (p : PathBuf) : FileInfo := { fi with relativeFilename := p }

def withRenamedFiles : List FileInfo :=
  renames.foldl (fun infos r => infos.modify r.1 fun fi => fi.withPath r.2) fileInfos

/-- The last path given for a file, or the one it has. -/
def lastPath (id : ℕ) (old : PathBuf) : PathBuf :=
  renames.foldl (fun p r => if r.1 = id then r.2 else p) old

end Validate

/-! ## The renaming -/

structure NamedTorrent extends StoredTorrent where
  /-- The files as the stopped state knows them. -/
  fileInfos : List FileInfo
  /-- The files as everyone else does. -/
  metadata : Option (List FileInfo)

namespace NamedTorrent

/-- The move for the `i`-th new name, and the one back to the path the metadata has. -/
def renameStep (root : FsPath) (fileInfos : List FileInfo) (calls : Outcomes) (r : NewName)
    (i : ℕ) : Step × Step :=
  let old := (fileInfos[r.1]?.map FileInfo.relativeFilename).getD []
  (⟨r.1, fun _ => .ok (root.join r.2), calls.there i⟩,
    ⟨r.1, fun _ => .ok (root.join old), calls.back i⟩)

/-- The moves from the `k`-th new name on. -/
def stepsFrom (root : FsPath) (fileInfos : List FileInfo) (calls : Outcomes)
    (renames : List NewName) (k : ℕ) : List (Step × Step) :=
  (renames.zipIdx k).map fun ri => renameStep root fileInfos calls ri.1 ri.2

variable (t : NamedTorrent) (renames : List NewName) (calls : Outcomes)

/-- The moves of a batch. -/
def renameSteps : List (Step × Step) := stepsFrom t.storage.outputFolder t.fileInfos calls renames 0

/-- The same torrent with other files. -/
def withFiles (files : Files) : NamedTorrent := { t with storage := { t.storage with files } }

/-- The moves of a batch, from the files of the torrent. -/
def renamed : Files × Except RenameError Unit × Bool :=
  attempt Files.apply t.storage.files [] (t.renameSteps renames calls)

/-- `rename_files`, with whether all the moves back succeeded. -/
def renameFiles : NamedTorrent × Except RenameFilesError Unit × Bool :=
  match t.state with
  | .live => (t, .error .mustBeStopped, true)
  | .other => (t, .error .notRenamable, true)
  | .paused =>
    match validateRenames t.fileInfos renames with
    | .error e => (t, .error e, true)
    | .ok () =>
      if t.storage.readOnly then (t, .error (.onDisk .readOnly), true)
      else
        match t.renamed renames calls with
        | (files, .error e, back) => (t.withFiles files, .error (.onDisk e), back)
        | (files, .ok (), back) =>
          let fileInfos := withRenamedFiles t.fileInfos renames
          ({ t.withFiles files with fileInfos, metadata := some fileInfos }, .ok (), back)

/-- The torrent is stopped, the new names are fine, and the storage can be written: the files are
about to be moved. -/
structure Starts : Prop where
  paused : t.state = .paused
  valid : validateRenames t.fileInfos renames = .ok ()
  writable : t.storage.readOnly = false

end NamedTorrent

/-- **The open files are where the metadata says**, under the root. -/
def Files.Anchored (s : Files) (root : FsPath) (fileInfos : List FileInfo) : Prop :=
  ∀ (id : ℕ) (of : OpenedFile) (fi : FileInfo), s.opened[id]? = some of → of.fd.isSome = true →
    fileInfos[id]? = some fi → of.path = root.join fi.relativeFilename

/-- **What a renaming is to have done**: the metadata has the last path given for each file, and no
path twice; the files are there, under the handles they had; and no other file is lost. -/
structure NamedTorrent.Renamed (t : NamedTorrent) (renames : List NewName) (t' : NamedTorrent) :
    Prop where
  names : ∀ id : ℕ, t'.fileInfos[id]? =
    t.fileInfos[id]?.map fun fi => fi.withPath (lastPath renames id fi.relativeFilename)
  published : t'.metadata = some t'.fileInfos
  distinct : (t'.fileInfos.map fun fi => fi.relativeFilename.components).Nodup
  anchored : t'.storage.files.Anchored t.storage.outputFolder t'.fileInfos
  consistent : t'.storage.files.Consistent
  handles : ∀ id : ℕ, t'.storage.files.opened[id]?.map OpenedFile.fd =
    t.storage.files.opened[id]?.map OpenedFile.fd
  kept : ∀ p f, ¬ t.storage.files.Holds p → t.storage.files.fs.files p = some f →
    t'.storage.files.fs.files p = some f

/-- **All or nothing**: after an error every file is back and the metadata is the old one, and
otherwise the files are renamed. -/
structure NamedTorrent.RenamesAllOrNothing (t : NamedTorrent) (renames : List NewName)
    (calls : Outcomes) : Prop where
  nothing : ∀ e, (t.renameFiles renames calls).2.1 = .error e →
    t.storage.files.Restored (t.renameFiles renames calls).1.storage.files ∧
    (t.renameFiles renames calls).1.fileInfos = t.fileInfos ∧
    (t.renameFiles renames calls).1.metadata = t.metadata
  all : (t.renameFiles renames calls).2.1 = .ok () →
    t.Renamed renames (t.renameFiles renames calls).1

/-! ## What is checked is what is recorded -/

section Validate

variable {fileInfos : List FileInfo} {renames : List NewName}

lemma lt_of_checkRenames {count} (h : checkRenames count renames = .ok ()) :
    ∀ r ∈ renames, r.1 < count := by
  induction renames with
  | nil => exact nofun
  | cons r rest ih =>
    rw [checkRenames] at h
    split at h
    · cases h
    next hr =>
    intro r' hr'
    rcases mem_cons.mp hr' with rfl | hr'
    · by_contra hge
      rw [checkRename, if_pos (Nat.le_of_not_lt hge)] at hr
      cases hr
    · exact ih h r' hr'

lemma nodup_of_findSeen {paths seen} (h : findSeen seen paths = none) :
    (paths.map PathBuf.components).Nodup ∧ ∀ p ∈ paths, p.components ∉ seen := by
  induction paths generalizing seen with
  | nil => exact ⟨nodup_nil, nofun⟩
  | cons p rest ih =>
    rw [findSeen] at h
    split at h
    · cases h
    next hp =>
    obtain ⟨hnodup, hrest⟩ := ih h
    refine ⟨nodup_cons.mpr ⟨?_, hnodup⟩, fun q hq => ?_⟩
    · rw [mem_map]
      rintro ⟨q, hq, heq⟩
      exact hrest q hq (heq ▸ mem_cons_self)
    · rcases mem_cons.mp hq with rfl | hq
      · exact hp
      · exact fun hseen => hrest q hq (mem_cons_of_mem _ hseen)

lemma map_modify_withPath (infos : List FileInfo) (r : NewName) :
    (infos.modify r.1 fun fi => fi.withPath r.2).map FileInfo.relativeFilename =
      (infos.map FileInfo.relativeFilename).set r.1 r.2 := by
  refine ext_getElem? fun j => ?_
  rcases eq_or_ne r.1 j with rfl | hne
  · rw [getElem?_map, getElem?_modify_eq, getElem?_set_self', getElem?_map]
    cases infos[r.1]? <;> rfl
  · rw [getElem?_map, getElem?_modify_ne _ _ hne, getElem?_set_ne hne,
      getElem?_map]

/-- The paths that are checked are those that are recorded. -/
lemma map_withRenamedFiles : (withRenamedFiles fileInfos renames).map FileInfo.relativeFilename =
      pathsAfter fileInfos renames := by
  rw [withRenamedFiles, pathsAfter]
  induction renames generalizing fileInfos with
  | nil => rfl
  | cons r rest ih => rw [foldl_cons, foldl_cons, ih, map_modify_withPath]

/-- The recorded path of a file is the last one given for it. -/
lemma getElem?_withRenamedFiles (id : ℕ) : (withRenamedFiles fileInfos renames)[id]? =
      fileInfos[id]?.map fun fi => fi.withPath (lastPath renames id fi.relativeFilename) := by
  rw [withRenamedFiles]
  induction renames generalizing fileInfos with
  | nil => exact (Option.map_id' ..).symm
  | cons r rest ih =>
    rw [foldl_cons, ih]
    rcases eq_or_ne r.1 id with rfl | hne
    · rw [getElem?_modify_eq, Option.map_eq_map, Option.map_map]
      refine congrFun (congrArg Option.map (funext fun fi => ?_)) _
      rw [lastPath, foldl_cons, if_pos rfl]
      rfl
    · rw [getElem?_modify_ne _ _ hne]
      refine congrFun (congrArg Option.map (funext fun fi => ?_)) _
      rw [lastPath, lastPath, foldl_cons, if_neg hne]

lemma validateRenames_eq_ok (h : validateRenames fileInfos renames = .ok ()) :
    (∀ r ∈ renames, r.1 < fileInfos.length) ∧
      ((withRenamedFiles fileInfos renames).map
        fun fi => fi.relativeFilename.components).Nodup := by
  rw [validateRenames] at h
  split at h
  · cases h
  split at h
  · cases h
  next hcheck =>
  split at h
  · cases h
  next hseen =>
  refine ⟨lt_of_checkRenames hcheck, ?_⟩
  have hnodup := (nodup_of_findSeen hseen).1
  rw [← map_withRenamedFiles, map_map] at hnodup
  exact hnodup

end Validate

/-! ## The moves -/

namespace NamedTorrent

section Moves

variable {s₀ s : Files} {root : FsPath} {fileInfos : List FileInfo} {calls : Outcomes}
  {renames : List NewName}

lemma stepsFrom_eq_cons {todo k a b rest}
    (h : stepsFrom root fileInfos calls todo k = (a, b) :: rest) :
    ∃ r todo', todo = r :: todo' ∧ (a, b) = renameStep root fileInfos calls r k ∧
      rest = stepsFrom root fileInfos calls todo' (k + 1) := by
  cases todo with
  | nil => cases h
  | cons r todo' =>
    rw [stepsFrom, zipIdx_cons, map_cons, List.cons.injEq] at h
    exact ⟨r, todo', rfl, h.1.symm, h.2.symm⟩

/-- The files are where the new names so far lead them, and every step back leads home from
anywhere. -/
structure RenamedTo (s₀ : Files) (root : FsPath) (fileInfos : List FileInfo) (past : List NewName)
    (s : Files) (undo : List Step) : Prop where
  undoable : s₀.Undoable s undo
  returns : ∀ b ∈ undo, s₀.Returns b
  anchored : s.Anchored root (withRenamedFiles fileInfos past)

/-- The step back leads to where the metadata has the file. -/
lemma returns_renameStep (h : s₀.Anchored root fileInfos) {r}
    (hr : r.1 < fileInfos.length) (k : ℕ) :
    s₀.Returns (renameStep root fileInfos calls r k).2 := by
  intro of₀ hof₀ hsome of
  have hfi := getElem?_eq_getElem hr
  rw [renameStep, hfi]
  exact congrArg Except.ok (h r.1 of₀ _ hof₀ hsome hfi).symm

variable (h₀ : s₀.Anchored root fileInfos)
include h₀

/-- One more file is where its new name says. -/
lemma RenamedTo.forward {past undo r} (hr : r.1 < fileInfos.length) {k s'}
    (h : RenamedTo s₀ root fileInfos past s undo)
    (happly : s.apply (renameStep root fileInfos calls r k).1 = (s', .ok ())) :
    RenamedTo s₀ root fileInfos (past ++ [r]) s'
      ((renameStep root fileInfos calls r k).2 :: undo) := by
  have hreturns : s₀.Returns (renameStep root fileInfos calls r k).2 := returns_renameStep h₀ hr k
  obtain ⟨-, of, newFull, hof, htarget, hopened⟩ := h.undoable.tracks.apply_ok happly
  obtain rfl : root.join r.2 = newFull := Except.ok.inj htarget
  refine ⟨h.undoable.forward happly rfl ?_ fun c hc _ => h.returns c hc, ?_, ?_⟩
  · intro of₀ of' newFull hof₀ hsome _ _
    exact hreturns of₀ hof₀ hsome _
  · intro c hc
    rcases mem_cons.mp hc with rfl | hc
    · exact hreturns
    · exact h.returns c hc
  · intro id ofid fi hofid hsome hfi
    rw [withRenamedFiles, foldl_append] at hfi
    rw [hopened] at hofid
    rcases Files.getElem?_set_cases hofid with ⟨hne, hold⟩ | ⟨rfl, rfl⟩
    · refine h.anchored id ofid fi hold hsome ?_
      rw [← hfi]
      exact (getElem?_modify_ne _ _ hne.symm).symm
    have hmodified : (withRenamedFiles fileInfos past)[r.1]?.map (·.withPath r.2) = some fi :=
      (getElem?_modify_eq ..).symm.trans hfi
    obtain ⟨fi', -, rfl⟩ := Option.map_eq_some_iff.mp hmodified
    rfl

/-- **The moves back lead home**, however often a file was named. -/
theorem way_renameSteps (hids : ∀ r ∈ renames, r.1 < fileInfos.length) : s₀.Way fun s undo rest =>
    ∃ past todo, renames = past ++ todo ∧
      rest = stepsFrom root fileInfos calls todo past.length ∧
      RenamedTo s₀ root fileInfos past s undo where
  undoable := fun _ _ _ ⟨_, _, _, _, h⟩ => h.undoable
  forward := by
    rintro s undo a b rest s' ⟨past, todo, hsplit, hrest, h⟩ happly
    obtain ⟨r, todo', rfl, hab, hnext⟩ := stepsFrom_eq_cons hrest.symm
    cases hab
    have hr : r.1 < fileInfos.length :=
      hids r (hsplit ▸ mem_append_right past mem_cons_self)
    refine ⟨past ++ [r], todo', ?_, ?_, h.forward h₀ hr happly⟩
    · rw [hsplit, append_assoc, singleton_append]
    · rw [hnext, length_append, length_singleton]

end Moves

/-! ## The whole renaming -/

variable {t : NamedTorrent} {renames : List NewName} {calls : Outcomes}

/-- A renaming that does not start changes nothing. -/
lemma renameFiles_of_not_starts (h : ¬ t.Starts renames) (calls : Outcomes) :
    ∃ e, t.renameFiles renames calls = (t, .error e, true) := by
  rw [renameFiles]
  split
  · exact ⟨_, rfl⟩
  · exact ⟨_, rfl⟩
  · next hpaused =>
    split
    · exact ⟨_, rfl⟩
    next hvalid =>
    split
    · exact ⟨_, rfl⟩
    · next hwritable => exact absurd ⟨hpaused, hvalid, Bool.eq_false_iff.mpr hwritable⟩ h

/-- **What a renaming does that starts**: its moves decide it. -/
theorem renameFiles_of_starts (h : t.Starts renames) (calls : Outcomes) :
    t.renameFiles renames calls =
      match t.renamed renames calls with
      | (files, .error e, back) => (t.withFiles files, .error (.onDisk e), back)
      | (files, .ok (), back) =>
        ({ t.withFiles files with
            fileInfos := withRenamedFiles t.fileInfos renames
            metadata := some (withRenamedFiles t.fileInfos renames) }, .ok (), back) := by
  rw [renameFiles, h.paused]
  rw [h.valid]
  rw [if_neg (Bool.eq_false_iff.mp h.writable)]

/-- **When no move fails the files are renamed.** -/
theorem renamed_of_ok (calls : Outcomes) (hconsistent : t.storage.files.Consistent)
    (hanchored : t.storage.files.Anchored t.storage.outputFolder t.fileInfos)
    (hstarts : t.Starts renames) (hok : (t.renamed renames calls).2.1 = .ok ()) :
    t.Renamed renames
      { t.withFiles (t.renamed renames calls).1 with
        fileInfos := withRenamedFiles t.fileInfos renames
        metadata := some (withRenamedFiles t.fileInfos renames) } := by
  obtain ⟨hids, hnodup⟩ := validateRenames_eq_ok hstarts.valid
  obtain ⟨undo, past, todo, hsplit, hrest, h⟩ := (way_renameSteps hanchored hids).of_ok
    ⟨[], renames, rfl, rfl, hconsistent.undoable, nofun, hanchored⟩ hok
  -- all the new names are in the past
  obtain rfl : todo = [] := by
    cases todo with
    | nil => rfl
    | cons r todo => cases hrest
  rw [append_nil] at hsplit
  subst hsplit
  have htracks := h.undoable.tracks
  refine ⟨getElem?_withRenamedFiles, rfl, hnodup, h.anchored, htracks.toConsistent, htracks.fd, ?_⟩
  intro p f hnot hf
  refine (htracks.rest p (fun hholds => ?_) f).mpr ⟨hnot, hf⟩
  cases (htracks.clear p hholds hnot).symm.trans hf

/-- A renaming that starts is all or nothing when its moves are taken back. -/
lemma renamesAllOrNothing_iff_renamed (hconsistent : t.storage.files.Consistent)
    (hanchored : t.storage.files.Anchored t.storage.outputFolder t.fileInfos)
    (hstarts : t.Starts renames) :
    t.RenamesAllOrNothing renames calls ↔ ∀ e, (t.renamed renames calls).2.1 = .error e →
      t.storage.files.Restored (t.renamed renames calls).1 := by
  have hresult := renameFiles_of_starts hstarts calls
  have hall := renamed_of_ok calls hconsistent hanchored hstarts
  rcases hrenamed : t.renamed renames calls with ⟨files, result, back⟩
  rw [hrenamed] at hresult hall
  cases result with
  | ok _ =>
    refine iff_of_true ⟨fun e he => ?_, fun _ => ?_⟩ nofun
    · rw [hresult] at he
      cases he
    · rw [hresult]
      exact hall rfl
  | error e =>
    constructor
    · intro h _ _
      have hnothing := (h.nothing (.onDisk e) (by rw [hresult])).1
      rw [hresult] at hnothing
      exact hnothing
    · intro h
      refine ⟨fun _ _ => ?_, fun hok => ?_⟩
      · rw [hresult]
        exact ⟨h e rfl, rfl, rfl⟩
      · rw [hresult] at hok
        cases hok

/-- **When a renaming is all or nothing**: exactly when no file that was moved fails to be opened
again. -/
theorem renamesAllOrNothing_iff (hconsistent : t.storage.files.Consistent)
    (hanchored : t.storage.files.Anchored t.storage.outputFolder t.fileInfos)
    (hback : (t.renameFiles renames calls).2.2 = true) :
    t.RenamesAllOrNothing renames calls ↔
      (t.Starts renames → ¬ t.storage.files.StopsAtReopen (t.renameSteps renames calls)) := by
  by_cases hstarts : t.Starts renames
  · obtain ⟨hids, -⟩ := validateRenames_eq_ok hstarts.valid
    have hmovesBack : (t.renamed renames calls).2.2 = true := by
      rw [renameFiles_of_starts hstarts] at hback
      rcases hrenamed : t.renamed renames calls with ⟨files, result, back⟩
      rw [hrenamed] at hback
      cases result <;> exact hback
    rw [forall_prop_of_true hstarts, renamesAllOrNothing_iff_renamed hconsistent hanchored hstarts]
    exact (way_renameSteps hanchored hids).restored_iff hconsistent
      ⟨[], renames, rfl, rfl, hconsistent.undoable, nofun, hanchored⟩ hmovesBack
  · obtain ⟨e, he⟩ := renameFiles_of_not_starts hstarts calls
    refine iff_of_true ⟨fun e' _ => ?_, fun hok => ?_⟩ fun h => absurd h hstarts
    · rw [he]
      exact ⟨⟨rfl, fun _ _ _ => Iff.rfl⟩, rfl, rfl⟩
    · rw [he] at hok
      cases hok

/-- A stopped torrent in `/a` with the files `x` and `y`. -/
def pair : NamedTorrent where
  state := .paused
  storage :=
    { outputFolder := [.rootDir, .normal ['a']]
      files :=
        { fs :=
            { files := fun p =>
                if p = [.rootDir, .normal ['a'], .normal ['x']] then some 0
                else if p = [.rootDir, .normal ['a'], .normal ['y']] then some 1
                else none
              dirs := fun p => p = [.rootDir] || p = [.rootDir, .normal ['a']] }
          opened := [⟨[.rootDir, .normal ['a'], .normal ['x']], some 0⟩,
            ⟨[.rootDir, .normal ['a'], .normal ['y']], some 1⟩] } }
  outputFolderOverride := [.rootDir, .normal ['a']]
  fileInfos := [⟨['x'], 0, ⟨0, 1⟩, {}, 1⟩, ⟨['y'], 1, ⟨0, 1⟩, {}, 1⟩]
  metadata := none

lemma pair_cases {id of} (h : pair.storage.files.opened[id]? = some of) :
    (id = 0 ∧ of = ⟨[.rootDir, .normal ['a'], .normal ['x']], some 0⟩) ∨
      (id = 1 ∧ of = ⟨[.rootDir, .normal ['a'], .normal ['y']], some 1⟩) := by
  match id with
  | 0 => exact Or.inl ⟨rfl, (Option.some.inj h).symm⟩
  | 1 => exact Or.inr ⟨rfl, (Option.some.inj h).symm⟩
  | _ + 2 => cases h

lemma consistent_pair : pair.storage.files.Consistent where
  held id of hof f hf := by
    rcases pair_cases hof with ⟨-, rfl⟩ | ⟨-, rfl⟩ <;> exact hf
  distinct i j a b hi hj _ _ hpath := by
    rcases pair_cases hi with ⟨rfl, rfl⟩ | ⟨rfl, rfl⟩ <;>
      rcases pair_cases hj with ⟨rfl, rfl⟩ | ⟨rfl, rfl⟩
    · rfl
    · exact absurd hpath (by decide)
    · exact absurd hpath (by decide)
    · rfl

lemma anchored_pair : pair.storage.files.Anchored pair.storage.outputFolder pair.fileInfos := by
  intro id of fi hof _ hfi
  rcases pair_cases hof with ⟨rfl, rfl⟩ | ⟨rfl, rfl⟩
  · cases hfi
    decide
  · cases hfi
    decide

/-- Two files exchange their names over a third one. -/
theorem renamesAllOrNothing_iff_exchange :
    pair.RenamesAllOrNothing [(0, ['z']), (1, ['x']), (0, ['y'])] {} := by
  refine (renamesAllOrNothing_iff consistent_pair anchored_pair (by decide)).mpr fun _ => ?_
  rintro (⟨_, _, -, -, -, hfail⟩ | ⟨-, ⟨_, _, -, -, -, hfail⟩ | ⟨-, ⟨_, _, -, -, -, hfail⟩ |
    ⟨-, hfalse⟩⟩⟩)
  · cases hfail
  · cases hfail
  · cases hfail
  · exact hfalse

/-- **A file that cannot be opened again is not back.** -/
theorem not_renamesAllOrNothing_reopen :
    ¬ pair.RenamesAllOrNothing [(0, ['z'])] { there := fun _ => some .reopen } := by
  intro h
  have hfiles := (h.nothing (.onDisk (.reopening [.rootDir, .normal ['a'], .normal ['z']]))
    (by decide)).1.files
  exact absurd (congrFun hfiles [.rootDir, .normal ['a'], .normal ['z']]) (by decide)

end NamedTorrent

end Librtbit
