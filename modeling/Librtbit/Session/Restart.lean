import Librtbit.Managed.Torrent
import Librtbit.Session.Folders

/-!
# Session/Restart — what of a torrent is the same after a restart

The settings of a torrent are written to a record when the torrent is added, and again by each call
that has changed them.  After a restart the torrent is added anew, from that record and the torrent
file: `into_add_torrent` makes options of the record, and `add_torrent` reads them as it reads those
of a user.  So the trackers of the torrent file are there again, whether they were removed or not;
the folder, which was expanded when the torrent was added, is expanded once more; and a call that
fails after it has changed a setting has not written it down.

`survives_of_keeps` says that nothing else is lost.
-/

namespace Librtbit

open Machinery ManagedTorrent List Option

/-- What the crates for URLs, encodings and regular expressions do. -/
structure Crates (U : Type) where
  parse : List Char → Option U
  asStr : U → List Char
  scheme : U → List Char
  /-- A URL is written as it is read. -/
  parse_asStr : ∀ url, parse (asStr url) = some url
  fromUtf8 : ByteBuf → Option (List Char)
  /-- `Regex::new`, and `is_match` -/
  regex : List Char → Option (PathBuf → Bool)

/-- A torrent file. -/
structure TorrentMetaV1 where
  announce : Option ByteBuf := none
  announceList : List (List ByteBuf) := []
  info : ValidatedTorrentMetaV1Info

namespace TorrentMetaV1

variable (file : TorrentMetaV1)

def iterAnnounce : List ByteBuf :=
  if file.announceList.flatten.isEmpty then file.announce.toList else file.announceList.flatten

/-- The file infos `TorrentMetadata::new` computes. -/
def fileInfos : List FileInfo :=
  fileInfosFrom file.info.lengths 0 (file.info.iterFileDetails.map fun fd =>
    { filename := fd.filename.toPathbuf file.info.encoding
      attrs := fd.attrs
      len := fd.len.toNat })

end TorrentMetaV1

namespace Restart

/-! ## Adding a torrent -/

structure AddTorrentOptions where
  paused : Bool := false
  onlyFiles : Option (List ℕ) := none
  onlyFilesRegex : Option (List Char) := none
  outputFolder : Option PathBuf := none
  subFolder : Option PathBuf := none
  outputFolderRoot : Option PathBuf := none
  category : Option (List Char) := none
  trackers : Option (List (List Char)) := none

/-- `ManagedTorrent`, with what it shares. -/
structure Handle (U : Type) (file : TorrentMetaV1) where
  torrent : ManagedTorrent file.info.lengths
  /-- A set. -/
  trackers : List U
  category : Option (List Char)
  outputFolder : PathBuf
  outputFolderRoot : Option PathBuf

variable {U : Type} (crates : Crates U) (file : TorrentMetaV1)

def computeOnlyFiles (onlyFiles : Option (List ℕ)) (onlyFilesRegex : Option (List Char)) :
    Except AddError (Option (List ℕ)) :=
  match onlyFiles, onlyFilesRegex with
  | some _, some _ => .error .onlyFilesAndRegex
  | some onlyFiles, none =>
    match onlyFiles.find? (file.info.iterFileDetails.length ≤ ·) with
    | some id => .error (.outOfRange id)
    | none => .ok (some onlyFiles)
  | none, some filenameRe =>
    match crates.regex filenameRe with
    | none => .error .incorrectRegex
    | some isMatch =>
      let paths := file.info.iterFileDetails.map fun fd => fd.filename.toPathbuf file.info.encoding
      let onlyFiles := (List.range paths.length).filter fun idx => paths[idx]?.any isMatch
      if onlyFiles.isEmpty then .error .noneMatch else .ok (some onlyFiles)
  | none, none => .ok none

/-- The trackers of the torrent file. -/
def fileTrackers : List (List Char) := file.iterAnnounce.dedup.filterMap crates.fromUtf8

/-- The torrent that is started when it is added. -/
def added {L : Lengths} (paused : Bool) (onlyFiles : Option (List ℕ)) : ManagedTorrent L :=
  (start { paused, onlyFiles } true paused (.ok ())).1

/-- Where the torrent is stored, in a session with that folder. -/
def outputFolderFor (sessionFolder : PathBuf) (opts : AddTorrentOptions) :
    Except AddError PathBuf :=
  let defaultOutputFolder := expandFolderTemplate sessionFolder opts.category
  match opts.outputFolder, opts.subFolder,
    opts.outputFolderRoot.map (expandFolderTemplate · opts.category) with
  | none, none, none => file.info.defaultSubfolder.map (defaultOutputFolder.push <| ·.getD [])
  | some o, none, none => .ok (expandFolderTemplate o opts.category)
  | none, some s, none => .ok (defaultOutputFolder.push (expandFolderTemplate s opts.category))
  | none, none, some root => file.info.defaultSubfolder.map (root.push <| ·.getD [])
  | _, _, _ => .error .severalFolders

/-- `add_torrent` of a torrent file. -/
def addTorrent (sessionFolder : PathBuf) (opts : AddTorrentOptions) :
    Except AddError (Handle U file) := do
  let onlyFiles ← computeOnlyFiles crates file opts.onlyFiles opts.onlyFilesRegex
  let outputFolder ← outputFolderFor file sessionFolder opts
  return {
    torrent := added opts.paused onlyFiles
    trackers := (fileTrackers crates file ++ opts.trackers.getD []).filterMap crates.parse
    category := opts.category
    outputFolder
    outputFolderRoot := opts.outputFolderRoot.map (expandFolderTemplate · opts.category) }

/-! ## The record of a torrent -/

structure SerializedTorrent where
  trackers : List (List Char)
  onlyFiles : Option (List ℕ)
  isPaused : Bool
  outputFolder : PathBuf
  outputFolderRoot : Option PathBuf
  category : Option (List Char)

/-- The record that `update_db` writes. -/
def Handle.serialize {file : TorrentMetaV1} (handle : Handle U file) : SerializedTorrent where
  trackers := handle.trackers.map crates.asStr
  onlyFiles := handle.torrent.onlyFiles
  isPaused := handle.torrent.paused
  outputFolder := handle.outputFolder
  outputFolderRoot := handle.outputFolderRoot
  category := handle.category

def SerializedTorrent.intoAddTorrent (st : SerializedTorrent) : AddTorrentOptions where
  paused := st.isPaused
  outputFolder := if st.outputFolderRoot.isSome then none else some st.outputFolder
  outputFolderRoot := st.outputFolderRoot
  onlyFiles := st.onlyFiles
  category := st.category
  trackers := some st.trackers

/-- A torrent, and the record there is of it. -/
structure State (U : Type) (file : TorrentMetaV1) where
  handle : Handle U file
  stored : SerializedTorrent

variable {file}

/-- The torrent has just been added, and `store`d. -/
def start (handle : Handle U file) : State U file := ⟨handle, handle.serialize crates⟩

/-! ## Calls -/

inductive Call (file : TorrentMetaV1) where
  | addTrackers (trackers : List (List Char))
  | removeTrackers (trackers : List (List Char))
  | updateOnlyFiles (onlyFiles : List ℕ)
  | pause (taken : StorageResult)
  | unpause (created : StorageResult)
  /-- What tasks in the background do. -/
  | task (a : ManagedStep file.info.lengths)

/-- The step is not a call. -/
def isTask {L : Lengths} : ManagedStep L → Bool
  | .checked .. | .fatalError .. | .fatalErrorReceived .. | .taskEnds .. | .download .. => true
  | .start .. | .pause .. | .prepareForceRecheck .. | .updateOnlyFiles .. => false

/-- A tracker that `add_trackers` takes. -/
def supported (tracker : List Char) : Option U :=
  (crates.parse tracker).filter fun url =>
    [['h', 't', 't', 'p'], ['h', 't', 't', 'p', 's'], ['u', 'd', 'p']].contains (crates.scheme url)

namespace State

variable (s : State U file)

def withTorrent (torrent : ManagedTorrent file.info.lengths) : State U file :=
  { s with handle := { s.handle with torrent } }

/-- `try_update_persistence_metadata` -/
def persist : State U file := { s with stored := s.handle.serialize crates }

/-- A call of the torrent; if it succeeds the record is written. -/
def returned (result : ManagedTorrent file.info.lengths × Except ManagedError Unit) :
    State U file :=
  match result.2 with
  | .ok () => (s.withTorrent result.1).persist crates
  | .error _ => s.withTorrent result.1

def step [DecidableEq U] (s : State U file) : Call file → Option (State U file)
  | .addTrackers trackers =>
    match trackers.mapM (supported crates) with
    | some (url :: urls) =>
      let trackers := s.handle.trackers ∪ url :: urls
      some ({ s with handle := { s.handle with trackers } }.persist crates)
    | _ => some s
  | .removeTrackers trackers =>
    let urls := trackers.filterMap crates.parse
    if s.handle.trackers.any (· ∈ urls) then
      let trackers := s.handle.trackers.filter (· ∉ urls)
      some ({ s with handle := { s.handle with trackers } }.persist crates)
    else some s
  | .updateOnlyFiles onlyFiles =>
    some (s.returned crates (s.handle.torrent.updateOnlyFiles file.fileInfos onlyFiles))
  | .pause taken => some (s.returned crates (s.handle.torrent.pause true taken))
  | .unpause created => some (s.returned crates (s.handle.torrent.start true false created))
  | .task a =>
    if isTask a then (s.handle.torrent.step file.fileInfos a).map s.withTorrent else none

end State

/-! ## What survives -/

/-- The settings of the two are the same: no tracker is lost, and none comes back. -/
def Handle.Agrees (handle handle' : Handle U file) : Prop :=
  (handle.trackers ⊆ handle'.trackers ∧ handle'.trackers ⊆ handle.trackers) ∧
    handle'.torrent.onlyFiles = handle.torrent.onlyFiles ∧
    handle'.torrent.paused = handle.torrent.paused ∧ handle'.category = handle.category ∧
    handle'.outputFolder = handle.outputFolder

/-- **The torrent is restored from the record with the settings it has.** -/
def State.Survives (sessionFolder : PathBuf) (s : State U file) : Prop :=
  ∃ handle ∈ (addTorrent crates file sessionFolder s.stored.intoAddTorrent).toOption,
    s.handle.Agrees handle

/-- The folder in the record has no placeholder. -/
def Handle.Plain (handle : Handle U file) : Prop :=
  ¬ categoryTemplate <:+: handle.outputFolderRoot.getD handle.outputFolder

/-- A torrent in this state can be started. -/
def startable {L : Lengths} (torrent : ManagedTorrent L) (created : StorageResult) : Bool :=
  match torrent.state with
  | .initializing _ | .paused _ => true
  | .error _ => torrent.metadata && created.isOk
  | .live _ | .none => false

/-- No tracker of the torrent file is removed, and a torrent that is meant to be paused is only
started where it can be. -/
def State.Keeps (s : State U file) : Call file → Prop
  | .removeTrackers trackers =>
    ∀ url ∈ (fileTrackers crates file).filterMap crates.parse, url ∉ trackers.filterMap crates.parse
  | .unpause created =>
    s.handle.torrent.paused = true → startable s.handle.torrent created = true
  | _ => True

/-! ## The invariant -/

/-- The files are there. -/
def InRange (file : TorrentMetaV1) (onlyFiles : Option (List ℕ)) : Prop :=
  ∀ ids ∈ onlyFiles, ∀ id ∈ ids, id < file.info.iterFileDetails.length

/-- **The record is that of the torrent**, and can be read again. -/
structure State.Inv (s : State U file) : Prop where
  stored : s.stored = s.handle.serialize crates
  trackers : (fileTrackers crates file).filterMap crates.parse ⊆ s.handle.trackers
  onlyFiles : InRange file s.handle.torrent.onlyFiles
  plain : s.handle.Plain
  folder : ∀ root ∈ s.handle.outputFolderRoot, ∃ sub, file.info.defaultSubfolder = .ok sub ∧
    s.handle.outputFolder = root.push (sub.getD [])

variable {crates} {s s' : State U file}

lemma computeOnlyFiles_of_inRange {onlyFiles} (h : InRange file onlyFiles) :
    computeOnlyFiles crates file onlyFiles none = .ok onlyFiles := by
  cases onlyFiles with
  | none => rfl
  | some ids =>
    have hfind : ids.find? (file.info.iterFileDetails.length ≤ ·) = none :=
      find?_eq_none.mpr fun id hid => by simpa using h ids rfl id hid
    rw [computeOnlyFiles, hfind]

lemma inRange_of_computeOnlyFiles {onlyFiles ids re}
    (h : computeOnlyFiles crates file onlyFiles re = .ok ids) : InRange file ids := by
  rw [computeOnlyFiles.eq_def] at h
  split at h
  · cases h
  · split at h
    · cases h
    next hfind =>
    cases h
    rintro _ ⟨⟩ id hid
    simpa using find?_eq_none.mp hfind id hid
  · split at h
    · cases h
    dsimp only at h
    split at h <;> cases h
    rintro _ ⟨⟩ id hid
    simpa using (mem_filter.mp hid).1
  · cases h
    nofun

variable (h : s.Inv crates)
include h

/-- The folder is not expanded again. -/
lemma outputFolderFor_serialize (sessionFolder : PathBuf) :
    outputFolderFor file sessionFolder (s.handle.serialize crates).intoAddTorrent =
        .ok s.handle.outputFolder ∧
      s.handle.outputFolderRoot.map (expandFolderTemplate · s.handle.category) =
        s.handle.outputFolderRoot := by
  have hplain := h.plain
  rw [Handle.Plain] at hplain
  cases hroot : s.handle.outputFolderRoot with
  | none =>
    rw [hroot] at hplain
    refine ⟨?_, rfl⟩
    simp only [outputFolderFor, SerializedTorrent.intoAddTorrent, Handle.serialize, hroot]
    exact congrArg Except.ok (expandFolderTemplate_of_plain hplain _)
  | some root =>
    rw [hroot] at hplain
    obtain ⟨sub, hsub, hfolder⟩ := h.folder root hroot
    have hexpand : expandFolderTemplate root s.handle.category = root :=
      expandFolderTemplate_of_plain hplain _
    refine ⟨?_, congrArg some hexpand⟩
    simp only [outputFolderFor, SerializedTorrent.intoAddTorrent, Handle.serialize, hroot, hsub,
      hfolder, map_some, hexpand]
    rfl

/-- **A torrent is added from its own record as it is**, with all trackers of the file. -/
theorem addTorrent_serialize (sessionFolder : PathBuf) :
    addTorrent crates file sessionFolder (s.handle.serialize crates).intoAddTorrent =
      .ok { s.handle with
        torrent := added s.handle.torrent.paused s.handle.torrent.onlyFiles
        trackers := (fileTrackers crates file).filterMap crates.parse ++ s.handle.trackers } := by
  have hparse : (s.handle.trackers.map crates.asStr).filterMap crates.parse =
      s.handle.trackers := by
    simp [filterMap_map, crates.parse_asStr]
  obtain ⟨hfolder, hroot⟩ := outputFolderFor_serialize h sessionFolder
  rw [addTorrent, hfolder]
  simp only [SerializedTorrent.intoAddTorrent, Handle.serialize, hroot,
    computeOnlyFiles_of_inRange h.onlyFiles, getD_some, filterMap_append, hparse]
  rfl

/-- **A record that is up to date brings the torrent back.** -/
theorem State.Inv.survives (sessionFolder : PathBuf) :
    s.Survives crates sessionFolder := by
  rw [State.Survives, h.stored, addTorrent_serialize h]
  refine ⟨_, rfl, ⟨subset_append_right .., ?_⟩, rfl, rfl, rfl, rfl⟩
  exact append_subset.mpr ⟨h.trackers, List.Subset.refl _⟩

omit h

lemma inv_start {sessionFolder opts handle}
    (hadd : addTorrent crates file sessionFolder opts = .ok handle) (hplain : handle.Plain) :
    (start crates handle).Inv crates := by
  rw [addTorrent] at hadd
  cases honly : computeOnlyFiles crates file opts.onlyFiles opts.onlyFilesRegex with
  | error e =>
    rw [honly] at hadd
    cases hadd
  | ok onlyFiles =>
    cases hfolder : outputFolderFor file sessionFolder opts with
    | error e =>
      rw [honly, hfolder] at hadd
      cases hadd
    | ok outputFolder =>
      rw [honly, hfolder] at hadd
      cases hadd
      refine ⟨rfl, ?_, inRange_of_computeOnlyFiles honly, hplain, fun root hroot => ?_⟩
      · show _ ⊆ List.filterMap crates.parse (fileTrackers crates file ++ opts.trackers.getD [])
        rw [filterMap_append]
        exact subset_append_left ..
      have hroot : opts.outputFolderRoot.map (expandFolderTemplate · opts.category) = some root :=
        hroot
      rw [outputFolderFor, hroot] at hfolder
      split at hfolder
      · next hnone =>
        cases hnone
      · next hnone =>
        cases hnone
      · next hnone =>
        cases hnone
      · next hsome =>
        cases hsome
        cases hsub : file.info.defaultSubfolder with
        | error e =>
          rw [hsub] at hfolder
          cases hfolder
        | ok sub =>
          rw [hsub] at hfolder
          cases hfolder
          exact ⟨sub, rfl, rfl⟩
      · cases hfolder

/-! ## Calls keep it -/

lemma State.Inv.withTorrent (h : s.Inv crates) {torrent}
    (hsettings : torrent.settings = s.handle.torrent.settings) :
    (s.withTorrent torrent).Inv crates := by
  obtain ⟨hpaused, hfiles⟩ := Prod.mk.inj hsettings
  refine ⟨?_, h.trackers, ?_, h.plain, h.folder⟩
  · rw [State.withTorrent, h.stored, Handle.serialize, Handle.serialize, hpaused, hfiles]
  · rw [State.withTorrent, hfiles]
    exact h.onlyFiles

/-- What a call has changed is written down, unless it fails. -/
lemma State.Inv.returned (h : s.Inv crates) {result}
    (hok : result.2 = .ok () → InRange file result.1.onlyFiles)
    (hfailed : ∀ e, result.2 = .error e → result.1.settings = s.handle.torrent.settings) :
    (s.returned crates result).Inv crates := by
  obtain ⟨torrent, r⟩ := result
  cases r with
  | ok u => exact ⟨rfl, h.trackers, hok rfl, h.plain, h.folder⟩
  | error e => exact h.withTorrent (hfailed e rfl)

lemma start_of_startable {L} {torrent : ManagedTorrent L} {created}
    (h : startable torrent created = true) : (torrent.start true false created).2 = .ok () := by
  rw [startable] at h
  show (startFrom _ true false torrent.tokenCount created).2 = _
  cases hstate : torrent.state with
  | initializing init | paused ct => rfl
  | live live | none =>
    rw [hstate] at h
    cases h
  | error e =>
    rw [hstate, Bool.and_eq_true] at h
    obtain ⟨hmetadata, hcreated⟩ := h
    rw [hmetadata]
    cases created with
    | ok u => rfl
    | error e => cases hcreated

lemma length_fileInfosFrom (L : Lengths) (offset : ℕ) (fs : List FileEntry) :
    (fileInfosFrom L offset fs).length = fs.length := by
  induction fs generalizing offset with
  | nil => rfl
  | cons f fs ih => exact congrArg (· + 1) (ih _)

/-- What tasks do leaves the settings alone. -/
lemma settings_of_isTask {fileInfos a}
    {torrent torrent' : ManagedTorrent file.info.lengths} (ha : isTask a = true)
    (hstep : torrent.step fileInfos a = some torrent') : torrent'.settings = torrent.settings := by
  obtain ⟨⟨_, r⟩, happly, rfl⟩ := map_eq_some_iff.mp hstep
  have hsets := (turn_of_apply happly).sets
  cases a with
  | start | pause | prepareForceRecheck | updateOnlyFiles => cases ha
  | checked | fatalError | fatalErrorReceived | taskEnds | download => exact hsets

variable [DecidableEq U]

/-- **A call that meets the condition keeps the record up to date.** -/
theorem inv_step {a} (h : s.Inv crates) (hkeeps : s.Keeps crates a)
    (hstep : s.step crates a = some s') : s'.Inv crates := by
  cases a with
  | addTrackers trackers =>
    rw [State.step] at hstep
    split at hstep
    · cases hstep
      refine ⟨rfl, fun url hurl => ?_, h.onlyFiles, h.plain, h.folder⟩
      exact mem_union_left (h.trackers hurl) _
    · cases hstep
      exact h
  | removeTrackers trackers =>
    rw [State.step] at hstep
    split at hstep
    · cases hstep
      refine ⟨rfl, fun url hurl => ?_, h.onlyFiles, h.plain, h.folder⟩
      exact mem_filter.mpr ⟨h.trackers hurl, decide_eq_true (hkeeps url hurl)⟩
    · cases hstep
      exact h
  | updateOnlyFiles onlyFiles =>
    cases hstep
    have hsets := (turn_updateOnlyFiles (t := s.handle.torrent) file.fileInfos onlyFiles).sets
    refine h.returned (fun hr => ?_) fun e he => ?_
    · rw [hr] at hsets
      rw [(Prod.mk.inj hsets.1).2]
      rintro _ ⟨⟩ id hid
      simpa [TorrentMetaV1.fileInfos, length_fileInfosFrom] using hsets.2 id hid
    · rw [he] at hsets
      exact hsets
  | pause taken =>
    cases hstep
    have hsets := (turn_pause (t := s.handle.torrent) [] true taken).sets
    refine h.returned (fun hr => ?_) fun e he => ?_
    · rw [hr] at hsets
      rw [(Prod.mk.inj hsets).2]
      exact h.onlyFiles
    · rw [he] at hsets
      exact hsets
  | unpause created =>
    cases hstep
    have hsets := (turn_start (t := s.handle.torrent) [] true false created).sets
    refine h.returned (fun _ => ?_) fun e he => ?_
    · rw [(Prod.mk.inj hsets).2]
      exact h.onlyFiles
    cases hpaused : s.handle.torrent.paused with
    | false => exact hsets.trans (by rw [settings, hpaused])
    | true =>
      rw [start_of_startable (hkeeps hpaused)] at he
      cases he
  | task a =>
    rw [State.step] at hstep
    split at hstep
    · next htask =>
      obtain ⟨torrent, htorrent, rfl⟩ := map_eq_some_iff.mp hstep
      exact h.withTorrent (settings_of_isTask htask htorrent)
    · cases hstep

/-- **Torrents survive a restart**, also into a session with another folder, as long as no tracker
of the torrent file is removed and no start fails. -/
theorem survives_of_keeps {sessionFolder : PathBuf} {opts : AddTorrentOptions}
    {handle : Handle U file} (hadd : addTorrent crates file sessionFolder opts = .ok handle)
    (hplain : handle.Plain) {as : List (Call file)}
    (hkeeps : Along (State.step crates) (State.Keeps crates) (start crates handle) as)
    (sessionFolder' : PathBuf) :
    Always (State.step crates) (State.Survives crates sessionFolder') (start crates handle) as :=
  (always_of_along (fun _ _ _ h hC hs' => inv_step h hC hs') (inv_start hadd hplain) hkeeps).mono
    fun _ h => h.survives sessionFolder'

/-! ## Torrents that change -/

instance Handle.decidableAgrees (handle handle' : Handle U file) :
    Decidable (handle.Agrees handle') :=
  inferInstanceAs (Decidable (_ ∧ _))

instance State.decidableSurvives (sessionFolder : PathBuf) :
    DecidablePred fun s : State U file => s.Survives crates sessionFolder := fun _ =>
  inferInstanceAs (Decidable (∃ handle ∈ Except.toOption _, _))

/-- URLs that are their text. -/
def textCrates : Crates (List Char) where
  parse := some
  asStr := id
  scheme := List.takeWhile (· != ':')
  parse_asStr _ := rfl
  fromUtf8 bytes := some (bytes.map fun b => Char.ofNat b.toNat)
  regex _ := none

/-- A torrent of a file in a folder, with a tracker. -/
def namedTorrent (name : List Char) : TorrentMetaV1 where
  announce := some (asciiBytes ['u', 'd', 'p', ':', 'a'])
  info :=
    { encoding := utf8Ascii
      lengths := ⟨1, 1, 0, 1, 1⟩
      info :=
        { name := some (asciiBytes name)
          pieces := some (List.replicate 20 0)
          pieceLength := 1
          files := some [{ length := 1, path := [['a'.toUInt8]] }] } }

/-- The torrent is added without options, to a session that stores in `/`. -/
theorem survives_paused : (namedTorrent ['a']).info.info.validate (fun _ => utf8Ascii) =
      .ok (namedTorrent ['a']).info ∧
    ∃ handle, addTorrent textCrates (namedTorrent ['a']) ['/'] {} = .ok handle ∧
      Always (State.step textCrates) (State.Survives textCrates ['b']) (start textCrates handle)
        [.pause (.ok ()), .addTrackers [['u', 'd', 'p', ':', 'b']]] := by
  have hadd : ∃ handle, addTorrent textCrates (namedTorrent ['a']) ['/'] {} = .ok handle := ⟨_, rfl⟩
  obtain ⟨handle, hadd⟩ := hadd
  have hplain : handle.Plain := by
    cases hadd
    exact (by decide : ¬ categoryTemplate <:+: ['/', 'a'])
  refine ⟨by rfl, handle, hadd, survives_of_keeps hadd hplain ?_ ['b']⟩
  exact fun _ _ => ⟨trivial, fun _ _ => ⟨trivial, trivial⟩⟩

/-- A torrent is restored in another folder, with a tracker that was removed, and without having
been started. -/
theorem not_survives : (∃ handle,
      addTorrent textCrates (namedTorrent categoryTemplate) ['/'] {} = .ok handle ∧
        ¬ Always (State.step textCrates) (State.Survives textCrates ['/']) (start textCrates handle)
          []) ∧
    ∃ handle, addTorrent textCrates (namedTorrent ['a']) ['/'] {} = .ok handle ∧
      ¬ Always (State.step textCrates) (State.Survives textCrates ['/']) (start textCrates handle)
        [.removeTrackers [['u', 'd', 'p', ':', 'a']]] ∧
      ¬ Always (State.step textCrates) (State.Survives textCrates ['/']) (start textCrates handle)
        [.pause (.ok ()), .unpause (.error "disk full")] := by
  refine ⟨⟨_, rfl, not_always_of_run (by decide)⟩, _, rfl, not_always_of_run (by decide),
    not_always_of_run (by decide)⟩

end Restart

end Librtbit
