import Librtbit.Tracker.PieceTracker

/-!
# Managed/Torrent — the states of a torrent, and the tasks that change them

A torrent is initializing, paused, live or in error.  Users start it, pause it, have it checked
again and select files; and there are two kinds of tasks in the background: one that runs the
initial check and then starts the torrent, and one for each live torrent that waits for a fatal
error.  All of them change the state under one lock: a step (`ManagedTorrent.apply`) is what happens
while it is held.

Initializers and live torrents are objects that tasks hold on to after the torrent has gone on to
another state, so they are numbered.  A task can be cancelled, but it only notices where it waits:
what it was about to do when the token was cancelled it may still do.

Anything the storage is asked for can fail: the label of a step says how it answered.
-/

namespace Librtbit

open Function

variable {L : Lengths}

/-! ## States -/

/-- Errors an operation returns, or that a torrent is in. -/
inductive ManagedError where
  /-- `session is dead, cannot start torrent` -/
  | sessionDead
  /-- `torrent is already live` -/
  | alreadyLive
  /-- `bug: torrent is in empty state` -/
  | emptyState
  /-- `torrent metadata was not loaded` -/
  | noMetadata
  /-- `torrent is not resolved` -/
  | notResolved
  /-- The storage failed. -/
  | storage (e : String)
  /-- `torrent is already checking` -/
  | alreadyChecking
  /-- `failed to pause torrent for integrity check: {error:#}` -/
  | pauseForCheck (e : ManagedError)
  /-- `bug: pausing already paused torrent` -/
  | pausingPaused
  /-- `paused during initialization` -/
  | pausedDuringInit
  /-- `torrent is already paused` -/
  | alreadyPaused
  /-- `can't pause torrent in error state` -/
  | inError
  /-- `only_files contains invalid value {f}` -/
  | invalidFile (f : ℕ)
  /-- `can't update initializing torrent` -/
  | initializing
  /-- The piece tracker of the live torrent is gone. -/
  | chunkTrackerEmpty
  /-- The initial check failed. -/
  | check (e : String)
  /-- A fatal error of a live torrent. -/
  | fatal (e : String)
  deriving DecidableEq

/-- The answer of the storage. -/
abbrev StorageResult : Type := Except String Unit

/-- `TorrentStateLive`, what of it a pause takes away. -/
structure TorrentStateLive (L : Lengths) where
  pieces : Option (PieceTracker L)
  /-- `fatal_errors_tx` is still there. -/
  fatalErrorsTx : Bool
  cancellationToken : ℕ

/-- `TorrentStateLive::pause`, the token apart. -/
def TorrentStateLive.pause (live : TorrentStateLive L) (taken : StorageResult) :
    TorrentStateLive L × Except ManagedError (ChunkTracker L) :=
  match live.pieces with
  | none => ({ live with fatalErrorsTx := false }, .error .pausingPaused)
  | some pieceTracker =>
    ({ live with fatalErrorsTx := false, pieces := none }, match taken with
      | .ok () => .ok pieceTracker.intoChunks
      | .error e => .error (.storage e))

namespace ManagedTorrent

inductive State (L : Lengths) where
  | initializing (init : ℕ)
  | paused (chunkTracker : ChunkTracker L)
  | live (live : ℕ)
  | error (e : ManagedError)
  /-- While the state is being swapped. -/
  | none

inductive Task where
  /-- `initialize_and_start` -/
  | initialize_ (init token : ℕ) (startPaused : Bool)
  /-- `fatal_errors_receiver`, and the error that has come. -/
  | fatalErrors (live token : ℕ) (received : Option String)
  | over

end ManagedTorrent

structure ManagedTorrent (L : Lengths) where
  state : ManagedTorrent.State L := .initializing 0
  /-- The torrent is meant to be paused, whatever state it is in. -/
  paused : Bool := false
  onlyFiles : Option (List ℕ) := none
  /-- The metadata has been loaded. -/
  metadata : Bool := true
  /-- How many initializers there have been. -/
  inits : ℕ := 1
  /-- The live torrents there have been, and how many. -/
  lives : ℕ → TorrentStateLive L := fun _ => ⟨none, false, 0⟩
  liveCount : ℕ := 0
  tasks : List ManagedTorrent.Task := []
  /-- The tokens that tasks were started with, and how many. -/
  cancelled : ℕ → Bool := fun _ => false
  tokenCount : ℕ := 0
  /-- The token they are children of is cancelled. -/
  torrentCancelled : Bool := false

/-- What users and tasks do. -/
inductive ManagedStep (L : Lengths) where
  /-- `session` is alive or not; a storage is created if need be. -/
  | start (session startPaused : Bool) (created : StorageResult)
  | pause (session : Bool) (taken : StorageResult)
  | prepareForceRecheck (taken created : StorageResult)
  | updateOnlyFiles (onlyFiles : List ℕ)
  /-- The initial check of a task ends. -/
  | checked (task : ℕ) (result : Except String (ChunkTracker L))
  /-- A connection of a live torrent runs into a fatal error… -/
  | fatalError (live : ℕ) (e : String)
  /-- …and the task that waits for one gets it. -/
  | fatalErrorReceived (task : ℕ) (taken : StorageResult)
  /-- A task ends since it was cancelled, or its live torrent was paused. -/
  | taskEnds (task : ℕ)
  /-- The connections of a live torrent change its piece tracker. -/
  | download (live : ℕ) (pieces : PieceTracker L)

namespace ManagedTorrent

variable (t : ManagedTorrent L)

/-! ## Tokens and tasks -/

/-- `child_token`: the next token is taken. -/
def childToken : ManagedTorrent L :=
  { t with
    cancelled := update t.cancelled t.tokenCount t.torrentCancelled
    tokenCount := t.tokenCount + 1 }

/-- `cancel_token`: all children are cancelled with it. -/
def cancelToken : ManagedTorrent L :=
  { t with cancelled := fun _ => true, torrentCancelled := true }

/-- `cancel_and_reset_token`: there is a new token if there is a session to take it from. -/
def cancelAndResetToken (session : Bool) : ManagedTorrent L :=
  { t.cancelToken with torrentCancelled := !session }

/-- `TorrentStateLive::pause` of one of the live torrents. -/
def pauseLive (live : ℕ) (taken : StorageResult) :
    ManagedTorrent L × Except ManagedError (ChunkTracker L) :=
  ({ t with
    lives := update t.lives live ((t.lives live).pause taken).1
    cancelled := update t.cancelled (t.lives live).cancellationToken true },
    ((t.lives live).pause taken).2)

def spawn (task : Task) : ManagedTorrent L := { t with tasks := t.tasks ++ [task] }

/-! ## Operations -/

/-- The paused torrent goes live. -/
def goLive (ct : ChunkTracker L) (session : Bool) (token : ℕ) :
    ManagedTorrent L × Except ManagedError Unit :=
  if !session then ({ t with state := .none }, .error .sessionDead)
  else
    ({ t with
      state := .live t.liveCount
      lives := update t.lives t.liveCount ⟨some (.new ct), true, token⟩
      liveCount := t.liveCount + 1 }.spawn (.fatalErrors t.liveCount token none), .ok ())

/-- `_start` -/
def startFrom (session startPaused : Bool) (token : ℕ) (created : StorageResult) :
    ManagedTorrent L × Except ManagedError Unit :=
  match t.state with
  | .live _ => (t, .error .alreadyLive)
  | .initializing init => (t.spawn (.initialize_ init token startPaused), .ok ())
  | .paused ct => if startPaused then (t, .ok ()) else t.goLive ct session token
  | .error _ =>
    if !t.metadata then (t, .error .noMetadata)
    else
      match created with
      | .error e => (t, .error (.storage e))
      | .ok () =>
        ({ t with state := .initializing t.inits, inits := t.inits + 1 }.spawn
          (.initialize_ t.inits token startPaused), .ok ())
  | .none => (t, .error .emptyState)

def start (session startPaused : Bool) (created : StorageResult) :
    ManagedTorrent L × Except ManagedError Unit :=
  if !session then (t, .error .sessionDead)
  else
    { t with paused := startPaused }.childToken.startFrom session startPaused t.tokenCount created

def pause (session : Bool) (taken : StorageResult) : ManagedTorrent L × Except ManagedError Unit :=
  match t.state with
  | .live live =>
    match t.pauseLive live taken with
    | (t, .ok ct) => ({ t with state := .paused ct, paused := true }, .ok ())
    | (t, .error e) => (t, .error e)
  | .initializing _ =>
    ({ t.cancelAndResetToken session with state := .error .pausedDuringInit, paused := true },
      .ok ())
  | .paused _ => (t, .error .alreadyPaused)
  | .error _ => (t, .error .inError)
  | .none => (t, .error .emptyState)

/-- A new initializer takes over the storage. -/
def recheck (resumeAfterCheck : Bool) : ManagedTorrent L × Except ManagedError Bool :=
  ({ t with state := .initializing t.inits, inits := t.inits + 1, paused := !resumeAfterCheck },
    .ok resumeAfterCheck)

/-- `prepare_force_recheck`: whether the torrent was live. -/
def prepareForceRecheck (taken created : StorageResult) :
    ManagedTorrent L × Except ManagedError Bool :=
  if !t.metadata then (t, .error .noMetadata)
  else
    match t.state with
    | .initializing _ => (t, .error .alreadyChecking)
    | .live live =>
      match t.pauseLive live taken with
      | (t, .ok _) => t.recheck true
      | (t, .error e) => ({ t with state := .error (.pauseForCheck e) }, .error e)
    | .paused _ => t.recheck false
    | .error _ =>
      match created with
      | .ok () => t.recheck false
      | .error e => (t, .error (.storage e))
    | .none => (t, .error .emptyState)

/-- `stop_with_error`; what the pause of a live torrent returns is only logged. -/
def stopWithError (e : ManagedError) (taken : StorageResult) : ManagedTorrent L :=
  match t.state with
  | .live live => { (t.pauseLive live taken).1 with state := .error e }
  | _ => { t with state := .error e }

def updateOnlyFiles (fileInfos : List FileInfo) (onlyFiles : List ℕ) :
    ManagedTorrent L × Except ManagedError Unit :=
  if !t.metadata then (t, .error .notResolved)
  else
    match onlyFiles.find? (fileInfos.length ≤ ·) with
    | some f => (t, .error (.invalidFile f))
    | none =>
      match t.state with
      | .initializing _ => (t, .error .initializing)
      | .error _ | .none => ({ t with onlyFiles := some onlyFiles }, .ok ())
      | .paused ct =>
        ({ t with
          state := .paused (ct.updateOnlyFiles fileInfos onlyFiles)
          onlyFiles := some onlyFiles }, .ok ())
      | .live live =>
        match (t.lives live).pieces with
        | none => (t, .error .chunkTrackerEmpty)
        | some pt =>
          ({ t with
            lives := update t.lives live
              { t.lives live with pieces := some (pt.updateOnlyFiles fileInfos onlyFiles) }
            onlyFiles := some onlyFiles }, .ok ())

/-! ## Tasks -/

/-- The end of `initialize_and_start`.  The task holds on to the session. -/
def checked (token : ℕ) (startPaused : Bool) (result : Except String (ChunkTracker L)) :
    ManagedTorrent L :=
  match result with
  | .ok ct =>
    match t.state with
    | .initializing _ => ({ t with state := .paused ct }.startFrom true startPaused token
      (.ok ())).1
    | _ => t
  | .error e => { t with state := .error (.check e) }

/-- The receiver of the fatal errors of a live torrent. -/
def Task.receives (live : ℕ) : Task → Bool
  | .fatalErrors live' _ none => live' = live
  | _ => false

def Task.receive (live : ℕ) (e : String) (task : Task) : Task :=
  match task with
  | .fatalErrors live' token none =>
    if live' = live then .fatalErrors live' token (some e) else task
  | _ => task

/-- `on_fatal_error`: the error is sent, or the live torrent cancelled if no one is there to
receive it. -/
def onFatalError (live : ℕ) (e : String) : ManagedTorrent L :=
  if !(t.lives live).fatalErrorsTx then t
  else
    let t := { t with
      lives := update t.lives live { t.lives live with fatalErrorsTx := false } }
    if t.tasks.any (Task.receives live) then { t with tasks := t.tasks.map (Task.receive live e) }
    else
      { t with cancelled := update t.cancelled (t.lives live).cancellationToken true }

/-- The task may end before it has done what it is there for. -/
def mayEnd : Task → Bool
  | .initialize_ _ token _ => t.cancelled token
  | .fatalErrors live token received =>
    t.cancelled token || (received.isNone && !(t.lives live).fatalErrorsTx)
  | .over => false

def finish (task : ℕ) : ManagedTorrent L := { t with tasks := t.tasks.set task .over }

/-- **One step**: the torrent after it, and what the operation returns. -/
def apply (fileInfos : List FileInfo) :
    ManagedStep L → Option (ManagedTorrent L × Except ManagedError Unit)
  | .start session startPaused created => some (t.start session startPaused created)
  | .pause session taken => some (t.pause session taken)
  | .prepareForceRecheck taken created =>
    some ((t.prepareForceRecheck taken created).1,
      (t.prepareForceRecheck taken created).2.map fun _ => ())
  | .updateOnlyFiles onlyFiles => some (t.updateOnlyFiles fileInfos onlyFiles)
  | .checked task result =>
    match t.tasks[task]? with
    | some (.initialize_ _ token startPaused) =>
      some ((t.finish task).checked token startPaused result, .ok ())
    | _ => none
  | .fatalError live e => some (t.onFatalError live e, .ok ())
  | .fatalErrorReceived task taken =>
    match t.tasks[task]? with
    | some (.fatalErrors _ _ (some e)) =>
      some ((t.finish task).stopWithError (.fatal e) taken, .ok ())
    | _ => none
  | .taskEnds task =>
    match t.tasks[task]? with
    | some running => if t.mayEnd running then some (t.finish task, .ok ()) else none
    | none => none
  | .download live pieces =>
    match (t.lives live).pieces with
    | some _ => some ({ t with
        lives := update t.lives live { t.lives live with pieces := some pieces } }, .ok ())
    | none => none

def step (fileInfos : List FileInfo) (t : ManagedTorrent L) (a : ManagedStep L) :
    Option (ManagedTorrent L) :=
  (t.apply fileInfos a).map Prod.fst

/-- What is seen of the state: a live torrent with all that belongs to it. -/
def observed : State L × Option (TorrentStateLive L) :=
  (t.state, match t.state with
    | .live live => some (t.lives live)
    | _ => none)

/-! ## What a step can do -/

/-- The state, and what it refers to. -/
structure Core (L : Lengths) where
  state : State L
  lives : ℕ → TorrentStateLive L
  inits : ℕ
  liveCount : ℕ
  metadata : Bool

def core : Core L := ⟨t.state, t.lives, t.inits, t.liveCount, t.metadata⟩

/-- **What a step does to the state**, and what it returns. -/
inductive CoreTurn (c : Core L) (a : ManagedStep L) (c' : Core L) (r : Except ManagedError Unit) :
    Prop
  | stays (hcore : c' = c)
  /-- A live torrent changes, and keeps its tracker if it has one. -/
  | keeps {live l} (hpieces : (c.lives live).pieces.isSome = true → l.pieces.isSome = true)
      (hcore : c' = { c with lives := update c.lives live l }) (hr : r = .ok ())
  | pauses {ct lives} (hcore : c' = { c with state := .paused ct, lives }) (hr : r = .ok ())
  | fails {e lives} (hcore : c' = { c with state := .error e, lives })
  | reinitializes {lives}
      (hcore : c' = { c with state := .initializing c.inits, inits := c.inits + 1, lives })
      (hr : r = .ok ())
  | goesLive {ct token}
      (hcore : c' = { c with
        state := .live c.liveCount
        lives := update c.lives c.liveCount ⟨some (.new ct), true, token⟩
        liveCount := c.liveCount + 1 })
      (hr : r = .ok ())
  /-- A pause that fails has taken the tracker of the live torrent. -/
  | loses {session taken live lives} (ha : a = .pause session taken)
      (hstate : c.state = .live live) (hpieces : (lives live).pieces = none)
      (hcore : c' = { c with lives })

/-- The torrent is meant to be paused, and what files are selected. -/
def settings : Bool × Option (List ℕ) := (t.paused, t.onlyFiles)

/-- **What a step does to the settings.**  A start changes them even if it fails. -/
def Sets (fileInfos : List FileInfo) (a : ManagedStep L) (t' : ManagedTorrent L)
    (r : Except ManagedError Unit) : Prop :=
  match a, r with
  | .start true startPaused _, _ => t'.settings = (startPaused, t.onlyFiles)
  | .pause .., .ok () => t'.settings = (true, t.onlyFiles)
  | .prepareForceRecheck .., .ok () => t'.onlyFiles = t.onlyFiles
  | .updateOnlyFiles onlyFiles, .ok () =>
    t'.settings = (t.paused, some onlyFiles) ∧ ∀ f ∈ onlyFiles, f < fileInfos.length
  | _, _ => t'.settings = t.settings

/-- **What a step does.** -/
structure Turn (fileInfos : List FileInfo) (a : ManagedStep L) (t' : ManagedTorrent L)
    (r : Except ManagedError Unit) : Prop where
  core : CoreTurn t.core a t'.core r
  sets : t.Sets fileInfos a t' r

section Turn

variable {t} {t' : ManagedTorrent L} {a : ManagedStep L} (fileInfos : List FileInfo)

/-- A paused torrent that is started stays paused or goes live. -/
lemma startFrom_paused {ct} (hstate : t.state = .paused ct)
    (startPaused : Bool) (token : ℕ) (created : StorageResult) :
    t.startFrom true startPaused token created = (t, .ok ()) ∨
      t.startFrom true startPaused token created = t.goLive ct true token := by
  rw [startFrom.eq_def, hstate]
  cases startPaused with
  | true => exact .inl rfl
  | false => exact .inr rfl

lemma turn_startFrom (startPaused : Bool) (token : ℕ) (created : StorageResult) :
    CoreTurn t.core a (t.startFrom true startPaused token created).1.core
        (t.startFrom true startPaused token created).2 ∧
      (t.startFrom true startPaused token created).1.settings = t.settings := by
  cases hstate : t.state with
  | paused ct =>
    rcases startFrom_paused hstate startPaused token created with heq | heq
    · rw [heq]
      exact ⟨.stays rfl, rfl⟩
    · rw [heq]
      exact ⟨.goesLive rfl rfl, rfl⟩
  | live live | initializing init | none =>
    rw [startFrom.eq_def, hstate]
    exact ⟨.stays rfl, rfl⟩
  | error e =>
    rw [startFrom.eq_def, hstate]
    dsimp only
    split
    · exact ⟨.stays rfl, rfl⟩
    · cases created with
      | error e => exact ⟨.stays rfl, rfl⟩
      | ok u => exact ⟨.reinitializes rfl rfl, rfl⟩

lemma turn_start (session startPaused : Bool) (created : StorageResult) :
    t.Turn fileInfos (.start session startPaused created) (t.start session startPaused created).1
      (t.start session startPaused created).2 := by
  cases session with
  | false => exact ⟨.stays rfl, rfl⟩
  | true =>
    obtain ⟨hcore, hsettings⟩ := turn_startFrom
      startPaused t.tokenCount created
    exact ⟨hcore, hsettings⟩

lemma turn_pause (session : Bool) (taken : StorageResult) :
    t.Turn fileInfos (.pause session taken) (t.pause session taken).1
      (t.pause session taken).2 := by
  rw [pause]
  cases hstate : t.state with
  | live live =>
    have hpieces : ((t.pauseLive live taken).1.lives live).pieces = none := by
      dsimp only [pauseLive]
      rw [update_self, TorrentStateLive.pause]
      split
      · assumption
      · rfl
    dsimp only
    split
    · next hpause =>
      obtain ⟨rfl, -⟩ := Prod.mk.inj hpause
      exact ⟨.pauses rfl rfl, rfl⟩
    · next hpause =>
      obtain ⟨rfl, -⟩ := Prod.mk.inj hpause
      exact ⟨.loses rfl hstate hpieces rfl, rfl⟩
  | initializing init => exact ⟨.fails rfl, rfl⟩
  | paused ct | error e | none => exact ⟨.stays rfl, rfl⟩

lemma turn_prepareForceRecheck (taken created : StorageResult) :
    t.Turn fileInfos (.prepareForceRecheck taken created) (t.prepareForceRecheck taken created).1
      ((t.prepareForceRecheck taken created).2.map fun _ => ()) := by
  rw [prepareForceRecheck.eq_def]
  split
  · exact ⟨.stays rfl, rfl⟩
  cases hstate : t.state with
  | initializing init | none => exact ⟨.stays rfl, rfl⟩
  | live live =>
    dsimp only
    split
    · next hpause =>
      obtain ⟨rfl, -⟩ := Prod.mk.inj hpause
      exact ⟨.reinitializes rfl rfl, rfl⟩
    · next hpause =>
      obtain ⟨rfl, -⟩ := Prod.mk.inj hpause
      exact ⟨.fails rfl, rfl⟩
  | paused ct => exact ⟨.reinitializes rfl rfl, rfl⟩
  | error e =>
    cases created with
    | ok u => exact ⟨.reinitializes rfl rfl, rfl⟩
    | error e => exact ⟨.stays rfl, rfl⟩

lemma turn_updateOnlyFiles (onlyFiles : List ℕ) :
    t.Turn fileInfos (.updateOnlyFiles onlyFiles) (t.updateOnlyFiles fileInfos onlyFiles).1
      (t.updateOnlyFiles fileInfos onlyFiles).2 := by
  rw [updateOnlyFiles]
  split
  · exact ⟨.stays rfl, rfl⟩
  split
  · exact ⟨.stays rfl, rfl⟩
  next hfind =>
  have hlt : ∀ f ∈ onlyFiles, f < fileInfos.length := fun f hf => by
    simpa using List.find?_eq_none.mp hfind f hf
  cases hstate : t.state with
  | initializing init => exact ⟨.stays rfl, rfl⟩
  | error e | none => exact ⟨.stays (by rw [core, core, hstate]), rfl, hlt⟩
  | paused ct => exact ⟨.pauses rfl rfl, rfl, hlt⟩
  | live live =>
    dsimp only
    split
    · exact ⟨.stays rfl, rfl⟩
    · exact ⟨.keeps (fun _ => rfl) (by rw [core, core, hstate]) rfl, rfl, hlt⟩

lemma turn_checked (token : ℕ) (startPaused : Bool) (result : Except String (ChunkTracker L)) :
    CoreTurn t.core a (t.checked token startPaused result).core (.ok ()) ∧
      (t.checked token startPaused result).settings = t.settings := by
  cases result with
  | error e => exact ⟨.fails rfl, rfl⟩
  | ok ct =>
    rw [checked]
    split
    · rcases startFrom_paused (t := { t with state := .paused ct }) rfl startPaused token (.ok ())
        with heq | heq
      · rw [heq]
        exact ⟨.pauses rfl rfl, rfl⟩
      · rw [heq]
        exact ⟨.goesLive rfl rfl, rfl⟩
    · exact ⟨.stays rfl, rfl⟩

/-- **Every step does one of these.** -/
theorem turn_of_apply {fileInfos r}
    (happly : t.apply fileInfos a = some (t', r)) : t.Turn fileInfos a t' r := by
  cases a with
  | start session startPaused created =>
    obtain ⟨rfl, rfl⟩ := Prod.mk.inj (Option.some.inj happly)
    exact turn_start fileInfos session startPaused created
  | pause session taken =>
    obtain ⟨rfl, rfl⟩ := Prod.mk.inj (Option.some.inj happly)
    exact turn_pause fileInfos session taken
  | prepareForceRecheck taken created =>
    obtain ⟨rfl, rfl⟩ := Prod.mk.inj (Option.some.inj happly)
    exact turn_prepareForceRecheck fileInfos taken created
  | updateOnlyFiles onlyFiles =>
    obtain ⟨rfl, rfl⟩ := Prod.mk.inj (Option.some.inj happly)
    exact turn_updateOnlyFiles fileInfos onlyFiles
  | checked task result =>
    rw [apply] at happly
    split at happly <;> cases happly
    obtain ⟨hcore, hsettings⟩ := turn_checked _ _ result
    exact ⟨hcore, hsettings⟩
  | fatalError live e =>
    cases happly
    rw [onFatalError]
    split
    · exact ⟨.stays rfl, rfl⟩
    dsimp only
    split
    · refine ⟨.keeps ?_ rfl rfl, rfl⟩
      exact id
    · refine ⟨.keeps ?_ rfl rfl, rfl⟩
      exact id
  | fatalErrorReceived task taken =>
    rw [apply] at happly
    split at happly <;> cases happly
    rw [stopWithError]
    split <;> exact ⟨.fails rfl, rfl⟩
  | taskEnds task =>
    rw [apply] at happly
    split at happly
    · split at happly <;> cases happly
      exact ⟨.stays rfl, rfl⟩
    · cases happly
  | download live pieces =>
    rw [apply] at happly
    split at happly <;> cases happly
    exact ⟨.keeps (fun _ => rfl) rfl rfl, rfl⟩

end Turn

end ManagedTorrent

end Librtbit
