import Librtbit.Storage.Rename

/-!
# Storage/Relocate — moving a torrent to another folder

`set_location` moves every file of a stopped torrent to the same place under a new root, one after
the other, and moves those back that it has moved when one fails.  It means to do all or nothing
(`AllOrNothing`), and does but for two things (`allOrNothing_iff`): a file that was moved and could
not be opened again is not moved back, since it does not count as moved; and padding is never moved,
since it has no path that could lie under the old root.
-/

namespace Librtbit

open Machinery List

structure FilesystemStorage where
  outputFolder : FsPath
  files : Files
  readOnly : Bool := false

/-- What the state of a torrent lets be done with its files. -/
inductive StateKind where
  | paused
  | live
  | other
  deriving DecidableEq

structure StoredTorrent where
  state : StateKind
  storage : FilesystemStorage
  outputFolderOverride : FsPath

inductive SetLocationError where
  /-- `torrent must be stopped before changing its location` -/
  | mustBeStopped
  /-- `torrent is not in a relocatable state (must be stopped)` -/
  | notRelocatable
  /-- `error creating destination directory {new_root}` -/
  | creatingDestination
  /-- `error relocating torrent; rolled back`, or the storage is read-only. -/
  | relocating (e : RenameError)
  deriving DecidableEq

/-- How the calls of a relocation go: the creation of the root, and the move of each file there and
back. -/
structure Outcomes where
  createRoot : Option FsCall := none
  there : ℕ → Option FsCall := fun _ => none
  back : ℕ → Option FsCall := fun _ => none

/-- Where `rebase` moves a file: to the same place under the new root. -/
def rebaseTarget (oldRoot newRoot : FsPath) (of : OpenedFile) : Except RenameError FsPath :=
  if oldRoot <+: of.path then .ok (newRoot ++ of.path.drop oldRoot.length)
  else .error (.notUnderRoot of.path oldRoot)

/-- The move of a file there, and the one back. -/
def rebaseStep (oldRoot newRoot : FsPath) (calls : Outcomes) (id : ℕ) : Step × Step :=
  (⟨id, rebaseTarget oldRoot newRoot, calls.there id⟩,
    ⟨id, rebaseTarget newRoot oldRoot, calls.back id⟩)

namespace FilesystemStorage

variable (st : FilesystemStorage) (newRoot : FsPath) (calls : Outcomes)

/-- The moves of `move_root`. -/
def moveSteps : List (Step × Step) :=
  (List.range' 0 st.files.opened.length).map (rebaseStep st.outputFolder newRoot calls)

/-- `move_root`, with whether all the moves back succeeded. -/
def moveRoot : FilesystemStorage × Except RenameError Unit × Bool :=
  if st.readOnly then (st, .error .readOnly, true)
  else if st.outputFolder = newRoot then (st, .ok (), true)
  else
    match attempt Files.apply st.files [] (st.moveSteps newRoot calls) with
    | (files, .ok (), back) => ({ st with files, outputFolder := newRoot }, .ok (), back)
    | (files, .error e, back) => ({ st with files }, .error e, back)

/-- Some directories were created on the disk. -/
def withFs (fs : Fs) : FilesystemStorage := { st with files := { st.files with fs } }

end FilesystemStorage

namespace StoredTorrent

variable (t : StoredTorrent) (newRoot : FsPath) (calls : Outcomes)

/-- The storage after the new root is created, or could not be. -/
def rooted : FilesystemStorage × Bool :=
  let created := t.storage.files.fs.createDirAll calls.createRoot newRoot
  (t.storage.withFs created.1, created.2)

/-- `set_location`, with whether all the moves back succeeded. -/
def setLocation : StoredTorrent × Except SetLocationError Unit × Bool :=
  match t.state with
  | .live => (t, .error .mustBeStopped, true)
  | .other => (t, .error .notRelocatable, true)
  | .paused =>
    match t.rooted newRoot calls with
    | (storage, false) => ({ t with storage }, .error .creatingDestination, true)
    | (storage, true) =>
      match storage.moveRoot newRoot calls with
      | (storage, .error e, back) => ({ t with storage }, .error (.relocating e), back)
      | (storage, .ok (), back) =>
        ({ t with storage, outputFolderOverride := newRoot }, .ok (), back)

/-- The torrent is stopped, its storage can be written, and the root can be created: the files are
about to be moved, if they are to be moved at all. -/
structure Starts : Prop where
  paused : t.state = .paused
  writable : t.storage.readOnly = false
  created : (t.rooted newRoot calls).2 = true

end StoredTorrent

/-- **Every move of a file goes through** when its turn comes: nothing is in the way of it and none
of its calls fails. -/
def Files.Unobstructed : Files → List (Step × Step) → Prop
  | _, [] => True
  | s, (a, _) :: rest =>
    (∀ of, s.opened[a.id]? = some of → of.fd.isSome = true → s.Passes a) ∧
      Unobstructed (s.apply a).1 rest

/-- **All or nothing**: after an error every file is back and the recorded roots are the old ones;
and there is no error when every move of a file goes through. -/
structure StoredTorrent.AllOrNothing (t : StoredTorrent) (newRoot : FsPath) (calls : Outcomes) :
    Prop where
  nothing : ∀ e, (t.setLocation newRoot calls).2.1 = .error e →
    t.storage.files.Restored (t.setLocation newRoot calls).1.storage.files ∧
    (t.setLocation newRoot calls).1.storage.outputFolder = t.storage.outputFolder ∧
    (t.setLocation newRoot calls).1.outputFolderOverride = t.outputFolderOverride
  all : t.Starts newRoot calls →
    (t.rooted newRoot calls).1.files.Unobstructed (t.storage.moveSteps newRoot calls) →
    (t.setLocation newRoot calls).2.1 = .ok ()

/-! ## The moves -/

namespace Files

variable {s₀ s : Files} {oldRoot newRoot : FsPath} {calls : Outcomes} {of : OpenedFile}

lemma rebaseTarget_eq_ok {newFull} :
    rebaseTarget oldRoot newRoot of = .ok newFull ↔
      ∃ relative, of.path = oldRoot ++ relative ∧ newFull = newRoot ++ relative := by
  rw [rebaseTarget]
  split
  · next h =>
    obtain ⟨relative, hrelative⟩ := h
    rw [← hrelative, drop_left, Except.ok.injEq]
    constructor
    · rintro rfl
      exact ⟨relative, rfl, rfl⟩
    · rintro ⟨relative', h', rfl⟩
      rw [append_cancel_left h']
  · next h =>
    refine iff_of_false nofun ?_
    rintro ⟨relative, hpath, -⟩
    exact h ⟨relative, hpath.symm⟩

/-- The moves from the `k`-th file on. -/
def stepsFrom (s₀ : Files) (oldRoot newRoot : FsPath) (calls : Outcomes) (k : ℕ) :
    List (Step × Step) :=
  (List.range' k (s₀.opened.length - k)).map (rebaseStep oldRoot newRoot calls)

variable {k : ℕ} {rest : List (Step × Step)}

lemma stepsFrom_eq_cons {a b} (h : s₀.stepsFrom oldRoot newRoot calls k = (a, b) :: rest) :
    k < s₀.opened.length ∧ (a, b) = rebaseStep oldRoot newRoot calls k ∧
      rest = s₀.stepsFrom oldRoot newRoot calls (k + 1) := by
  rw [stepsFrom] at h ⊢
  cases hlen : s₀.opened.length - k with
  | zero =>
    rw [hlen] at h
    cases h
  | succ n =>
    rw [hlen, range'_succ, map_cons, List.cons.injEq] at h
    rw [show s₀.opened.length - (k + 1) = n by omega]
    exact ⟨by omega, h.1.symm, h.2.symm⟩

/-- The files before the `k`-th are moved, with the steps back collected; the others are as they
were. -/
structure MovedTo (s₀ : Files) (k : ℕ) (s : Files) (undo : List Step) : Prop where
  undoable : s₀.Undoable s undo
  lt : ∀ b ∈ undo, b.id < k
  same : ∀ id, k ≤ id → s.opened[id]? = s₀.opened[id]?

lemma Consistent.movedTo (h : s₀.Consistent) : s₀.MovedTo 0 s₀ [] where
  undoable := h.undoable
  lt _ hb := absurd hb not_mem_nil
  same _ _ := rfl

/-- One more file is moved, and the move back leads home. -/
lemma MovedTo.forward {undo s'} (h : s₀.MovedTo k s undo)
    (happly : s.apply (rebaseStep oldRoot newRoot calls k).1 = (s', .ok ())) :
    s₀.MovedTo (k + 1) s' ((rebaseStep oldRoot newRoot calls k).2 :: undo) := by
  obtain ⟨-, of, newFull, -, -, hopened⟩ := h.undoable.tracks.apply_ok happly
  refine ⟨h.undoable.forward happly rfl ?_ ?_, ?_, ?_⟩
  · intro of₀ of' newFull' hof₀ _ hof' htarget
    dsimp only [rebaseStep] at hof₀ hof' htarget ⊢
    rw [h.same k (Nat.le_refl k), hof₀, Option.some.injEq] at hof'
    obtain ⟨relative, hpath, rfl⟩ := rebaseTarget_eq_ok.mp htarget
    exact rebaseTarget_eq_ok.mpr ⟨relative, rfl, hof' ▸ hpath⟩
  · intro c hc hid
    exact absurd hid (Nat.ne_of_lt (h.lt c hc))
  · intro c hc
    rcases mem_cons.mp hc with rfl | hc
    · exact Nat.lt_succ_self k
    · exact Nat.lt_succ_of_lt (h.lt c hc)
  · intro id hid
    have hne : (rebaseStep oldRoot newRoot calls k).1.id ≠ id := Nat.ne_of_lt hid
    rw [hopened, getElem?_set_ne hne]
    exact h.same id (Nat.le_of_succ_le hid)

/-- **The moves back lead home.** -/
theorem way_stepsFrom : s₀.Way fun s undo rest =>
    ∃ k, rest = s₀.stepsFrom oldRoot newRoot calls k ∧ s₀.MovedTo k s undo where
  undoable := fun _ _ _ ⟨_, _, h⟩ => h.undoable
  forward := by
    rintro s undo a b rest s' ⟨k, hrest, h⟩ happly
    obtain ⟨-, hab, hnext⟩ := stepsFrom_eq_cons hrest.symm
    cases hab
    exact ⟨k + 1, hnext, h.forward happly⟩

lemma passes_dummy_iff (hof : s.opened[k]? = some of) (hnone : of.fd = none) :
    s.Passes (rebaseStep oldRoot newRoot calls k).1 ↔ oldRoot <+: of.path := by
  constructor
  · rintro ⟨of', newFull, hof', htarget, -⟩
    cases hof'.symm.trans hof
    obtain ⟨relative, hpath, -⟩ := rebaseTarget_eq_ok.mp htarget
    exact ⟨relative, hpath.symm⟩
  · rintro ⟨relative, hpath⟩
    exact ⟨of, _, hof, rebaseTarget_eq_ok.mpr ⟨relative, hpath.symm, rfl⟩, .inl hnone⟩

/-- The `k`-th file passes unless it is padding outside of the root. -/
lemma passes_iff (hof : s.opened[k]? = some of)
    (hreal : of.fd.isSome = true → s.Passes (rebaseStep oldRoot newRoot calls k).1) :
    s.Passes (rebaseStep oldRoot newRoot calls k).1 ↔ (of.fd = none → oldRoot <+: of.path) := by
  cases hfd : of.fd with
  | none =>
    rw [passes_dummy_iff hof hfd]
    exact ⟨fun hprefix _ => hprefix, fun hprefix => hprefix rfl⟩
  | some f => exact iff_of_true (hreal (by rw [hfd]; rfl)) nofun

/-- From the `k`-th file on, what has no handle has a path under the root. -/
def DummiesUnder (s₀ : Files) (oldRoot : FsPath) (k : ℕ) : Prop :=
  ∀ (id : ℕ) (of : OpenedFile), k ≤ id → s₀.opened[id]? = some of → of.fd = none →
    oldRoot <+: of.path

lemma dummiesUnder_iff_succ (hof : s₀.opened[k]? = some of) :
    s₀.DummiesUnder oldRoot k ↔
      (of.fd = none → oldRoot <+: of.path) ∧ s₀.DummiesUnder oldRoot (k + 1) := by
  constructor
  · intro hall
    exact ⟨hall k of (Nat.le_refl k) hof, fun id of' hid => hall id of' (Nat.le_of_succ_le hid)⟩
  rintro ⟨hhead, htail⟩ id of' hid hof'
  rcases Nat.eq_or_lt_of_le hid with rfl | hlt
  · cases hof.symm.trans hof'
    exact hhead
  · exact htail id of' hlt hof'

lemma dummiesUnder_zero :
    s₀.DummiesUnder oldRoot 0 ↔ ∀ of ∈ s₀.opened, of.fd = none → oldRoot <+: of.path := by
  constructor
  · intro hall of hmem
    obtain ⟨id, hid⟩ := mem_iff_getElem?.mp hmem
    exact hall id of (Nat.zero_le id) hid
  · intro hall id of _ hof
    exact hall of (mem_of_getElem? hof)

/-- **When every move of a file goes through, the padding decides.** -/
theorem attempt_ok_iff {undo}
    (hrest : rest = s₀.stepsFrom oldRoot newRoot calls k) (h : s₀.MovedTo k s undo)
    (hclear : s.Unobstructed rest) :
    (attempt Files.apply s undo rest).2.1 = .ok () ↔ s₀.DummiesUnder oldRoot k := by
  -- one file after the other, as the loop goes
  induction rest generalizing k s undo with
  | nil =>
    refine iff_of_true rfl fun id of hid hof => ?_
    have hlt := (List.getElem?_eq_some_iff.mp hof).1
    have hlen := congrArg List.length hrest
    rw [stepsFrom, length_map, length_range', length_nil] at hlen
    omega
  | cons pair rest ih =>
    obtain ⟨a, b⟩ := pair
    obtain ⟨hk, hab, hnext⟩ := stepsFrom_eq_cons hrest.symm
    have ha : a = (rebaseStep oldRoot newRoot calls k).1 := congrArg Prod.fst hab
    have hb : b = (rebaseStep oldRoot newRoot calls k).2 := congrArg Prod.snd hab
    obtain ⟨hreal, hlater⟩ := hclear
    have hof₀ := getElem?_eq_getElem hk
    have hof := (h.same k (Nat.le_refl k)).trans hof₀
    rw [ha] at hreal
    rw [dummiesUnder_iff_succ hof₀, ← passes_iff hof (hreal _ hof), ← ha, attempt]
    rcases happly : s.apply a with ⟨s', result⟩
    cases result with
    | ok _ =>
      rw [happly] at hlater
      rw [and_iff_right (passes_of_apply_ok happly)]
      rw [ha] at happly
      exact ih hnext (hb ▸ h.forward happly) hlater
    | error e =>
      refine iff_of_false (fun hok => ?_) fun hall => ?_
      · cases hok
      · exact (h.undoable.tracks.apply_error happly).1 hall.1

end Files

/-! ## The whole relocation -/

namespace StoredTorrent

variable {t : StoredTorrent} {newRoot : FsPath} {calls : Outcomes}

/-- The moves, from the files with the new root created. -/
def moves (t : StoredTorrent) (newRoot : FsPath) (calls : Outcomes) :
    Files × Except RenameError Unit × Bool :=
  attempt Files.apply (t.rooted newRoot calls).1.files [] (t.storage.moveSteps newRoot calls)

/-- Creating directories leaves the files as they are. -/
lemma files_rooted (t : StoredTorrent) (newRoot : FsPath) (calls : Outcomes) :
    (t.rooted newRoot calls).1.files.fs.files = t.storage.files.fs.files :=
  t.storage.files.fs.files_createDirAll calls.createRoot newRoot

lemma consistent_rooted (h : t.storage.files.Consistent) :
    (t.rooted newRoot calls).1.files.Consistent where
  held id of hof f hf := by
    rw [files_rooted]
    exact h.held id of hof f hf
  distinct := h.distinct

lemma restored_rooted_iff {s} :
    (t.rooted newRoot calls).1.files.Restored s ↔ t.storage.files.Restored s := by
  constructor
  · intro h
    exact ⟨h.files.trans (files_rooted t newRoot calls), h.opened⟩
  · intro h
    exact ⟨h.files.trans (files_rooted t newRoot calls).symm, h.opened⟩

/-- **What a relocation does that starts**: its moves decide it. -/
theorem setLocation_of_starts (h : t.Starts newRoot calls)
    (hne : t.storage.outputFolder ≠ newRoot) :
    (t.setLocation newRoot calls).1.storage.files = (t.moves newRoot calls).1 ∧
    (t.setLocation newRoot calls).2.2 = (t.moves newRoot calls).2.2 ∧
    ((t.moves newRoot calls).2.1 = .ok () ∧ (t.setLocation newRoot calls).2.1 = .ok () ∨
      ∃ e, (t.moves newRoot calls).2.1 = .error e ∧
        (t.setLocation newRoot calls).2.1 = .error (.relocating e) ∧
        (t.setLocation newRoot calls).1.storage.outputFolder = t.storage.outputFolder ∧
        (t.setLocation newRoot calls).1.outputFolderOverride = t.outputFolderOverride) := by
  have hrooted : t.rooted newRoot calls = ((t.rooted newRoot calls).1, true) :=
    Prod.ext rfl h.created
  have hwritable : (t.rooted newRoot calls).1.readOnly = false := h.writable
  have hfolder : (t.rooted newRoot calls).1.outputFolder ≠ newRoot := hne
  have hsteps : (t.rooted newRoot calls).1.moveSteps newRoot calls
      = t.storage.moveSteps newRoot calls := rfl
  rw [setLocation, h.paused]
  rw [hrooted]
  dsimp only
  rw [FilesystemStorage.moveRoot, if_neg (Bool.eq_false_iff.mp hwritable), if_neg hfolder, hsteps,
    moves]
  rcases attempt Files.apply (t.rooted newRoot calls).1.files [] (t.storage.moveSteps newRoot calls)
    with ⟨files, result, back⟩
  cases result with
  | ok _ => exact ⟨rfl, rfl, .inl ⟨rfl, rfl⟩⟩
  | error e => exact ⟨rfl, rfl, .inr ⟨e, rfl, rfl, rfl, rfl⟩⟩

variable (h : t.Starts newRoot calls → t.storage.outputFolder = newRoot)
include h

lemma setLocation_of_not_moving :
    t.storage.files.Restored (t.setLocation newRoot calls).1.storage.files ∧
    (t.setLocation newRoot calls).1.storage.outputFolder = t.storage.outputFolder ∧
    (t.Starts newRoot calls ∧ (t.setLocation newRoot calls).2.1 = .ok () ∨
      ¬ t.Starts newRoot calls ∧
        (t.setLocation newRoot calls).1.outputFolderOverride = t.outputFolderOverride) := by
  have hself : t.storage.files.Restored t.storage.files := ⟨rfl, fun _ _ _ => .rfl⟩
  have hrooted : t.storage.files.Restored (t.rooted newRoot calls).1.files :=
    restored_rooted_iff.mp ⟨rfl, fun _ _ _ => .rfl⟩
  cases hstate : t.state with
  | live | other =>
    rw [setLocation, hstate]
    refine ⟨hself, rfl, .inr ⟨fun hstarts => ?_, rfl⟩⟩
    cases hstate.symm.trans hstarts.paused
  | paused =>
    rw [setLocation, hstate]
    cases hcreated : (t.rooted newRoot calls).2 with
    | false =>
      rw [show t.rooted newRoot calls = ((t.rooted newRoot calls).1, false) from
        Prod.ext rfl hcreated]
      refine ⟨hrooted, rfl, .inr ⟨fun hstarts => ?_, rfl⟩⟩
      cases hcreated.symm.trans hstarts.created
    | true =>
      rw [show t.rooted newRoot calls = ((t.rooted newRoot calls).1, true) from
        Prod.ext rfl hcreated]
      dsimp only
      rw [FilesystemStorage.moveRoot]
      cases hreadOnly : t.storage.readOnly with
      | true =>
        rw [if_pos (show (t.rooted newRoot calls).1.readOnly = true from hreadOnly)]
        refine ⟨hrooted, rfl, .inr ⟨fun hstarts => ?_, rfl⟩⟩
        cases hreadOnly.symm.trans hstarts.writable
      | false =>
        have hstarts : t.Starts newRoot calls := ⟨hstate, hreadOnly, hcreated⟩
        rw [if_neg (show ¬ (t.rooted newRoot calls).1.readOnly = true from
            Bool.eq_false_iff.mp hreadOnly),
          if_pos (show (t.rooted newRoot calls).1.outputFolder = newRoot from h hstarts)]
        exact ⟨hrooted, rfl, .inl ⟨hstarts, rfl⟩⟩

lemma allOrNothing_of_not_moving :
    t.AllOrNothing newRoot calls := by
  obtain ⟨hrestored, hfolder, hcases⟩ := setLocation_of_not_moving h
  refine ⟨fun e he => ⟨hrestored, hfolder, ?_⟩, fun hstarts _ => ?_⟩
  · rcases hcases with ⟨-, hok⟩ | ⟨-, hoverride⟩
    · cases hok.symm.trans he
    · exact hoverride
  · rcases hcases with ⟨-, hok⟩ | ⟨hnot, -⟩
    · exact hok
    · exact absurd hstarts hnot

omit h

/-- A relocation that starts is all or nothing when its moves are. -/
lemma allOrNothing_iff_moves (h : t.Starts newRoot calls)
    (hne : t.storage.outputFolder ≠ newRoot) :
    t.AllOrNothing newRoot calls ↔
      (∀ e, (t.moves newRoot calls).2.1 = .error e →
        (t.rooted newRoot calls).1.files.Restored (t.moves newRoot calls).1) ∧
      ((t.rooted newRoot calls).1.files.Unobstructed (t.storage.moveSteps newRoot calls) →
        (t.moves newRoot calls).2.1 = .ok ()) := by
  obtain ⟨hfiles, -, ⟨hmoves, hok⟩ | ⟨e, hmoves, herror, hfolder, hoverride⟩⟩ :=
    setLocation_of_starts h hne
  · refine iff_of_true ⟨fun e he => ?_, fun _ _ => hok⟩ ⟨fun e he => ?_, fun _ => hmoves⟩
    · cases hok.symm.trans he
    · cases hmoves.symm.trans he
  constructor
  · rintro ⟨hnothing, hall⟩
    refine ⟨fun _ _ => ?_, fun hclear => ?_⟩
    · rw [restored_rooted_iff, ← hfiles]
      exact (hnothing _ herror).1
    · cases herror.symm.trans (hall h hclear)
  · rintro ⟨hnothing, hall⟩
    refine ⟨fun _ _ => ⟨?_, hfolder, hoverride⟩, fun _ hclear => ?_⟩
    · rw [hfiles, ← restored_rooted_iff]
      exact hnothing e hmoves
    · cases hmoves.symm.trans (hall hclear)

/-- **When a relocation is all or nothing**: exactly when no file that was moved fails to be opened
again, and all that has no handle has a path under the old root, unless a file is in the way or a
call on it fails. -/
theorem allOrNothing_iff (hconsistent : t.storage.files.Consistent)
    (hback : (t.setLocation newRoot calls).2.2 = true) :
    t.AllOrNothing newRoot calls ↔
      (t.Starts newRoot calls → t.storage.outputFolder ≠ newRoot →
        ¬ (t.rooted newRoot calls).1.files.StopsAtReopen (t.storage.moveSteps newRoot calls) ∧
        ((t.rooted newRoot calls).1.files.Unobstructed (t.storage.moveSteps newRoot calls) →
          ∀ of ∈ t.storage.files.opened, of.fd = none → t.storage.outputFolder <+: of.path)) := by
  by_cases hmoving : t.Starts newRoot calls ∧ t.storage.outputFolder ≠ newRoot
  · obtain ⟨hstarts, hne⟩ := hmoving
    have hrooted : (t.rooted newRoot calls).1.files.Consistent := consistent_rooted hconsistent
    -- the files are moved from the first one on
    have hstart : t.storage.moveSteps newRoot calls =
        (t.rooted newRoot calls).1.files.stepsFrom t.storage.outputFolder newRoot calls 0 := rfl
    have hmovesBack : (t.moves newRoot calls).2.2 = true :=
      (setLocation_of_starts hstarts hne).2.1.symm.trans hback
    rw [forall_prop_of_true hstarts, forall_prop_of_true hne, allOrNothing_iff_moves hstarts hne]
    refine and_congr ?_ (forall_congr' fun hclear => ?_)
    · exact Files.way_stepsFrom.restored_iff hrooted ⟨0, hstart, hrooted.movedTo⟩ hmovesBack
    · exact (Files.attempt_ok_iff hstart hrooted.movedTo hclear).trans Files.dummiesUnder_zero
  · refine iff_of_true (allOrNothing_of_not_moving fun hstarts => ?_) fun hstarts hne => ?_
    · by_contra hne
      exact hmoving ⟨hstarts, hne⟩
    · exact absurd ⟨hstarts, hne⟩ hmoving

/-- A stopped torrent in `/a` with the file `x`, and maybe others without a handle. -/
def stopped (others : List OpenedFile) : StoredTorrent where
  state := .paused
  storage :=
    { outputFolder := [.rootDir, .normal ['a']]
      files :=
        { fs :=
            { files := fun p =>
                if p = [.rootDir, .normal ['a'], .normal ['x']] then some 0 else none
              dirs := fun p => p = [.rootDir] || p = [.rootDir, .normal ['a']] }
          opened := ⟨[.rootDir, .normal ['a'], .normal ['x']], some 0⟩ :: others } }
  outputFolderOverride := [.rootDir, .normal ['a']]

lemma consistent_stopped : (stopped []).storage.files.Consistent where
  held id of hof f hf := by
    have hmem := mem_singleton.mp (mem_of_getElem? hof)
    subst hmem
    exact hf
  distinct i j a b hi hj _ _ _ := by
    have hi' := (List.getElem?_eq_some_iff.mp hi).1
    have hj' := (List.getElem?_eq_some_iff.mp hj).1
    exact (Nat.lt_one_iff.mp hi').trans (Nat.lt_one_iff.mp hj').symm

/-- A rename that fails leaves the file where it is. -/
theorem allOrNothing_iff_stopped :
    (stopped []).AllOrNothing [.rootDir, .normal ['b']] { there := fun _ => some .rename } := by
  refine (allOrNothing_iff consistent_stopped (by decide)).mpr fun _ _ =>
    ⟨?_, fun _ of hof hnone => ?_⟩
  · rintro (⟨of, newFull, -, -, -, hfail⟩ | ⟨-, hfalse⟩)
    · cases hfail
    · exact hfalse
  · rw [mem_singleton.mp hof] at hnone
    cases hnone

/-- **A file that cannot be opened again stays in the new place; and padding cannot be moved at
all**, though no call on a file fails and nothing is in the way. -/
theorem not_allOrNothing_reopen_padding :
    ¬ (stopped []).AllOrNothing [.rootDir, .normal ['b']] { there := fun _ => some .reopen } ∧
    ¬ (stopped [.newDummy]).AllOrNothing [.rootDir, .normal ['b']] {} := by
  constructor
  · intro h
    have hfiles := (h.nothing (.relocating (.reopening [.rootDir, .normal ['b'], .normal ['x']]))
      (by decide)).1.files
    have hthere := congrFun hfiles [.rootDir, .normal ['b'], .normal ['x']]
    exact absurd hthere (by decide)
  · intro h
    have hclear : ((stopped [.newDummy]).rooted [.rootDir, .normal ['b']] {}).1.files.Unobstructed
        ((stopped [.newDummy]).storage.moveSteps [.rootDir, .normal ['b']] {}) := by
      refine ⟨fun of hof _ => ?_, fun of hof hsome => ?_, trivial⟩
      · cases hof
        refine ⟨_, [.rootDir, .normal ['b'], .normal ['x']], rfl, by decide, .inr (.inr ⟨?_, rfl⟩)⟩
        exact ⟨rfl, by decide, by decide, by decide, by decide⟩
      · cases hof
        cases hsome
    exact absurd (h.all ⟨rfl, rfl, by decide⟩ hclear) (by decide)

end StoredTorrent

end Librtbit
