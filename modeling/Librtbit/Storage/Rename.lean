import Librtbit.Core.Path
import Librtbit.Machinery.Pool
import Librtbit.Machinery.Rollback
import Mathlib.Data.List.Infix

/-!
# Storage/Rename — moving an open file

A file of the torrent is open under a path.  `rename_locked` moves it: it refuses a destination that
exists, creates the parent directory, renames the file, opens it again and records the new path.
Each of these calls can fail, and the last one fails when the file has already moved: the handle
then keeps a path where there is nothing, and nobody knows of the file under the new path (`Stray`).

Up to that, what lies on the disk is known from the handles alone (`Tracks`): the files of the
torrent are where the handles say, and every other file is where it was.  So handles that are back
mean files that are back (`Undoable.restored`), and a stray file means that they are not
(`Stray.not_restored`).

A path is its components, which is how paths are compared; the directories the program removes when
they are left empty are not looked at, and there are no symbolic links.
-/

namespace Librtbit

open Machinery Function List Option

/-! ## Files and directories -/

/-- A path of the file system, by its components. -/
abbrev FsPath : Type := List Component

/-- What a path leads to, whatever its name. -/
abbrev Inode : Type := ℕ

/-- The calls of a move, one of which may fail. -/
inductive FsCall where
  | tryExists
  /-- Some of the directories may have been created. -/
  | createDirAll (made : ℕ)
  | rename
  | reopen
  deriving DecidableEq

structure Fs where
  files : FsPath → Option Inode
  /-- What is there and is not a file. -/
  dirs : FsPath → Bool

namespace Fs

variable (fs : Fs) (fail : Option FsCall)

/-- `try_exists().unwrap_or(true)`. -/
def tryExists (path : FsPath) : Bool :=
  decide (fail = some .tryExists) || (fs.files path).isSome || fs.dirs path

/-- The directories down to a path are there. -/
def makeDirs (path : FsPath) : Fs := { fs with dirs := fun q => fs.dirs q || decide (q <+: path) }

/-- `create_dir_all`, and whether it succeeds; it does not when there is a file in the way. -/
def createDirAll (path : FsPath) : Fs × Bool :=
  match fail with
  | some (.createDirAll made) => (fs.makeDirs (path.take made), false)
  | _ =>
    if path.inits.any fun q => (fs.files q).isSome then (fs, false) else (fs.makeDirs path, true)

/-- The file moved, over whatever there is. -/
def move (src dst : FsPath) (f : Inode) : Fs :=
  { fs with files := update (update fs.files src none) dst (some f) }

/-- `std::fs::rename`, of a file. -/
def rename (src dst : FsPath) : Option Fs :=
  if fail = some .rename then none else (fs.files src).map fun f => fs.move src dst f

/-- `OpenOptions::open`, of a file that should be there. -/
def openFile (path : FsPath) : Option Inode :=
  if fail = some .reopen then none else fs.files path

end Fs

/-- `OpenedFileLocked`; a file without a handle is padding, or not there. -/
structure OpenedFile where
  path : FsPath
  fd : Option Inode
  deriving DecidableEq

namespace OpenedFile

/-- `new_dummy`. -/
def newDummy : OpenedFile := ⟨[], none⟩

end OpenedFile

inductive RenameError where
  /-- `filesystem storage is read-only` -/
  | readOnly
  /-- `no such file` -/
  | noSuchFile
  /-- `file {path} is not under root {root}` -/
  | notUnderRoot (path root : FsPath)
  /-- `cannot move to {new_full}: destination already exists` -/
  | destinationExists (newFull : FsPath)
  /-- `error creating parent directory for {new_full}` -/
  | creatingParent (newFull : FsPath)
  /-- `error renaming {path} -> {new_full}` -/
  | renaming (path newFull : FsPath)
  /-- `error reopening {new_full} after rename` -/
  | reopening (newFull : FsPath)
  deriving DecidableEq

/-- `rename_locked`; `fail` is the call that fails, if one does. -/
def renameLocked (fs : Fs) (fail : Option FsCall) (g : OpenedFile) (newFull : FsPath) :
    Fs × OpenedFile × Except RenameError Unit :=
  if g.fd.isNone then (fs, { g with path := newFull }, .ok ())
  else if newFull = g.path then (fs, g, .ok ())
  else if fs.tryExists fail newFull then (fs, g, .error (.destinationExists newFull))
  else
    match fs.createDirAll fail newFull.dropLast with
    | (fs, false) => (fs, g, .error (.creatingParent newFull))
    | (fs, true) =>
      match fs.rename fail g.path newFull with
      | none => (fs, g, .error (.renaming g.path newFull))
      | some fs =>
        match fs.openFile fail newFull with
        | none => (fs, g, .error (.reopening newFull))
        | some f => (fs, ⟨newFull, some f⟩, .ok ())

/-! ## What a move does -/

namespace OpenedFile

/-- **Nothing is in the way** of the move of a file to another place. -/
structure Goes (fs : Fs) (g : OpenedFile) (newFull : FsPath) : Prop where
  isSome : g.fd.isSome = true
  ne : newFull ≠ g.path
  free : fs.tryExists none newFull = false
  parent : (fs.createDirAll none newFull.dropLast).2 = true
  there : (fs.files g.path).isSome = true

/-- The move goes through: there is no file to move, or it need not be moved, or nothing is in the
way and no call fails. -/
def Passes (fs : Fs) (fail : Option FsCall) (g : OpenedFile) (newFull : FsPath) : Prop :=
  g.fd = none ∨ newFull = g.path ∨ (g.Goes fs newFull ∧ fail = none)

/-- **The file is moved and cannot be opened again.** -/
def ReopenFails (fs : Fs) (fail : Option FsCall) (g : OpenedFile) (newFull : FsPath) : Prop :=
  g.Goes fs newFull ∧ fail = some .reopen

end OpenedFile

section Locked

variable (fs : Fs)

@[simp] lemma Fs.files_move_dst (src dst : FsPath) (f : Inode) :
    (fs.move src dst f).files dst = some f := by
  exact update_self ..

lemma Fs.files_move_src {src dst} (h : src ≠ dst) (f : Inode) :
    (fs.move src dst f).files src = none := by
  rw [move]
  dsimp only
  rw [update_of_ne h, update_self]

lemma Fs.files_move_of_ne {src dst p} (hsrc : p ≠ src) (hdst : p ≠ dst)
    (f : Inode) : (fs.move src dst f).files p = fs.files p := by
  rw [move]
  dsimp only
  rw [update_of_ne hdst, update_of_ne hsrc]

lemma Fs.files_createDirAll (fail : Option FsCall) (path : FsPath) :
    (fs.createDirAll fail path).1.files = fs.files := by
  unfold createDirAll
  split
  · rfl
  · split <;> rfl

lemma OpenedFile.Goes.files_eq_none {fs} {g : OpenedFile} {newFull}
    (h : g.Goes fs newFull) : fs.files newFull = none := by
  have hexists := h.free
  rw [Fs.tryExists, Bool.or_eq_false_iff, Bool.or_eq_false_iff] at hexists
  exact not_isSome_iff_eq_none.mp (Bool.eq_false_iff.mp hexists.1.2)

/-- **What `rename_locked` does.** -/
theorem renameLocked_cases (fail : Option FsCall) (g : OpenedFile) (newFull : FsPath) :
    (g.fd = none ∧ renameLocked fs fail g newFull = (fs, ⟨newFull, none⟩, .ok ())) ∨
    (g.fd.isSome = true ∧ newFull = g.path ∧ renameLocked fs fail g newFull = (fs, g, .ok ())) ∨
    (∃ f fs', g.Goes fs newFull ∧ fail = none ∧ fs.files g.path = some f ∧
      fs'.files = (fs.move g.path newFull f).files ∧
      renameLocked fs fail g newFull = (fs', ⟨newFull, some f⟩, .ok ())) ∨
    (∃ fs' e, ¬ g.Passes fs fail newFull ∧ ¬ g.ReopenFails fs fail newFull ∧
      fs'.files = fs.files ∧ renameLocked fs fail g newFull = (fs', g, .error e)) ∨
    (∃ f fs' e, g.ReopenFails fs fail newFull ∧ ¬ g.Passes fs fail newFull ∧
      fs.files g.path = some f ∧ fs'.files = (fs.move g.path newFull f).files ∧
      renameLocked fs fail g newFull = (fs', g, .error e)) := by
  rw [renameLocked]
  by_cases hnone : g.fd.isNone
  · rw [isNone_iff_eq_none.mp hnone]
    exact .inl ⟨rfl, rfl⟩
  rw [if_neg hnone]
  have hfd : g.fd ≠ none := fun h => hnone (isNone_iff_eq_none.mpr h)
  by_cases hsame : newFull = g.path
  · rw [if_pos hsame]
    exact .inr (.inl ⟨isSome_iff_ne_none.mpr hfd, hsame, rfl⟩)
  rw [if_neg hsame]
  -- something in the way, or a call that fails before the file is opened
  have hrefused : ∀ {fs' : Fs} {e : RenameError},
      (fail = none ∨ fail = some .reopen → ¬ g.Goes fs newFull) → fs'.files = fs.files →
      ∃ fs'' e', ¬ g.Passes fs fail newFull ∧ ¬ g.ReopenFails fs fail newFull ∧
        fs''.files = fs.files ∧ (fs', g, Except.error (α := Unit) e) = (fs'', g, .error e') := by
    intro fs' e hgoes hfiles
    refine ⟨fs', e, ?_, fun h => hgoes (.inr h.2) h.1, hfiles, rfl⟩
    rintro (h | h | ⟨h, hfail⟩)
    · exact hfd h
    · exact hsame h
    · exact hgoes (.inl hfail) h
  have hcalm : fail = none ∨ fail = some .reopen → fs.tryExists fail newFull
      = fs.tryExists none newFull ∧
      fs.createDirAll fail newFull.dropLast = fs.createDirAll none newFull.dropLast := by
    rintro (rfl | rfl) <;> exact ⟨rfl, rfl⟩
  split
  · next hexists =>
    refine .inr (.inr (.inr (.inl (hrefused (fun hfail hgoes => ?_) rfl))))
    rw [(hcalm hfail).1, hgoes.free] at hexists
    cases hexists
  · next hfree =>
    have hfiles := fs.files_createDirAll fail newFull.dropLast
    split
    · next fs' hparent =>
      rw [hparent] at hfiles
      refine .inr (.inr (.inr (.inl (hrefused (fun hfail hgoes => ?_) hfiles))))
      have hmade := hgoes.parent
      rw [← (hcalm hfail).2, hparent] at hmade
      cases hmade
    · next fs' hparent =>
      rw [hparent] at hfiles
      split
      · next hrename =>
        refine .inr (.inr (.inr (.inl (hrefused (fun hfail hgoes => ?_) hfiles))))
        have hthere := hgoes.there
        rw [Fs.rename, if_neg (by rcases hfail with rfl | rfl <;> decide), map_eq_none_iff,
          hfiles] at hrename
        rw [hrename] at hthere
        cases hthere
      · next fs'' hrename =>
        -- the file has moved
        have hnotRename : fail ≠ some .rename := by
          rintro rfl
          cases hrename
        rw [Fs.rename, if_neg hnotRename] at hrename
        obtain ⟨f, hf, rfl⟩ := map_eq_some_iff.mp hrename
        rw [hfiles] at hf
        have hmoved : (fs'.move g.path newFull f).files = (fs.move g.path newFull f).files := by
          rw [Fs.move, Fs.move, hfiles]
        have hgoes : fail = none ∨ fail = some .reopen → g.Goes fs newFull := by
          intro hfail
          obtain ⟨hexists, hmade⟩ := hcalm hfail
          refine ⟨isSome_iff_ne_none.mpr hfd, hsame, ?_, ?_, by rw [hf]; rfl⟩
          · rw [← hexists]
            exact Bool.eq_false_iff.mpr hfree
          · rw [← hmade, hparent]
        split
        · next hopen =>
          have hreopen : fail = some .reopen := by
            by_contra hne
            rw [Fs.openFile, if_neg hne, Fs.files_move_dst] at hopen
            cases hopen
          refine .inr (.inr (.inr (.inr ⟨f, _, _, ⟨hgoes (.inr hreopen), hreopen⟩, ?_, hf,
            hmoved, rfl⟩)))
          rintro (h | h | ⟨-, h⟩)
          · exact hfd h
          · exact hsame h
          · rw [hreopen] at h
            cases h
        · next f' hopen =>
          have hnone : fail = none := by
            rcases fail with - | - | made | - | -
            · rfl
            · exact absurd rfl hfree
            · cases hparent
            · exact absurd rfl hnotRename
            · cases hopen
          rw [Fs.openFile, if_neg (by rw [hnone]; decide), Fs.files_move_dst, Option.some.injEq]
            at hopen
          subst hopen
          exact .inr (.inr (.inl ⟨f, _, hgoes (.inl hnone), hnone, hf, hmoved, rfl⟩))

end Locked

/-! ## The files of a torrent -/

/-- The disk and the open files. -/
structure Files where
  fs : Fs
  opened : List OpenedFile

/-- One move: of which file, to where, and the call of it that fails. -/
structure Step where
  id : ℕ
  target : OpenedFile → Except RenameError FsPath
  fail : Option FsCall := none

namespace Files

/-- Moves one of the files. -/
def apply (s : Files) (step : Step) : Files × Except RenameError Unit :=
  match s.opened[step.id]? with
  | none => (s, .error .noSuchFile)
  | some of =>
    match step.target of with
    | .error e => (s, .error e)
    | .ok newFull =>
      let moved := renameLocked s.fs step.fail of newFull
      ({ fs := moved.1, opened := s.opened.set step.id moved.2.1 }, moved.2.2)

/-- There is a file of the torrent under the path, as far as the handles know. -/
def Holds (s : Files) (p : FsPath) : Prop :=
  ∃ (id : ℕ) (of : OpenedFile), s.opened[id]? = some of ∧ of.fd.isSome = true ∧ of.path = p

/-- **The handles are right**: each file is where its handle says, and no two are in one place. -/
structure Consistent (s : Files) : Prop where
  held : ∀ (id : ℕ) (of : OpenedFile), s.opened[id]? = some of → ∀ f, of.fd = some f →
    s.fs.files of.path = some f
  distinct : ∀ (i j : ℕ) (a b : OpenedFile), s.opened[i]? = some a → s.opened[j]? = some b →
    a.fd.isSome = true → b.fd.isSome = true → a.path = b.path → i = j

/-- There is no file under the path that is not the torrent's. -/
def Clear (s : Files) (p : FsPath) : Prop := ¬ s.Holds p → s.fs.files p = none

/-- **The files of the torrent may have moved, and nothing else**: the handles are right and are
those of the beginning, a file that is not the torrent's is one that was there, and none of these is
in the place of one of the torrent's. -/
structure Tracks (s₀ s : Files) : Prop extends s.Consistent where
  fd : ∀ id : ℕ, s.opened[id]?.map OpenedFile.fd = s₀.opened[id]?.map OpenedFile.fd
  rest : ∀ p, ¬ s.Holds p → ∀ f, s.fs.files p = some f ↔ ¬ s₀.Holds p ∧ s₀.fs.files p = some f
  clear : ∀ p, s.Holds p → s₀.Clear p

/-- **There is a file no handle knows of** that was not there in the beginning. -/
def Stray (s₀ s : Files) : Prop := ∃ p, (s.fs.files p).isSome = true ∧ ¬ s.Holds p ∧ s₀.Clear p

/-- **Every file is back**: the disk holds the files it held, and the handles are the same. -/
structure Restored (s₀ s : Files) : Prop where
  files : s.fs.files = s₀.fs.files
  opened : ∀ (id : ℕ) (of : OpenedFile), of.fd.isSome = true →
    (s.opened[id]? = some of ↔ s₀.opened[id]? = some of)

/-- The move of a step goes through. -/
def Passes (s : Files) (step : Step) : Prop :=
  ∃ of newFull, s.opened[step.id]? = some of ∧ step.target of = .ok newFull ∧
    of.Passes s.fs step.fail newFull

/-- The step moves its file, which then cannot be opened again. -/
def ReopenFails (s : Files) (step : Step) : Prop :=
  ∃ of newFull, s.opened[step.id]? = some of ∧ step.target of = .ok newFull ∧
    of.ReopenFails s.fs step.fail newFull

/-- **The first step that does not go through fails to open its file again.** -/
def StopsAtReopen : Files → List (Step × Step) → Prop
  | _, [] => False
  | s, (a, _) :: rest => s.ReopenFails a ∨ (s.Passes a ∧ StopsAtReopen (s.apply a).1 rest)

section Apply

variable {s₀ s s' : Files} {step : Step} {e : RenameError}

lemma Consistent.tracks (h : s.Consistent) : s.Tracks s where
  held := h.held
  distinct := h.distinct
  fd _ := rfl
  rest _ hp _ := ⟨fun hf => ⟨hp, hf⟩, And.right⟩
  clear _ hp hnot := absurd hp hnot

lemma set_self {l : List OpenedFile} {i a} (h : l[i]? = some a) :
    l.set i a = l := by
  obtain ⟨hi, rfl⟩ := List.getElem?_eq_some_iff.mp h
  exact set_getElem_self hi

/-- The file and the target of a step are there once. -/
lemma exists_step_iff {of newFull} (hof : s.opened[step.id]? = some of)
    (htarget : step.target of = .ok newFull) {P : OpenedFile → FsPath → Prop} :
    (∃ of newFull, s.opened[step.id]? = some of ∧ step.target of = .ok newFull ∧ P of newFull) ↔
      P of newFull := by
  refine ⟨?_, fun h => ⟨of, newFull, hof, htarget, h⟩⟩
  rintro ⟨of', newFull', hof', htarget', h⟩
  cases hof.symm.trans hof'
  obtain rfl : newFull = newFull' := Except.ok.inj (htarget.symm.trans htarget')
  exact h

/-- **What a step does**: it goes through, or it changes nothing but directories, or it moves its
file and leaves the handle as it was. -/
theorem apply_cases (s : Files) (step : Step) :
    (∃ of newFull s', s.apply step = (s', .ok ()) ∧ s.opened[step.id]? = some of ∧
      step.target of = .ok newFull ∧ s.Passes step ∧
      ((of.fd = none ∨ newFull = of.path) ∧ s'.fs.files = s.fs.files ∧
          s'.opened = s.opened.set step.id ⟨newFull, of.fd⟩ ∨
        ∃ f, of.Goes s.fs newFull ∧ s.fs.files of.path = some f ∧
          s'.fs.files = (s.fs.move of.path newFull f).files ∧
          s'.opened = s.opened.set step.id ⟨newFull, some f⟩)) ∨
    (∃ s' e, s.apply step = (s', .error e) ∧ ¬ s.Passes step ∧ ¬ s.ReopenFails step ∧
      s'.fs.files = s.fs.files ∧ s'.opened = s.opened) ∨
    (∃ of newFull f s' e, s.apply step = (s', .error e) ∧ s.opened[step.id]? = some of ∧
      s.ReopenFails step ∧ ¬ s.Passes step ∧ of.Goes s.fs newFull ∧ s.fs.files of.path = some f ∧
      s'.fs.files = (s.fs.move of.path newFull f).files ∧ s'.opened = s.opened) := by
  rw [apply]
  cases hof : s.opened[step.id]? with
  | none =>
    refine .inr (.inl ⟨s, _, rfl, ?_, ?_, rfl, rfl⟩) <;>
    · rintro ⟨of, newFull, hof', -⟩
      rw [hof] at hof'
      cases hof'
  | some of =>
    dsimp only
    cases htarget : step.target of with
    | error e =>
      refine .inr (.inl ⟨s, _, rfl, ?_, ?_, rfl, rfl⟩) <;>
      · rintro ⟨of', newFull, hof', htarget', -⟩
        rw [hof, Option.some.injEq] at hof'
        rw [← hof', htarget] at htarget'
        cases htarget'
    | ok newFull =>
      have hpasses : s.Passes step ↔ of.Passes s.fs step.fail newFull := exists_step_iff hof htarget
      have hreopen : s.ReopenFails step ↔ of.ReopenFails s.fs step.fail newFull :=
        exists_step_iff hof htarget
      dsimp only
      rcases renameLocked_cases s.fs step.fail of newFull with ⟨hnone, hlocked⟩ |
        ⟨hsome, hsame, hlocked⟩ | ⟨f, fs', hgoes, hfail, hf, hfs, hlocked⟩ |
        ⟨fs', e, hnot, hnotReopen, hfs, hlocked⟩ | ⟨f, fs', e, hfails, hnot, hf, hfs, hlocked⟩
      · rw [hlocked, hpasses]
        refine .inl ⟨of, newFull, _, rfl, rfl, htarget, .inl hnone, .inl ⟨.inl hnone, rfl, ?_⟩⟩
        rw [hnone]
      · rw [hlocked, hpasses]
        refine .inl ⟨of, newFull, _, rfl, rfl, htarget, .inr (.inl hsame),
          .inl ⟨.inr hsame, rfl, ?_⟩⟩
        rw [hsame]
      · rw [hlocked, hpasses]
        exact .inl ⟨of, newFull, _, rfl, rfl, htarget, .inr (.inr ⟨hgoes, hfail⟩),
          .inr ⟨f, hgoes, hf, hfs, rfl⟩⟩
      · rw [hlocked, hpasses, hreopen, set_self hof]
        exact .inr (.inl ⟨_, e, rfl, hnot, hnotReopen, hfs, rfl⟩)
      · rw [hlocked, hpasses, hreopen, set_self hof]
        exact Or.inr (Or.inr ⟨of, newFull, f, _, e, rfl, rfl, hfails, hnot, hfails.1, hf, hfs, rfl⟩)

end Apply

/-! ## Where the files are -/

section Moves

variable {s₀ s s' : Files} {step : Step} {e : RenameError}

/-- An entry after one was replaced. -/
lemma getElem?_set_cases {l : List OpenedFile} {i j x y}
    (h : (l.set i x)[j]? = some y) : (j ≠ i ∧ l[j]? = some y) ∨ (j = i ∧ y = x) := by
  rcases eq_or_ne j i with rfl | hne
  · rcases Machinery.getElem?_set_cases h with hj | hj
    · exact Or.inr ⟨rfl, by rw [getElem?_set_self (List.getElem?_eq_some_iff.mp hj).1] at h
                            exact (Option.some.inj h).symm⟩
    · exact Or.inr hj
  · rw [getElem?_set_ne hne.symm] at h
    exact Or.inl ⟨hne, h⟩

/-- What is held depends on the files with a handle. -/
lemma holds_congr (hreal : ∀ (j : ℕ) (a : OpenedFile), a.fd.isSome →
      (s'.opened[j]? = some a ↔ s.opened[j]? = some a)) (p : FsPath) : s'.Holds p ↔ s.Holds p :=
  exists_congr fun j => exists_congr fun a =>
    ⟨fun ⟨hj, ha, hp⟩ => ⟨(hreal j a ha).mp hj, ha, hp⟩,
      fun ⟨hj, ha, hp⟩ => ⟨(hreal j a ha).mpr hj, ha, hp⟩⟩

section

variable (h : s₀.Tracks s)
include h

/-- …and so does whether they are tracked. -/
lemma Tracks.congr (hfiles : s'.fs.files = s.fs.files)
    (hfd : ∀ j : ℕ, s'.opened[j]?.map OpenedFile.fd = s.opened[j]?.map OpenedFile.fd)
    (hreal : ∀ (j : ℕ) (a : OpenedFile), a.fd.isSome →
      (s'.opened[j]? = some a ↔ s.opened[j]? = some a)) :
    s₀.Tracks s' := by
  refine ⟨⟨fun j a hj f hf => ?_, fun i j a b hi hj ha hb hpath => ?_⟩,
    fun j => (hfd j).trans (h.fd j), fun p hp f => ?_,
    fun p hp => h.clear p ((holds_congr hreal p).mp hp)⟩
  · rw [hfiles]
    exact h.held j a ((hreal j a (by rw [hf]; rfl)).mp hj) f hf
  · exact h.distinct i j a b ((hreal i a ha).mp hi) ((hreal j b hb).mp hj) ha hb hpath
  · rw [hfiles]
    exact h.rest p (mt (holds_congr hreal p).mpr hp) f

/-- Nothing has changed but directories. -/
lemma Tracks.of_eq (hfiles : s'.fs.files = s.fs.files) (hopened : s'.opened = s.opened) :
    s₀.Tracks s' :=
  h.congr hfiles (fun j => by rw [hopened]) fun j a _ => by rw [hopened]

/-- A file without a handle gets another path. -/
lemma Tracks.set_dummy {id of} (hof : s.opened[id]? = some of)
    (hnone : of.fd = none) (newFull : FsPath) (hfiles : s'.fs.files = s.fs.files)
    (hopened : s'.opened = s.opened.set id ⟨newFull, none⟩) :
    s₀.Tracks s' := by
  have hid : s'.opened[id]? = some ⟨newFull, none⟩ := by
    rw [hopened, getElem?_set_self (List.getElem?_eq_some_iff.mp hof).1]
  refine h.congr hfiles (fun j => ?_) fun j a ha => ?_
  · rcases eq_or_ne j id with rfl | hne
    · rw [hid, hof, map_some, map_some, hnone]
    · rw [hopened, getElem?_set_ne hne.symm]
  rcases eq_or_ne j id with rfl | hne
  · rw [hid, hof, Option.some.injEq, Option.some.injEq]
    constructor
    · rintro rfl
      cases ha
    · rintro rfl
      rw [hnone] at ha
      cases ha
  · rw [hopened, getElem?_set_ne hne.symm]

/-- A place that is free now held no file but the torrent's. -/
lemma Tracks.clear_of_free {p} (hfree : s.fs.files p = none) : s₀.Clear p := by
  by_cases hholds : s.Holds p
  · exact h.clear p hholds
  intro hnot
  cases hrest : s₀.fs.files p with
  | none => rfl
  | some f =>
    have hthere := (h.rest p hholds f).mpr ⟨hnot, hrest⟩
    rw [hfree] at hthere
    cases hthere

/-- **A file is moved to a free place, and its handle with it.** -/
theorem Tracks.set_moved {id of newFull f}
    (hof : s.opened[id]? = some of) (hfd : of.fd = some f) (hfree : s.fs.files newFull = none)
    (hfiles : s'.fs.files = (s.fs.move of.path newFull f).files)
    (hopened : s'.opened = s.opened.set id ⟨newFull, some f⟩) : s₀.Tracks s' := by
  have hid := (List.getElem?_eq_some_iff.mp hof).1
  have hnew : s'.opened[id]? = some ⟨newFull, some f⟩ := by
    rw [hopened, getElem?_set_self hid]
  have hentry : ∀ {j a}, s'.opened[j]? = some a →
      (j ≠ id ∧ s.opened[j]? = some a) ∨ (j = id ∧ a = ⟨newFull, some f⟩) := by
    intro j a hj
    rw [hopened] at hj
    exact getElem?_set_cases hj
  -- the other files of the torrent are elsewhere
  have hother : ∀ {j a}, j ≠ id → s.opened[j]? = some a → a.fd.isSome →
      a.path ≠ of.path ∧ a.path ≠ newFull := by
    intro j a hj ha hsome
    obtain ⟨f', hf'⟩ := isSome_iff_exists.mp hsome
    refine ⟨fun hpath => hj (h.distinct j id a of ha hof hsome (by rw [hfd]; rfl) hpath), ?_⟩
    rintro hpath
    have hheld := h.held j a ha f' hf'
    rw [hpath, hfree] at hheld
    cases hheld
  have hclear : s₀.Clear newFull := h.clear_of_free hfree
  refine ⟨⟨fun j a hj f' hf' => ?_, fun i j a b hi hj ha hb hpath => ?_⟩, fun j => ?_,
    fun p hp f' => ?_, fun p hp => ?_⟩
  · rw [hfiles]
    rcases hentry hj with ⟨hjid, ha⟩ | ⟨-, rfl⟩
    · obtain ⟨hsrc, hdst⟩ := hother hjid ha (by rw [hf']; rfl)
      rw [Fs.files_move_of_ne _ hsrc hdst]
      exact h.held j a ha f' hf'
    · rw [Fs.files_move_dst]
      exact hf'
  · rcases hentry hi with ⟨hiid, hi⟩ | ⟨rfl, rfl⟩
    · rcases hentry hj with ⟨hjid, hj⟩ | ⟨rfl, rfl⟩
      · exact h.distinct i j a b hi hj ha hb hpath
      · exact absurd hpath (hother hiid hi ha).2
    · rcases hentry hj with ⟨hjid, hj⟩ | ⟨rfl, rfl⟩
      · exact absurd hpath.symm (hother hjid hj hb).2
      · rfl
  · rw [← h.fd j]
    rcases eq_or_ne j id with rfl | hjid
    · rw [hnew, hof, map_some, map_some, hfd]
    · rw [hopened, getElem?_set_ne hjid.symm]
  · have hdst : p ≠ newFull := fun hpath => hp ⟨id, _, hnew, rfl, hpath.symm⟩
    rw [hfiles]
    rcases eq_or_ne p of.path with rfl | hsrc
    · -- the old place is free now, and there was no other file
      rw [Fs.files_move_src _ hdst]
      refine iff_of_false nofun fun ⟨hnot, hthere⟩ => ?_
      have hcleared := h.clear of.path ⟨id, of, hof, by rw [hfd]; rfl, rfl⟩ hnot
      rw [hcleared] at hthere
      cases hthere
    · rw [Fs.files_move_of_ne _ hsrc hdst]
      refine h.rest p ?_ f'
      rintro ⟨j, a, ha, hsome, rfl⟩
      rcases eq_or_ne j id with rfl | hjid
      · rw [hof, Option.some.injEq] at ha
        exact hsrc (congrArg OpenedFile.path ha.symm)
      · refine hp ⟨j, a, ?_, hsome, rfl⟩
        rw [hopened, getElem?_set_ne hjid.symm]
        exact ha
  · obtain ⟨j, a, hj, hsome, rfl⟩ := hp
    rcases hentry hj with ⟨-, ha⟩ | ⟨-, rfl⟩
    · exact h.clear a.path ⟨j, a, ha, hsome, rfl⟩
    · exact hclear

/-- **A step that goes through keeps track of the files.** -/
theorem Tracks.apply_ok (hstep : s.apply step = (s', .ok ())) :
    s₀.Tracks s' ∧ ∃ of newFull, s.opened[step.id]? = some of ∧ step.target of = .ok newFull ∧
      s'.opened = s.opened.set step.id ⟨newFull, of.fd⟩ := by
  rcases s.apply_cases step with ⟨of, newFull, t, ht, hof, htarget, -, hmove⟩ |
    ⟨t, e, ht, -⟩ | ⟨of, newFull, f, t, e, ht, -⟩
  · obtain rfl : t = s' := (Prod.mk.inj (ht.symm.trans hstep)).1
    rcases hmove with ⟨hstay, hfiles, hopened⟩ | ⟨f, hgoes, hf, hfiles, hopened⟩
    · refine ⟨?_, of, newFull, hof, htarget, hopened⟩
      rcases hstay with hnone | hsame
      · rw [hnone] at hopened
        exact h.set_dummy hof hnone newFull hfiles hopened
      · rw [hsame, set_self hof] at hopened
        exact h.of_eq hfiles hopened
    · obtain ⟨f', hf'⟩ := isSome_iff_exists.mp hgoes.isSome
      cases (h.held _ of hof f' hf').symm.trans hf
      refine ⟨h.set_moved hof hf' hgoes.files_eq_none hfiles hopened, of, newFull, hof, htarget, ?_⟩
      rw [hf']
      exact hopened
  · cases ht.symm.trans hstep
  · cases ht.symm.trans hstep

/-- **A step that fails leaves the files tracked**, unless the file cannot be opened again. -/
theorem Tracks.apply_error (hstep : s.apply step = (s', .error e)) :
    ¬ s.Passes step ∧ (s.ReopenFails step ∧ s₀.Stray s' ∨ ¬ s.ReopenFails step ∧ s₀.Tracks s' ∧
      s'.opened = s.opened) := by
  rcases s.apply_cases step with ⟨of, newFull, t, ht, -⟩ |
    ⟨t, e', ht, hnot, hreopen, hfiles, hopened⟩ |
    ⟨of, newFull, f, t, e', ht, hof, hreopen, hnot, hgoes, hf, hfiles, hopened⟩
  · cases ht.symm.trans hstep
  · obtain rfl : t = s' := (Prod.mk.inj (ht.symm.trans hstep)).1
    exact ⟨hnot, .inr ⟨hreopen, h.of_eq hfiles hopened, hopened⟩⟩
  · obtain rfl : t = s' := (Prod.mk.inj (ht.symm.trans hstep)).1
    refine ⟨hnot, .inl ⟨hreopen, newFull, ?_, ?_, h.clear_of_free hgoes.files_eq_none⟩⟩
    · rw [hfiles, Fs.files_move_dst]
      rfl
    -- no handle has the new path, as there was no file under it
    rintro ⟨j, a, hj, hsome, hpath⟩
    rw [hopened] at hj
    obtain ⟨f', hf'⟩ := isSome_iff_exists.mp hsome
    have hheld := h.held j a hj f' hf'
    rw [hpath, hgoes.files_eq_none] at hheld
    cases hheld

end

/-- **A stray file stays where it is**, whatever goes through. -/
theorem Stray.apply_ok (h : s₀.Stray s) (hstep : s.apply step = (s', .ok ())) : s₀.Stray s' := by
  obtain ⟨p, hthere, hnot, hclear⟩ := h
  rcases s.apply_cases step with ⟨of, newFull, t, ht, hof, -, -, hmove⟩ | ⟨t, e', ht, -⟩ |
    ⟨of, newFull, f, t, e', ht, -⟩
  · obtain rfl : t = s' := (Prod.mk.inj (ht.symm.trans hstep)).1
    rcases hmove with ⟨hstay, hfiles, hopened⟩ | ⟨f, hgoes, -, hfiles, hopened⟩
    · refine ⟨p, by rw [hfiles]; exact hthere, ?_, hclear⟩
      rintro ⟨j, a, hj, hsome, hpath⟩
      rw [hopened] at hj
      rcases getElem?_set_cases hj with ⟨-, hj⟩ | ⟨rfl, rfl⟩
      · exact hnot ⟨j, a, hj, hsome, hpath⟩
      rcases hstay with hnone | hsame
      · rw [hnone] at hsome
        cases hsome
      · exact hnot ⟨_, of, hof, hsome, hsame.symm.trans hpath⟩
    · have hsrc : p ≠ of.path := fun hpath => hnot ⟨_, of, hof, hgoes.isSome, hpath.symm⟩
      have hdst : p ≠ newFull := by
        rintro rfl
        rw [hgoes.files_eq_none] at hthere
        cases hthere
      refine ⟨p, by rw [hfiles, Fs.files_move_of_ne _ hsrc hdst]; exact hthere, ?_, hclear⟩
      rintro ⟨j, a, hj, hsome, hpath⟩
      rw [hopened] at hj
      rcases getElem?_set_cases hj with ⟨-, hj⟩ | ⟨rfl, rfl⟩
      · exact hnot ⟨j, a, hj, hsome, hpath⟩
      · exact hdst hpath.symm
  · cases ht.symm.trans hstep
  · cases ht.symm.trans hstep

/-- **With a stray file not every file is back.** -/
theorem Stray.not_restored (h : s₀.Stray s) : ¬ s₀.Restored s := by
  obtain ⟨p, hthere, hnot, hclear⟩ := h
  intro hrestored
  rw [hrestored.files, hclear (mt (holds_congr hrestored.opened p).mpr hnot)] at hthere
  cases hthere

/-- **Handles that are back mean files that are back.** -/
theorem Tracks.restored (h : s₀.Tracks s) (h₀ : s₀.Consistent)
    (hhome : ∀ (id : ℕ) (of₀ : OpenedFile), s₀.opened[id]? = some of₀ → of₀.fd.isSome →
      s.opened[id]?.map OpenedFile.path = some of₀.path) : s₀.Restored s := by
  -- an entry with a handle is the same in both
  have hopened : ∀ (id : ℕ) (of : OpenedFile), of.fd.isSome →
      (s.opened[id]? = some of ↔ s₀.opened[id]? = some of) := by
    intro id of hsome
    have hfd := h.fd id
    constructor
    · intro hof
      rw [hof] at hfd
      obtain ⟨of₀, hof₀, hfd₀⟩ := map_eq_some_iff.mp hfd.symm
      have hpath := hhome id of₀ hof₀ (by rw [hfd₀]; exact hsome)
      rw [hof, map_some, Option.some.injEq] at hpath
      rw [hof₀, Option.some.injEq]
      cases of₀
      cases of
      exact congrArg₂ OpenedFile.mk hpath.symm hfd₀
    · intro hof₀
      obtain ⟨of', hof', hpath⟩ := map_eq_some_iff.mp (hhome id of hof₀ hsome)
      rw [hof', hof₀, map_some, map_some, Option.some.injEq] at hfd
      rw [hof', Option.some.injEq]
      cases of
      cases of'
      exact congrArg₂ OpenedFile.mk hpath hfd
  refine ⟨funext fun p => ?_, hopened⟩
  by_cases hholds : s₀.Holds p
  · obtain ⟨id, of, hof, hsome, rfl⟩ := hholds
    obtain ⟨f, hf⟩ := isSome_iff_exists.mp hsome
    exact (h.held id of ((hopened id of hsome).mpr hof) f hf).trans (h₀.held id of hof f hf).symm
  · have hnot : ¬ s.Holds p := mt (holds_congr hopened p).mp hholds
    refine Option.ext fun f => (h.rest p hnot f).trans ?_
    exact and_iff_right hholds

end Moves

/-! ## The way back -/

section Undo

variable {s₀ s s' : Files} {step : Step} {undo : List Step}

/-- The step takes its file home from anywhere, if it has a handle. -/
def Returns (s₀ : Files) (b : Step) : Prop :=
  ∀ of₀, s₀.opened[b.id]? = some of₀ → of₀.fd.isSome = true → ∀ of, b.target of = .ok of₀.path

/-- **The steps back lead home**: a file that none of them moves is at home, each of them takes its
file home from where it is, and a second step for the same file does so from anywhere. -/
structure Undoable (s₀ s : Files) (undo : List Step) : Prop where
  tracks : s₀.Tracks s
  home : ∀ (id : ℕ) (of₀ : OpenedFile), s₀.opened[id]? = some of₀ → of₀.fd.isSome = true →
    (∀ b ∈ undo, b.id ≠ id) → s.opened[id]?.map OpenedFile.path = some of₀.path
  returns : ∀ b ∈ undo, ∀ of of₀, s.opened[b.id]? = some of → s₀.opened[b.id]? = some of₀ →
    of₀.fd.isSome = true → b.target of = .ok of₀.path
  again : undo.Pairwise fun a b => a.id = b.id → s₀.Returns b

lemma Consistent.undoable (h : s₀.Consistent) : s₀.Undoable s₀ [] where
  tracks := h.tracks
  home id of₀ hof₀ _ _ := by rw [hof₀, map_some]
  returns b hb := absurd hb not_mem_nil
  again := .nil

/-- One step back. -/
lemma Undoable.back {b} (h : s₀.Undoable s (b :: undo))
    (hstep : s.apply b = (s', .ok ())) : s₀.Undoable s' undo := by
  obtain ⟨htracks, of, newFull, hof, htarget, hopened⟩ := h.tracks.apply_ok hstep
  obtain ⟨hagain, hrest⟩ := pairwise_cons.mp h.again
  have hid := (List.getElem?_eq_some_iff.mp hof).1
  refine ⟨htracks, fun id of₀ hof₀ hsome hnone => ?_, fun c hc ofc of₀ hofc hof₀ hsome => ?_, hrest⟩
  · rw [hopened]
    rcases eq_or_ne id b.id with rfl | hne
    · have hhome := h.returns b mem_cons_self of of₀ hof hof₀ hsome
      rw [htarget, Except.ok.injEq] at hhome
      rw [getElem?_set_self hid, map_some, hhome]
    rw [getElem?_set_ne hne.symm]
    refine h.home id of₀ hof₀ hsome fun c hc => ?_
    rcases mem_cons.mp hc with rfl | hc
    · exact hne.symm
    · exact hnone c hc
  · rw [hopened] at hofc
    rcases eq_or_ne b.id c.id with heq | hne
    · exact hagain c hc heq of₀ hof₀ hsome ofc
    · rw [getElem?_set_ne hne] at hofc
      exact h.returns c (mem_cons_of_mem b hc) ofc of₀ hofc hof₀ hsome

lemma Undoable.restored (h : s₀.Undoable s []) (h₀ : s₀.Consistent) : s₀.Restored s :=
  h.tracks.restored h₀ fun id of₀ hof₀ hsome => h.home id of₀ hof₀ hsome nofun

/-- One step forward, with the step back that goes with it. -/
lemma Undoable.forward {a b} (h : s₀.Undoable s undo) (hstep : s.apply a = (s', .ok ()))
    (hid : b.id = a.id)
    (hreturns : ∀ of₀ of newFull, s₀.opened[a.id]? = some of₀ → of₀.fd.isSome →
      s.opened[a.id]? = some of → a.target of = .ok newFull →
      b.target ⟨newFull, of.fd⟩ = .ok of₀.path)
    (hagain : ∀ c ∈ undo, c.id = a.id → s₀.Returns c) : s₀.Undoable s' (b :: undo) := by
  obtain ⟨htracks, of, newFull, hof, htarget, hopened⟩ := h.tracks.apply_ok hstep
  have hlt := (List.getElem?_eq_some_iff.mp hof).1
  refine ⟨htracks, fun id of₀ hof₀ hsome hnone => ?_, fun c hc ofc of₀ hofc hof₀ hsome => ?_,
    pairwise_cons.mpr ⟨fun c hc heq => hagain c hc (heq.symm.trans hid), h.again⟩⟩
  · have hne : a.id ≠ id := hid ▸ hnone b mem_cons_self
    rw [hopened, getElem?_set_ne hne]
    exact h.home id of₀ hof₀ hsome fun c hc => hnone c (mem_cons_of_mem b hc)
  rw [hopened] at hofc
  rcases mem_cons.mp hc with rfl | hc
  · rw [hid] at hofc hof₀
    rw [getElem?_set_self hlt, Option.some.injEq] at hofc
    exact hofc ▸ hreturns of₀ of newFull hof₀ hsome hof htarget
  rcases eq_or_ne a.id c.id with heq | hne
  · exact hagain c hc heq.symm of₀ hof₀ hsome ofc
  · rw [getElem?_set_ne hne] at hofc
    exact h.returns c hc ofc of₀ hofc hof₀ hsome

end Undo

/-! ## Steps that are taken back -/

section Attempt

variable {s₀ s : Files} {steps : List (Step × Step)}

lemma not_reopenFails_of_passes {a} (h : s.Passes a) : ¬ s.ReopenFails a := by
  obtain ⟨of, newFull, hof, htarget, hpass⟩ := h
  rw [ReopenFails, exists_step_iff hof htarget]
  rintro ⟨hgoes, hfail⟩
  rcases hpass with hnone | hsame | ⟨-, hnone⟩
  · have hsome := hgoes.isSome
    rw [hnone] at hsome
    cases hsome
  · exact hgoes.ne hsame
  · rw [hnone] at hfail
    cases hfail

lemma passes_of_apply_ok {a s'} (h : s.apply a = (s', .ok ())) : s.Passes a := by
  rcases s.apply_cases a with ⟨of, newFull, t, ht, -, -, hpasses, -⟩ | ⟨t, e, ht, -⟩ |
    ⟨of, newFull, f, t, e, ht, -⟩
  · exact hpasses
  · cases ht.symm.trans h
  · cases ht.symm.trans h

/-- A step that succeeds leaves open whether the steps stop at one that does not reopen. -/
lemma stopsAtReopen_iff_of_ok {a b s'} (h : s.apply a = (s', .ok ())) :
    s.StopsAtReopen ((a, b) :: steps) ↔ s'.StopsAtReopen steps := by
  have hpasses := passes_of_apply_ok h
  rw [StopsAtReopen, h]
  constructor
  · rintro (hreopen | ⟨-, hrest⟩)
    · exact absurd hreopen (not_reopenFails_of_passes hpasses)
    · exact hrest
  · exact fun hrest => .inr ⟨hpasses, hrest⟩

/-- `I` is kept on the way forward, and says what the steps back do. -/
structure Way (s₀ : Files) (I : Files → List Step → List (Step × Step) → Prop) : Prop where
  undoable : ∀ s undo rest, I s undo rest → s₀.Undoable s undo
  forward : ∀ s undo a b rest s', I s undo ((a, b) :: rest) → s.apply a = (s', .ok ()) →
    I s' (b :: undo) rest

variable {I : Files → List Step → List (Step × Step) → Prop} (hway : s₀.Way I)
include hway

/-- **A file that was moved and not opened again stays behind.** -/
theorem Way.stray (hs : I s₀ [] steps) (hstops : s₀.StopsAtReopen steps)
    (hback : (attempt Files.apply s₀ [] steps).2.2) :
    ∃ e, (attempt Files.apply s₀ [] steps).2.1 = .error e ∧
      s₀.Stray (attempt Files.apply s₀ [] steps).1 := by
  have hfail : ∀ s undo a b rest s' e,
      I s undo ((a, b) :: rest) ∧ s.StopsAtReopen ((a, b) :: rest) →
      s.apply a = (s', .error e) → s₀.Stray s' := by
    rintro s undo a b rest s' e ⟨hI, hstop⟩ happly
    obtain ⟨hnot, hcase⟩ := (hway.undoable s undo _ hI).tracks.apply_error happly
    have hreopen := hstop.resolve_right fun h => hnot h.1
    exact (hcase.resolve_right fun h => h.1 hreopen).2
  rcases attempt_rule (I := fun s undo rest => I s undo rest ∧ s.StopsAtReopen rest)
      (fun s undo a b rest s' h happly => ⟨hway.forward s undo a b rest s' h.1 happly,
        (stopsAtReopen_iff_of_ok happly).mp h.2⟩)
      hfail (fun s b undo s' hK happly => hK.apply_ok happly)
      ⟨hs, hstops⟩ with ⟨s', undo', -, -, hfalse⟩ | ⟨s', e, back, hresult, hK⟩
  · exact hfalse.elim
  · rw [hresult] at hback ⊢
    exact ⟨e, rfl, hK hback⟩

/-- **After any other failure every file is back.** -/
theorem Way.restored (h₀ : s₀.Consistent) (hs : I s₀ [] steps)
    (hstops : ¬ s₀.StopsAtReopen steps) (hback : (attempt Files.apply s₀ [] steps).2.2)
    {e} (he : (attempt Files.apply s₀ [] steps).2.1 = .error e) :
    s₀.Restored (attempt Files.apply s₀ [] steps).1 := by
  have hfail : ∀ s undo a b rest s' e,
      I s undo ((a, b) :: rest) ∧ ¬ s.StopsAtReopen ((a, b) :: rest) → s.apply a = (s', .error e) →
      s₀.Undoable s' undo := by
    rintro s undo a b rest s' e ⟨hI, hnot⟩ happly
    have hundoable := hway.undoable s undo _ hI
    obtain ⟨-, hcase⟩ := hundoable.tracks.apply_error happly
    obtain ⟨-, htracks, hopened⟩ := hcase.resolve_left fun h => hnot (.inl h.1)
    exact ⟨htracks, hopened ▸ hundoable.home, hopened ▸ hundoable.returns, hundoable.again⟩
  rcases attempt_rule (I := fun s undo rest => I s undo rest ∧ ¬ s.StopsAtReopen rest)
      (fun s undo a b rest s' h happly => ⟨hway.forward s undo a b rest s' h.1 happly,
        fun hrest => h.2 ((stopsAtReopen_iff_of_ok happly).mpr hrest)⟩)
      hfail (fun s b undo s' hK happly => hK.back happly) ⟨hs, hstops⟩
    with ⟨s', undo', hresult, -⟩ | ⟨s', e', back, hresult, hK⟩
  · rw [hresult] at he
    cases he
  · rw [hresult] at hback ⊢
    exact (hK hback).restored h₀

/-- **When everything is back after a failure**: with steps back that lead home and all succeed,
exactly when the step that failed did not move its file. -/
theorem Way.restored_iff (h₀ : s₀.Consistent) (hs : I s₀ [] steps)
    (hback : (attempt Files.apply s₀ [] steps).2.2) :
    (∀ e, (attempt Files.apply s₀ [] steps).2.1 = .error e →
      s₀.Restored (attempt Files.apply s₀ [] steps).1) ↔ ¬ s₀.StopsAtReopen steps := by
  refine ⟨fun hall hstops => ?_, fun hstops e he => hway.restored h₀ hs hstops hback he⟩
  obtain ⟨e, he, hstray⟩ := hway.stray hs hstops hback
  exact hstray.not_restored (hall e he)

/-- **What holds when nothing failed.** -/
theorem Way.of_ok (hs : I s₀ [] steps) (hok : (attempt Files.apply s₀ [] steps).2.1 = .ok ()) :
    ∃ undo, I (attempt Files.apply s₀ [] steps).1 undo [] := by
  rcases attempt_rule hway.forward
      (fun _ _ _ _ _ _ _ _ _ => trivial) (fun _ _ _ _ _ _ => trivial) hs
    with ⟨s', undo', hresult, hI⟩ | ⟨s', e, back, hresult, -⟩
  · rw [hresult]
    exact ⟨undo', hI⟩
  · rw [hresult] at hok
    cases hok

end Attempt

end Files

end Librtbit
