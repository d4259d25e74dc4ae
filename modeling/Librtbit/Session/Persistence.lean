import Librtbit.Session.Entries

/-!
# Session/Persistence — what is stored of deleted torrents

The store enters a torrent under its id whenever it is told to, and does not ask whether the session
still has the torrent.  So a call that stores the settings of a torrent can come after the deletion,
and enter the torrent again, or enter it over another that got its id since.  The files of a torrent
are removed last, when its info hash may have been added again.  And where `session.json` cannot be
written, an add that fails leaves its torrent among those that the next write stores.

* `State.persisted_of_orderly` — none of this happens in a run in which torrents are stored while
  the session has them, are added while neither a delete nor the store has their id or their info
  hash, and are written whenever the result of an add or a delete depends on it.
-/

namespace Librtbit.Session

open Machinery List Option

variable {H M : Type} [DecidableEq H]

/-! ## Calls under way -/

namespace UpdateDb

/-- What is going to be entered. -/
def entry : UpdateDb H M → Option (SerializedTorrent H M)
  | .start => none
  | .writingTorrentFile st | .inserting st | .flushing st => some st

/-- It has the info hash of the torrent. -/
def Fine (torrent : Handle H) (phase : UpdateDb H M) : Prop :=
  ∀ st ∈ phase.entry, st.infoHash = torrent.infoHash

variable (store : JsonStore H M) (settings : M) (writeTorrentFile success : Bool)
  {torrent : Handle H} {phase : UpdateDb H M}

/-- **What a step of `update_db` does to the entries.** -/
theorem next_cases (hfine : phase.Fine torrent) :
    (phase.next store torrent settings writeTorrentFile success).1.dbContent = store.dbContent ∧
        (phase.next store torrent settings writeTorrentFile success).1.disk = store.disk ∨
      (∃ st, phase = .inserting st ∧ st.infoHash = torrent.infoHash ∧
        (phase.next store torrent settings writeTorrentFile success).1 =
          store.insertEntry torrent.id st) ∨
      (phase.next store torrent settings writeTorrentFile success).1 = store.flush := by
  cases phase with
  | start | writingTorrentFile st =>
    left
    unfold next
    dsimp only
    split <;> exact ⟨rfl, rfl⟩
  | inserting st => exact .inr (.inl ⟨st, rfl, hfine st rfl, rfl⟩)
  | flushing st =>
    cases success with
    | true => exact .inr (.inr rfl)
    | false => exact .inl ⟨rfl, rfl⟩

/-- It goes on with an entry of the torrent, and fails after that only if it cannot write. -/
lemma next_fine (hfine : phase.Fine torrent) :
    match (phase.next store torrent settings writeTorrentFile success).2 with
    | .more phase => phase.Fine torrent
    | .ok => True
    | .err stored => (∀ st, phase = .flushing st → success) → stored = none := by
  cases phase with
  | start =>
    unfold next
    cases torrent.filesystem with
    | true =>
      cases writeTorrentFile && torrent.hasTorrentBytes <;> exact fun st hst => by cases hst; rfl
    | false => exact fun _ => rfl
  | writingTorrentFile st | inserting st => exact hfine
  | flushing st =>
    cases success with
    | true => trivial
    | false => exact fun h => absurd (h st rfl) Bool.false_ne_true

end UpdateDb

/-- The entry of an add has its info hash, and an add that failed has not entered anything. -/
def AddTask.Fine (task : AddTask H M) : Prop :=
  match task.phase with
  | .storing torrent phase => phase.Fine torrent
  | .rollingBack _ stored | .storeFailed _ stored _ => stored = none
  | _ => True

/-- The torrent that the next step enters into the store. -/
def AddTask.entering (task : AddTask H M) : Option (Handle H) :=
  match task.phase with
  | .storing torrent (.inserting _) => some torrent
  | _ => none

/-- What an add that could not store its torrent has entered into the store. -/
def AddTask.left (task : AddTask H M) : Option (ℕ × SerializedTorrent H M) :=
  match task.phase with
  | .storeFailed torrent (some st) _ => some (torrent.id, st)
  | _ => none

/-- The torrent that the next step enters into the store. -/
def UpdateTask.entering (task : UpdateTask H M) : Option (Handle H) :=
  match task.phase with
  | some (.inserting _) => some task.torrent
  | _ => none

/-- The info hash whose files the next step removes. -/
def DeleteTask.removingFiles : DeleteTask H → Option H
  | .removingTorrentFile _ infoHash | .removingBitv _ infoHash => some infoHash
  | _ => none

/-- The entry of an update has the info hash of its torrent. -/
def UpdateTask.Fine (task : UpdateTask H M) : Prop := ∀ phase ∈ task.phase, phase.Fine task.torrent

namespace State

variable (s : State H M)

/-! ## What is claimed and what is assumed -/

/-- **Deleted torrents are not stored, and neither are torrents whose add has failed.** -/
structure Persisted (s : State H M) : Prop where
  deleted : ∀ infoHash ∈ s.deleted, Lacks s.content infoHash ∧ Lacks s.disk infoHash
  failed : ∀ task ∈ s.adds, ∀ left ∈ task.left, s.content.lookup left.1 ≠ some left.2

instance [DecidableEq M] (s : State H M) : Decidable s.Persisted :=
  decidable_of_iff
    ((∀ infoHash ∈ s.deleted, Lacks s.content infoHash ∧ Lacks s.disk infoHash) ∧
      ∀ task ∈ s.adds, ∀ left ∈ task.left, s.content.lookup left.1 ≠ some left.2)
    ⟨fun h => ⟨h.1, h.2⟩, fun h => ⟨h.deleted, h.failed⟩⟩

/-- The torrent that a step enters into the store. -/
def entering : Call H M → Option (Handle H)
  | .addNext i _ => (s.adds[i]?).bind AddTask.entering
  | .updateNext i _ => (s.updates[i]?).bind UpdateTask.entering
  | _ => none

/-- The id and the info hash of the torrent that a step enters into the session. -/
def joining : Call H M → Option (ℕ × H)
  | .addNext i true => (s.adds[i]?).bind fun task =>
    match task.phase with
    | .checking id =>
      if (s.existing id task.request.infoHash).isNone then some (id, task.request.infoHash)
      else none
    | _ => none
  | _ => none

/-- The info hash whose files a step removes. -/
def removing : Call H M → Option H
  | .deleteNext i _ => (s.deletes[i]?).bind DeleteTask.removingFiles
  | _ => none

/-- An add or a delete cannot write the store. -/
def failing : Call H M → Bool
  | .addNext i false => (s.adds[i]?).any fun task =>
    match task.phase with
    | .storing _ (.flushing _) => true
    | _ => false
  | .deleteNext i false => (s.deletes[i]?).any fun task =>
    match task with
    | .flushing .. => true
    | _ => false
  | _ => false

/-- **A step harms no entry**: what is entered of a torrent that the session does not have replaces
its own entry, so that it neither comes back nor takes the place of another; and no files are
removed of what the store has an entry for. -/
def Harmless (a : Call H M) : Prop :=
  (∀ torrent ∈ s.entering a, s.db.torrents.lookup torrent.id = some torrent ∨
    (s.content.lookup torrent.id).map SerializedTorrent.infoHash = some torrent.infoHash) ∧
  ∀ infoHash ∈ s.removing a, Lacks s.content infoHash

instance (a : Call H M) : Decidable (s.Harmless a) := inferInstanceAs (Decidable (_ ∧ _))

/-- **A step is orderly**: what it enters into the store, the session has; of what it enters into
the session, neither a delete under way nor the store has the id or the info hash, except for an
entry that has both; and an add or a delete that has to write the store can. -/
def Orderly (a : Call H M) : Prop :=
  (∀ torrent ∈ s.entering a, s.db.torrents.lookup torrent.id = some torrent) ∧
  (∀ new ∈ s.joining a, (∀ d ∈ s.deletes, ∀ torrent ∈ d.pending,
      torrent.id ≠ new.1 ∧ torrent.infoHash ≠ new.2) ∧ Matches s.content new.1 new.2) ∧
  s.failing a = false
  deriving Decidable

/-! ## What a step keeps -/

/-- What every orderly step keeps. -/
structure Kept (s : State H M) : Prop where
  persistent : s.persistence.isSome = true
  view : s.view.Inv
  adds : ∀ task ∈ s.adds, task.Fine
  updates : ∀ task ∈ s.updates, task.Fine

variable {s} {s' : State H M} {store : JsonStore H M}

/-- A step of `update_db`, which enters only what the session has. -/
lemma inv_updateDb (hv : s.view.Inv) (hp : s.persistence = some store) {phase : UpdateDb H M}
    {torrent : Handle H} (hfine : phase.Fine torrent)
    (hlive : ∀ st, phase = .inserting st → s.db.torrents.lookup torrent.id = some torrent)
    (settings : M) (writeTorrentFile success : Bool) :
    (s.setStore (phase.next store torrent settings writeTorrentFile success).1).view.Inv := by
  rcases UpdateDb.next_cases store settings writeTorrentFile success hfine with
    ⟨hc, hd⟩ | ⟨st, hphase, hst, heq⟩ | heq
  · rw [view_setStore hp _ hc hd]
    exact hv
  · rw [heq, view_insertEntry hp]
    exact hv.insert (hlive st hphase) hst
  · rw [heq, view_flush hp]
    exact hv.flush

variable {success : Bool} {i : ℕ}

/-- A step of an add. -/
lemma kept_addNext {task} (hk : s.Kept)
    (ho : s.Orderly (.addNext i success)) (hi : s.adds[i]? = some task)
    (h : s.addNext i task success = some s') : s'.Kept := by
  have hfine := hk.adds task (mem_of_getElem? hi)
  -- A step that only changes the add.
  have hset : ∀ task' : AddTask H M, task'.Fine → (s.setAdd i task').Kept := fun task' htask' =>
    ⟨hk.persistent, hk.view, forall_mem_set hk.adds htask', hk.updates⟩
  obtain ⟨request, phase⟩ := task
  unfold addNext at h
  cases phase with
  | allocating =>
    cases h
    exact ⟨hk.persistent, hk.view, forall_mem_set hk.adds trivial, hk.updates⟩
  | checking id =>
    dsimp only at h
    split at h
    · cases h
      exact hset _ trivial
    next hex =>
    split at h
    · next hsuccess =>
      subst hsuccess
      cases h
      obtain ⟨hid, hhash⟩ := existing_eq_none hk.view.inverse hex
      have hjoin : s.joining (.addNext i true) = some (id, request.infoHash) := by
        simp [joining, hi, hex]
      obtain ⟨hdeletes, hcontent⟩ := ho.2.1 _ hjoin
      refine ⟨hk.persistent, hk.view.enter hid hhash hdeletes hcontent,
        forall_mem_set hk.adds ?_, hk.updates⟩
      cases s.persistence with
      | none => trivial
      | some store => exact fun st hst => by cases hst
    · cases h
      exact hset _ trivial
  | storing torrent phase =>
    dsimp only at h
    split at h
    · next store _ settings hp _ =>
      cases h
      have hlive : ∀ st, phase = .inserting st →
          s.db.torrents.lookup torrent.id = some torrent := by
        rintro st rfl
        exact ho.1 torrent (by simp [entering, AddTask.entering, hi])
      have hwrites : ∀ st, phase = .flushing st → success := by
        rintro st rfl
        cases success with
        | true => rfl
        | false =>
          have hfailing := ho.2.2
          simp [failing, hi] at hfailing
      refine ⟨rfl, inv_updateDb hk.view hp hfine hlive settings true success,
        forall_mem_set hk.adds ?_, hk.updates⟩
      have hnext := UpdateDb.next_fine store settings true success hfine
      generalize (phase.next store torrent settings true success).2 = next at hnext
      cases next with
      | more phase => exact hnext
      | ok => trivial
      | err stored => exact hnext hwrites
    · cases h
  | rollingBack torrent stored =>
    cases h
    exact ⟨hk.persistent, hk.view.removeTorrent torrent.id, forall_mem_set hk.adds hfine,
      hk.updates⟩
  | starting torrent =>
    cases h
    refine hset _ ?_
    cases success <;> trivial
  | added | alreadyManaged | createFailed | storeFailed | startFailed => cases h

variable {task : DeleteTask H}

/-- A delete changes neither adds nor updates. -/
lemma calls_deleteNext
    (hp : s.persistence = some store) (h : s.deleteNext i task success = some s') :
    s'.persistence.isSome = true ∧ s'.adds = s.adds ∧ s'.updates = s.updates := by
  have hp' : s.persistence.isSome := by rw [hp]; rfl
  unfold deleteNext at h
  split at h
  · split at h
    · cases h
      exact ⟨hp', rfl, rfl⟩
    · cases h
      split <;> exact ⟨hp', rfl, rfl⟩
  · split at h
    · cases h
      exact ⟨hp', rfl, rfl⟩
    · cases h
      exact ⟨rfl, rfl, rfl⟩
  · cases h
    split
    · exact ⟨rfl, rfl, rfl⟩
    · exact ⟨hp', rfl, rfl⟩
  · cases h
    exact ⟨rfl, rfl, rfl⟩
  · cases h
    exact ⟨rfl, rfl, rfl⟩
  · cases h

/-- A step of a delete. -/
lemma inv_deleteNext (hv : s.view.Inv)
    (ho : s.Orderly (.deleteNext i success)) (hp : s.persistence = some store)
    (hi : s.deletes[i]? = some task) (h : s.deleteNext i task success = some s') :
    s'.view.Inv := by
  have hfine := hv.fine task (mem_of_getElem? hi)
  unfold deleteNext at h
  rw [hp] at h
  cases task with
  | removing id =>
    dsimp only at h
    split at h
    · cases h
      exact hv.setDelete hi _ (fun _ _ h => by cases h) (fun _ ht => by cases ht) trivial
    · next torrent hid =>
      cases h
      exact hv.start hi hid
  | erasing id torrent =>
    dsimp only at h
    split at h
    · next hnone =>
      cases h
      have hnone' : s.view.content.lookup id = none := by
        simp only [view, content, hp, hnone]
      obtain ⟨hcontent, hdisk⟩ := hv.lacks_of_erasing hi hnone'
      exact hv.complete hi (fun _ _ h => by cases h) hcontent hdisk
    · next st hst =>
      cases h
      have hst' : s.view.content.lookup id = some st := by
        simp only [view, content, hp, hst]
      rw [view_setDelete, view_eraseEntry hp]
      exact hv.eraseEntry hi hst'
  | flushing torrent infoHash =>
    cases success with
    | true =>
      cases h
      rw [if_pos rfl, view_setDelete, view_flush hp]
      exact hv.flushDelete hi
    | false =>
      have hfailing := ho.2.2
      simp [failing, hi] at hfailing
  | removingTorrentFile torrent infoHash =>
    cases h
    rw [view_setDelete, view_setStore hp _]
    · exact hv.setDelete hi _ (fun _ _ h => by cases h) (fun t ht => ht) hfine
    · cases success <;> rfl
    · cases success <;> rfl
  | removingBitv torrent infoHash =>
    cases h
    obtain ⟨rfl, hcontent, hdisk⟩ := hfine
    have hview := view_setStore hp (if success then store.removeBitv torrent.infoHash else store)
      (by cases success <;> rfl) (by cases success <;> rfl)
    have hcomplete := hv.complete hi (fun _ _ h => by cases h) hcontent hdisk
    rw [← hview] at hcomplete
    exact hcomplete
  | completed torrent | notFound id => cases h

variable (hk : s.Kept)
include hk

/-- A step of an update. -/
lemma kept_updateNext {task}
    (ho : s.Orderly (.updateNext i success)) (hi : s.updates[i]? = some task)
    (h : s.updateNext i task success = some s') : s'.Kept := by
  have hfine := hk.updates task (mem_of_getElem? hi)
  obtain ⟨torrent, phase⟩ := task
  unfold updateNext at h
  split at h
  · next phase store _ settings hphase hp _ =>
    cases h
    subst hphase
    have hlive : ∀ st, phase = .inserting st →
        s.db.torrents.lookup torrent.id = some torrent := by
      rintro st rfl
      exact ho.1 torrent (by simp [entering, UpdateTask.entering, hi])
    have hphase := hfine phase rfl
    refine ⟨rfl, inv_updateDb hk.view hp hphase hlive settings false success, hk.adds,
      forall_mem_set hk.updates ?_⟩
    have hnext := UpdateDb.next_fine store settings false success hphase
    generalize (phase.next store torrent settings false success).2 = next at hnext
    cases next with
    | more phase => exact fun p hp => Option.some.inj hp ▸ hnext
    | ok | err stored => exact fun p hp => by cases hp
  · cases h

/-- **Every orderly step keeps what is kept.** -/
theorem kept_of_step {a} (ho : s.Orderly a) (h : s.step a = some s') :
    s'.Kept := by
  obtain ⟨store, hp⟩ := isSome_iff_exists.mp hk.persistent
  cases a with
  | addTorrent request =>
    cases h
    exact ⟨hk.persistent, hk.view, forall_mem_concat hk.adds trivial, hk.updates⟩
  | addNext i success =>
    obtain ⟨task, hi, h⟩ := bind_eq_some_iff.mp h
    exact kept_addNext hk ho hi h
  | deleteById id =>
    cases h
    exact ⟨hk.persistent, hk.view.call id, hk.adds, hk.updates⟩
  | deleteByHash infoHash =>
    obtain ⟨found, -, rfl⟩ := map_eq_some_iff.mp h
    exact ⟨hk.persistent, hk.view.call found.1, hk.adds, hk.updates⟩
  | deleteNext i success =>
    obtain ⟨task, hi, h⟩ := bind_eq_some_iff.mp h
    obtain ⟨hpersistent, hadds, hupdates⟩ := calls_deleteNext hp h
    exact ⟨hpersistent, inv_deleteNext hk.view ho hp hi h, hadds ▸ hk.adds, hupdates ▸ hk.updates⟩
  | change key settings =>
    obtain ⟨torrent, -, rfl⟩ := map_eq_some_iff.mp h
    exact ⟨hk.persistent, hk.view, hk.adds, hk.updates⟩
  | updateMetadata key =>
    obtain ⟨torrent, -, rfl⟩ := map_eq_some_iff.mp h
    refine ⟨hk.persistent, hk.view, hk.adds, forall_mem_concat hk.updates fun phase hphase => ?_⟩
    cases hphase
    exact fun st hst => by cases hst
  | updateNext i success =>
    obtain ⟨task, hi, h⟩ := bind_eq_some_iff.mp h
    exact kept_updateNext hk ho hi h
  | storeInitialCheck key =>
    simp only [step] at h
    split at h
    · next torrent _ store' _ hp' =>
      cases h
      refine ⟨rfl, ?_, hk.adds, hk.updates⟩
      rw [view_setStore hp' (store'.writeBitv torrent.infoHash) rfl rfl]
      exact hk.view
    · cases h
  | storeSessionSettings =>
    obtain ⟨store', hp', rfl⟩ := map_eq_some_iff.mp h
    refine ⟨rfl, ?_, hk.adds, hk.updates⟩
    rw [view_flush hp']
    exact hk.view.flush

/-- Deleted torrents and failed adds leave nothing in the store. -/
lemma Kept.persisted : s.Persisted where
  deleted infoHash h := (hk.view.deleted infoHash h).2
  failed task htask left hleft := by
    have hfine := hk.adds task htask
    obtain ⟨request, phase⟩ := task
    unfold AddTask.left at hleft
    split at hleft
    · next hphase =>
      subst hphase
      cases hfine
    · cases hleft

/-- An orderly step harms no entry. -/
lemma Kept.harmless {a} (ho : s.Orderly a) : s.Harmless a := by
  refine ⟨fun torrent h => .inl (ho.1 torrent h), fun infoHash h => ?_⟩
  cases a with
  | deleteNext i success =>
    obtain ⟨task, hi, h⟩ := bind_eq_some_iff.mp h
    have hfine := hk.view.fine task (mem_of_getElem? hi)
    cases task with
    | removingTorrentFile torrent infoHash | removingBitv torrent infoHash =>
      cases h
      exact hfine.2.1
    | removing | erasing | flushing | completed | notFound => cases h
  | addTorrent | addNext | deleteById | deleteByHash | change | updateMetadata | updateNext
  | storeInitialCheck | storeSessionSettings => cases h

omit hk

/-- A new session over the store that an earlier one left. -/
def restore (disk : Table ℕ (SerializedTorrent H M)) (torrentFiles bitvFiles : Finset H) :
    State H M :=
  { persistence := some { dbContent := disk, disk, torrentFiles, bitvFiles } }

lemma kept_restore (disk : Table ℕ (SerializedTorrent H M)) (torrentFiles bitvFiles : Finset H) :
    (restore disk torrentFiles bitvFiles).Kept where
  persistent := rfl
  view :=
    { inverse := SessionDatabase.inverse_empty
      live := fun id torrent h => by cases h
      free := fun i d torrent h => by cases h
      fine := fun d h => by cases h
      distinct := fun i j d d' torrent torrent' h => by cases h
      written := fun id st h => .inl fun hlacks => hlacks id st h rfl
      deleted := fun infoHash h => by cases h }
  adds task h := by cases h
  updates task h := by cases h

/-- The steps of an add, up to its result. -/
def addAll (i : ℕ) : List (Call ℕ Bool) := List.replicate 7 (.addNext i true)

/-- The steps of a delete. -/
def deleteAll (i : ℕ) : List (Call ℕ Bool) := List.replicate 5 (.deleteNext i true)

/-- The steps of an update. -/
def updateAll (i : ℕ) : List (Call ℕ Bool) := List.replicate 3 (.updateNext i true)

/-- A torrent is added, changed, deleted and added again, one after the other. -/
def oneByOne : List (Call ℕ Bool) :=
  .addTorrent { infoHash := 1, settings := false } :: addAll 0 ++
    [.storeInitialCheck 0, .change 0 true, .updateMetadata 0] ++ updateAll 0 ++
    .deleteById 0 :: deleteAll 0 ++ .addTorrent { infoHash := 1, settings := false } :: addAll 1

end State

end Librtbit.Session
