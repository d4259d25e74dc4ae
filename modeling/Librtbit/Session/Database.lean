import Librtbit.Machinery.Pool
import Librtbit.Session.Calls

/-!
# Session/Database — the torrents of a session and their ids

Whatever calls run at once, the two maps of the database stay inverse to each other, and each
torrent has the id that it is kept under: a torrent is entered under the same lock as its id and its
info hash are looked for.

But the id is given out before, by the store, which does not know of adds that are under way.  Two
of them can have the same, and the second one is then told that its torrent is managed already, with
the torrent of the first.  And an add that could not store its torrent takes out what is there under
the id by then, which is another torrent if its own was deleted and the id was given out again.

* `State.sound_iff_ownId` — nothing else can go wrong.
-/

namespace Librtbit.Session

open Machinery Option

variable {H M : Type} [DecidableEq H]

/-! ## The two maps -/

namespace SessionDatabase

variable {db : SessionDatabase H}

/-- **The maps are inverse to each other**, and a torrent's own id is the one it is kept under. -/
structure Inverse (db : SessionDatabase H) : Prop where
  index : ∀ infoHash id, db.infoHashToId.lookup infoHash = some id ↔
    ∃ torrent, db.torrents.lookup id = some torrent ∧ torrent.infoHash = infoHash
  ownId : ∀ id torrent, db.torrents.lookup id = some torrent → torrent.id = id

/-- Torrents with the same info hash have the same id. -/
lemma Inverse.eq_of_infoHash (hdb : db.Inverse) {id id' torrent torrent'}
    (h : db.torrents.lookup id = some torrent) (h' : db.torrents.lookup id' = some torrent')
    (heq : torrent.infoHash = torrent'.infoHash) : id = id' := by
  have hid := (hdb.index torrent.infoHash id).mpr ⟨torrent, h, rfl⟩
  have hid' := (hdb.index torrent'.infoHash id').mpr ⟨torrent', h', rfl⟩
  rw [heq, hid'] at hid
  exact (Option.some.inj hid).symm

lemma inverse_empty : Inverse ({} : SessionDatabase H) where
  index infoHash id := by simp
  ownId id torrent h := by simp at h

lemma Inverse.lookup_of_getByInfoHash (hdb : db.Inverse) {infoHash}
    (h : db.getByInfoHash infoHash = none) : db.infoHashToId.lookup infoHash = none := by
  cases hid : db.infoHashToId.lookup infoHash with
  | none => rfl
  | some id =>
    obtain ⟨torrent, htorrent, -⟩ := (hdb.index infoHash id).mp hid
    rw [getByInfoHash, hid] at h
    simp [htorrent] at h

variable {torrent : Handle H} (hdb : db.Inverse)
include hdb

/-- What is found by the info hash has the info hash. -/
lemma Inverse.infoHash_of_getByInfoHash {infoHash id}
    (h : db.getByInfoHash infoHash = some (id, torrent)) :
    torrent.infoHash = infoHash := by
  obtain ⟨id', hid', h⟩ := bind_eq_some_iff.mp h
  obtain ⟨torrent', htorrent', h⟩ := bind_eq_some_iff.mp h
  cases h
  obtain ⟨torrent'', htorrent'', heq⟩ := (hdb.index infoHash id).mp hid'
  rw [htorrent'] at htorrent''
  cases htorrent''
  exact heq

/-- **A new id and a new info hash** keep the maps inverse. -/
theorem Inverse.addTorrent (hid : db.torrents.lookup torrent.id = none)
    (hhash : db.infoHashToId.lookup torrent.infoHash = none) :
    (db.addTorrent torrent torrent.id).Inverse := by
  have hother : ∀ id torrent', db.torrents.lookup id = some torrent' →
      torrent'.infoHash ≠ torrent.infoHash := by
    intro id torrent' h heq
    have hindex := (hdb.index torrent'.infoHash id).mpr ⟨torrent', h, rfl⟩
    rw [heq, hhash] at hindex
    cases hindex
  refine ⟨fun infoHash id => ?_, fun id torrent' h => ?_⟩
  · show (db.infoHashToId.insert torrent.infoHash torrent.id).lookup infoHash = some id ↔
      ∃ t, (db.torrents.insert torrent.id torrent).lookup id = some t ∧ t.infoHash = infoHash
    by_cases hi : id = torrent.id
    · subst hi
      rw [AList.lookup_insert]
      by_cases hh : infoHash = torrent.infoHash
      · subst hh
        rw [AList.lookup_insert]
        exact iff_of_true rfl ⟨torrent, rfl, rfl⟩
      rw [AList.lookup_insert_ne hh, hdb.index]
      refine iff_of_false ?_ ?_
      · rintro ⟨t, ht, -⟩
        rw [hid] at ht
        cases ht
      · rintro ⟨t, ht, heq⟩
        exact hh (heq.symm.trans (congrArg Handle.infoHash (Option.some.inj ht)).symm)
    · rw [AList.lookup_insert_ne hi]
      by_cases hh : infoHash = torrent.infoHash
      · subst hh
        rw [AList.lookup_insert]
        refine iff_of_false (fun h => hi (Option.some.inj h).symm) ?_
        rintro ⟨t, ht, heq⟩
        exact hother id t ht heq
      · rw [AList.lookup_insert_ne hh, hdb.index]
  · change (db.torrents.insert torrent.id torrent).lookup id = some torrent' at h
    by_cases hi : id = torrent.id
    · subst hi
      rw [AList.lookup_insert] at h
      cases h
      rfl
    · rw [AList.lookup_insert_ne hi] at h
      exact hdb.ownId id torrent' h

/-- **A removal** keeps the maps inverse. -/
theorem Inverse.removeTorrent (id : ℕ) : (db.removeTorrent id).Inverse := by
  unfold SessionDatabase.removeTorrent
  cases hid : db.torrents.lookup id with
  | none => exact hdb
  | some torrent =>
    refine ⟨fun infoHash id' => ?_, fun id' torrent' h => ?_⟩
    · show (db.infoHashToId.erase torrent.infoHash).lookup infoHash = some id' ↔
        ∃ t, (db.torrents.erase id).lookup id' = some t ∧ t.infoHash = infoHash
      by_cases hi : id' = id
      · subst hi
        refine iff_of_false (fun h => ?_) (by simp)
        by_cases hh : infoHash = torrent.infoHash
        · subst hh
          rw [AList.lookup_erase] at h
          cases h
        rw [AList.lookup_erase_ne hh, hdb.index] at h
        obtain ⟨t, ht, heq⟩ := h
        rw [hid] at ht
        cases ht
        exact hh heq.symm
      · rw [AList.lookup_erase_ne hi]
        by_cases hh : infoHash = torrent.infoHash
        · subst hh
          refine iff_of_false (by simp) ?_
          rintro ⟨t, ht, heq⟩
          exact hi (hdb.eq_of_infoHash ht hid heq)
        · rw [AList.lookup_erase_ne hh, hdb.index]
    · change (db.torrents.erase id).lookup id' = some torrent' at h
      by_cases hi : id' = id
      · subst hi
        rw [AList.lookup_erase] at h
        cases h
      · rw [AList.lookup_erase_ne hi] at h
        exact hdb.ownId id' torrent' h

end SessionDatabase

/-! ## What an add returns -/

namespace AddTask

/-- **The answer is right**: the torrent has the info hash that was asked for, and what a failed add
took out is what it had entered. -/
def Right (task : AddTask H M) : Prop :=
  match task.phase with
  | .added torrent | .alreadyManaged _ torrent => torrent.infoHash = task.request.infoHash
  | .storeFailed torrent _ removed => ∀ other ∈ removed, other = torrent
  | _ => True

instance : DecidablePred (Right : AddTask H M → Prop)
  | ⟨request, .added torrent⟩ | ⟨request, .alreadyManaged _ torrent⟩ =>
    inferInstanceAs (Decidable (torrent.infoHash = request.infoHash))
  | ⟨_, .storeFailed torrent _ removed⟩ =>
    inferInstanceAs (Decidable (∀ other ∈ removed, other = torrent))
  | ⟨_, .allocating⟩ | ⟨_, .checking _⟩ | ⟨_, .storing ..⟩ | ⟨_, .rollingBack ..⟩
  | ⟨_, .starting _⟩ | ⟨_, .createFailed⟩ | ⟨_, .startFailed _⟩ => .isTrue trivial

/-- The torrent that an add has made has the info hash that was asked for. -/
def Own (task : AddTask H M) : Prop :=
  match task.phase with
  | .storing torrent _ | .rollingBack torrent _ | .starting torrent =>
    torrent.infoHash = task.request.infoHash
  | _ => True

/-- **The id is the add's own**: when it is looked for, it is free or that of a torrent with the
info hash of the add; and when the add takes its torrent out, it is free or that of the torrent. -/
def OwnId (db : SessionDatabase H) (task : AddTask H M) : Prop :=
  match task.phase with
  | .checking id => ∀ torrent ∈ db.torrents.lookup id, torrent.infoHash = task.request.infoHash
  | .rollingBack torrent _ => ∀ other ∈ db.torrents.lookup torrent.id, other = torrent
  | _ => True

end AddTask

namespace State

variable {s s' : State H M}

/-- **The database is consistent, and so is what adds return.** -/
structure Sound (s : State H M) : Prop where
  inverse : s.db.Inverse
  right : ∀ task ∈ s.adds, task.Right

/-- The adds that go on have ids of their own. -/
def OwnId (s : State H M) : Call H M → Prop
  | .addNext i _ => ∀ task ∈ s.adds[i]?, task.OwnId s.db
  | _ => True

/-- What holds whatever the ids are. -/
structure Consistent (s : State H M) : Prop where
  inverse : s.db.Inverse
  own : ∀ task ∈ s.adds, task.Own

lemma existing_eq_some {id id' infoHash torrent} (hdb : s.db.Inverse)
    (h : s.existing id infoHash = some (id', torrent)) :
    torrent.infoHash = infoHash ↔
      ∀ t ∈ s.db.torrents.lookup id, t.infoHash = infoHash := by
  unfold existing at h
  cases hid : s.db.torrents.lookup id with
  | none =>
    rw [hid] at h
    exact iff_of_true (hdb.infoHash_of_getByInfoHash h) fun t ht => (not_mem_none t ht).elim
  | some t =>
    rw [hid] at h
    cases h
    simp

lemma existing_eq_none {id infoHash} (hdb : s.db.Inverse) (h : s.existing id infoHash = none) :
    s.db.torrents.lookup id = none ∧ s.db.infoHashToId.lookup infoHash = none := by
  unfold existing at h
  cases hid : s.db.torrents.lookup id with
  | none =>
    rw [hid] at h
    exact ⟨rfl, hdb.lookup_of_getByInfoHash h⟩
  | some t =>
    rw [hid] at h
    cases h

variable {success : Bool} {i : ℕ}

/-- **What a step of an add does to the database and to the add.** -/
theorem addNext_spec {task} (hdb : s.db.Inverse)
    (hown : task.Own) (h : s.addNext i task success = some s') :
    ∃ task', s'.adds = s.adds.set i task' ∧ s'.db.Inverse ∧ task'.Own ∧
      (task'.Right ↔ task.OwnId s.db) := by
  obtain ⟨request, phase⟩ := task
  unfold addNext at h
  cases phase with
  | allocating =>
    cases h
    exact ⟨_, rfl, hdb, trivial, .rfl⟩
  | checking id =>
    dsimp only at h
    split at h
    · next hex =>
      cases h
      exact ⟨_, rfl, hdb, trivial, existing_eq_some hdb hex⟩
    next hex =>
    obtain ⟨hid, hhash⟩ := existing_eq_none hdb hex
    have hfits : ∀ torrent ∈ s.db.torrents.lookup id, torrent.infoHash = request.infoHash := by
      rw [hid]
      exact fun t ht => (not_mem_none t ht).elim
    split at h
    · cases h
      refine ⟨_, rfl, hdb.addTorrent hid hhash, ?_, ?_⟩
      · cases s.persistence <;> rfl
      · cases s.persistence <;> exact iff_of_true trivial hfits
    · cases h
      exact ⟨_, rfl, hdb, trivial, iff_of_true trivial hfits⟩
  | storing torrent phase =>
    dsimp only at h
    split at h <;> cases h
    refine ⟨_, rfl, hdb, ?_, ?_⟩
    · generalize (phase.next _ torrent _ true success).2 = next
      cases next <;> exact hown
    · generalize (phase.next _ torrent _ true success).2 = next
      cases next <;> exact .rfl
  | rollingBack torrent stored =>
    cases h
    exact ⟨_, rfl, hdb.removeTorrent torrent.id, trivial, .rfl⟩
  | starting torrent =>
    cases h
    refine ⟨_, rfl, hdb, ?_, ?_⟩
    · cases success <;> exact trivial
    · cases success with
      | true => exact iff_true_intro hown
      | false => exact .rfl
  | added | alreadyManaged | createFailed | storeFailed | startFailed => cases h

/-- A delete only takes torrents out. -/
lemma deleteNext_spec {task} (hdb : s.db.Inverse)
    (h : s.deleteNext i task success = some s') : s'.adds = s.adds ∧ s'.db.Inverse := by
  unfold deleteNext at h
  split at h
  · next id =>
    split at h
    · cases h
      exact ⟨rfl, hdb⟩
    · cases h
      cases s.persistence <;> exact ⟨rfl, hdb.removeTorrent id⟩
  · split at h <;> cases h <;> exact ⟨rfl, hdb⟩
  · cases h
    split <;> exact ⟨rfl, hdb⟩
  · cases h
    exact ⟨rfl, hdb⟩
  · cases h
    exact ⟨rfl, hdb⟩
  · cases h

lemma updateNext_spec {task}
    (h : s.updateNext i task success = some s') : s'.adds = s.adds ∧ s'.db = s.db := by
  unfold updateNext at h
  split at h <;> cases h
  exact ⟨rfl, rfl⟩

/-- **Every step keeps the database consistent, and only an add with an id that is not its own goes
wrong.** -/
theorem sound_iff_of_step {a} (hc : s.Consistent) (hs : s.Sound)
    (h : s.step a = some s') : s'.Consistent ∧ (s'.Sound ↔ s.OwnId a) := by
  have hkeep : s'.adds = s.adds → s'.db.Inverse → s'.Consistent ∧ s'.Sound := fun hadds hdb =>
    ⟨⟨hdb, hadds ▸ hc.own⟩, ⟨hdb, hadds ▸ hs.right⟩⟩
  cases a with
  | addTorrent request =>
    cases h
    exact ⟨⟨hc.inverse, forall_mem_concat hc.own trivial⟩,
      iff_true_intro ⟨hc.inverse, forall_mem_concat hs.right trivial⟩⟩
  | addNext i success =>
    obtain ⟨task, htask, h⟩ := bind_eq_some_iff.mp h
    have hmem : task ∈ s.adds := List.mem_of_getElem? htask
    obtain ⟨task', hadds, hdb, hown, hright⟩ := addNext_spec hc.inverse (hc.own task hmem) h
    have hownId : s.OwnId (.addNext i success) ↔ task.OwnId s.db := by
      simp [OwnId, htask]
    rw [hownId, ← hright]
    refine ⟨⟨hdb, hadds ▸ forall_mem_set hc.own hown⟩, fun hs' => hs'.right task' ?_,
      fun htask' => ⟨hdb, hadds ▸ forall_mem_set hs.right htask'⟩⟩
    rw [hadds]
    exact List.mem_of_getElem? (getElem?_set_of_some htask task')
  | deleteById id =>
    cases h
    exact (hkeep rfl hc.inverse).imp_right fun hs' => iff_true_intro hs'
  | deleteByHash infoHash =>
    obtain ⟨found, -, rfl⟩ := map_eq_some_iff.mp h
    exact (hkeep rfl hc.inverse).imp_right fun hs' => iff_true_intro hs'
  | deleteNext i success =>
    obtain ⟨task, -, h⟩ := bind_eq_some_iff.mp h
    obtain ⟨hadds, hdb⟩ := deleteNext_spec hc.inverse h
    exact (hkeep hadds hdb).imp_right fun hs' => iff_true_intro hs'
  | change key settings | updateMetadata key =>
    obtain ⟨torrent, -, rfl⟩ := map_eq_some_iff.mp h
    exact (hkeep rfl hc.inverse).imp_right fun hs' => iff_true_intro hs'
  | updateNext i success =>
    obtain ⟨task, -, h⟩ := bind_eq_some_iff.mp h
    obtain ⟨hadds, hdb⟩ := updateNext_spec h
    exact (hkeep hadds (hdb ▸ hc.inverse)).imp_right fun hs' => iff_true_intro hs'
  | storeInitialCheck key =>
    have hs' : s'.adds = s.adds ∧ s'.db = s.db := by
      simp only [step] at h
      split at h <;> cases h
      exact ⟨rfl, rfl⟩
    exact (hkeep hs'.1 (hs'.2 ▸ hc.inverse)).imp_right fun hs' => iff_true_intro hs'
  | storeSessionSettings =>
    obtain ⟨store, -, rfl⟩ := map_eq_some_iff.mp h
    exact (hkeep rfl hc.inverse).imp_right fun hs' => iff_true_intro hs'

/-- The store of a session without torrents. -/
def emptyStore : State ℕ Unit := { persistence := some {} }

end State

end Librtbit.Session
