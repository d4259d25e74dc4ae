import Librtbit.Session.Database

/-!
# Session/Entries — deletes and the entries of the store

What the store has in memory, what `session.json` has, the session and the deletes under way
(`View`), and what they have to do with each other (`View.Inv`): a torrent of the session is stored
under its id only; a torrent that is being deleted is not in the session; and what only
`session.json` still has is about to be written away.  Each change that a call makes to them keeps
this, if it comes at the right time.
-/

namespace Librtbit.Session

open Machinery Session.SessionDatabase List

variable {H M : Type}

/-! ## Entries -/

section Entries

variable {content : Table ℕ (SerializedTorrent H M)} {id id' : ℕ} {infoHash : H}
  {st : SerializedTorrent H M}

/-- No entry has the info hash. -/
def Lacks (content : Table ℕ (SerializedTorrent H M)) (infoHash : H) : Prop :=
  ∀ id st, content.lookup id = some st → st.infoHash ≠ infoHash

/-- Only the entry under the id has the info hash, and no other is under the id. -/
def Matches (content : Table ℕ (SerializedTorrent H M)) (id : ℕ) (infoHash : H) : Prop :=
  ∀ id' st, content.lookup id' = some st → (id' = id ↔ st.infoHash = infoHash)

lemma lacks_iff_entries :
    Lacks content infoHash ↔ ∀ e ∈ content.entries, e.2.infoHash ≠ infoHash :=
  ⟨fun h e he => h e.1 e.2 (AList.mem_lookup_iff.mpr he),
    fun h id st hst => h ⟨id, st⟩ (AList.mem_lookup_iff.mp hst)⟩

lemma matches_iff_entries : Matches content id infoHash ↔
    ∀ e ∈ content.entries, (e.1 = id ↔ e.2.infoHash = infoHash) :=
  ⟨fun h e he => h e.1 e.2 (AList.mem_lookup_iff.mpr he),
    fun h id st hst => h ⟨id, st⟩ (AList.mem_lookup_iff.mp hst)⟩

instance [DecidableEq H] : Decidable (Lacks content infoHash) :=
  decidable_of_iff _ lacks_iff_entries.symm

instance [DecidableEq H] : Decidable (Matches content id infoHash) :=
  decidable_of_iff _ matches_iff_entries.symm

lemma Lacks.insert (h : Lacks content infoHash) (hst : st.infoHash ≠ infoHash) (id : ℕ) :
    Lacks (content.insert id st) infoHash := by
  intro id' st' h'
  rcases Table.lookup_insert_cases h' with ⟨-, rfl⟩ | ⟨-, h'⟩
  · exact hst
  · exact h id' st' h'

lemma Lacks.erase (h : Lacks content infoHash) (id : ℕ) : Lacks (content.erase id) infoHash :=
  fun id' st' h' => h id' st' (Table.lookup_erase_cases h').2

section

variable (h : Matches content id infoHash)
include h

lemma Matches.insert (hst : id' = id ↔ st.infoHash = infoHash) :
    Matches (content.insert id' st) id infoHash := by
  intro id'' st' h'
  rcases Table.lookup_insert_cases h' with ⟨rfl, rfl⟩ | ⟨-, h'⟩
  · exact hst
  · exact h id'' st' h'

lemma Matches.erase (id' : ℕ) : Matches (content.erase id') id infoHash :=
  fun id'' st' h' => h id'' st' (Table.lookup_erase_cases h').2

/-- Without the entry under the id, none has the info hash. -/
lemma Matches.lacks_erase : Lacks (content.erase id) infoHash := by
  intro id' st' h' heq
  obtain ⟨hne, h'⟩ := Table.lookup_erase_cases h'
  exact hne ((h id' st' h').mpr heq)

lemma Matches.lacks_of_none (hnone : content.lookup id = none) : Lacks content infoHash := by
  intro id' st' h' heq
  rw [(h id' st' h').mpr heq, hnone] at h'
  cases h'

end

end Entries

/-! ## What deletes and the store depend on -/

structure View (H M : Type) where
  db : SessionDatabase H
  content : Table ℕ (SerializedTorrent H M)
  disk : Table ℕ (SerializedTorrent H M)
  deletes : List (DeleteTask H)
  deleted : List H

namespace State

variable (s : State H M)

/-- What the store has in memory. -/
def content : Table ℕ (SerializedTorrent H M) :=
  match s.persistence with
  | some store => store.dbContent
  | none => ∅

/-- What `session.json` has. -/
def disk : Table ℕ (SerializedTorrent H M) :=
  match s.persistence with
  | some store => store.disk
  | none => ∅

def view : View H M := ⟨s.db, s.content, s.disk, s.deletes, s.deleted⟩

variable {s} {store : JsonStore H M} (hp : s.persistence = some store)
include hp

lemma view_setStore (store' : JsonStore H M)
    (hc : store'.dbContent = store.dbContent) (hd : store'.disk = store.disk) :
    (s.setStore store').view = s.view := by
  simp only [view, content, disk, setStore, hp, hc, hd]

lemma view_insertEntry (id : ℕ)
    (st : SerializedTorrent H M) : (s.setStore (store.insertEntry id st)).view =
      { s.view with content := s.view.content.insert id st } := by
  simp only [view, content, disk, setStore, JsonStore.insertEntry, hp]

lemma view_eraseEntry (id : ℕ) :
    (s.setStore (store.eraseEntry id)).view =
      { s.view with content := s.view.content.erase id } := by
  simp only [view, content, disk, setStore, JsonStore.eraseEntry, hp]

omit hp

lemma view_setDelete (i : ℕ) (d : DeleteTask H) :
    (s.setDelete i d).view = { s.view with deletes := s.view.deletes.set i d } := rfl

lemma view_flush (hp : s.persistence = some store) :
    (s.setStore store.flush).view = { s.view with disk := s.view.content } := by
  simp only [view, content, disk, setStore, JsonStore.flush, hp]

end State

variable [DecidableEq H]

namespace SessionDatabase

variable {db : SessionDatabase H} {id id' : ℕ} {infoHash : H} {torrent : Handle H}

lemma lookup_of_removeTorrent (h : (db.removeTorrent id).torrents.lookup id' = some torrent) :
    db.torrents.lookup id' = some torrent := by
  unfold removeTorrent at h
  split at h
  · exact (Table.lookup_erase_cases h).2
  · exact h

lemma lookup_removeTorrent_of_none (h : db.torrents.lookup id' = none) :
    (db.removeTorrent id).torrents.lookup id' = none := by
  rw [Option.eq_none_iff_forall_ne_some] at h ⊢
  exact fun torrent h' => h torrent (lookup_of_removeTorrent h')

lemma index_removeTorrent_of_none (h : db.infoHashToId.lookup infoHash = none) :
    (db.removeTorrent id).infoHashToId.lookup infoHash = none := by
  unfold removeTorrent
  split
  · rw [Option.eq_none_iff_forall_ne_some] at h ⊢
    exact fun id h' => h id (Table.lookup_erase_cases h').2
  · exact h

lemma removeTorrent_of_some (h : db.torrents.lookup id = some torrent) :
    (db.removeTorrent id).torrents.lookup id = none ∧
      (db.removeTorrent id).infoHashToId.lookup torrent.infoHash = none := by
  unfold removeTorrent
  rw [h]
  exact ⟨AList.lookup_erase .., AList.lookup_erase ..⟩

lemma Inverse.index_of_lookup (hdb : db.Inverse) (h : db.torrents.lookup id = some torrent) :
    db.infoHashToId.lookup torrent.infoHash = some id :=
  (hdb.index _ _).mpr ⟨torrent, h, rfl⟩

end SessionDatabase

/-! ## Deletes under way -/

namespace DeleteTask

/-- The torrent of a delete that has taken it out and is not complete. -/
def pending : DeleteTask H → Option (Handle H)
  | .erasing _ torrent | .flushing torrent _ | .removingTorrentFile torrent _
  | .removingBitv torrent _ => some torrent
  | .removing _ | .completed _ | .notFound _ => none

/-- What a delete has done to the store so far. -/
def Fine (content disk : Table ℕ (SerializedTorrent H M)) : DeleteTask H → Prop
  | .erasing id torrent => torrent.id = id ∧ Matches content id torrent.infoHash
  | .flushing torrent infoHash => infoHash = torrent.infoHash ∧ Lacks content infoHash
  | .removingTorrentFile torrent infoHash | .removingBitv torrent infoHash =>
    infoHash = torrent.infoHash ∧ Lacks content infoHash ∧ Lacks disk infoHash
  | .removing _ | .completed _ | .notFound _ => True

end DeleteTask

/-! ## What is kept -/

namespace View

variable {v : View H M} {i : ℕ} {d : DeleteTask H} {torrent : Handle H}

/-- **What an orderly run keeps.** -/
structure Inv (v : View H M) : Prop where
  inverse : v.db.Inverse
  /-- The store has a torrent of the session, if at all, under its id. -/
  live : ∀ id torrent, v.db.torrents.lookup id = some torrent →
    Matches v.content id torrent.infoHash
  /-- The session has no torrent with the id or the info hash of one that is being deleted. -/
  free : ∀ (i : ℕ) (d : DeleteTask H) (torrent : Handle H), v.deletes[i]? = some d →
    d.pending = some torrent → v.db.torrents.lookup torrent.id = none ∧
      v.db.infoHashToId.lookup torrent.infoHash = none
  fine : ∀ d ∈ v.deletes, d.Fine v.content v.disk
  distinct : ∀ (i j : ℕ) (d d' : DeleteTask H) (torrent torrent' : Handle H),
    v.deletes[i]? = some d → v.deletes[j]? = some d' → d.pending = some torrent →
      d'.pending = some torrent' → torrent.infoHash = torrent'.infoHash → i = j
  /-- What is only in `session.json` is about to be written away. -/
  written : ∀ id st, v.disk.lookup id = some st → ¬ Lacks v.content st.infoHash ∨
    ∃ torrent, DeleteTask.flushing torrent st.infoHash ∈ v.deletes
  deleted : ∀ infoHash ∈ v.deleted, v.db.infoHashToId.lookup infoHash = none ∧
    Lacks v.content infoHash ∧ Lacks v.disk infoHash

section

variable (hv : v.Inv)
include hv

/-- What a delete does next does not change whose it is. -/
lemma Inv.free_set (hi : v.deletes[i]? = some d) (d' : DeleteTask H)
    (hd : ∀ t, d'.pending = some t → d.pending = some t) :
    (∀ (j : ℕ) (x : DeleteTask H) (t : Handle H), (v.deletes.set i d')[j]? = some x →
      x.pending = some t →
      v.db.torrents.lookup t.id = none ∧ v.db.infoHashToId.lookup t.infoHash = none) ∧
    ∀ (j k : ℕ) (x y : DeleteTask H) (t u : Handle H), (v.deletes.set i d')[j]? = some x →
      (v.deletes.set i d')[k]? = some y → x.pending = some t → y.pending = some u →
      t.infoHash = u.infoHash → j = k := by
  have hback : ∀ (j : ℕ) (x : DeleteTask H) (t : Handle H), (v.deletes.set i d')[j]? = some x →
      x.pending = some t → ∃ y, v.deletes[j]? = some y ∧ y.pending = some t := by
    intro j x t hj hx
    rcases getElem?_set_cases hj with hj | ⟨rfl, rfl⟩
    · exact ⟨x, hj, hx⟩
    · exact ⟨d, hi, hd t hx⟩
  constructor
  · intro j x t hj hx
    obtain ⟨y, hj, hy⟩ := hback j x t hj hx
    exact hv.free j y t hj hy
  intro j k x y t u hj hk hx hy heq
  obtain ⟨x', hj, hx'⟩ := hback j x t hj hx
  obtain ⟨y', hk, hy'⟩ := hback k y u hk hy
  exact hv.distinct j k x' y' t u hj hk hx' hy' heq

variable {id : ℕ}

/-- A torrent of the session has another id and another info hash than one that is being deleted. -/
lemma Inv.ne_of_pending (hd : d ∈ v.deletes) (hpending : d.pending = some torrent)
    {t : Handle H} (ht : v.db.torrents.lookup id = some t) :
    id ≠ torrent.id ∧ t.infoHash ≠ torrent.infoHash := by
  obtain ⟨i, hi⟩ := mem_iff_getElem?.mp hd
  obtain ⟨hid, hhash⟩ := hv.free i d torrent hi hpending
  constructor
  · rintro rfl
    rw [hid] at ht
    cases ht
  intro heq
  have hindex := hv.inverse.index_of_lookup ht
  rw [heq, hhash] at hindex
  cases hindex

variable {st : SerializedTorrent H M}

/-- **A torrent of the session is entered into the store.** -/
theorem Inv.insert (hlive : v.db.torrents.lookup torrent.id = some torrent)
    (hst : st.infoHash = torrent.infoHash) :
    Inv { v with content := v.content.insert torrent.id st } where
  inverse := hv.inverse
  live id t ht := by
    refine (hv.live id t ht).insert ⟨?_, fun heq => ?_⟩
    · rintro rfl
      rw [hlive] at ht
      cases ht
      exact hst
    · exact hv.inverse.eq_of_infoHash hlive ht (hst.symm.trans heq)
  free := hv.free
  fine d hd := by
    have hfine := hv.fine d hd
    have hne : ∀ t, d.pending = some t → torrent.id ≠ t.id ∧ torrent.infoHash ≠ t.infoHash :=
      fun t ht => hv.ne_of_pending hd ht hlive
    cases d with
    | erasing id t =>
      obtain ⟨rfl, hmatches⟩ := hfine
      obtain ⟨hid, hhash⟩ := hne t rfl
      exact ⟨rfl, hmatches.insert (iff_of_false hid fun heq => hhash (hst.symm.trans heq))⟩
    | flushing t infoHash =>
      obtain ⟨rfl, hlacks⟩ := hfine
      exact ⟨rfl, hlacks.insert (fun heq => (hne t rfl).2 (hst.symm.trans heq)) _⟩
    | removingTorrentFile t infoHash | removingBitv t infoHash =>
      obtain ⟨rfl, hlacks, hdisk⟩ := hfine
      exact ⟨rfl, hlacks.insert (fun heq => (hne t rfl).2 (hst.symm.trans heq)) _, hdisk⟩
    | removing | completed | notFound => trivial
  distinct := hv.distinct
  written id st' h := by
    refine (hv.written id st' h).imp_left fun hnot hlacks => hnot fun id' st'' h' heq => ?_
    -- What the new entry replaces has the info hash of the torrent, too.
    by_cases hid : id' = torrent.id
    · subst hid
      have hhash := (hv.live torrent.id torrent hlive torrent.id st'' h').mp rfl
      exact hlacks torrent.id st (AList.lookup_insert _) (hst.trans (hhash.symm.trans heq))
    · exact hlacks id' st'' ((AList.lookup_insert_ne hid).trans h') heq
  deleted infoHash h := by
    obtain ⟨hindex, hcontent, hdisk⟩ := hv.deleted infoHash h
    refine ⟨hindex, hcontent.insert (fun heq => ?_) _, hdisk⟩
    have hlookup := hv.inverse.index_of_lookup hlive
    rw [← hst, heq, hindex] at hlookup
    cases hlookup

/-- **The store is written.** -/
theorem Inv.flush : Inv { v with disk := v.content } where
  inverse := hv.inverse
  live := hv.live
  free := hv.free
  fine d hd := by
    have hfine := hv.fine d hd
    cases d with
    | erasing | flushing => exact hfine
    | removingTorrentFile t infoHash
    | removingBitv t infoHash => exact ⟨hfine.1, hfine.2.1, hfine.2.1⟩
    | removing | completed | notFound => trivial
  distinct := hv.distinct
  written id st h := .inl fun hlacks => hlacks id st h rfl
  deleted infoHash h := ⟨(hv.deleted infoHash h).1, (hv.deleted infoHash h).2.1,
    (hv.deleted infoHash h).2.1⟩

/-- **A torrent is taken out of the session.** -/
theorem Inv.removeTorrent (id : ℕ) : Inv { v with db := v.db.removeTorrent id } where
  inverse := hv.inverse.removeTorrent id
  live id' t ht := hv.live id' t (lookup_of_removeTorrent ht)
  free i d t hi ht :=
    ⟨lookup_removeTorrent_of_none (hv.free i d t hi ht).1,
      index_removeTorrent_of_none (hv.free i d t hi ht).2⟩
  fine := hv.fine
  distinct := hv.distinct
  written := hv.written
  deleted infoHash h :=
    ⟨index_removeTorrent_of_none (hv.deleted infoHash h).1, (hv.deleted infoHash h).2⟩

/-- **A torrent is entered into the session**, while neither a delete nor the store has its id or
its info hash. -/
theorem Inv.enter (hid : v.db.torrents.lookup torrent.id = none)
    (hhash : v.db.infoHashToId.lookup torrent.infoHash = none)
    (hdeletes : ∀ d ∈ v.deletes, ∀ t ∈ d.pending, t.id ≠ torrent.id ∧ t.infoHash ≠ torrent.infoHash)
    (hcontent : Matches v.content torrent.id torrent.infoHash) :
    Inv { v with
      db := v.db.addTorrent torrent torrent.id
      deleted := v.deleted.filter (· ≠ torrent.infoHash) } where
  inverse := hv.inverse.addTorrent hid hhash
  live id t ht := by
    rcases Table.lookup_insert_cases ht with ⟨rfl, rfl⟩ | ⟨-, ht⟩
    · exact hcontent
    · exact hv.live id t ht
  free i d t hi ht := by
    obtain ⟨hneid, hnehash⟩ := hdeletes d (mem_of_getElem? hi) t ht
    exact ⟨(AList.lookup_insert_ne hneid).trans (hv.free i d t hi ht).1,
      (AList.lookup_insert_ne hnehash).trans (hv.free i d t hi ht).2⟩
  fine := hv.fine
  distinct := hv.distinct
  written := hv.written
  deleted infoHash h := by
    obtain ⟨h, hne⟩ := mem_filter.mp h
    exact ⟨(AList.lookup_insert_ne (of_decide_eq_true hne)).trans (hv.deleted infoHash h).1,
      (hv.deleted infoHash h).2⟩

/-- **A delete is called.** -/
theorem Inv.call (id : ℕ) : Inv { v with deletes := v.deletes ++ [.removing id] } where
  inverse := hv.inverse
  live := hv.live
  free i d t hi ht := by
    rcases getElem?_concat_cases hi with hi | ⟨-, rfl⟩
    · exact hv.free i d t hi ht
    · cases ht
  fine := forall_mem_concat hv.fine trivial
  distinct i j d d' t t' hi hj ht ht' heq := by
    rcases getElem?_concat_cases hi with hi | ⟨-, rfl⟩
    · rcases getElem?_concat_cases hj with hj | ⟨-, rfl⟩
      · exact hv.distinct i j d d' t t' hi hj ht ht' heq
      · cases ht'
    · cases ht
  written id' st h := by
    refine (hv.written id' st h).imp_right ?_
    rintro ⟨t, ht⟩
    exact ⟨t, mem_append_left _ ht⟩
  deleted := hv.deleted

/-- **A delete takes the torrent out of the session.** -/
theorem Inv.start (hi : v.deletes[i]? = some (.removing id))
    (hid : v.db.torrents.lookup id = some torrent) :
    Inv { v with
      db := v.db.removeTorrent id
      deletes := v.deletes.set i (.erasing id torrent) } := by
  have hr := hv.removeTorrent id
  have hown := hv.inverse.ownId id torrent hid
  have hgone := removeTorrent_of_some hid
  -- No other delete is of a torrent with this info hash, since the session had this one.
  have hother : ∀ (j : ℕ) (d : DeleteTask H) (t : Handle H), v.deletes[j]? = some d →
      d.pending = some t → t.infoHash ≠ torrent.infoHash := fun j d t hj ht heq =>
    (hv.ne_of_pending (mem_of_getElem? hj) ht hid).2 heq.symm
  refine ⟨hr.inverse, hr.live, fun j d t hj ht => ?_, ?_, fun j k d d' t t' hj hk ht ht' heq => ?_,
    fun id' st h => ?_, hr.deleted⟩
  · rcases getElem?_set_cases hj with hj | ⟨-, rfl⟩
    · exact hr.free j d t hj ht
    · cases ht
      exact ⟨hown.symm ▸ hgone.1, hgone.2⟩
  · exact forall_mem_set hr.fine ⟨hown, hv.live id torrent hid⟩
  · rcases getElem?_set_cases hj with hj | ⟨hji, rfl⟩
    · rcases getElem?_set_cases hk with hk | ⟨-, rfl⟩
      · exact hv.distinct j k d d' t t' hj hk ht ht' heq
      · cases ht'
        exact absurd heq (hother j d t hj ht)
    · rcases getElem?_set_cases hk with hk | ⟨hki, -⟩
      · cases ht
        exact absurd heq.symm (hother k d' t' hk ht')
      · exact hji.trans hki.symm
  · refine (hv.written id' st h).imp_right ?_
    rintro ⟨t, ht⟩
    exact ⟨t, mem_set_of_ne hi ht (fun h => by cases h) _⟩

/-- **A delete takes the entry out of the store.** -/
theorem Inv.eraseEntry (hi : v.deletes[i]? = some (.erasing id torrent))
    (hst : v.content.lookup id = some st) :
    Inv { v with
      content := v.content.erase id
      deletes := v.deletes.set i (.flushing torrent st.infoHash) } := by
  obtain ⟨rfl, hmatches⟩ := hv.fine _ (mem_of_getElem? hi)
  have hhash : st.infoHash = torrent.infoHash := (hmatches _ st hst).mp rfl
  obtain ⟨hfree, hdistinct⟩ := hv.free_set hi (.flushing torrent st.infoHash) fun t ht => ht
  refine ⟨hv.inverse, fun id t ht => (hv.live id t ht).erase _, hfree, ?_, hdistinct,
    fun id' st' h => ?_, fun infoHash h => ?_⟩
  · refine forall_mem_set (fun d hd => ?_) ⟨hhash, hhash ▸ hmatches.lacks_erase⟩
    have hfine := hv.fine d hd
    cases d with
    | erasing id t | flushing t infoHash => exact ⟨hfine.1, hfine.2.erase _⟩
    | removingTorrentFile t infoHash
    | removingBitv t infoHash => exact ⟨hfine.1, hfine.2.1.erase _, hfine.2.2⟩
    | removing | completed | notFound => trivial
  · by_cases heq : st.infoHash = st'.infoHash
    · right
      exact ⟨torrent, heq ▸ mem_of_getElem? (getElem?_set_of_some hi _)⟩
    rcases hv.written id' st' h with hnot | ⟨t, ht⟩
    · refine .inl fun hlacks => hnot fun id'' st'' h'' heq' => ?_
      have hne : id'' ≠ torrent.id := by
        rintro rfl
        rw [hst] at h''
        exact heq ((congrArg _ (Option.some.inj h'')).trans heq')
      exact hlacks id'' st'' ((AList.lookup_erase_ne hne).trans h'') heq'
    · exact .inr ⟨t, mem_set_of_ne hi ht (fun h => by cases h) _⟩
  · obtain ⟨hindex, hcontent, hdisk⟩ := hv.deleted infoHash h
    exact ⟨hindex, hcontent.erase _, hdisk⟩

/-- **A delete writes the store.** -/
theorem Inv.flushDelete {infoHash : H} (hi : v.deletes[i]? = some (.flushing torrent infoHash)) :
    Inv { v with
      disk := v.content
      deletes := v.deletes.set i (.removingTorrentFile torrent infoHash) } := by
  have hf := hv.flush
  obtain ⟨heq, hlacks⟩ := hv.fine _ (mem_of_getElem? hi)
  obtain ⟨hfree, hdistinct⟩ := hv.free_set hi (.removingTorrentFile torrent infoHash)
    fun t ht => ht
  exact ⟨hv.inverse, hv.live, hfree, forall_mem_set hf.fine ⟨heq, hlacks, hlacks⟩, hdistinct,
    fun id st h => .inl fun hlacks => hlacks id st h rfl, hf.deleted⟩

/-- **A delete goes on, or ends**, and is not about to write. -/
theorem Inv.setDelete (hi : v.deletes[i]? = some d) (d' : DeleteTask H)
    (hd : ∀ t infoHash, d ≠ .flushing t infoHash)
    (hpending : ∀ t, d'.pending = some t → d.pending = some t) (hfine : d'.Fine v.content v.disk) :
    Inv { v with deletes := v.deletes.set i d' } := by
  obtain ⟨hfree, hdistinct⟩ := hv.free_set hi d' hpending
  refine ⟨hv.inverse, hv.live, hfree, forall_mem_set hv.fine hfine, hdistinct,
    fun id st h => (hv.written id st h).imp_right ?_, hv.deleted⟩
  rintro ⟨t, ht⟩
  exact ⟨t, mem_set_of_ne hi ht (hd t st.infoHash).symm _⟩

/-- **A delete is complete**: nothing is stored of its torrent. -/
theorem Inv.complete (hi : v.deletes[i]? = some d) (hd : ∀ t infoHash, d ≠ .flushing t infoHash)
    (hcontent : Lacks v.content torrent.infoHash) (hdisk : Lacks v.disk torrent.infoHash) :
    Inv { v with
      deletes := v.deletes.set i (.completed torrent)
      deleted := if (v.db.infoHashToId.lookup torrent.infoHash).isSome then v.deleted
        else torrent.infoHash :: v.deleted } := by
  have hs := hv.setDelete hi (.completed torrent) hd (fun t ht => by cases ht) trivial
  refine ⟨hs.inverse, hs.live, hs.free, hs.fine, hs.distinct, hs.written, fun infoHash h => ?_⟩
  split at h
  · exact hv.deleted infoHash h
  next hnone =>
  rcases mem_cons.mp h with rfl | h
  · exact ⟨Option.not_isSome_iff_eq_none.mp hnone, hcontent, hdisk⟩
  · exact hv.deleted infoHash h

/-- Nothing is stored of a torrent that the store has no entry for when it is deleted. -/
lemma Inv.lacks_of_erasing (hi : v.deletes[i]? = some (.erasing id torrent))
    (hnone : v.content.lookup id = none) :
    Lacks v.content torrent.infoHash ∧ Lacks v.disk torrent.infoHash := by
  obtain ⟨-, hmatches⟩ := hv.fine _ (mem_of_getElem? hi)
  have hcontent := hmatches.lacks_of_none hnone
  refine ⟨hcontent, fun id' st h heq => ?_⟩
  rcases hv.written id' st h with hnot | ⟨t, ht⟩
  · exact hnot (heq ▸ hcontent)
  -- Another delete of the info hash is about to write; there is no other.
  obtain ⟨hhash, -⟩ := hv.fine _ ht
  obtain ⟨j, hj⟩ := mem_iff_getElem?.mp ht
  have hij := hv.distinct i j _ _ torrent t hi hj rfl rfl (heq.symm.trans hhash)
  rw [hij, hj] at hi
  cases hi

end

end View

end Librtbit.Session
