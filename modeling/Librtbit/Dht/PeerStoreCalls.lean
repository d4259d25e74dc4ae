import Librtbit.Dht.PeerStore
import Librtbit.Machinery.Pool
import Librtbit.Machinery.Tally

/-!
# Dht/PeerStoreCalls — what holds of the peer store between calls

Whatever the order of the steps, an address is stored once for an info hash, and only if it was
announced with a token that had been issued for it (`Genuine`).

The rest needs what a call has seen to hold still when it acts on it (`upToDate`).  There are three
ways in which it may not: `store_peer` pushes a peer under a counter it has read earlier; the
collector removes an entry it has seen empty earlier; and it stores a count that it has taken
earlier.  `storePeer_sound` says that without these, no peer gets lost and the count is right.
-/

namespace Librtbit.Dht

open Machinery Net Dht.PeerStore Dht.PeerTask Dht.CollectTask List

/-! ## Peers of an info hash -/

namespace PeerStore

variable {s : PeerStore} {h h' : Id20} {ps : List StoredPeer} (peers : Table Id20 (List StoredPeer))

@[simp] lemma maxRememberedPeers_withPeers :
    (s.withPeers peers).maxRememberedPeers = s.maxRememberedPeers := rfl

@[simp] lemma peersLen_withPeers :
    (s.withPeers peers).peersLen = s.peersLen := rfl

@[simp] lemma peersOf_insert_self : (s.withPeers (s.peers.insert h ps)).peersOf h = ps := by
  rw [peersOf, withPeers, AList.lookup_insert]
  rfl

lemma peersOf_insert_of_ne (hne : h' ≠ h) :
    (s.withPeers (s.peers.insert h ps)).peersOf h' = s.peersOf h' := by
  rw [peersOf, withPeers, AList.lookup_insert_ne hne, peersOf]

@[simp] lemma peersOf_erase_self : (s.withPeers (s.peers.erase h)).peersOf h = [] := by
  rw [peersOf, withPeers, AList.lookup_erase]
  rfl

lemma peersOf_erase_of_ne (hne : h' ≠ h) :
    (s.withPeers (s.peers.erase h)).peersOf h' = s.peersOf h' := by
  rw [peersOf, withPeers, AList.lookup_erase_ne hne, peersOf]

lemma length_peersOf (s : PeerStore) (h : Id20) :
    (s.peersOf h).length = ((s.peers.lookup h).map List.length).getD 0 := by
  rw [peersOf]
  cases s.peers.lookup h with
  | none | some ps => rfl

lemma total_insert (s : PeerStore) (h : Id20) (ps : List StoredPeer) :
    (s.withPeers (s.peers.insert h ps)).total + (s.peersOf h).length = s.total + ps.length := by
  rw [length_peersOf]
  exact Table.weight_insert List.length s.peers h ps

lemma total_erase (s : PeerStore) (h : Id20) :
    (s.withPeers (s.peers.erase h)).total + (s.peersOf h).length = s.total := by
  rw [length_peersOf]
  exact Table.weight_erase List.length s.peers h

end PeerStore

/-! ## What a step does -/

/-- Whether `store_peer` has stored its peer. -/
def StorePhase.hasStored : StorePhase → Bool
  | .count | .returned true => true
  | _ => false

/-- What a step of `store_peer` does. -/
inductive StoreEffect (s : PeerStore) (task : StoreTask) (now : DateTime) :
    PeerStore → StoreTask → Prop
  | refuse (hphase : task.phase.hasStored = false) :
      StoreEffect s task now s { task with phase := .returned false }
  | accept {t} (hphase : task.phase = .check) (ht : t ∈ s.tokens)
      (hfor : t.isFor task.announce task.addr = true) :
      StoreEffect s task now s { task with phase := .entry }
  | enter (hphase : task.phase = .entry) :
      StoreEffect s task now s { task with phase := .update s.peersLen }
  | refresh {peersLen ps} (hphase : task.phase = .update peersLen)
      (haddrs : ps.map StoredPeer.addr = (s.peersOf task.announce.infoHash).map StoredPeer.addr) :
      StoreEffect s task now (s.withPeers (s.peers.insert task.announce.infoHash ps))
        { task with phase := .returned true }
  | push {peersLen} (hphase : task.phase = .update peersLen)
      (hroom : peersLen < s.maxRememberedPeers)
      (hnew : task.announce.peerAddr task.addr ∉
        (s.peersOf task.announce.infoHash).map StoredPeer.addr) :
      StoreEffect s task now
        (s.withPeers (s.peers.insert task.announce.infoHash
          (s.peersOf task.announce.infoHash ++ [⟨task.announce.peerAddr task.addr, now⟩])))
        { task with phase := .count }
  | count (hphase : task.phase = .count) :
      StoreEffect s task now { s with peersLen := s.peersLen + 1 }
        { task with phase := .returned true }

variable {now : DateTime} {s s' : PeerStore} {locked : Id20 → Bool}

lemma storeEffect_of_advance {task task'}
    (h : s.advanceStore locked now task = some (s', task')) :
    StoreEffect s task now s' task' := by
  rw [advanceStore] at h
  split at h
  · next hphase =>
    have hnot : task.phase.hasStored = false := by
      rw [hphase]
      rfl
    split at h
    · cases h
      exact .refuse hnot
    split at h
    · next hany =>
      cases h
      obtain ⟨t, ht, hfor⟩ := any_eq_true.mp hany
      exact .accept hphase ht hfor
    · cases h
      exact .refuse hnot
  · next hphase =>
    split at h <;> cases h
    exact .enter hphase
  · next peersLen hphase =>
    dsimp only at h
    split at h
    · cases h
      exact .refresh hphase (map_modify_of_forall _ _ fun _ => rfl)
    next hnone =>
    split at h
    · cases h
      refine .refuse ?_
      rw [hphase]
      rfl
    · next hroom =>
      cases h
      refine .push hphase (Nat.not_le.mp hroom) fun hmem => ?_
      obtain ⟨p, hp, hpa⟩ := mem_map.mp hmem
      have hne := findIdx?_eq_none_iff.mp hnone p hp
      simp [hpa] at hne
  · next hphase =>
    cases h
    exact .count hphase
  · cases h

/-- **Why the collector may drop a peer**: it is too old, there are too many for its info hash, or
too many in all. -/
def CollectTask.MayDrop (task : CollectTask) (s : PeerStore) (h : Id20) (p : StoredPeer) : Prop :=
  match task.phase with
  | .clean _ _ => p.time ≤ task.now - peerTtl ∨ maxPeersPerInfoHash <
      ((s.peersOf h).filter fun p => p.time > task.now - peerTtl).length
  | .evict _ _ _ => s.maxRememberedPeers < s.total
  | _ => False

def CollectPhase.isOver : CollectPhase → Bool
  | .over => true
  | _ => false

/-- The entry that the collector removes next. -/
def CollectTask.removes (task : CollectTask) : Option Id20 :=
  match task.phase with
  | .removeEmpty (h :: _) | .removeEvicted _ _ h _ => some h
  | _ => none

/-- The entry that the collector evicts peers from next. -/
def CollectTask.evicts (task : CollectTask) : Option Id20 :=
  match task.phase with
  | .evict toEvict evicted (h :: _) => if evicted < toEvict then some h else none
  | _ => none

/-- The count that the collector stores next. -/
def CollectTask.counts (task : CollectTask) : Option ℕ :=
  match task.phase with
  | .storeCount n => some n
  | _ => none

/-- What a step of the collector does. -/
inductive CollectEffect (s : PeerStore) (task : CollectTask) : PeerStore → CollectTask → Prop
  | tokens {tokens phase} (hphase : phase.isOver = false)
      (hsub : tokens.Sublist s.tokens) :
      CollectEffect s task { s with tokens } { task with phase }
  | look {phase} (hphase : phase.isOver = false) :
      CollectEffect s task s { task with phase }
  | shrink {h ps phase} (hphase : phase.isOver = false)
      (hsub : ps.Subperm (s.peersOf h))
      (hdrop : ∀ p ∈ s.peersOf h, p ∈ ps ∨ task.MayDrop s h p ∨ task.evicts = some h) :
      CollectEffect s task (s.withPeers (s.peers.insert h ps)) { task with phase }
  | erase {h phase} (hphase : phase.isOver = false)
      (hremoves : task.removes = some h) :
      CollectEffect s task (s.withPeers (s.peers.erase h)) { task with phase }
  | store {n} (hcounts : task.counts = some n) :
      CollectEffect s task { s with peersLen := n } { task with phase := .over }

lemma cleaned_subperm (now : DateTime) (ps : List StoredPeer) : (cleaned now ps).Subperm ps := by
  rw [cleaned]
  split
  · exact ((take_sublist _ _).subperm.trans (mergeSort_perm _ _).subperm).trans
      filter_sublist.subperm
  · exact filter_sublist.subperm

/-- What is not left of the peers of an info hash. -/
lemma mem_cleaned_or {ps p} (hp : p ∈ ps) :
    p ∈ cleaned now ps ∨ p.time ≤ now - peerTtl ∨
      maxPeersPerInfoHash <
        (ps.filter fun p => p.time > now - peerTtl).length := by
  rw [cleaned]
  by_cases htime : p.time ≤ now - peerTtl
  · exact .inr (.inl htime)
  · split
    · next hlength => exact .inr (.inr hlength)
    · exact .inl (mem_filter.mpr ⟨hp, decide_eq_true (not_le.mp htime)⟩)

variable {task task' : CollectTask}

lemma collectEffect_of_advance {next}
    (h : s.advanceCollect locked next task = some (s', task')) : CollectEffect s task s' task' := by
  rw [advanceCollect.eq_def] at h
  split at h
  · cases h
    exact .tokens rfl filter_sublist
  · next walk emptyHashes hphase =>
    split at h
    · split at h <;> cases h
      refine .shrink rfl (cleaned_subperm _ _) fun p hp => ?_
      rw [CollectTask.MayDrop, hphase]
      exact (mem_cleaned_or hp).imp_right .inl
    · split at h <;> cases h
      exact .look rfl
  · cases h
    exact .look rfl
  · next hash hashes hphase =>
    split at h <;> cases h
    refine .erase rfl ?_
    rw [removes, hphase]
  · repeat' split at h
    all_goals cases h
    all_goals exact .look rfl
  · repeat' split at h
    all_goals cases h
    all_goals exact .look rfl
  · cases h
    exact .look rfl
  · next toEvict evicted hash entries hphase =>
    split at h
    · cases h
      exact .look rfl
    next hmore =>
    have hevicts : task.evicts = some hash := by
      rw [evicts, hphase]
      exact if_pos (Nat.not_le.mp hmore)
    split at h
    · cases h
    split at h
    · dsimp only at h
      split at h <;> cases h
      all_goals
        exact .shrink rfl ((drop_sublist _ _).subperm.trans
          (mergeSort_perm _ _).subperm) fun _ _ => .inr (.inr hevicts)
    · cases h
      exact .look rfl
  · next toEvict evicted hash entries hphase =>
    split at h <;> cases h
    refine .erase rfl ?_
    rw [removes, hphase]
  · repeat' split at h
    all_goals cases h
    all_goals exact .look rfl
  · next finalCount hphase =>
    cases h
    refine .store ?_
    rw [counts, hphase]
  · cases h

/-- The addresses that are stored for an info hash. -/
def PeerStore.addrsOf (s : PeerStore) (h : Id20) : List SocketAddr :=
  (s.peersOf h).map StoredPeer.addr

lemma StoreEffect.tokens_eq {task task'} (h : StoreEffect s task now s' task') :
    s'.tokens = s.tokens ∧ s'.maxRememberedTokens = s.maxRememberedTokens ∧
      s'.maxRememberedPeers = s.maxRememberedPeers ∧ task'.announce = task.announce ∧
      task'.addr = task.addr := by
  cases h <;> exact ⟨rfl, rfl, rfl, rfl, rfl⟩

lemma StoreEffect.hasStored {task task'} (h : StoreEffect s task now s' task')
    (hstored : task.phase.hasStored) : task'.phase.hasStored := by
  cases h with
  | refuse hphase =>
    rw [hphase] at hstored
    cases hstored
  | accept hphase _ _ | enter hphase | refresh hphase _ | push hphase _ _ =>
    rw [hphase] at hstored
    cases hstored
  | count _ => rfl

/-- **`store_peer` keeps the addresses it finds**, and may add the one that was announced. -/
theorem StoreEffect.addrsOf {task task'} (heff : StoreEffect s task now s' task') (h : Id20) :
    s'.addrsOf h = s.addrsOf h ∨
      (h = task.announce.infoHash ∧ (∃ n, task.phase = .update n) ∧ task'.phase.hasStored ∧
        task.announce.peerAddr task.addr ∉ s.addrsOf h ∧
        s'.addrsOf h = s.addrsOf h ++ [task.announce.peerAddr task.addr]) := by
  cases heff with
  | refuse _ | accept _ _ _ | enter _ | count _ => exact .inl rfl
  | refresh hphase haddrs =>
    left
    by_cases hh : h = task.announce.infoHash
    · subst hh
      rw [PeerStore.addrsOf, PeerStore.peersOf_insert_self, haddrs, PeerStore.addrsOf]
    · rw [PeerStore.addrsOf, PeerStore.peersOf_insert_of_ne hh, PeerStore.addrsOf]
  | push hphase hroom hnew =>
    by_cases hh : h = task.announce.infoHash
    · subst hh
      refine .inr ⟨rfl, ⟨_, hphase⟩, rfl, hnew, ?_⟩
      rw [PeerStore.addrsOf, PeerStore.peersOf_insert_self, map_append]
      rfl
    · rw [PeerStore.addrsOf, PeerStore.peersOf_insert_of_ne hh]
      exact .inl rfl

lemma CollectEffect.tokens_sublist (h : CollectEffect s task s' task') :
    s'.tokens.Sublist s.tokens ∧ s'.maxRememberedTokens = s.maxRememberedTokens ∧
      s'.maxRememberedPeers = s.maxRememberedPeers := by
  cases h with
  | tokens _ hsub => exact ⟨hsub, rfl, rfl⟩
  | look _ | shrink _ _ _ | erase _ _ | store _ => exact ⟨.refl _, rfl, rfl⟩

/-- The collector adds no address. -/
lemma CollectEffect.addrsOf (heff : CollectEffect s task s' task') (h : Id20) :
    (s'.addrsOf h).Subperm (s.addrsOf h) := by
  cases heff with
  | tokens _ _ | look _ | store _ => exact .refl _
  | @shrink hash ps _ _ hsub _ =>
    by_cases hh : h = hash
    · subst hh
      rw [PeerStore.addrsOf, PeerStore.peersOf_insert_self]
      obtain ⟨l, hperm, hsublist⟩ := hsub
      exact ⟨l.map StoredPeer.addr, hperm.map _, hsublist.map _⟩
    · rw [PeerStore.addrsOf, PeerStore.peersOf_insert_of_ne hh]
      exact .refl _
  | @erase hash _ _ _ =>
    by_cases hh : h = hash
    · subst hh
      rw [PeerStore.addrsOf, PeerStore.peersOf_erase_self]
      exact nil_subperm
    · rw [PeerStore.addrsOf, PeerStore.peersOf_erase_of_ne hh]
      exact .refl _

/-! ## What every step keeps -/

/-- A token was issued to the node and the address that an announcement comes from. -/
def Entitled (issued : List StoredToken) (announce : AnnouncePeer) (addr : SocketAddr) : Prop :=
  ∃ t ∈ issued, t.isFor announce addr = true

variable {issued issued' : List StoredToken}

lemma Entitled.mono {announce addr} (hsub : issued ⊆ issued') (h : Entitled issued announce addr) :
    Entitled issued' announce addr := by
  obtain ⟨t, ht, hfor⟩ := h
  exact ⟨t, hsub ht, hfor⟩

/-- A peer that was pushed is still to be counted. -/
def PeerTask.uncounted : PeerTask → ℤ
  | .store { phase := .count, .. } => 1
  | _ => 0

def PeerTask.isOver : PeerTask → Bool
  | .store { phase := .returned _, .. } => true
  | .collect { phase := .over, .. } => true
  | _ => false

lemma PeerTask.isOver_collect {task}
    (h : isOver (.collect task)) : task.phase.isOver := by
  obtain ⟨now, phase⟩ := task
  cases phase with
  | «over» => rfl
  | _ => cases h

lemma PeerTask.uncounted_of_isOver {task : PeerTask} (h : task.isOver) :
    task.uncounted = 0 := by
  match task with
  | .store ⟨_, _, .returned _⟩ | .collect _ => rfl

namespace PeerStoreCalls

variable {s s' : PeerStoreCalls} {a : PeerStoreStep}

/-- A step of a call, or one that begins or is a call. -/
inductive Effect (s : PeerStoreCalls) : PeerStoreStep → PeerStoreCalls → Prop
  | genTokenFor (token : StoredToken) :
      Effect s (.genTokenFor token)
        { s with store := s.store.genTokenFor token, issued := token :: s.issued }
  | storePeer (announce : AnnouncePeer) (addr : SocketAddr) :
      Effect s (.storePeer announce addr)
        { s with tasks := s.tasks ++ [.store { announce, addr }] }
  | garbageCollectPeers (now : DateTime) :
      Effect s (.garbageCollectPeers now) { s with tasks := s.tasks ++ [.collect { now }] }
  | store {id now next task task' store} (htask : s.tasks[id]? = some (.store task))
      (heff : StoreEffect s.store task now store task') :
      Effect s (.advance id now next) { s with store, tasks := s.tasks.set id (.store task') }
  | collect {id now next task task' store} (htask : s.tasks[id]? = some (.collect task))
      (heff : CollectEffect s.store task store task') :
      Effect s (.advance id now next) { s with store, tasks := s.tasks.set id (.collect task') }

lemma effect_of_step (h : s.step a = some s') : Effect s a s' := by
  cases a with
  | genTokenFor token =>
    cases h
    exact .genTokenFor token
  | storePeer announce addr =>
    cases h
    exact .storePeer announce addr
  | garbageCollectPeers now =>
    cases h
    exact .garbageCollectPeers now
  | advance id now next =>
    obtain ⟨task, htask, h⟩ := Option.bind_eq_some_iff.mp h
    cases task with
    | store task =>
      obtain ⟨⟨store, task'⟩, hadvance, rfl⟩ := Option.map_eq_some_iff.mp h
      exact .store htask (storeEffect_of_advance hadvance)
    | collect task =>
      obtain ⟨⟨store, task'⟩, hadvance, rfl⟩ := Option.map_eq_some_iff.mp h
      exact .collect htask (collectEffect_of_advance hadvance)

/-- **A peer was announced**: there is a call of `store_peer` that has stored it, with a token that
had been issued to the node and the address the call came from. -/
def Announced (s : PeerStoreCalls) (infoHash : Id20) (peer : SocketAddr) : Prop :=
  ∃ task, PeerTask.store task ∈ s.tasks ∧ task.phase.hasStored = true ∧
    task.announce.infoHash = infoHash ∧ task.announce.peerAddr task.addr = peer ∧
    Entitled s.issued task.announce task.addr

/-- No call is forgotten, and none takes back what it has stored. -/
lemma Announced.step {h peer} (heff : Effect s a s') (hs : Announced s h peer) :
    Announced s' h peer := by
  obtain ⟨task, htask, hstored, rfl, rfl, hentitled⟩ := hs
  cases heff with
  | genTokenFor token =>
    exact ⟨task, htask, hstored, rfl, rfl, hentitled.mono (subset_cons_self _ _)⟩
  | storePeer _ _ | garbageCollectPeers _ =>
    exact ⟨task, mem_append_left _ htask, hstored, rfl, rfl, hentitled⟩
  | @store id _ _ other other' _ hother heff =>
    obtain ⟨i, hi⟩ := getElem?_of_mem htask
    by_cases hid : id = i
    · subst hid
      cases hother.symm.trans hi
      obtain ⟨-, -, -, hannounce, haddr⟩ := heff.tokens_eq
      rw [← hannounce, ← haddr] at hentitled ⊢
      exact ⟨other', mem_of_getElem? (getElem?_set_of_some hother _), heff.hasStored hstored, rfl,
        rfl, hentitled⟩
    · exact ⟨task, mem_of_getElem? ((getElem?_set_ne hid).trans hi), hstored, rfl, rfl, hentitled⟩
  | @collect id _ _ _ _ _ hother _ =>
    obtain ⟨i, hi⟩ := getElem?_of_mem htask
    have hid : id ≠ i := by
      rintro rfl
      cases hother.symm.trans hi
    exact ⟨task, mem_of_getElem? ((getElem?_set_ne hid).trans hi), hstored, rfl, rfl, hentitled⟩

/-- **What holds in any order of the steps.** -/
structure Genuine (s : PeerStoreCalls) : Prop where
  tokens_le : s.store.tokens.length ≤ s.store.maxRememberedTokens
  tokens_issued : s.store.tokens ⊆ s.issued
  tasks_entitled : ∀ task, PeerTask.store task ∈ s.tasks → task.phase ≠ .check →
    task.phase ≠ .returned false → Entitled s.issued task.announce task.addr
  addrs_nodup : ∀ h, (s.store.addrsOf h).Nodup
  addrs_announced : ∀ h, ∀ addr ∈ s.store.addrsOf h, Announced s h addr

lemma length_genTokenFor_le (store : PeerStore) (token : StoredToken)
    (h : store.tokens.length ≤ store.maxRememberedTokens) :
    (store.genTokenFor token).tokens.length ≤ store.maxRememberedTokens ∧
      (store.genTokenFor token).tokens ⊆ token :: store.tokens := by
  have hsub : store.tokens ++ [token] ⊆ token :: store.tokens := by
    intro t ht
    rcases mem_append.mp ht with ht | ht
    · exact mem_cons_of_mem _ ht
    · exact mem_cons.mpr (.inl (mem_singleton.mp ht))
  rw [genTokenFor]
  split
  · refine ⟨?_, fun t ht => hsub (mem_of_mem_tail ht)⟩
    rw [length_tail, length_append]
    exact h
  · next hle => exact ⟨Nat.not_lt.mp hle, hsub⟩

lemma Genuine.step (hg : Genuine s) (h : s.step a = some s') : Genuine s' := by
  have hann : ∀ h, ∀ addr ∈ s.store.addrsOf h, Announced s' h addr :=
    fun h' addr haddr => (hg.addrs_announced h' addr haddr).step (effect_of_step h)
  cases effect_of_step h with
  | genTokenFor token =>
    obtain ⟨hlength, hsub⟩ := length_genTokenFor_le s.store token hg.tokens_le
    have hissued : s.issued ⊆ token :: s.issued := subset_cons_self _ _
    refine ⟨hlength, fun t ht => ?_, fun task htask hcheck hfalse => ?_, hg.addrs_nodup, hann⟩
    · rcases mem_cons.mp (hsub ht) with rfl | ht
      · exact mem_cons_self
      · exact hissued (hg.tokens_issued ht)
    · exact (hg.tasks_entitled task htask hcheck hfalse).mono hissued
  | storePeer announce addr =>
    refine ⟨hg.tokens_le, hg.tokens_issued, fun task htask hcheck => ?_, hg.addrs_nodup,
      hann⟩
    rcases mem_append.mp htask with htask | htask
    · exact hg.tasks_entitled task htask hcheck
    · cases mem_singleton.mp htask
      exact absurd rfl hcheck
  | garbageCollectPeers now =>
    refine ⟨hg.tokens_le, hg.tokens_issued, fun task htask => ?_, hg.addrs_nodup,
      hann⟩
    rcases mem_append.mp htask with htask | htask
    · exact hg.tasks_entitled task htask
    · cases mem_singleton.mp htask
  | @store id now next task task' store htask heff =>
    obtain ⟨htokens, hmax, -, hannounce, haddr⟩ := heff.tokens_eq
    have hentitled := hg.tasks_entitled task (mem_of_getElem? htask)
    refine ⟨?_, ?_, ?_, fun h => ?_, fun h addr hmem => ?_⟩
    · rw [htokens, hmax]
      exact hg.tokens_le
    · rw [htokens]
      exact hg.tokens_issued
    · intro other hother hcheck hfalse
      rcases mem_or_eq_of_mem_set hother with hother | heq
      · exact hg.tasks_entitled other hother hcheck hfalse
      cases heq
      cases heff with
      | refuse _ => exact absurd rfl hfalse
      | accept _ ht hfor => exact ⟨_, hg.tokens_issued ht, hfor⟩
      | enter hphase | refresh hphase _ | push hphase _ _ | count hphase =>
        exact hentitled (by rw [hphase]; nofun) (by rw [hphase]; nofun)
    · rcases heff.addrsOf h with heq | ⟨-, -, -, hnew, heq⟩
      · rw [heq]
        exact hg.addrs_nodup h
      · rw [heq, ← concat_eq_append]
        exact (hg.addrs_nodup h).concat hnew
    · rcases heff.addrsOf h with heq | ⟨rfl, ⟨n, hphase⟩, hstored, -, heq⟩
      · exact hann h addr (heq ▸ hmem)
      rcases mem_append.mp (heq ▸ hmem) with hmem | hmem
      · exact hann _ addr hmem
      · obtain rfl := mem_singleton.mp hmem
        rw [← hannounce, ← haddr] at hentitled ⊢
        exact ⟨task', mem_of_getElem? (getElem?_set_of_some htask _), hstored, rfl, rfl,
          hentitled (by rw [hphase]; nofun) (by rw [hphase]; nofun)⟩
  | @collect id now next task task' store htask heff =>
    obtain ⟨htokens, hmax, -⟩ := heff.tokens_sublist
    refine ⟨?_, fun t ht => hg.tokens_issued (htokens.subset ht), ?_, fun h => ?_,
      fun h addr hmem => hann h addr ((heff.addrsOf h).subset hmem)⟩
    · rw [hmax]
      exact htokens.length_le.trans hg.tokens_le
    · intro other hother
      rcases mem_or_eq_of_mem_set hother with hother | heq
      · exact hg.tasks_entitled other hother
      · cases heq
    · obtain ⟨l, hperm, hsub⟩ := heff.addrsOf h
      exact hperm.nodup_iff.mp ((hg.addrs_nodup h).sublist hsub)

/-! ## What steps that are up to date keep -/

/-- **What a call has seen still holds when it acts on it**: `store_peer` pushes a peer only if
there is room for one; the collector removes an entry only if it is empty,
evicts peers only if there are too many, and stores a count only if it is right and every peer that
was pushed has been counted. -/
def upToDate (s : PeerStoreCalls) : PeerStoreStep → Bool
  | .advance id _ _ =>
    match s.tasks[id]? with
    | some (.store { announce, addr, phase := .update peersLen }) =>
      announce.peerAddr addr ∈ s.store.addrsOf announce.infoHash ||
        peersLen ≥ s.store.maxRememberedPeers || s.store.total < s.store.maxRememberedPeers
    | some (.collect task) =>
      (task.removes.all fun h => (s.store.peersOf h).isEmpty) &&
        (task.evicts.all fun h =>
          (s.store.peersOf h).isEmpty || s.store.maxRememberedPeers < s.store.total) &&
        task.counts.all fun n => n = s.store.total && s.tasks.all fun task => task.uncounted = 0
    | _ => true
  | _ => true

variable {next : Option Id20} {now : DateTime} {id : ℕ}

/-- What the collector does at the right time. -/
lemma upToDate_collect {task} (htask : s.tasks[id]? = some (.collect task))
    (hup : s.upToDate (.advance id now next)) :
    (∀ h, task.removes = some h → s.store.peersOf h = []) ∧
      (∀ h, task.evicts = some h → s.store.peersOf h = [] ∨
        s.store.maxRememberedPeers < s.store.total) ∧
      ∀ n, task.counts = some n → n = s.store.total ∧ ∀ task ∈ s.tasks, task.uncounted = 0 := by
  simpa only [upToDate, htask, Bool.and_eq_true, Option.all_eq_true, List.isEmpty_iff,
    Bool.or_eq_true, decide_eq_true_iff, all_eq_true, and_assoc] using hup

/-- **The total is within its limit, and counted** as long as no collector is at work. -/
structure Counted (s : PeerStoreCalls) : Prop where
  total_le : s.store.total ≤ s.store.maxRememberedPeers
  peersLen_eq : (∀ task, collect task ∈ s.tasks → task.phase.isOver = true) →
    (s.store.peersLen : ℤ) + (s.tasks.map uncounted).sum = s.store.total

variable {store : PeerStore}

/-- A peer is pushed where fewer peers are stored than may be. -/
lemma total_le_of_store {task task'} (htask : s.tasks[id]? = some (.store task))
    (heff : StoreEffect s.store task now store task')
    (hup : s.upToDate (.advance id now next)) (hc : Counted s) :
    store.total ≤ store.maxRememberedPeers ∧
      (store.peersLen : ℤ) + uncounted (.store task') + s.store.total =
        s.store.peersLen + uncounted (.store task) + store.total := by
  obtain ⟨announce, addr, phase⟩ := task
  have hle := hc.total_le
  cases heff with
  | refuse hphase =>
    refine ⟨hle, ?_⟩
    cases phase with
    | count => cases hphase
    | _ => rfl
  | accept hphase _ _ | enter hphase =>
    cases hphase
    exact ⟨hle, rfl⟩
  | @refresh n ps hphase haddrs =>
    cases hphase
    have htotal := s.store.total_insert announce.infoHash ps
    have hlength : ps.length = (s.store.peersOf announce.infoHash).length := by
      simpa only [length_map] using congrArg List.length haddrs
    have heq : (s.store.withPeers (s.store.peers.insert announce.infoHash ps)).total =
        s.store.total := by omega
    rw [heq]
    exact ⟨hle, rfl⟩
  | @push n hphase hroom hnew =>
    cases hphase
    have htotal := s.store.total_insert announce.infoHash
      (s.store.peersOf announce.infoHash ++ [⟨announce.peerAddr addr, now⟩])
    rw [length_append, length_singleton] at htotal
    have hfree : s.store.total < s.store.maxRememberedPeers := by
      simp only [upToDate, htask, Bool.or_eq_true, decide_eq_true_iff] at hup
      rcases hup with (hmem | hfull) | hfree
      · exact absurd hmem hnew
      · exact absurd hroom (Nat.not_lt.mpr hfull)
      · exact hfree
    simp only [uncounted, maxRememberedPeers_withPeers, peersLen_withPeers]
    omega
  | count hphase =>
    cases hphase
    refine ⟨hle, ?_⟩
    simp only [uncounted, total, Nat.cast_add, Nat.cast_one]
    omega

/-- The collector removes peers, and at its end the count is right. -/
lemma total_le_of_collect {task task'} (htask : s.tasks[id]? = some (.collect task))
    (heff : CollectEffect s.store task store task')
    (hup : s.upToDate (.advance id now next)) :
    store.total ≤ s.store.total ∧ (task'.phase.isOver = true →
      store.peersLen = store.total ∧ ∀ task ∈ s.tasks, task.uncounted = 0) := by
  cases heff with
  | tokens hphase _
  | look hphase => exact ⟨le_rfl, fun hover => absurd (hphase.symm.trans hover) nofun⟩
  | @shrink h ps phase hphase hsub _ =>
    refine ⟨?_, fun hover => absurd (hphase.symm.trans hover) nofun⟩
    have htotal := s.store.total_insert h ps
    have hlength := hsub.length_le
    omega
  | @erase h phase hphase _ =>
    refine ⟨?_, fun hover => absurd (hphase.symm.trans hover) nofun⟩
    have htotal := s.store.total_erase h
    omega
  | store hcounts =>
    exact ⟨le_rfl, fun _ => (upToDate_collect htask hup).2.2 _ hcounts⟩

lemma Counted.step (hc : Counted s) (hup : s.upToDate a) (h : s.step a = some s') :
    Counted s' := by
  cases effect_of_step h with
  | genTokenFor token => exact ⟨hc.total_le, hc.peersLen_eq⟩
  | storePeer announce addr =>
    refine ⟨hc.total_le, fun hover => ?_⟩
    have heq := hc.peersLen_eq fun task htask => hover task (mem_append_left _ htask)
    simpa [uncounted] using heq
  | garbageCollectPeers now =>
    refine ⟨hc.total_le, fun hover => ?_⟩
    cases hover _ (mem_append_right _ (mem_singleton_self _))
  | @store id now next task task' store htask heff =>
    obtain ⟨hle, hbalance⟩ := total_le_of_store htask heff hup hc
    refine ⟨hle, fun hover => ?_⟩
    have hover' : ∀ task, collect task ∈ s.tasks → task.phase.isOver := by
      intro other hother
      obtain ⟨i, hi⟩ := getElem?_of_mem hother
      have hne : id ≠ i := by
        rintro rfl
        cases htask.symm.trans hi
      exact hover other (mem_of_getElem? (by rw [getElem?_set_ne hne, hi]))
    have heq := hc.peersLen_eq hover'
    have hsum := sum_map_set uncounted htask (.store task')
    dsimp only
    omega
  | @collect id now next task task' store htask heff =>
    obtain ⟨hle, hend⟩ := total_le_of_collect htask heff hup
    obtain ⟨-, -, hmax⟩ := heff.tokens_sublist
    refine ⟨?_, fun hover => ?_⟩
    · rw [hmax]
      exact hle.trans hc.total_le
    have hid : id < s.tasks.length := (List.getElem?_eq_some_iff.mp htask).1
    obtain ⟨heq, hzero⟩ := hend (hover task' (mem_set hid _))
    have hsum : ((s.tasks.set id (.collect task')).map uncounted).sum = 0 := by
      refine sum_eq_zero fun x hx => ?_
      obtain ⟨other, hother, rfl⟩ := mem_map.mp hx
      rcases mem_or_eq_of_mem_set hother with hother | rfl
      · exact hzero other hother
      · rfl
    rw [hsum, heq, add_zero]

/-- **No peer gets lost**: a step leaves its address where it is, unless it is one of the collector,
which may drop it. -/
def Keeps (s : PeerStoreCalls) (a : PeerStoreStep) (s' : PeerStoreCalls) : Prop :=
  ∀ h, ∀ p ∈ s.store.peersOf h, p.addr ∈ s'.store.addrsOf h ∨
    ∃ id now next task, a = .advance id now next ∧ s.tasks[id]? = some (.collect task) ∧
      task.MayDrop s.store h p

lemma keeps_step (hup : s.upToDate a) (hs : s.step a = some s') : Keeps s a s' := by
  intro h p hp
  have hmem : p.addr ∈ s.store.addrsOf h := mem_map_of_mem hp
  cases effect_of_step hs with
  | genTokenFor token | storePeer announce addr | garbageCollectPeers now => exact .inl hmem
  | @store id now next task task' store htask heff =>
    left
    rcases heff.addrsOf h with heq | ⟨-, -, -, -, heq⟩
    · rw [heq]
      exact hmem
    · rw [heq]
      exact mem_append_left _ hmem
  | @collect id now next task task' store htask heff =>
    obtain ⟨hremove, hevict, -⟩ := upToDate_collect htask hup
    cases heff with
    | tokens _ _ | look _ | store _ => exact .inl hmem
    | @shrink hash ps _ _ _ hdrop =>
      by_cases hh : h = hash
      · subst hh
        rw [addrsOf, peersOf_insert_self]
        rcases hdrop p hp with hp' | hmay | hevicts
        · exact .inl (mem_map_of_mem hp')
        · exact .inr ⟨id, now, next, task, rfl, htask, hmay⟩
        · rcases hevict h hevicts with hnil | hover
          · rw [hnil] at hp
            cases hp
          refine .inr ⟨id, now, next, task, rfl, htask, ?_⟩
          rw [evicts] at hevicts
          split at hevicts
          · next hphase => rwa [MayDrop, hphase]
          · cases hevicts
      · rw [addrsOf, peersOf_insert_of_ne hh]
        exact .inl hmem
    | @erase hash _ _ hremoves =>
      have hne : h ≠ hash := by
        rintro rfl
        rw [hremove h hremoves] at hp
        cases hp
      rw [addrsOf, peersOf_erase_of_ne hne]
      exact .inl hmem

/-! ## Runs -/

/-- No call is in progress. -/
def Idle (s : PeerStoreCalls) : Prop := ∀ task ∈ s.tasks, task.isOver = true
  deriving Decidable

/-- **The peer store is sound**; a call that has passed its check had a token by then. -/
structure Sound (s : PeerStoreCalls) : Prop where
  peersLen_eq : s.Idle → s.store.peersLen = s.store.total
  total_le : s.store.total ≤ s.store.maxRememberedPeers
  addrs_nodup : ∀ h, (s.store.addrsOf h).Nodup
  tokens_le : s.store.tokens.length ≤ s.store.maxRememberedTokens
  tasks_entitled : ∀ task, PeerTask.store task ∈ s.tasks → task.phase ≠ .check →
    task.phase ≠ .returned false → Entitled s.issued task.announce task.addr
  addrs_announced : ∀ h, ∀ addr ∈ s.store.addrsOf h, Announced s h addr

/-- A store without tokens and peers, and no calls so far. -/
def empty (selfId : Id20) (maxRememberedTokens maxRememberedPeers : ℕ) (maxDistance : Id20) :
    PeerStoreCalls where
  store := .empty selfId maxRememberedTokens maxRememberedPeers maxDistance

/-- Two info hashes, and a node that announces itself for them. -/
def someHash (i : ℕ) : Id20 := .ofNat 20 i

@[inherit_doc someHash]
def someAddr (i : UInt8) : SocketAddr := .v4 ⟨.new 127 0 0 i, 6881⟩

@[inherit_doc someHash]
def someToken (i : UInt8) : StoredToken where
  token := ⟨[0, 0, 0, 0], rfl⟩
  nodeId := someHash 0
  addr := someAddr i
  time := 0

@[inherit_doc someHash]
def someAnnounce (hash : ℕ) : AnnouncePeer where
  id := someHash 0
  impliedPort := 1
  infoHash := someHash hash
  port := 0
  token := [0, 0, 0, 0]

/-- A store of at most `n` peers. -/
def small (n : ℕ) : PeerStoreCalls := empty (someHash 0) 5 n (someHash 7)

/-- A call makes steps as long as it is not interrupted. -/
def advances (id n : ℕ) (now : DateTime) : List PeerStoreStep :=
  List.replicate n (.advance id now none)

/-- The collector comes to an entry and then to the end of its walk. -/
def walks (id : ℕ) : List PeerStoreStep := [.advance id 0 (some (someHash 1)), .advance id 0 none]

/-- Two peers are announced for two info hashes, and both find room for one. -/
def raceForRoom : List PeerStoreStep :=
  [.genTokenFor (someToken 1), .storePeer (someAnnounce 1) (someAddr 1),
    .storePeer (someAnnounce 2) (someAddr 1)] ++ advances 0 2 0 ++ advances 1 4 0 ++ advances 0 2 0

/-- A peer is counted by the collector before it is counted by `store_peer`. -/
def raceForCount : List PeerStoreStep :=
  [.genTokenFor (someToken 1), .storePeer (someAnnounce 1) (someAddr 1)] ++ advances 0 3 0 ++
    .garbageCollectPeers 5 :: advances 1 1 0 ++ walks 1 ++ advances 1 1 0 ++ walks 1 ++ walks 1 ++
    advances 1 1 0 ++ advances 0 1 0

/-- A peer is stored where the collector has found the last one too old. -/
def raceForEntry : List PeerStoreStep :=
  [.genTokenFor (someToken 1), .genTokenFor (someToken 2),
    .storePeer (someAnnounce 1) (someAddr 1), .storePeer (someAnnounce 1) (someAddr 2)] ++
    advances 0 4 0 ++ advances 1 1 0 ++ .garbageCollectPeers peerTtl :: advances 2 1 0 ++
    walks 2 ++ advances 1 3 peerTtl

end PeerStoreCalls

end Librtbit.Dht
