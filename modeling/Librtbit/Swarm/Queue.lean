import Librtbit.Swarm.Tasks

/-!
# Swarm/Queue — which queued peers are really waiting for the peer adder

A peer whose state is `Queued` is connected to when the peer adder comes to its address.  For this
its address has to be on its way: in the queue, with the adder or with the task the adder has
spawned, or in the hands of a task that is about to queue it (`Swarm.held`).  But a queue that is
full refuses an address, the adder skips some of them, a death handler leaves peers queued, and the
address that is queued for a peer need not be the one the peer has in the map.

* `Swarm.remembered_iff_keepsHeld` — no peer is forgotten and no unknown address is queued exactly
  when no step of the run does any of this.
-/

namespace Librtbit

open Machinery CountedPeers SwarmTask Function List

variable {L : Lengths}

/-- The address that a task is about to queue, or to connect to. -/
def SwarmTask.holds? : SwarmTask → Option PeerHandle
  | .adding addr _ | .sending addr | .dialing addr => some addr
  | _ => none

def PeerEntry.isQueued (e : PeerEntry L) : Bool :=
  match e.peer.state with
  | .queued => true
  | .connecting | .live _ | .dead | .notNeeded => false

namespace Swarm

variable {filter : PeerFilter} {s s' : Swarm L} {addr a : PeerHandle} {id : ℕ}

/-! ## Addresses on their way -/

/-- The addresses that are on their way to a connection. -/
def held (s : Swarm L) : List PeerHandle :=
  s.peerQueue ++ s.adder.toList ++ s.tasks.filterMap holds?

lemma mem_held : a ∈ s.held ↔ a ∈ s.peerQueue ∨ s.adder = some a ∨
      ∃ (id : ℕ) (task : SwarmTask), s.tasks[id]? = some task ∧ task.holds? = some a := by
  simp only [held, mem_append, Option.mem_toList, mem_filterMap, or_assoc]
  refine or_congr Iff.rfl (or_congr Iff.rfl ⟨?_, ?_⟩)
  · rintro ⟨task, hmem, hholds⟩
    obtain ⟨id, htask⟩ := mem_iff_getElem?.mp hmem
    exact ⟨id, task, htask, hholds⟩
  · rintro ⟨id, task, htask, hholds⟩
    exact ⟨task, mem_of_getElem? htask, hholds⟩

@[simp] lemma held_begins : (s.begins addr).held = s.held := by
  rw [begins]
  split <;> rfl

variable (peers : CountedPeers L)

@[simp] lemma held_withPeers : (s.withPeers peers).held = s.held := rfl

/-- The peer adder is done with an address: only that one can get lost. -/
lemma mem_held_adder_none (hadder : s.adder = some addr) (hne : a ≠ addr) (ha : a ∈ s.held) :
    a ∈ ({ s with adder := none } : Swarm L).held := by
  rw [mem_held, hadder] at ha
  rw [mem_held]
  exact ha.imp_right fun ha => ha.imp_left fun ha => absurd (Option.some.inj ha).symm hne

/-! ### Tasks -/

lemma mem_held_spawn (task : SwarmTask) :
    a ∈ (s.spawn task).held ↔ a ∈ s.held ∨ task.holds? = some a := by
  simp only [held, spawn, filterMap_append, mem_append, mem_filterMap,
    mem_singleton, exists_eq_left]
  exact or_assoc.symm

/-- A task goes on: only the address it had in its hands can get lost. -/
lemma mem_held_setTask_of_ne {task} (htask : s.tasks[id]? = some task)
    (hne : task.holds? ≠ some a) (ha : a ∈ s.held) (task' : SwarmTask) :
    a ∈ (s.setTask id task').held := by
  rw [mem_held] at ha ⊢
  rcases ha with ha | ha | ⟨id', other, hother, hholds⟩
  · exact .inl ha
  · exact .inr (.inl ha)
  · refine .inr (.inr ⟨id', other, ?_, hholds⟩)
    have hid : id ≠ id' := by
      rintro rfl
      rw [Option.some.inj (htask.symm.trans hother)] at hne
      exact hne hholds
    rw [setTask, getElem?_set_ne hid]
    exact hother

variable {task task' : SwarmTask}

/-- A task takes an address into its hands. -/
lemma mem_held_setTask_self (htask : s.tasks[id]? = some task)
    (hholds : task'.holds? = some a) : a ∈ (s.setTask id task').held := by
  rw [mem_held]
  refine .inr (.inr ⟨id, task', ?_, hholds⟩)
  obtain ⟨hid, -⟩ := List.getElem?_eq_some_iff.mp htask
  exact getElem?_set_self hid

/-- A task goes on that has no address. -/
lemma mem_held_setTask {task} (htask : s.tasks[id]? = some task)
    (hnone : task.holds? = none) (ha : a ∈ s.held) (task' : SwarmTask) :
    a ∈ (s.setTask id task').held :=
  mem_held_setTask_of_ne htask (by simp [hnone]) ha task'

/-- …and it takes none. -/
lemma mem_held_setTask_iff (htask : s.tasks[id]? = some task)
    (hnone : task.holds? = none) (hnone' : task'.holds? = none) :
    a ∈ (s.setTask id task').held ↔ a ∈ s.held := by
  refine ⟨fun ha => ?_, fun ha => mem_held_setTask htask hnone ha _⟩
  obtain ⟨hid, hget⟩ := List.getElem?_eq_some_iff.mp htask
  have hback : (s.setTask id task').setTask id task = s := by
    simp [setTask, ← hget]
  rw [← hback]
  exact mem_held_setTask (getElem?_set_self hid) hnone' ha task

/-- The task of a connection that begins. -/
lemma held_setTask_begins (task : SwarmTask) :
    (((s.begins addr).withPeers peers).setTask id task).held = (s.setTask id task).held := by
  rw [begins]
  split <;> rfl

/-! ### The queue -/

/-- There is room in the queue. -/
def HasRoom (s : Swarm L) : Prop := s.peerQueue.length < peerQueueSize
  deriving Decidable

lemma mem_held_trySend_of_mem (ha : a ∈ s.held) : a ∈ (s.trySend addr).held := by
  rw [trySend]
  split
  · rw [mem_held] at ha ⊢
    exact ha.imp_left fun ha => mem_append_left _ ha
  · exact ha

/-- The address that is queued is on its way if there is room, or if it was already. -/
lemma mem_held_trySend_self : addr ∈ (s.trySend addr).held ↔ s.HasRoom ∨ addr ∈ s.held := by
  rw [trySend]
  split
  · next hroom =>
    refine iff_of_true ?_ (.inl hroom)
    rw [mem_held]
    exact .inl (mem_append_right _ (mem_singleton_self addr))
  · next hroom => exact (or_iff_right hroom).symm

lemma setTask_trySend (task : SwarmTask) :
    (s.trySend addr).setTask id task = (s.setTask id task).trySend addr := by
  rw [trySend, trySend]
  split
  · next hroom => rw [if_pos (show (s.setTask id task).peerQueue.length < _ from hroom)]; rfl
  · next hroom => rw [if_neg (show ¬ (s.setTask id task).peerQueue.length < _ from hroom)]

/-- A death leaves everything on its way that was. -/
lemma mem_held_onPeerDied {h error}
    (htask : s.tasks[id]? = some (.dying h error)) (finished tracker : Bool) :
    a ∈ (s.onPeerDied id h error finished tracker).held ↔ a ∈ s.held := by
  obtain ⟨task, htasks, hadder, hcases⟩ :=
    exists_tasks_onPeerDied id h error finished tracker
  have hnone : task.holds? = none := by
    rcases hcases with rfl | rfl | rfl <;> rfl
  have hheld : (s.onPeerDied id h error finished tracker).held = (s.setTask id task).held :=
    by rw [held, peerQueue_onPeerDied, hadder, htasks]; rfl
  rw [hheld, mem_held_setTask_iff htask rfl hnone]

/-! ## No peer is forgotten -/

/-- **Every queued peer is on its way.** -/
def NoneForgotten (s : Swarm L) : Prop :=
  ∀ addr, ∀ e ∈ s.peers.states addr, e.isQueued = true → addr ∈ s.held

variable (h : s.NoneForgotten)
include h

/-- One entry changes, and at most its address gets lost. -/
lemma noneForgotten_iff_of_update (entry : Option (PeerEntry L))
    (hstates : s'.peers.states = update s.peers.states addr entry)
    (hheld : ∀ a, a ≠ addr → a ∈ s.held → a ∈ s'.held) :
    s'.NoneForgotten ↔ ∀ e ∈ entry, e.isQueued → addr ∈ s'.held := by
  rw [NoneForgotten, hstates]
  constructor
  · intro h' e he
    exact h' addr e (by rwa [update_self])
  intro h' a e he hqueued
  rcases eq_or_ne a addr with rfl | hne
  · rw [update_self] at he
    exact h' e he hqueued
  · rw [update_of_ne hne] at he
    exact hheld a hne (h a e he hqueued)

/-- One entry changes, and not to a queued peer. -/
lemma NoneForgotten.update (entry : Option (PeerEntry L))
    (hstates : s'.peers.states = update s.peers.states addr entry)
    (hentry : ∀ e ∈ entry, e.isQueued = false)
    (hheld : ∀ a, a ≠ addr → a ∈ s.held → a ∈ s'.held) : s'.NoneForgotten := by
  refine (noneForgotten_iff_of_update h entry hstates hheld).mpr fun e he hqueued => ?_
  rw [hentry e he] at hqueued
  cases hqueued

/-- No entry changes, and at most one address gets lost. -/
lemma noneForgotten_iff_of_states_eq (addr : PeerHandle)
    (hstates : s'.peers.states = s.peers.states)
    (hheld : ∀ a, a ≠ addr → a ∈ s.held → a ∈ s'.held) :
    s'.NoneForgotten ↔ ∀ e ∈ s.peers.states addr, e.isQueued → addr ∈ s'.held :=
  noneForgotten_iff_of_update h _ (hstates.trans (update_eq_self addr _).symm) hheld

/-- No entry changes, and no address gets lost. -/
lemma NoneForgotten.mono (hstates : s'.peers.states = s.peers.states)
    (hheld : ∀ a, a ∈ s.held → a ∈ s'.held) : s'.NoneForgotten := by
  intro addr e he hqueued
  rw [hstates] at he
  exact hheld addr (h addr e he hqueued)

omit h

/-! ### Entries that are not queued -/

variable {e : PeerEntry L} {kind : ConnectionKind} {new : PeerState L}

lemma isQueued_withState :
    (e.withState new kind).isQueued ↔ new = .queued := by
  cases new <;> simp [PeerEntry.isQueued, PeerEntry.withState, Peer.setState]

/-- The state changes, and not to queued. -/
lemma isQueued_of_mem_withState
    (hnew : new ≠ .queued) : ∀ e' ∈ some (e.withState new kind), e'.isQueued = false := by
  intro e' he'
  cases he'
  rw [← Bool.not_eq_true, isQueued_withState]
  exact hnew

/-- A peer that cannot be connected to is not queued. -/
lemma isQueued_of_markPeerConnecting {ps : CountedPeers L}
    (hps : ps.markPeerConnecting addr = none) : ∀ e ∈ ps.states addr, e.isQueued = false := by
  intro e he
  have hnone := Option.bind_eq_none_iff.mp hps e he
  rw [PeerEntry.isQueued]
  cases hstate : e.peer.state with
  | queued => simp [hstate] at hnone
  | connecting | live | dead | notNeeded => rfl

/-! ## What can go wrong -/

/-- **No queued peer gets lost in the step.** -/
def KeepsHeld (s : Swarm L) : SwarmStep L → Prop
  | .adderSkips =>
    ∀ addr ∈ s.adder, ∀ e ∈ s.peers.states addr, e.isQueued = true →
      addr ∈ { s with adder := none }.held
  | .requeueDeadPeer addr => s.HasRoom ∨ addr ∈ s.held
  | .reconnectNotNeededPeer addr =>
    ∀ e ∈ s.peers.states addr, e.peer.outgoingAddress = some addr → s.HasRoom ∨ addr ∈ s.held
  | .task id .send =>
    ∀ addr, s.tasks[id]? = some (.sending addr) → ∀ e ∈ s.peers.states addr, e.isQueued = true →
      s.HasRoom ∨ addr ∈ (s.setTask id .over).held
  | .task id (.onPeerDied finished tracker) =>
    ∀ h error, s.tasks[id]? = some (.dying h error) → ∀ e ∈ s.peers.states h.addr,
      e.afterDeath error finished tracker = .queued → h.addr ∈ s.held
  | _ => True

/-- A peer is queued, and its address is sent to the adder. -/
lemma noneForgotten_trySend_iff (h : s.NoneForgotten)
    (hstates : s'.peers.states = update s.peers.states addr (some (e.withState .queued)))
    (hqueue : s'.peerQueue = s.peerQueue) (hheld : s'.held = s.held) :
    (s'.trySend addr).NoneForgotten ↔ s.HasRoom ∨ addr ∈ s.held := by
  have hroom : s'.HasRoom ↔ s.HasRoom := by rw [HasRoom, HasRoom, hqueue]
  rw [noneForgotten_iff_of_update h _ ((congrArg _ (peers_trySend addr)).trans hstates)]
  · rw [← hroom, ← hheld, ← mem_held_trySend_self]
    simp only [Option.mem_some_iff, forall_eq', isQueued_withState, forall_const]
  · intro a _ ha
    rw [← hheld] at ha
    exact mem_held_trySend_of_mem ha

/-- **The step lemma for the peers.** -/
theorem noneForgotten_step (h : s.NoneForgotten) {a}
    (hs : s.step filter a = some s') : s'.NoneForgotten ↔ s.KeepsHeld a := by
  cases effect_of_step hs with
  | @addPeerIfNotSeen addr ps hps =>
    obtain ⟨hnone, rfl⟩ := of_addIfNotSeen hps
    refine iff_true_intro ?_
    refine (noneForgotten_iff_of_update h _ rfl fun a _ ha => ?_).mpr fun _ _ _ => ?_
    · rw [mem_held_spawn, held_withPeers, held_begins]
      exact .inl ha
    · rw [mem_held_spawn]
      exact .inr rfl
  | @addIncomingPeer addr kind ps hps =>
    refine iff_true_intro ?_
    have hheld : ∀ a, a ≠ addr → a ∈ s.held → a ∈ (((s.begins addr).withPeers ps).spawn
        (.connected { addr, incoming := true, counters := s.countersOf addr,
                      generation := (s.begins addr).generation addr })).held := by
      intro a _ ha
      rw [mem_held_spawn, held_withPeers, held_begins]
      exact .inl ha
    rcases of_addIncomingPeer hps with ⟨e, -, -, rfl⟩ | ⟨-, rfl⟩
    · exact h.update _ (states_takeAndSetState ..)
        (isQueued_of_mem_withState nofun) hheld
    · refine h.update _ rfl (fun e he => ?_) hheld
      cases he
      rfl
  | @adderReceives addr peerQueue hadder hqueue =>
    refine iff_true_intro (h.mono rfl fun a ha => ?_)
    rw [mem_held, hadder, hqueue, mem_cons] at ha
    rw [mem_held]
    rcases ha with (rfl | ha) | ha | ha
    · exact .inr (.inl rfl)
    · exact .inl ha
    · cases ha
    · exact .inr (.inr ha)
  | @adderMarksNotNeeded addr hadder =>
    refine iff_true_intro ?_
    have hheld : ∀ a, a ≠ addr → a ∈ s.held → a ∈ { s.withPeers
        ((s.peers.markPeerNotNeeded addr).getD s.peers) with adder := none }.held :=
      fun a hne ha => mem_held_adder_none hadder hne ha
    cases he : s.peers.states addr with
    | none =>
      have hsame := getD_markPeerNotNeeded_of_none he
      refine (noneForgotten_iff_of_states_eq h addr (congrArg _ hsame) hheld).mpr ?_
      rw [he]
      nofun
    | some e =>
      have hset := getD_markPeerNotNeeded_of_some he
      exact h.update _ (congrArg states hset) (isQueued_of_mem_withState nofun) hheld
  | @adderSkips addr hadder hskips =>
    refine Iff.trans (noneForgotten_iff_of_states_eq h addr rfl fun a hne ha => ?_) ?_
    · exact mem_held_adder_none hadder hne ha
    · simp only [KeepsHeld, hadder, Option.mem_some_iff, forall_eq']
  | @adderSpawns addr hadder hskips =>
    refine iff_true_intro (h.mono rfl fun a ha => ?_)
    rw [mem_held_spawn]
    rw [mem_held, hadder] at ha
    rcases ha with ha | ha | ha
    · exact .inl (mem_held.mpr (.inl ha))
    · exact .inr ha
    · exact .inl (mem_held.mpr (.inr (.inr ha)))
  | disconnectIfFull hps =>
    obtain ⟨e, -, -, rfl⟩ := of_disconnectIfFull hps
    exact iff_true_intro (h.update _ rfl (isQueued_of_mem_withState nofun) fun _ _ ha => ha)
  | @reconnectNotNeededPeer addr ps outgoing hps =>
    obtain ⟨e, he, -, hout, rfl⟩ := of_reconnectNotNeededPeer hps
    simp only [KeepsHeld, he, Option.mem_some_iff, forall_eq', hout, Option.some.injEq]
    by_cases hsame : addr = outgoing
    · subst hsame
      simp only [if_true, forall_const]
      exact noneForgotten_trySend_iff h rfl (peerQueue_begins addr) held_begins
    · simp only [if_neg hsame, Ne.symm hsame, false_imp_iff, iff_true]
      refine h.mono (by rw [peers_trySend]; rfl) fun a ha => mem_held_trySend_of_mem ha
  | @requeueDeadPeer addr ps hps =>
    obtain ⟨e, he, -, rfl⟩ := of_deadToQueued hps
    exact noneForgotten_trySend_iff h rfl (peerQueue_begins addr) held_begins
  | pruneDeadPeer hps =>
    obtain ⟨e, -, -, rfl⟩ := of_pruneDeadPeer hps
    exact iff_true_intro (h.update _ rfl nofun fun _ _ ha => ha)
  | withLiveMut hps =>
    obtain ⟨e, -, hmap⟩ := Option.bind_eq_some_iff.mp hps
    obtain ⟨live, -, rfl⟩ := Option.map_eq_some_iff.mp hmap
    refine iff_true_intro (h.update _ rfl (fun e' he' => ?_) fun _ _ ha => ha)
    cases he'
    rfl
  | setOwner => exact iff_true_intro (h.mono rfl fun _ ha => ha)
  | @countsAdded id addr which todo htask =>
    have hholds : (if todo.isEmpty then sending addr else .adding addr todo).holds? =
        some addr := by
      split <;> rfl
    have hset : ∀ a, a ∈ s.held → a ∈ (s.setTask id
        (if todo.isEmpty then .sending addr else .adding addr todo)).held := by
      intro a ha
      rcases eq_or_ne a addr with rfl | hne
      · exact mem_held_setTask_self htask hholds
      · exact mem_held_setTask_of_ne htask (by simp [holds?, hne.symm]) ha _
    refine iff_true_intro ?_
    cases which <;> exact h.mono rfl hset
  | @countsDropped id state which todo htask =>
    refine iff_true_intro ?_
    have hset : ∀ a, a ∈ s.held → a ∈ (s.setTask id
        (if todo.isEmpty then .over else .dropped state todo)).held :=
      fun a ha => mem_held_setTask htask rfl ha _
    cases which <;> exact h.mono rfl hset
  | @sends id addr htask =>
    rw [setTask_trySend]
    refine Iff.trans (noneForgotten_iff_of_states_eq h addr
      (congrArg states (peers_trySend addr)) fun a hne ha => ?_) ?_
    · refine mem_held_trySend_of_mem (mem_held_setTask_of_ne htask ?_ ha _)
      simp [holds?, hne.symm]
    · rw [mem_held_trySend_self]
      simp only [KeepsHeld, htask, Option.some.injEq, sending.injEq, forall_eq']
      exact Iff.rfl
  | @marks id addr ps htask hps =>
    obtain ⟨e, -, -, rfl⟩ := of_markPeerConnecting hps
    refine iff_true_intro ?_
    refine h.update _ rfl (isQueued_of_mem_withState nofun) fun a hne ha => ?_
    rw [held_setTask_begins]
    exact mem_held_setTask_of_ne htask (by simp [holds?, hne.symm]) ha _
  | @marksNot id addr htask hps =>
    refine iff_true_intro ?_
    refine Iff.mpr (noneForgotten_iff_of_states_eq h addr rfl fun a hne ha => ?_)
      fun e he hqueued => ?_
    · exact mem_held_setTask_of_ne htask (by simp [holds?, hne.symm]) ha _
    · rw [isQueued_of_markPeerConnecting hps e he] at hqueued
      cases hqueued
  | getsCounters htask | getsNoCounters htask | onConnected htask | dropsNothing htask
  | wakesLate htask =>
    exact iff_true_intro (h.mono rfl fun a ha => mem_held_setTask htask rfl ha _)
  | onHandshake htask hps =>
    obtain ⟨e, -, -, rfl⟩ := of_setPeerLive hps
    exact iff_true_intro (h.update _ (states_takeAndSetState ..)
      (isQueued_of_mem_withState nofun) fun _ _ ha => ha)
  | ignoresHandshake | ignoresExtendedHandshake => exact iff_true_intro h
  | onExtendedHandshake htask hincoming hps =>
    obtain ⟨e, he, rfl⟩ := Option.map_eq_some_iff.mp hps
    refine iff_true_intro ?_
    refine Iff.mpr (noneForgotten_iff_of_update h _ rfl fun _ _ ha => ha) fun e' he' hqueued => ?_
    cases he'
    exact h _ e he hqueued
  | ends htask =>
    rcases htask with htask | htask <;>
      exact iff_true_intro (h.mono rfl fun a ha => mem_held_setTask htask rfl ha _)
  | @onPeerDied id handler error finished tracker htask =>
    have hstates := (congrArg states
      (peers_onPeerDied (s := s) id handler error finished tracker)).trans
        (states_onPeerDied ..)
    rw [noneForgotten_iff_of_update h _ hstates fun a _ ha =>
      (mem_held_onPeerDied htask finished tracker).mpr ha]
    simp only [KeepsHeld, htask, Option.some.injEq, dying.injEq, and_imp, forall_eq',
      forall_apply_eq_imp_iff, mem_held_onPeerDied htask, Option.mem_map, forall_exists_index]
    constructor
    · exact fun hheld e he hqueued => hheld _ e he rfl (isQueued_withState.mpr hqueued)
    · rintro hheld _ e he rfl hqueued
      exact hheld e he (isQueued_withState.mp hqueued)
  | drops htask he =>
    exact iff_true_intro (h.update _ rfl nofun fun a _ ha => mem_held_setTask htask rfl ha _)
  | @wakes id addr ps htask hps =>
    obtain ⟨e, -, -, rfl⟩ := of_deadToQueued hps
    refine iff_true_intro ?_
    refine (noneForgotten_iff_of_update h _ rfl fun a _ ha => ?_).mpr fun _ _ _ => ?_
    · rw [held_setTask_begins]
      exact mem_held_setTask htask rfl ha _
    · rw [held_setTask_begins]
      exact mem_held_setTask_self htask rfl

/-! ## What is queued -/

/-- **What the step puts into the queue is a key of the peer map** at that moment. -/
def PlacesKeys (filter : PeerFilter) (s : Swarm L) (a : SwarmStep L) : Prop :=
  ∀ s' ∈ s.step filter a, ∀ addr ∈ s'.peerQueue.drop s.peerQueue.length,
    (s'.peers.states addr).isSome = true

/-- **The address that is to be queued is a key of the map**, or there is no room for it. -/
def SendsKey (s : Swarm L) : SwarmStep L → Prop
  | .reconnectNotNeededPeer addr =>
    ∀ e ∈ s.peers.states addr, ∀ outgoing ∈ e.peer.outgoingAddress, s.HasRoom →
      (s.peers.states outgoing).isSome = true
  | .task id .send =>
    ∀ addr, s.tasks[id]? = some (.sending addr) → s.HasRoom →
      (s.peers.states addr).isSome = true
  | _ => True

variable (hqueue : s'.peerQueue = s.peerQueue)
include hqueue

/-- A step that puts nothing into the queue. -/
lemma placesNothing :
    ∀ addr ∈ s'.peerQueue.drop s.peerQueue.length, (s'.peers.states addr).isSome := by
  rw [hqueue, drop_length]
  nofun

lemma mem_drop_trySend :
    a ∈ (s'.trySend addr).peerQueue.drop s.peerQueue.length ↔ s.HasRoom ∧ a = addr := by
  rw [HasRoom, ← hqueue, trySend]
  split
  · next hroom => simp [hroom]
  · next hroom => simp [hroom]

/-- A step that puts an address into the queue, if there is room. -/
lemma placesKeys_trySend_iff :
    (∀ a ∈ (s'.trySend addr).peerQueue.drop s.peerQueue.length,
      ((s'.trySend addr).peers.states a).isSome) ↔
      (s.HasRoom → (s'.peers.states addr).isSome) := by
  simp only [mem_drop_trySend hqueue, peers_trySend, and_imp]
  constructor
  · exact fun h hroom => h addr hroom rfl
  · rintro h a hroom rfl
    exact h hroom

omit hqueue

/-- Changing a state changes no key. -/
lemma isSome_update {states : PeerHandle → Option (PeerEntry L)}
    (he : states addr = some e) (e' : PeerEntry L) (a : PeerHandle) :
    (update states addr (some e') a).isSome = (states a).isSome := by
  rcases eq_or_ne a addr with rfl | hne
  · rw [update_self, he]
    rfl
  · rw [update_of_ne hne]

/-- **The step lemma for the queue.** -/
theorem placesKeys_iff {a} (hs : s.step filter a = some s') :
    s.PlacesKeys filter a ↔ s.SendsKey a := by
  have hstep : s.PlacesKeys filter a ↔
      ∀ addr ∈ s'.peerQueue.drop s.peerQueue.length, (s'.peers.states addr).isSome := by
    simp only [PlacesKeys, hs, Option.mem_some_iff, forall_eq']
  rw [hstep]
  cases effect_of_step hs with
  | @reconnectNotNeededPeer addr ps outgoing hps =>
    obtain ⟨e, he, -, hout, rfl⟩ := of_reconnectNotNeededPeer hps
    simp only [SendsKey, he, Option.mem_some_iff, forall_eq', hout]
    by_cases hsame : addr = outgoing
    · subst hsame
      simp only [if_true]
      refine Iff.trans (placesKeys_trySend_iff (peerQueue_begins addr)) ?_
      exact imp_congr_right fun _ => Bool.eq_iff_iff.mp (isSome_update he _ addr)
    · simp only [if_neg hsame]
      exact placesKeys_trySend_iff rfl
  | @requeueDeadPeer addr ps hps =>
    obtain ⟨e, he, -, rfl⟩ := of_deadToQueued hps
    refine iff_true_intro (Iff.mpr (placesKeys_trySend_iff (peerQueue_begins addr)) fun _ => ?_)
    exact (isSome_update he _ addr).trans (Option.isSome_of_eq_some he)
  | @sends id addr htask =>
    rw [setTask_trySend]
    refine Iff.trans (placesKeys_trySend_iff rfl) ?_
    simp only [SendsKey, htask, Option.some.injEq, sending.injEq, forall_eq']
    exact Iff.rfl
  | @adderReceives addr peerQueue hadder hqueue =>
    have hdrop : peerQueue.drop s.peerQueue.length = [] := by
      rw [hqueue]
      exact drop_eq_nil_of_le (Nat.le_succ _)
    refine iff_true_intro (fun addr haddr => ?_)
    rw [hdrop] at haddr
    cases haddr
  | @addPeerIfNotSeen addr | @addIncomingPeer addr | @marks _ addr | @wakes _ addr =>
    exact iff_true_intro (placesNothing (peerQueue_begins addr))
  | @countsAdded _ _ which | @countsDropped _ _ which =>
    refine iff_true_intro (placesNothing ?_)
    cases which <;> rfl
  | onPeerDied => exact iff_true_intro (placesNothing (peerQueue_onPeerDied ..))
  | _ => exact iff_true_intro (placesNothing rfl)

/-! ## Runs

A peer is found whose port is zero.  It is inserted, counted and queued; the peer adder takes its
address and skips it.  The peer stays in the map as a queued one, and nobody will ever look at it
again: not the adder, not `prune_dead_peers`, and `add_if_not_seen` has seen it. -/

def portZero : PeerHandle := ⟨.v4 1, 0⟩

def skipped : List (SwarmStep Lengths.onePiece) :=
  [.addPeerIfNotSeen portZero, .task 0 .count, .task 0 .count, .task 0 .send,
    .adderReceives, .adderSkips]

theorem not_remembered_skipped : ¬ (Always (step noFilter) NoneForgotten {} skipped ∧
      Along (step noFilter) (PlacesKeys noFilter) {} skipped) := by
  rintro ⟨h, -⟩
  have hweak := h.mono fun s hs => hs portZero
  exact not_always_of_run (by decide) hweak

/-- **Queued peers**: throughout a run every queued peer is on its way to the adder, and everything
put into the queue is a key of the map, exactly when in every step no address is refused or skipped
that is not on its way elsewhere, no death handler leaves such a peer queued, and every address that
is sent is a key. -/
theorem remembered_iff_keepsHeld (as : List (SwarmStep L)) :
    Always (step filter) NoneForgotten {} as ∧ Along (step filter) (PlacesKeys filter) {} as ↔
      Along (step filter) (fun s a => s.KeepsHeld a ∧ s.SendsKey a) {} as := by
  have hempty : ({} : Swarm L).NoneForgotten := nofun
  have hpeers : Always (step filter) NoneForgotten {} as ↔ Along (step filter) KeepsHeld {} as :=
    always_iff_along (fun _ _ _ h hs => noneForgotten_step h hs) hempty as
  rw [along_and, hpeers, along_congr fun _ _ _ hs => placesKeys_iff hs]

end Swarm

end Librtbit
