import Librtbit.Machinery.Tally
import Librtbit.Swarm.Queue

/-!
# Swarm/Counters — what the counters of a torrent and of its session owe

Every torrent of a session counts its peers by their states, and the session counts those of all
its torrents.  `set_state` updates both together, under the lock of the peer; but `add_if_not_seen`
inserts a peer first and counts it afterwards, and `drop_peer` removes it first, without any lock.
What is inserted and not counted, or removed and not taken out of the counters, is what a torrent
*owes* its counters.

* `Swarm.counterEffect_of_step` — what a step can do to the map, the counters and what is owed.
* `Swarm.CounterEffect.balance_eq` — no step changes the difference between a counter, with what is
  owed to it, and the number of peers.
* `Swarm.CounterEffect.solvent_iff` — and as long as no other counter is behind, one is decremented
  at zero exactly when a queued peer changes its state while the counter of queued peers is zero.
-/

namespace Librtbit

open Machinery CountedPeers SwarmTask AggregatePeerStats PeerEntry Function List Option

variable {L : Lengths}

/-! ## Counters -/

namespace AggregatePeerStats

variable {stats : AggregatePeerStats} {c : PeerCounter} {l : List PeerCounter}

@[simp] lemma value_atomicInc (c' : PeerCounter) :
    (stats.atomicInc c').value c = stats.value c + if c' = c then 1 else 0 := by
  rcases eq_or_ne c c' with rfl | hne
  · simp [atomicInc]
  · simp [atomicInc, hne, hne.symm]

@[simp] lemma value_atomicDec (c' : PeerCounter) :
    (stats.atomicDec c').value c = stats.value c - if c' = c then 1 else 0 := by
  rcases eq_or_ne c c' with rfl | hne
  · simp [atomicDec]
  · simp [atomicDec, hne, hne.symm]

lemma value_inc : (stats.inc l).value c = stats.value c + l.count c := by
  induction l generalizing stats with
  | nil => simp [inc]
  | cons c' l ih =>
    have hcons : stats.inc (c' :: l) = (stats.atomicInc c').inc l := rfl
    rw [hcons, ih, value_atomicInc, count_cons]
    simp only [beq_iff_eq]
    split <;> push_cast <;> omega

lemma value_dec : (stats.dec l).value c = stats.value c - l.count c := by
  induction l generalizing stats with
  | nil => simp [dec]
  | cons c' l ih =>
    have hcons : stats.dec (c' :: l) = (stats.atomicDec c').dec l := rfl
    rw [hcons, ih, value_atomicDec, count_cons]
    simp only [beq_iff_eq]
    split <;> push_cast <;> omega

variable {old new : List PeerCounter}

lemma value_incdec :
    (stats.incdec old new).value c = stats.value c - old.count c + new.count c := by
  rw [incdec, value_inc, value_dec]

/-! ### Underflow -/

/-- **No counter was decremented at zero.** -/
def Solvent (stats : AggregatePeerStats) : Prop :=
  stats.underflowed = false ∧ ∀ c, 0 ≤ stats.value c

lemma underflowed_inc : (stats.inc l).underflowed = stats.underflowed := by
  induction l generalizing stats with
  | nil => rfl
  | cons c' l ih => exact ih

lemma Solvent.inc (h : stats.Solvent) : (stats.inc l).Solvent := by
  refine ⟨underflowed_inc.trans h.1, fun c => ?_⟩
  rw [value_inc]
  exact Int.add_nonneg (h.2 c) (Int.natCast_nonneg _)

/-- What underflowed once has underflowed. -/
lemma underflowed_dec_of_underflowed (h : stats.underflowed) :
    (stats.dec l).underflowed = true := by
  induction l generalizing stats with
  | nil => exact h
  | cons c' l ih => exact ih (by simp [atomicDec, h])

/-- Counters are decremented, each once. -/
lemma underflowed_dec (h : stats.underflowed = false) (hl : l.Nodup) :
    (stats.dec l).underflowed = false ↔ ∀ c ∈ l, 0 < stats.value c := by
  induction l generalizing stats with
  | nil => simpa [dec] using h
  | cons c' l ih =>
    obtain ⟨hnot, hl⟩ := nodup_cons.mp hl
    have hcons : stats.dec (c' :: l) = (stats.atomicDec c').dec l := rfl
    rw [hcons, forall_mem_cons]
    by_cases hpos : 0 < stats.value c'
    · have hunder : (stats.atomicDec c').underflowed = false := by
        simp [atomicDec, h, hpos]
      rw [ih hunder hl, and_iff_right hpos]
      refine forall₂_congr fun c hc => ?_
      have hne : c' ≠ c := by
        rintro rfl
        exact hnot hc
      rw [value_atomicDec, if_neg hne, Int.sub_zero]
    · have hunder : (stats.atomicDec c').underflowed := by
        simp [atomicDec, not_lt.mp hpos]
      rw [underflowed_dec_of_underflowed hunder]
      simp [hpos]

lemma nonneg_dec (h : ∀ c, 0 ≤ stats.value c) (hl : l.Nodup) (hpos : ∀ c ∈ l, 0 < stats.value c)
    (c : PeerCounter) : 0 ≤ (stats.dec l).value c := by
  have hle := nodup_iff_count_le_one.mp hl c
  rw [value_dec]
  by_cases hc : c ∈ l
  · have := hpos c hc
    omega
  · rw [count_eq_zero.mpr hc]
    simpa using h c

variable (h : stats.Solvent)
include h

lemma solvent_dec (hl : l.Nodup) :
    (stats.dec l).Solvent ↔ ∀ c ∈ l, 0 < stats.value c := by
  rw [Solvent, underflowed_dec h.1 hl]
  exact and_iff_left_of_imp fun hpos => nonneg_dec h.2 hl hpos

/-- **A peer leaves one state and enters another.** -/
theorem solvent_incdec (hold : old.Nodup) :
    (stats.incdec old new).Solvent ↔ ∀ c ∈ old, 0 < stats.value c := by
  constructor
  · intro h'
    rw [← underflowed_dec h.1 hold, ← underflowed_inc]
    exact h'.1
  · intro hpos
    exact ((solvent_dec h hold).mpr hpos).inc

/-- …by way of a third one: what enters a state can leave it. -/
lemma solvent_incdec_incdec (hold : old.Nodup) (mid : PeerCounter) :
    ((stats.incdec old [mid]).incdec [mid] new).Solvent ↔ ∀ c ∈ old, 0 < stats.value c := by
  constructor
  · intro h'
    rw [← underflowed_dec h.1 hold]
    by_contra hunder
    have hmid : (stats.incdec old [mid]).underflowed := by
      rw [incdec, underflowed_inc]
      simpa using hunder
    have hfinal := h'.1
    rw [incdec, underflowed_inc, underflowed_dec_of_underflowed hmid] at hfinal
    cases hfinal
  · intro hpos
    have hmid : (stats.incdec old [mid]).Solvent := (solvent_incdec h hold).mpr hpos
    rw [solvent_incdec hmid (nodup_singleton mid)]
    intro c hc
    obtain rfl := mem_singleton.mp hc
    have hdec := nonneg_dec h.2 hold hpos c
    rw [value_dec] at hdec
    rw [value_incdec, count_singleton_self]
    omega

end AggregatePeerStats

/-! ## Entries -/

/-- The peer is in the state that the counter is for. -/
def PeerEntry.isIn (c : PeerCounter) (e : PeerEntry L) : Bool :=
  match c, e.peer.state with
  | .queued, .queued | .connecting, .connecting | .live, .live _ => true
  | .dead, .dead | .notNeeded, .notNeeded => true
  | .liveKind kind, .live _ => decide (kind = e.kind)
  | _, _ => false

lemma isIn_eq (c : PeerCounter) (e : PeerEntry L) : e.isIn c = decide (c ∈ e.countedIn) := by
  obtain ⟨⟨state, outgoingAddress⟩, kind, counters⟩ := e
  cases c <;> cases state <;>
    simp [isIn, countedIn, counted, PeerState.counted, CountedState.counters]

variable (e : PeerEntry L)

lemma isIn_queued : e.isIn .queued = e.isQueued := by
  obtain ⟨⟨state, outgoingAddress⟩, kind, counters⟩ := e
  cases state <;> rfl

lemma queued_mem_countedIn {e : PeerEntry L} : .queued ∈ e.countedIn ↔ e.isQueued := by
  rw [← isIn_queued, isIn_eq, decide_eq_true_iff]

lemma CountedState.nodup_counters (state : CountedState) : state.counters.Nodup := by
  cases state <;> simp [CountedState.counters]

lemma nodup_countedIn : e.countedIn.Nodup := e.counted.nodup_counters

/-- What an entry of the map contributes to a counter. -/
def countIn (entry : Option (PeerEntry L)) (c : PeerCounter) : ℤ := (entry.any (isIn c)).toNat

@[simp] lemma countIn_none (c : PeerCounter) : countIn (none : Option (PeerEntry L)) c = 0 := rfl

lemma count_countedIn (c : PeerCounter) :
    (e.countedIn.count c : ℤ) = countIn (some e) c := by
  rw [(nodup_countedIn e).count, countIn, any_some, isIn_eq]
  split
  · next hc => simp [hc]
  · next hc => simp [hc]

namespace CountedPeers

variable {ps ps' : CountedPeers L} {addr : PeerHandle} {e : PeerEntry L} {w : StatsOf}

/-- The counters of the torrent, or those of the session. -/
def statsOf (ps : CountedPeers L) : StatsOf → AggregatePeerStats
  | .torrent => ps.stats
  | .session => ps.sessionStats

/-- How many peers are in a state. -/
noncomputable def number (ps : CountedPeers L) (c : PeerCounter) : ℤ := tally (isIn c) ps.states

/-- No counter underflows when the peer leaves its state. -/
def CanLeave (ps : CountedPeers L) (w : StatsOf) (addr : PeerHandle) : Prop :=
  ∀ e ∈ ps.states addr, ∀ c ∈ e.countedIn, 0 < (ps.statsOf w).value c

/-- **The entry of one address changes, and it is counted**: what it was is taken out of the
counters, and what it is put in. -/
structure Moves (ps ps' : CountedPeers L) (addr : PeerHandle) (entry : Option (PeerEntry L)) :
    Prop where
  states : ps'.states = update ps.states addr entry
  value : ∀ w c, (ps'.statsOf w).value c =
    (ps.statsOf w).value c - countIn (ps.states addr) c + countIn entry c
  solvent : ∀ w, (ps.statsOf w).Solvent → ((ps'.statsOf w).Solvent ↔ ps.CanLeave w addr)

lemma canLeave_iff (he : ps.states addr = some e) :
    ps.CanLeave w addr ↔ ∀ c ∈ e.countedIn, 0 < (ps.statsOf w).value c := by
  simp only [CanLeave, he, mem_some_iff, forall_eq']

lemma canLeave_of_eq_none (hnone : ps.states addr = none) : ps.CanLeave w addr := by
  intro e he
  rw [hnone] at he
  cases he

/-! ### The methods -/

lemma statsOf_setState (new : PeerState L) (kind : ConnectionKind) :
    (ps.setState addr e new kind).statsOf w =
      (ps.statsOf w).incdec e.countedIn (e.withState new kind).countedIn := by
  cases w <;> rfl

variable (he : ps.states addr = some e)
include he

lemma moves_setState (new : PeerState L) (kind : ConnectionKind) :
    ps.Moves (ps.setState addr e new kind) addr (some (e.withState new kind)) where
  states := rfl
  value w c := by
    rw [statsOf_setState, value_incdec, count_countedIn, count_countedIn, he]
  solvent w h := by
    rw [statsOf_setState, solvent_incdec h (nodup_countedIn e), canLeave_iff he]

/-- On the way from one state to another a peer can be queued. -/
lemma moves_takeAndSetState (new : PeerState L) (kind : ConnectionKind) :
    ps.Moves (ps.takeAndSetState addr e new kind) addr (some (e.withState new kind)) := by
  have htake : ps.Moves (ps.takeState addr e) addr (some (e.withState .queued)) :=
    moves_setState he .queued e.kind
  have htaken : (ps.takeState addr e).states addr = some (e.withState .queued) := by
    rw [htake.states, update_self]
  have hset : (ps.takeState addr e).Moves (ps.takeAndSetState addr e new kind) addr
      (some (e.withState new kind)) := moves_setState htaken new kind
  refine ⟨states_takeAndSetState new kind, fun w c => ?_, fun w h => ?_⟩
  · rw [hset.value, htake.value, htaken]
    omega
  have hstats : (ps.takeAndSetState addr e new kind).statsOf w =
      ((ps.statsOf w).incdec e.countedIn [.queued]).incdec [.queued]
        (e.withState new kind).countedIn := by
    cases w <;> rfl
  rw [hstats, solvent_incdec_incdec h (nodup_countedIn e), canLeave_iff he]

/-- A peer that is removed, and was counted until then. -/
lemma moves_uncount_remove :
    ps.Moves ((ps.uncount e.countedIn).remove addr) addr none where
  states := rfl
  value w c := by
    have hstats : ((ps.uncount e.countedIn).remove addr).statsOf w =
        (ps.statsOf w).dec e.countedIn := by
      cases w <;> rfl
    rw [hstats, value_dec, count_countedIn, he, countIn_none, Int.add_zero]
  solvent w h := by
    have hstats : ((ps.uncount e.countedIn).remove addr).statsOf w =
        (ps.statsOf w).dec e.countedIn := by
      cases w <;> rfl
    rw [hstats, solvent_dec h (nodup_countedIn e), canLeave_iff he]

omit he

lemma moves_addIncomingPeer {kind}
    (hps : ps.addIncomingPeer addr kind = some ps') : ∃ entry, ps.Moves ps' addr entry := by
  rcases of_addIncomingPeer hps with ⟨e, he, -, rfl⟩ | ⟨hnone, rfl⟩
  · exact ⟨_, moves_takeAndSetState he _ kind⟩
  let entry : PeerEntry L :=
    { peer := Peer.newLiveForIncomingConnection, kind, counters := ps.allocated }
  refine ⟨some entry, rfl, fun w c => ?_, fun w h => ?_⟩
  · rw [hnone, countIn_none, Int.sub_zero, ← count_countedIn]
    cases w <;> exact value_inc
  · refine iff_of_true ?_ (canLeave_of_eq_none hnone)
    cases w <;> exact h.inc

/-- **The death of a connection.** -/
theorem moves_onPeerDied (error finished tracker : Bool) :
    ∃ entry, ps.Moves ((ps.onPeerDied addr error finished tracker).peers ps) addr entry := by
  rw [onPeerDied]
  cases he : ps.states addr with
  | none =>
    have hself : update ps.states addr none = ps.states := by
      rw [← he, update_eq_self]
    refine ⟨none, hself.symm, fun w c => ?_, fun w h => iff_of_true h (canLeave_of_eq_none he)⟩
    rw [he, countIn_none, Int.sub_zero, Int.add_zero]
    rfl
  | some e =>
    have htake : ∃ entry, ps.Moves (ps.takeState addr e) addr entry :=
      ⟨_, moves_setState he .queued e.kind⟩
    have hset : ∀ new, ∃ entry, ps.Moves (ps.takeAndSetState addr e new) addr entry :=
      fun new => ⟨_, moves_takeAndSetState he new e.kind⟩
    dsimp only
    split
    · exact hset _
    · exact htake
    · exact htake
    · split <;> exact hset _
    · split
      · exact htake
      · split <;> exact hset _

end CountedPeers

/-! ## What is owed -/

/-- What a task has still to add to a counter, or to take from it. -/
def SwarmTask.owes (w : StatsOf) (c : PeerCounter) : SwarmTask → ℤ
  | .adding _ todo => if c = .queued then (todo.count w : ℤ) else 0
  | .dropped state todo => -(todo.count w * state.counters.count c)
  | _ => 0

/-- Only the counter of queued peers is owed something that is to be added. -/
lemma SwarmTask.owes_nonpos {w c} (hc : c ≠ .queued) (task : SwarmTask) : task.owes w c ≤ 0 := by
  cases task with
  | adding addr todo => simp [owes, hc]
  | dropped state todo =>
    rw [owes, Left.neg_nonpos_iff]
    positivity
  | _ => exact le_refl 0

namespace Swarm

variable {filter : PeerFilter} {s s' : Swarm L} {addr : PeerHandle} {id : ℕ} {w : StatsOf}
  {c : PeerCounter}

def owed (s : Swarm L) (w : StatsOf) (c : PeerCounter) : ℤ := (s.tasks.map (owes w c)).sum

/-- **A counter, with what is owed to it, and what it should be.** -/
noncomputable def balance (s : Swarm L) (w : StatsOf) (c : PeerCounter) : ℤ :=
  (s.peers.statsOf w).value c + s.owed w c - s.peers.number c

lemma owed_congr (htasks : s'.tasks = s.tasks) : s'.owed w c = s.owed w c := by
  rw [owed, owed, htasks]

lemma owed_spawn (task : SwarmTask) : (s.spawn task).owed w c = s.owed w c + task.owes w c := by
  simp [owed, spawn]

variable {task : SwarmTask}

lemma owed_setTask (htask : s.tasks[id]? = some task) (task' : SwarmTask) :
    (s.setTask id task').owed w c + task.owes w c = s.owed w c + task'.owes w c :=
  sum_map_set _ htask task'

lemma owed_nonpos (hc : c ≠ .queued) : s.owed w c ≤ 0 := by
  rw [owed]
  induction s.tasks with
  | nil => exact le_refl 0
  | cons task tasks ih =>
    exact Int.add_nonpos (task.owes_nonpos hc) ih

/-- What one task owes is owed. -/
lemma owed_le (hc : c ≠ .queued) (htask : s.tasks[id]? = some task) :
    s.owed w c ≤ task.owes w c := by
  have hset := owed_setTask (w := w) (c := c) htask .over
  have hrest : (s.setTask id .over).owed w c ≤ 0 := owed_nonpos hc
  have hover : over.owes w c = 0 := rfl
  omega

/-! ## Steps -/

/-- The counters of queued peers are positive if the peer is queued. -/
def QueuedCounted (s : Swarm L) (addr : PeerHandle) (w : StatsOf) : Prop :=
  ∀ e ∈ s.peers.states addr, e.isQueued = true → 0 < (s.peers.statsOf w).value .queued

/-- **No queued peer changes its state while the counter of queued peers is zero.** -/
def CountsFirst (s : Swarm L) : SwarmStep L → Prop
  | .addIncomingPeer addr _ => ∀ w, s.QueuedCounted addr w
  | .adderMarksNotNeeded => ∀ addr ∈ s.adder, ∀ w, s.QueuedCounted addr w
  | .task id .markPeerConnecting =>
    ∀ addr, s.tasks[id]? = some (.dialing addr) → ∀ w, s.QueuedCounted addr w
  | .task id (.onPeerDied ..) =>
    ∀ h error, s.tasks[id]? = some (.dying h error) → ∀ w, s.QueuedCounted h.addr w
  | .task id .count =>
    ∀ w todo, s.tasks[id]? = some (.dropped .queued (w :: todo)) →
      0 < (s.peers.statsOf w).value .queued
  | _ => True

/-- What a step does to the counters, and when it may. -/
inductive CounterEffect (s : Swarm L) (cond : Prop) (s' : Swarm L) : Prop
  /-- A peer changes its state, and is counted. -/
  | moves {addr entry} (hmoves : s.peers.Moves s'.peers addr entry)
      (howed : ∀ w c, s'.owed w c = s.owed w c)
      (hcond : cond ↔ ∀ w, s.QueuedCounted addr w)
  /-- A peer is inserted, removed or changed, and is not counted. -/
  | owes {addr entry} (hstates : s'.peers.states = update s.peers.states addr entry)
      (hstats : ∀ w, s'.peers.statsOf w = s.peers.statsOf w)
      (howed : ∀ w c, s'.owed w c = s.owed w c + countIn entry c - countIn (s.peers.states addr) c)
      (hcond : cond)
  /-- A peer that was inserted is counted. -/
  | adds {which} (hstates : s'.peers.states = s.peers.states)
      (hstats : ∀ w, s'.peers.statsOf w =
        if w = which then (s.peers.statsOf w).inc [.queued] else s.peers.statsOf w)
      (howed : ∀ w c, s'.owed w c = s.owed w c - if w = which then ([.queued].count c : ℤ) else 0)
      (hcond : cond)
  /-- A peer that was removed is taken out of the counters. -/
  | takes {state : CountedState} {which} (hstates : s'.peers.states = s.peers.states)
      (hstats : ∀ w, s'.peers.statsOf w =
        if w = which then (s.peers.statsOf w).dec state.counters else s.peers.statsOf w)
      (howed : ∀ w c, s'.owed w c =
        s.owed w c + if w = which then (state.counters.count c : ℤ) else 0)
      (howes : ∀ c ∈ state.counters, c ≠ .queued → s.owed which c < 0)
      (hcond : cond ↔ (state = .queued → 0 < (s.peers.statsOf which).value .queued))

/-- Neither the map nor a counter is touched, and nothing new is owed. -/
lemma CounterEffect.silent {cond : Prop} (hstates : s'.peers.states = s.peers.states)
    (hstats : ∀ w, s'.peers.statsOf w = s.peers.statsOf w)
    (howed : ∀ w c, s'.owed w c = s.owed w c) (hcond : cond) : s.CounterEffect cond s' := by
  have hself : s'.peers.states =
      update s.peers.states listening (s.peers.states listening) := by
    rw [hstates, update_eq_self]
  refine .owes hself hstats (fun w c => ?_) hcond
  rw [howed, Int.add_sub_cancel]

/-- The tasks do not owe more than before, but for one that owes nothing. -/
lemma owed_setTask_eq {task'} (htask : s.tasks[id]? = some task)
    (htasks : s'.tasks = s.tasks.set id task') (howes : task.owes w c = 0)
    (howes' : task'.owes w c = 0) : s'.owed w c = s.owed w c := by
  have hset := owed_setTask (w := w) (c := c) htask task'
  have hsame : s'.owed w c = (s.setTask id task').owed w c := owed_congr htasks
  omega

lemma owed_begins (peers : CountedPeers L) :
    ((s.begins addr).withPeers peers).owed w c = s.owed w c :=
  owed_congr (tasks_begins addr)

/-- A peer that is inserted is to be counted twice, as a queued one. -/
lemma owes_adding (w : StatsOf) (c : PeerCounter) :
    (adding addr [.torrent, .session]).owes w c = ([PeerCounter.queued].count c : ℤ) := by
  by_cases hc : c = .queued
  · subst hc
    cases w <;> rfl
  · have hzero : [PeerCounter.queued].count c = 0 := count_eq_zero.mpr (by simpa using hc)
    rw [owes, if_neg hc, hzero]
    rfl

/-- A peer that is removed is to be taken out of the counters twice. -/
lemma owes_dropped (e : PeerEntry L) (w : StatsOf) (c : PeerCounter) :
    (dropped e.counted [.torrent, .session]).owes w c = -countIn (some e) c := by
  have hcount : [StatsOf.torrent, .session].count w = 1 := by cases w <;> rfl
  rw [owes, hcount, ← count_countedIn, Nat.cast_one, Int.one_mul]
  rfl

lemma queuedCounted_of_not_isQueued
    (h : ∀ e ∈ s.peers.states addr, e.isQueued = false) (w : StatsOf) :
    s.QueuedCounted addr w := by
  intro e he hqueued
  rw [h e he] at hqueued
  cases hqueued

/-- A peer in another state than queued. -/
lemma queuedCounted_of_state {e} (he : s.peers.states addr = some e)
    (hstate : e.peer.state ≠ .queued) (w : StatsOf) : s.QueuedCounted addr w := by
  refine queuedCounted_of_not_isQueued (fun e' he' => ?_) w
  cases he.symm.trans he'
  rw [isQueued]
  cases hs : e.peer.state with
  | queued => exact absurd hs hstate
  | connecting | live | dead | notNeeded => rfl

/-- A peer in another state than queued changes its state, and nothing new is owed. -/
lemma CounterEffect.sets {e} {cond : Prop} {new kind}
    (he : s.peers.states addr = some e) (hstate : e.peer.state ≠ .queued)
    (hpeers : s'.peers = s.peers.setState addr e new kind)
    (howed : ∀ w c, s'.owed w c = s.owed w c) (hcond : cond) : s.CounterEffect cond s' := by
  have hmoves := moves_setState he new kind
  rw [← hpeers] at hmoves
  exact .moves hmoves howed (iff_of_true hcond (queuedCounted_of_state he hstate))

lemma countIn_withPeer {e : PeerEntry L} {peer : Peer L}
    (h : peer.state.counted e.kind = e.counted) (c : PeerCounter) :
    countIn (some { e with peer }) c = countIn (some e) c := by
  rw [← count_countedIn, ← count_countedIn]
  simp only [countedIn, counted] at h ⊢
  rw [h]

lemma owed_updateStats (f : AggregatePeerStats → AggregatePeerStats) (which : StatsOf)
    (task : SwarmTask) :
    ((s.updateStats f which).setTask id task).owed w c = (s.setTask id task).owed w c := by
  cases which <;> rfl

lemma count_todo (which : StatsOf) (todo : List StatsOf) (w : StatsOf) :
    ((which :: todo).count w : ℤ) = todo.count w + if w = which then 1 else 0 := by
  rcases eq_or_ne w which with rfl | hne
  · simp
  · simp [hne, hne.symm]

variable {todo : List StatsOf}

/-- A peer that was inserted is counted, once more. -/
lemma counterEffect_countsAdded {which}
    (htask : s.tasks[id]? = some (.adding addr (which :: todo))) :
    s.CounterEffect (s.CountsFirst (.task id .count))
      ((s.updateStats (·.atomicInc .queued) which).setTask id
        (if todo.isEmpty then .sending addr else .adding addr todo)) := by
  refine @CounterEffect.adds L s _ _ which ?_ (fun w => ?_) (fun w c => ?_) ?_
  · cases which <;> rfl
  · cases which <;> cases w <;> rfl
  · have howes : (if todo.isEmpty then sending addr else .adding addr todo).owes w c =
        if c = .queued then (todo.count w : ℤ) else 0 := by
      cases todo <;> simp [owes]
    have hset := owed_setTask (w := w) (c := c) htask
      (if todo.isEmpty then .sending addr else .adding addr todo)
    rw [howes, owes, count_todo] at hset
    rw [owed_updateStats]
    by_cases hc : c = .queued
    · subst hc
      rw [if_pos rfl, if_pos rfl] at hset
      rw [count_singleton_self, Nat.cast_one]
      omega
    · have hzero : [PeerCounter.queued].count c = 0 := count_eq_zero.mpr (by simpa using hc)
      rw [if_neg hc, if_neg hc] at hset
      omega
  · intro w todo' htask'
    rw [htask] at htask'
    cases htask'

/-- A peer that was removed is taken out of the counters, once more. -/
lemma counterEffect_countsDropped {state which}
    (htask : s.tasks[id]? = some (.dropped state (which :: todo))) :
    s.CounterEffect (s.CountsFirst (.task id .count))
      ((s.updateStats (·.dec state.counters) which).setTask id
        (if todo.isEmpty then .over else .dropped state todo)) := by
  have howesTask : ∀ w c, (dropped state (which :: todo)).owes w c =
      -((todo.count w + if w = which then 1 else 0) * state.counters.count c) := by
    intro w c
    rw [owes, count_todo]
  refine @CounterEffect.takes L s _ _ state which ?_ (fun w => ?_) (fun w c => ?_)
    (fun c hmem hc => ?_) ⟨fun h hqueued => ?_, fun h w todo' htask' => ?_⟩
  · cases which <;> rfl
  · cases which <;> cases w <;> rfl
  · have howes : (if todo.isEmpty then .over else dropped state todo).owes w c =
        -(todo.count w * state.counters.count c) := by
      cases todo <;> simp [owes]
    have hset := owed_setTask (w := w) (c := c) htask
      (if todo.isEmpty then .over else .dropped state todo)
    rw [howesTask] at hset
    rw [owed_updateStats]
    by_cases hw : w = which
    · rw [if_pos hw] at hset ⊢
      rw [Int.add_mul] at hset
      omega
    · rw [if_neg hw] at hset ⊢
      rw [Int.add_zero] at hset
      omega
  · have hle := owed_le (w := which) hc htask
    have hpos : 0 < state.counters.count c := count_pos_iff.mpr hmem
    have hrest : 0 ≤ (todo.count which : ℤ) * state.counters.count c := by positivity
    rw [howesTask, if_pos rfl, Int.add_mul] at hle
    omega
  · exact h which todo (hqueued ▸ htask)
  · rw [htask] at htask'
    obtain ⟨rfl, hlist⟩ := dropped.inj (Option.some.inj htask')
    obtain ⟨rfl, -⟩ := List.cons.inj hlist
    exact h rfl

/-- **Every step does one of these.** -/
theorem counterEffect_of_step {a} (hs : s.step filter a = some s') :
    s.CounterEffect (s.CountsFirst a) s' := by
  cases effect_of_step hs with
  | @addPeerIfNotSeen addr ps hps =>
    obtain ⟨hnone, rfl⟩ := of_addIfNotSeen hps
    refine .owes rfl (fun w => by cases w <;> rfl) (fun w c => ?_) trivial
    rw [owed_spawn, owed_begins, owes_adding, hnone, countIn_none, Int.sub_zero, ← count_countedIn]
    rfl
  | @addIncomingPeer addr kind ps hps =>
    obtain ⟨entry, hmoves⟩ := moves_addIncomingPeer hps
    refine .moves hmoves (fun w c => ?_) Iff.rfl
    rw [owed_spawn, owed_begins]
    exact Int.add_zero _
  | adderReceives | adderSkips | setOwner | ignoresHandshake | ignoresExtendedHandshake =>
    exact .silent rfl (fun _ => rfl) (fun _ _ => rfl) trivial
  | @adderMarksNotNeeded addr hadder =>
    have hcond : s.CountsFirst .adderMarksNotNeeded ↔ ∀ w, s.QueuedCounted addr w := by
      simp only [CountsFirst, hadder, mem_some_iff, forall_eq']
    cases he : s.peers.states addr with
    | none =>
      have hsame := getD_markPeerNotNeeded_of_none he
      refine .silent (congrArg _ hsame) (fun w => congrArg (·.statsOf w) hsame) (fun _ _ => rfl)
        (hcond.mpr (queuedCounted_of_not_isQueued ?_))
      intro e he'
      cases he.symm.trans he'
    | some e =>
      have hmoves : s.peers.Moves ((s.peers.markPeerNotNeeded addr).getD s.peers) addr
          (some (e.withState .notNeeded)) := by
        rw [getD_markPeerNotNeeded_of_some he]
        exact moves_setState he _ _
      exact .moves hmoves (fun _ _ => rfl) hcond
  | adderSpawns =>
    refine .silent rfl (fun _ => rfl) (fun w c => ?_) trivial
    rw [owed_spawn]
    exact Int.add_zero _
  | @disconnectIfFull addr ps hps =>
    obtain ⟨e, he, hlive, rfl⟩ := of_disconnectIfFull hps
    refine .sets he (fun hstate => ?_) rfl (fun _ _ => rfl) trivial
    rw [isLive_of_state hstate] at hlive
    cases hlive
  | @reconnectNotNeededPeer addr ps outgoing hps =>
    obtain ⟨e, he, hstate, -, rfl⟩ := of_reconnectNotNeededPeer hps
    by_cases hsame : addr = outgoing
    · rw [if_pos hsame, if_pos hsame]
      refine .sets he (by simp [hstate]) (peers_trySend outgoing) (fun w c => ?_) trivial
      rw [owed_congr (tasks_trySend outgoing), owed_begins]
    · rw [if_neg hsame, if_neg hsame]
      exact .silent (by rw [peers_trySend]; rfl) (fun w => by rw [peers_trySend]; rfl)
        (fun w c => owed_congr (tasks_trySend outgoing)) trivial
  | @requeueDeadPeer addr ps hps =>
    obtain ⟨e, he, hstate, rfl⟩ := of_deadToQueued hps
    refine .sets he (by simp [hstate]) (peers_trySend addr) (fun w c => ?_) trivial
    rw [owed_congr (tasks_trySend addr), owed_begins]
  | @pruneDeadPeer addr ps hps =>
    obtain ⟨e, he, hprune, rfl⟩ := of_pruneDeadPeer hps
    refine .moves (moves_uncount_remove he) (fun _ _ => rfl)
      (iff_of_true trivial (queuedCounted_of_state he fun hstate => ?_))
    simp [Peer.isPrunable, hstate] at hprune
  | @withLiveMut addr f ps hps =>
    obtain ⟨e, he, hmap⟩ := bind_eq_some_iff.mp hps
    obtain ⟨live, hlive, rfl⟩ := map_eq_some_iff.mp hmap
    refine .owes rfl (fun w => by cases w <;> rfl) (fun w c => ?_) trivial
    have hcounted : (e.peer.setState (.live (f live))).state.counted e.kind = e.counted := by
      rw [counted, Peer.getLive_eq_some.mp hlive]
      rfl
    rw [he, countIn_withPeer hcounted, Int.add_sub_cancel]
    rfl
  | @countsAdded id addr which todo htask => exact counterEffect_countsAdded htask
  | @countsDropped id state which todo htask => exact counterEffect_countsDropped htask
  | @sends id addr htask =>
    refine .silent ?_ (fun w => ?_) (fun w c => ?_) trivial
    · rw [peers_setTask, peers_trySend]
    · rw [peers_setTask, peers_trySend]
    · have htasks : ((s.trySend addr).setTask id .over).tasks = s.tasks.set id .over :=
        congrArg (fun tasks => tasks.set id .over) (tasks_trySend addr)
      exact owed_setTask_eq htask htasks rfl rfl
  | @marks id addr ps htask hps =>
    obtain ⟨e, he, -, rfl⟩ := of_markPeerConnecting hps
    refine .moves (moves_setState he _ _) (fun w c => ?_) ?_
    · exact owed_setTask_eq htask (congrArg (List.set · id _) (tasks_begins addr)) rfl rfl
    · simp only [CountsFirst, htask, Option.some.injEq, dialing.injEq, forall_eq']
  | @marksNot id addr htask hps =>
    refine .silent rfl (fun _ => rfl) (fun _ _ => owed_setTask_eq htask rfl rfl rfl) ?_
    intro addr' htask'
    obtain rfl := dialing.inj (Option.some.inj (htask.symm.trans htask'))
    exact queuedCounted_of_not_isQueued (isQueued_of_markPeerConnecting hps)
  | getsCounters htask | getsNoCounters htask | dropsNothing htask | wakesLate htask =>
    exact .silent rfl (fun _ => rfl) (fun _ _ => owed_setTask_eq htask rfl rfl rfl) trivial
  | onConnected htask =>
    exact .silent rfl (fun w => by cases w <;> rfl) (fun _ _ => owed_setTask_eq htask rfl rfl rfl)
      trivial
  | onHandshake htask hps =>
    obtain ⟨e, he, hstate, rfl⟩ := of_setPeerLive hps
    refine .moves (moves_takeAndSetState he _ _) (fun _ _ => rfl)
      (iff_of_true trivial (queuedCounted_of_state he (by simp [hstate])))
  | onExtendedHandshake htask hincoming hps =>
    obtain ⟨e, he, rfl⟩ := map_eq_some_iff.mp hps
    refine .owes rfl (fun w => by cases w <;> rfl) (fun w c => ?_) trivial
    rw [he]
    exact (Int.add_sub_cancel (s.owed w c) (countIn (some e) c)).symm
  | ends htask =>
    refine .silent rfl (fun _ => rfl) (fun _ _ => ?_) trivial
    rcases htask with htask | htask <;> exact owed_setTask_eq htask rfl rfl rfl
  | @onPeerDied id handler error finished tracker htask =>
    obtain ⟨entry, hmoves⟩ := @moves_onPeerDied L s.peers handler.addr
      error finished tracker
    obtain ⟨task, htasks, -, hcases⟩ :=
      exists_tasks_onPeerDied id handler error finished tracker
    refine .moves (peers_onPeerDied .. ▸ hmoves) (fun w c => ?_) ?_
    · refine owed_setTask_eq htask htasks rfl ?_
      rcases hcases with rfl | rfl | rfl <;> rfl
    · simp only [CountsFirst, htask, Option.some.injEq, dying.injEq, and_imp, forall_eq',
        forall_apply_eq_imp_iff]
  | @drops id handler e htask he =>
    refine .owes rfl (fun w => by cases w <;> rfl) (fun w c => ?_) trivial
    have hset := owed_setTask (w := w) (c := c) htask (.dropped e.counted [.torrent, .session])
    rw [owes_dropped] at hset
    rw [he, countIn_none, Int.add_zero]
    exact (Int.add_zero _).symm.trans hset
  | @wakes id addr ps htask hps =>
    obtain ⟨e, he, hstate, rfl⟩ := of_deadToQueued hps
    refine .sets he (by simp [hstate]) rfl (fun w c => ?_) trivial
    exact owed_setTask_eq htask (congrArg (List.set · id _) (tasks_begins addr)) rfl rfl

/-! ## What a step keeps -/

lemma number_update (hfinite : FiniteKeys s.peers.states) {entry}
    (hstates : s'.peers.states = update s.peers.states addr entry) :
    s'.peers.number c = s.peers.number c - countIn (s.peers.states addr) c + countIn entry c := by
  have htally := tally_update (P := isIn c) hfinite addr entry
  rw [number, number, hstates, countIn, countIn]
  omega

namespace CounterEffect

variable {cond : Prop} (heffect : s.CounterEffect cond s')
include heffect

lemma finiteKeys (hfinite : FiniteKeys s.peers.states) :
    FiniteKeys s'.peers.states := by
  cases heffect with
  | moves hmoves => exact hmoves.states ▸ hfinite.update _ _
  | owes hstates => exact hstates ▸ hfinite.update _ _
  | adds hstates | takes hstates => exact hstates ▸ hfinite

/-- **The balance of a counter never changes.** -/
theorem balance_eq (hfinite : FiniteKeys s.peers.states)
    (w : StatsOf) (c : PeerCounter) : s'.balance w c = s.balance w c := by
  rw [balance, balance]
  cases heffect with
  | moves hmoves howed =>
    rw [hmoves.value, howed, number_update hfinite hmoves.states]
    omega
  | owes hstates hstats howed =>
    rw [hstats, howed, number_update hfinite hstates]
    omega
  | adds hstates hstats howed =>
    rw [number, hstates, hstats, howed]
    split
    · rw [value_inc, number]
      omega
    · rw [number]
      omega
  | takes hstates hstats howed =>
    rw [number, hstates, hstats, howed]
    split
    · rw [value_dec, number]
      omega
    · rw [number]
      omega

end CounterEffect

/-! ## When counters underflow -/

/-- The counters count every peer, but for queued ones, and all that is still to be taken out of
them. -/
def Covered (s : Swarm L) (w : StatsOf) : Prop :=
  ∀ c ≠ .queued, s.peers.number c - s.owed w c ≤ (s.peers.statsOf w).value c

/-- Only for a queued peer it is a question whether it was counted. -/
lemma canLeave_iff_queuedCounted (hfinite : FiniteKeys s.peers.states) (hcovered : s.Covered w) :
    s.peers.CanLeave w addr ↔ s.QueuedCounted addr w := by
  constructor
  · intro hleave e he hqueued
    exact hleave e he .queued (queued_mem_countedIn.mpr hqueued)
  intro hcounted e he c hc
  by_cases hqueued : c = .queued
  · subst hqueued
    exact hcounted e he (queued_mem_countedIn.mp hc)
  have hnumber : 0 < s.peers.number c := by
    refine Int.natCast_pos.mpr (tally_pos hfinite (a := addr) ?_)
    rw [mem_def.mp he, any_some, isIn_eq]
    exact decide_eq_true hc
  have howed : s.owed w c ≤ 0 := owed_nonpos hqueued
  have := hcovered c hqueued
  omega

namespace CounterEffect

variable {cond : Prop}

/-- **A step makes no counter underflow exactly when its condition holds.** -/
theorem solvent_iff (heffect : s.CounterEffect cond s') (hfinite : FiniteKeys s.peers.states)
    (hcovered : ∀ w, s.Covered w) (hsolvent : ∀ w, (s.peers.statsOf w).Solvent) :
    (∀ w, (s'.peers.statsOf w).Solvent) ↔ cond := by
  cases heffect with
  | moves hmoves howed hcond =>
    rw [hcond]
    refine forall_congr' fun w => ?_
    rw [hmoves.solvent w (hsolvent w), canLeave_iff_queuedCounted hfinite (hcovered w)]
  | owes hstates hstats howed hcond =>
    refine iff_of_true (fun w => ?_) hcond
    rw [hstats]
    exact hsolvent w
  | adds hstates hstats howed hcond =>
    refine iff_of_true (fun w => ?_) hcond
    rw [hstats]
    split
    · exact (hsolvent w).inc
    · exact hsolvent w
  | @takes state which hstates hstats howed howes hcond =>
    have hdec := solvent_dec (hsolvent which) state.nodup_counters
    rw [hcond]
    constructor
    · intro hsolvent' hqueued
      have hwhich := hsolvent' which
      rw [hstats, if_pos rfl, hdec] at hwhich
      exact hwhich .queued (hqueued ▸ mem_singleton_self _)
    · intro hqueued w
      rw [hstats]
      split
      · next hw =>
        subst hw
        refine hdec.mpr fun c hc => ?_
        by_cases hne : c = .queued
        · subst hne
          refine hqueued ?_
          cases state <;> simp_all [CountedState.counters]
        have howed := howes c hc hne
        have hcover := hcovered w c hne
        have hnumber : 0 ≤ s.peers.number c := Int.natCast_nonneg _
        omega
      · exact hsolvent w

end CounterEffect

end Swarm

end Librtbit
