import Librtbit.Swarm.Counters

/-!
# Swarm/Session — the counters of a session and of all its torrents

The torrents of a session run at the same time and share the counters of the session.  A torrent
that is dropped takes the peers it still has out of the counters, one after the other.

* `Session.Balanced` — in every state a counter is the number of peers, less what is owed to it.
* `Session.countersExact_iff_countsFirst` — no counter is decremented at zero, and every counter is
  exact whenever no peer is on its way into the map or out of it, exactly when no queued peer
  changes its state while the counter of queued peers is zero.
-/

namespace Librtbit

open Machinery Swarm

variable {ι : Type} {L : ι → Lengths}

/-! ## States -/

/-- Any number of torrents. -/
structure Session (L : ι → Lengths) where
  torrents : ∀ i, Swarm (L i) := fun _ => {}
  /-- The counters that all torrents share. -/
  stats : AggregatePeerStats := {}
  /-- The torrents that nothing refers to any more. -/
  dropped : ι → Bool := fun _ => false

inductive SessionStep (L : ι → Lengths) where
  | torrent (i : ι) (a : SwarmStep (L i))
  /-- The last reference to a live torrent goes away. -/
  | drop (i : ι)
  /-- One peer of a torrent that was dropped. -/
  | destroy (i : ι) (addr : PeerHandle)

/-- A task that waits for something: here it can be cancelled. -/
def SwarmTask.isSuspended : SwarmTask → Bool
  | .dialing _ | .connecting _ | .connected _ | .waiting _ | .over => true
  | .adding .. | .sending _ | .marked .. | .dying .. | .dropping _ | .dropped .. => false

/-- A task that is not about to count a peer. -/
def SwarmTask.isSettled : SwarmTask → Bool
  | .adding _ todo | .dropped _ todo => todo.isEmpty
  | _ => true

namespace Session

/-- A torrent, with the counters of the session. -/
def torrent (s : Session L) (i : ι) : Swarm (L i) :=
  (s.torrents i).withPeers { (s.torrents i).peers with sessionStats := s.stats }

def setTorrent [DecidableEq ι] (s : Session L) (i : ι) (t : Swarm (L i)) : Session L :=
  { s with torrents := Function.update s.torrents i t, stats := t.peers.sessionStats }

/-! ## Steps -/

/-- **One step of one torrent**, or of the end of one. -/
def step [DecidableEq ι] (filter : PeerFilter) (s : Session L) : SessionStep L → Option (Session L)
  | .torrent i a =>
    if s.dropped i then none else ((s.torrent i).step filter a).map (s.setTorrent i)
  | .drop i =>
    if (s.torrents i).tasks.all SwarmTask.isSuspended then
      some { s with dropped := Function.update s.dropped i true }
    else none
  | .destroy i addr =>
    if s.dropped i then
      ((s.torrent i).peers.destroy addr).map fun ps => s.setTorrent i ((s.torrent i).withPeers ps)
    else none

/-! ## The property -/

/-- No peer of the torrent is in the map and not counted, or the other way around. -/
def Settled (s : Session L) (i : ι) : Prop := ∀ task ∈ (s.torrents i).tasks, task.isSettled = true

/-- No counter was ever decremented at zero. -/
def Solvent (s : Session L) : Prop := s.stats.Solvent ∧ ∀ i, (s.torrents i).peers.stats.Solvent

/-- **The counters are exact**: each counter of a torrent is the number of its peers in that state,
and each counter of the session is the sum over its torrents. -/
structure CountersExact [Fintype ι] (s : Session L) : Prop where
  torrent : ∀ i, s.Settled i → ∀ c,
    (s.torrents i).peers.stats.value c = (s.torrents i).peers.number c
  session : (∀ i, s.Settled i) → ∀ c, s.stats.value c = ∑ i, (s.torrents i).peers.stats.value c
  solvent : s.Solvent

/-- **No queued peer changes its state while the counter of queued peers is zero.** -/
def CountsFirst (s : Session L) : SessionStep L → Prop
  | .torrent i a => (s.torrent i).CountsFirst a
  | .drop _ => True
  | .destroy i addr => ∀ w, (s.torrent i).QueuedCounted addr w

/-! ## The balance -/

variable {filter : PeerFilter} {s s' : Session L} {i : ι} {c : PeerCounter}

@[simp] lemma owed_torrent (w : StatsOf) : (s.torrent i).owed w c = (s.torrents i).owed w c := rfl

@[simp] lemma number_torrent : (s.torrent i).peers.number c = (s.torrents i).peers.number c := rfl

/-- What the torrents have not yet told the session, less their peers. -/
noncomputable def unaccounted (s : Session L) (c : PeerCounter) (i : ι) : ℤ :=
  (s.torrents i).owed .session c - (s.torrents i).peers.number c

lemma balance_session :
    (s.torrent i).balance .session c = s.stats.value c + s.unaccounted c i := by
  rw [unaccounted, ← Int.add_sub_assoc]
  rfl

lemma unaccounted_nonpos (hc : c ≠ .queued) (i : ι) : s.unaccounted c i ≤ 0 := by
  have howed : (s.torrents i).owed .session c ≤ 0 := owed_nonpos hc
  have hnumber : 0 ≤ (s.torrents i).peers.number c := Int.natCast_nonneg _
  rw [unaccounted]
  omega

lemma owed_of_settled (h : s.Settled i) (w : StatsOf) : (s.torrents i).owed w c = 0 := by
  have hzero : ∀ task ∈ (s.torrents i).tasks, task.owes w c = 0 := by
    intro task htask
    have hsettled := h task htask
    cases task with
    | adding addr todo | dropped state todo =>
      obtain rfl := List.isEmpty_iff.mp hsettled
      simp [SwarmTask.owes]
    | _ => rfl
  rw [owed, List.map_congr_left hzero, List.map_const', List.sum_replicate, smul_zero]

section

variable [Fintype ι]

/-- **Every counter is the number of peers, less what is owed to it.** -/
structure Balanced (s : Session L) : Prop where
  finite : ∀ i, FiniteKeys (s.torrents i).peers.states
  torrent : ∀ i c, (s.torrents i).balance .torrent c = 0
  session : ∀ c, s.stats.value c + ∑ i, s.unaccounted c i = 0

lemma balanced_empty : ({} : Session L).Balanced where
  finite _ := finiteKeys_empty
  torrent i c := by
    rw [balance, CountedPeers.number, tally_empty]
    rfl
  session c := by
    have hzero : ∀ i : ι, ({} : Session L).unaccounted c i = 0 := by
      intro i
      rw [unaccounted, CountedPeers.number, tally_empty]
      rfl
    rw [Finset.sum_congr rfl fun i _ => hzero i, Finset.sum_const_zero]
    rfl

lemma Balanced.value_eq (h : s.Balanced) (hi : s.Settled i) :
    (s.torrents i).peers.stats.value c = (s.torrents i).peers.number c := by
  have hbalance := h.torrent i c
  rw [balance, owed_of_settled hi, Int.add_zero] at hbalance
  exact Int.eq_of_sub_eq_zero hbalance

/-- **In balance, only an underflow can make the counters wrong.** -/
theorem Balanced.countersExact_iff (h : s.Balanced) : s.CountersExact ↔ s.Solvent := by
  refine ⟨fun hexact => hexact.solvent, fun hsolvent => ⟨fun i hi c => h.value_eq hi, ?_, hsolvent⟩⟩
  intro hall c
  have hunaccounted : ∀ i, s.unaccounted c i = -(s.torrents i).peers.stats.value c := by
    intro i
    rw [unaccounted, owed_of_settled (hall i), h.value_eq (hall i), Int.zero_sub]
  have hsession := h.session c
  rw [Finset.sum_congr rfl fun i _ => hunaccounted i, Finset.sum_neg_distrib] at hsession
  omega

end

/-! ## Steps keep the balance -/

lemma moves_destroy {ps ps' : CountedPeers (L i)} {addr : PeerHandle}
    (hps : ps.destroy addr = some ps') : ps.Moves ps' addr none := by
  obtain ⟨e, he, rfl⟩ := Option.map_eq_some_iff.mp hps
  have hmoves := CountedPeers.moves_uncount_remove he
  exact ⟨hmoves.states, hmoves.value, hmoves.solvent⟩

lemma solvent_torrent (h : s.Solvent) (i : ι) (w : StatsOf) :
    ((s.torrent i).peers.statsOf w).Solvent := by
  cases w with
  | torrent => exact h.2 i
  | session => exact h.1

variable [DecidableEq ι]

@[simp] lemma torrent_setTorrent (t : Swarm (L i)) : (s.setTorrent i t).torrent i = t := by
  simp [torrent, setTorrent, withPeers]

lemma torrents_setTorrent_of_ne (t : Swarm (L i)) {j : ι} (hj : j ≠ i) :
    (s.setTorrent i t).torrents j = s.torrents j :=
  Function.update_of_ne hj _ _

variable {a : SessionStep L}

/-- **Every step is one of one torrent**, as far as its counters and those of the session are
concerned. -/
theorem effect_of_step (hs : s.step filter a = some s') :
    ∃ i, (s.torrent i).CounterEffect (s.CountsFirst a) (s'.torrent i) ∧
      ∀ j ≠ i, s'.torrents j = s.torrents j := by
  cases a with
  | torrent i a =>
    rw [step] at hs
    split at hs
    · cases hs
    obtain ⟨t, ht, rfl⟩ := Option.map_eq_some_iff.mp hs
    refine ⟨i, ?_, fun j hj => torrents_setTorrent_of_ne t hj⟩
    rw [torrent_setTorrent]
    exact counterEffect_of_step ht
  | drop i =>
    rw [step] at hs
    split at hs <;> cases hs
    exact ⟨i, .silent rfl (fun _ => rfl) (fun _ _ => rfl) trivial, fun _ _ => rfl⟩
  | destroy i addr =>
    rw [step] at hs
    split at hs
    · obtain ⟨ps, hps, rfl⟩ := Option.map_eq_some_iff.mp hs
      refine ⟨i, ?_, fun j hj => torrents_setTorrent_of_ne _ hj⟩
      rw [torrent_setTorrent]
      exact .moves (moves_destroy hps) (fun _ _ => rfl) Iff.rfl
    · cases hs

variable [Fintype ι]

/-- **No step disturbs the balance.** -/
theorem Balanced.step (h : s.Balanced) (hs : s.step filter a = some s') :
    s'.Balanced := by
  obtain ⟨i, heffect, hothers⟩ := effect_of_step hs
  have hbalance := heffect.balance_eq (h.finite i)
  refine ⟨fun j => ?_, fun j c => ?_, fun c => ?_⟩
  · rcases eq_or_ne j i with rfl | hj
    · exact heffect.finiteKeys (h.finite j)
    · rw [hothers j hj]
      exact h.finite j
  · rcases eq_or_ne j i with rfl | hj
    · exact (hbalance .torrent c).trans (h.torrent j c)
    · rw [hothers j hj]
      exact h.torrent j c
  · have hsum : ∑ j, s'.unaccounted c j + s.unaccounted c i =
        ∑ j, s.unaccounted c j + s'.unaccounted c i :=
      sum_add_of_eq_off fun j hj => by rw [unaccounted, hothers j hj, unaccounted]
    have hsession := hbalance .session c
    rw [balance_session, balance_session] at hsession
    have := h.session c
    omega

/-! ## Underflow -/

/-- No counter is behind, but for the ones of queued peers. -/
lemma Balanced.covered (h : s.Balanced) (i : ι) (w : StatsOf) : (s.torrent i).Covered w := by
  intro c hc
  cases w with
  | torrent =>
    have hbalance : (s.torrent i).balance .torrent c = 0 := h.torrent i c
    rw [balance] at hbalance
    omega
  | session =>
    have hsum : ∑ j, s.unaccounted c j ≤ s.unaccounted c i := by
      rw [← Finset.add_sum_erase Finset.univ _ (Finset.mem_univ i)]
      have hrest : ∑ j ∈ Finset.univ.erase i, s.unaccounted c j ≤ 0 :=
        Finset.sum_nonpos fun j _ => unaccounted_nonpos hc j
      omega
    have hbalance := h.session c
    rw [owed_torrent, number_torrent]
    rw [unaccounted] at hsum
    have hvalue : ((s.torrent i).peers.statsOf .session).value c = s.stats.value c := rfl
    omega

/-! ## Runs

A peer is found: it is inserted into the map, and before it is counted it connects to us.  It is
live now and is taken out of the counters of queued peers, which are zero. -/

def connectsUncounted : List (SessionStep fun _ : Unit => Lengths.onePiece) :=
  [.torrent () (.addPeerIfNotSeen listening), .torrent () (.addIncomingPeer listening .tcp)]

theorem not_countersExact_connectsUncounted :
    ¬ Always (step noFilter) CountersExact {} connectsUncounted := by
  intro h
  have hweak := h.mono fun s hs => hs.solvent.1.1
  exact not_always_of_run (by decide) hweak

/-- **The counters**: throughout a run no counter of a torrent or of the session is decremented at
zero, and all counters are exact whenever nothing is owed to them, exactly when in every step no
queued peer changes its state while a counter of queued peers is zero. -/
theorem countersExact_iff_countsFirst (as : List (SessionStep L)) :
    Always (step filter) CountersExact {} as ↔
      Along (step filter) CountsFirst {} as := by
  refine always_iff_along_of_invariant (fun s a s' h hs => h.step hs) ?_
    balanced_empty ?_ as
  · intro s a s' h hexact hs
    rw [(h.step hs).countersExact_iff]
    obtain ⟨i, heffect, hothers⟩ := effect_of_step hs
    rw [← heffect.solvent_iff (h.finite i) (h.covered i) (solvent_torrent hexact.solvent i)]
    refine ⟨fun h' => solvent_torrent h' i, fun h' => ⟨h' .session, fun j => ?_⟩⟩
    rcases eq_or_ne j i with rfl | hj
    · exact h' .torrent
    · rw [hothers j hj]
      exact hexact.solvent.2 j
  · rw [balanced_empty.countersExact_iff]
    exact ⟨⟨rfl, fun _ => le_refl 0⟩, fun _ => ⟨rfl, fun _ => le_refl 0⟩⟩

end Session

end Librtbit
