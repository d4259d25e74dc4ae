import Librtbit.Dht.Inflight
import Librtbit.Machinery.Pool

/-!
# Dht/Matching — a response goes to the request it is for

An entry of the table is of a request whose channel is empty, and there is an entry for every such
request that has made one (`Tracked`); so a response is sent to one request and no request gets two.
That the entry of a request is the one under its transaction id and address when it comes to remove
it needs that ids are not used again too early: of the requests that are not over, no two have the
same id (`eq_of_tid_eq`).

The table is exact as long as no caller is dropped while its entry is in there
(`request_sound_iff`).
-/

namespace Librtbit.Dht

open Machinery Net Dht.RequestTask List Option

def Channel.isEmpty : Channel → Bool
  | .empty => true
  | _ => false

def Channel.isSent : Channel → Bool
  | .sent _ => true
  | _ => false

namespace RequestTask

variable {t : RequestTask}

/-- The sending end of the channel is in the table. -/
def isHeld (t : RequestTask) : Bool :=
  match t.phase with
  | .created => false
  | _ => t.channel.isEmpty

def isOver (t : RequestTask) : Bool :=
  match t.phase with
  | .returned _ | .cancelled | .unawaited => true
  | _ => false

/-- **Its caller still waits**: the call has made its entry and is not over, and no answer has been
sent. -/
def isWaiting (t : RequestTask) : Bool :=
  match t.phase with
  | .inserted | .waiting | .removing _ => !t.channel.isSent
  | _ => false

/-- How far a request is and what is in its channel go together. -/
def Fits (t : RequestTask) : Prop :=
  match t.phase with
  | .created => t.channel = .empty
  | .inserted | .waiting | .removing _ => t.channel ≠ .closed
  | .returned r => t.channel ≠ .empty ∧ ∀ answer, r = .ok answer → t.channel = .sent (.ok answer)
  | .cancelled => True
  | .unawaited => t.channel = .closed

lemma isHeld_of_isWaiting (hfits : t.Fits) (h : t.isWaiting) :
    t.isHeld ∧ t.isOver = false := by
  obtain ⟨tid, request, addr, phase, channel⟩ := t
  cases phase <;> cases channel <;>
    first | exact ⟨rfl, rfl⟩ | exact absurd rfl hfits | exact absurd h Bool.false_ne_true

lemma isWaiting_of_isHeld (hfits : t.Fits) (h : t.isHeld) :
    t.isWaiting ∨ t.phase = .cancelled := by
  obtain ⟨tid, request, addr, phase, channel⟩ := t
  cases phase <;> cases channel <;>
    first
    | exact .inl rfl
    | exact .inr rfl
    | exact absurd rfl hfits.1
    | exact absurd h Bool.false_ne_true
    | cases hfits

lemma channel_of_isHeld (h : t.isHeld) : t.channel = .empty := by
  obtain ⟨tid, request, addr, phase, channel⟩ := t
  cases phase <;> cases channel <;> first | rfl | exact absurd h Bool.false_ne_true

lemma fits_sent (r : Except RequestError ResponseOrError) (hwaiting : t.isWaiting) :
    (t.withChannel (.sent r)).Fits ∧ t.isOver = false ∧ t.phase ≠ .cancelled := by
  have hne : Channel.sent r ≠ .closed := Channel.noConfusion
  obtain ⟨tid, request, addr, phase, channel⟩ := t
  cases phase <;>
    first
    | exact ⟨hne, rfl, RequestPhase.noConfusion⟩
    | exact absurd hwaiting Bool.false_ne_true

end RequestTask

namespace Inflight

variable {s s' : Inflight} {a : InflightStep}

/-! ## What the operations do -/

lemma lookup_take (s : Inflight) (key k : UInt16 × SocketAddr) (channel : Channel) :
    (s.take key channel).table.lookup k = if k = key then none else s.table.lookup k := by
  rw [take]
  split
  · by_cases hk : k = key
    · rw [if_pos hk, hk]
      exact AList.lookup_erase _ _
    · rw [if_neg hk]
      exact AList.lookup_erase_ne hk
  · next hnone =>
    by_cases hk : k = key
    · rw [if_pos hk, hk, hnone]
    · rw [if_neg hk]

lemma getElem?_take (s : Inflight) (key : UInt16 × SocketAddr) (channel : Channel) (i : ℕ) :
    (s.take key channel).tasks[i]? = (s.tasks[i]?).map fun t =>
      if s.table.lookup key = some i then t.withChannel channel else t := by
  rw [take]
  split
  · next j hj =>
    rw [hj, getElem?_modify]
    simp only [Option.some.injEq]
    rfl
  · next hnone => simp [hnone]

lemma getElem?_setPhase (s : Inflight) (i j : ℕ) (phase : RequestPhase) :
    (s.setPhase i phase).tasks[j]? = (s.tasks[j]?).map fun t =>
      if i = j then t.withPhase phase else t :=
  getElem?_modify ..

lemma take_queue (s : Inflight) (queue : List WorkerSendRequest) (key : UInt16 × SocketAddr)
    (channel : Channel) :
    take { s with queue } key channel = { s.take key channel with queue } := by
  rw [take, take]
  dsimp only
  split <;> rfl

/-- **How a request goes on** without touching the table. -/
inductive Move (t : RequestTask) (i : ℕ) : InflightStep → RequestPhase → Prop
  | sent (hphase : t.phase = .inserted) : Move t i (.send i false) .waiting
  | dead (hphase : t.phase = .inserted) : Move t i (.send i true) (.removing .dhtDead)
  | answered {r} (hphase : t.phase = .waiting)
      (hchannel : t.channel = .sent r) : Move t i (.poll i) (.returned r)
  | closed (hphase : t.phase = .waiting) (hchannel : t.channel = .closed) :
      Move t i (.poll i) (.removing .dhtDead)
  | timeout (hphase : t.phase = .waiting) (hchannel : t.channel = .empty) :
      Move t i (.timeout i) (.removing .responseTimeout)
  | cancel (hphase : t.phase = .waiting) : Move t i (.cancel i) .cancelled

/-- What a step does. -/
inductive Effect (s : Inflight) : InflightStep → Inflight → Prop
  | request {request addr} :
      Effect s (.request request addr) (s.pushTask { tid := s.nextTransactionId, request, addr })
  | announce {infoHash token port addr dead queue} :
      Effect s (.announce infoHash token port addr dead)
        { s.pushTask ⟨s.nextTransactionId, .announce infoHash token port, addr, .unawaited, .closed⟩
          with queue }
  | insert {i} {t} (htask : s.tasks[i]? = some t) (hphase : t.phase = .created) :
      Effect s (.insert i) ((s.enter t.key i).setPhase i .inserted)
  | move {act} {i} {t phase queue} (htask : s.tasks[i]? = some t) (hmove : Move t i act phase) :
      Effect s act { s.setPhase i phase with queue }
  | remove {i} {t e} (htask : s.tasks[i]? = some t) (hphase : t.phase = .removing e) :
      Effect s (.remove i) ((s.take t.key .closed).setPhase i (.returned (.error e)))
  | write {failed queue} : Effect s (.writer failed) { s with queue }
  | sendError {tid addr queue} :
      Effect s (.writer true) { s.take (tid, addr) (.sent (.error .send)) with queue }
  | ignore {msg addr} : Effect s (.onReceivedMessage msg addr) { s with packets := s.packets + 1 }
  | respond {msg tid addr answer i} (hlookup : s.table.lookup (tid, addr) = some i) :
      Effect s (.onReceivedMessage msg addr)
        { s.take (tid, addr) (.sent (.ok answer)) with
          delivered := ⟨s.packets, tid, addr, answer, i⟩ :: s.delivered
          packets := s.packets + 1 }

lemma effect_of_respond (s : Inflight) (msg : Message) (tid : UInt16) (addr : SocketAddr)
    (answer : ResponseOrError) :
    Effect s (.onReceivedMessage msg addr)
      { s.respond tid addr answer with packets := s.packets + 1 } := by
  rw [respond]
  split
  · next i hlookup => exact .respond hlookup
  · exact .ignore

lemma effect_of_step (h : s.step a = some s') : Effect s a s' := by
  cases a with
  | request request addr =>
    cases h
    exact .request
  | announce infoHash token port addr dead =>
    cases h
    cases dead <;> exact .announce
  | insert i =>
    obtain ⟨t, htask, h⟩ := bind_eq_some_iff.mp h
    split at h
    · next hphase =>
      cases h
      exact .insert htask hphase
    · cases h
  | send i dead =>
    obtain ⟨t, htask, h⟩ := bind_eq_some_iff.mp h
    split at h
    · next hphase =>
      cases dead with
      | true =>
        cases h
        exact .move htask (.dead hphase)
      | false =>
        cases h
        exact .move htask (.sent hphase)
    · cases h
  | poll i =>
    obtain ⟨t, htask, h⟩ := bind_eq_some_iff.mp h
    split at h
    · next hphase hchannel =>
      cases h
      exact .move htask (.answered hphase hchannel)
    · next hphase hchannel =>
      cases h
      exact .move htask (.closed hphase hchannel)
    · cases h
  | timeout i =>
    obtain ⟨t, htask, h⟩ := bind_eq_some_iff.mp h
    split at h
    · next hphase hchannel =>
      cases h
      exact .move htask (.timeout hphase hchannel)
    · cases h
  | remove i =>
    obtain ⟨t, htask, h⟩ := bind_eq_some_iff.mp h
    split at h
    · next hphase =>
      cases h
      exact .remove htask hphase
    · cases h
  | cancel i =>
    obtain ⟨t, htask, h⟩ := bind_eq_some_iff.mp h
    split at h
    · next hphase =>
      cases h
      exact .move htask (.cancel hphase)
    · cases h
  | writer failed =>
    rw [step] at h
    split at h
    · cases h
    split at h
    · cases h
      rw [onSendError, take_queue]
      exact .sendError
    · cases h
      exact .write
  | onReceivedMessage msg addr =>
    cases h
    dsimp only [onReceivedMessage]
    split
    · exact effect_of_respond s msg _ addr _
    · exact effect_of_respond s msg _ addr _
    · exact .ignore

/-! ## Entries and requests -/

/-- **An entry is there for every request that has made one and whose channel is empty**, and for no
other. -/
def Tracked (s : Inflight) : Prop :=
  ∀ k i, s.table.lookup k = some i ↔ ∃ t, s.tasks[i]? = some t ∧ t.key = k ∧ t.isHeld = true

variable {channel : Channel}

lemma Tracked.take (h : Tracked s) (key : UInt16 × SocketAddr)
    (hchannel : ∀ t : RequestTask, (t.withChannel channel).isHeld = false) :
    Tracked (s.take key channel) := by
  intro k i
  rw [lookup_take, getElem?_take]
  by_cases hi : s.table.lookup key = some i
  · obtain ⟨t, htask, hkey, -⟩ := (h key i).mp hi
    simp only [hi, htask, if_true, map_some, Option.some.injEq, exists_eq_left', hchannel]
    by_cases hk : k = key
    · simp [hk]
    rw [if_neg hk]
    refine iff_of_false (fun hlookup => ?_) (fun h => Bool.false_ne_true h.2)
    obtain ⟨t', htask', hkey', -⟩ := (h k i).mp hlookup
    cases htask.symm.trans htask'
    exact hk (hkey'.symm.trans hkey)
  · simp only [hi, if_false, Option.map_id']
    by_cases hk : k = key
    · rw [if_pos hk]
      refine iff_of_false nofun ?_
      rintro ⟨t, htask, hkey, hheld⟩
      exact hi ((h key i).mpr ⟨t, htask, hkey.trans hk, hheld⟩)
    · rw [if_neg hk]
      exact h k i

variable {i : ℕ}

/-- Where a request goes on without touching the table. -/
lemma Tracked.setPhase (h : Tracked s) {t phase}
    (htask : s.tasks[i]? = some t) (hheld : (t.withPhase phase).isHeld = t.isHeld) :
    Tracked (s.setPhase i phase) := by
  intro k j
  rw [getElem?_setPhase]
  refine (h k j).trans ?_
  by_cases hij : i = j
  · subst hij
    simp only [htask, if_true, map_some, Option.some.injEq, exists_eq_left', hheld]
    rfl
  · simp only [hij, if_false, Option.map_id']

lemma Tracked.pushTask (h : Tracked s) {t} (hheld : t.isHeld = false) :
    Tracked (s.pushTask t) := by
  intro k i
  refine (h k i).trans ?_
  rcases lt_or_ge i s.tasks.length with hi | hi
  · rw [Inflight.pushTask, getElem?_append_left hi]
  have hnone : s.tasks[i]? = none := getElem?_eq_none hi
  simp only [hnone, Inflight.pushTask, getElem?_append_right hi]
  refine iff_of_false (fun ⟨t', htask, _⟩ => by cases htask) ?_
  rintro ⟨t', htask, -, hheld'⟩
  cases mem_singleton.mp (mem_of_getElem? htask)
  exact Bool.false_ne_true (hheld.symm.trans hheld')

variable {key : UInt16 × SocketAddr}

lemma take_of_lookup_eq_none (hnone : s.table.lookup key = none)
    (channel : Channel) : s.take key channel = s := by
  rw [take, hnone]

/-- An entry is made where there is none. -/
lemma Tracked.insert (h : Tracked s) {t} (htask : s.tasks[i]? = some t)
    (hnone : s.table.lookup t.key = none) (hnew : t.isHeld = false)
    (hheld : (t.withPhase .inserted).isHeld) :
    Tracked ((s.enter t.key i).setPhase i .inserted) := by
  intro k j
  rw [getElem?_setPhase, enter, take_of_lookup_eq_none hnone]
  show (s.table.insert t.key i).lookup k = some j ↔ _
  by_cases hij : i = j
  · subst hij
    simp only [htask, if_true, map_some, Option.some.injEq, exists_eq_left', hheld, and_true]
    by_cases hk : k = t.key
    · rw [hk, AList.lookup_insert]
      exact iff_of_true rfl rfl
    rw [AList.lookup_insert_ne hk]
    refine iff_of_false (fun hlookup => ?_) (Ne.symm hk)
    obtain ⟨t', htask', -, hheld'⟩ := (h k i).mp hlookup
    cases htask.symm.trans htask'
    exact Bool.false_ne_true (hnew.symm.trans hheld')
  · simp only [hij, if_false, Option.map_id', ← h k j]
    by_cases hk : k = t.key
    · rw [hk, AList.lookup_insert, hnone]
      exact iff_of_false (fun heq => hij (Option.some.inj heq)) nofun
    · rw [AList.lookup_insert_ne hk]

/-! ## Requests that are not over -/

/-- **Requests, their entries and their ids.** -/
structure Owned (s : Inflight) : Prop where
  tracked : Tracked s
  fits : ∀ (i : ℕ) (t : RequestTask), s.tasks[i]? = some t → t.Fits
  tid_eq : ∀ (i : ℕ) (t : RequestTask), s.tasks[i]? = some t → t.tid = UInt16.ofNat i
  next_eq : s.nextTransactionId = UInt16.ofNat s.tasks.length
  recent : ∀ (i : ℕ) (t : RequestTask), s.tasks[i]? = some t → t.isOver = false →
    s.tasks.length ≤ i + 65536

/-- **The table holds exactly the requests that still have a waiting caller.** -/
def Exact (s : Inflight) : Prop :=
  ∀ k i, s.table.lookup k = some i ↔ ∃ t, s.tasks[i]? = some t ∧ t.key = k ∧ t.isWaiting = true

/-- Ids are not used again too early. -/
lemma Owned.eq_of_tid_eq (ho : Owned s) {i j : ℕ} {t t' : RequestTask}
    (hi : s.tasks[i]? = some t) (hj : s.tasks[j]? = some t') (hlive : t.isOver = false)
    (hlive' : t'.isOver = false) (htid : t.tid = t'.tid) : i = j := by
  have hlen := ho.recent i t hi hlive
  have hlen' := ho.recent j t' hj hlive'
  have hilt : i < s.tasks.length := (List.getElem?_eq_some_iff.mp hi).1
  have hjlt : j < s.tasks.length := (List.getElem?_eq_some_iff.mp hj).1
  have hmod : i % 65536 = j % 65536 := by
    have hnat := congrArg UInt16.toNat htid
    rwa [ho.tid_eq i t hi, ho.tid_eq j t' hj, UInt16.toNat_ofNat', UInt16.toNat_ofNat'] at hnat
  omega

/-- Under the id and address of a request that is not over, there is no entry but its own. -/
lemma Owned.eq_of_lookup (ho : Owned s) (he : Exact s) {i j t}
    (htask : s.tasks[i]? = some t) (hlive : t.isOver = false)
    (hlookup : s.table.lookup t.key = some j) : j = i := by
  obtain ⟨t', htask', hkey, hwaiting⟩ := (he _ _).mp hlookup
  have hlive' := (isHeld_of_isWaiting (ho.fits j t' htask') hwaiting).2
  exact ho.eq_of_tid_eq htask' htask hlive' hlive (congrArg Prod.fst hkey)

/-- Fewer than 65536 requests are created before one is over. -/
def fresh (s : Inflight) : InflightStep → Bool
  | .request _ _ | .announce _ _ _ _ _ =>
    s.tasks.zipIdx.all fun (t, i) => t.isOver || s.tasks.length < i + 65536
  | _ => true

/-- A caller is dropped only after the entry of its request was taken out of the table. -/
def answered (s : Inflight) : InflightStep → Bool
  | .cancel i => (s.tasks[i]?).all fun t => !t.isHeld
  | _ => true

/-- **What a step changes**, out of a state where the table is exact: nothing, one more request, or
how far a request is and what is in its channel. -/
inductive Change (s : Inflight) (act : InflightStep) (s' : Inflight) : Prop
  | keep (htable : s'.table = s.table) (htasks : s'.tasks = s.tasks)
      (hnext : s'.nextTransactionId = s.nextTransactionId)
      (hdelivered : s'.delivered = s.delivered) (hpackets : s.packets ≤ s'.packets)
      (hanswered : s.answered act = true)
  | push {t} (htable : s'.table = s.table) (htasks : s'.tasks = s.tasks ++ [t])
      (hnext : s'.nextTransactionId = s.nextTransactionId + 1)
      (hdelivered : s'.delivered = s.delivered) (hpackets : s.packets ≤ s'.packets)
      (hheld : t.isHeld = false) (hfits : t.Fits) (htid : t.tid = s.nextTransactionId)
      (hsent : ∀ r, t.channel ≠ .sent r)
      (hfresh : s.fresh act = true → ∀ (i : ℕ) (t : RequestTask), s.tasks[i]? = some t →
        t.isOver = false → s.tasks.length < i + 65536)
      (hanswered : s.answered act = true)
  | set {i : ℕ} {t t'} (htask : s.tasks[i]? = some t) (htracked : Tracked s')
      (htasks : s'.tasks = s.tasks.set i t') (hnext : s'.nextTransactionId = s.nextTransactionId)
      (hdelivered : s'.delivered = s.delivered) (hpackets : s.packets ≤ s'.packets)
      (hfits : t'.Fits) (hkey : t'.key = t.key) (hover : t'.isOver = false → t.isOver = false)
      (hsent : ∀ r, t'.channel = .sent (.ok r) ↔ t.channel = .sent (.ok r))
      (hanswered : (t'.phase = .cancelled → t'.isHeld = false) ↔ s.answered act = true)
  | respond {i : ℕ} {t answer} (htask : s.tasks[i]? = some t) (htracked : Tracked s')
      (htasks : s'.tasks = s.tasks.set i (t.withChannel (.sent (.ok answer))))
      (hnext : s'.nextTransactionId = s.nextTransactionId)
      (hdelivered : s'.delivered = ⟨s.packets, t.tid, t.addr, answer, i⟩ :: s.delivered)
      (hpackets : s'.packets = s.packets + 1) (hheld : t.isHeld = true)
      (hfits : (t.withChannel (.sent (.ok answer))).Fits) (hanswered : s.answered act = true)

lemma fresh_of_all (h : (s.tasks.zipIdx.all fun (t, i) =>
      t.isOver || s.tasks.length < i + 65536) = true) (i : ℕ) (t : RequestTask)
    (htask : s.tasks[i]? = some t) (hlive : t.isOver = false) : s.tasks.length < i + 65536 := by
  have hmem := all_eq_true.mp h (t, i) (mem_zipIdx_iff_getElem?.mpr htask)
  simpa [hlive] using hmem

/-- What is taken out of the table is of a request that waits. -/
lemma Owned.of_lookup (ho : Owned s) (he : Exact s) (hlookup : s.table.lookup key = some i) :
    ∃ t, s.tasks[i]? = some t ∧ t.key = key ∧ t.isHeld ∧ t.isWaiting := by
  obtain ⟨t, htask, hkey, hwaiting⟩ := (he _ _).mp hlookup
  have hheld := (isHeld_of_isWaiting (ho.fits i t htask) hwaiting).1
  exact ⟨t, htask, hkey, hheld, hwaiting⟩

lemma tasks_take {t}
    (hlookup : s.table.lookup key = some i) (htask : s.tasks[i]? = some t) (channel : Channel) :
    (s.take key channel).tasks = s.tasks.set i (t.withChannel channel) := by
  rw [take, hlookup]
  exact modify_eq_set htask _

lemma take_rest (s : Inflight) (key : UInt16 × SocketAddr) (channel : Channel) :
    (s.take key channel).nextTransactionId = s.nextTransactionId ∧
      (s.take key channel).delivered = s.delivered ∧ (s.take key channel).packets = s.packets := by
  rw [take]
  split <;> exact ⟨rfl, rfl, rfl⟩

lemma isHeld_withChannel (hne : channel ≠ .empty) (t : RequestTask) :
    (t.withChannel channel).isHeld = false := by
  by_contra h
  exact hne (channel_of_isHeld (Bool.not_eq_false _ ▸ h))

section

variable (ho : Owned s)
include ho

variable {queue : List WorkerSendRequest} {phase : RequestPhase} {t : RequestTask}

/-- Where a request that is not over goes on without touching the table. -/
lemma Owned.change_setPhase {i} (htask : s.tasks[i]? = some t)
    (hheld : (t.withPhase phase).isHeld = t.isHeld) (hfits : (t.withPhase phase).Fits)
    (hlive : t.isOver = false)
    (hanswered : (phase = .cancelled → (t.withPhase phase).isHeld = false) ↔ s.answered a) :
    Change s a { s.setPhase i phase with queue } :=
  .set htask (ho.tracked.setPhase htask hheld) (modify_eq_set htask _) rfl rfl le_rfl hfits rfl
    (fun _ => hlive) (fun _ => .rfl) hanswered

lemma change_of_move {i} (htask : s.tasks[i]? = some t) (hmove : Move t i a phase) :
    Change s a { s.setPhase i phase with queue } := by
  have hfits := ho.fits i t htask
  obtain ⟨tid, request, addr, phase', channel⟩ := t
  cases hmove with
  | sent hphase | dead hphase | timeout hphase =>
    cases hphase
    exact ho.change_setPhase htask rfl hfits rfl (iff_of_true RequestPhase.noConfusion rfl)
  | answered hphase hchannel =>
    cases hphase
    cases hchannel
    refine ho.change_setPhase htask rfl ⟨Channel.noConfusion, ?_⟩ rfl
      (iff_of_true RequestPhase.noConfusion rfl)
    rintro answer rfl
    rfl
  | closed hphase hchannel =>
    cases hphase
    exact absurd hchannel hfits
  | cancel hphase =>
    cases hphase
    refine ho.change_setPhase htask rfl trivial rfl ?_
    simp only [answered, htask, all_some, Bool.not_eq_true', true_implies]
    rfl

lemma change_of_step (he : Exact s) (h : s.step a = some s') : Change s a s' := by
  cases effect_of_step h with
  | request | announce =>
    exact .push rfl rfl rfl rfl le_rfl rfl rfl rfl (fun _ => Channel.noConfusion) fresh_of_all rfl
  | @insert i t htask hphase =>
    obtain ⟨tid, request, addr, phase, channel⟩ := t
    cases hphase
    obtain rfl : channel = .empty := ho.fits i _ htask
    have hnone : s.table.lookup (tid, addr) = none := by
      rw [eq_none_iff_forall_ne_some]
      intro j hlookup
      obtain rfl := ho.eq_of_lookup he htask rfl hlookup
      obtain ⟨t, htask', -, hheld, -⟩ := ho.of_lookup he hlookup
      cases htask.symm.trans htask'
      cases hheld
    have htracked := ho.tracked.insert htask hnone rfl rfl
    rw [enter, key, take_of_lookup_eq_none hnone] at htracked ⊢
    exact .set htask htracked (modify_eq_set htask _) rfl rfl le_rfl Channel.noConfusion rfl
      (fun _ => rfl) (fun _ => .rfl) (iff_of_true RequestPhase.noConfusion rfl)
  | move htask hmove => exact change_of_move ho htask hmove
  | @remove i t e htask hphase =>
    obtain ⟨tid, request, addr, phase, channel⟩ := t
    cases hphase
    cases hlookup : s.table.lookup (tid, addr) with
    | none =>
      rw [key, take_of_lookup_eq_none hlookup]
      have hne : channel ≠ .empty := by
        rintro rfl
        have hsome := (ho.tracked (tid, addr) i).mpr ⟨_, htask, rfl, rfl⟩
        cases hlookup.symm.trans hsome
      exact ho.change_setPhase htask rfl ⟨hne, nofun⟩ rfl (iff_of_true RequestPhase.noConfusion rfl)
    | some j =>
      obtain rfl := ho.eq_of_lookup he htask rfl hlookup
      obtain ⟨t, htask', -, hheld, -⟩ := ho.of_lookup he hlookup
      cases htask.symm.trans htask'
      obtain rfl : channel = .empty := channel_of_isHeld hheld
      have htasks := tasks_take hlookup htask .closed
      have hclosed : (s.take (tid, addr) .closed).tasks[j]? =
          some ⟨tid, request, addr, .removing e, .closed⟩ := by
        rw [htasks, getElem?_set_of_some htask]
        rfl
      have htasks' : ((s.take (tid, addr) .closed).setPhase j (.returned (.error e))).tasks =
          s.tasks.set j ⟨tid, request, addr, .returned (.error e), .closed⟩ :=
        (modify_eq_set hclosed _).trans (htasks ▸ set_set _)
      obtain ⟨hnext, hdelivered, hpackets⟩ := take_rest s (tid, addr) .closed
      exact .set htask
        ((ho.tracked.take _ (isHeld_withChannel Channel.noConfusion)).setPhase hclosed rfl)
        htasks' hnext hdelivered hpackets.ge ⟨Channel.noConfusion, nofun⟩ rfl (fun _ => rfl)
        (fun r => iff_of_false nofun nofun) (iff_of_true RequestPhase.noConfusion rfl)
  | write => exact .keep rfl rfl rfl rfl le_rfl rfl
  | @sendError tid addr queue =>
    obtain ⟨hnext, hdelivered, hpackets⟩ := take_rest s (tid, addr) (.sent (.error .send))
    cases hlookup : s.table.lookup (tid, addr) with
    | none =>
      rw [take_of_lookup_eq_none hlookup]
      exact .keep rfl rfl rfl rfl le_rfl rfl
    | some i =>
      obtain ⟨t, htask, -, hheld, hwaiting⟩ := ho.of_lookup he hlookup
      obtain ⟨hfits, hlive, hphase⟩ := fits_sent (.error .send) hwaiting
      refine .set htask (ho.tracked.take _ (isHeld_withChannel Channel.noConfusion))
        (tasks_take hlookup htask _) hnext hdelivered hpackets.ge hfits rfl (fun _ => hlive)
        (fun r => ?_) (iff_of_true (fun hcancelled => absurd hcancelled hphase) rfl)
      rw [channel_of_isHeld hheld]
      exact iff_of_false nofun nofun
  | ignore => exact .keep rfl rfl rfl rfl (Nat.le_succ _) rfl
  | @respond msg tid addr answer i hlookup =>
    obtain ⟨hnext, hdelivered, hpackets⟩ := take_rest s (tid, addr) (.sent (.ok answer))
    obtain ⟨t, htask, hkey, hheld, hwaiting⟩ := ho.of_lookup he hlookup
    obtain ⟨hfits, -, -⟩ := fits_sent (.ok answer) hwaiting
    cases hkey
    exact .respond htask (ho.tracked.take _ (isHeld_withChannel Channel.noConfusion))
      (tasks_take hlookup htask _) hnext rfl rfl hheld hfits rfl

/-! ## What the steps keep -/

lemma Owned.of_set {i t'} (htask : s.tasks[i]? = some t)
    (htracked : Tracked s') (htasks : s'.tasks = s.tasks.set i t')
    (hnext : s'.nextTransactionId = s.nextTransactionId) (hfits : t'.Fits) (hkey : t'.key = t.key)
    (hover : t'.isOver = false → t.isOver = false) : Owned s' := by
  have hlength : s'.tasks.length = s.tasks.length := by rw [htasks, length_set]
  refine ⟨htracked, fun j t'' hj => ?_, fun j t'' hj => ?_, ?_, fun j t'' hj hlive => ?_⟩
  · rcases getElem?_set_cases (htasks ▸ hj) with hj | ⟨-, rfl⟩
    · exact ho.fits j t'' hj
    · exact hfits
  · rcases getElem?_set_cases (htasks ▸ hj) with hj | ⟨rfl, rfl⟩
    · exact ho.tid_eq j t'' hj
    · exact (congrArg Prod.fst hkey).trans (ho.tid_eq j t htask)
  · rw [hnext, hlength]
    exact ho.next_eq
  · rw [hlength]
    rcases getElem?_set_cases (htasks ▸ hj) with hj | ⟨rfl, rfl⟩
    · exact ho.recent j t'' hj hlive
    · exact ho.recent j t htask (hover hlive)

lemma Owned.change (hfresh : s.fresh a) (h : Change s a s') : Owned s' := by
  cases h with
  | keep htable htasks hnext _ _ _ =>
    constructor
    · rw [Tracked, htable, htasks]
      exact ho.tracked
    all_goals rw [htasks]
    · exact ho.fits
    · exact ho.tid_eq
    · exact hnext.trans ho.next_eq
    · exact ho.recent
  | @push t htable htasks hnext _ _ hheld hfits htid _ hrecent _ =>
    have hlength : s'.tasks.length = s.tasks.length + 1 := by rw [htasks, length_append]; rfl
    refine ⟨?_, fun j t' hj => ?_, fun j t' hj => ?_, ?_, fun j t' hj hlive => ?_⟩
    · rw [Tracked, htable, htasks]
      exact ho.tracked.pushTask hheld
    · rcases getElem?_concat_cases (htasks ▸ hj) with hj | ⟨-, rfl⟩
      · exact ho.fits j t' hj
      · exact hfits
    · rcases getElem?_concat_cases (htasks ▸ hj) with hj | ⟨rfl, rfl⟩
      · exact ho.tid_eq j t' hj
      · exact htid.trans ho.next_eq
    · rw [hnext, hlength, ho.next_eq, UInt16.ofNat_add]
      rfl
    · rw [hlength]
      rcases getElem?_concat_cases (htasks ▸ hj) with hj | ⟨rfl, -⟩
      · exact hrecent hfresh j t' hj hlive
      · omega
  | set htask htracked htasks hnext _ _ hfits hkey hover _ _ =>
    exact ho.of_set htask htracked htasks hnext hfits hkey hover
  | respond htask htracked htasks hnext _ _ _ hfits _ =>
    exact ho.of_set htask htracked htasks hnext hfits rfl fun hlive => hlive

/-- The table is exact where the entry of no caller that was dropped is left. -/
lemma Owned.exact_iff :
    Exact s ↔ ∀ (i : ℕ) (t : RequestTask), s.tasks[i]? = some t → t.phase = .cancelled →
      t.isHeld = false := by
  constructor
  · intro he i t htask hphase
    by_contra hheld
    obtain ⟨t', htask', -, hwaiting⟩ := (he _ _).mp
      ((ho.tracked t.key i).mpr ⟨t, htask, rfl, Bool.not_eq_false _ ▸ hheld⟩)
    cases htask.symm.trans htask'
    rw [isWaiting, hphase] at hwaiting
    cases hwaiting
  · intro hcancelled k i
    refine (ho.tracked k i).trans (exists_congr fun t => and_congr_right fun htask =>
      and_congr_right fun _ => ⟨fun hheld => ?_, fun hwaiting => ?_⟩)
    · rcases isWaiting_of_isHeld (ho.fits i t htask) hheld with hwaiting | hphase
      · exact hwaiting
      · cases hheld.symm.trans (hcancelled i t htask hphase)
    · exact (isHeld_of_isWaiting (ho.fits i t htask) hwaiting).1

/-- **A step out of a state where the table is exact leads to one exactly if it does not drop a
caller whose entry is in the table.** -/
theorem exact_change_iff (he : Exact s) (hfresh : s.fresh a) (h : Change s a s') :
    Exact s' ↔ s.answered a := by
  rw [(ho.change hfresh h).exact_iff]
  have hold := ho.exact_iff.mp he
  cases h with
  | keep _ htasks _ _ _ hanswered =>
    rw [htasks]
    exact iff_of_true hold hanswered
  | push _ htasks _ _ _ hheld _ _ _ _ hanswered =>
    refine iff_of_true (fun j t' hj hphase => ?_) hanswered
    rcases getElem?_concat_cases (htasks ▸ hj) with hj | ⟨-, rfl⟩
    · exact hold j t' hj hphase
    · exact hheld
  | @set i t t' htask _ htasks _ _ _ _ _ _ _ hanswered =>
    rw [← hanswered]
    constructor
    · refine fun hnew => hnew i t' ?_
      rw [htasks, getElem?_set_of_some htask]
    intro hnew j t'' hj hphase
    rcases getElem?_set_cases (htasks ▸ hj) with hj | ⟨-, rfl⟩
    · exact hold j t'' hj hphase
    · exact hnew hphase
  | respond htask _ htasks _ _ _ _ _ hanswered =>
    refine iff_of_true (fun j t' hj hphase => ?_) hanswered
    rcases getElem?_set_cases (htasks ▸ hj) with hj | ⟨-, rfl⟩
    · exact hold j t' hj hphase
    · exact isHeld_withChannel Channel.noConfusion _

end

/-- **A response is delivered only to a request with its transaction id that was sent to its
address**, no packet is delivered twice, and no request gets two responses; what a request returns
is what was delivered to it. -/
structure Delivered (s : Inflight) : Prop where
  packet_lt : ∀ d ∈ s.delivered, d.packet < s.packets
  packets_nodup : (s.delivered.map Delivery.packet).Nodup
  requests_nodup : (s.delivered.map Delivery.request).Nodup
  request_of : ∀ d ∈ s.delivered, ∃ t, s.tasks[d.request]? = some t ∧ t.key = (d.tid, d.addr) ∧
    t.channel = .sent (.ok d.answer)
  answer_of : ∀ (i : ℕ) (t : RequestTask) (answer : ResponseOrError), s.tasks[i]? = some t →
    t.channel = .sent (.ok answer) → ∃ d ∈ s.delivered, d.request = i ∧ d.answer = answer

/-- Nothing is delivered, and no channel in which there is a response changes. -/
lemma Delivered.of_eq (hd : Delivered s) (hdelivered : s'.delivered = s.delivered)
    (hpackets : s.packets ≤ s'.packets)
    (hold : ∀ (i : ℕ) (t : RequestTask) (answer : ResponseOrError), s.tasks[i]? = some t →
      t.channel = .sent (.ok answer) →
      ∃ t', s'.tasks[i]? = some t' ∧ t'.key = t.key ∧ t'.channel = .sent (.ok answer))
    (hnew : ∀ (i : ℕ) (t' : RequestTask) (answer : ResponseOrError), s'.tasks[i]? = some t' →
      t'.channel = .sent (.ok answer) →
      ∃ t, s.tasks[i]? = some t ∧ t.channel = .sent (.ok answer)) : Delivered s' := by
  constructor <;> rw [hdelivered]
  · exact fun d hmem => (hd.packet_lt d hmem).trans_le hpackets
  · exact hd.packets_nodup
  · exact hd.requests_nodup
  · intro d hmem
    obtain ⟨t, htask, hkey, hchannel⟩ := hd.request_of d hmem
    obtain ⟨t', htask', hkey', hchannel'⟩ := hold d.request t d.answer htask hchannel
    exact ⟨t', htask', hkey'.trans hkey, hchannel'⟩
  · intro i t' answer htask' hchannel'
    obtain ⟨t, htask, hchannel⟩ := hnew i t' answer htask' hchannel'
    exact hd.answer_of i t answer htask hchannel

/-- A response is sent into a channel that was empty. -/
lemma Delivered.respond (hd : Delivered s) {t answer}
    (htask : s.tasks[i]? = some t) (hchannel : t.channel = .empty)
    (htasks : s'.tasks = s.tasks.set i (t.withChannel (.sent (.ok answer))))
    (hdelivered : s'.delivered = ⟨s.packets, t.tid, t.addr, answer, i⟩ :: s.delivered)
    (hpackets : s'.packets = s.packets + 1) : Delivered s' := by
  have hne : ∀ d ∈ s.delivered, i ≠ d.request := by
    rintro d hmem rfl
    obtain ⟨t', htask', -, hchannel'⟩ := hd.request_of d hmem
    cases htask.symm.trans htask'
    cases hchannel.symm.trans hchannel'
  refine ⟨?_, ?_, ?_, ?_, ?_⟩
  · rw [hdelivered, hpackets]
    intro d hmem
    rcases mem_cons.mp hmem with rfl | hmem
    · exact Nat.lt_succ_self _
    · exact (hd.packet_lt d hmem).trans (Nat.lt_succ_self _)
  · rw [hdelivered, map_cons, nodup_cons]
    refine ⟨fun hmem => ?_, hd.packets_nodup⟩
    obtain ⟨d, hmem, heq⟩ := mem_map.mp hmem
    exact (hd.packet_lt d hmem).ne heq
  · rw [hdelivered, map_cons, nodup_cons]
    refine ⟨fun hmem => ?_, hd.requests_nodup⟩
    obtain ⟨d, hmem, heq⟩ := mem_map.mp hmem
    exact hne d hmem heq.symm
  · rw [hdelivered, htasks]
    intro d hmem
    rcases mem_cons.mp hmem with rfl | hmem
    · exact ⟨_, getElem?_set_of_some htask _, rfl, rfl⟩
    · rw [getElem?_set_ne (hne d hmem)]
      exact hd.request_of d hmem
  · rw [hdelivered]
    intro j t' answer' hj hchannel'
    rcases getElem?_set_cases (htasks ▸ hj) with hj | ⟨rfl, rfl⟩
    · obtain ⟨d, hmem, hrest⟩ := hd.answer_of j t' answer' hj hchannel'
      exact ⟨d, mem_cons_of_mem _ hmem, hrest⟩
    · cases hchannel'
      exact ⟨_, mem_cons_self, rfl, rfl⟩

lemma Delivered.change (hd : Delivered s) (h : Change s a s') : Delivered s' := by
  cases h with
  | keep _ htasks _ hdelivered hpackets _ =>
    refine hd.of_eq hdelivered hpackets (fun i t answer htask hchannel => ?_)
      fun i t answer htask hchannel => ?_
    · exact ⟨t, htasks ▸ htask, rfl, hchannel⟩
    · exact ⟨t, htasks ▸ htask, hchannel⟩
  | push _ htasks _ hdelivered hpackets _ _ _ hsent _ _ =>
    refine hd.of_eq hdelivered hpackets (fun i t answer htask hchannel => ?_)
      fun i t answer htask hchannel => ?_
    · refine ⟨t, ?_, rfl, hchannel⟩
      rw [htasks, getElem?_concat_of_some htask]
    · rcases getElem?_concat_cases (htasks ▸ htask) with htask | ⟨-, rfl⟩
      · exact ⟨t, htask, hchannel⟩
      · exact absurd hchannel (hsent _)
  | @set i t t' hi _ htasks _ hdelivered hpackets _ hkey _ hsent _ =>
    refine hd.of_eq hdelivered hpackets (fun j t'' answer htask hchannel => ?_)
      fun j t'' answer htask hchannel => ?_
    · rw [htasks]
      by_cases hij : i = j
      · subst hij
        cases hi.symm.trans htask
        exact ⟨t', getElem?_set_of_some hi _, hkey, (hsent answer).mpr hchannel⟩
      · exact ⟨t'', (getElem?_set_ne hij).trans htask, rfl, hchannel⟩
    · rcases getElem?_set_cases (htasks ▸ htask) with htask | ⟨rfl, rfl⟩
      · exact ⟨t'', htask, hchannel⟩
      · exact ⟨t, hi, (hsent answer).mp hchannel⟩
  | respond htask _ htasks _ hdelivered hpackets hheld _ _ =>
    exact hd.respond htask (channel_of_isHeld hheld) htasks hdelivered hpackets

/-! ## Runs -/

/-- **Responses, callers and the table are matched.** -/
structure Matched (s : Inflight) : Prop where
  delivered : Delivered s
  exact_table : Exact s
  returned : ∀ (i : ℕ) (t : RequestTask) (answer : ResponseOrError), s.tasks[i]? = some t →
    t.phase = .returned (.ok answer) → ∃ d ∈ s.delivered, d.request = i ∧ d.answer = answer

/-- **A request that has failed removes no entry but its own.** -/
def RemovesOwn (s : Inflight) (a : InflightStep) (s' : Inflight) : Prop :=
  ∀ i, a = .remove i → ∀ k j, s.table.lookup k = some j → j ≠ i → s'.table.lookup k = some j

lemma matched_of_exact (ho : Owned s) (hd : Delivered s) (he : Exact s) : Matched s := by
  refine ⟨hd, he, fun i t answer htask hphase => ?_⟩
  have hfits := ho.fits i t htask
  rw [RequestTask.Fits, hphase] at hfits
  exact hd.answer_of i t answer htask (hfits.2 answer rfl)

lemma removesOwn_step (ho : Owned s) (he : Exact s) (h : s.step a = some s') :
    RemovesOwn s a s' := by
  rintro i rfl k j hlookup hne
  cases effect_of_step h with
  | @remove _ t e htask hphase =>
    have hlive : t.isOver = false := by rw [isOver, hphase]
    show (s.take t.key .closed).table.lookup k = some j
    rw [lookup_take, if_neg, hlookup]
    rintro rfl
    exact hne (ho.eq_of_lookup he htask hlive hlookup)
  | move _ hmove => cases hmove

variable (id : Id20)

lemma owned_new : Owned (new id) where
  tracked _ _ := iff_of_false nofun fun ⟨_, htask, _⟩ => by cases htask
  fits _ _ htask := by cases htask
  tid_eq _ _ htask := by cases htask
  next_eq := rfl
  recent _ _ htask := by cases htask

lemma delivered_new : Delivered (new id) where
  packet_lt _ hmem := absurd hmem not_mem_nil
  packets_nodup := nodup_nil
  requests_nodup := nodup_nil
  request_of _ hmem := absurd hmem not_mem_nil
  answer_of _ _ _ htask := by cases htask

lemma exact_new : Exact (new id) := by
  rw [(owned_new id).exact_iff]
  intro i t htask
  cases htask

/-- Two nodes and what the first of them responds to our first request. -/
def someNode (i : UInt8) : SocketAddr := .v4 ⟨.new 127 0 0 i, 6881⟩

@[inherit_doc someNode]
def someResponse : Message where
  kind := .response { id := .ofNat 20 7 }
  transactionId := [0, 0]

/-- A request is made and handed to the writer. -/
def asks (i : ℕ) (addr : SocketAddr) : List InflightStep :=
  [.request .ping addr, .insert i, .send i false, .writer false]

/-- The first request is answered by the node it was sent to, the second times out. -/
def twoRequests : List InflightStep :=
  asks 0 (someNode 1) ++ asks 1 (someNode 2) ++
    [.onReceivedMessage someResponse (someNode 2), .onReceivedMessage someResponse (someNode 1),
      .onReceivedMessage someResponse (someNode 1), .poll 0, .timeout 1, .remove 1]

end Inflight

end Librtbit.Dht
