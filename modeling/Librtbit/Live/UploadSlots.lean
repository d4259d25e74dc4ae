import Librtbit.Machinery.Run
import Librtbit.Wire.Message

/-!
# Live/UploadSlots — writers wait for a slot to upload

A torrent uploads to four peers at a time.  The writer of a connection tells the peer that it is
choked, waits for one of four slots, tells the peer that it is unchoked, and keeps the slot until
the connection ends.  Only then does it look at what the other tasks have for it to send.

So a writer that waits for a slot to upload sends no request to download either: `blocked_iff` says
that what its channel holds stays there until another peer disconnects, and
`neverBlocked_iff_servesDownloads`, which steps bring that about.
-/

namespace Librtbit

open Machinery Wire List Option

variable {L : Lengths}

/-! ## Slots -/

/-- A fair semaphore: who finds no permit waits in a queue, and a permit that is given back goes to
the first of the queue at once. -/
structure Semaphore where
  permits : ℕ
  waiters : List ℕ := []
  deriving DecidableEq

namespace Semaphore

variable (s : Semaphore)

/-- A permit, or a place in the queue. -/
def acquire (id : ℕ) : Semaphore × Bool :=
  if s.permits = 0 then ({ s with waiters := s.waiters ++ [id] }, false)
  else ({ s with permits := s.permits - 1 }, true)

/-- A permit is given back, and who gets it. -/
def release : Semaphore × Option ℕ :=
  match s.waiters with
  | [] => ({ s with permits := s.permits + 1 }, none)
  | id :: waiters => ({ s with waiters }, some id)

/-- A place in the queue is given up. -/
def leave (id : ℕ) : Semaphore := { s with waiters := s.waiters.erase id }

end Semaphore

/-! ## Writers -/

inductive WriterRequest (L : Lengths) where
  | message (m : Message)
  | utMetadata (m : UtMetadata)
  | utPex (m : UtPex)
  | utHolepunch (m : HolepunchMessage)
  | readChunkRequest (chunk : ChunkInfo L)
  | disconnect (result : Except String Unit)

namespace WriterRequest

/-- What has nothing to do with uploading: what we download and whom we know. -/
def isDownload : WriterRequest L → Bool
  | message (.request _) | message (.cancel _) | message .interested => true
  | utPex _ | disconnect _ => true
  | _ => false

def isDisconnect : WriterRequest L → Bool
  | disconnect _ => true
  | _ => false

end WriterRequest

inductive WriterPhase where
  /-- The bitfield and `Choke` are being written. -/
  | choking
  /-- A slot is awaited. -/
  | waiting
  /-- There is a slot, and `Unchoke` is being written. -/
  | unchoking
  /-- The channel is read. -/
  | serving
  | closed
  deriving DecidableEq

structure Writer (L : Lengths) where
  phase : WriterPhase := .choking
  outgoingChan : List (WriterRequest L) := []
  /-- What was taken from the channel and sent. -/
  sent : List (WriterRequest L) := []

/-- A request to download that the writer does not get to, since it waits for a slot to upload. -/
def Writer.Holds (w : Writer L) (r : WriterRequest L) : Prop :=
  w.phase = .waiting ∧ r ∈ w.outgoingChan ∧ r.isDownload = true

/-! ## All connections of a torrent -/

structure Uploads (L : Lengths) where
  /-- `upload_slot_semaphore` -/
  semaphore : Semaphore := { permits := 4 }
  writers : List (Writer L) := []

inductive UploadStep (L : Lengths) where
  | connect
  /-- Another task puts something into the channel of a connection. -/
  | enqueue (id : ℕ) (r : WriterRequest L)
  /-- `Choke` is written, and the semaphore asked for a slot. -/
  | choked (id : ℕ)
  /-- `Unchoke` is written. -/
  | unchoked (id : ℕ)
  /-- The next message of the channel is sent. -/
  | send (id : ℕ)
  /-- The connection ends: the reader has, or the writer fails. -/
  | close (id : ℕ)

namespace Uploads

variable (s : Uploads L)

/-- A slot that is given back goes to the next writer. -/
def releaseSlot : Uploads L :=
  match s.semaphore.release with
  | (semaphore, none) => { s with semaphore }
  | (semaphore, some id) =>
    { semaphore, writers := s.writers.modify id fun w => { w with phase := .unchoking } }

/-- The writer is gone, and with it its slot or its place in the queue. -/
def close (id : ℕ) (w : Writer L) : Option (Uploads L) :=
  let closed := { s with writers := s.writers.set id { w with phase := .closed } }
  match w.phase with
  | .choking => some closed
  | .waiting => some { closed with semaphore := s.semaphore.leave id }
  | .unchoking | .serving => some closed.releaseSlot
  | .closed => none

def acquireSlot (id : ℕ) (w : Writer L) : Uploads L :=
  match s.semaphore.acquire id with
  | (semaphore, true) => { semaphore, writers := s.writers.set id { w with phase := .unchoking } }
  | (semaphore, false) => { semaphore, writers := s.writers.set id { w with phase := .waiting } }

def send (id : ℕ) (w : Writer L) : Option (Uploads L) :=
  match w.phase, w.outgoingChan with
  | .serving, r :: outgoingChan =>
    let w := { w with outgoingChan, sent := w.sent ++ [r] }
    if r.isDisconnect then s.close id w else some { s with writers := s.writers.set id w }
  | _, _ => none

def step : UploadStep L → Option (Uploads L)
  | .connect => some { s with writers := s.writers ++ [{}] }
  | .enqueue id r =>
    (s.writers[id]?).bind fun w =>
      match w.phase with
      | .closed => none
      | _ => some { s with
          writers := s.writers.set id { w with outgoingChan := w.outgoingChan ++ [r] } }
  | .choked id =>
    (s.writers[id]?).bind fun w =>
      match w.phase with
      | .choking => some (s.acquireSlot id w)
      | _ => none
  | .unchoked id =>
    (s.writers[id]?).bind fun w =>
      match w.phase with
      | .unchoking => some { s with writers := s.writers.set id { w with phase := .serving } }
      | _ => none
  | .send id => (s.writers[id]?).bind fun w => s.send id w
  | .close id => (s.writers[id]?).bind fun w => s.close id w

/-- The step ends no connection but `id`. -/
def NoOtherEnds (id : ℕ) : UploadStep L → Prop
  | .close id' => id' = id
  | .send id' => id' = id ∨ ∀ w ∈ s.writers[id']?, ∀ r ∈ w.outgoingChan.head?,
      r.isDisconnect = false
  | _ => True

/-- **A request to download is blocked by the upload limit**: the writer, which waits for a slot,
has it in its channel, and sends nothing more on any way there is for things to go on in which no
other connection ends. -/
def Blocked (id : ℕ) : Prop :=
  ∃ w, s.writers[id]? = some w ∧ (∃ r, w.Holds r) ∧
    ∀ as s', Along step (fun s => s.NoOtherEnds id) s as → run step s as = some s' →
      ∃ w', s'.writers[id]? = some w' ∧ w'.sent = w.sent

/-- What is to be sent for a download never comes to wait for a slot to upload. -/
def ServesDownloads : UploadStep L → Prop
  | .enqueue id r => r.isDownload = true → ∀ w ∈ s.writers[id]?, w.phase ≠ .waiting
  | .choked id => s.semaphore.permits = 0 → ∀ w ∈ s.writers[id]?, ∀ r ∈ w.outgoingChan,
      r.isDownload = false
  | _ => True

/-! ## A writer that waits goes on waiting -/

variable {s : Uploads L} {s' : Uploads L} {id : ℕ}

/-- The writer waits or is gone, and has sent no more than `sent`. -/
def Still (id : ℕ) (sent : List (WriterRequest L)) (s : Uploads L) : Prop :=
  ∃ w, s.writers[id]? = some w ∧ (w.phase = .waiting ∨ w.phase = .closed) ∧ w.sent = sent

lemma acquireSlot_writers (s : Uploads L) (id : ℕ) (w : Writer L) :
    (s.acquireSlot id w).writers = s.writers.set id
      { w with phase := if s.semaphore.permits = 0 then .waiting else .unchoking } := by
  rw [acquireSlot, Semaphore.acquire]
  by_cases h : s.semaphore.permits = 0
  · rw [if_pos h, if_pos h]
  · rw [if_neg h, if_neg h]

variable {sent : List (WriterRequest L)}

/-- Another writer changes. -/
lemma Still.set_ne (h : Still id sent s) {id'}
    (hne : id' ≠ id) {w} (hwriters : s'.writers = s.writers.set id' w) :
    Still id sent s' := by
  obtain ⟨v, hv, hrest⟩ := h
  exact ⟨v, by rw [hwriters, getElem?_set_ne hne, hv], hrest⟩

/-- **A step lemma**: no step but the end of another connection gives a waiting writer a slot. -/
theorem Still.step {a} (h : Still id sent s)
    (hno : s.NoOtherEnds id a) (hstep : s.step a = some s') : Still id sent s' := by
  have ⟨v, hv, hphase, hsent⟩ := h
  cases a with
  | connect =>
    cases hstep
    obtain ⟨hlt, -⟩ := List.getElem?_eq_some_iff.mp hv
    exact ⟨v, (getElem?_append_left hlt).trans hv, hphase, hsent⟩
  | enqueue id' r =>
    obtain ⟨w, hw, hstep⟩ := bind_eq_some_iff.mp hstep
    obtain ⟨hlt, -⟩ := List.getElem?_eq_some_iff.mp hw
    split at hstep
    · cases hstep
    cases hstep
    by_cases hid : id' = id
    · subst hid
      cases hv.symm.trans hw
      exact ⟨_, getElem?_set_self hlt, hphase, hsent⟩
    · exact h.set_ne hid rfl
  | choked id' =>
    obtain ⟨w, hw, hstep⟩ := bind_eq_some_iff.mp hstep
    split at hstep
    · rename_i hchoking
      cases hstep
      refine h.set_ne ?_ (acquireSlot_writers s id' w)
      rintro rfl
      cases hv.symm.trans hw
      simp [hchoking] at hphase
    · cases hstep
  | unchoked id' =>
    obtain ⟨w, hw, hstep⟩ := bind_eq_some_iff.mp hstep
    split at hstep
    · rename_i hunchoking
      cases hstep
      refine h.set_ne ?_ rfl
      rintro rfl
      cases hv.symm.trans hw
      simp [hunchoking] at hphase
    · cases hstep
  | send id' =>
    obtain ⟨w, hw, hstep⟩ := bind_eq_some_iff.mp hstep
    rw [send] at hstep
    split at hstep
    · rename_i r rest hserving hchan
      have hne : id' ≠ id := by
        rintro rfl
        cases hv.symm.trans hw
        simp [hserving] at hphase
      have hkeep : r.isDisconnect = false :=
        (hno.resolve_left hne) w hw r (by rw [hchan]; rfl)
      simp only [hkeep] at hstep
      cases hstep
      exact h.set_ne hne rfl
    · cases hstep
  | close id' =>
    obtain rfl : id' = id := hno
    obtain ⟨w, hw, hstep⟩ := bind_eq_some_iff.mp hstep
    cases hv.symm.trans hw
    obtain ⟨hlt, -⟩ := List.getElem?_eq_some_iff.mp hw
    rw [close] at hstep
    rcases hphase with hwait | hclosed
    · rw [hwait] at hstep
      cases hstep
      exact ⟨_, getElem?_set_self hlt, .inr rfl, hsent⟩
    · rw [hclosed] at hstep
      cases hstep

/-- **What a waiting writer has in its channel is blocked.** -/
theorem blocked_iff : s.Blocked id ↔ ∃ w ∈ s.writers[id]?, ∃ r, w.Holds r := by
  constructor
  · rintro ⟨w, hw, hr, -⟩
    exact ⟨w, hw, hr⟩
  rintro ⟨w, hw, r, hr⟩
  refine ⟨w, hw, ⟨r, hr⟩, fun as s' halong hrun => ?_⟩
  have hstill : Still id w.sent s := ⟨w, hw, .inl hr.1, rfl⟩
  obtain ⟨w', hw', -, hsent⟩ :=
    (always_of_along (fun _ _ _ h hno => h.step hno) hstill halong).last hrun
  exact ⟨w', hw', hsent⟩

/-! ## What blocks a download -/

/-- No download is blocked. -/
def NeverBlocked (s : Uploads L) : Prop := ∀ id, ¬ s.Blocked id

lemma neverBlocked_iff : s.NeverBlocked ↔ ∀ w ∈ s.writers, ∀ r, ¬ w.Holds r := by
  rw [NeverBlocked]
  simp only [blocked_iff]
  constructor
  · intro h w hw r hr
    obtain ⟨id, hid⟩ := mem_iff_getElem?.mp hw
    exact h id ⟨w, hid, r, hr⟩
  · rintro h id ⟨w, hw, r, hr⟩
    exact h w (mem_iff_getElem?.mpr ⟨id, hw⟩) r hr

/-- One writer changes. -/
lemma NeverBlocked.set_iff (h : s.NeverBlocked) {w v} (hw : s.writers[id]? = some w)
    (hwriters : s'.writers = s.writers.set id v) : s'.NeverBlocked ↔ ∀ r, ¬ v.Holds r := by
  rw [neverBlocked_iff, hwriters]
  obtain ⟨hlt, -⟩ := List.getElem?_eq_some_iff.mp hw
  refine ⟨fun hall => hall v (mem_set hlt v), fun hv u hu => ?_⟩
  rcases mem_or_eq_of_mem_set hu with hu | rfl
  · exact neverBlocked_iff.mp h u hu
  · exact hv

lemma not_holds_of_phase {w : Writer L} (h : w.phase ≠ .waiting) (r : WriterRequest L) :
    ¬ w.Holds r := fun hr => h hr.1

variable (h : s.NeverBlocked)
include h

lemma NeverBlocked.releaseSlot : s.releaseSlot.NeverBlocked := by
  rw [neverBlocked_iff] at h ⊢
  rw [Uploads.releaseSlot]
  split
  · exact h
  · rename_i next _
    intro w hw
    obtain ⟨id, hid⟩ := mem_iff_getElem?.mp hw
    rw [getElem?_modify, Option.map_eq_map, map_eq_some_iff] at hid
    obtain ⟨v, hv, rfl⟩ := hid
    split
    · exact not_holds_of_phase WriterPhase.noConfusion
    · exact h v (mem_iff_getElem?.mpr ⟨id, hv⟩)

/-- The end of a connection blocks nothing. -/
lemma NeverBlocked.close {w v} (hw : s.writers[id]? = some v)
    (hstep : s.close id w = some s') : s'.NeverBlocked := by
  have hclosed : ∀ r, ¬ ({ w with phase := .closed } : Writer L).Holds r :=
    not_holds_of_phase WriterPhase.noConfusion
  rw [Uploads.close] at hstep
  split at hstep
  · cases hstep
    exact (h.set_iff hw rfl).mpr hclosed
  · cases hstep
    exact (h.set_iff hw rfl).mpr hclosed
  · cases hstep
    exact ((h.set_iff hw rfl).mpr hclosed).releaseSlot
  · cases hstep
    exact ((h.set_iff hw rfl).mpr hclosed).releaseSlot
  · cases hstep

/-- **A step blocks a download exactly when a request comes to a writer that waits, or a writer that
has one comes to wait.** -/
theorem NeverBlocked.step_iff {a} (hstep : s.step a = some s') :
    s'.NeverBlocked ↔ s.ServesDownloads a := by
  cases a with
  | connect =>
    cases hstep
    refine iff_true_intro (neverBlocked_iff.mpr fun w hw => ?_)
    rcases mem_append.mp hw with hw | hw
    · exact neverBlocked_iff.mp h w hw
    · rw [mem_singleton.mp hw]
      exact not_holds_of_phase WriterPhase.noConfusion
  | enqueue id r =>
    obtain ⟨w, hw, hstep⟩ := bind_eq_some_iff.mp hstep
    split at hstep
    · cases hstep
    cases hstep
    rw [h.set_iff hw rfl]
    constructor
    · intro hall hr v hv hwait
      cases hv.symm.trans hw
      exact hall r ⟨hwait, mem_append_right _ (mem_singleton_self r), hr⟩
    rintro hserves r' ⟨hwait, hmem, hdownload⟩
    rcases mem_append.mp hmem with hold | hnew
    · exact neverBlocked_iff.mp h w (mem_iff_getElem?.mpr ⟨id, hw⟩) r' ⟨hwait, hold, hdownload⟩
    · rw [mem_singleton.mp hnew] at hdownload
      exact hserves hdownload w hw hwait
  | choked id =>
    obtain ⟨w, hw, hstep⟩ := bind_eq_some_iff.mp hstep
    split at hstep <;> cases hstep
    rw [h.set_iff hw (acquireSlot_writers s id w)]
    constructor
    · intro hall hpermits v hv r hr
      cases hv.symm.trans hw
      exact Bool.eq_false_iff.mpr fun hdownload => hall r ⟨if_pos hpermits, hr, hdownload⟩
    rintro hserves r ⟨hwait, hmem, hdownload⟩
    by_cases hpermits : s.semaphore.permits = 0
    · rw [hserves hpermits w hw r hmem] at hdownload
      cases hdownload
    · rw [if_neg hpermits] at hwait
      cases hwait
  | unchoked id =>
    obtain ⟨w, hw, hstep⟩ := bind_eq_some_iff.mp hstep
    split at hstep <;> cases hstep
    exact iff_of_true
      ((h.set_iff hw rfl).mpr (not_holds_of_phase WriterPhase.noConfusion)) trivial
  | send id =>
    obtain ⟨w, hw, hstep⟩ := bind_eq_some_iff.mp hstep
    refine iff_true_intro ?_
    rw [send] at hstep
    split at hstep
    · rename_i r rest hserving hchan
      split at hstep
      · exact h.close hw hstep
      · cases hstep
        exact (h.set_iff hw rfl).mpr (not_holds_of_phase (by simp [hserving]))
    · cases hstep
  | close id =>
    obtain ⟨w, hw, hstep⟩ := bind_eq_some_iff.mp hstep
    exact iff_true_intro (h.close hw hstep)

omit h

/-- **Uploading limits block downloading exactly when something to be sent for a download comes to
wait for a slot to upload.** -/
theorem neverBlocked_iff_servesDownloads (as : List (UploadStep L)) :
    Always step NeverBlocked {} as ↔ Along step ServesDownloads {} as :=
  always_iff_along (fun _ _ _ h => h.step_iff)
    (neverBlocked_iff.mpr fun _ hw => absurd hw not_mem_nil) as

/-- Four peers have taken the slots when a fifth one comes, from which we would like to
download. -/
theorem not_neverBlocked_fifth : ¬ Always step NeverBlocked ({} : Uploads .onePiece)
      [.connect, .connect, .connect, .connect, .connect, .choked 0, .choked 1, .choked 2,
        .choked 3, .choked 4, .enqueue 4 (.message .interested)] := by
  intro h
  exact neverBlocked_iff.mp (h.last rfl) _ (mem_iff_getElem?.mpr ⟨4, rfl⟩)
    (.message .interested) ⟨rfl, mem_singleton_self _, rfl⟩

end Uploads

end Librtbit
