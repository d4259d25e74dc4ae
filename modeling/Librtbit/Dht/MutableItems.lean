import Librtbit.Dht.RoutingTable
import Librtbit.Machinery.Run
import Librtbit.Machinery.Table

/-!
# Dht/MutableItems — calls that store items at the same time

The items are in a concurrent map: each look at it and each change of it is atomic, but a call of
`store` looks several times before it changes anything.  It reads the sequence number that is
stored, then whether there is an item, then how many there are, then which is the oldest, and only
then removes that one and inserts its own.  What it has seen may be out of date by then.

`store_sound` says what holds as long as it is not: when an item is inserted, no newer one has come
in the meantime, and there is room for it.
-/

namespace Librtbit.Dht

open Machinery List

structure StoredMutableItem where
  k : Octets 32
  sig : Octets 64
  seq : ℤ
  v : ByteBuf
  salt : Option ByteBuf
  lastUpdated : Instant
  deriving DecidableEq

structure MutableItemStore where
  items : Table Id20 StoredMutableItem
  maxItems : ℕ

/-- The calls that change the store. -/
inductive ItemCall where
  | store (target : Id20) (item : StoredMutableItem)
  | garbageCollect

/-- What a call does next. -/
inductive ItemPhase where
  /-- `get` reads the sequence number that is stored. -/
  | get
  | containsKey
  | len
  /-- `evict_oldest` looks for the oldest item… -/
  | findOldest
  /-- …and removes it. -/
  | remove (key : Id20)
  | insert
  /-- `store` has returned. -/
  | returned (stored : Bool)
  /-- `garbage_collect` has. -/
  | collected
  deriving DecidableEq

structure ItemTask where
  call : ItemCall
  phase : ItemPhase
  /-- What the call has changed in the map: what it stored under a key, or that it removed it. -/
  changes : List (Id20 × Option StoredMutableItem) := []

namespace ItemTask

def start : ItemCall → ItemTask
  | .store target item => { call := .store target item, phase := .get }
  | .garbageCollect => { call := .garbageCollect, phase := .len }

/-- A call goes on after `evict_oldest`. -/
def afterEvict : ItemCall → ItemPhase
  | .store _ _ => .insert
  | .garbageCollect => .len

def isOver (task : ItemTask) : Bool :=
  match task.phase with
  | .returned _ | .collected => true
  | _ => false

def changed (task : ItemTask) (phase : ItemPhase) (key : Id20) (item : Option StoredMutableItem) :
    ItemTask :=
  { task with phase, changes := task.changes ++ [(key, item)] }

end ItemTask

namespace MutableItemStore

variable (s : MutableItemStore)

/-- No item was updated before this one. -/
def isOldest (key : Id20) : Bool :=
  (s.items.lookup key).any fun item =>
    s.items.entries.all fun e => item.lastUpdated ≤ e.2.lastUpdated

/-- One step of a call.  Where it looks for the oldest item, `oldest` is what it finds: of several
that are equally old, any can be first. -/
def advance (oldest : Id20) (task : ItemTask) : Option (MutableItemStore × ItemTask) :=
  match task.phase, task.call with
  | .get, .store target item =>
    if (s.items.lookup target).any fun existing => existing.seq ≥ item.seq then
      some (s, { task with phase := .returned false })
    else some (s, { task with phase := .containsKey })
  | .containsKey, .store target _ =>
    if target ∈ s.items then some (s, { task with phase := .insert })
    else some (s, { task with phase := .len })
  | .len, .store _ _ =>
    if s.items.size ≥ s.maxItems then some (s, { task with phase := .findOldest })
    else some (s, { task with phase := .insert })
  | .len, .garbageCollect =>
    if s.items.size > s.maxItems then some (s, { task with phase := .findOldest })
    else some (s, { task with phase := .collected })
  | .findOldest, call =>
    if s.items.size = 0 then some (s, { task with phase := ItemTask.afterEvict call })
    else if s.isOldest oldest then some (s, { task with phase := .remove oldest })
    else none
  | .remove key, call =>
    some ({ s with items := s.items.erase key }, task.changed (ItemTask.afterEvict call) key none)
  | .insert, .store target item =>
    some ({ s with items := s.items.insert target item },
      task.changed (.returned true) target (some item))
  | _, _ => none

/-- **What a call has seen still holds when it inserts its item**: no newer item has been stored for
the target, and the target is there or there is room for it. -/
def upToDate (task : ItemTask) : Bool :=
  match task.phase, task.call with
  | .insert, .store target item =>
    ((s.items.lookup target).all fun existing => existing.seq ≤ item.seq) &&
      (target ∈ s.items || s.items.size < s.maxItems)
  | _, _ => true

end MutableItemStore

/-! ## Concurrent calls -/

structure MutableItems where
  store : MutableItemStore
  tasks : List ItemTask := []

inductive ItemStep where
  | call (call : ItemCall)
  | advance (id : ℕ) (oldest : Id20)

namespace MutableItems

def new (maxItems : ℕ) : MutableItems where
  store := { items := ∅, maxItems }

def step (s : MutableItems) : ItemStep → Option MutableItems
  | .call call => some { s with tasks := s.tasks ++ [.start call] }
  | .advance id oldest =>
    (s.tasks[id]?).bind fun task =>
      (s.store.advance oldest task).map fun (store, task') =>
        { store, tasks := s.tasks.set id task' }

/-- No call is in progress. -/
def Idle (s : MutableItems) : Prop := ∀ task ∈ s.tasks, task.isOver = true
  deriving Decidable

/-- **The number of items is within its limit between calls.** -/
def Bounded (s : MutableItems) : Prop := s.Idle → s.store.items.size ≤ s.store.maxItems
  deriving Decidable

/-- **The sequence number of a target does not decrease** as long as there is an item for it. -/
def SeqGrows (s : MutableItems) (_ : ItemStep) (s' : MutableItems) : Prop :=
  ∀ target item item', s.store.items.lookup target = some item →
    s'.store.items.lookup target = some item' → item.seq ≤ item'.seq

/-- **What a call returns is what it did**: it has stored its item, or changed nothing. -/
def Honest (s : MutableItems) : Prop :=
  ∀ task ∈ s.tasks, ∀ target item, task.call = .store target item →
    (task.phase = .returned true → (target, some item) ∈ task.changes) ∧
      (task.phase = .returned false → task.changes = [])

/-- A call that inserts its item is up to date. -/
def UpToDate (s : MutableItems) : ItemStep → Prop
  | .call _ => True
  | .advance id _ => (s.tasks[id]?).all s.store.upToDate = true

instance (s : MutableItems) : DecidablePred s.UpToDate
  | .call _ => inferInstanceAs (Decidable True)
  | .advance _ _ => inferInstanceAs (Decidable (_ = true))

/-! ### What a step does -/

/-- What a step of a call does to the map, and where the call goes on. -/
inductive Effect (s : MutableItemStore) (task : ItemTask) : MutableItemStore → ItemTask → Prop
  | refuse (hphase : task.phase = .get) : Effect s task s { task with phase := .returned false }
  | look {phase} (hphase : ∀ b, phase ≠ .returned b) (hget : phase ≠ .get) :
      Effect s task s { task with phase }
  | remove (key : Id20) :
      Effect s task { s with items := s.items.erase key }
        (task.changed (ItemTask.afterEvict task.call) key none)
  | insert {target item} (hphase : task.phase = .insert)
      (hcall : task.call = .store target item) :
      Effect s task { s with items := s.items.insert target item }
        (task.changed (.returned true) target (some item))

lemma afterEvict_ne (call : ItemCall) :
    (∀ b, ItemTask.afterEvict call ≠ .returned b) ∧ ItemTask.afterEvict call ≠ .get := by
  cases call with
  | store target item | garbageCollect => exact ⟨fun _ => nofun, nofun⟩

variable {task task' : ItemTask}

lemma effect_of_advance {s s' oldest}
    (h : s.advance oldest task = some (s', task')) : Effect s task s' task' := by
  rw [MutableItemStore.advance] at h
  split at h
  · next target item hphase hcall =>
    split at h <;> cases h
    · exact .refuse hphase
    · exact .look (fun _ => nofun) nofun
  · split at h <;> cases h <;> exact .look (fun _ => nofun) nofun
  · split at h <;> cases h <;> exact .look (fun _ => nofun) nofun
  · split at h <;> cases h <;> exact .look (fun _ => nofun) nofun
  · split at h
    · cases h
      exact .look (afterEvict_ne _).1 (afterEvict_ne _).2
    · split at h <;> cases h
      exact .look (fun _ => nofun) nofun
  · cases h
    exact .remove _
  · next hphase hcall =>
    cases h
    exact .insert hphase hcall
  · cases h

variable {s s' : MutableItems} {a : ItemStep}

/-- A step begins a call, or is one of a call. -/
lemma step_cases (h : s.step a = some s') :
    (∃ call, a = .call call ∧ s' = { s with tasks := s.tasks ++ [.start call] }) ∨
      ∃ id oldest task store task', a = .advance id oldest ∧ s.tasks[id]? = some task ∧
        Effect s.store task store task' ∧ s' = { store, tasks := s.tasks.set id task' } := by
  cases a with
  | call call => exact Or.inl ⟨call, rfl, (Option.some.inj h).symm⟩
  | advance id oldest =>
    obtain ⟨task, htask, hmap⟩ := Option.bind_eq_some_iff.mp h
    obtain ⟨⟨store, task'⟩, hadvance, rfl⟩ := Option.map_eq_some_iff.mp hmap
    exact Or.inr ⟨id, oldest, task, store, task', rfl, htask, effect_of_advance hadvance, rfl⟩

/-! ### What calls return -/

/-- A call that looks for the stored sequence number, or was refused, has changed nothing. -/
structure Recorded (task : ItemTask) : Prop where
  get : task.phase = .get → task.changes = []
  refused : task.phase = .returned false → task.changes = []
  stored : ∀ target item, task.call = .store target item → task.phase = .returned true →
    (target, some item) ∈ task.changes

lemma Effect.recorded {s s'}
    (h : Effect s task s' task') (hr : Recorded task) : Recorded task' := by
  cases h with
  | refuse hphase => exact ⟨nofun, fun _ => hr.get hphase, fun _ _ _ => nofun⟩
  | look hphase hget =>
    exact ⟨fun h => absurd h hget, fun h => absurd h (hphase false),
      fun _ _ _ h => absurd h (hphase true)⟩
  | remove key =>
    obtain ⟨hphase, hget⟩ := afterEvict_ne task.call
    exact ⟨fun h => absurd h hget, fun h => absurd h (hphase false),
      fun _ _ _ h => absurd h (hphase true)⟩
  | insert hphase hcall =>
    refine ⟨nofun, nofun, fun target item hcall' _ => ?_⟩
    cases hcall.symm.trans hcall'
    exact mem_append_right _ (mem_singleton_self _)

lemma recorded_step (hr : ∀ task ∈ s.tasks, Recorded task)
    (h : s.step a = some s') : ∀ task ∈ s'.tasks, Recorded task := by
  rcases step_cases h with ⟨call, -, rfl⟩ | ⟨id, oldest, task, store, task', -, htask, heff, rfl⟩
  · intro task htask
    rcases mem_append.mp htask with htask | htask
    · exact hr task htask
    obtain rfl := mem_singleton.mp htask
    cases call with
    | store target item => exact ⟨fun _ => rfl, nofun, fun _ _ _ => nofun⟩
    | garbageCollect => exact ⟨nofun, nofun, nofun⟩
  · intro t ht
    rcases mem_or_eq_of_mem_set ht with ht | rfl
    · exact hr t ht
    · exact heff.recorded (hr task (mem_of_getElem? htask))

/-! ### What the map holds -/

/-- **A step that is up to date keeps the limit and the order of the sequence numbers.** -/
theorem bounded_step (hup : s.UpToDate a)
    (hsize : s.store.items.size ≤ s.store.maxItems) (h : s.step a = some s') :
    s'.store.items.size ≤ s'.store.maxItems ∧ SeqGrows s a s' := by
  have hsame : SeqGrows s a s := by
    intro target item item' hitem hitem'
    cases hitem.symm.trans hitem'
    exact le_rfl
  rcases step_cases h with ⟨call, -, rfl⟩ | ⟨id, oldest, task, store, task', rfl, htask, heff, rfl⟩
  · exact ⟨hsize, hsame⟩
  cases heff with
  | refuse hphase | look hphase hget => exact ⟨hsize, hsame⟩
  | remove key =>
    refine ⟨(Table.size_erase_le _ _).trans hsize, ?_⟩
    intro target item item' hitem hitem'
    by_cases hkey : target = key
    · subst hkey
      rw [AList.lookup_erase] at hitem'
      cases hitem'
    · rw [AList.lookup_erase_ne hkey] at hitem'
      exact hsame target item item' hitem hitem'
  | @insert target item hphase hcall =>
    have hup' : s.store.upToDate task = true := by
      rw [UpToDate, htask] at hup
      exact hup
    rw [MutableItemStore.upToDate, hphase, hcall, Bool.and_eq_true, Bool.or_eq_true,
      decide_eq_true_iff, decide_eq_true_iff] at hup'
    obtain ⟨hseq, hroom⟩ := hup'
    constructor
    · by_cases hmem : target ∈ s.store.items
      · exact (Table.size_insert_of_mem hmem item).trans_le hsize
      · exact (Table.size_insert_of_notMem hmem item).trans_le (hroom.resolve_left hmem)
    intro target' item' item'' hitem hitem'
    by_cases hkey : target' = target
    · subst hkey
      rw [AList.lookup_insert] at hitem'
      cases hitem'
      rw [hitem] at hseq
      exact of_decide_eq_true hseq
    · rw [AList.lookup_insert_ne hkey] at hitem'
      exact hsame target' item' item'' hitem hitem'

/-- A target and an item for it. -/
def someTarget : Id20 := .ofNat 20 1

@[inherit_doc someTarget]
def someItem (seq : ℤ) : StoredMutableItem where
  k := ⟨List.replicate 32 0, length_replicate⟩
  sig := ⟨List.replicate 64 0, length_replicate⟩
  seq
  v := []
  salt := none
  lastUpdated := 0

/-- A call makes steps as long as it is not interrupted. -/
def advances (id n : ℕ) : List ItemStep := List.replicate n (.advance id someTarget)

end MutableItems

/-! ## What is signed -/

/-- `signable_data`: the salt with its length, if any, the sequence number and the value. -/
def signableData (salt : Option ByteBuf) (seq : Int64) (v : ByteBuf) : ByteBuf :=
  (match salt with
    | some s => ascii "4:salt" ++ (decimal s.length ++ ascii ":" ++ s)
    | none => []) ++
  (ascii "3:seqi" ++ (decimalInt seq.toInt ++ ascii "e" ++ (ascii "1:v" ++ v)))

/-- **A sequence number ends at its `e`**: what follows `3:seqi` can be read in one way only. -/
theorem decimalInt_append_inj {seq₁ seq₂ : Int64} {rest₁ rest₂ : ByteBuf}
    (h : decimalInt seq₁.toInt ++ ascii "e" ++ rest₁ =
      decimalInt seq₂.toInt ++ ascii "e" ++ rest₂) :
    seq₁ = seq₂ ∧ rest₁ = rest₂ := by
  have hread (seq : Int64) (rest : ByteBuf) :
      (fromRadix10Signed 64 (decimalInt seq.toInt ++ ascii "e" ++ rest)).1 = seq.toInt := by
    rw [append_assoc]
    exact congrArg Prod.fst (fromRadix10Signed_decimalInt seq.le_toInt seq.toInt_lt
      (by decide) rest)
  obtain rfl : seq₁ = seq₂ := by
    rw [← Int64.toInt_inj, ← hread seq₁ rest₁, h, hread]
  exact ⟨rfl, append_cancel_left h⟩

/-- **A salt ends where its length says**, whatever bytes it is made of. -/
theorem salt_append_inj {s₁ s₂ rest₁ rest₂} (h : decimal s₁.length ++ ascii ":" ++ s₁ ++ rest₁ =
      decimal s₂.length ++ ascii ":" ++ s₂ ++ rest₂) : s₁ = s₂ ∧ rest₁ = rest₂ := by
  have hread (s rest : ByteBuf) {w : ℕ} (hw : s.length ≤ w) :
      (fromRadix10 w (decimal s.length ++ ascii ":" ++ s ++ rest)).1 = s.length := by
    rw [append_assoc, append_assoc]
    exact congrArg Prod.fst (fromRadix10_decimal (hw.trans_lt Nat.lt_two_pow_self) (by decide) _)
  have hlen : s₁.length = s₂.length := by
    rw [← hread s₁ rest₁ (le_max_left _ s₂.length), h, hread s₂ rest₂ (le_max_right _ _)]
  rw [hlen, append_assoc _ s₁, append_assoc _ s₂] at h
  exact append_inj (append_cancel_left h) hlen

/-- **The signed bytes determine what is signed**: the optional salt, the sequence number and the
value can all be read back from them, even when the salt looks like the fields that follow it. -/
theorem signableData_inj (salt₁ salt₂ : Option ByteBuf) (seq₁ seq₂ : Int64) (v₁ v₂ : ByteBuf) :
    signableData salt₁ seq₁ v₁ = signableData salt₂ seq₂ v₂ ↔
      salt₁ = salt₂ ∧ seq₁ = seq₂ ∧ v₁ = v₂ := by
  refine ⟨fun h => ?_, by rintro ⟨rfl, rfl, rfl⟩; rfl⟩
  cases salt₁ with
  | none =>
    cases salt₂ with
    | none =>
      obtain ⟨hseq, hv⟩ := decimalInt_append_inj (append_cancel_left h)
      exact ⟨rfl, hseq, append_cancel_left hv⟩
    | some s₂ => exact absurd (congrArg head? h) (by simp [signableData, ascii])
  | some s₁ =>
    cases salt₂ with
    | none => exact absurd (congrArg head? h) (by simp [signableData, ascii])
    | some s₂ =>
      simp only [signableData, append_assoc (ascii "4:salt")] at h
      obtain ⟨rfl, hrest⟩ := salt_append_inj (append_cancel_left h)
      obtain ⟨hseq, hv⟩ := decimalInt_append_inj (append_cancel_left hrest)
      exact ⟨rfl, hseq, append_cancel_left hv⟩

end Librtbit.Dht
