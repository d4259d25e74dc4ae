import Librtbit.Managed.Torrent

/-!
# Managed/Tasks — tasks that outlive what they were started for

The task that runs the initial check belongs to one initializer, the task that waits for a fatal
error to one live torrent.  Pausing, checking again and deleting a torrent cancel its tasks; but a
task only notices that where it waits, and what it does after it has waited for the last time it
does to whatever state it finds.  The end of a check asks whether the torrent is being initialized,
not by whom; the failure of a check and a fatal error do not ask at all.

`respects_iff_timely` says when such a task leaves a state alone that is not its own.
`superseded_stays` is why it has to: an object that was replaced does not come back.
-/

namespace Librtbit

open Machinery

variable {L : Lengths}

/-- What happens to a torrent, the end of it included. -/
inductive LifeStep (L : Lengths) where
  | managed (a : ManagedStep L)
  /-- Deleting a torrent cancels its token… -/
  | cancelToken
  /-- …and, after a pause, takes its state. -/
  | takeState (taken : StorageResult)

/-- The task that takes the step. -/
def LifeStep.task : LifeStep L → Option ℕ
  | .managed (.checked task _) => some task
  | .managed (.fatalErrorReceived task _) => some task
  | _ => none

namespace ManagedTorrent

variable {fileInfos : List FileInfo} {t t' : ManagedTorrent L}

/-- The state is taken by who deletes the torrent. -/
def takeState (t : ManagedTorrent L) (taken : StorageResult) : ManagedTorrent L :=
  match t.state with
  | .live live => { (t.pauseLive live taken).1 with state := .none }
  | _ => { t with state := .none }

def life (fileInfos : List FileInfo) (t : ManagedTorrent L) : LifeStep L → Option (ManagedTorrent L)
  | .managed a => t.step fileInfos a
  | .cancelToken => some t.cancelToken
  | .takeState taken => some (t.takeState taken)

/-- The state belongs to the object that the task was started for. -/
def Owns (t : ManagedTorrent L) : Task → Prop
  | .initialize_ init _ _ => t.state = .initializing init
  | .fatalErrors live _ _ => t.state = .live live
  | .over => False

/-- **A task that was started for another object leaves the state alone.** -/
def Respects (fileInfos : List FileInfo) (t : ManagedTorrent L) (a : LifeStep L) : Prop :=
  ∀ task ∈ a.task, ∀ running ∈ t.tasks[task]?, ¬ t.Owns running →
    ∀ t', t.life fileInfos a = some t' → t'.observed = t.observed

/-- A task comes to its end in time: a check that succeeds, before another initializer is there; one
that fails and a fatal error, before anything else is there (but that very error). -/
def Timely (t : ManagedTorrent L) : LifeStep L → Prop
  | .managed (.checked task result) =>
    ∀ init token startPaused, t.tasks[task]? = some (.initialize_ init token startPaused) →
      match result with
      | .ok _ => ∀ init', t.state = .initializing init' → init' = init
      | .error e => t.state = .initializing init ∨ t.state = .error (.check e)
  | .managed (.fatalErrorReceived task _) =>
    ∀ live token e, t.tasks[task]? = some (.fatalErrors live token (some e)) →
      t.state = .live live ∨ t.state = .error (.fatal e)
  | _ => True

/-! ## What was replaced does not come back -/

/-- The object of a task is one there has been, and not the present one. -/
def Superseded (running : Task) (t : ManagedTorrent L) : Prop :=
  ¬ t.Owns running ∧
    match running with
    | .initialize_ init _ _ => init < t.inits
    | .fatalErrors live _ _ => live < t.liveCount
    | .over => True

/-- **A state is kept, or a new one is there**: with a number not given before, or none at all. -/
structure Follows (t t' : ManagedTorrent L) : Prop where
  inits : t.inits ≤ t'.inits
  liveCount : t.liveCount ≤ t'.liveCount
  initializing : ∀ init, t'.state = .initializing init →
    t.state = .initializing init ∨ t.inits ≤ init
  live : ∀ live, t'.state = .live live → t.state = .live live ∨ t.liveCount ≤ live

/-- …and the metadata stay. -/
structure Evolves (t t' : ManagedTorrent L) : Prop extends Follows t t' where
  metadata : t'.metadata = t.metadata

/-- The state is kept. -/
lemma evolves_of_eq (hstate : t'.state = t.state) (hinits : t'.inits = t.inits)
    (hcount : t'.liveCount = t.liveCount) (hmeta : t'.metadata = t.metadata) : Evolves t t' where
  inits := hinits.ge
  liveCount := hcount.ge
  initializing _ h := .inl (hstate ▸ h)
  live _ h := .inl (hstate ▸ h)
  metadata := hmeta

/-- The state is one that has no number. -/
lemma evolves_of_ne (hinit : ∀ init, t'.state ≠ .initializing init)
    (hlive : ∀ live, t'.state ≠ .live live) (hinits : t'.inits = t.inits)
    (hcount : t'.liveCount = t.liveCount) (hmeta : t'.metadata = t.metadata) : Evolves t t' where
  inits := hinits.ge
  liveCount := hcount.ge
  initializing init h := absurd h (hinit init)
  live live h := absurd h (hlive live)
  metadata := hmeta

lemma evolves_of_turn {a r} (h : CoreTurn t.core a t'.core r) : Evolves t t' := by
  cases h with
  | stays hcore | keeps _ hcore | loses _ _ _ hcore =>
    exact evolves_of_eq (congrArg Core.state hcore) (congrArg Core.inits hcore)
      (congrArg Core.liveCount hcore) (congrArg Core.metadata hcore)
  | pauses hcore | fails hcore =>
    have hstate := congrArg Core.state hcore
    exact evolves_of_ne (fun _ h => nomatch hstate.symm.trans h)
      (fun _ h => nomatch hstate.symm.trans h) (congrArg Core.inits hcore)
      (congrArg Core.liveCount hcore) (congrArg Core.metadata hcore)
  | reinitializes hcore =>
    have hstate := congrArg Core.state hcore
    exact {
      inits := (congrArg Core.inits hcore).ge.trans' (Nat.le_succ _)
      liveCount := (congrArg Core.liveCount hcore).ge
      initializing := fun _ h => .inr (State.initializing.inj (hstate.symm.trans h)).le
      live := fun _ h => nomatch hstate.symm.trans h
      metadata := congrArg Core.metadata hcore }
  | goesLive hcore =>
    have hstate := congrArg Core.state hcore
    exact {
      inits := (congrArg Core.inits hcore).ge
      liveCount := (congrArg Core.liveCount hcore).ge.trans' (Nat.le_succ _)
      initializing := fun _ h => nomatch hstate.symm.trans h
      live := fun _ h => .inr (State.live.inj (hstate.symm.trans h)).le
      metadata := congrArg Core.metadata hcore }

lemma evolves_step {a} (hstep : t.step fileInfos a = some t') : Evolves t t' := by
  obtain ⟨⟨t₁, r⟩, happly, rfl⟩ := Option.map_eq_some_iff.mp hstep
  exact evolves_of_turn (turn_of_apply happly).core

variable {a : LifeStep L}

lemma evolves_life (hstep : t.life fileInfos a = some t') : Evolves t t' := by
  cases a with
  | managed a => exact evolves_step hstep
  | cancelToken =>
    cases hstep
    exact evolves_of_eq rfl rfl rfl rfl
  | takeState taken =>
    cases hstep
    rw [takeState]
    split <;> exact evolves_of_ne nofun nofun rfl rfl rfl

variable {running : Task}

lemma Superseded.follows (h : Superseded running t) (hfollows : Follows t t') :
    Superseded running t' := by
  cases running with
  | initialize_ init token startPaused =>
    obtain ⟨hne, hlt⟩ := h
    refine ⟨fun hstate => ?_, lt_of_lt_of_le hlt hfollows.inits⟩
    rcases hfollows.initializing init hstate with hsame | hnew
    · exact hne hsame
    · exact absurd hlt (not_lt.mpr hnew)
  | fatalErrors live token received =>
    obtain ⟨hne, hlt⟩ := h
    refine ⟨fun hstate => ?_, lt_of_lt_of_le hlt hfollows.liveCount⟩
    rcases hfollows.live live hstate with hsame | hnew
    · exact hne hsame
    · exact absurd hlt (not_lt.mpr hnew)
  | «over» => exact ⟨id, trivial⟩

/-- **An object that was replaced is never the present one again.** -/
theorem superseded_stays (h : Superseded running t) (as : List (LifeStep L)) :
    Always (life fileInfos) (Superseded running) t as :=
  always_of_step (fun _ _ _ h hstep => h.follows (evolves_life hstep).toFollows) h as

/-- The first check, when a second one has begun. -/
theorem superseded_first_check : Always (life ChunkTracker.oneFile)
    (Superseded (.initialize_ 0 0 false))
    ({ state := .initializing 1, inits := 2 } : ManagedTorrent .onePiece)
    [.cancelToken, .managed (.start true false (.ok ()))] :=
  superseded_stays ⟨fun h => (by cases h), by decide⟩ _

/-! ## A step out of time -/

lemma observed_error_eq_iff {e} (hstate : t'.state = .error e) :
    t'.observed = t.observed ↔ t.state = .error e := by
  rw [observed, observed, hstate]
  constructor
  · exact fun h => (Prod.mk.inj h).1.symm
  · intro h
    rw [h]

/-- **A check that succeeds changes the state of a torrent that is being initialized, and of no
other.** -/
theorem observed_checked_ok_iff (token : ℕ) (startPaused : Bool) (ct : ChunkTracker L) :
    (t.checked token startPaused (.ok ct)).observed = t.observed ↔
      ∀ init, t.state ≠ .initializing init := by
  rw [checked]
  cases hstate : t.state with
  | initializing init =>
    refine iff_of_false (fun h => ?_) fun h => h init rfl
    have hsame := (Prod.mk.inj h).1
    rw [hstate] at hsame
    rcases startFrom_paused (t := { t with state := .paused ct }) rfl startPaused token
      (.ok ()) with
      heq | heq
    · rw [heq] at hsame
      cases hsame
    · rw [heq] at hsame
      cases hsame
  | paused ct | live live | error e | none => exact iff_of_true rfl fun _ h => by cases h

lemma observed_stopWithError_iff (e : ManagedError) (taken : StorageResult) :
    (t.stopWithError e taken).observed = t.observed ↔ t.state = .error e := by
  rw [stopWithError]
  split
  · exact observed_error_eq_iff rfl
  · exact observed_error_eq_iff rfl

/-- A step that a task takes. -/
lemma respects_iff_of_task {task} (ha : a.task = some task)
    (htask : t.tasks[task]? = some running) (hlife : t.life fileInfos a = some t') :
    t.Respects fileInfos a ↔ (¬ t.Owns running → t'.observed = t.observed) := by
  constructor
  · exact fun h hne => h task ha running htask hne t' hlife
  intro h task' ha' running' htask' hne t'' ht''
  cases ha.symm.trans ha'
  cases htask.symm.trans htask'
  cases hlife.symm.trans ht''
  exact h hne

/-- Finishing a task is not seen. -/
lemma observed_finish (t : ManagedTorrent L) (task : ℕ) : (t.finish task).observed = t.observed :=
  rfl

lemma timely_checked_iff {task init token startPaused result}
    (htask : t.tasks[task]? = some (.initialize_ init token startPaused)) :
    t.Timely (.managed (.checked task result)) ↔
      (t.state ≠ .initializing init →
        ((t.finish task).checked token startPaused result).observed = t.observed) := by
  have hthis : t.Timely (.managed (.checked task result)) ↔
      match result with
      | .ok _ => ∀ init', t.state = .initializing init' → init' = init
      | .error e => t.state = .initializing init ∨ t.state = .error (.check e) := by
    constructor
    · exact fun h => h init token startPaused htask
    · intro h init' token' startPaused' htask'
      obtain ⟨rfl, -, -⟩ := Task.initialize_.inj (Option.some.inj (htask.symm.trans htask'))
      exact h
  rw [hthis, ← observed_finish t task]
  cases result with
  | ok ct =>
    rw [observed_checked_ok_iff]
    constructor
    · intro h hne init' hstate
      exact hne (h init' hstate ▸ hstate)
    intro h init' hstate
    by_contra hinit
    refine h (fun hsame => hinit ?_) init' hstate
    exact State.initializing.inj (hstate.symm.trans hsame)
  | error e =>
    rw [show ((t.finish task).checked token startPaused (.error e)).observed =
      (t.finish task).observed ↔ t.state = .error (.check e) from observed_error_eq_iff rfl]
    exact or_iff_not_imp_left

lemma timely_fatalErrorReceived_iff {task live token e taken}
    (htask : t.tasks[task]? = some (.fatalErrors live token (some e))) :
    t.Timely (.managed (.fatalErrorReceived task taken)) ↔
      (t.state ≠ .live live →
        ((t.finish task).stopWithError (.fatal e) taken).observed = t.observed) := by
  rw [← observed_finish t task, observed_stopWithError_iff]
  constructor
  · exact fun h => (h live token e htask).resolve_left
  intro h live' token' e' htask'
  obtain ⟨rfl, -, hreceived⟩ := Task.fatalErrors.inj (Option.some.inj (htask.symm.trans htask'))
  cases hreceived
  exact or_iff_not_imp_left.mpr h

lemma respects_iff_of_life (hstep : t.life fileInfos a = some t') :
    t.Respects fileInfos a ↔ t.Timely a := by
  cases a with
  | cancelToken | takeState taken => exact iff_true_intro (fun _ h => by cases h)
  | managed a =>
    cases a with
    | checked task result =>
      obtain ⟨⟨t₁, r⟩, happly, rfl⟩ := Option.map_eq_some_iff.mp hstep
      rw [apply] at happly
      split at happly
      · rename_i htask
        cases happly
        exact (respects_iff_of_task rfl htask hstep).trans (timely_checked_iff htask).symm
      · cases happly
    | fatalErrorReceived task taken =>
      obtain ⟨⟨t₁, r⟩, happly, rfl⟩ := Option.map_eq_some_iff.mp hstep
      rw [apply] at happly
      split at happly
      · rename_i htask
        cases happly
        exact (respects_iff_of_task rfl htask hstep).trans
          (timely_fatalErrorReceived_iff htask).symm
      · cases happly
    | _ => exact iff_true_intro (fun _ h => by cases h)

/-- **No task changes a state that is not its own exactly when every task comes to its end in
time.** -/
theorem respects_iff_timely (fileInfos : List FileInfo) (paused : Bool) (as : List (LifeStep L)) :
    Along (life fileInfos) (Respects fileInfos) { paused := paused } as ↔
      Along (life fileInfos) Timely { paused := paused } as :=
  along_congr (fun _ _ _ => respects_iff_of_life) _ as

/-- A torrent is paused while it is being checked and started again, and the first check, which was
cancelled, fails. -/
theorem not_respects_old_check : ¬ Along (life ChunkTracker.oneFile) (Respects ChunkTracker.oneFile)
      ({} : ManagedTorrent .onePiece)
      [.managed (.start true false (.ok ())), .managed (.pause true (.ok ())),
        .managed (.start true false (.ok ())), .managed (.checked 0 (.error "cancelled"))] := by
  intro h
  have hlast := (((h _ rfl).2 _ rfl).2 _ rfl).2 _ rfl
  have hsame := hlast.1 0 rfl _ rfl nofun _ rfl
  cases (Prod.mk.inj hsame).1

end ManagedTorrent

end Librtbit
