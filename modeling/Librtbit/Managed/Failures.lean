import Librtbit.Managed.Torrent

/-!
# Managed/Failures — what a failing storage does to a torrent

Each operation takes the state, or parts of it, before it asks the storage for anything.  If the
storage fails, `start` and `prepare_force_recheck` put something back: what they found, or an error.
`pause` does not: it has taken the piece tracker out of the live torrent, and leaves the torrent
live without it.

`sound_iff_takesFiles` says that nothing else goes wrong: the state is never seen empty, a live
torrent has its piece tracker, and an operation that fails leaves the state it found or an error, as
long as the storage lets go of the files of every live torrent that is paused.
-/

namespace Librtbit

open Machinery Function Option

variable {L : Lengths}

namespace ManagedTorrent

variable {fileInfos : List FileInfo} {t t' : ManagedTorrent L}

/-- **There is a state, and a live torrent has its piece tracker.** -/
def Sound (t : ManagedTorrent L) : Prop :=
  match t.state with
  | .none => False
  | .live live => (t.lives live).pieces.isSome = true
  | _ => True

instance (t : ManagedTorrent L) : Decidable t.Sound :=
  match h : t.state with
  | .none => .isFalse (by rw [Sound, h]; exact id)
  | .live live => decidable_of_iff ((t.lives live).pieces.isSome = true) (by rw [Sound, h])
  | .initializing _ | .paused _ | .error _ => .isTrue (by rw [Sound, h]; trivial)

/-- **An operation that fails leaves the state it found, or an error.** -/
def Restores (fileInfos : List FileInfo) (t : ManagedTorrent L) (a : ManagedStep L) : Prop :=
  ∀ t' e, t.apply fileInfos a = some (t', .error e) →
    t'.observed = t.observed ∨ ∃ e', t'.state = .error e'

/-- The storage lets go of the files when a live torrent is paused. -/
def TakesFiles (t : ManagedTorrent L) : ManagedStep L → Prop
  | .pause _ taken => ∀ live, t.state = .live live → taken = .ok ()
  | _ => True

lemma sound_iff_of_eq (hstate : t'.state = t.state) (hlives : t'.lives = t.lives) :
    t'.Sound ↔ t.Sound := by
  rw [Sound, Sound, hstate, hlives]

lemma sound_of_error {e} (hstate : t.state = .error e) : t.Sound := by
  rw [Sound, hstate]
  trivial

lemma sound_of_initializing {init} (hstate : t.state = .initializing init) : t.Sound := by
  rw [Sound, hstate]
  trivial

lemma sound_of_paused {ct} (hstate : t.state = .paused ct) : t.Sound := by
  rw [Sound, hstate]
  trivial

variable {live : ℕ}

lemma sound_live_iff (hstate : t.state = .live live) :
    t.Sound ↔ (t.lives live).pieces.isSome := by
  rw [Sound, hstate]

lemma Sound.state_ne_none (h : t.Sound) : t.state ≠ .none := by
  intro hstate
  rwa [Sound, hstate] at h

/-- A live torrent that keeps its tracker. -/
lemma sound_update_lives (h : t.Sound) {l}
    (hpieces : (t.lives live).pieces.isSome → l.pieces.isSome)
    (hstate : t'.state = t.state) (hlives : t'.lives = update t.lives live l) :
    t'.Sound := by
  cases hs : t.state with
  | live live' =>
    rw [sound_live_iff hs] at h
    rw [sound_live_iff (hstate.trans hs), hlives]
    by_cases hlive : live' = live
    · rw [hlive, update_self]
      exact hpieces (hlive ▸ h)
    · rwa [update_of_ne hlive]
  | initializing init => exact sound_of_initializing (hstate.trans hs)
  | paused ct => exact sound_of_paused (hstate.trans hs)
  | error e => exact sound_of_error (hstate.trans hs)
  | none => exact absurd hs h.state_ne_none

/-! ## Pausing -/

/-- **A pause takes the piece tracker before it asks for the files.** -/
theorem pause_live {pt} (hstate : t.state = .live live)
    (h : (t.lives live).pieces = some pt) (session : Bool) (taken : StorageResult) :
    (taken = .ok () ∧ (t.pause session taken).2 = .ok () ∧
      (t.pause session taken).1.state = .paused pt.intoChunks) ∨
    (taken ≠ .ok () ∧ (∃ e, (t.pause session taken).2 = .error e) ∧
      (t.pause session taken).1.state = .live live ∧
      ((t.pause session taken).1.lives live).pieces = none) := by
  rw [pause, hstate]
  simp only [pauseLive, TorrentStateLive.pause, h]
  cases taken with
  | ok u => exact .inl ⟨rfl, rfl, rfl⟩
  | error e => exact .inr ⟨(fun h => by cases h), ⟨_, rfl⟩, hstate,
      congrArg TorrentStateLive.pieces (update_self live _ t.lives)⟩

lemma sound_pause_iff (h : t.Sound) (session : Bool) (taken : StorageResult) :
    (t.pause session taken).1.Sound ↔ ∀ live, t.state = .live live → taken = .ok () := by
  cases hstate : t.state with
  | live live =>
    obtain ⟨pt, hpt⟩ := isSome_iff_exists.mp ((sound_live_iff hstate).mp h)
    rcases pause_live hstate hpt session taken with ⟨hok, -, hpaused⟩ | ⟨hne, -, hlive, hnone⟩
    · exact iff_of_true (sound_of_paused hpaused) fun _ _ => hok
    · refine iff_of_false (fun hsound => ?_) fun hall => hne (hall live rfl)
      rw [sound_live_iff hlive, hnone] at hsound
      cases hsound
  | initializing init =>
    rw [pause, hstate]
    exact iff_of_true (sound_of_error rfl) fun _ hlive => by cases hlive
  | paused ct | error e =>
    rw [pause, hstate]
    exact iff_of_true h fun _ hlive => by cases hlive
  | none => exact absurd hstate h.state_ne_none

/-! ## All operations -/

variable {a : ManagedStep L}

lemma sound_of_turn {r}
    (hturn : CoreTurn t.core a t'.core r) (hpause : ∀ session taken, a ≠ .pause session taken)
    (h : t.Sound) : t'.Sound := by
  cases hturn with
  | stays hcore =>
    exact (sound_iff_of_eq (congrArg Core.state hcore) (congrArg Core.lives hcore)).mpr h
  | keeps hpieces hcore =>
    exact sound_update_lives h hpieces (congrArg Core.state hcore) (congrArg Core.lives hcore)
  | pauses hcore => exact sound_of_paused (congrArg Core.state hcore)
  | fails hcore => exact sound_of_error (congrArg Core.state hcore)
  | reinitializes hcore => exact sound_of_initializing (congrArg Core.state hcore)
  | goesLive hcore =>
    rw [sound_live_iff (congrArg Core.state hcore)]
    have hlives : t'.lives = _ := congrArg Core.lives hcore
    rw [hlives]
    dsimp only
    rw [update_self]
    rfl
  | loses ha => exact absurd ha (hpause _ _)

lemma restores_of_takesFiles (h : t.Sound) (htakes : t.TakesFiles a) :
    t.Restores fileInfos a := by
  intro t' e happly
  cases (turn_of_apply happly).core with
  | stays hcore =>
    have hstate : t'.state = t.state := congrArg Core.state hcore
    have hlives : t'.lives = t.lives := congrArg Core.lives hcore
    rw [observed, hstate, hlives]
    exact .inl rfl
  | fails hcore => exact .inr ⟨_, congrArg Core.state hcore⟩
  | keeps _ _ hr | pauses _ hr | reinitializes _ hr | goesLive _ hr => cases hr
  | @loses session taken live lives ha hstate =>
    -- the storage has let go of the files, so that the pause did not fail
    subst ha
    obtain ⟨-, herr⟩ := Prod.mk.inj (Option.some.inj happly)
    obtain ⟨pt, hpt⟩ := isSome_iff_exists.mp ((sound_live_iff hstate).mp h)
    rcases pause_live hstate hpt session taken with ⟨-, hok, -⟩ | ⟨hne, -⟩
    · cases hok.symm.trans herr
    · exact absurd (htakes live hstate) hne

lemma sound_step_iff (h : t.Sound) (hstep : t.step fileInfos a = some t') :
    t'.Sound ↔ t.TakesFiles a := by
  obtain ⟨⟨t₁, r⟩, happly, rfl⟩ := map_eq_some_iff.mp hstep
  have hturn := (turn_of_apply happly).core
  cases a with
  | pause session taken =>
    obtain ⟨rfl, -⟩ := Prod.mk.inj (Option.some.inj happly)
    exact sound_pause_iff h session taken
  | start | prepareForceRecheck | updateOnlyFiles | checked | fatalError | fatalErrorReceived
  | taskEnds | download => exact iff_true_intro (sound_of_turn hturn nofun h)

/-- **The state of a torrent is never seen empty, a live torrent has its piece tracker, and an
operation that fails leaves the state it found or an error, exactly as long as the storage lets go
of the files of every live torrent that is paused.** -/
theorem sound_iff_takesFiles (fileInfos : List FileInfo) (paused : Bool)
    (as : List (ManagedStep L)) :
    (Always (step fileInfos) Sound { paused := paused } as ∧
      Along (step fileInfos) (Restores fileInfos) { paused := paused } as) ↔
    Along (step fileInfos) TakesFiles { paused := paused } as := by
  have hinit : ({ paused := paused } : ManagedTorrent L).Sound := trivial
  have hsound : Always (step fileInfos) Sound { paused := paused } as ↔
      Along (step fileInfos) TakesFiles { paused := paused } as :=
    always_iff_along (fun _ _ _ h => sound_step_iff h) hinit as
  refine ⟨fun h => hsound.mp h.1, fun h => ⟨hsound.mpr h, ?_⟩⟩
  exact Along.mono_of_invariant (fun _ _ _ h hC hstep => (sound_step_iff h hstep).mpr hC)
    (fun _ _ h hC => restores_of_takesFiles h hC) hinit h

/-- The storage does not let go of the files when a torrent is paused that has just gone live. -/
theorem not_sound_pause : ¬ Always (step ChunkTracker.oneFile) Sound ({} : ManagedTorrent .onePiece)
      [.start true false (.ok ()), .checked 0 (.ok ChunkTracker.emptyTracker),
        .pause true (.error "cannot map memory")] :=
  not_always_of_run (by decide)

end ManagedTorrent

end Librtbit
