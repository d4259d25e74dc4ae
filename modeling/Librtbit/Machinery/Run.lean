import Mathlib.Data.List.Basic

/-!
# Machinery/Run — runs of a deterministic labelled system

A system is a partial function `step : σ → α → Option σ`: a label resolves every choice, and `none`
says the label is not enabled.  A run is a list of labels; it stops where a label is not enabled.

* `Always P s as` — every state the run `as` passes through from `s` satisfies `P`, both ends
  included.
* `Along C s as` — every step the run takes meets `C`, a condition on the state *before* the step.
* `Moves R s as` — every step the run takes is in `R`, a relation between the state before, the
  label and the state after.

`always_of_along` derives the first from the second through an invariant; `always_iff_along` says
that the second is exact when `C` tells, of each step out of a good state, whether it lands in one
(`always_iff_along_of_invariant`: out of a good state in which an invariant holds).
-/

namespace Machinery

variable {σ α : Type*} {step : σ → α → Option σ} {P I : σ → Prop} {C : σ → α → Prop} {as : List α}

/-- The state a run ends in, if every label is enabled when its turn comes. -/
def run (step : σ → α → Option σ) : σ → List α → Option σ
  | s, [] => some s
  | s, a :: as => (step s a).bind fun s' => run step s' as

/-- `P` holds in every state the run passes through. -/
def Always (step : σ → α → Option σ) (P : σ → Prop) : σ → List α → Prop
  | s, [] => P s
  | s, a :: as => P s ∧ ∀ s', step s a = some s' → Always step P s' as

/-- Every step the run takes meets `C` in the state it is taken from. -/
def Along (step : σ → α → Option σ) (C : σ → α → Prop) : σ → List α → Prop
  | _, [] => True
  | s, a :: as => ∀ s', step s a = some s' → C s a ∧ Along step C s' as

variable {s : σ}

lemma along_cons_of_eq_some {s' a} (h : step s a = some s') :
    Along step C s (a :: as) ↔ C s a ∧ Along step C s' as := by
  refine ⟨fun hrun => hrun s' h, fun hrun t ht => ?_⟩
  cases h.symm.trans ht
  exact hrun

lemma along_cons_of_eq_none {a} (h : step s a = none) : Along step C s (a :: as) := by
  intro s' hs'
  rw [h] at hs'
  cases hs'

/-- Every step the run takes is in `R`. -/
def Moves (step : σ → α → Option σ) (R : σ → α → σ → Prop) : σ → List α → Prop
  | _, [] => True
  | s, a :: as => ∀ s', step s a = some s' → R s a s' ∧ Moves step R s' as

/-- Whether the steps of a run meet a decidable condition can be computed. -/
instance decidableAlong [∀ s a, Decidable (C s a)] :
    (s : σ) → (as : List α) → Decidable (Along step C s as)
  | _, [] => .isTrue trivial
  | s, a :: as =>
    match h : step s a with
    | none => .isTrue (along_cons_of_eq_none h)
    | some s' =>
      have := decidableAlong s' as
      decidable_of_iff (C s a ∧ Along step C s' as) (along_cons_of_eq_some h).symm

/-- The first state of a run is one it passes through. -/
lemma Always.head (h : Always step P s as) : P s := by
  cases as with
  | nil => exact h
  | cons a as => exact h.1

/-- **The state a run ends in is one it passes through.** -/
lemma Always.last {s'} (h : Always step P s as) (hr : run step s as = some s') : P s' := by
  induction as generalizing s with
  | nil =>
    cases hr
    exact h
  | cons a as ih =>
    obtain ⟨t, ht, hrest⟩ := Option.bind_eq_some_iff.mp hr
    exact ih (h.2 t ht) hrest

/-- A run that ends outside `P` does not stay in it. -/
lemma not_always_of_run [DecidablePred P]
    (h : (run step s as).any (fun s' => !decide (P s'))) : ¬ Always step P s as := by
  intro hP
  cases hs : run step s as with
  | none => simp [hs] at h
  | some s' =>
    have hPs : P s' := hP.last hs
    simp [hs, hPs] at h

/-- **The invariant rule**: an invariant that each step meeting `C` preserves holds in every state
of a run whose steps all meet `C`. -/
lemma always_of_along (hstep : ∀ s a s', I s → C s a → step s a = some s' → I s')
    (hs : I s) (h : Along step C s as) : Always step I s as := by
  induction as generalizing s with
  | nil => exact hs
  | cons a as ih =>
    refine ⟨hs, fun s' hs' => ?_⟩
    obtain ⟨hC, hrest⟩ := h s' hs'
    exact ih (hstep s a s' hs hC hs') hrest

variable {R : σ → α → σ → Prop}

/-- **The rule for steps**: what every step out of a state of an invariant does, every step of the
run does. -/
lemma moves_of_along (hstep : ∀ s a s', I s → C s a → step s a = some s' → I s' ∧ R s a s')
    (hs : I s) (h : Along step C s as) : Moves step R s as := by
  induction as generalizing s with
  | nil => trivial
  | cons a as ih =>
    intro s' hs'
    obtain ⟨hC, hrest⟩ := h s' hs'
    obtain ⟨hI, hR⟩ := hstep s a s' hs hC hs'
    exact ⟨hR, ih hI hrest⟩

/-- A run whose last step is not in `R`, which a test on the two states shows. -/
lemma not_moves_of_run (bad : σ → σ → Bool) {a} (hbad : ∀ s s', bad s s' → ¬ R s a s')
    (h : ((run step s as).any fun s' => (step s' a).any (bad s'))) :
    ¬ Moves step R s (as ++ [a]) := by
  induction as generalizing s with
  | nil =>
    have hany : (step s a).any (bad s) := h
    obtain ⟨s', hs', hbad'⟩ := (Option.any_eq_true _ _).mp hany
    exact fun hmoves => hbad s s' hbad' (hmoves s' hs').1
  | cons b as ih =>
    obtain ⟨s', hs', hbad'⟩ := (Option.any_eq_true _ _).mp h
    obtain ⟨t, ht, hrest⟩ := Option.bind_eq_some_iff.mp hs'
    exact fun hmoves => ih ((Option.any_eq_true _ _).mpr ⟨s', hrest, hbad'⟩) (hmoves t ht).2

variable {D : σ → α → Prop}

lemma Along.mono_of_invariant
    (hstep : ∀ s a s', I s → C s a → step s a = some s' → I s') (hCD : ∀ s a, I s → C s a → D s a)
    (hs : I s) (h : Along step C s as) : Along step D s as := by
  induction as generalizing s with
  | nil => trivial
  | cons a as ih =>
    intro s' hs'
    obtain ⟨hC, hrest⟩ := h s' hs'
    exact ⟨hCD s a hs hC, ih (hstep s a s' hs hC hs') hrest⟩

lemma along_congr (h : ∀ s a s', step s a = some s' → (C s a ↔ D s a))
    (s : σ) (as : List α) : Along step C s as ↔ Along step D s as := by
  induction as generalizing s with
  | nil => exact Iff.rfl
  | cons a as ih =>
    exact forall_congr' fun s' => forall_congr' fun hs' => and_congr (h s a s' hs') (ih s')

lemma along_and (s : σ) (as : List α) :
    Along step (fun s a => C s a ∧ D s a) s as ↔ Along step C s as ∧ Along step D s as := by
  induction as generalizing s with
  | nil => exact ⟨fun _ => ⟨trivial, trivial⟩, fun _ => trivial⟩
  | cons a as ih =>
    constructor
    · intro h
      refine ⟨fun s' hs' => ?_, fun s' hs' => ?_⟩
      · obtain ⟨hCD, hrest⟩ := h s' hs'
        exact ⟨hCD.1, ((ih s').mp hrest).1⟩
      · obtain ⟨hCD, hrest⟩ := h s' hs'
        exact ⟨hCD.2, ((ih s').mp hrest).2⟩
    · rintro ⟨hC, hD⟩ s' hs'
      exact ⟨⟨(hC s' hs').1, (hD s' hs').1⟩, (ih s').mpr ⟨(hC s' hs').2, (hD s' hs').2⟩⟩

lemma along_true (s : σ) (as : List α) : Along step (fun _ _ => True) s as := by
  induction as generalizing s with
  | nil => trivial
  | cons a as ih => exact fun s' _ => ⟨trivial, ih s'⟩

/-- **An invariant that every step preserves holds along every run.** -/
lemma always_of_step (hstep : ∀ s a s', I s → step s a = some s' → I s') (hs : I s)
    (as : List α) : Always step I s as := by
  induction as generalizing s with
  | nil => exact hs
  | cons a as ih => exact ⟨hs, fun s' hs' => ih (hstep s a s' hs hs')⟩

/-- **Labels that are always enabled make a run that does not stop**, in every state of which the
invariant holds. -/
lemma exists_run_of_step (hstep : ∀ s a, I s → ∃ s', step s a = some s' ∧ I s') (hs : I s)
    (as : List α) : ∃ s', run step s as = some s' ∧ I s' := by
  induction as generalizing s with
  | nil => exact ⟨s, rfl, hs⟩
  | cons a as ih =>
    obtain ⟨s', hs', hI⟩ := hstep s a hs
    obtain ⟨s'', hrun, hI'⟩ := ih hI
    exact ⟨s'', by rw [run, hs', Option.bind_some, hrun], hI'⟩

/-- A weaker predicate holds wherever a stronger one does. -/
lemma Always.mono (hPI : ∀ s, I s → P s) (h : Always step I s as) : Always step P s as := by
  induction as generalizing s with
  | nil => exact hPI s h
  | cons a as ih => exact ⟨hPI s h.1, fun s' hs' => ih (h.2 s' hs')⟩

/-- **The exact rule under a side condition**: in a run whose steps all meet `D`, it is enough that
`C` decides this for steps that meet `D`, and that these preserve an invariant. -/
lemma always_iff_along_of_along
    (hstep : ∀ s a s', I s → P s → D s a → step s a = some s' → I s' ∧ (P s' ↔ C s a))
    (hs : I s) (hP : P s) (hD : Along step D s as) :
    Always step P s as ↔ Along step C s as := by
  induction as generalizing s with
  | nil => exact ⟨fun _ => trivial, fun _ => hP⟩
  | cons a as ih =>
    constructor
    · rintro ⟨-, hrest⟩ s' hs'
      obtain ⟨hDa, hDrest⟩ := hD s' hs'
      obtain ⟨hI', hiff⟩ := hstep s a s' hs hP hDa hs'
      have hP' : P s' := (hrest s' hs').head
      exact ⟨hiff.mp hP', (ih hI' hP' hDrest).mp (hrest s' hs')⟩
    · refine fun h => ⟨hP, fun s' hs' => ?_⟩
      obtain ⟨hDa, hDrest⟩ := hD s' hs'
      obtain ⟨hC, hrest⟩ := h s' hs'
      obtain ⟨hI', hiff⟩ := hstep s a s' hs hP hDa hs'
      exact (ih hI' (hiff.mpr hC) hDrest).mpr hrest

/-- **The exact rule under an invariant**: it is enough that `C` decides this in the states of an
invariant that every step preserves. -/
lemma always_iff_along_of_invariant (hI : ∀ s a s', I s → step s a = some s' → I s')
    (hstep : ∀ s a s', I s → P s → step s a = some s' → (P s' ↔ C s a))
    (hs : I s) (hP : P s) (as : List α) : Always step P s as ↔ Along step C s as := by
  refine always_iff_along_of_along (D := fun _ _ => True) (fun s a s' hs hP _ hs' => ?_) hs hP
    (along_true s as)
  exact ⟨hI s a s' hs hs', hstep s a s' hs hP hs'⟩

/-- **The exact rule**: when `C` decides, of each step out of a `P`-state, whether it lands in a
`P`-state, a run stays in `P` exactly when all its steps meet `C`. -/
lemma always_iff_along (hstep : ∀ s a s', P s → step s a = some s' → (P s' ↔ C s a))
    (hs : P s) (as : List α) : Always step P s as ↔ Along step C s as :=
  always_iff_along_of_invariant (I := fun _ => True) (fun _ _ _ _ _ => trivial)
    (fun s a s' _ hP hs' => hstep s a s' hP hs') trivial hs as

end Machinery
