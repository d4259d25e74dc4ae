import Librtbit.Machinery.Run

/-!
# Storage/MoveCompleted — the files of completed torrents are moved

`move_completed_torrent` goes from file to file, without a look at what is at the destination.
`preserved_of_vacant`: as long as nothing is there, no data is lost, whichever calls fail and
whichever torrents are moved at the same time.
-/

namespace Librtbit.MoveCompleted

open Machinery Function

/-- How the move of one file ends: before the file is touched, by `rename`, or else by `copy` (which
writes `n` bytes and fails, or all of them) and `remove_file`. -/
inductive Outcome
  | refused
  | renamed
  | copyFails (n : ℕ)
  | removeFails
  | copied

/-- One round of the loop: a file of some torrent. -/
structure FileMove (P : Type) where
  src : P
  dst : P
  outcome : Outcome

/-- What each path holds. -/
abbrev Disk (P : Type) : Type := P → Option (List UInt8)

variable {P : Type} [DecidableEq P]

def step (d : Disk P) (m : FileMove P) : Option (Disk P) :=
  match m.outcome, d m.src with
  | .refused, _ => some d
  | _, none => none
  | .renamed, some data => some (update (update d m.src none) m.dst (some data))
  | .copyFails n, some data => some (copy d data n)
  | .removeFails, some data => some (copy d data data.length)
  | .copied, some data => some (update (copy d data data.length) m.src none)
where
  /-- The target is truncated first, and is empty if it is the file itself. -/
  copy (d : Disk P) (data : List UInt8) (n : ℕ) : Disk P :=
    update d m.dst (some (if m.src = m.dst then [] else data.take n))

/-- **Every file is where it was, or was moved from there and is at the destination.** -/
def Preserved (d : Disk P) (ms : List (FileMove P)) : Prop :=
  ∀ d', run step d ms = some d' → ∀ p data, d p = some data →
    d' p = some data ∨ ∃ m ∈ ms, m.src = p ∧ d' m.dst = some data

variable {d d' : Disk P} {m : FileMove P} {ms : List (FileMove P)}

/-- **The step lemma**: only the file that is moved leaves its place. -/
theorem of_step (hvacant : d m.dst = none) (hstep : step d m = some d') {p data}
    (hp : d p = some data) : d' p = some data ∨ m.src = p ∧ d' m.dst = some data := by
  have hne : p ≠ m.dst := by
    rintro rfl
    cases hvacant.symm.trans hp
  unfold step at hstep
  split at hstep <;> cases hstep
  · exact .inl hp
  all_goals
    simp only [step.copy, update_apply]
    grind

/-- **Nothing is lost** if each destination is vacant when its turn comes and no file is moved away
from one. -/
theorem preserved_of_vacant (hvacant : Along step (fun d m => d m.dst = none) d ms)
    (hsrc : ∀ m ∈ ms, ∀ m' ∈ ms, m'.src ≠ m.dst) : Preserved d ms := by
  intro d' hrun p data hp
  induction ms generalizing d p with
  | nil =>
    cases hrun
    exact .inl hp
  | cons m ms ih =>
    obtain ⟨d₁, hstep, hrest⟩ := Option.bind_eq_some_iff.mp hrun
    obtain ⟨hdst, hvacant⟩ := hvacant d₁ hstep
    have hkept {q} (hq : d₁ q = some data) := ih hvacant
      (fun a ha b hb => hsrc a (.tail _ ha) b (.tail _ hb)) hrest q hq
    rcases of_step hdst hstep hp with hp₁ | ⟨hm, hp₁⟩
    · exact (hkept hp₁).imp_right fun ⟨m', hm', h⟩ => ⟨m', .tail _ hm', h⟩
    · rcases hkept hp₁ with h | ⟨m', hm', hsame, -⟩
      · exact .inr ⟨m, .head _, hm, h⟩
      · exact absurd hsame (hsrc m (.head _) m' (.tail _ hm'))

/-- A file is renamed, and of another one a copy fails. -/
theorem preserved_two_files : Preserved (update (update (fun _ => none) 0 (some [1])) 1 (some [2]))
    [⟨0, 2, .renamed⟩, ⟨1, 3, .copyFails 0⟩] :=
  preserved_of_vacant (by simp [Along, step]) (by decide)

/-- Two torrents with a file of the same name. -/
theorem not_preserved_same_name :
    ¬ Preserved (update (update (fun _ => none) 0 (some [1])) 1 (some [2]))
      [⟨0, 2, .renamed⟩, ⟨1, 2, .renamed⟩] := by
  intro h
  exact absurd (h _ rfl 0 [1] rfl) (by decide)

end Librtbit.MoveCompleted
