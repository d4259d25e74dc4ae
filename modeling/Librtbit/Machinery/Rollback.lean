import Mathlib.Data.List.Basic

/-!
# Machinery/Rollback — steps that are taken back when one of them fails

`attempt` takes steps one after the other.  Each comes with the step that takes it back, and when
one fails, those of the steps before it are taken in reverse order, whatever becomes of them.  What
is reported is the error, and whether every step back succeeded.

`attempt_rule` is the rule for it: an invariant of the way forward, and one of the way back.
-/

namespace Machinery

variable {σ α ε : Type*} {apply : σ → α → σ × Except ε Unit}

/-- Takes the steps of a list, and goes on after one that fails; whether none did. -/
def rollback (apply : σ → α → σ × Except ε Unit) : σ → List α → σ × Bool
  | s, [] => (s, true)
  | s, b :: undo =>
    let next := apply s b
    let rest := rollback apply next.1 undo
    (rest.1, next.2.isOk && rest.2)

/-- Takes the first steps of the pairs until one fails, and then the second ones of those before it;
`undo` are the second ones of the steps already taken, the last one first. -/
def attempt (apply : σ → α → σ × Except ε Unit) :
    σ → (undo : List α) → List (α × α) → σ × Except ε Unit × Bool
  | s, _, [] => (s, .ok (), true)
  | s, undo, (a, b) :: rest =>
    match apply s a with
    | (s', .ok ()) => attempt apply s' (b :: undo) rest
    | (s', .error e) =>
      let back := rollback apply s' undo
      (back.1, .error e, back.2)

variable {K : σ → List α → Prop}

/-- **The rule for the way back**: what each step back that succeeds preserves. -/
lemma rollback_rule
    (hback : ∀ s b undo s', K s (b :: undo) → apply s b = (s', .ok ()) → K s' undo)
    {s undo} (hs : K s undo) (hok : (rollback apply s undo).2 = true) :
    K (rollback apply s undo).1 [] := by
  induction undo generalizing s with
  | nil => exact hs
  | cons b undo ih =>
    rw [rollback] at hok ⊢
    rw [Bool.and_eq_true] at hok
    have hstep : apply s b = ((apply s b).1, .ok ()) := by
      cases hresult : (apply s b).2 with
      | error e =>
        rw [hresult] at hok
        cases hok.1
      | ok _ => rw [← hresult]
    exact ih (hback s b undo _ hs hstep) hok.2

/-- **The rule for steps that are taken back**: `I` is what the steps preserve that succeed, with
the steps back collected so far and the steps to come, and `K` what holds from the failure on. -/
lemma attempt_rule {I : σ → List α → List (α × α) → Prop}
    (hstep : ∀ s undo a b rest s', I s undo ((a, b) :: rest) → apply s a = (s', .ok ()) →
      I s' (b :: undo) rest)
    (hfail : ∀ s undo a b rest s' e, I s undo ((a, b) :: rest) → apply s a = (s', .error e) →
      K s' undo)
    (hback : ∀ s b undo s', K s (b :: undo) → apply s b = (s', .ok ()) → K s' undo)
    {s undo steps} (hs : I s undo steps) :
    (∃ s' undo', attempt apply s undo steps = (s', .ok (), true) ∧ I s' undo' []) ∨
    (∃ s' e back, attempt apply s undo steps = (s', .error e, back) ∧ (back = true → K s' [])) := by
  induction steps generalizing s undo with
  | nil => exact Or.inl ⟨s, undo, rfl, hs⟩
  | cons pair rest ih =>
    obtain ⟨a, b⟩ := pair
    rw [attempt]
    rcases happly : apply s a with ⟨s', result⟩
    cases result with
    | ok _ => exact ih (hstep s undo a b rest s' hs happly)
    | error e =>
      refine Or.inr ⟨_, e, _, rfl, fun hok => ?_⟩
      exact rollback_rule hback (hfail s undo a b rest s' e hs happly) hok

end Machinery
