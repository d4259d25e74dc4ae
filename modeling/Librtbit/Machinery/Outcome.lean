import Mathlib.Algebra.Order.Floor.Div

/-!
# Machinery/Outcome — calls that return, fail or abort

A call on machine integers ends in one of three ways: it returns a value, it returns an error of
its own, or an operation aborts it (a division by zero; an addition or subtraction that leaves its
type, with overflow checks on; an `unwrap` of an error; a slice that leaves its array).  A narrowing
cast never aborts: it keeps the low bits.
-/

namespace Machinery

/-- What can abort a call. -/
inductive Fault where
  | divisionByZero
  | overflow
  /-- `unwrap` of a value that is not there. -/
  | unwrap
  /-- A slice that leaves its array. -/
  | outOfBounds
  deriving DecidableEq

/-- How a call ends. -/
inductive Outcome (ε α : Type) where
  | ok (a : α)
  | err (e : ε)
  | abort (f : Fault)
  deriving DecidableEq

namespace Outcome

variable {ε α β : Type}

/-- Run the rest of a call on the value returned so far. -/
def bind (x : Outcome ε α) (k : α → Outcome ε β) : Outcome ε β :=
  match x with
  | ok a => k a
  | err e => err e
  | abort f => abort f

instance : Monad (Outcome ε) where
  pure := ok
  bind := bind

@[simp] lemma pure_eq (a : α) : (pure a : Outcome ε α) = ok a := rfl

@[simp] lemma ok_bind (a : α) (k : α → Outcome ε β) : (ok a >>= k) = k a := rfl

@[simp] lemma err_bind (e : ε) (k : α → Outcome ε β) : (err e >>= k) = err e := rfl

@[simp] lemma abort_bind (f : Fault) (k : α → Outcome ε β) : (abort f >>= k) = abort f := rfl

instance : LawfulMonad (Outcome ε) := LawfulMonad.mk' _
  (fun x => by cases x <;> rfl)
  (fun _ _ => rfl)
  (fun x _ _ => by cases x <;> rfl)

@[simp] lemma map_ok (f : α → β) (a : α) : f <$> (ok a : Outcome ε α) = ok (f a) := rfl

@[simp] lemma map_err (f : α → β) (e : ε) : f <$> (err e : Outcome ε α) = err e := rfl

@[simp] lemma map_abort (g : α → β) (f : Fault) : g <$> (abort f : Outcome ε α) = abort f := rfl

/-- `Result::unwrap`. -/
def unwrap {δ : Type} : Except δ α → Outcome ε α
  | .ok a => .ok a
  | .error _ => .abort .unwrap

/-- `Option::ok_or`, and `?`. -/
def okOr (e : ε) : Option α → Outcome ε α
  | some a => .ok a
  | none => .err e

/-- The call was not aborted. -/
def Returns (x : Outcome ε α) : Prop := ∀ f, x ≠ abort f

@[simp] lemma returns_ok (a : α) : (ok a : Outcome ε α).Returns := fun _ h => by cases h

@[simp] lemma returns_err (e : ε) : (err e : Outcome ε α).Returns := fun _ h => by cases h

@[simp] lemma not_returns_abort (f : Fault) : ¬ (abort f : Outcome ε α).Returns :=
  fun h => h f rfl

variable {k : α → Outcome ε β} {x : Outcome ε α}

/-- **A sequence returns a value exactly when both of its parts do.** -/
lemma bind_eq_ok {b} :
    (x >>= k) = ok b ↔ ∃ a, x = ok a ∧ k a = ok b := by
  cases x with
  | ok a | err e | abort f => simp

/-- **A sequence is not aborted exactly when neither of its parts is.** -/
lemma returns_bind :
    (x >>= k).Returns ↔ x.Returns ∧ ∀ a, x = ok a → (k a).Returns := by
  cases x with
  | ok a | err e | abort f => simp

end Outcome

/-! ## Machine integers as natural numbers -/

/-- The value a cast to `u32` keeps. -/
def asU32 (n : ℕ) : ℕ := n % 2 ^ 32

/-- The value `n` wraps to in 64 bits. -/
def asU64 (n : ℕ) : ℕ := n % 2 ^ 64

lemma asU32_of_lt {n} (h : n < 2 ^ 32) : asU32 n = n := Nat.mod_eq_of_lt h

lemma asU64_of_lt {n} (h : n < 2 ^ 64) : asU64 n = n := Nat.mod_eq_of_lt h

/-- `a - b`, wrapping in 64 bits. -/
def wrappingSub64 (a b : ℕ) : ℕ := asU64 (a + 2 ^ 64 - b)

/-- `a.div_ceil(b)`, which aborts on a zero divisor. -/
def divCeil {ε : Type} (a b : ℕ) : Outcome ε ℕ :=
  if b = 0 then .abort .divisionByZero else .ok (a ⌈/⌉ b)

/-- `a % b`, which aborts on a zero divisor. -/
def checkedRem {ε : Type} (a b : ℕ) : Outcome ε ℕ :=
  if b = 0 then .abort .divisionByZero else .ok (a % b)

/-- `a - b` with overflow checks on. -/
def checkedSub {ε : Type} (a b : ℕ) : Outcome ε ℕ :=
  if a < b then .abort .overflow else .ok (a - b)

/-- `a + b` on `u64`, with overflow checks on. -/
def checkedAdd64 {ε : Type} (a b : ℕ) : Outcome ε ℕ :=
  if a + b < 2 ^ 64 then .ok (a + b) else .abort .overflow

/-- `a + b` on `u32`, with overflow checks on. -/
def checkedAdd32 {ε : Type} (a b : ℕ) : Outcome ε ℕ :=
  if a + b < 2 ^ 32 then .ok (a + b) else .abort .overflow

/-- `a * b` on `u32`, with overflow checks on. -/
def checkedMul32 {ε : Type} (a b : ℕ) : Outcome ε ℕ :=
  if a * b < 2 ^ 32 then .ok (a * b) else .abort .overflow

/-- The sum of a list of `u64`, with overflow checks on. -/
def sumU64 {ε : Type} (ns : List ℕ) : Outcome ε ℕ := ns.foldlM checkedAdd64 0

/-- **The sum of a list overflows exactly when the sum does.** -/
lemma sumU64_eq {ε : Type} (ns : List ℕ) :
    (sumU64 ns : Outcome ε ℕ) = if ns.sum < 2 ^ 64 then .ok ns.sum else .abort .overflow := by
  have hfold : ∀ (ns : List ℕ) (acc : ℕ), acc < 2 ^ 64 →
      (ns.foldlM checkedAdd64 acc : Outcome ε ℕ)
        = if acc + ns.sum < 2 ^ 64 then .ok (acc + ns.sum) else .abort .overflow := by
    intro ns
    induction ns with
    | nil =>
      intro acc hacc
      rw [List.sum_nil, Nat.add_zero, if_pos hacc]
      rfl
    | cons n ns ih =>
      intro acc hacc
      rw [List.foldlM_cons, checkedAdd64, List.sum_cons, ← Nat.add_assoc]
      by_cases h : acc + n < 2 ^ 64
      · rw [if_pos h, Outcome.ok_bind, ih _ h]
      · rw [if_neg h, Outcome.abort_bind, if_neg (by omega)]
  rw [sumU64, hfold ns 0 (by decide), Nat.zero_add]

lemma lt_ceilDiv_iff_mul_lt {a b k} (hb : 0 < b) : k < a ⌈/⌉ b ↔ b * k < a := by
  rw [← not_le, ceilDiv_le_iff_le_mul hb, not_le]

lemma le_mul_ceilDiv {a b} (hb : 0 < b) : a ≤ b * (a ⌈/⌉ b) := le_smul_ceilDiv hb

/-- The number of parts, from between which multiples `a` lies. -/
lemma ceilDiv_eq_succ {a b k} (hlo : b * k < a) (hhi : a ≤ b * (k + 1)) :
    a ⌈/⌉ b = k + 1 := by
  have hb : 0 < b := by
    rcases Nat.eq_zero_or_pos b with rfl | hb
    · omega
    · exact hb
  exact le_antisymm ((ceilDiv_le_iff_le_mul hb).mpr hhi) ((lt_ceilDiv_iff_mul_lt hb).mpr hlo)

end Machinery
