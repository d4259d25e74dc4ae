import Mathlib.Data.List.Basic

/-!
# Machinery/Parser — parsers over a state that holds the input

A parser is a program in `EStateM` whose state holds the input still to be read (`Cursor`), beside
anything else it keeps.  Three things are said of one:

* `Reads p w a` — it reads the string `w` as `a`, whatever follows `w`;
* `Stable p` — what it reads, it reads as well when there is more input behind it;
* `Consumes p` — when it succeeds it has read something (`Shrinks p`: nothing is given back).

and of two that what `p` reads, `q` reads as something related to it (`Covers R p q`), or that they
do the same on inputs up to some length (`AgreeUpTo bound p q`).  Each has a rule for a sequence, a
rule for a look at the next symbol (`peek`) and a rule for `loop`, which repeats a body until it
says it is done.  The loop is bounded; a body that consumes never reaches the
bound (`loop_eq_of_lt`).
-/

namespace Machinery

open List

/-- A state that holds the input still to be read. -/
class Cursor (σ : Type) (τ : outParam Type) where
  input : σ → List τ

open Cursor

variable {σ τ ε α β : Type} [Cursor σ τ]

/-- **The parser reads `w` as `a`**, whatever follows it. -/
def Reads (p : EStateM ε σ α) (w : List τ) (a : α) : Prop :=
  ∀ s rest, input s = w ++ rest → ∃ s', p.run s = .ok a s' ∧ input s' = rest

/-- **What is read, is read as well with more input behind it.** -/
def Stable (p : EStateM ε σ α) : Prop :=
  ∀ s t more a s', input t = input s ++ more → p.run s = .ok a s' →
    ∃ t', p.run t = .ok a t' ∧ input t' = input s' ++ more

/-- **A success reads something.** -/
def Consumes (p : EStateM ε σ α) : Prop :=
  ∀ s a s', p.run s = .ok a s' → (input s').length < (input s).length

/-- A success gives nothing back. -/
def Shrinks (p : EStateM ε σ α) : Prop :=
  ∀ s a s', p.run s = .ok a s' → (input s').length ≤ (input s).length

/-- The two do the same on inputs up to a length. -/
def AgreeUpTo (bound : ℕ) (p q : EStateM ε σ α) : Prop :=
  ∀ s, (input s).length ≤ bound → p.run s = q.run s

/-- The next symbol, which stays where it is. -/
def peek : EStateM ε σ (Option τ) := do return (input (← get)).head?

lemma run_peek_bind (f : Option τ → EStateM ε σ α) (s : σ) :
    (peek >>= f).run s = (f (input s).head?).run s := rfl

/-! ## Sequences -/

section Sequence

variable {p : EStateM ε σ α} {f : α → EStateM ε σ β} {w w' : List τ} {a : α} {b : β}

lemma run_bind_eq_ok {s s''} (h : (p >>= f).run s = .ok b s'') :
    ∃ a s', p.run s = .ok a s' ∧ (f a).run s' = .ok b s'' := by
  rw [EStateM.run_bind] at h
  cases hp : p.run s with
  | ok a s' =>
    rw [hp] at h
    exact ⟨a, s', rfl, h⟩
  | error e s' =>
    rw [hp] at h
    cases h

lemma run_bind_of_ok {s s'} (h : p.run s = .ok a s') : (p >>= f).run s = (f a).run s' := by
  rw [EStateM.run_bind, h]

lemma Reads.pure (a : α) : Reads (Pure.pure a : EStateM ε σ α) ([] : List τ) a :=
  fun s _ h => ⟨s, rfl, h⟩

lemma Reads.bind (hp : Reads p w a) (hf : Reads (f a) w' b) : Reads (p >>= f) (w ++ w') b := by
  intro s rest h
  obtain ⟨s', hs', hrest⟩ := hp s (w' ++ rest) (by rw [h, append_assoc])
  obtain ⟨s'', hs'', hdone⟩ := hf s' rest hrest
  exact ⟨s'', by rw [run_bind_of_ok hs', hs''], hdone⟩

/-- A sequence whose second part reads nothing. -/
lemma Reads.bind_nil (hp : Reads p w a) (hf : Reads (f a) ([] : List τ) b) :
    Reads (p >>= f) w b := by
  have h := hp.bind hf
  rwa [append_nil] at h

lemma Stable.pure (a : α) : Stable (Pure.pure a : EStateM ε σ α) := by
  intro s t more b s' ht h
  cases h
  exact ⟨t, rfl, ht⟩

lemma Stable.throw (e : ε) : Stable (throw e : EStateM ε σ α) := by
  intro s t more b s' _ h
  cases h

variable {g : σ → σ}

lemma Reads.modify (hg : ∀ s, input (g s) = input s) :
    Reads (modify g : EStateM ε σ PUnit) ([] : List τ) () :=
  fun s _ h => ⟨g s, rfl, (hg s).trans h⟩

lemma Stable.modify (hg : ∀ s, input (g s) = input s) :
    Stable (modify g : EStateM ε σ PUnit) := by
  intro s t more b s' ht h
  cases h
  exact ⟨g t, rfl, by rw [hg, hg, ht]⟩

lemma Stable.bind (hp : Stable p) (hf : ∀ a, Stable (f a)) : Stable (p >>= f) := by
  intro s t more b s'' ht h
  obtain ⟨a, s', hs', hs''⟩ := run_bind_eq_ok h
  obtain ⟨t', ht', hinput⟩ := hp s t more a s' ht hs'
  obtain ⟨t'', ht'', hdone⟩ := hf a s' t' more b s'' hinput hs''
  exact ⟨t'', by rw [run_bind_of_ok ht', ht''], hdone⟩

lemma Consumes.ne_ok (hp : Consumes p) {s s'} (hs : input s = []) : p.run s ≠ .ok a s' := by
  intro h
  have := hp s a s' h
  rw [hs] at this
  exact Nat.not_lt_zero _ this

lemma Consumes.throw (e : ε) : Consumes (throw e : EStateM ε σ α) := by
  intro s a s' h
  cases h

lemma Consumes.shrinks (hp : Consumes p) : Shrinks p :=
  fun s a s' h => Nat.le_of_lt (hp s a s' h)

lemma Shrinks.pure (a : α) : Shrinks (Pure.pure a : EStateM ε σ α) := by
  intro s b s' h
  cases h
  exact Nat.le.refl

lemma Shrinks.modify (hg : ∀ s, input (g s) = input s) :
    Shrinks (modify g : EStateM ε σ PUnit) := by
  intro s b s' h
  cases h
  exact Nat.le_of_eq (congrArg List.length (hg s))

lemma Shrinks.bind (hp : Shrinks p) (hf : ∀ a, Shrinks (f a)) : Shrinks (p >>= f) := by
  intro s b s'' h
  obtain ⟨a, s', hs', hs''⟩ := run_bind_eq_ok h
  exact Nat.le_trans (hf a s' b s'' hs'') (hp s a s' hs')

/-- A sequence consumes when its first part does… -/
lemma Consumes.bind (hp : Consumes p) (hf : ∀ a, Shrinks (f a)) : Consumes (p >>= f) := by
  intro s b s'' h
  obtain ⟨a, s', hs', hs''⟩ := run_bind_eq_ok h
  exact Nat.lt_of_le_of_lt (hf a s' b s'' hs'') (hp s a s' hs')

/-- …or when its second part does. -/
lemma Consumes.bind_right (hp : Shrinks p) (hf : ∀ a, Consumes (f a)) : Consumes (p >>= f) := by
  intro s b s'' h
  obtain ⟨a, s', hs', hs''⟩ := run_bind_eq_ok h
  exact Nat.lt_of_lt_of_le (hf a s' b s'' hs'') (hp s a s' hs')

variable {bound : ℕ}

lemma AgreeUpTo.rfl : AgreeUpTo bound p p := fun _ _ => Eq.refl _

variable {f' : α → EStateM ε σ β}

lemma AgreeUpTo.bind {p'}
    (hp : AgreeUpTo bound p p') (hshrinks : Shrinks p) (hf : ∀ a, AgreeUpTo bound (f a) (f' a)) :
    AgreeUpTo bound (p >>= f) (p' >>= f') := by
  intro s hs
  rw [EStateM.run_bind, EStateM.run_bind, ← hp s hs]
  cases h : p.run s with
  | error e s' => exact Eq.refl _
  | ok a s' => exact hf a s' (Nat.le_trans (hshrinks s a s' h) hs)

/-- Behind a part that reads something, less is left to agree on. -/
lemma AgreeUpTo.bind_consumes (hp : Consumes p)
    (hf : ∀ a, AgreeUpTo bound (f a) (f' a)) : AgreeUpTo (bound + 1) (p >>= f) (p >>= f') := by
  intro s hs
  rw [EStateM.run_bind, EStateM.run_bind]
  cases h : p.run s with
  | error e s' => exact Eq.refl _
  | ok a s' => exact hf a s' (Nat.le_of_lt_succ (Nat.lt_of_lt_of_le (hp s a s' h) hs))

end Sequence

/-! ## The next symbol -/

section Peek

variable {f : Option τ → EStateM ε σ α} {w : List τ} {c : τ} {a : α}

lemma Reads.peek (h : Reads (f (some c)) (c :: w) a) :
    Reads (Machinery.peek >>= f) (c :: w) a := by
  intro s rest hs
  rw [run_peek_bind, hs]
  exact h s rest hs

lemma Stable.peek (hnil : ∀ s a s', input s = [] → (f none).run s ≠ .ok a s')
    (h : ∀ c, Stable (f (some c))) : Stable (Machinery.peek >>= f) := by
  intro s t more a s' ht hs
  rw [run_peek_bind] at hs
  cases hinput : input s with
  | nil =>
    rw [hinput] at hs
    exact absurd hs (hnil s a s' hinput)
  | cons c w =>
    rw [hinput] at hs
    rw [run_peek_bind, ht, hinput]
    exact h c s t more a s' ht hs

lemma Consumes.peek (h : ∀ c, Consumes (f c)) : Consumes (Machinery.peek >>= f) :=
  fun s a s' hs => h _ s a s' hs

end Peek

/-! ## Loops -/

/-- Repeat `body` until it says it is done, at most `fuel` times. -/
def loop (stuck : ε) (body : β → EStateM ε σ (Option β)) : (fuel : ℕ) → β → EStateM ε σ β
  | 0, _ => throw stuck
  | fuel + 1, acc => do
    match ← body acc with
    | none => return acc
    | some acc => loop stuck body fuel acc

/-- Repeat `body` until it says it is done; each round reads something. -/
def loopAll (stuck : ε) (body : β → EStateM ε σ (Option β)) (acc : β) : EStateM ε σ β := do
  loop stuck body ((input (← get)).length + 1) acc

section Loop

variable {stuck : ε} {body body' : β → EStateM ε σ (Option β)} {acc acc' b : β} {w w' : List τ}
  {n m : ℕ} {s s' : σ}

lemma run_loopAll (stuck : ε) (body : β → EStateM ε σ (Option β)) (acc : β) (s : σ) :
    (loopAll stuck body acc).run s = (loop stuck body ((input s).length + 1) acc).run s := rfl

lemma run_loop_succ (stuck : ε) (body : β → EStateM ε σ (Option β)) (n : ℕ) (acc : β) (s : σ) :
    (loop stuck body (n + 1) acc).run s =
      match (body acc).run s with
      | .ok none s' => .ok acc s'
      | .ok (some acc') s' => (loop stuck body n acc').run s'
      | .error e s' => .error e s' := by
  rw [loop, EStateM.run_bind]
  cases (body acc).run s with
  | error e s' => rfl
  | ok x s' => cases x <;> rfl

/-- A loop reads `w` as `b`, as soon as its bound allows for it. -/
def ReadsLoop (stuck : ε) (body : β → EStateM ε σ (Option β)) (acc : β) (w : List τ) (b : β) :
    Prop :=
  ∀ n, w.length < n → Reads (loop stuck body n acc) w b

lemma ReadsLoop.done (h : Reads (body acc) w none) : ReadsLoop stuck body acc w acc := by
  intro n hn s rest hs
  obtain ⟨s', hs', hrest⟩ := h s rest hs
  obtain ⟨n, rfl⟩ : ∃ k, n = k + 1 := ⟨n - 1, by omega⟩
  exact ⟨s', by rw [run_loop_succ, hs'], hrest⟩

lemma ReadsLoop.step (hw : w ≠ []) (h : Reads (body acc) w (some acc'))
    (h' : ReadsLoop stuck body acc' w' b) : ReadsLoop stuck body acc (w ++ w') b := by
  intro n hn s rest hs
  have hlen := length_pos_iff.mpr hw
  rw [length_append] at hn
  obtain ⟨n, rfl⟩ : ∃ k, n = k + 1 := ⟨n - 1, by omega⟩
  obtain ⟨s', hs', hrest⟩ := h s (w' ++ rest) (by rw [hs, append_assoc])
  obtain ⟨s'', hs'', hdone⟩ := h' n (by omega) s' rest hrest
  refine ⟨s'', ?_, hdone⟩
  rw [run_loop_succ, hs']
  exact hs''

lemma ReadsLoop.reads (h : ReadsLoop stuck body acc w b) : Reads (loopAll stuck body acc) w b := by
  intro s rest hs
  refine h _ ?_ s rest hs
  rw [hs, length_append]
  omega

lemma Stable.loop (hbody : ∀ acc, Stable (body acc)) (n : ℕ) (acc : β) :
    Stable (loop stuck body n acc) := by
  induction n generalizing acc with
  | zero => exact Stable.throw stuck
  | succ n ih =>
    refine Stable.bind (hbody acc) fun x => ?_
    cases x with
    | none => exact Stable.pure acc
    | some acc' => exact ih acc'

lemma Shrinks.loop (hbody : ∀ acc, Shrinks (body acc)) (n : ℕ) (acc : β) :
    Shrinks (loop stuck body n acc) := by
  induction n generalizing acc with
  | zero =>
    intro s b s' h
    cases h
  | succ n ih =>
    refine Shrinks.bind (hbody acc) fun x => ?_
    cases x with
    | none => exact Shrinks.pure acc
    | some acc' => exact ih acc'

lemma Shrinks.loopAll (hbody : ∀ acc, Shrinks (body acc)) (acc : β) :
    Shrinks (loopAll stuck body acc) :=
  fun s => Shrinks.loop hbody _ acc s

/-- **The bound is never reached** by a body that reads something in each round. -/
lemma loop_eq_of_lt (hbody : ∀ acc, Consumes (body acc)) (hn : (input s).length < n)
    (hm : (input s).length < m) :
    (loop stuck body n acc).run s = (loop stuck body m acc).run s := by
  induction n generalizing m acc s with
  | zero => omega
  | succ n ih =>
    obtain ⟨m, rfl⟩ : ∃ k, m = k + 1 := ⟨m - 1, by omega⟩
    rw [run_loop_succ, run_loop_succ]
    split
    · rfl
    · rename_i hsome
      have hlt := hbody _ _ _ _ hsome
      exact ih (by omega) (by omega)
    · rfl

lemma Stable.loopAll (hbody : ∀ acc, Stable (body acc)) (hconsumes : ∀ acc, Consumes (body acc))
    (acc : β) : Stable (loopAll stuck body acc) := by
  intro s t more b s' ht hs
  have hlen : (input s).length < (input t).length + 1 := by
    rw [ht, length_append]
    omega
  -- with the bound of the longer input, which is not reached either
  rw [run_loopAll, loop_eq_of_lt hconsumes (Nat.lt_succ_self _) hlen] at hs
  exact Stable.loop hbody _ acc s t more b s' ht hs

/-- **A loop is its first round and the rest of it.** -/
lemma loopAll_eq (hbody : ∀ acc, Consumes (body acc)) (acc : β) :
    loopAll stuck body acc = body acc >>= fun x =>
      match x with
      | none => pure acc
      | some acc' => loopAll stuck body acc' := by
  funext s
  show (loop stuck body ((input s).length + 1) acc).run s = EStateM.run (body acc >>= _) s
  rw [run_loop_succ, EStateM.run_bind]
  cases h : (body acc).run s with
  | error e s' => rfl
  | ok x s' =>
    cases x with
    | none => rfl
    | some acc' =>
      exact loop_eq_of_lt hbody (hbody acc s _ s' h) (Nat.lt_succ_self _)

variable (hbody : ∀ acc, Shrinks (body acc))
include hbody

lemma AgreeUpTo.loop {bound}
    (h : ∀ acc, AgreeUpTo bound (body acc) (body' acc)) (n : ℕ) (acc : β) :
    AgreeUpTo bound (loop stuck body n acc) (loop stuck body' n acc) := by
  induction n generalizing acc with
  | zero => exact AgreeUpTo.rfl
  | succ n ih =>
    refine AgreeUpTo.bind (h acc) (hbody acc) fun x => ?_
    cases x with
    | none => exact AgreeUpTo.rfl
    | some acc' => exact ih acc'

lemma AgreeUpTo.loopAll {bound} (h : ∀ acc, AgreeUpTo bound (body acc) (body' acc)) (acc : β) :
    AgreeUpTo bound (loopAll stuck body acc) (loopAll stuck body' acc) :=
  fun s hs => AgreeUpTo.loop hbody h _ acc s hs

end Loop

/-! ## One parser in place of another -/

/-- **What `p` reads, `q` reads as well**, as something that `R` relates to it. -/
def Covers (R : α → β → Prop) (p : EStateM ε σ α) (q : EStateM ε σ β) : Prop :=
  ∀ s t a s', input t = input s → p.run s = .ok a s' →
    ∃ b t', q.run t = .ok b t' ∧ input t' = input s' ∧ R a b

section Covers

variable {γ δ : Type} {R : α → β → Prop} {S : γ → δ → Prop} {p : EStateM ε σ α} {q : EStateM ε σ β}

/-- A parser that does not look at what is behind its input looks at nothing else either. -/
lemma Stable.covers (h : Stable p) : Covers (fun a b => a = b) p p := by
  intro s t a s' ht hs
  obtain ⟨t', ht', hinput⟩ := h s t [] a s' (by rw [ht, append_nil]) hs
  exact ⟨a, t', ht', by rw [hinput, append_nil], rfl⟩

lemma Covers.mono {R' : α → β → Prop} (h : Covers R p q) (hR : ∀ a b, R a b → R' a b) :
    Covers R' p q := by
  intro s t a s' ht hs
  obtain ⟨b, t', ht', hinput, hab⟩ := h s t a s' ht hs
  exact ⟨b, t', ht', hinput, hR a b hab⟩

variable {a : α}

lemma Covers.pure {b} (h : R a b) :
    Covers R (Pure.pure a : EStateM ε σ α) (Pure.pure b) := by
  intro s t a' s' ht hs
  cases hs
  exact ⟨b, t, rfl, ht, h⟩

lemma Covers.throw (e : ε) : Covers R (throw e) q := by
  intro s t a s' _ hs
  cases hs

variable {f : α → EStateM ε σ γ} (hp : Covers R p q)
include hp

lemma Covers.bind {g}
    (hf : ∀ a b, R a b → Covers S (f a) (g b)) : Covers S (p >>= f) (q >>= g) := by
  intro s t c s'' ht hs
  obtain ⟨a, s', hs', hs''⟩ := run_bind_eq_ok hs
  obtain ⟨b, t', ht', hinput, hab⟩ := hp s t a s' ht hs'
  obtain ⟨d, t'', ht'', hdone, hcd⟩ := hf a b hab s' t' c s'' hinput hs''
  exact ⟨d, t'', by rw [run_bind_of_ok ht', ht''], hdone, hcd⟩

lemma Covers.map {g : β → δ} {T : α → δ → Prop}
    (hT : ∀ a b, R a b → T a (g b)) : Covers T p (q >>= fun b => Pure.pure (g b)) := by
  rw [← bind_pure p]
  exact hp.bind fun a b hab => Covers.pure (hT a b hab)

/-- What `p` does behind its input without reading more. -/
lemma Covers.bind_left {T : γ → β → Prop}
    (hf : ∀ a b, R a b → Covers T (f a) (Pure.pure b)) : Covers T (p >>= f) q := by
  rw [← bind_pure q]
  exact hp.bind hf

omit hp

lemma Covers.modify {g} (hg : ∀ s, input (g s) = input s) :
    Covers (fun _ _ => True) (modify g : EStateM ε σ PUnit) (modify g) :=
  (Stable.modify hg).covers.mono fun _ _ _ => trivial

/-- A parser that looks at the next symbol covers one that reads such a symbol first. -/
lemma Covers.peek {P : τ → Prop} {f}
    (hfirst : ∀ s a s', p.run s = .ok a s' → ∃ c rest, input s = c :: rest ∧ P c)
    (h : ∀ c, P c → Covers R p (f (some c))) : Covers R p (Machinery.peek >>= f) := by
  intro s t a s' ht hs
  obtain ⟨c, rest, hinput, hc⟩ := hfirst s a s' hs
  rw [run_peek_bind, ht, hinput]
  exact h c hc s t a s' ht hs

variable {body' : β → EStateM ε σ (Option β)} {body : α → EStateM ε σ (Option α)}

variable (hbody : ∀ a b, R a b → Covers (Option.Rel R) (body a) (body' b))
include hbody

lemma Covers.loop {stuck} (n : ℕ) {b}
    (hab : R a b) : Covers R (loop stuck body n a) (loop stuck body' n b) := by
  induction n generalizing a b with
  | zero => exact Covers.throw stuck
  | succ n ih =>
    refine Covers.bind (hbody a b hab) fun x y hxy => ?_
    cases hxy with
    | none => exact Covers.pure hab
    | some hxy => exact ih hxy

lemma Covers.loopAll {stuck} {b}
    (hab : R a b) : Covers R (loopAll stuck body a) (loopAll stuck body' b) := by
  intro s t c s' ht hs
  rw [run_loopAll, ht]
  exact Covers.loop hbody _ hab s t c s' ht hs

omit hbody

/-- **A parser that returns nothing** reads all that the parsers read which it covers. -/
lemma Covers.reads {q w}
    (h : Covers (fun _ _ => True) p q) (hp : Reads p w a) : Reads q w () := by
  intro s rest hs
  obtain ⟨s', hs', hrest⟩ := hp s rest hs
  obtain ⟨_, t', ht', hinput, -⟩ := h s s a s' rfl hs'
  exact ⟨t', ht', hinput.trans hrest⟩

end Covers

end Machinery
