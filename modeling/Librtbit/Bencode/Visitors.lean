import Librtbit.Bencode.Deserializer

/-!
# Bencode/Visitors — lists, dictionaries and values of any kind

What a visitor's loop over a list or a dictionary reads, and what `deserialize_any` makes of
whatever value there is.  `deserializeAny_eq_of_lt` says that the bound on the nesting is never
felt.
-/

namespace Librtbit.Bencode

open Machinery AgreeUpTo Bencode.BencodeDeserializer Shrinks List

variable {T K V S : Type} {w : ByteBuf}

/-- The first byte of a value, which is not the end of what it is in. -/
def StartsValue (w : ByteBuf) : Prop := ∃ c rest, w = c :: rest ∧ c ≠ 'e'.toUInt8

lemma StartsValue.append (h : StartsValue w) (more : ByteBuf) : StartsValue (w ++ more) := by
  obtain ⟨c, rest, rfl, hc⟩ := h
  exact ⟨c, rest ++ more, rfl, hc⟩

lemma StartsValue.ne_nil (h : StartsValue w) : w ≠ [] := by
  obtain ⟨c, rest, rfl, -⟩ := h
  exact cons_ne_nil _ _

lemma StartsValue.head?_ne (h : StartsValue w) : w.head? ≠ some 'e'.toUInt8 := by
  obtain ⟨c, rest, rfl, hc⟩ := h
  exact fun heq => hc (Option.some.inj heq)

/-! ## The next element -/

section Next

variable {seed : De T} {v : T}

lemma run_atEnd (d : BencodeDeserializer) :
    atEnd.run d = if d.buf.head? = some 'e'.toUInt8 then .ok true { d with buf := d.buf.tail }
      else .ok false d := by
  rw [atEnd, run_peek_bind, input_eq]
  split <;> rfl

lemma run_nextElement (seed : De T) (d : BencodeDeserializer) : (nextElement seed).run d =
      if d.buf.head? = some 'e'.toUInt8 then .ok none { d with buf := d.buf.tail }
      else (seed >>= fun v => pure (some v)).run d := by
  rw [nextElement, EStateM.run_bind, run_atEnd]
  by_cases h : d.buf.head? = some 'e'.toUInt8
  · rw [if_pos h, if_pos h]
    rfl
  · rw [if_neg h, if_neg h]
    rfl

lemma reads_nextElement_end (seed : De T) : Reads (nextElement seed) ['e'.toUInt8] none := by
  intro d rest hd
  rw [input_eq] at hd
  refine ⟨{ d with buf := rest }, ?_, rfl⟩
  rw [run_nextElement, hd]
  rfl

lemma reads_nextElement (h : Reads seed w v) (hw : StartsValue w) :
    Reads (nextElement seed) w (some v) := by
  intro d rest hd
  obtain ⟨d', hd', hrest⟩ := h d rest hd
  rw [input_eq] at hd
  refine ⟨d', ?_, hrest⟩
  rw [run_nextElement, if_neg (by rw [hd]; exact (hw.append rest).head?_ne), run_bind_of_ok hd']
  rfl

lemma stable_nextElement (hs : Stable seed) (hc : Consumes seed) : Stable (nextElement seed) := by
  intro d e more x d' he h
  rw [run_nextElement] at h
  have he' : e.buf = d.buf ++ more := he
  cases hbuf : d.buf with
  | nil =>
    rw [hbuf] at h
    obtain ⟨v, d'', hseed, -⟩ := run_bind_eq_ok h
    exact absurd hseed (hc.ne_ok hbuf)
  | cons c rest =>
    rw [hbuf, head?_cons] at h
    rw [hbuf, cons_append] at he'
    split at h
    · rename_i hend
      cases h
      refine ⟨{ e with buf := rest ++ more }, ?_, rfl⟩
      rw [run_nextElement, he', head?_cons, if_pos hend]
      rfl
    · rename_i hend
      obtain ⟨e', he'', hinput⟩ := (hs.bind fun v => Stable.pure (some v)) d e more x d' he h
      refine ⟨e', ?_, hinput⟩
      rw [run_nextElement, he', head?_cons, if_neg hend]
      exact he''

lemma consumes_nextElement (hc : Consumes seed) : Consumes (nextElement seed) := by
  intro d x d' h
  rw [run_nextElement] at h
  split at h
  · rename_i hend
    cases h
    rw [input_eq, input_eq]
    cases hbuf : d.buf with
    | nil => simp [hbuf] at hend
    | cons c rest => exact Nat.lt_succ_self _
  · obtain ⟨v, d'', hseed, hpure⟩ := run_bind_eq_ok h
    cases hpure
    exact hc d v _ hseed

variable {seed' : De T} {bound : ℕ}

lemma agree_nextElement (h : AgreeUpTo bound seed seed') :
    AgreeUpTo bound (nextElement seed) (nextElement seed') := by
  intro d hd
  rw [run_nextElement, run_nextElement, EStateM.run_bind, EStateM.run_bind, h d hd]

/-! ## Keys and values -/

/-- A key is read with the mark that it is one. -/
def inKey (seed : De K) : De K := do
  modify (setParsingKey true)
  let retval ← seed
  modify (setParsingKey false)
  return retval

lemma nextKey_eq (seed : De K) : nextKey seed = nextElement (inKey seed) := by
  refine bind_congr fun b => ?_
  cases b with
  | true => rfl
  | false =>
    simp only [inKey, bind_assoc, pure_bind]

lemma reads_inKey (h : Reads seed w v) : Reads (inKey seed) w v :=
  have hmark : ∀ b, Reads (modify (setParsingKey b) : De PUnit) [] () :=
    fun _ => Reads.modify fun _ => rfl
  (hmark true).bind (h.bind_nil ((hmark false).bind (Reads.pure v)))

lemma stable_inKey (h : Stable seed) : Stable (inKey seed) :=
  have hmark : ∀ b, Stable (modify (setParsingKey b) : De PUnit) :=
    fun _ => Stable.modify fun _ => rfl
  (hmark true).bind fun _ => h.bind fun v => (hmark false).bind fun _ => Stable.pure v

lemma consumes_inKey (h : Consumes seed) : Consumes (inKey seed) :=
  have hmark : ∀ b, Shrinks (modify (setParsingKey b) : De PUnit) :=
    fun _ => modify fun _ => rfl
  Consumes.bind_right (hmark true) fun _ => h.bind fun v => (hmark false).bind fun _ =>
    pure v

lemma agree_inKey (h : AgreeUpTo bound seed seed')
    (hc : Shrinks seed) : AgreeUpTo bound (inKey seed) (inKey seed') :=
  bind rfl (modify fun _ => rfl) fun _ =>
    h.bind hc fun _ => rfl

lemma reads_nextValue (h : Reads seed w v) : Reads (nextValue seed) w v :=
  h.bind_nil ((Reads.modify buf_popKey).bind (Reads.pure v))

lemma stable_nextValue (h : Stable seed) : Stable (nextValue seed) :=
  h.bind fun v => (Stable.modify buf_popKey).bind fun _ => Stable.pure v

lemma shrinks_nextValue (h : Shrinks seed) : Shrinks (nextValue seed) :=
  h.bind fun v => (modify buf_popKey).bind fun _ => pure v

lemma agree_nextValue (h : AgreeUpTo bound seed seed')
    (hc : Shrinks seed) : AgreeUpTo bound (nextValue seed) (nextValue seed') :=
  h.bind hc fun _ => rfl

end Next

/-! ## Lists -/

section Seq

variable {elem elem' : De T}

lemma stable_seqBody (hs : Stable elem) (hc : Consumes elem) (acc : List T) :
    Stable (seqBody elem acc) :=
  (stable_nextElement hs hc).bind fun _ => Stable.pure _

lemma consumes_seqBody (hc : Consumes elem) (acc : List T) : Consumes (seqBody elem acc) :=
  (consumes_nextElement hc).bind fun _ => pure _

lemma stable_deserializeSeq (hs : Stable elem) (hc : Consumes elem) :
    Stable (deserializeSeq elem) :=
  (stable_parseFirstByte _ _).bind fun _ =>
    Stable.loopAll (stable_seqBody hs hc) (consumes_seqBody hc) []

lemma consumes_deserializeSeq (hc : Consumes elem) : Consumes (deserializeSeq elem) :=
  (consumes_parseFirstByte _ _).bind fun _ =>
    loopAll (fun acc => (consumes_seqBody hc acc).shrinks) []

lemma agree_deserializeSeq {bound} (h : AgreeUpTo bound elem elem') (hc : Consumes elem) :
    AgreeUpTo (bound + 1) (deserializeSeq elem) (deserializeSeq elem') := by
  refine bind_consumes (consumes_parseFirstByte _ _) fun _ => ?_
  refine loopAll (fun acc => (consumes_seqBody hc acc).shrinks) (fun acc => ?_) []
  exact (agree_nextElement h).bind (consumes_nextElement hc).shrinks fun _ => rfl

variable {ws : List ByteBuf}

/-- The elements of a list are read one after another. -/
lemma readsLoop_seqBody {vs}
    (h : List.Forall₂ (fun w v => Reads elem w v ∧ StartsValue w) ws vs) (acc : List T) :
    ReadsLoop DeError.eof (seqBody elem) acc (ws.flatten ++ ['e'.toUInt8]) (acc ++ vs) := by
  induction h generalizing acc with
  | nil =>
    rw [append_nil]
    exact ReadsLoop.done ((reads_nextElement_end elem).bind_nil (Reads.pure _))
  | @cons w v ws vs hwv _ ih =>
    have hbody : Reads (seqBody elem acc) w (some (acc ++ [v])) :=
      (reads_nextElement hwv.1 hwv.2).bind_nil (Reads.pure _)
    have hrest := ih (acc ++ [v])
    rw [append_assoc] at hrest
    rw [flatten_cons, append_assoc]
    exact ReadsLoop.step hwv.2.ne_nil hbody hrest

/-- **A list is read back if its elements are.** -/
theorem reads_deserializeSeq {vs}
    (h : List.Forall₂ (fun w v => Reads elem w v ∧ StartsValue w) ws vs) :
    Reads (deserializeSeq elem) ('l'.toUInt8 :: (ws.flatten ++ ['e'.toUInt8])) vs :=
  (reads_parseFirstByte _ _).bind (readsLoop_seqBody h []).reads

end Seq

/-! ## Dictionaries -/

section Map

variable {key key' : De K} {entry entry' : S → K → De S} {acc acc' acc'' : S}

lemma mapBody_eq (key : De K) (entry : S → K → De S) (acc : S) :
    mapBody key entry acc = nextElement (inKey key) >>= fun k =>
      match k with
      | none => pure none
      | some k => nextValue (entry acc k) >>= fun acc => pure (some acc) := by
  rw [← nextKey_eq]
  exact rfl

lemma stable_mapBody (hs : Stable key) (hc : Consumes key) (he : ∀ acc k, Stable (entry acc k))
    (acc : S) : Stable (mapBody key entry acc) := by
  rw [mapBody_eq]
  refine (stable_nextElement (stable_inKey hs) (consumes_inKey hc)).bind fun k => ?_
  cases k with
  | none => exact Stable.pure none
  | some k => exact (stable_nextValue (he acc k)).bind fun _ => Stable.pure _

lemma consumes_mapBody (hc : Consumes key) (he : ∀ acc k, Shrinks (entry acc k)) (acc : S) :
    Consumes (mapBody key entry acc) := by
  rw [mapBody_eq]
  refine (consumes_nextElement (consumes_inKey hc)).bind fun k => ?_
  cases k with
  | none => exact pure none
  | some k => exact (shrinks_nextValue (he acc k)).bind fun _ => pure _

lemma stable_deserializeMap (hs : Stable key) (hc : Consumes key)
    (he : ∀ acc k, Stable (entry acc k)) (he' : ∀ acc k, Shrinks (entry acc k)) (acc : S) :
    Stable (deserializeMap key entry acc) :=
  (stable_parseFirstByte _ _).bind fun _ =>
    Stable.loopAll (stable_mapBody hs hc he) (consumes_mapBody hc he') acc

lemma consumes_deserializeMap (hc : Consumes key) (he : ∀ acc k, Shrinks (entry acc k)) (acc : S) :
    Consumes (deserializeMap key entry acc) :=
  (consumes_parseFirstByte _ _).bind fun _ =>
    loopAll (fun acc => (consumes_mapBody hc he acc).shrinks) acc

lemma agree_deserializeMap {bound} (hk : AgreeUpTo bound key key') (hc : Consumes key)
    (he : ∀ acc k, AgreeUpTo bound (entry acc k) (entry' acc k))
    (hs : ∀ acc k, Shrinks (entry acc k)) (acc : S) :
    AgreeUpTo (bound + 1) (deserializeMap key entry acc) (deserializeMap key' entry' acc) := by
  refine bind_consumes (consumes_parseFirstByte _ _) fun _ => ?_
  refine loopAll (fun acc => (consumes_mapBody hc hs acc).shrinks) (fun acc => ?_) acc
  rw [mapBody_eq, mapBody_eq]
  refine (agree_nextElement (agree_inKey hk hc.shrinks)).bind
    (consumes_nextElement (consumes_inKey hc)).shrinks fun k => ?_
  cases k with
  | none => exact rfl
  | some k =>
    exact (agree_nextValue (he acc k) (hs acc k)).bind (shrinks_nextValue (hs acc k)) fun _ =>
      rfl

/-- The entries of a dictionary, each read on top of those before it, and the `e` behind them. -/
inductive ReadsEntries (key : De K) (entry : S → K → De S) : S → ByteBuf → S → Prop
  | done (acc : S) : ReadsEntries key entry acc ['e'.toUInt8] acc
  | step {acc acc' acc'' k wk wv w} (hk : Reads key wk k)
      (hwk : StartsValue wk) (hv : Reads (entry acc k) wv acc')
      (hrest : ReadsEntries key entry acc' w acc'') :
      ReadsEntries key entry acc (wk ++ wv ++ w) acc''

variable (h : ReadsEntries key entry acc w acc')
include h

lemma ReadsEntries.readsLoop :
    ReadsLoop DeError.eof (mapBody key entry) acc w acc' := by
  induction h with
  | done acc =>
    refine ReadsLoop.done ?_
    rw [mapBody_eq]
    exact (reads_nextElement_end _).bind_nil (Reads.pure none)
  | step hk hwk hv _ ih =>
    refine ReadsLoop.step (hwk.append _).ne_nil ?_ ih
    rw [mapBody_eq]
    exact (reads_nextElement (reads_inKey hk) hwk).bind
      ((reads_nextValue hv).bind_nil (Reads.pure _))

/-- **A dictionary is read back if its entries are.** -/
theorem ReadsEntries.reads :
    Reads (deserializeMap key entry acc) ('d'.toUInt8 :: w) acc' :=
  (reads_parseFirstByte _ _).bind h.readsLoop.reads

end Map

/-! ## Any value -/

section Any

variable {α : Type}

/-- A visitor whose keys are read as soundly as its values. -/
structure AnyVisitor.Sound (v : AnyVisitor α) : Prop where
  stable : ∀ p, Stable p → Stable (v.key p)
  consumes : ∀ p, Consumes p → Consumes (v.key p)
  agree : ∀ bound p q, AgreeUpTo bound p q → AgreeUpTo bound (v.key p) (v.key q)

/-- One level of `deserialize_any`, over a parser for what is nested in it. -/
def anyBody (v : AnyVisitor α) (self : De α) (c : Option UInt8) : De α :=
  match c with
  | none => throw .eof
  | some c =>
    if c = 'd'.toUInt8 then do
      let entries ← deserializeMap (v.key self) (fun acc k => do return acc ++ [(k, ← self)]) []
      return v.visitMap entries
    else if c = 'i'.toUInt8 then do return v.visitI64 (← deserializeI64)
    else if c = 'l'.toUInt8 then do return v.visitSeq (← deserializeSeq self)
    else do return v.visitBytes (← parseBytes)

lemma deserializeAny_succ (v : AnyVisitor α) (n : ℕ) :
    deserializeAny v (n + 1) = peek >>= anyBody v (deserializeAny v n) := rfl

lemma anyBody_of_isDigit {α : Type} (v : AnyVisitor α) (self : De α) {c} (hc : isDigit c = true) :
    anyBody v self (some c) = do return v.visitBytes (← parseBytes) := by
  have hne : ∀ b, isDigit b = false → c ≠ b := by
    rintro b hb rfl
    rw [hb] at hc
    cases hc
  rw [anyBody, if_neg (hne _ (by decide)), if_neg (hne _ (by decide)), if_neg (hne _ (by decide))]

variable {v : AnyVisitor α} (hv : v.Sound) {self self' : De α}

include hv

lemma stable_anyBody (hs : Stable self) (hc : Consumes self) :
    Stable (peek >>= anyBody v self) := by
  refine Stable.peek (fun d a d' _ h => by cases h) fun c => ?_
  rw [anyBody]
  split
  · exact (stable_deserializeMap (hv.stable _ hs) (hv.consumes _ hc)
      (fun acc k => hs.bind fun _ => Stable.pure _)
      (fun acc k => hc.shrinks.bind fun _ => pure _) []).bind fun _ => Stable.pure _
  split
  · exact (stable_deserializeSigned _ _).bind fun _ => Stable.pure _
  · split
    · exact (stable_deserializeSeq hs hc).bind fun _ => Stable.pure _
    · exact stable_parseBytes.bind fun _ => Stable.pure _

lemma consumes_anyBody (hc : Consumes self) : Consumes (peek >>= anyBody v self) := by
  refine Consumes.peek fun c => ?_
  cases c with
  | none => exact Consumes.throw _
  | some c =>
    rw [anyBody]
    split
    · exact (consumes_deserializeMap (hv.consumes _ hc)
        (fun acc k => hc.shrinks.bind fun _ => pure _) []).bind fun _ => pure _
    split
    · exact (consumes_parseInteger _).bind fun _ => pure _
    · split
      · exact (consumes_deserializeSeq hc).bind fun _ => pure _
      · exact consumes_parseBytes.bind fun _ => pure _

lemma agree_anyBody {bound} (h : AgreeUpTo bound self self') (hc : Consumes self)
    (c : Option UInt8) : AgreeUpTo (bound + 1) (anyBody v self c) (anyBody v self' c) := by
  cases c with
  | none => exact rfl
  | some c =>
    rw [anyBody, anyBody]
    split
    · have hmap := agree_deserializeMap (hv.agree _ _ _ h) (hv.consumes _ hc)
        (fun acc k => h.bind hc.shrinks fun _ => rfl)
        (fun acc k => hc.shrinks.bind fun a => pure (acc ++ [(k, a)])) []
      exact hmap.bind (consumes_deserializeMap (hv.consumes _ hc)
        (fun acc k => hc.shrinks.bind fun _ => pure _) []).shrinks fun _ => rfl
    · split
      · exact rfl
      split
      · exact (agree_deserializeSeq h hc).bind (consumes_deserializeSeq hc).shrinks
          fun _ => rfl
      · exact rfl

lemma consumes_deserializeAny (n : ℕ) : Consumes (deserializeAny v n) := by
  induction n with
  | zero => exact Consumes.throw _
  | succ n ih => exact consumes_anyBody hv ih

lemma stable_deserializeAny (n : ℕ) : Stable (deserializeAny v n) := by
  induction n with
  | zero => exact Stable.throw _
  | succ n ih => exact stable_anyBody hv ih (consumes_deserializeAny hv n)

/-- **The bound on the nesting is never felt**: a value is not nested deeper than it is long. -/
theorem deserializeAny_eq_of_lt {n m d} (hn : d.buf.length < n)
    (hm : d.buf.length < m) : (deserializeAny v n).run d = (deserializeAny v m).run d := by
  have hagree : ∀ bound n m, bound < n → bound < m →
      AgreeUpTo bound (deserializeAny v n) (deserializeAny v m) := by
    intro bound
    induction bound with
    | zero =>
      intro n m hn hm d hd
      obtain ⟨n, rfl⟩ : ∃ k, n = k + 1 := ⟨n - 1, by omega⟩
      obtain ⟨m, rfl⟩ : ∃ k, m = k + 1 := ⟨m - 1, by omega⟩
      have hnil : Cursor.input d = [] := eq_nil_of_length_eq_zero (Nat.le_zero.mp hd)
      rw [deserializeAny_succ, deserializeAny_succ, run_peek_bind, run_peek_bind, hnil]
      rfl
    | succ bound ih =>
      intro n m hn hm
      obtain ⟨n, rfl⟩ : ∃ k, n = k + 1 := ⟨n - 1, by omega⟩
      obtain ⟨m, rfl⟩ : ∃ k, m = k + 1 := ⟨m - 1, by omega⟩
      exact fun d hd => agree_anyBody hv (ih n m (by omega) (by omega))
        (consumes_deserializeAny hv n) _ d hd
  exact hagree _ n m hn hm d (Nat.le_refl _)

/-- **What is nested in a value is a value**, read without a bound. -/
theorem anyValue_eq : anyValue v = peek >>= anyBody v (anyValue v) := by
  funext d
  show (deserializeAny v (d.buf.length + 1)).run d = (anyBody v (anyValue v) d.buf.head?).run d
  rw [deserializeAny_succ, run_peek_bind, input_eq]
  cases hbuf : d.buf with
  | nil => rfl
  | cons c rest =>
    have hagree : AgreeUpTo rest.length (deserializeAny v (c :: rest).length) (anyValue v) :=
      fun e he => deserializeAny_eq_of_lt hv (Nat.lt_succ_of_le he) (Nat.lt_succ_self _)
    refine agree_anyBody hv hagree (consumes_deserializeAny hv _) _ d ?_
    rw [input_eq, hbuf]
    exact Nat.le_refl _

lemma consumes_anyValue : Consumes (anyValue v) :=
  fun d => consumes_deserializeAny hv _ d

lemma stable_anyValue : Stable (anyValue v) := by
  intro d e more a d' he h
  have hlen : d.buf.length < e.buf.length + 1 := by
    have := congrArg List.length he
    rw [length_append, input_eq, input_eq] at this
    omega
  -- with the bound of the longer input, which is not felt either
  have hrun : (anyValue v).run d = (deserializeAny v (e.buf.length + 1)).run d :=
    deserializeAny_eq_of_lt hv (Nat.lt_succ_self _) hlen
  rw [hrun] at h
  exact stable_deserializeAny hv _ d e more a d' he h

end Any

lemma sound_ignoredVisitor : ignoredVisitor.Sound where
  stable _ h := h
  consumes _ h := h
  agree _ _ _ h := h

lemma stable_ignoredAny : Stable ignoredAny := stable_anyValue sound_ignoredVisitor

lemma consumes_ignoredAny : Consumes ignoredAny := consumes_anyValue sound_ignoredVisitor

end Librtbit.Bencode
