import Librtbit.Storage.InitialCheck

/-!
# Storage/Fastresume — trusting a stored bit field after a sample

`validate_fastresume` checks some of the pieces a stored bit field claims: the first one of each
file, and of the others a random sample.  It rejects the bit field when `check_piece` *fails* on one
of them, and looks no further: a piece that is read and has the wrong hash is `Ok(false)`, not an
error.

The random draws are a parameter (`Draws`): any permutation, and any outcome of a draw that is not
certain.
-/

namespace Librtbit

open Machinery List

variable {L : Lengths}

/-- What the random generator yields. -/
structure Draws where
  shuffle : List ℕ → List ℕ
  /-- The `k`-th draw of `random_ratio(1, denom)`. -/
  randomRatio : (k denom : ℕ) → Bool
  shuffle_perm : ∀ l, (shuffle l).Perm l
  randomRatio_one : ∀ k, randomRatio k 1 = true

inductive FastresumeError where
  /-- `fastresume validation cancelled` -/
  | cancelled
  deriving DecidableEq

namespace Fastresume

/-! ## The pieces that are checked -/

/-- The first piece of a file that is claimed. -/
def firstClaimed (hp : PieceBits L) (fi : FileInfo) : Option ℕ :=
  if fi.pieceRange.start ≤ fi.pieceRange.stop ∧ fi.pieceRange.stop ≤ L.pieceBits then
    fi.pieceRange.toList.find? hp.get
  else none

/-- At least one piece from each file, if we claim we have it; the other claimed pieces are left in
a queue. -/
def onePerFile (hp : PieceBits L) (fileInfos : List FileInfo) : PieceBits L × PieceBits L :=
  fileInfos.foldl
    (fun (toValidate, queue) fi =>
      match firstClaimed hp fi with
      | some pieceId => (toValidate.set pieceId true, queue.set pieceId false)
      | none => (toValidate, queue))
    (BitField.zeros L.pieceBits, hp)

/-- Of the queue, each piece with a probability of one in `min (k + 1) cap`. -/
def sample (draws : Draws) (cap : ℕ) (toValidate queue : PieceBits L) : PieceBits L :=
  if 0 < cap then
    (draws.shuffle queue.ones).zipIdx.foldl
      (fun toValidate (pieceId, tmpId) =>
        if draws.randomRatio tmpId (min (tmpId + 1) cap) then toValidate.set pieceId true
        else toValidate)
      toValidate
  else toValidate

/-- The pieces that are checked, in order; `denom` is the session's option. -/
def toValidate (draws : Draws) (denom : Option ℕ) (fileInfos : List FileInfo)
    (hp : PieceBits L) : List (ValidPieceIndex L) :=
  let (toValidate, queue) := onePerFile hp fileInfos
  ((sample draws (denom.getD 50) toValidate queue).ones).filterMap L.validatePieceIndex

/-! ### …include the first claimed one of each file -/

variable {hp : PieceBits L} {fi : FileInfo} {i : ℕ}

lemma lt_of_firstClaimed (h : firstClaimed hp fi = some i) : i < L.pieceBits := by
  rw [firstClaimed] at h
  split at h
  · exact hp.lt_of_get (find?_some h)
  · cases h

variable {fileInfos : List FileInfo}

/-- A piece that was chosen stays chosen. -/
lemma get_foldl_onePerFile {st : PieceBits L × PieceBits L} (h : st.1.get i) :
    (fileInfos.foldl (fun (toValidate, queue) fi =>
      match firstClaimed hp fi with
      | some pieceId => (toValidate.set pieceId true, queue.set pieceId false)
      | none => (toValidate, queue)) st).1.get i = true := by
  induction fileInfos generalizing st with
  | nil => exact h
  | cons fi fileInfos ih =>
    refine ih ?_
    dsimp only
    split
    · exact BitField.get_set_true_of_get _ h _
    · exact h

lemma get_onePerFile (hfi : fi ∈ fileInfos) (h : firstClaimed hp fi = some i) :
    (onePerFile hp fileInfos).1.get i = true := by
  obtain ⟨before, after, rfl⟩ := append_of_mem hfi
  rw [onePerFile, foldl_append, foldl_cons]
  refine get_foldl_onePerFile ?_
  generalize List.foldl _ _ before = st
  simp only [h]
  exact BitField.get_set_self _ (lt_of_firstClaimed h) _

lemma get_sample {draws cap} {toValidate queue : PieceBits L}
    (h : toValidate.get i) : (sample draws cap toValidate queue).get i := by
  rw [sample]
  split
  · generalize (draws.shuffle queue.ones).zipIdx = drawn
    induction drawn generalizing toValidate with
    | nil => exact h
    | cons d drawn ih =>
      refine ih ?_
      dsimp only
      split
      · exact BitField.get_set_true_of_get _ h _
      · exact h
  · exact h

/-- **The first claimed piece of each file is checked.** -/
theorem mem_toValidate {draws denom} (hfi : fi ∈ fileInfos) {p}
    (h : firstClaimed hp fi = some p.1) : p ∈ toValidate draws denom fileInfos hp := by
  rw [toValidate, mem_filterMap]
  exact ⟨p.1, BitField.mem_ones.mpr (get_sample (get_onePerFile hfi h)), L.validatePieceIndex_val p⟩

end Fastresume

namespace FileOps

open Fastresume

variable {Digest : Type} [DecidableEq Digest] (fo : FileOps Digest)

/-- The loop over the pieces: `true` when the data is broken. -/
def isBroken (isCancelled : ValidPieceIndex L → Bool) :
    List (ValidPieceIndex L) → Except FastresumeError Bool
  | [] => .ok false
  | pieceId :: rest =>
    if isCancelled pieceId then .error .cancelled
    else
      match fo.checkPiece pieceId with
      | .error _ => .ok true
      | .ok _ => isBroken isCancelled rest

/-- `validate_fastresume`: the stored bit field, if it is trusted. -/
def validateFastresume (draws : Draws) (denom : Option ℕ)
    (isCancelled : ValidPieceIndex L → Bool) (havePieces : Option (List Bool)) :
    Except FastresumeError (Option (PieceBits L)) :=
  match havePieces with
  | none => .ok none
  | some bits =>
    if h : bits.length = L.pieceBits then do
      let hp : PieceBits L := ⟨bits, h⟩
      if ← fo.isBroken isCancelled (toValidate draws denom fo.fileInfos hp) then return none
      else return some hp
    else .ok none

/-! ## When trust is deserved -/

section Trust

variable (draws : Draws) (denom : Option ℕ) (isCancelled : ValidPieceIndex L → Bool)
  (stored : Option (List Bool))

/-- **A bit field is trusted only if every piece that was checked matches**, among them the first
claimed one of each file; a wrong hash among them makes the validation reject it. -/
structure TrustSound : Prop where
  matched : ∀ hp, fo.validateFastresume draws denom isCancelled stored = .ok (some hp) →
    ∀ p ∈ toValidate draws denom fo.fileInfos hp, fo.PieceMatches p
  first : ∀ hp, fo.validateFastresume draws denom isCancelled stored = .ok (some hp) →
    ∀ fi ∈ fo.fileInfos, ∀ p : ValidPieceIndex L, firstClaimed hp fi = some p.1 →
      fo.PieceMatches p
  rejects : ∀ bits (h : bits.length = L.pieceBits), stored = some bits →
    ∀ p ∈ toValidate draws denom fo.fileInfos ⟨bits, h⟩, fo.checkPiece p = .ok false →
      ∀ hp, fo.validateFastresume draws denom isCancelled stored ≠ .ok (some hp)

/-- The piece is all there, and so is its digest. -/
def Readable (p : ValidPieceIndex L) : Prop :=
  (fo.pieceContent p).isSome = true ∧ (fo.getHash p.1).isSome = true

/-- Of the pieces that are checked, all match or one cannot be read (or the check is cancelled). -/
def NoWrongHash : Prop :=
  ∀ bits (h : bits.length = L.pieceBits), stored = some bits →
    (∃ p ∈ toValidate draws denom fo.fileInfos ⟨bits, h⟩, isCancelled p = true) ∨
    (∃ p ∈ toValidate draws denom fo.fileInfos ⟨bits, h⟩, ¬ fo.Readable p) ∨
    ∀ p ∈ toValidate draws denom fo.fileInfos ⟨bits, h⟩, fo.PieceMatches p

variable {fo draws denom isCancelled stored} {lay : Layout L}

lemma isBroken_eq_ok_false {ps} :
    fo.isBroken isCancelled ps = .ok false ↔
      ∀ p ∈ ps, isCancelled p = false ∧ ∃ b, fo.checkPiece p = .ok b := by
  induction ps with
  | nil => simp [isBroken]
  | cons p ps ih =>
    rw [isBroken, forall_mem_cons, ← ih]
    cases hcancel : isCancelled p with
    | true => simp
    | false =>
      cases hcheck : fo.checkPiece p with
      | error e | ok b => simp

/-- On a bit field of the right length the loop decides. -/
lemma validateFastresume_some (hp : PieceBits L) :
    fo.validateFastresume draws denom isCancelled (some hp.1) =
      (fo.isBroken isCancelled (toValidate draws denom fo.fileInfos hp)).map
        fun broken => if broken then none else some hp := by
  obtain ⟨bits, hbits⟩ := hp
  rw [validateFastresume, dif_pos hbits]
  change (fo.isBroken isCancelled (toValidate draws denom fo.fileInfos ⟨bits, hbits⟩) >>= _) = _
  cases fo.isBroken isCancelled (toValidate draws denom fo.fileInfos ⟨bits, hbits⟩) with
  | error e => rfl
  | ok broken => cases broken <;> rfl

/-- **A bit field is trusted when the loop over the pieces neither is cancelled nor fails.** -/
theorem validateFastresume_eq_some {hp} :
    fo.validateFastresume draws denom isCancelled stored = .ok (some hp) ↔
      stored = some hp.1 ∧
        ∀ p ∈ toValidate draws denom fo.fileInfos hp,
          isCancelled p = false ∧ ∃ b, fo.checkPiece p = .ok b := by
  rw [← isBroken_eq_ok_false]
  constructor
  · intro h
    obtain ⟨hp', rfl⟩ : ∃ hp' : PieceBits L, stored = some hp'.1 := by
      cases stored with
      | none => cases h
      | some bits =>
        rw [validateFastresume] at h
        split at h
        · next hbits => exact ⟨⟨bits, hbits⟩, rfl⟩
        · cases h
    rw [validateFastresume_some] at h
    cases hbroken : fo.isBroken isCancelled (toValidate draws denom fo.fileInfos hp') with
    | error e =>
      rw [hbroken] at h
      cases h
    | ok broken =>
      rw [hbroken] at h
      cases broken with
      | true => cases h
      | false =>
        cases h
        exact ⟨rfl, hbroken⟩
  · rintro ⟨rfl, hbroken⟩
    rw [validateFastresume_some, hbroken]
    rfl

/-- `check_piece` returns exactly on the readable pieces. -/
lemma exists_checkPiece_eq_ok_iff (hlay : fo.fileInfos = lay.fileInfos)
    (p : ValidPieceIndex L) : (∃ b, fo.checkPiece p = .ok b) ↔ fo.Readable p := by
  cases hcontent : fo.pieceContent p with
  | none =>
    obtain ⟨e, he⟩ := checkPiece_of_none hlay hcontent
    simp [he, Readable, hcontent]
  | some bytes =>
    rw [checkPiece_of_some hlay hcontent, compareHash]
    cases hhash : fo.getHash p.1 with
    | none => simp [Readable, hhash]
    | some digest => simp [Readable, hcontent, hhash]

/-- With no wrong hash among the chosen pieces, those of a trusted bit field match. -/
lemma NoWrongHash.pieceMatches (hlay : fo.fileInfos = lay.fileInfos)
    (hno : fo.NoWrongHash draws denom isCancelled stored) {hp}
    (htrusted : fo.validateFastresume draws denom isCancelled stored = .ok (some hp))
    {p} (hmem : p ∈ toValidate draws denom fo.fileInfos hp) :
    fo.PieceMatches p := by
  obtain ⟨hstored, hall⟩ := validateFastresume_eq_some.mp htrusted
  rcases hno hp.1 hp.2 hstored with ⟨q, hq, hcancel⟩ | ⟨q, hq, hfail⟩ | hok
  · rw [(hall q hq).1] at hcancel
    cases hcancel
  · exact absurd ((exists_checkPiece_eq_ok_iff hlay q).mp (hall q hq).2) hfail
  · exact hok p hmem

/-- **Trust is deserved exactly when no piece that is checked has a wrong hash**, unless another one
cannot be read. -/
theorem trustSound_iff (hlay : fo.fileInfos = lay.fileInfos) :
    fo.TrustSound draws denom isCancelled stored ↔
      fo.NoWrongHash draws denom isCancelled stored := by
  constructor
  · intro hsound bits hbits hstored
    by_cases htrusted : ∀ p ∈ toValidate draws denom fo.fileInfos ⟨bits, hbits⟩,
        isCancelled p = false ∧ ∃ b, fo.checkPiece p = .ok b
    · exact .inr (.inr (hsound.matched _ (validateFastresume_eq_some.mpr ⟨hstored, htrusted⟩)))
    push Not at htrusted
    obtain ⟨p, hp, hfail⟩ := htrusted
    by_cases hcancel : isCancelled p
    · exact .inl ⟨p, hp, hcancel⟩
    refine .inr (.inl ⟨p, hp, ?_⟩)
    rw [← exists_checkPiece_eq_ok_iff hlay]
    push Not
    exact hfail (Bool.eq_false_iff.mpr hcancel)
  · intro hno
    refine ⟨fun hp htrusted p => hno.pieceMatches hlay htrusted, fun hp htrusted fi hfi p hfirst =>
      hno.pieceMatches hlay htrusted (mem_toValidate hfi hfirst), ?_⟩
    intro bits hbits hstored p hmem hwrong hp htrusted
    obtain ⟨hstored', -⟩ := validateFastresume_eq_some.mp htrusted
    obtain rfl : hp = ⟨bits, hbits⟩ := Subtype.ext (Option.some.inj (hstored'.symm.trans hstored))
    have hok := (checkPiece_eq_ok_true_iff hlay p).mpr (hno.pieceMatches hlay htrusted hmem)
    rw [hwrong] at hok
    cases hok

end Trust

/-! ### Two bytes, the second of them wrong -/

section WrongByte

/-- Draws that check everything, in order. -/
def allDraws : Draws where
  shuffle := id
  randomRatio _ _ := true
  shuffle_perm _ := List.Perm.refl _
  randomRatio_one _ := rfl

/-- A stored bit field that claims one of the two pieces. -/
def claims (i : ℕ) : PieceBits .twoBytePieces := (BitField.zeros _).set i true

/-- The right byte is trusted, and rightly. -/
theorem trustSound_right_byte :
    (twoBytesOps (some [5, 6]) [[5], [7]]).validateFastresume allDraws none (fun _ => false)
        (some (claims 0).1) = .ok (some (claims 0)) ∧
      (twoBytesOps (some [5, 6]) [[5], [7]]).TrustSound allDraws none
        (fun _ : ValidPieceIndex .twoBytePieces => false) (some (claims 0).1) := by
  have hlay : (twoBytesOps (some [5, 6]) [[5], [7]]).fileInfos = twoBytesLayout.fileInfos := rfl
  refine ⟨by rfl, (trustSound_iff hlay).mpr ?_⟩
  intro bits hbits hstored
  cases hstored
  refine .inr (.inr ?_)
  intro p hp
  refine (checkPiece_eq_ok_true_iff hlay p).mp ?_
  have hall : ∀ p ∈ toValidate allDraws none twoBytesLayout.fileInfos (claims 0),
      (twoBytesOps (some [5, 6]) [[5], [7]]).checkPiece p = .ok true := by decide
  exact hall p hp

/-- **The wrong byte is trusted as well**: its `check_piece` is `Ok(false)`. -/
theorem not_trustSound_wrong_byte : (1 : ValidPieceIndex .twoBytePieces) ∈
        toValidate allDraws none twoBytesLayout.fileInfos (claims 1) ∧
      (twoBytesOps (some [5, 6]) [[5], [7]]).checkPiece (1 : ValidPieceIndex .twoBytePieces)
        = .ok false ∧
      (twoBytesOps (some [5, 6]) [[5], [7]]).validateFastresume allDraws none
        (fun _ : ValidPieceIndex .twoBytePieces => false) (some (claims 1).1)
        = .ok (some (claims 1)) ∧
      ¬ (twoBytesOps (some [5, 6]) [[5], [7]]).TrustSound allDraws none
        (fun _ : ValidPieceIndex .twoBytePieces => false) (some (claims 1).1) := by
  refine ⟨by decide, by decide, by rfl, fun h => ?_⟩
  exact h.rejects _ (claims 1).2 rfl 1 (by decide) (by decide) (claims 1) (by rfl)

end WrongByte

end FileOps

end Librtbit
