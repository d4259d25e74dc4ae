import Librtbit.Live.Connection

/-!
# Live/PeerPieces — the pieces a peer says it has

Four messages tell a peer's pieces, and each of them builds the bit field its own way: from the
bytes of a `Bitfield`, one bit at a time from a `Have`, and from a helper for `HaveAll` and
`HaveNone`.  `Heard` keeps the field beside the set the messages mean (`PieceMessage.meaning`), and
`attributes_iff_no_haveAll` says when the two agree: as long as no `HaveAll` comes.  The helper
behind it, `make_piece_bitfield`, makes a field of zeros, so a peer that has everything is taken for
one that has nothing.
-/

namespace Librtbit

open Machinery LivePeerState List

variable {L : Lengths}

/-! ## Bit fields of bytes -/

namespace BF

/-- `BF::from_boxed_slice`: the bits of the bytes, the highest of each byte first. -/
def fromBoxedSlice (bytes : ByteBuf) : List Bool :=
  bytes.flatMap fun b => (List.range 8).map fun i => b.toNat.testBit (7 - i)

/-- **Bit `n` lies in byte `n / 8`.** -/
theorem getElem?_fromBoxedSlice (bytes : ByteBuf) (n : ℕ) :
    (fromBoxedSlice bytes)[n]? = bytes[n / 8]?.map fun b => b.toNat.testBit (7 - n % 8) := by
  induction bytes generalizing n with
  | nil => rfl
  | cons b bytes ih =>
    have hcons : fromBoxedSlice (b :: bytes)
        = (List.range 8).map (fun i => b.toNat.testBit (7 - i)) ++ fromBoxedSlice bytes := rfl
    rw [hcons]
    rcases lt_or_ge n 8 with hn | hn
    · rw [getElem?_append_left (by simpa using hn), Nat.div_eq_of_lt hn, Nat.mod_eq_of_lt hn]
      simp [hn]
    obtain ⟨m, rfl⟩ := Nat.exists_eq_add_of_le hn
    rw [getElem?_append_right (by simp)]
    simp [ih]

@[simp] lemma length_fromBoxedSlice (bytes : ByteBuf) :
    (fromBoxedSlice bytes).length = bytes.length * 8 := by
  simp [fromBoxedSlice, length_flatMap]

end BF

/-- The bytes of `make_piece_bitfield`. -/
def makePieceBitfield (L : Lengths) : ByteBuf := List.replicate L.pieceBitfieldBytes 0

lemma fromBoxedSlice_makePieceBitfield (L : Lengths) :
    BF.fromBoxedSlice (makePieceBitfield L) = List.replicate L.pieceBits false := by
  refine ext_getElem? fun n => ?_
  rw [BF.getElem?_fromBoxedSlice, makePieceBitfield, getElem?_replicate,
    getElem?_replicate, Lengths.pieceBits]
  by_cases hn : n / 8 < L.pieceBitfieldBytes
  · rw [if_pos hn, if_pos ((Nat.div_lt_iff_lt_mul (by norm_num)).mp hn)]
    simp
  · rw [if_neg hn, if_neg (mt (Nat.div_lt_iff_lt_mul (by norm_num)).mpr hn)]
    rfl

/-! ## The four messages -/

/-- The messages that tell the pieces of a peer. -/
inductive PieceMessage where
  | bitfield (b : ByteBuf)
  | have_ (index : UInt32)
  | haveAll
  | haveNone
  deriving DecidableEq

namespace LivePeerState

variable (live : LivePeerState L)

/-- `on_bitfield`; `none` if the peer is dropped, as its bit field has an unexpected size. -/
def onBitfield (bitfield : ByteBuf) : Option (LivePeerState L) :=
  if bitfield.length ≠ L.pieceBitfieldBytes then none
  else some { live with bitfield := BF.fromBoxedSlice bitfield }

/-- `on_received_message`, for the four messages. -/
def onReceivedMessage : PieceMessage → Option (LivePeerState L)
  | .bitfield b => live.onBitfield b
  | .have_ index => some (live.onHave index.toNat)
  | .haveAll => live.onBitfield (makePieceBitfield L)
  | .haveNone => live.onBitfield (List.replicate L.pieceBitfieldBytes 0)

end LivePeerState

/-- **What a message says of the pieces**: a bit field replaces what was known, the first bit of it
being the highest bit of the first byte. -/
def PieceMessage.meaning (pieces : Set (ValidPieceIndex L)) : PieceMessage → Set (ValidPieceIndex L)
  | .bitfield b => {p | ∃ byte, b[p.1 / 8]? = some byte ∧ byte.toNat.testBit (7 - p.1 % 8) = true}
  | .have_ index => {p | p ∈ pieces ∨ p.1 = index.toNat}
  | .haveAll => Set.univ
  | .haveNone => ∅

/-- A connected peer, and the pieces it said it has. -/
structure Heard (L : Lengths) where
  live : LivePeerState L
  pieces : Set (ValidPieceIndex L) := ∅

namespace Heard

/-- A message is received; there is none after one that drops the peer. -/
def step (s : Heard L) (m : PieceMessage) : Option (Heard L) :=
  (s.live.onReceivedMessage m).map fun live => { live, pieces := m.meaning s.pieces }

/-- **The pieces we attribute to the peer are those it said it has**, for the assignment of pieces
and for the test whether it has them all. -/
def Attributes (s : Heard L) : Prop :=
  (∀ p, s.live.hasPiece p = true ↔ p ∈ s.pieces) ∧
    (s.live.hasFullTorrent = true ↔ s.pieces = Set.univ)

/-- The field is not there yet or has its bits. -/
def Sized (s : Heard L) : Prop := s.live.bitfield = [] ∨ s.live.bitfield.length = L.pieceBits

end Heard

/-! ## What each message does -/

namespace LivePeerState

variable {live live' : LivePeerState L} {p : ValidPieceIndex L}

lemma hasPiece_iff :
    live.hasPiece p ↔ live.bitfield[p.1]? = some true := by
  rw [hasPiece, getD_eq_getElem?_getD]
  cases live.bitfield[p.1]? with
  | none | some b => simp

/-- **A peer has the full torrent when it has every piece.** -/
theorem hasFullTorrent_iff (hsized : live.bitfield = [] ∨ live.bitfield.length = L.pieceBits) :
    live.hasFullTorrent = true ↔ ∀ p, live.hasPiece p := by
  have hpos : 0 < L.totalPieces := Nat.succ_pos _
  simp only [hasPiece_iff]
  rw [hasFullTorrent, Bool.and_eq_true, decide_eq_true_eq, all_eq_true]
  constructor
  · rintro ⟨hlen, hall⟩ p
    have hp : p.1 < live.bitfield.length := p.2.trans_le hlen
    have hmem : live.bitfield[p.1] ∈ live.bitfield.take L.totalPieces :=
      mem_take_iff_getElem.mpr ⟨p.1, by omega, rfl⟩
    rw [getElem?_eq_getElem hp, Option.some.injEq]
    exact hall _ hmem
  · intro hall
    have hlen : live.bitfield.length = L.pieceBits := by
      refine hsized.resolve_left fun hempty => ?_
      have hfirst := hall ⟨0, hpos⟩
      rw [hempty] at hfirst
      cases hfirst
    refine ⟨hlen ▸ L.totalPieces_le_pieceBits, fun b hb => ?_⟩
    obtain ⟨i, hi, rfl⟩ := mem_take_iff_getElem.mp hb
    have hbit := hall ⟨i, hi.trans_le (Nat.min_le_left _ _)⟩
    rw [getElem?_eq_getElem (hi.trans_le (Nat.min_le_right _ _))] at hbit
    exact Option.some.inj hbit

lemma onBitfield_eq_some {bytes} : live.onBitfield bytes = some live' ↔
    bytes.length = L.pieceBitfieldBytes ∧
      live' = { live with bitfield := BF.fromBoxedSlice bytes } := by
  rw [onBitfield]
  split
  · next hlen => simp [hlen]
  · next hlen => simp [not_not.mp hlen, eq_comm]

lemma hasPiece_fromBoxedSlice {bytes} :
    hasPiece { live with bitfield := BF.fromBoxedSlice bytes } p = true ↔
      ∃ byte, bytes[p.1 / 8]? = some byte ∧ byte.toNat.testBit (7 - p.1 % 8) := by
  rw [hasPiece_iff]
  rw [BF.getElem?_fromBoxedSlice, Option.map_eq_some_iff]

lemma hasPiece_makePieceBitfield (p : ValidPieceIndex L) :
    hasPiece { live with bitfield := BF.fromBoxedSlice (makePieceBitfield L) } p = false := by
  rw [hasPiece]
  rw [fromBoxedSlice_makePieceBitfield, getD_eq_getElem?_getD, getElem?_replicate]
  split <;> rfl

/-- A `Have` adds its piece, and nothing if it is none of the torrent's. -/
lemma hasPiece_onHave (hsized : live.bitfield = [] ∨ live.bitfield.length = L.pieceBits)
    (index : ℕ) (p : ValidPieceIndex L) :
    (live.onHave index).hasPiece p = true ↔ live.hasPiece p ∨ p.1 = index := by
  have hp := Lengths.lt_pieceBits p
  simp only [hasPiece_iff]
  rw [onHave]
  rcases hsized with hempty | hlen
  · rw [hempty]
    by_cases hindex : index = p.1
    · simp [hindex, hp]
    · simp [hindex, hp, Ne.symm hindex]
  · have hne : live.bitfield.isEmpty = false := by
      cases hbits : live.bitfield with
      | nil =>
        rw [hbits, length_nil] at hlen
        omega
      | cons b bits => rfl
    rw [hne, if_neg Bool.false_ne_true, getElem?_set, hlen]
    by_cases hindex : index = p.1
    · simp [hindex, hp]
    · simp [hindex, Ne.symm hindex]

end LivePeerState

/-! ## Whole connections -/

namespace Heard

variable {s s' : Heard L} {m : PieceMessage}

lemma Sized.step (h : s.Sized) (hstep : s.step m = some s') : s'.Sized := by
  obtain ⟨live, hlive, rfl⟩ := Option.map_eq_some_iff.mp hstep
  have hfield : ∀ bytes, s.live.onBitfield bytes = some live →
      live.bitfield.length = L.pieceBits := by
    intro bytes hbytes
    obtain ⟨hlen, rfl⟩ := onBitfield_eq_some.mp hbytes
    rw [BF.length_fromBoxedSlice, hlen, Lengths.pieceBits]
  refine .inr ?_
  cases m with
  | bitfield b => exact hfield b hlive
  | have_ index =>
    cases hlive
    rw [onHave, length_set]
    split
    · rw [length_replicate]
    · next hne => exact h.resolve_left fun hnil => hne (by rw [hnil]; rfl)
  | haveAll | haveNone => exact hfield _ hlive

/-- The test for the full torrent follows from the pieces. -/
lemma attributes_iff (h : s.Sized) :
    s.Attributes ↔ ∀ p, s.live.hasPiece p ↔ p ∈ s.pieces := by
  refine ⟨And.left, fun hpieces => ⟨hpieces, ?_⟩⟩
  rw [hasFullTorrent_iff h, Set.eq_univ_iff_forall]
  exact forall_congr' hpieces

/-- **Each message but `HaveAll` changes the field by its meaning**, and `HaveAll` never does. -/
theorem attributes_step_iff (h : s.Sized) (hpieces : ∀ p, s.live.hasPiece p ↔ p ∈ s.pieces)
    (hstep : s.step m = some s') :
    (∀ p, s'.live.hasPiece p ↔ p ∈ s'.pieces) ↔ m ≠ .haveAll := by
  obtain ⟨live, hlive, rfl⟩ := Option.map_eq_some_iff.mp hstep
  cases m with
  | bitfield b =>
    obtain ⟨-, rfl⟩ := onBitfield_eq_some.mp hlive
    exact iff_of_true (fun p => hasPiece_fromBoxedSlice) PieceMessage.noConfusion
  | have_ index =>
    cases hlive
    refine iff_of_true (fun p => ?_) PieceMessage.noConfusion
    exact (hasPiece_onHave h _ p).trans (or_congr_left (hpieces p))
  | haveAll =>
    obtain ⟨-, rfl⟩ := onBitfield_eq_some.mp hlive
    refine iff_of_false (fun hall => ?_) (fun hne => hne rfl)
    have hfirst := (hall ⟨0, Nat.succ_pos _⟩).mpr (Set.mem_univ _)
    rw [hasPiece_makePieceBitfield] at hfirst
    cases hfirst
  | haveNone =>
    obtain ⟨-, rfl⟩ := onBitfield_eq_some.mp hlive
    refine iff_of_true (fun p => iff_of_false ?_ (Set.notMem_empty p)) PieceMessage.noConfusion
    exact Bool.eq_false_iff.mp (hasPiece_makePieceBitfield p)

/-- **The pieces of a peer are those it told us of exactly as long as no `HaveAll` comes.** -/
theorem attributes_iff_no_haveAll (L : Lengths) (peerInterested : Bool) (ms : List PieceMessage) :
    Always step Attributes { live := ({ peerInterested } : LivePeerState L) } ms ↔
      Along step (fun _ m => m ≠ .haveAll) { live := ({ peerInterested } : LivePeerState L) }
        ms := by
  have hsized : Sized { live := ({ peerInterested } : LivePeerState L) } := .inl rfl
  refine always_iff_along_of_invariant (fun s m s' h hstep => h.step hstep)
    (fun s m s' h hattr hstep => ?_) hsized ?_ ms
  · rw [attributes_iff (h.step hstep)]
    exact attributes_step_iff h hattr.1 hstep
  · rw [attributes_iff hsized]
    exact fun p => iff_of_false (by simp [hasPiece]) (Set.notMem_empty p)

/-- **A peer that has every piece is taken for one that has none.** -/
theorem not_attributes_haveAll : ¬ Always step Attributes
      { live := ({ peerInterested := false } : LivePeerState Lengths.onePiece) } [.haveAll] := by
  intro h
  have hlast : Attributes ⟨{ peerInterested := false, bitfield := List.replicate 8 false },
      Set.univ⟩ := h.last rfl
  have hfirst := (hlast.1 0).mpr (Set.mem_univ _)
  revert hfirst
  decide

end Heard

end Librtbit
