import Librtbit.Machinery.Ring
import Librtbit.Wire.Frames

/-!
# Wire/ReadBuf — reading messages from a connection

`ReadBuf` is a ring of 32 KiB between a connection and the decoder.  A connection delivers its bytes
in segments, which have nothing to do with frames; `read_message` decodes what is in the ring, and
reads on, or moves the contents to the front, until that gives a message.

What is in the ring and what is still to come make up the unread stream (`Reader.pending`): reading
on moves bytes from one part to the other and nothing is lost.  So what a call returns is the first
message of the unread stream (`Reader.readMessage_spec`), and a sequence of calls returns the
messages of the stream, wherever the ring wraps.
-/

namespace Librtbit.Wire

open Machinery Wire.Message List

/-- `BUFLEN`. -/
def bufLen : ℕ := 0x8000

lemma bufLen_pos : 0 < bufLen := by decide

/-- `Error`, as far as reading a message goes. -/
inductive ReadError where
  /-- `bug: make_contiguous() called on a contiguous buffer; start={start} len={len}` -/
  | bugReadBufMakeContiguous (start len : ℕ)
  /-- `read buffer is full. need_additional_bytes={need_additional_bytes}` -/
  | readBufFull (needAdditionalBytes : ℕ)
  /-- `peer disconnected` -/
  | peerDisconnected
  /-- `error deserializing message: {0:#}` -/
  | deserialize (e : MessageDeserializeError)
  deriving DecidableEq

/-- A ringbuffer for reading bittorrent messages from socket. -/
abbrev ReadBuf : Type := Ring UInt8 bufLen

namespace ReadBuf

def new : ReadBuf := Ring.empty 0 bufLen_pos

/-- `u16::try_from(…).unwrap_or(u16::MAX)`. -/
def asU16 (n : ℕ) : ℕ := if n < 2 ^ 16 then n else 2 ^ 16 - 1

variable (b : ReadBuf)

def isContiguous : Bool := b.start + b.len == (b.start + b.len) % bufLen

def makeContiguous : Except ReadError ReadBuf :=
  if b.isContiguous then .error (.bugReadBufMakeContiguous (asU16 b.start) (asU16 b.len))
  else .ok (b.rebase 0 b.length_contents)

/-- `as_slices!`. -/
def asSlices : DoubleBuf := ⟨b.slices.1, b.slices.2⟩

def isFull : Bool := b.len == bufLen

end ReadBuf

/-- What a connection still delivers before it is closed: segments, none of them empty. -/
structure Conn where
  segments : List { s : ByteBuf // 0 < s.length }

namespace Conn

/-- All that is still delivered. -/
def stream (c : Conn) : ByteBuf := c.segments.flatMap fun s => s.val

/-- `read_vectored` into `space` bytes: a segment, or as much of it as there is space for. -/
def readVectored (c : Conn) (space : ℕ) : ByteBuf × Conn :=
  match c.segments with
  | [] => ([], c)
  | s :: rest =>
    if h : s.val.length ≤ space then (s.val, ⟨rest⟩)
    else (s.val.take space, ⟨⟨s.val.drop space, by rw [length_drop]; omega⟩ :: rest⟩)

lemma length_readVectored_le (c : Conn) (space : ℕ) :
    (c.readVectored space).1.length ≤ space := by
  rw [readVectored]
  split
  · exact Nat.zero_le _
  · split
    · assumption
    · exact length_take_le _ _

/-- **A read takes from the front of the stream.** -/
theorem readVectored_append (c : Conn) (space : ℕ) :
    (c.readVectored space).1 ++ (c.readVectored space).2.stream = c.stream := by
  obtain ⟨segments⟩ := c
  cases segments with
  | nil => rfl
  | cons s rest =>
    rw [readVectored]
    dsimp only
    split
    · rfl
    · simp only [stream, flatMap_cons, ← append_assoc, take_append_drop]

/-- **A read that finds space comes back empty only at the end.** -/
theorem stream_eq_nil_of_readVectored {c : Conn} {space : ℕ} (hspace : 0 < space)
    (h : (c.readVectored space).1 = []) : c.stream = [] := by
  obtain ⟨segments⟩ := c
  cases segments with
  | nil => rfl
  | cons s rest =>
    have hpos := s.property
    rw [readVectored] at h
    dsimp only at h
    have hlen := congrArg List.length h
    split at hlen
    · exact absurd hlen hpos.ne'
    · rw [length_take, length_nil] at hlen
      omega

end Conn

/-- A connection and the buffer it is read into. -/
structure Reader where
  buf : ReadBuf
  conn : Conn

namespace Reader

/-- The unread stream. -/
def pending (r : Reader) : ByteBuf := r.buf.contents ++ r.conn.stream

/-- One read into the free part of the buffer. -/
def receive (r : Reader) : Reader where
  buf := r.buf.push (r.conn.readVectored r.buf.free).1 (r.conn.length_readVectored_le _)
  conn := (r.conn.readVectored r.buf.free).2

/-- The inner loop: read on until `need` more bytes have arrived. -/
def readMore (need : ℕ) (r : Reader) : Outcome ReadError Unit × Reader :=
  if need = 0 then (.ok (), r)
  else if r.buf.isFull then (.err (.readBufFull (ReadBuf.asU16 need)), r)
  else
    let size := (r.conn.readVectored r.buf.free).1.length
    if size = 0 then (.err .peerDisconnected, r)
    else readMore (need - size) r.receive
termination_by need

/-- `read_message`, with at most `fuel` rounds of its loop. -/
def readMessage : (fuel : ℕ) → Reader → Option (Outcome ReadError Message × Reader)
  | 0, _ => none
  | fuel + 1, r =>
    match deserializeBuf r.buf.asSlices with
    | .ok (msg, size) => some (.ok msg, { r with buf := r.buf.advance size })
    | .err (.notEnoughData need _) =>
      match r.readMore need with
      | (.ok (), r) => readMessage fuel r
      | (.err e, r) => some (.err e, r)
      | (.abort f, r) => some (.abort f, r)
    | .err .needContiguous =>
      match r.buf.makeContiguous with
      | .ok buf => readMessage fuel { r with buf }
      | .error e => some (.err e, r)
    | .err e => some (.err (.deserialize e), r)
    | .abort f => some (.abort f, r)

/-- `k` calls one after the other, each of which returns a message. -/
def readMessages (fuel : ℕ) : (k : ℕ) → Reader → Option (List Message × Reader)
  | 0, r => some ([], r)
  | k + 1, r => do
    match ← readMessage fuel r with
    | (.ok msg, r) =>
      let (msgs, r) ← readMessages fuel k r
      return (msg :: msgs, r)
    | _ => none

/-! ## Nothing is lost -/

variable (r : Reader)

@[simp] lemma pending_receive : r.receive.pending = r.pending := by
  rw [pending, receive, Ring.contents_push, append_assoc, Conn.readVectored_append, pending]

lemma length_pending : r.pending.length = r.buf.len + r.conn.stream.length := by
  rw [pending, length_append, Ring.length_contents]

/-- **How the inner loop ends**: the bytes have arrived, the buffer has no room for them, or the
connection does not have them. -/
theorem readMore_spec (need : ℕ) (r : Reader) : (r.readMore need).2.pending = r.pending ∧
    ((r.readMore need).1 = .ok () ∧
        (r.readMore need).2.conn.stream.length + need ≤ r.conn.stream.length ∨
      (∃ k, (r.readMore need).1 = .err (.readBufFull k)) ∧ bufLen < r.buf.len + need ∨
      (r.readMore need).1 = .err .peerDisconnected ∧ r.pending.length < r.buf.len + need) := by
  induction need using Nat.strong_induction_on generalizing r with
  | _ need ih =>
    rw [readMore]
    split
    · rename_i hneed
      exact ⟨rfl, .inl ⟨rfl, by rw [hneed, Nat.add_zero]⟩⟩
    rename_i hneed
    split
    · rename_i hfull
      have hlen : r.buf.len = bufLen := beq_iff_eq.mp hfull
      exact ⟨rfl, .inr (.inl ⟨⟨_, rfl⟩, by omega⟩)⟩
    rename_i hfull
    have hle := r.buf.len_le
    have hfree : r.buf.free = bufLen - r.buf.len := rfl
    have hroom : 0 < r.buf.free := by
      have hne : r.buf.len ≠ bufLen := fun h => hfull (beq_iff_eq.mpr h)
      omega
    dsimp only
    split
    · rename_i hsize
      have hend := Conn.stream_eq_nil_of_readVectored hroom (eq_nil_of_length_eq_zero hsize)
      refine ⟨rfl, .inr (.inr ⟨rfl, ?_⟩)⟩
      rw [length_pending, hend, length_nil]
      omega
    · rename_i hsize
      have hspace := r.conn.length_readVectored_le r.buf.free
      have hsplit := congrArg List.length (r.conn.readVectored_append r.buf.free)
      have hpending := length_pending r.receive
      rw [length_append] at hsplit
      rw [pending_receive] at hpending
      obtain ⟨hsame, hend⟩ := ih _ (Nat.sub_lt (Nat.pos_of_ne_zero hneed)
        (Nat.pos_of_ne_zero hsize)) r.receive
      have hlen : r.receive.buf.len = r.buf.len + (r.conn.readVectored r.buf.free).1.length := rfl
      have hconn : r.receive.conn = (r.conn.readVectored r.buf.free).2 := rfl
      rw [pending_receive] at hsame hend
      rw [hconn] at hpending hend
      refine ⟨hsame, hend.imp ?_ (Or.imp ?_ ?_)⟩
      · rintro ⟨hok, hstream⟩
        exact ⟨hok, by omega⟩
      · rintro ⟨herr, hlong⟩
        exact ⟨herr, by omega⟩
      · rintro ⟨herr, hlong⟩
        exact ⟨herr, by omega⟩

/-! ## One call -/

lemma join_asSlices (b : ReadBuf) : b.asSlices.join = b.contents := rfl

/-- **The buffer is made contiguous only when it is not**, and keeps its contents. -/
theorem makeContiguous_of_not_whole {b : ReadBuf} (h : ¬ b.asSlices.Whole) :
    ∃ b', b.makeContiguous = .ok b' ∧ b'.asSlices = ⟨b.contents, []⟩ := by
  have hwrap : bufLen < b.start + b.len := b.lt_of_slices_ne_nil fun hnil => h (.inr hnil)
  have hmod : (b.start + b.len) % bufLen < bufLen := Nat.mod_lt _ bufLen_pos
  have hcontig : b.isContiguous = false := by
    rw [ReadBuf.isContiguous, beq_eq_false_iff_ne]
    omega
  refine ⟨b.rebase 0 b.length_contents, ?_, ?_⟩
  · rw [ReadBuf.makeContiguous, hcontig]
    rfl
  · rw [ReadBuf.asSlices, b.slices_rebase]

/-- What a call makes of the unread stream: it returns its first message and leaves the rest, or it
fails, and then there is no message or it does not fit into the buffer. -/
def Answers (r : Reader) (res : Outcome ReadError Message) (r' : Reader) : Prop :=
  (∃ m m' n, deserialize r.pending [] = .ok (m, n) ∧ res = .ok m' ∧
      m'.joined = m.joined ∧ r'.pending = r.pending.drop n) ∨
  (∃ e, res = .err e ∧ (∀ start len, e ≠ .bugReadBufMakeContiguous start len) ∧
    ∀ m n, deserialize r.pending [] = .ok (m, n) → bufLen < n)

lemma Answers.of_pending_eq {r r₁ r' res}
    (h : Answers r₁ res r') (hp : r₁.pending = r.pending) : Answers r res r' := by
  rwa [Answers, hp] at h

/-- What is in the buffer decodes as its contents in one slice do. -/
lemma deserializeBuf_asSlices (b : ReadBuf) :
    deserializeBuf b.asSlices = .err .needContiguous ∧ ¬ b.asSlices.Whole ∨
      joinedResult <$> deserializeBuf b.asSlices =
        joinedResult <$> deserialize b.contents [] ∧
      deserialize b.contents [] ≠ .err .needContiguous := by
  have hrecut : Recut b.asSlices ⟨b.contents, []⟩ :=
    ⟨by rw [join_asSlices, DoubleBuf.join_mk, append_nil], .inr rfl⟩
  obtain ⟨hwhole, hsame⟩ := agrees_deserializeBuf hrecut
  rcases hsame with ⟨hneed, hcut⟩ | hsame
  · left
    refine ⟨?_, hcut⟩
    cases hd : deserializeBuf b.asSlices with
    | ok | abort => simp [hd] at hneed
    | err e =>
      rw [hd] at hneed
      exact hneed
  · right
    refine ⟨hsame, fun hneed => hwhole ?_⟩
    rw [deserialize] at hneed
    rw [hneed]
    rfl

variable {m : Message} {n : ℕ}

/-- **A frame that does not become complete** holds no message, or is longer than the buffer. -/
theorem bufLen_lt_of_incomplete {r : Reader}
    (hend : bufLen < needed r.buf.contents ∨ r.pending.length < needed r.buf.contents)
    (h : deserialize r.pending [] = .ok (m, n)) : bufLen < n := by
  obtain ⟨h4, rfl, hle⟩ := eq_frameLen_of_deserialize h
  have hpos : 4 < bufLen := by decide
  rw [needed] at hend
  by_cases hshort : r.buf.contents.length < 4
  · rw [if_pos hshort] at hend
    omega
  have hframe : frameLen r.pending = frameLen r.buf.contents :=
    frameLen_append (Nat.not_lt.mp hshort) _
  rw [if_neg hshort] at hend
  omega

variable {fuel : ℕ}

/-- **A call returns the first message of the unread stream.** -/
theorem readMessage_spec
    (hfuel : 2 * r.conn.stream.length + (if r.buf.asSlices.Whole then 0 else 1) < fuel) :
    ∃ res r', readMessage fuel r = some (res, r') ∧ Answers r res r' := by
  induction fuel generalizing r with
  | zero => exact absurd hfuel (Nat.not_lt_zero _)
  | succ fuel ih =>
    have horderly := orderly_deserializeBuf r.buf.asSlices
    rw [readMessage]
    rcases deserializeBuf_asSlices r.buf with ⟨hneed, hcut⟩ | ⟨hsame, hwhole⟩
    · -- the contents are moved to the front, and decoded once more
      obtain ⟨b, hb, hslices⟩ := makeContiguous_of_not_whole hcut
      have hcontents : b.contents = r.buf.contents := by
        rw [← join_asSlices, hslices, DoubleBuf.join_mk, append_nil]
      have hpending : ({ r with buf := b } : Reader).pending = r.pending := by
        rw [pending, pending, hcontents]
      have hwhole : b.asSlices.Whole := .inr (congrArg DoubleBuf.buf1 hslices)
      rw [hneed, hb]
      rw [if_neg hcut] at hfuel
      obtain ⟨res, r', hres, hans⟩ := ih { r with buf := b } (by
        show 2 * r.conn.stream.length + (if b.asSlices.Whole then 0 else 1) < fuel
        rw [if_pos hwhole]
        omega)
      exact ⟨res, r', hres, hans.of_pending_eq hpending⟩
    cases hd : deserializeBuf r.buf.asSlices with
    | abort f => exact absurd hd (horderly.1 f)
    | ok result =>
      obtain ⟨m', n⟩ := result
      rw [hd] at hsame
      cases hc : deserialize r.buf.contents [] with
      | err e | abort f => simp [hc] at hsame
      | ok result =>
        obtain ⟨m, n'⟩ := result
        rw [hc] at hsame
        obtain ⟨hjoined, rfl⟩ := Prod.mk.inj (Outcome.ok.inj hsame)
        obtain ⟨h4, hn, hle⟩ := eq_frameLen_of_deserialize hc
        refine ⟨_, _, rfl, .inl ⟨m, m', n, (deserialize_append h4 hle _).trans hc,
          rfl, hjoined, ?_⟩⟩
        rw [pending, Ring.contents_advance, pending, drop_append_of_le_length (by omega)]
    | err e =>
      have hc : deserialize r.buf.contents [] = .err e := by
        rw [hd] at hsame
        cases hc : deserialize r.buf.contents [] with
        | ok result | abort f => simp [hc] at hsame
        | err e' =>
          rw [hc] at hsame
          exact hsame.symm
      -- once what is made of the contents is settled, the stream has no message
      have hsettled : needed r.buf.contents ≤ r.buf.contents.length →
          ∀ m n, deserialize r.pending [] = .ok (m, n) → bufLen < n := by
        intro hle m n hok
        rw [pending, deserialize_append_of_needed hle, hc] at hok
        cases hok
      have hneeded : r.buf.contents.length < needed r.buf.contents →
          ∃ msgId, e = .notEnoughData (needed r.buf.contents - r.buf.contents.length) msgId := by
        intro hlt
        obtain ⟨msgId, hmissing⟩ := deserialize_of_lt_needed hlt
        exact ⟨msgId, Outcome.err.inj (hc.symm.trans hmissing)⟩
      cases e with
      | needContiguous => exact absurd hc hwhole
      | notEnoughData need msgId =>
        have hpos : 0 < need := horderly.2 need msgId hd
        have hend : bufLen < r.buf.len + need ∨ r.pending.length < r.buf.len + need →
            ∀ m n, deserialize r.pending [] = .ok (m, n) → bufLen < n := by
          intro hend m n hok
          rcases Nat.lt_or_ge r.buf.contents.length (needed r.buf.contents) with hlt | hle
          · obtain ⟨_, hneed⟩ := hneeded hlt
            rw [MessageDeserializeError.notEnoughData.injEq] at hneed
            rw [Ring.length_contents] at hneed hlt
            refine bufLen_lt_of_incomplete (hend.imp ?_ ?_) hok
            · omega
            · omega
          · exact hsettled hle m n hok
        obtain ⟨hpending, hmore⟩ := readMore_spec need r
        dsimp only
        generalize r.readMore need = more at hpending hmore
        obtain ⟨out, r₁⟩ := more
        dsimp only at hpending hmore
        rcases hmore with ⟨rfl, hstream⟩ | ⟨⟨k, rfl⟩, hlong⟩ | ⟨rfl, hlong⟩
        · obtain ⟨res, r', hres, hans⟩ := ih r₁ (by split <;> omega)
          exact ⟨res, r', hres, hans.of_pending_eq hpending⟩
        · exact ⟨_, r₁, rfl, .inr ⟨_, rfl, by simp, hend (.inl hlong)⟩⟩
        · exact ⟨_, r₁, rfl, .inr ⟨_, rfl, by simp, hend (.inr hlong)⟩⟩
      | _ =>
        refine ⟨_, _, rfl, .inr ⟨_, rfl, by simp, hsettled ?_⟩⟩
        by_contra hlt
        obtain ⟨_, hcontra⟩ := hneeded (Nat.not_le.mp hlt)
        cases hcontra

/-! ## A whole stream -/

/-- The messages of a stream fit into the buffer. -/
def FramesFit (s : ByteBuf) : Prop := ∀ f ∈ frames s, f.2 ≤ bufLen

/-- The stream behind its first `k` frames. -/
def afterFrames (k : ℕ) (s : ByteBuf) : ByteBuf := s.drop (((frames s).take k).map Prod.snd).sum

lemma afterFrames_succ {s} (h : deserialize s [] = .ok (m, n)) (k : ℕ) :
    afterFrames (k + 1) s = afterFrames k (s.drop n) := by
  rw [afterFrames, frames_of_ok h, take_succ_cons, map_cons, sum_cons, ← drop_drop, afterFrames]

lemma readMessage_of_fuel (hfuel : 2 * r.pending.length + 1 < fuel) :
    ∃ res r', readMessage fuel r = some (res, r') ∧ Answers r res r' := by
  refine readMessage_spec r ?_
  rw [length_pending] at hfuel
  split <;> omega

lemma FramesFit.tail {s} (h : FramesFit s)
    (hs : deserialize s [] = .ok (m, n)) : n ≤ bufLen ∧ FramesFit (s.drop n) := by
  rw [FramesFit, frames_of_ok hs, forall_mem_cons] at h
  exact h

/-- **A sequence of calls returns the messages of the stream**, one by one. -/
theorem readMessages_spec (k : ℕ) (r : Reader) (hfit : FramesFit r.pending)
    (hfuel : 2 * r.pending.length + 1 < fuel) (hk : k ≤ (frames r.pending).length) :
    ∃ msgs r', readMessages fuel k r = some (msgs, r') ∧
      msgs.map joined =
        ((frames r.pending).take k).map (fun f => f.1.joined) ∧
      r'.pending = afterFrames k r.pending := by
  induction k generalizing r with
  | zero => exact ⟨[], r, rfl, rfl, rfl⟩
  | succ k ih =>
    obtain ⟨res, r₁, hres, hans⟩ := readMessage_of_fuel r hfuel
    -- there is a message, and it fits
    obtain ⟨m, n, hmsg⟩ : ∃ m n, deserialize r.pending [] = .ok (m, n) := by
      by_contra hnone
      rw [frames_eq_nil fun m n h => hnone ⟨m, n, h⟩] at hk
      exact absurd hk (Nat.not_succ_le_zero k)
    obtain ⟨hn, hrest⟩ := hfit.tail hmsg
    rcases hans with ⟨m₁, m', n', hmsg', rfl, hjoined, hpending⟩ | ⟨e, rfl, -, hlong⟩
    · obtain ⟨rfl, rfl⟩ := Prod.mk.inj (Outcome.ok.inj (hmsg'.symm.trans hmsg))
      rw [frames_of_ok hmsg, length_cons, ← hpending] at hk
      rw [← hpending] at hrest
      have hle : r₁.pending.length ≤ r.pending.length := by
        rw [hpending, length_drop]
        exact Nat.sub_le _ _
      obtain ⟨msgs, r', hmsgs, hmap, hafter⟩ := ih r₁ hrest (by omega) (by omega)
      refine ⟨m' :: msgs, r', ?_, ?_, ?_⟩
      · rw [readMessages, hres]
        simp only [Option.bind_eq_bind, Option.bind_some, hmsgs]
        rfl
      · rw [frames_of_ok hmsg, take_succ_cons, map_cons, map_cons, hjoined, hmap, hpending]
      · rw [hafter, hpending, afterFrames_succ hmsg]
    · exact absurd (hlong m n hmsg) (Nat.not_lt.mpr hn)

lemma deserialize_afterFrames (s : ByteBuf) (m : Message) (n : ℕ) :
    deserialize (afterFrames (frames s).length s) [] ≠ .ok (m, n) := by
  induction hlen : (frames s).length generalizing s with
  | zero =>
    intro h
    rw [afterFrames, take_zero, map_nil, sum_nil, drop_zero] at h
    rw [frames_of_ok h] at hlen
    cases hlen
  | succ k ih =>
    obtain ⟨m', n', h⟩ : ∃ m n, deserialize s [] = .ok (m, n) := by
      by_contra hnone
      rw [frames_eq_nil fun m n h => hnone ⟨m, n, h⟩] at hlen
      cases hlen
    rw [afterFrames_succ h]
    refine ih _ ?_
    rw [frames_of_ok h] at hlen
    exact Nat.succ.inj hlen

/-- What reading from a connection is to do. -/
structure ReadsStream (r : Reader) : Prop where
  /-- The calls return the messages of the unread stream, and leave what follows them. -/
  messages : ∀ fuel, 2 * r.pending.length + 1 < fuel →
    ∀ k ≤ (frames r.pending).length, ∃ msgs r', readMessages fuel k r = some (msgs, r') ∧
      msgs.map joined =
        ((frames r.pending).take k).map (fun f => f.1.joined) ∧
      r'.pending = afterFrames k r.pending ∧ r'.buf.start < bufLen ∧ r'.buf.len ≤ bufLen
  /-- The call behind the last message fails, and not because of the buffer's own state. -/
  last : ∀ fuel, 2 * r.pending.length + 1 < fuel →
    ∃ msgs r' e r'', readMessages fuel (frames r.pending).length r = some (msgs, r') ∧
      readMessage fuel r' = some (.err e, r'') ∧
      ∀ start len, e ≠ .bugReadBufMakeContiguous start len
  /-- Where the decoder asks for it, the buffer can be made contiguous and keeps its contents. -/
  contiguous : ∀ b : ReadBuf, deserializeBuf b.asSlices = .err .needContiguous →
    ∃ b', b.makeContiguous = .ok b' ∧ b'.contents = b.contents ∧ b'.asSlices.Whole
  /-- The inner loop ends once the bytes it waits for have arrived. -/
  more : ∀ (r : Reader) (need : ℕ), need ≤ r.conn.stream.length → r.buf.len + need ≤ bufLen →
    (r.readMore need).1 = .ok () ∧ (r.readMore need).2.pending = r.pending

/-- **The messages that are read are the messages of the stream**, however it is cut into segments
and wherever the ring wraps, if they fit into the buffer. -/
theorem readsStream (r : Reader) (hfit : FramesFit r.pending) : ReadsStream r where
  messages fuel hfuel k hk := by
    obtain ⟨msgs, r', hmsgs, hmap, hafter⟩ := readMessages_spec k r hfit hfuel hk
    exact ⟨msgs, r', hmsgs, hmap, hafter, r'.buf.start_lt, r'.buf.len_le⟩
  last fuel hfuel := by
    obtain ⟨msgs, r', hmsgs, -, hafter⟩ := readMessages_spec _ r hfit hfuel (Nat.le_refl _)
    have hle : r'.pending.length ≤ r.pending.length := by
      rw [hafter, afterFrames, length_drop]
      exact Nat.sub_le _ _
    have hfuel' : 2 * r'.pending.length + 1 < fuel := by omega
    obtain ⟨res, r'', hres, hans⟩ := readMessage_of_fuel r' hfuel'
    rcases hans with ⟨m, m', n, hmsg, -⟩ | ⟨e, rfl, hbug, -⟩
    · rw [hafter] at hmsg
      exact absurd hmsg (deserialize_afterFrames _ m n)
    · exact ⟨msgs, r', e, r'', hmsgs, hres, hbug⟩
  contiguous b h := by
    rcases deserializeBuf_asSlices b with ⟨-, hcut⟩ | ⟨hsame, hwhole⟩
    · obtain ⟨b', hb', hslices⟩ := makeContiguous_of_not_whole hcut
      refine ⟨b', hb', ?_, .inr (congrArg DoubleBuf.buf1 hslices)⟩
      rw [← join_asSlices, hslices, DoubleBuf.join_mk, append_nil]
    rw [h] at hsame
    cases hc : deserialize b.contents [] with
    | ok result | abort f => simp [hc] at hsame
    | err e =>
      rw [hc] at hsame
      exact absurd (hc.trans hsame.symm) hwhole
  more r need harrived hroom := by
    obtain ⟨hpending, hok | ⟨-, hlong⟩ | ⟨-, hlong⟩⟩ := readMore_spec need r
    · exact ⟨hok.1, hpending⟩
    · omega
    · rw [length_pending] at hlong
      omega

/-- A connection that sends a message in two segments. -/
def twoSegments : Conn := ⟨[⟨[0, 0], by decide⟩, ⟨[0, 1, 2], by decide⟩]⟩

theorem readsStream_twoSegments : FramesFit (⟨ReadBuf.new, twoSegments⟩ : Reader).pending ∧
      ReadsStream ⟨ReadBuf.new, twoSegments⟩ := by
  have hpending : (⟨ReadBuf.new, twoSegments⟩ : Reader).pending = [0, 0, 0, 1, 2] := by
    rfl
  have hmsg : deserialize [0, 0, 0, 1, 2] [] = .ok (.interested, 5) := rfl
  have hfit : FramesFit (⟨ReadBuf.new, twoSegments⟩ : Reader).pending := by
    intro f hf
    rw [hpending, frames_of_ok hmsg, frames_eq_nil, mem_singleton] at hf
    · rw [hf]
      decide
    · intro m n h
      cases h
  exact ⟨hfit, readsStream _ hfit⟩

end Reader

end Librtbit.Wire
