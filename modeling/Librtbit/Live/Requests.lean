import Librtbit.Core.Lengths
import Librtbit.Machinery.Run

/-!
# Live/Requests — requests, cancellations and replies on their way

One connection with an honest peer, and the messages that are on their way between the two.  The
peer answers what it was asked for, each request at most once, and no request that it has read the
cancellation of.  Messages are delivered in order, each whenever it is; and at any time another peer
can steal a piece from this one.

A steal takes the requests of the piece out of `inflight_requests` at once, and a reply that is
not among them ends the connection.  But the reply can be on its way by then, or be made before the
cancellation is read, or answer a request that is sent after its cancellation: `request` and
`sendRequest` are two steps, between which the requester waits for the rate limits.

* `PeerLink.neverRefused_iff_answersWaiting` — whatever is delivered next, no reply will be refused,
  exactly as long as replies are made to requests that still stand and no piece is stolen that a
  reply is on its way for.
-/

namespace Librtbit

open Machinery List

variable {L : Lengths}

/-! ## The connection -/

/-- What we send. -/
inductive OurMessage (L : Lengths) where
  | request (chunk : ChunkInfo L)
  | cancel (chunk : ChunkInfo L)

/-- What the peer sends; a reply to a request names the chunk of the request. -/
inductive TheirMessage (L : Lengths) where
  | piece (chunk : ChunkInfo L)
  | choke
  | unchoke

/-- The chunk of a reply. -/
def TheirMessage.piece? : TheirMessage L → Option (ChunkInfo L)
  | .piece chunk => some chunk
  | .choke | .unchoke => none

/-- What `task_peer_chunk_requester` is at. -/
inductive ChunkRequester (L : Lengths) where
  | idle
  | requesting (chunks : List (ChunkInfo L))
  /-- The request is in `inflight_requests` and waits for the rate limits and for a permit. -/
  | limited (chunk : ChunkInfo L) (chunks : List (ChunkInfo L))

structure PeerLink (L : Lengths) where
  inflightRequests : List (ChunkInfo L) := []
  iAmChoked : Bool := true
  requester : ChunkRequester L := .idle
  requestsSem : ℕ := 0
  /-- Our messages on their way to the peer. -/
  sent : List (OurMessage L) := []
  /-- The requests that the peer has read and has not answered. -/
  asked : List (ChunkInfo L) := []
  /-- The messages of the peer on their way to us. -/
  coming : List (TheirMessage L) := []
  /-- The peer sent us a piece we did not ask. -/
  disconnected : Bool := false

inductive PeerLinkStep (L : Lengths) where
  /-- `acquire_next_piece` gives us a piece. -/
  | acquire (p : ValidPieceIndex L)
  /-- The next chunk of the piece enters `inflight_requests`… -/
  | request
  /-- …and is requested from the peer. -/
  | sendRequest
  /-- `on_steal`, with this peer as the one that is stolen from. -/
  | onSteal (stolenIdx : ValidPieceIndex L)
  /-- The next message of the peer is handled. -/
  | receive
  /-- The peer reads our next message. -/
  | peerReads
  | peerAnswers (chunk : ChunkInfo L)
  | peerChokes
  | peerUnchokes

namespace PeerLink

variable (s : PeerLink L)

/-- One turn of the loop over the chunks of a piece: a chunk that is in flight already is left
out. -/
def request : Option (PeerLink L) :=
  match s.requester with
  | .requesting [] => some { s with requester := .idle }
  | .requesting (chunk :: chunks) =>
    if chunk ∈ s.inflightRequests then some { s with requester := .requesting chunks }
    else
      some { s with
        inflightRequests := chunk :: s.inflightRequests
        requester := .limited chunk chunks }
  | .idle | .limited .. => none

def sendRequest : Option (PeerLink L) :=
  match s.requester, s.requestsSem with
  | .limited chunk chunks, requestsSem + 1 =>
    some { s with
      requester := .requesting chunks, requestsSem
      sent := s.sent ++ [.request chunk] }
  | _, _ => none

/-- The requests of the piece are cancelled. -/
def onSteal (stolenIdx : ValidPieceIndex L) : PeerLink L :=
  { s with
    inflightRequests := s.inflightRequests.filter fun req => req.pieceIndex ≠ stolenIdx
    sent := s.sent ++
      (s.inflightRequests.filter fun req => req.pieceIndex = stolenIdx).map .cancel }

/-- `on_received_piece`, up to where it finds the chunk in `inflight_requests` or not. -/
def onReceivedPiece (chunk : ChunkInfo L) : PeerLink L :=
  { s with
    requestsSem := s.requestsSem + 1
    inflightRequests := s.inflightRequests.erase chunk
    disconnected := decide (chunk ∉ s.inflightRequests) }

def onMessage : TheirMessage L → PeerLink L
  | .piece chunk => s.onReceivedPiece chunk
  | .choke => { s with iAmChoked := true }
  | .unchoke => { s with iAmChoked := false, requestsSem := s.requestsSem + 128 }

/-- The peer reads a request, or a cancellation. -/
def peerReads : OurMessage L → PeerLink L
  | .request chunk => { s with asked := s.asked ++ [chunk] }
  | .cancel chunk => { s with asked := s.asked.filter fun req => req ≠ chunk }

/-- The peer answers one of the requests. -/
def peerAnswers (chunk : ChunkInfo L) : PeerLink L :=
  { s with asked := s.asked.erase chunk, coming := s.coming ++ [.piece chunk] }

/-- **One step of the connection**, as long as it lasts. -/
def step (a : PeerLinkStep L) : Option (PeerLink L) :=
  if s.disconnected then none
  else
    match a with
    | .acquire p =>
      match s.requester with
      | .idle =>
        if s.iAmChoked then none else some { s with requester := .requesting (L.iterChunkInfos p) }
      | .requesting _ | .limited .. => none
    | .request => s.request
    | .sendRequest => s.sendRequest
    | .onSteal stolenIdx => some (s.onSteal stolenIdx)
    | .receive =>
      match s.coming with
      | [] => none
      | m :: coming => some ({ s with coming }.onMessage m)
    | .peerReads =>
      match s.sent with
      | [] => none
      | m :: sent => some ({ s with sent }.peerReads m)
    | .peerAnswers chunk =>
      if chunk ∈ s.asked then some (s.peerAnswers chunk) else none
    | .peerChokes => some { s with coming := s.coming ++ [.choke] }
    | .peerUnchokes => some { s with coming := s.coming ++ [.unchoke] }

/-! ## Replies that will be refused -/

variable {s} {s' : PeerLink L}

/-- The replies on their way. -/
def replies (s : PeerLink L) : List (ChunkInfo L) := s.coming.filterMap TheirMessage.piece?

/-- **Whatever is delivered next, the peer is not disconnected for a piece we did not ask for.** -/
def NeverRefused (s : PeerLink L) : Prop :=
  ∀ n, ∀ s' ∈ run step s (List.replicate n .receive), s'.disconnected = false

/-- Every reply on its way is to a request that stands, each to another one. -/
def AllWaiting (s : PeerLink L) : Prop :=
  s.disconnected = false ∧ ∀ chunk, s.replies.count chunk ≤ s.inflightRequests.count chunk

variable {coming : List (TheirMessage L)}

lemma step_receive (hdis : s.disconnected = false) {m} (hcoming : s.coming = m :: coming) :
    s.step .receive = some ({ s with coming }.onMessage m) := by
  simp [step, hdis, hcoming]

lemma coming_onMessage (m : TheirMessage L) : (s.onMessage m).coming = s.coming := by
  cases m <;> rfl

/-- The replies when the first of them is taken from its channel and its request from the others. -/
lemma count_erase_iff {chunk : ChunkInfo L} {rest requests : List (ChunkInfo L)}
    (hmem : chunk ∈ requests) :
    (∀ c, (chunk :: rest).count c ≤ requests.count c) ↔
      ∀ c, rest.count c ≤ (requests.erase chunk).count c := by
  have hpos : 0 < requests.count chunk := count_pos_iff.mpr hmem
  refine forall_congr' fun c => ?_
  rw [count_cons, count_erase]
  by_cases hc : chunk = c
  · subst hc
    simp only [beq_self_eq_true, if_true]
    omega
  · simp [hc]

/-- **Handling a message**: the replies that are left are waited for, and this one was. -/
theorem allWaiting_iff_onMessage (hdis : s.disconnected = false) {m}
    (hcoming : s.coming = m :: coming) :
    s.AllWaiting ↔ ({ s with coming }.onMessage m).AllWaiting := by
  cases m with
  | choke | unchoke =>
    rw [AllWaiting, replies, hcoming]
    exact Iff.rfl
  | piece chunk =>
    have hreplies : s.replies = chunk :: coming.filterMap TheirMessage.piece? := by
      rw [replies, hcoming]
      rfl
    rw [AllWaiting, AllWaiting, hreplies]
    by_cases hmem : chunk ∈ s.inflightRequests
    · rw [count_erase_iff hmem]
      simp [onMessage, onReceivedPiece, replies, hdis, hmem]
    refine iff_of_false (fun h => hmem ?_) fun h => ?_
    · refine count_pos_iff.mp (lt_of_lt_of_le ?_ (h.2 chunk))
      exact count_pos_iff.mpr mem_cons_self
    · simp [onMessage, onReceivedPiece, hmem] at h

/-- **A connection is safe exactly when every reply on its way is waited for.** -/
theorem neverRefused_iff_allWaiting : s.NeverRefused ↔ s.AllWaiting := by
  constructor
  · intro h
    have hdis : s.disconnected = false := h 0 s rfl
    generalize hcoming : s.coming = coming
    induction coming generalizing s with
    | nil =>
      refine ⟨hdis, fun chunk => ?_⟩
      rw [replies, hcoming]
      exact Nat.zero_le _
    | cons m coming ih =>
      have hstep := step_receive hdis hcoming
      have hnext : ({ s with coming }.onMessage m).NeverRefused := fun n s' hs' =>
        h (n + 1) s' (by rwa [replicate_succ, run, hstep])
      rw [allWaiting_iff_onMessage hdis hcoming]
      exact ih hnext (hnext 0 _ rfl) (coming_onMessage m)
  · intro h n
    induction n generalizing s with
    | zero =>
      rintro s' hs'
      cases hs'
      exact h.1
    | succ n ih =>
      intro s' hs'
      obtain ⟨next, hnext, hrest⟩ := Option.bind_eq_some_iff.mp hs'
      cases hcoming : s.coming with
      | nil => simp [step, hcoming] at hnext
      | cons m coming =>
        rw [step_receive h.1 hcoming, Option.some.injEq] at hnext
        subst hnext
        exact ih ((allWaiting_iff_onMessage h.1 hcoming).mp h) s' hrest

/-! ## Runs -/

/-- **The peer answers a request that stands**, for the first time; and no piece is stolen that a
reply is on its way for. -/
def AnswersWaiting (s : PeerLink L) : PeerLinkStep L → Prop
  | .onSteal stolenIdx => ∀ chunk ∈ s.replies, chunk.pieceIndex ≠ stolenIdx
  | .peerAnswers chunk => chunk ∈ s.inflightRequests ∧ chunk ∉ s.replies
  | _ => True

/-- What a step does to the requests that stand and to the replies on their way. -/
inductive Effect (s : PeerLink L) : PeerLinkStep L → PeerLink L → Prop
  | silent {a s'} (hwaiting : s.AnswersWaiting a)
      (hrequests : s'.inflightRequests = s.inflightRequests) (hreplies : s'.replies = s.replies)
      (hdis : s'.disconnected = s.disconnected) : Effect s a s'
  | requests {chunk s'} (hnew : chunk ∉ s.inflightRequests)
      (hrequests : s'.inflightRequests = chunk :: s.inflightRequests)
      (hreplies : s'.replies = s.replies) (hdis : s'.disconnected = s.disconnected) :
    Effect s .request s'
  | steals (stolenIdx) : Effect s (.onSteal stolenIdx) (s.onSteal stolenIdx)
  | receives {m coming} (hcoming : s.coming = m :: coming) :
    Effect s .receive ({ s with coming }.onMessage m)
  | answers (chunk) : Effect s (.peerAnswers chunk) (s.peerAnswers chunk)

lemma effect_of_request (hs : s.request = some s') : s.Effect .request s' := by
  rw [request] at hs
  split at hs
  · cases hs
    exact .silent trivial rfl rfl rfl
  · split at hs
    · cases hs
      exact .silent trivial rfl rfl rfl
    · next hnew =>
      cases hs
      exact .requests hnew rfl rfl rfl
  · cases hs
  · cases hs

lemma replies_append_of_none {m} (hm : m.piece? = none) :
    ({ s with coming := s.coming ++ [m] } : PeerLink L).replies = s.replies := by
  simp [replies, hm]

variable {a : PeerLinkStep L}

/-- **Every step does one of these.** -/
theorem effect_of_step (hs : s.step a = some s') : s.Effect a s' := by
  rw [step.eq_def] at hs
  split at hs
  · cases hs
  cases a with
  | acquire p =>
    dsimp only at hs
    split at hs
    · split at hs <;> cases hs
      exact .silent trivial rfl rfl rfl
    · cases hs
    · cases hs
  | request => exact effect_of_request hs
  | sendRequest =>
    dsimp only at hs
    rw [sendRequest] at hs
    split at hs <;> cases hs
    exact .silent trivial rfl rfl rfl
  | onSteal stolenIdx =>
    cases hs
    exact .steals stolenIdx
  | receive =>
    dsimp only at hs
    split at hs
    · cases hs
    · next hcoming =>
      cases hs
      exact .receives hcoming
  | peerReads =>
    dsimp only at hs
    split at hs
    · cases hs
    · next m _ _ =>
      cases hs
      cases m <;> exact .silent trivial rfl rfl rfl
  | peerAnswers chunk =>
    dsimp only at hs
    split at hs <;> cases hs
    exact .answers chunk
  | peerChokes | peerUnchokes =>
    cases hs
    exact .silent trivial rfl (replies_append_of_none rfl) rfl

/-- The requests that stand are a set. -/
lemma nodup_step (hnodup : s.inflightRequests.Nodup)
    (hs : s.step a = some s') : s'.inflightRequests.Nodup := by
  cases effect_of_step hs with
  | silent _ hrequests => rwa [hrequests]
  | requests hnew hrequests =>
    rw [hrequests]
    exact nodup_cons.mpr ⟨hnew, hnodup⟩
  | steals stolenIdx => exact hnodup.filter _
  | @receives m coming hcoming =>
    cases m with
    | piece chunk => exact hnodup.erase chunk
    | choke | unchoke => exact hnodup
  | answers chunk => exact hnodup

/-- **A steal** is harmless when no reply for the piece is on its way. -/
theorem allWaiting_onSteal (h : s.AllWaiting) (stolenIdx : ValidPieceIndex L) :
    (s.onSteal stolenIdx).AllWaiting ↔ ∀ chunk ∈ s.replies, chunk.pieceIndex ≠ stolenIdx := by
  constructor
  · rintro ⟨-, hcount⟩ chunk hchunk
    have hleft := count_pos_iff.mp ((count_pos_iff.mpr hchunk).trans_le (hcount chunk))
    simpa using (mem_filter.mp hleft).2
  refine fun hother => ⟨h.1, fun chunk => ?_⟩
  by_cases hchunk : chunk ∈ s.replies
  · have hkeep := hother chunk hchunk
    change _ ≤ (s.inflightRequests.filter fun req => req.pieceIndex ≠ stolenIdx).count chunk
    rw [count_filter (by simpa using hkeep)]
    exact h.2 chunk
  · exact (count_eq_zero.mpr hchunk).trans_le (Nat.zero_le _)

/-- **A reply** is harmless when its request stands and is not answered yet. -/
theorem allWaiting_peerAnswers (hnodup : s.inflightRequests.Nodup) (h : s.AllWaiting)
    (chunk : ChunkInfo L) :
    (s.peerAnswers chunk).AllWaiting ↔ chunk ∈ s.inflightRequests ∧ chunk ∉ s.replies := by
  have hreplies : (s.peerAnswers chunk).replies = s.replies ++ [chunk] := by
    simp [replies, peerAnswers, TheirMessage.piece?]
  have hrequests : (s.peerAnswers chunk).inflightRequests = s.inflightRequests := rfl
  rw [AllWaiting, hreplies, hrequests]
  constructor
  · rintro ⟨-, hcount⟩
    have hchunk := hcount chunk
    rw [count_append, count_singleton_self] at hchunk
    have hle := nodup_iff_count_le_one.mp hnodup chunk
    exact ⟨count_pos_iff.mp (by omega), count_eq_zero.mp (by omega)⟩
  · rintro ⟨hmem, hnot⟩
    refine ⟨h.1, fun c => ?_⟩
    rw [count_append]
    rcases eq_or_ne c chunk with rfl | hne
    · rw [count_eq_zero.mpr hnot, count_singleton_self]
      exact count_pos_iff.mpr hmem
    · have hsingle : [chunk].count c = 0 := count_eq_zero.mpr (by simpa using hne)
      rw [hsingle]
      exact h.2 c

/-- **The step lemma.** -/
theorem allWaiting_step (hnodup : s.inflightRequests.Nodup)
    (h : s.AllWaiting) (hs : s.step a = some s') : s'.AllWaiting ↔ s.AnswersWaiting a := by
  cases effect_of_step hs with
  | silent hwaiting hrequests hreplies hdis =>
    refine iff_of_true ?_ hwaiting
    rwa [AllWaiting, hrequests, hreplies, hdis]
  | @requests chunk _ hnew hrequests hreplies hdis =>
    refine iff_true_intro ⟨hdis.trans h.1, fun c => ?_⟩
    rw [hrequests, hreplies]
    exact (h.2 c).trans (count_le_count_cons)
  | steals stolenIdx => exact allWaiting_onSteal h stolenIdx
  | receives hcoming =>
    exact iff_true_intro ((allWaiting_iff_onMessage h.1 hcoming).mp h)
  | answers chunk => exact allWaiting_peerAnswers hnodup h chunk

/-! A piece is requested, and while the reply of the peer is on its way, it is stolen. -/

def onlyChunk : ChunkInfo Lengths.onePiece := ⟨0, 0, 0, 16384, 0⟩

def stolenLate : List (PeerLinkStep Lengths.onePiece) :=
  [.peerUnchokes, .receive, .acquire 0, .request, .sendRequest, .peerReads,
    .peerAnswers onlyChunk, .onSteal 0, .receive]

theorem not_neverRefused_stolenLate : ¬ Always step NeverRefused {} stolenLate := by
  intro h
  have hweak := h.mono fun s hs => hs 0 s rfl
  exact not_always_of_run (by decide) hweak

/-- **Requests and replies**: throughout a run no honest peer can be disconnected for a piece that
we did not ask for, exactly when every reply is made to a request that still stands and is not
answered yet, and no piece is stolen while a reply for it is on its way. -/
theorem neverRefused_iff_answersWaiting (as : List (PeerLinkStep L)) :
    Always step NeverRefused {} as ↔ Along step AnswersWaiting {} as := by
  refine always_iff_along_of_invariant
    (fun _ _ _ h hs => nodup_step h hs) (fun s a s' hnodup h hs => ?_) nodup_nil ?_ as
  · rw [neverRefused_iff_allWaiting] at h ⊢
    exact allWaiting_step hnodup h hs
  · exact neverRefused_iff_allWaiting.mpr ⟨rfl, fun _ => Nat.zero_le _⟩

end PeerLink

end Librtbit
