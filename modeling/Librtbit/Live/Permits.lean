import Librtbit.Live.Requests

/-!
# Live/Permits — the permits of one connection

A request is sent for a permit of `requests_sem`, a piece that is received gives one back, and an
unchoke adds 128.  The peer is any peer: it sends what it likes, whenever it likes.

Nothing else gives a permit back.  So a steal, which cancels requests, loses the permits of the ones
that were sent; a request that is stolen while it waits is sent all the same; and an unchoke that is
not the first creates another 128.

* `CountedLink.accounted_iff_compensates` — permits and outstanding requests add up to 128 from the
  first unchoke on, exactly when none of this happens.
-/

namespace Librtbit

open Machinery List

variable {L : Lengths}

/-- What happens on our end of a connection. -/
inductive OwnStep (L : Lengths) where
  | acquire (p : ValidPieceIndex L)
  | request
  | sendRequest
  | onSteal (stolenIdx : ValidPieceIndex L)
  | onMessage (m : TheirMessage L)

/-- Whether the step handles an unchoke. -/
def OwnStep.unchokes : OwnStep L → Bool
  | .onMessage .unchoke => true
  | _ => false

/-- A connection, and whether we were ever unchoked on it. -/
structure CountedLink (L : Lengths) where
  link : PeerLink L := {}
  unchoked : Bool := false

namespace PeerLink

variable (s : PeerLink L)

/-- The step on our end; a message is handled when it comes. -/
def ownStep : OwnStep L → Option (PeerLink L)
  | .acquire p => s.step (.acquire p)
  | .request => s.step .request
  | .sendRequest => s.step .sendRequest
  | .onSteal stolenIdx => s.step (.onSteal stolenIdx)
  | .onMessage m => { s with coming := [m] }.step .receive

/-- **The requests sent and neither answered nor cancelled**: all in `inflight_requests` but the one
that waits to be sent. -/
def outstanding : List (ChunkInfo L) :=
  match s.requester with
  | .limited chunk _ => s.inflightRequests.filter (· != chunk)
  | .idle | .requesting _ => s.inflightRequests

/-- The permits, free and in use. -/
def budget : ℕ := s.requestsSem + s.outstanding.length

variable {s} {s' : PeerLink L}

lemma nodup_ownStep {a} (hnodup : s.inflightRequests.Nodup)
    (hs : s.ownStep a = some s') : s'.inflightRequests.Nodup := by
  cases a with
  | acquire p => exact nodup_step (a := .acquire p) hnodup hs
  | request => exact nodup_step (a := .request) hnodup hs
  | sendRequest => exact nodup_step (a := .sendRequest) hnodup hs
  | onSteal stolenIdx => exact nodup_step (a := .onSteal stolenIdx) hnodup hs
  | onMessage m => exact nodup_step (s := { s with coming := [m] }) (a := .receive) hnodup hs

/-! ## What each step does to the budget -/

variable (stolenIdx : ValidPieceIndex L)

lemma outstanding_onSteal : (s.onSteal stolenIdx).outstanding =
      s.outstanding.filter fun req => req.pieceIndex ≠ stolenIdx := by
  simp only [outstanding, onSteal]
  split
  · exact filter_comm ..
  · rfl
  · rfl

lemma outstanding_onReceivedPiece (hnodup : s.inflightRequests.Nodup) (chunk : ChunkInfo L) :
    (s.onReceivedPiece chunk).outstanding = s.outstanding.erase chunk := by
  simp only [outstanding, onReceivedPiece]
  split
  · rw [hnodup.erase_eq_filter, (hnodup.filter _).erase_eq_filter]
    exact filter_comm ..
  · rfl
  · rfl

lemma length_erase_add_one_iff {chunk : ChunkInfo L} {requests : List (ChunkInfo L)} :
    (requests.erase chunk).length + 1 = requests.length ↔ chunk ∈ requests := by
  refine ⟨fun hlen => ?_, length_erase_add_one⟩
  by_contra hnot
  rw [erase_of_not_mem hnot] at hlen
  omega

lemma budget_onSteal :
    (s.onSteal stolenIdx).budget = s.budget ↔
      ∀ req ∈ s.outstanding, req.pieceIndex ≠ stolenIdx := by
  rw [budget, budget, outstanding_onSteal]
  simp [onSteal]

lemma budget_onReceivedPiece (hnodup : s.inflightRequests.Nodup) (chunk : ChunkInfo L) :
    (s.onReceivedPiece chunk).budget = s.budget ↔ chunk ∈ s.outstanding := by
  rw [budget, budget, outstanding_onReceivedPiece hnodup, ← length_erase_add_one_iff]
  simp only [onReceivedPiece]
  omega

lemma budget_request (hs : s.request = some s') : s'.budget = s.budget := by
  rw [request] at hs
  split at hs
  · next hreq =>
    cases hs
    simp [budget, outstanding, hreq]
  · next chunk chunks hreq =>
    split at hs
    · cases hs
      simp [budget, outstanding, hreq]
    next hnew =>
    cases hs
    have hfilter : s.inflightRequests.filter (· != chunk) = s.inflightRequests :=
      filter_eq_self.mpr fun req hreq => by simpa using ne_of_mem_of_not_mem hreq hnew
    simp [budget, outstanding, hreq, hfilter]
  · cases hs
  · cases hs

/-- The request that waits is still in `inflight_requests`. -/
def Waits (s : PeerLink L) : Prop :=
  ∀ chunk chunks, s.requester = .limited chunk chunks → chunk ∈ s.inflightRequests

lemma budget_sendRequest (hnodup : s.inflightRequests.Nodup) (hs : s.sendRequest = some s') :
    s'.budget = s.budget ↔ s.Waits := by
  rw [sendRequest] at hs
  split at hs
  · next chunk chunks permits hreq hsem =>
    cases hs
    have hwaits : s.Waits ↔ chunk ∈ s.inflightRequests := by
      simp [Waits, hreq]
    rw [hwaits, ← length_erase_add_one_iff, budget, budget, outstanding, outstanding, hreq]
    dsimp only
    rw [← hnodup.erase_eq_filter]
    omega
  · cases hs

end PeerLink

/-! ## Runs -/

namespace CountedLink

open PeerLink

variable {s s' : CountedLink L}

def step (s : CountedLink L) (a : OwnStep L) : Option (CountedLink L) :=
  (s.link.ownStep a).map fun link => { link, unchoked := s.unchoked || a.unchokes }

/-- **No permit is lost or created**: they are 128 from the first unchoke on, and none before it. -/
def Accounted (s : CountedLink L) : Prop := s.link.budget = if s.unchoked then 128 else 0
  deriving Decidable

/-- **A step that is compensated**: no request that is sent or waits is stolen, what is received was
requested, and we are unchoked once. -/
def Compensates (s : CountedLink L) : OwnStep L → Prop
  | .sendRequest => s.link.Waits
  | .onSteal stolenIdx => ∀ req ∈ s.link.outstanding, req.pieceIndex ≠ stolenIdx
  | .onMessage (.piece chunk) => chunk ∈ s.link.outstanding
  | .onMessage .unchoke => s.unchoked = false
  | .acquire _ | .request | .onMessage .choke => True

/-- **The step lemma.** -/
theorem accounted_step {a} (hnodup : s.link.inflightRequests.Nodup)
    (h : s.Accounted) (hs : s.step a = some s') : s'.Accounted ↔ s.Compensates a := by
  obtain ⟨link, hlink, rfl⟩ := Option.map_eq_some_iff.mp hs
  have hsame (ha : a.unchokes = false) :
      Accounted ⟨link, s.unchoked || a.unchokes⟩ ↔ link.budget = s.link.budget := by
    rw [Accounted, ha, Bool.or_false, h]
  -- a step other than an unchoke is left to its effect on the budget
  cases hdis : s.link.disconnected with
  | true => cases a <;> simp [ownStep, PeerLink.step, hdis] at hlink
  | false =>
    cases a with
    | acquire p =>
      refine iff_true_intro ((hsame rfl).mpr ?_)
      simp only [ownStep, PeerLink.step, hdis, Bool.false_eq_true, if_false] at hlink
      split at hlink
      · next hreq =>
        split at hlink <;> cases hlink
        simp [budget, outstanding, hreq]
      · cases hlink
      · cases hlink
    | request =>
      refine iff_true_intro ((hsame rfl).mpr (budget_request ?_))
      simpa [ownStep, PeerLink.step, hdis] using hlink
    | sendRequest =>
      refine (hsame rfl).trans (budget_sendRequest hnodup ?_)
      simpa [ownStep, PeerLink.step, hdis] using hlink
    | onSteal stolenIdx =>
      obtain rfl : s.link.onSteal stolenIdx = link := by
        simpa [ownStep, PeerLink.step, hdis] using hlink
      exact (hsame rfl).trans (budget_onSteal stolenIdx)
    | onMessage m =>
      obtain rfl : ({ s.link with coming := [] } : PeerLink L).onMessage m = link := by
        simpa [ownStep, PeerLink.step, hdis] using hlink
      cases m with
      | piece chunk =>
        refine (hsame rfl).trans ?_
        exact budget_onReceivedPiece hnodup chunk
      | choke => exact iff_true_intro ((hsame rfl).mpr rfl)
      | unchoke =>
        have hbudget : (({ s.link with coming := [] } : PeerLink L).onMessage .unchoke).budget =
            s.link.budget + 128 := by
          simp [budget, onMessage, outstanding, Nat.add_right_comm]
        rw [Accounted, hbudget, h]
        cases hun : s.unchoked <;> simp [Compensates, OwnStep.unchokes, hun]

/-- **The permits of a connection**: throughout a run the permits and the outstanding requests add
up to 128 from the first unchoke on, exactly when no request that was sent or waits to be is stolen,
every piece received answers an outstanding request, and no second unchoke comes. -/
theorem accounted_iff_compensates (as : List (OwnStep L)) :
    Always step Accounted {} as ↔ Along step Compensates {} as := by
  refine always_iff_along_of_invariant (I := fun s => s.link.inflightRequests.Nodup)
    (fun s a s' hnodup hs => ?_) (fun _ _ _ hnodup h hs => accounted_step hnodup h hs)
    nodup_nil (by simp [Accounted, budget, outstanding]) as
  obtain ⟨link, hlink, rfl⟩ := Option.map_eq_some_iff.mp hs
  exact nodup_ownStep hnodup hlink

/-- After a second unchoke there are 256 permits; and a piece that is stolen after its chunk was
requested leaves 127. -/
theorem not_accounted_twice_or_stolen : ¬ Always step Accounted ({} : CountedLink Lengths.onePiece)
        [.onMessage .unchoke, .onMessage .unchoke] ∧
      ¬ Always step Accounted ({} : CountedLink Lengths.onePiece)
        [.onMessage .unchoke, .acquire 0, .request, .sendRequest, .onSteal 0] :=
  ⟨not_always_of_run (by decide), not_always_of_run (by decide)⟩

end CountedLink

end Librtbit
