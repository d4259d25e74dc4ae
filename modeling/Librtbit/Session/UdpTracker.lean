import Librtbit.Machinery.Run

/-!
# Session/UdpTracker — requests to trackers over UDP

The requests share one socket, and a table says whose each transaction id is.  A datagram is for the
request that has its id, wherever it comes from, and a request that ends takes its id out of the
table, whoever has it by then.  `requests_sound_iff` says when they do not get in each other's way.
-/

namespace Librtbit

open Machinery Function

/-- A request that is not over. -/
structure UdpRequest (Addr : Type) where
  addr : Addr
  tid : UInt32
  /-- Where the responses came from that its channel has got, and the id they carry. -/
  responses : List (Addr × UInt32) := []
  deriving DecidableEq

structure UdpTrackerClient (Addr : Type) where
  transactions : UInt32 → Option ℕ := fun _ => none
  requests : ℕ → Option (UdpRequest Addr) := fun _ => none

namespace UdpTrackerClient

variable {Addr : Type}

inductive Step (Addr : Type) where
  /-- `request`, with the random ids of `reserve_transaction_id`. -/
  | request (i : ℕ) (addr : Addr) (tids : List UInt32)
  /-- `run` receives a response. -/
  | receive (addr : Addr) (tid : UInt32)
  /-- A request is answered, has timed out or is cancelled: its `TransactionIdGuard` is dropped. -/
  | finish (i : ℕ)

def step (s : UdpTrackerClient Addr) : Step Addr → Option (UdpTrackerClient Addr)
  | .request i addr tids =>
    if (s.requests i).isSome then none
    else match (tids.take 10).find? fun tid => s.transactions tid = none with
      | some tid => some
          { transactions := update s.transactions tid (some i)
            requests := update s.requests i (some { addr, tid }) }
      | none => some s
  | .receive addr tid =>
    match s.transactions tid with
    | some i => some
        { transactions := update s.transactions tid none
          requests := update s.requests i ((s.requests i).map fun r =>
            { r with responses := r.responses ++ [(addr, tid)] }) }
    | none => some s
  | .finish i => (s.requests i).map fun r =>
      { transactions := update s.transactions r.tid none, requests := update s.requests i none }

/-- **Requests are isolated**: each is pending under its id, or has got one response, with its id
and from its address. -/
def Sound (s : UdpTrackerClient Addr) : Prop :=
  ∀ i r, s.requests i = some r →
    r.responses = [] ∧ s.transactions r.tid = some i ∨ r.responses = [(r.addr, r.tid)]

/-- **Nobody else is in it**: a response with an id in use comes from where its request went, and
the id of a request that ends has not been reserved again. -/
def Separate (s : UdpTrackerClient Addr) : Step Addr → Prop
  | .request .. => True
  | .receive addr tid => ∀ i r, s.transactions tid = some i → s.requests i = some r → r.addr = addr
  | .finish i => ∀ r j, s.requests i = some r → s.transactions r.tid = some j → j = i

/-- The table knows of requests that are waiting, and under their ids. -/
def Inv (s : UdpTrackerClient Addr) : Prop :=
  ∀ tid i, s.transactions tid = some i → ∃ r, s.requests i = some r ∧ r.tid = tid ∧ r.responses = []

variable {s s' : UdpTrackerClient Addr}

lemma step_spec {a : Step Addr} (hI : s.Inv) (hstep : s.step a = some s') :
    s'.Inv ∧ (s.Sound → (s'.Sound ↔ s.Separate a)) := by
  cases a with
  | request i addr tids =>
    obtain ⟨hnew, hstep⟩ := Option.ite_none_left_eq_some.mp hstep
    split at hstep <;> cases hstep
    · next tid hfree =>
      have hvacant := List.find?_some hfree
      simp only [Inv, Sound, Separate, update_apply]
      refine ⟨fun tid' j => ?_, fun hs => iff_true_intro (fun j r => ?_)⟩
      · have := hI tid' j
        grind
      · have := hs j r
        grind
    · exact ⟨hI, fun hs => iff_true_intro hs⟩
  | receive addr tid =>
    rw [step] at hstep
    split at hstep <;> cases hstep
    · next i hi =>
      obtain ⟨r, hr, rfl, hnone⟩ := hI tid i hi
      simp only [Inv, Sound, Separate, update_apply]
      refine ⟨fun tid' j => ?_, fun hs => ⟨fun h j r' => ?_, fun h j r' => ?_⟩⟩
      · have := hI tid' j
        grind
      · have := h i
        grind
      · have := hs j
        grind
    · exact ⟨hI, fun hs => iff_of_true hs fun i r hi => by grind⟩
  | finish i =>
    obtain ⟨r, hi, rfl⟩ := Option.map_eq_some_iff.mp hstep
    simp only [Inv, Sound, Separate, update_apply]
    refine ⟨fun tid' j => ?_, fun hs => ⟨fun h r' j hr' hj => ?_, fun h j r' => ?_⟩⟩
    · have := hI tid' j
      grind
    · obtain ⟨r'', hr''⟩ := hI _ j hj
      have := h j r''
      grind
    · have := hs j r'
      grind

/-- **Requests over UDP are isolated** exactly in the runs where every response with an id in use
comes from the tracker that was asked, and no id is reserved again before its former request is
over. -/
theorem requests_sound_iff (as : List (Step Addr)) :
    Always step Sound {} as ↔ Along step Separate {} as :=
  always_iff_along_of_invariant (fun _ _ _ hI h => (step_spec hI h).1)
    (fun _ _ _ hI hs h => (step_spec hI h).2 hs) (fun _ _ h => by cases h) (fun _ _ h => by cases h)
    as

/-- **Anyone who knows the id can answer.** -/
theorem not_sound_spoofed :
    ¬ Always step Sound {} [.request 0 "tracker" [7], .receive "other" 7] := by
  intro h
  have hbad := ((h.2 _ rfl).2 _ rfl) 0 _ rfl
  revert hbad
  decide

end UdpTrackerClient

end Librtbit
