import Librtbit.Core.CompactIp
import Librtbit.Machinery.Run

/-!
# Session/LocalDiscovery — the streams of local discovery

A stream is registered for its info hash in the place of the one before it, and when it is dropped
the hash is forgotten, whichever stream has it.  The task that announces a hash ends with the
session.  `streams_sound_iff` says when this does no harm.
-/

namespace Librtbit

open Machinery Function

/-- `LocalServiceDiscovery`. -/
structure LocalDiscovery (H : Type) where
  /-- The streams that are alive, with their info hashes, and the peers each has got. -/
  streams : ℕ → Option H := fun _ => none
  rx : ℕ → List Net.SocketAddr := fun _ => []
  receivers : H → Option ℕ := fun _ => none
  /-- There is a task that announces the info hash. -/
  announced : H → Bool := fun _ => false

namespace LocalDiscovery

variable {H : Type} [DecidableEq H] {s s' : LocalDiscovery H}

inductive Step (H : Type) where
  /-- `announce_with_shared_port`, possibly without a port, makes the stream `i`. -/
  | announce (i : ℕ) (infoHash : H) (port : Bool)
  | drop (i : ℕ)
  | receive (infoHash : H) (addr : Net.SocketAddr)
  /-- `task_announce_periodically` -/
  | tick (infoHash : H)

def step (s : LocalDiscovery H) : Step H → Option (LocalDiscovery H)
  | .announce i h port =>
    if s.streams i = none then
      some { s with
        streams := update s.streams i (some h)
        receivers := update s.receivers h (some i)
        announced := update s.announced h (s.announced h || port) }
    else none
  | .drop i => (s.streams i).map fun h =>
      { s with streams := update s.streams i none, receivers := update s.receivers h none }
  | .receive h addr => (s.receivers h).map fun i =>
      { s with rx := update s.rx i (s.rx i ++ [addr]) }
  | .tick h => if s.announced h then some s else none

/-- **Every stream gets the peers of its info hash, and no other hash is announced**: a task that
is left goes on with each `tick`. -/
def Sound (s : LocalDiscovery H) : Prop :=
  (∀ i h, s.streams i = some h → s.receivers h = some i) ∧
    ∀ h, s.announced h = true → ∃ i, s.streams i = some h

/-- **One stream at a time** for an info hash, and none that is announced is dropped. -/
def Separate (s : LocalDiscovery H) : Step H → Prop
  | .announce _ h _ => ∀ i, s.streams i ≠ some h
  | .drop i => ∀ h, s.streams i = some h → s.announced h = false
  | .receive .. | .tick _ => True

lemma sound_step_iff {a : Step H} (hs : s.Sound) (hstep : s.step a = some s') :
    s'.Sound ↔ s.Separate a := by
  obtain ⟨hregistered, hquiet⟩ := hs
  cases a with
  | announce i h port =>
    obtain ⟨hnew, ⟨⟩⟩ := Option.ite_none_right_eq_some.mp hstep
    simp only [Sound, Separate, update_apply]
    constructor
    · rintro ⟨hall, -⟩ j hj
      -- the stream that was there is not the registered one any more
      have := hall j h (by grind)
      grind
    · exact fun hnone => ⟨by grind, fun g hg => by grind⟩
  | drop i =>
    obtain ⟨h, hi, rfl⟩ := Option.map_eq_some_iff.mp hstep
    simp only [Sound, Separate, update_apply]
    constructor
    · rintro ⟨-, hall⟩ g hg
      grind
    · exact fun hoff => ⟨by grind, fun g hg => by grind⟩
  | receive h addr =>
    obtain ⟨_, -, rfl⟩ := Option.map_eq_some_iff.mp hstep
    exact iff_true_intro ⟨hregistered, hquiet⟩
  | tick h =>
    obtain ⟨-, ⟨⟩⟩ := Option.ite_none_right_eq_some.mp hstep
    exact iff_true_intro ⟨hregistered, hquiet⟩

end LocalDiscovery

end Librtbit
