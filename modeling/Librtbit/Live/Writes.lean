import Librtbit.Live.Effect

/-!
# Live/Writes — no write to a piece we have

A chunk is written when its piece is in flight at the peer that sent it, and under the lock of the
piece, which no steal can pass.  That is not enough.  While the hash of a piece is checked the piece
is neither there nor in flight, so another peer can reserve it: as a streaming piece, or from the
queue after its file was selected again.  When the hash turns out good the piece is there, and the
other peer writes to it.

`WritesApart` asks for what is missing: a reservation takes a piece that is not there and that no
connection writes or checks; a write begins when no other connection, of the same address, writes
the piece.  Along such steps no write goes to a piece we have (`noOverwrite_of_writesApart`).
-/

namespace Librtbit

open Machinery Function PieceTracker ChunkTracker

variable {L : Lengths}

namespace Torrent

variable {shared : TorrentShared} {t t' : Torrent L}

/-! ## What is asked -/

/-- **No connection writes to a piece we have.** -/
def NoOverwrite (t : Torrent L) : Prop :=
  ∀ c ∈ t.connections, ∀ p, c.work = .writing p →
    t.state.tracker.any (fun pt => pt.chunks.isPieceHave p) = false
  deriving Decidable

/-- The piece a connection would reserve: we are not choked, and there is nothing to steal from a
much slower peer. -/
def reservable (shared : TorrentShared) (t : Torrent L) (id : ℕ) (input : AcquireInput L) :
    Option (ValidPieceIndex L) :=
  match t.state with
  | .live pt filePriorities =>
    (t.connections[id]?).bind fun c =>
      (t.peers.getLive c.addr).bind fun live =>
        let req := c.acquireRequest shared filePriorities t.locked live input
        if c.iAmChoked || (pt.trySteal req 10).isSome then none else pt.findReservable req
  | _ => none

/-- The piece of the chunk a connection has received, if it is in flight at its peer. -/
def received (t : Torrent L) (id : ℕ) : Option (ValidPieceIndex L) :=
  match t.state with
  | .live pt _ =>
    (t.connections[id]?).bind fun c =>
      match c.task with
      | .running (.received _ chunk) _ =>
        if (pt.inflight chunk.pieceIndex).any fun info => info.peer = c.addr then
          some chunk.pieceIndex
        else none
      | _ => none
  | _ => none

/-- The piece a step reserves, if any. -/
def reserves (shared : TorrentShared) (t : Torrent L) : TorrentStep L → Option (ValidPieceIndex L)
  | .connection id (.requester (.acquire input)) => t.reservable shared id input
  | _ => none

/-- The piece whose chunk a step begins to write, if any. -/
def writes (t : Torrent L) : TorrentStep L → Option (ValidPieceIndex L)
  | .connection id (.reader .checkSteal) => t.received id
  | _ => none

/-- The steps that keep reservations and writes apart from what others do with the piece. -/
def WritesApart (shared : TorrentShared) (t : Torrent L) (a : TorrentStep L) : Prop :=
  (∀ p ∈ t.reserves shared a, t.state.tracker.any (fun pt => pt.chunks.isPieceHave p) = false ∧
      ∀ c ∈ t.connections, c.work ≠ .writing p ∧ c.work ≠ .checking p) ∧
  ∀ p ∈ t.writes a, ∀ c ∈ t.connections, c.work ≠ .writing p
  deriving Decidable

end Torrent

/-! ## One step of a connection -/

/-- **The pieces in flight, those written and those checked exclude each other**, nothing of the
first two is there, and a piece has one writer. -/
structure Apart (pt : PieceTracker L) (works : ℕ → Work L) : Prop where
  inflight : ∀ p, pt.isInflight p = true →
    pt.chunks.isPieceHave p = false ∧ ∀ i, works i ≠ .checking p
  writing : ∀ i p, works i = .writing p →
    pt.chunks.isPieceHave p = false ∧ ∀ j, works j ≠ .checking p
  unique : ∀ i j p, works i = .writing p → works j = .writing p → i = j

namespace Apart

variable {pt pt' : PieceTracker L} {works works' : ℕ → Work L}

/-- Taking pieces out of flight and work out of hands changes nothing. -/
lemma shrink (h : Apart pt works)
    (hhave : ∀ p, pt'.chunks.isPieceHave p = pt.chunks.isPieceHave p)
    (hinflight : ∀ p, pt'.isInflight p → pt.isInflight p)
    (hwriting : ∀ i p, works' i = .writing p → works i = .writing p)
    (hchecking : ∀ i p, works' i = .checking p → works i = .checking p) : Apart pt' works' where
  inflight p hp := by
    rw [hhave]
    obtain ⟨hh, hc⟩ := h.inflight p (hinflight p hp)
    exact ⟨hh, fun i hi => hc i (hchecking i p hi)⟩
  writing i p hi := by
    rw [hhave]
    obtain ⟨hh, hc⟩ := h.writing i p (hwriting i p hi)
    exact ⟨hh, fun j hj => hc j (hchecking j p hj)⟩
  unique i j p hi hj := h.unique i j p (hwriting i p hi) (hwriting j p hj)

lemma update_rest (works : ℕ → Work L) {w} (id : ℕ) (hw : ∀ p, w ≠ .writing p ∧ w ≠ .checking p) :
    (∀ i p, update works id w i = .writing p → works i = .writing p) ∧
      ∀ i p, update works id w i = .checking p → works i = .checking p :=
  ⟨fun _ p => Work.eq_of_update (hw p).1, fun _ p => Work.eq_of_update (hw p).2⟩

section

variable (h : Apart pt works)
include h

/-- Work that ends changes nothing. -/
lemma finish {w id} (hw : ∀ p, w ≠ .writing p ∧ w ≠ .checking p)
    (hhave : ∀ p, pt'.chunks.isPieceHave p = pt.chunks.isPieceHave p)
    (hinflight : ∀ p, pt'.isInflight p → pt.isInflight p) :
    Apart pt' (update works id w) :=
  h.shrink hhave hinflight (update_rest works id hw).1 (update_rest works id hw).2

section

variable {p : ValidPieceIndex L}

/-- A reservation of a piece that is not there and in nobody's hands. -/
lemma reserve (hhave : pt.chunks.isPieceHave p = false) (hworks : ∀ i, works i ≠ .checking p)
    (peer : PeerHandle) (now : Instant) :
    Apart (pt.reservePiece p peer now) works where
  inflight q hq := by
    rw [reservePiece, isInflight_update] at hq
    split at hq
    · next heq =>
      rw [heq]
      exact ⟨hhave, hworks⟩
    · exact h.inflight q hq
  writing := h.writing
  unique := h.unique

/-- A piece in flight that nobody writes to: a write may begin. -/
lemma write (hp : pt.isInflight p) (hwriting : ∀ i, works i ≠ .writing p) (id : ℕ) :
    Apart pt (update works id (.writing p)) := by
  have hchecking : ∀ i q, update works id (.writing p) i = .checking q →
      works i = .checking q := fun _ _ => Work.eq_of_update (by simp)
  have hcases : ∀ i q, update works id (.writing p) i = .writing q →
      (i = id ∧ q = p) ∨ (i ≠ id ∧ works i = .writing q) := by
    intro i q hi
    rcases eq_or_ne i id with rfl | hne
    · rw [update_self] at hi
      cases hi
      exact Or.inl ⟨rfl, rfl⟩
    · rw [update_of_ne hne] at hi
      exact Or.inr ⟨hne, hi⟩
  refine ⟨fun q hq => ?_, fun i q hi => ?_, fun i j q hi hj => ?_⟩
  · obtain ⟨hh, hc⟩ := h.inflight q hq
    exact ⟨hh, fun j hj => hc j (hchecking j q hj)⟩
  · rcases hcases i q hi with ⟨rfl, rfl⟩ | ⟨-, hi⟩
    · obtain ⟨hh, hc⟩ := h.inflight q hp
      exact ⟨hh, fun j hj => hc j (hchecking j q hj)⟩
    · obtain ⟨hh, hc⟩ := h.writing i q hi
      exact ⟨hh, fun j hj => hc j (hchecking j q hj)⟩
  · rcases hcases i q hi with ⟨rfl, rfl⟩ | ⟨-, hi'⟩
    · rcases hcases j q hj with ⟨rfl, -⟩ | ⟨-, hj'⟩
      · rfl
      · exact absurd hj' (hwriting j)
    · rcases hcases j q hj with ⟨rfl, rfl⟩ | ⟨-, hj'⟩
      · exact absurd hi' (hwriting i)
      · exact h.unique i j q hi' hj'

/-- The writer of a piece takes it out of flight to check it: nobody else has to do with it. -/
lemma take {id} (hid : works id = .writing p) (chunkStatus : BitField L.chunkBits) :
    Apart ⟨{ pt.chunks with chunkStatus }, update pt.inflight p none⟩
      (update works id (.checking p)) := by
  have hchecking : ∀ i q, q ≠ p → update works id (.checking p) i = .checking q →
      works i = .checking q := by
    intro i q hq
    refine Work.eq_of_update ?_
    rintro ⟨⟩
    exact hq rfl
  have hwriting : ∀ i q, update works id (.checking p) i = .writing q →
      q ≠ p ∧ works i = .writing q := by
    intro i q hi
    have hi' : works i = .writing q := Work.eq_of_update (by simp) hi
    refine ⟨?_, hi'⟩
    rintro rfl
    obtain rfl := h.unique i id q hi' hid
    rw [update_self] at hi
    cases hi
  refine ⟨fun q hq => ?_, fun i q hi => ?_, fun i j q hi hj => ?_⟩
  · rw [isInflight_update] at hq
    split at hq
    · cases hq
    · next hne =>
      obtain ⟨hh, hc⟩ := h.inflight q hq
      exact ⟨hh, fun j hj => hc j (hchecking j q hne hj)⟩
  · obtain ⟨hne, hi⟩ := hwriting i q hi
    obtain ⟨hh, hc⟩ := h.writing i q hi
    exact ⟨hh, fun j hj => hc j (hchecking j q hne hj)⟩
  · exact h.unique i j q (hwriting i q hi).2 (hwriting j q hj).2

/-- A good hash is recorded: nobody writes to the piece and it is not in flight. -/
lemma recordOk {id} (hid : works id = .checking p) :
    Apart (pt.markPieceHashOk p) (update works id (.completing p)) := by
  have hhave : ∀ q, (∀ i, works i ≠ .checking q) → pt.chunks.isPieceHave q = false →
      (pt.markPieceHashOk p).chunks.isPieceHave q = false := by
    intro q hq hh
    rw [markPieceHashOk, isPieceHave_markPieceDownloaded, hh,
      Bool.false_or, decide_eq_false_iff_not]
    rintro rfl
    exact hq id hid
  have hrest : ∀ q, Work.completing p ≠ .writing q ∧ Work.completing p ≠ .checking q :=
    fun q => ⟨by simp, by simp⟩
  obtain ⟨hwriting, hchecking⟩ := update_rest works id hrest
  refine ⟨fun q hq => ?_, fun i q hi => ?_, fun i j q hi hj => ?_⟩
  · obtain ⟨hh, hc⟩ := h.inflight q hq
    exact ⟨hhave q hc hh, fun j hj => hc j (hchecking j q hj)⟩
  · obtain ⟨hh, hc⟩ := h.writing i q (hwriting i q hi)
    exact ⟨hhave q hc hh, fun j hj => hc j (hchecking j q hj)⟩
  · exact h.unique i j q (hwriting i q hi) (hwriting j q hj)

end

end

variable {shared : TorrentShared} {peers : PeerStates L} {filePriorities : List ℕ}
  {locked : ValidPieceIndex L → Bool} {c : Connection L}

/-- **A step of a connection keeps things apart**, if what it reserves or begins to write is in
nobody's hands. -/
theorem effect (h : Apart pt works) {id} (hid : works id = c.work) {a w}
    (heffect : c.Effect shared pt peers filePriorities locked a pt' w)
    (hreserve : ∀ input live p, a = .requester (.acquire input) →
      peers.getLive c.addr = some live → c.iAmChoked = false →
      pt.trySteal (c.acquireRequest shared filePriorities locked live input) 10 = none →
      pt.findReservable (c.acquireRequest shared filePriorities locked live input) = some p →
      pt.chunks.isPieceHave p = false ∧ ∀ i, works i ≠ .checking p)
    (hwrite : ∀ piece chunk requester info, a = .reader .checkSteal →
      c.task = .running (.received piece chunk) requester →
      pt.inflight chunk.pieceIndex = some info → info.peer = c.addr →
      ∀ i, works i ≠ .writing chunk.pieceIndex) :
    Apart pt' (update works id w) := by
  have hself := Connection.update_work hid
  have hrest : ∀ p : ValidPieceIndex L, Work.rest ≠ .writing p ∧ Work.rest ≠ .checking p :=
    fun p => ⟨nofun, nofun⟩
  cases heffect with
  | keep => rwa [hself]
  | failWrite _ | mark _ | failCheck _ => exact h.finish hrest (fun _ => rfl) fun _ hp => hp
  | reserve hlive hchoked hsteal hp =>
    rw [hself]
    obtain ⟨hhave, hworks⟩ := hreserve _ _ _ rfl hlive hchoked hsteal hp
    exact h.reserve hhave hworks _ _
  | handOver _ hinfo _ =>
    rw [hself]
    refine h.shrink (fun _ => rfl) (fun q hq => ?_) (fun _ _ hi => hi) fun _ _ hi => hi
    rw [isInflight_update] at hq
    split at hq
    · next heq => rw [heq, isInflight, hinfo]; rfl
    · exact hq
  | write htask hinfo hpeer =>
    refine h.write ?_ (hwrite _ _ _ _ rfl htask hinfo hpeer) id
    rw [isInflight, hinfo]
    rfl
  | take hw _ => exact h.take (hid.trans hw) _
  | recordOk htask => exact h.recordOk (hid.trans (by rw [Connection.work, htask]))
  | recordFailed _ =>
    exact h.finish hrest (fun _ => isPieceHave_markPieceBrokenIfNotHave _ _ _)
      fun _ hp => hp
  | count _ =>
    refine h.finish hrest (fun p => ?_) fun _ hp => hp
    rw [isPieceHave, havePieces_onPieceCompleted, isPieceHave]
  | release _ _ =>
    refine h.finish hrest (fun p => ?_) fun _ => pt.isInflight_of_releasePiecesOwnedBy
    rw [isPieceHave, havePieces_releasePiecesOwnedBy, isPieceHave]

end Apart

/-! ## The whole system -/

namespace Torrent

variable {shared : TorrentShared} {t t' : Torrent L} {a : TorrentStep L}

/-- **One step keeps things apart.** -/
theorem apart_step (hidle : IdleUnlessLive t.state t.workOf)
    (h : ∀ pt filePriorities, t.state = .live pt filePriorities → Apart pt t.workOf)
    (hC : t.WritesApart shared a) {state works}
    (heffect : Effect shared t a state works) {pt filePriorities}
    (hlive : state = .live pt filePriorities) : Apart pt works := by
  cases heffect with
  | keep => exact h _ _ hlive
  | connection hstate hc heffect =>
    obtain ⟨rfl, -⟩ := ManagedTorrentState.live.inj hlive
    refine (h _ _ hstate).effect (workOf_eq hc) heffect ?_ ?_
    · rintro input live p rfl hpeer hchoked hsteal hp
      have hC' := hC.1 p (by
        simpa [reserves, Torrent.reservable, hstate, hc, hpeer, hchoked, hsteal] using hp)
      rw [hstate] at hC'
      exact ⟨hC'.1, workOf_ne nofun fun d hd => (hC'.2 d hd).2⟩
    · rintro piece chunk requester info rfl htask hinfo hpeer
      refine workOf_ne nofun (hC.2 chunk.pieceIndex ?_)
      simp [writes, Torrent.received, hstate, hc, htask, hinfo, hpeer]
  | staleCheckEnds _ =>
    exact (h _ _ hlive).finish (fun p => ⟨nofun, nofun⟩) (fun _ => rfl) fun _ hp => hp
  | selectLive hstate =>
    obtain ⟨rfl, -⟩ := ManagedTorrentState.live.inj hlive
    exact (h _ _ hstate).shrink (fun p => isPieceHave_updateOnlyFiles _ _ _ _)
      (fun _ hp => hp) (fun _ _ hi => hi) fun _ _ hi => hi
  | start hstate _ =>
    obtain ⟨rfl, -⟩ := ManagedTorrentState.live.inj hlive
    have hno (i p) : t.workOf i ≠ .writing p := by
      intro hi
      have hrest := hidle (fun _ _ => by rw [hstate]; nofun) i
      rw [hi] at hrest
      cases hrest
    exact ⟨nofun, fun i p hi => absurd hi (hno i p), fun i _ p hi => absurd hi (hno i p)⟩
  | selectPaused | pause | stopWithError | recheck | initialized | initFailed => cases hlive

/-- What is kept apart is not overwritten. -/
lemma noOverwrite_of_apart (hidle : IdleUnlessLive t.state t.workOf)
    (h : ∀ pt filePriorities, t.state = .live pt filePriorities → Apart pt t.workOf) :
    t.NoOverwrite := by
  intro c hc p hp
  obtain ⟨i, hi⟩ := List.mem_iff_getElem?.mp hc
  have hwork : t.workOf i = .writing p := (workOf_eq hi).trans hp
  by_cases hlive : ∃ pt filePriorities, t.state = .live pt filePriorities
  · obtain ⟨pt, filePriorities, hstate⟩ := hlive
    rw [hstate]
    exact ((h pt filePriorities hstate).writing i p hwork).1
  push Not at hlive
  have := hidle hlive i
  rw [hwork] at this
  cases this

/-- **Along steps that keep reservations and writes apart, no write goes to a piece we have.** -/
theorem noOverwrite_of_writesApart (as : List (TorrentStep L))
    (h : Along (step shared) (WritesApart shared) ({} : Torrent L) as) :
    Always (step shared) NoOverwrite ({} : Torrent L) as := by
  have hinv := always_of_along
    (I := fun t : Torrent L => IdleUnlessLive t.state t.workOf ∧
      ∀ pt filePriorities, t.state = .live pt filePriorities → Apart pt t.workOf)
    (fun t a t' hI hC hstep =>
      have heffect := effect_of_step hstep
      ⟨heffect.idleUnlessLive hI.1, fun _ _ => apart_step hI.1 hI.2 hC heffect⟩)
    ⟨idleUnlessLive_initial, nofun⟩ h
  exact hinv.mono fun t hI => noOverwrite_of_apart hI.1 hI.2

/-- Two peers download a piece each. -/
def twoPeers : List (TorrentStep Lengths.twoBytePieces) :=
  [.initialized (BitField.zeros _) none, .start [0, 1]] ++ comes 0 peerOne ++ comes 1 peerTwo ++
    asks 0 {} ++ asks 1 {} ++ sends 0 ⟨0, 0, [7]⟩ (some true) ++
    sends 1 ⟨1, 0, [8]⟩ (some true) ++
    [.connection 1 (.reader .record), .connection 0 (.reader .record)]

/-- The run goes through, and no write goes to a piece we have. -/
theorem noOverwrite_two_peers : (run (step twoFiles) {} twoPeers).isSome = true ∧
      Always (step twoFiles) NoOverwrite {} twoPeers :=
  ⟨by decide, noOverwrite_of_writesApart _ (by decide)⟩

/-- **A piece whose hash was checked is overwritten.**  The first peer has sent the piece, and while
its hash is checked the second peer reserves it as a streaming piece.  The hash is good; then the
second peer sends its chunk. -/
theorem not_noOverwrite_streaming :
    ¬ Always (step twoFiles) NoOverwrite ({} : Torrent Lengths.twoBytePieces)
      ([.initialized (BitField.zeros _) none, .start [0, 1]] ++ comes 0 peerOne ++
        comes 1 peerTwo ++ asks 0 {} ++ sends 0 ⟨0, 0, [7]⟩ (some true) ++
        asks 1 { priorityPieces := [0] } ++
        [.connection 0 (.reader .record), .connection 1 (.reader (.receive ⟨0, 0, [8]⟩)),
          .connection 1 (.reader .checkSteal)]) :=
  not_always_of_run (by decide)

end Torrent

end Librtbit
