import Librtbit.Live.NoLoss
import Librtbit.Tracker.Counters

/-!
# Live/HaveBytes — the statistics counter against the tracker

A live torrent counts the bytes it has twice: in the tracker, under its lock (`hns.have_bytes`), and
in a statistics counter that starts from it and grows by the length of a piece after each good hash
(`stats.have_bytes`).  The tracker passes over a piece it has already; the counter does not.

Between the two the bytes of a piece are under way: recorded, not counted.  `Settled` says that the
counter and what is under way make up the tracker's sum, so that they agree whenever no result is
being recorded.  It holds exactly as long as no good hash is recorded of a piece that is there
(`settled_iff_recordsFresh`).
-/

namespace Librtbit

open Machinery Torrent ManagedTorrentState List Option

variable {L : Lengths}

/-! ## The counter -/

/-- The bytes recorded and not counted yet. -/
def Work.bytes : Work L → ℕ
  | .completing p => L.pieceLengthOf p
  | .rest | .writing _ | .checking _ | .stale _ => 0

lemma Work.bytes_abandon (w : Work L) : w.abandon.bytes = 0 := by
  cases w <;> rfl

/-- The piece tracker, if the torrent is live. -/
def ManagedTorrentState.pieces : ManagedTorrentState L → Option (PieceTracker L)
  | .live pt _ => some pt
  | .initializing | .paused _ | .error => none

/-- A torrent with `have_bytes` of its statistics. -/
structure Metered (L : Lengths) where
  torrent : Torrent L := {}
  haveBytes : ℕ := 0

namespace Metered

/-- The counter after a step to `t`: a live torrent starts with the bytes of its tracker, and a
piece is counted right before `on_piece_completed`. -/
def countAfter (s : Metered L) (t : Torrent L) : TorrentStep L → ℕ
  | .connection id (.reader (.complete _)) => s.haveBytes + (s.torrent.workOf id).bytes
  | .start _ => (t.state.tracker.map fun pt => pt.chunks.hns.haveBytes).getD 0
  | _ => s.haveBytes

def step (shared : TorrentShared) (s : Metered L) (a : TorrentStep L) : Option (Metered L) :=
  (s.torrent.step shared a).map fun t => ⟨t, s.countAfter t a⟩

/-! ## What is asked -/

/-- A hash result is being recorded: the piece is marked downloaded and not counted yet. -/
def Recording (s : Metered L) : Prop := ∃ c ∈ s.torrent.connections, ∃ p, c.work = .completing p
  deriving Decidable

/-- **Whenever no hash result is being recorded, the counter of a live torrent is that of its
tracker**, which is the length of the pieces it has. -/
def Exact (s : Metered L) : Prop :=
  ∀ pt ∈ s.torrent.state.pieces, ¬ s.Recording →
    s.haveBytes = pt.chunks.hns.haveBytes ∧
      pt.chunks.hns.haveBytes = bytesOf fun p => pt.chunks.isPieceHave p
  deriving Decidable

/-- The bytes of the pieces that are being recorded. -/
def underWay (t : Torrent L) : ℕ := (t.connections.map fun c => c.work.bytes).sum

/-- **The counter and the bytes under way make up the tracker's sum**, the tracker's counters are in
sync, and unless the torrent is live nothing is under way. -/
structure Settled (s : Metered L) : Prop where
  inSync : ∀ pt ∈ s.torrent.state.tracker, pt.chunks.InSync
  idle : (∀ pt filePriorities, s.torrent.state ≠ .live pt filePriorities) → underWay s.torrent = 0
  counted : ∀ pt filePriorities, s.torrent.state = .live pt filePriorities →
    s.haveBytes + underWay s.torrent = pt.chunks.hns.haveBytes

lemma Settled.exact {s : Metered L} (h : s.Settled) : s.Exact := by
  intro pt hpt hrecording
  obtain ⟨filePriorities, hstate⟩ : ∃ filePriorities,
      s.torrent.state = .live pt filePriorities := by
    cases hstate : s.torrent.state with
    | live pt' filePriorities =>
      rw [hstate] at hpt
      cases hpt
      exact ⟨filePriorities, rfl⟩
    | _ =>
      rw [hstate] at hpt
      cases hpt
  have hsync := h.inSync pt (mem_tracker_of_live hstate)
  have hnone : underWay s.torrent = 0 := by
    refine sum_eq_zero fun n hn => ?_
    obtain ⟨c, hc, rfl⟩ := mem_map.mp hn
    cases hwork : c.work with
    | completing p => exact absurd ⟨c, hc, p, hwork⟩ hrecording
    | _ => rfl
  have hcounted := h.counted pt filePriorities hstate
  rw [hnone] at hcounted
  refine ⟨hcounted, ?_⟩
  rw [hsync, ChunkTracker.calcHns_eq]
  rfl

/-- A good hash is recorded of a piece that is not there (or has no bytes). -/
def RecordsFresh (s : Metered L) (a : TorrentStep L) : Prop :=
  ∀ p ∈ s.torrent.records a, ∀ pt ∈ s.torrent.state.tracker,
    pt.chunks.isPieceHave p = false ∨ L.pieceLengthOf p = 0
  deriving Decidable

end Metered

/-! ## What a step does to the tracker's counters -/

/-- The counters of the tracker, and the bits they count, are the same. -/
structure ChunkTracker.SameCounters (ct ct' : ChunkTracker L) : Prop where
  hns : ct'.hns = ct.hns
  havePieces : ct'.havePieces = ct.havePieces
  selected : ct'.selected = ct.selected

namespace ChunkTracker

variable {ct ct' : ChunkTracker L}

lemma SameCounters.refl (ct : ChunkTracker L) : ct.SameCounters ct := ⟨rfl, rfl, rfl⟩

lemma SameCounters.inSync (h : ct.SameCounters ct') (hsync : ct.InSync) : ct'.InSync := by
  rw [InSync, h.hns, h.havePieces, h.selected]
  exact hsync

lemma sameCounters_markPieceBrokenIfNotHave (ct : ChunkTracker L) (p : ValidPieceIndex L) :
    ct.SameCounters (ct.markPieceBrokenIfNotHave p) :=
  ⟨hns_markPieceBrokenIfNotHave ct p, havePieces_markPieceBrokenIfNotHave ct p,
    selected_markPieceBrokenIfNotHave ct p⟩

lemma sameCounters_foldl (ct : ChunkTracker L) (ps : List (ValidPieceIndex L)) :
    ct.SameCounters (ps.foldl markPieceBrokenIfNotHave ct) := by
  induction ps generalizing ct with
  | nil => exact SameCounters.refl ct
  | cons p ps ih =>
    have hp := ct.sameCounters_markPieceBrokenIfNotHave p
    have hps := ih (ct.markPieceBrokenIfNotHave p)
    exact ⟨hps.hns.trans hp.hns, hps.havePieces.trans hp.havePieces, hps.selected.trans hp.selected⟩

end ChunkTracker

namespace Connection

variable {shared : TorrentShared} {pt pt' : PieceTracker L} {peers peers' : PeerStates L}
  {filePriorities : List ℕ} {locked : ValidPieceIndex L → Bool} {c c' : Connection L}

/-- **Only a recorded hash moves the counters of the tracker**, and only recording and counting move
what is under way. -/
theorem Effect.sameCounters {a w}
    (h : c.Effect shared pt peers filePriorities locked a pt' w) (hrecord : a ≠ .reader .record)
    (hcount : ∀ streams, a ≠ .reader (.complete streams)) :
    pt.chunks.SameCounters pt'.chunks ∧ w.bytes = c.work.bytes := by
  cases h with
  | keep a => exact ⟨.refl _, rfl⟩
  | failWrite hwork => exact ⟨.refl _, by rw [hwork]; rfl⟩
  | reserve _ _ _ _ | handOver _ _ _ => exact ⟨⟨rfl, rfl, rfl⟩, rfl⟩
  | write htask _ _ => exact ⟨.refl _, by rw [work_eq_rest htask rfl]; rfl⟩
  | mark hwork | take hwork _ => exact ⟨⟨rfl, rfl, rfl⟩, by rw [hwork]; rfl⟩
  | failCheck htask => exact ⟨.refl _, by rw [work, htask]; rfl⟩
  | recordOk _ | recordFailed _ => exact absurd rfl hrecord
  | count _ => exact absurd rfl (hcount _)
  | release hwork _ =>
    refine ⟨?_, by rw [hwork]⟩
    rw [PieceTracker.chunks_releasePiecesOwnedBy]
    exact pt.chunks.sameCounters_foldl _

/-- A result is recorded by a connection that has checked a piece. -/
lemma step_record
    (h : c.step shared pt peers filePriorities locked (.reader .record) = some (pt', peers', c')) :
    ∃ p ok requester, c.task = .running (.checked p ok) requester ∧
      pt' = (if ok then pt.markPieceHashOk p else pt.markPieceHashFailed p) ∧
      c'.work = if ok then .completing p else .rest := by
  rw [step] at h
  split at h
  · next reader requester htask =>
    obtain ⟨⟨pt₁, peers₁, task⟩, ha, he⟩ := map_eq_some_iff.mp h
    cases he
    cases reader with
    | checked p ok =>
      refine ⟨p, ok, requester, htask, ?_⟩
      cases ok <;> cases ha <;> exact ⟨rfl, rfl⟩
    | _ => cases ha
  · cases h

/-- A piece is counted by a connection that has recorded it. -/
lemma step_complete {streams}
    (h : c.step shared pt peers filePriorities locked (.reader (.complete streams))
      = some (pt', peers', c')) :
    pt.chunks.SameCounters pt'.chunks ∧ c'.work = .rest := by
  rw [step] at h
  split at h
  · next reader requester htask =>
    obtain ⟨⟨pt₁, peers₁, task⟩, ha, he⟩ := map_eq_some_iff.mp h
    cases he
    cases reader with
    | completing p =>
      cases ha
      obtain ⟨perFileBytes, hchunks⟩ := pt.chunks.exists_onPieceCompleted p shared.fileInfos
      refine ⟨?_, ?_⟩
      · show pt.chunks.SameCounters (pt.chunks.onPieceCompleted shared.fileInfos p)
        rw [hchunks]
        exact ⟨rfl, rfl, rfl⟩
      · show ({ c with task := (complete shared pt requester p streams).2 } : Connection L).work = _
        rw [complete]
        split <;> rfl
    | checked p ok => cases ok <;> cases ha
    | _ => cases ha
  · cases h

end Connection

/-! ## What is under way -/

namespace Metered

variable {shared : TorrentShared} {s s' : Metered L} {t t' : Torrent L}

lemma underWay_eq_sum_range (t : Torrent L) {n} (hn : t.connections.length ≤ n) :
    underWay t = ∑ i ∈ Finset.range n, (t.workOf i).bytes := by
  have hsum : ∀ (l : List (Connection L)) (n : ℕ), l.length ≤ n →
      (l.map fun c => c.work.bytes).sum
        = ∑ i ∈ Finset.range n, (((l[i]?).map Connection.work).getD .rest).bytes := by
    intro l
    induction l with
    | nil => intro n _; simp [Work.bytes]
    | cons c l ih =>
      intro n hn
      obtain ⟨n, rfl⟩ : ∃ k, n = k + 1 := ⟨n - 1, by simp at hn; omega⟩
      rw [Finset.sum_range_succ', map_cons, sum_cons, ih n (by simpa using hn)]
      simp [Nat.add_comm]
  exact hsum t.connections n hn

lemma underWay_eq_zero (h : ∀ i, (t.workOf i).bytes = 0) : underWay t = 0 := by
  rw [underWay_eq_sum_range t (Nat.le_refl _)]
  exact Finset.sum_eq_zero fun i _ => h i

variable {id : ℕ}

/-- When one connection changes its work. -/
lemma underWay_set {c} (hc : t.connections[id]? = some c)
    (c' : Connection L) (state : ManagedTorrentState L) (peers : PeerStates L)
    (notNeeded : Option PeerHandle) :
    underWay ⟨state, peers, t.connections.set id c', notNeeded⟩ + c.work.bytes
      = underWay t + c'.work.bytes := by
  obtain ⟨hid, hget⟩ := List.getElem?_eq_some_iff.mp hc
  have hsplit : t.connections = t.connections.take id ++ c :: t.connections.drop (id + 1) := by
    rw [← hget, getElem_cons_drop, take_append_drop]
  have hold := congrArg (fun l => (l.map fun c : Connection L => c.work.bytes).sum) hsplit
  rw [underWay, underWay, hold, set_eq_take_append_cons_drop, if_pos hid]
  simp only [map_append, map_cons, sum_append, sum_cons]
  omega

/-! ## One step of the system -/

variable {ct : ChunkTracker L}

/-- A new selection keeps the bytes we have. -/
lemma inSync_updateOnlyFiles (h : ct.InSync) (fileInfos : List FileInfo)
    (files : List ℕ) : (ct.updateOnlyFiles fileInfos files).InSync ∧
      (ct.updateOnlyFiles fileInfos files).hns.haveBytes = ct.hns.haveBytes := by
  have hstep : ct.apply (.updateOnlyFiles fileInfos files) =
      some (ct.updateOnlyFiles fileInfos files) := rfl
  have hsync : (ct.updateOnlyFiles fileInfos files).InSync := h.apply hstep
  refine ⟨hsync, ?_⟩
  rw [hsync, h, ChunkTracker.calcHns_eq, ChunkTracker.calcHns_eq,
    ChunkTracker.havePieces_updateOnlyFiles]

/-- Unless the torrent is live there is only the tracker to speak of. -/
lemma settled_of_not_live (hlive : ∀ pt filePriorities, s.torrent.state ≠ .live pt filePriorities)
    (hsync : ∀ pt ∈ s.torrent.state.tracker, pt.chunks.InSync) (hidle : underWay s.torrent = 0) :
    s.Settled :=
  ⟨hsync, fun _ => hidle, fun pt filePriorities hstate => absurd hstate (hlive pt filePriorities)⟩

variable {filePriorities : List ℕ}

/-- A live torrent. -/
lemma settled_live_iff {pt} (hstate : s.torrent.state = .live pt filePriorities) :
    s.Settled ↔ pt.chunks.InSync ∧ s.haveBytes + underWay s.torrent = pt.chunks.hns.haveBytes := by
  constructor
  · intro h
    exact ⟨h.inSync pt (mem_tracker_of_live hstate), h.counted pt filePriorities hstate⟩
  rintro ⟨hsync, hcounted⟩
  refine ⟨?_, fun hlive => absurd hstate (hlive pt filePriorities), ?_⟩
  · rw [hstate]
    rintro _ ⟨⟩
    exact hsync
  · rw [hstate]
    rintro _ _ ⟨⟩
    exact hcounted

variable {a : TorrentStep L}

/-- **A step that records nothing, counts nothing and starts nothing leaves the sum as it is.** -/
theorem Settled.effect (h : s.Settled) (hcount : s'.haveBytes = s.haveBytes)
    {state works} (hstate' : s'.torrent.state = state)
    (hworks' : s'.torrent.workOf = works) (heffect : s.torrent.Effect shared a state works)
    (hrecord : ∀ id, a ≠ .connection id (.reader .record))
    (hcomplete : ∀ id streams, a ≠ .connection id (.reader (.complete streams)))
    (hstart : ∀ filePriorities, a ≠ .start filePriorities) : s'.Settled := by
  have hsame : (∀ i, (works i).bytes = (s.torrent.workOf i).bytes) →
      underWay s'.torrent = underWay s.torrent := by
    intro hbytes
    rw [underWay_eq_sum_range s'.torrent (Nat.le_max_left _ s.torrent.connections.length),
      underWay_eq_sum_range s.torrent (Nat.le_max_right s'.torrent.connections.length _)]
    exact Finset.sum_congr rfl fun i _ => by rw [hworks', hbytes]
  have habandon : (∀ i, works i = (s.torrent.workOf i).abandon) → underWay s'.torrent = 0 := by
    intro habandon
    exact underWay_eq_zero fun i => by rw [hworks', habandon, Work.bytes_abandon]
  have hkept (hstate : state = s.torrent.state)
      (hbytes : underWay s'.torrent = underWay s.torrent) :
      s'.Settled := by
    rw [hstate] at hstate'
    refine ⟨?_, ?_, ?_⟩
    · rw [hstate']
      exact h.inSync
    · rw [hstate', hbytes]
      exact h.idle
    · rw [hstate', hbytes, hcount]
      exact h.counted
  cases heffect with
  | keep a => exact hkept rfl (hsame fun _ => rfl)
  | @connection id c b pt pt' filePriorities w hstate hc hb =>
    obtain ⟨hsync, hcounted⟩ := (settled_live_iff hstate).mp h
    obtain ⟨hpt, hw⟩ := hb.sameCounters (fun hb => hrecord id (by rw [hb]))
      fun streams hb => hcomplete id streams (by rw [hb])
    rw [settled_live_iff hstate', hcount, hpt.hns, hsame]
    · exact ⟨hpt.inSync hsync, hcounted⟩
    intro i
    rw [Function.update_apply]
    split
    · next hi => rw [hi, hw, workOf_eq hc]
    · rfl
  | staleCheckEnds hwork =>
    refine hkept rfl (hsame fun i => ?_)
    rw [Function.update_apply]
    split
    · next hi => rw [hi, hwork]; rfl
    · rfl
  | selectPaused hstate =>
    have hsync := h.inSync _ (mem_tracker_of_paused hstate)
    refine settled_of_not_live (by rw [hstate']; nofun) ?_ ?_
    · rw [hstate']
      rintro _ ⟨⟩
      exact (inSync_updateOnlyFiles hsync _ _).1
    · rw [hsame fun _ => rfl]
      exact h.idle (by rw [hstate]; nofun)
  | selectLive hstate =>
    obtain ⟨hsync, hcounted⟩ := (settled_live_iff hstate).mp h
    obtain ⟨hsync', hbytes⟩ := inSync_updateOnlyFiles hsync shared.fileInfos _
    rw [settled_live_iff hstate', hcount, hsame fun _ => rfl, hcounted]
    exact ⟨hsync', hbytes.symm⟩
  | @pause pt filePriorities hstate =>
    obtain ⟨hsync, -⟩ := (settled_live_iff hstate).mp h
    refine settled_of_not_live (by rw [hstate']; nofun) ?_ (habandon fun _ => rfl)
    rw [hstate']
    rintro _ ⟨⟩
    exact (pt.chunks.sameCounters_foldl _).inSync hsync
  | start _ _ => exact absurd rfl (hstart _)
  | stopWithError | recheck =>
    exact settled_of_not_live (by rw [hstate']; nofun) (by rw [hstate']; rintro _ ⟨⟩)
      (habandon fun _ => rfl)
  | initialized hstate hnew =>
    refine settled_of_not_live (by rw [hstate']; nofun) ?_ ?_
    · rw [hstate']
      rintro _ ⟨⟩
      obtain ⟨cs, -, rfl⟩ := ChunkTracker.new_eq_ok hnew
      rfl
    · rw [hsame fun _ => rfl]
      exact h.idle (by rw [hstate]; nofun)
  | initFailed hstate =>
    refine settled_of_not_live (by rw [hstate']; nofun) (by rw [hstate']; rintro _ ⟨⟩) ?_
    rw [hsame fun _ => rfl]
    exact h.idle (by rw [hstate]; nofun)

/-- The tracker counts a downloaded piece unless it is there. -/
lemma add_pieceLengthOf_eq_iff {p n} (hn : n = ct.hns.haveBytes) :
    n + L.pieceLengthOf p = (ct.markPieceDownloaded p).hns.haveBytes ↔
      ct.isPieceHave p = false ∨ L.pieceLengthOf p = 0 := by
  rw [ChunkTracker.markPieceDownloaded, ChunkTracker.isPieceHave, hn]
  cases ct.havePieces.get p.1 with
  | true | false => simp

variable (h : s.Settled)
include h

/-- **A recorded hash keeps the sum exactly if the piece was not there.** -/
theorem settled_record_iff (hstep : s.step shared (.connection id (.reader .record)) = some s') :
    s'.Settled ↔ s.RecordsFresh (.connection id (.reader .record)) := by
  obtain ⟨t', ht', rfl⟩ := map_eq_some_iff.mp hstep
  obtain ⟨pt, filePriorities, c, pt', peers, c', hstate, hc, hcstep, rfl⟩ :=
    connectionStep_eq_some ht'
  obtain ⟨hsync, hcounted⟩ := (settled_live_iff hstate).mp h
  obtain ⟨p, ok, requester, htask, hpt', hwork⟩ := Connection.step_record hcstep
  have hset := underWay_set hc c' (.live pt' filePriorities) peers s.torrent.notNeeded
  have hzero : c.work.bytes = 0 := by rw [Connection.work, htask]; rfl
  rw [hzero, Nat.add_zero] at hset
  rw [settled_live_iff rfl]
  rw [hset, hwork, hpt', ← Nat.add_assoc]
  cases ok with
  | false =>
    have hsame := pt.chunks.sameCounters_markPieceBrokenIfNotHave p
    refine iff_of_true ⟨hsame.inSync hsync, ?_⟩ ?_
    · exact hcounted.trans (congrArg HaveNeededSelected.haveBytes hsame.hns).symm
    · intro q hq
      simp [records, verified, hc, htask] at hq
  | true =>
    have hfresh : s.RecordsFresh (.connection id (.reader .record)) ↔
        pt.chunks.isPieceHave p = false ∨ L.pieceLengthOf p = 0 := by
      simp [RecordsFresh, records, verified, hc, htask, hstate, tracker]
    rw [hfresh, ← add_pieceLengthOf_eq_iff hcounted]
    exact and_iff_right (hsync.markPieceDownloaded p)

/-- Counting moves bytes from what is under way to the counter. -/
lemma Settled.complete {streams}
    (hstep : s.step shared (.connection id (.reader (.complete streams))) = some s') :
    s'.Settled := by
  obtain ⟨t', ht', rfl⟩ := map_eq_some_iff.mp hstep
  obtain ⟨pt, filePriorities, c, pt', peers, c', hstate, hc, hcstep, rfl⟩ :=
    connectionStep_eq_some ht'
  obtain ⟨hsync, hcounted⟩ := (settled_live_iff hstate).mp h
  obtain ⟨hsame, hwork⟩ := Connection.step_complete hcstep
  have hset := underWay_set hc c' (.live pt' filePriorities) peers s.torrent.notNeeded
  rw [hwork, show (Work.rest : Work L).bytes = 0 from rfl] at hset
  rw [settled_live_iff rfl]
  dsimp only [countAfter]
  rw [hsame.hns, workOf_eq hc]
  exact ⟨hsame.inSync hsync, by omega⟩

/-- A live torrent starts from the bytes of its tracker, with nothing under way. -/
lemma Settled.start (hstep : s.step shared (.start filePriorities) = some s') : s'.Settled := by
  obtain ⟨t', ht', rfl⟩ := map_eq_some_iff.mp hstep
  rw [Torrent.step] at ht'
  split at ht'
  · next ct hstate =>
    split at ht'
    · cases ht'
      have hidle : underWay s.torrent = 0 := h.idle fun _ _ hlive => by
        cases hstate.symm.trans hlive
      rw [settled_live_iff rfl]
      exact ⟨h.inSync _ (mem_tracker_of_paused hstate), congrArg (ct.hns.haveBytes + ·) hidle⟩
    · cases ht'
  · cases ht'

lemma settled_step_iff (hstep : s.step shared a = some s') :
    s'.Settled ↔ s.RecordsFresh a := by
  by_cases hrecord : ∃ id, a = .connection id (.reader .record)
  · obtain ⟨id, rfl⟩ := hrecord
    exact settled_record_iff h hstep
  push Not at hrecord
  have hfresh : s.RecordsFresh a := by
    intro p hp
    rw [records.eq_def] at hp
    split at hp
    · exact absurd rfl (hrecord _)
    · cases hp
  refine iff_of_true ?_ hfresh
  by_cases hcomplete : ∃ id streams, a = .connection id (.reader (.complete streams))
  · obtain ⟨id, streams, rfl⟩ := hcomplete
    exact h.complete hstep
  by_cases hstart : ∃ filePriorities, a = .start filePriorities
  · obtain ⟨filePriorities, rfl⟩ := hstart
    exact h.start hstep
  push Not at hcomplete hstart
  obtain ⟨t', ht', rfl⟩ := map_eq_some_iff.mp hstep
  refine h.effect ?_ rfl rfl (effect_of_step ht') hrecord hcomplete hstart
  rw [countAfter.eq_def]
  split
  · exact absurd rfl (hcomplete _ _)
  · exact absurd rfl (hstart _)
  · rfl

omit h

/-- **The counter and the bytes under way always make up the tracker's sum exactly when every good
hash that is recorded is of a piece that is not there; and then the counter is the tracker's
whenever no result is being recorded.** -/
theorem settled_iff_recordsFresh (as : List (TorrentStep L)) :
    (Always (step shared) Settled ({} : Metered L) as ↔
      Along (step shared) RecordsFresh ({} : Metered L) as) ∧
    (Along (step shared) RecordsFresh ({} : Metered L) as →
      Always (step shared) Exact ({} : Metered L) as) := by
  have hinitial : ({} : Metered L).Settled :=
    settled_of_not_live (by nofun) (by rintro _ ⟨⟩) rfl
  have hiff : Always (step shared) Settled ({} : Metered L) as ↔
      Along (step shared) RecordsFresh ({} : Metered L) as :=
    always_iff_along (fun _ _ _ h hstep => settled_step_iff h hstep) hinitial as
  exact ⟨hiff, fun h => (hiff.mpr h).mono fun _ => Settled.exact⟩

/-! ### A piece that is selected again during its hash check -/

/-- The file of the first piece is deselected and selected again. -/
def reselects : List (TorrentStep L) :=
  [.updateOnlyFiles [1] fun _ => true, .updateOnlyFiles [0, 1] fun _ => true]

/-- **The bytes of a piece are counted twice.**  While the hash of the first piece is checked its
file is deselected and selected again, so that the piece is queued, and another peer reserves it;
both checks succeed. -/
theorem not_exact_reselected : ¬ Always (step twoFiles) Exact ({} : Metered Lengths.twoBytePieces)
      ([.initialized (BitField.zeros _) none, .start [0, 1]] ++ comes 0 peerOne ++
        comes 1 peerTwo ++ asks 0 {} ++
        sends 0 ⟨0, 0, [7]⟩ (some true) ++ reselects ++ asks 1 {} ++
        [.connection 0 (.reader .record), .connection 0 (.reader (.complete []))] ++
        sends 1 ⟨0, 0, [7]⟩ (some true) ++
        [.connection 1 (.reader .record), .connection 1 (.reader (.complete []))]) :=
  not_always_of_run (by decide)

end Metered

end Librtbit
