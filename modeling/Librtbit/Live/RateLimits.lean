import Librtbit.Core.Geometry
import Librtbit.Live.UploadSlots
import Librtbit.Machinery.Pool

/-!
# Live/RateLimits — chunks wait for the rate limits

What a peer asks for goes through the torrent's upload scheduler, which takes the chunks one at a
time; what we ask a peer for goes through the peer's own requester.  Both wait for two limits, that
of the torrent and then that of the session, and both ask a limiter for the whole chunk at once.

A limiter waits for no more than its quota of a second.  A chunk above it is an error, and the error
ends the task: the one that uploads for all peers of the torrent, or the one whose end disconnects a
peer (`sound_iff_fits`).  Limits of at least `CHUNK_SIZE` a second only delay
(`always_sound_of_chunkSize_le`).
-/

namespace Librtbit

open Machinery Wire List Option

/-! ## Limits -/

/-- `NonZeroU32` -/
abbrev NonZeroU32 : Type := { n : ℕ // 0 < n ∧ n < 2 ^ 32 }

def NonZeroU32.new (n : ℕ) : Option NonZeroU32 :=
  if h : 0 < n ∧ n < 2 ^ 32 then some ⟨n, h⟩ else none

lemma NonZeroU32.new_eq_some {n size} (h : NonZeroU32.new n = some size) :
    size.1 = n := by
  rw [NonZeroU32.new] at h
  split at h <;> cases h
  rfl

/-- `InsufficientCapacity`, with the quota that is not enough. -/
structure InsufficientCapacity where
  quota : NonZeroU32

/-- A direct limiter, with its quota per second. -/
structure RateLimiter where
  quota : NonZeroU32

/-- What waiting for `n` cells comes to. -/
def RateLimiter.untilNReady (rl : RateLimiter) (n : NonZeroU32) :
    Except InsufficientCapacity Unit :=
  if n.1 ≤ rl.quota.1 then .ok () else .error ⟨rl.quota⟩

structure Limit where
  limiter : Option RateLimiter

namespace Limit

def new (bps : Option NonZeroU32) : Limit := ⟨bps.map RateLimiter.mk⟩

/-- The limiter that is there now is the one that is waited for. -/
def acquire (l : Limit) (size : NonZeroU32) : Except InsufficientCapacity Unit :=
  match l.limiter with
  | some rl => rl.untilNReady size
  | none => .ok ()

def set (_ : Limit) (bps : Option NonZeroU32) : Limit := new bps

/-- No limit, or one of at least `size` a second. -/
def Fits (l : Limit) (size : ℕ) : Prop := ∀ rl ∈ l.limiter, size ≤ rl.quota.1
  deriving Decidable

/-- **A limit only delays what fits into it.** -/
theorem acquire_eq_ok_iff (l : Limit) (size : NonZeroU32) :
    l.acquire size = .ok () ↔ l.Fits size.1 := by
  rw [acquire, Fits]
  cases l.limiter with
  | none => exact ⟨fun _ _ hrl => absurd hrl (not_mem_none _), fun _ => rfl⟩
  | some rl =>
    simp only [mem_some_iff, forall_eq', RateLimiter.untilNReady]
    split
    · next hle => exact iff_of_true rfl hle
    · next hlt => exact iff_of_false (fun herr => by cases herr) hlt

end Limit

structure LimitsConfig where
  uploadBps : Option NonZeroU32 := none
  downloadBps : Option NonZeroU32 := none

structure Limits where
  down : Limit
  up : Limit

namespace Limits

def new (config : LimitsConfig) : Limits := ⟨.new config.downloadBps, .new config.uploadBps⟩

def prepareForUpload (l : Limits) (len : NonZeroU32) : Except InsufficientCapacity Unit :=
  l.up.acquire len

def prepareForDownload (l : Limits) (len : NonZeroU32) : Except InsufficientCapacity Unit :=
  l.down.acquire len

def setUploadBps (l : Limits) (bps : Option NonZeroU32) : Limits := { l with up := l.up.set bps }

def setDownloadBps (l : Limits) (bps : Option NonZeroU32) : Limits :=
  { l with down := l.down.set bps }

end Limits

/-! ## Tasks -/

namespace RateLimits

/-- Whose limits they are. -/
inductive Scope where
  | torrent
  | session
  deriving DecidableEq

/-- What `task_upload_scheduler` is at; `peer` is the one the chunk is for. -/
inductive UploadScheduler (L : Lengths) where
  | receiving
  /-- About to load the limiter… -/
  | acquiring (scope : Scope) (peer : ℕ) (chunk : ChunkInfo L)
  /-- …and waiting for it. -/
  | waiting (scope : Scope) (peer : ℕ) (chunk : ChunkInfo L)
  | ended

/-- What `task_peer_chunk_requester` is at: the chunk it requests, the size it waits for, and the
other chunks of the piece. -/
inductive ChunkRequester (L : Lengths) where
  | idle
  | requesting (chunks : List (ChunkInfo L))
  | acquiring (scope : Scope) (chunk : ChunkInfo L) (size : NonZeroU32)
      (chunks : List (ChunkInfo L))
  | waiting (scope : Scope) (chunk : ChunkInfo L) (size : NonZeroU32)
      (chunks : List (ChunkInfo L))
  /-- The limits are passed; a permit is awaited. -/
  | permitted (chunk : ChunkInfo L) (chunks : List (ChunkInfo L))

/-- Why a peer was disconnected. -/
inductive PeerEnd where
  /-- The connection ended, or neither side needs it. -/
  | connection
  /-- Its request was not for a chunk that we have. -/
  | badRequest
  /-- The requester ended with `RateLimitInsufficientCapacity`. -/
  | rateLimit
  /-- Its request could not be sent to the scheduler. -/
  | schedulerEnded
  deriving DecidableEq

/-- Disconnected because of a limit, ours or the scheduler's. -/
def PeerEnd.byLimit : PeerEnd → Bool
  | rateLimit | schedulerEnded => true
  | connection | badRequest => false

structure Peer (L : Lengths) where
  requester : ChunkRequester L := .idle
  /-- What the writer has been given. -/
  tx : List (WriterRequest L) := []
  ended : Option PeerEnd := none

def Peer.endedByLimit {L : Lengths} (peer : Peer L) : Bool := peer.ended.any PeerEnd.byLimit

/-- A live torrent and the session it is in. -/
structure Transfers (L : Lengths) where
  ratelimits : Limits
  sessionRatelimits : Limits
  /-- `session.upgrade()` -/
  sessionAlive : Bool := true
  disableUpload : Bool := false
  /-- The channel of the scheduler. -/
  uploads : List (ℕ × ChunkInfo L) := []
  scheduler : UploadScheduler L := .receiving
  peers : List (Peer L) := []

inductive TransferStep (L : Lengths) where
  | setUploadBps (scope : Scope) (bps : Option NonZeroU32)
  | setDownloadBps (scope : Scope) (bps : Option NonZeroU32)
  | dropSession
  | addPeer
  /-- The connection ends for a reason of its own. -/
  | endPeer (i : ℕ)
  /-- `on_download_request`; whether the chunk is ready to be uploaded. -/
  | downloadRequest (i : ℕ) (request : Request) (ready : Bool)
  | schedulerReceive
  | schedulerAcquire
  /-- The limiter has waited long enough. -/
  | schedulerReady
  /-- The peer that is waited for is gone. -/
  | schedulerClosed
  | acquirePiece (i : ℕ) (p : ValidPieceIndex L)
  /-- The next chunk of the piece; whether it is new in `inflight_requests`. -/
  | nextChunk (i : ℕ) (inserted : Bool)
  | requesterAcquire (i : ℕ)
  | requesterReady (i : ℕ)
  | sendRequest (i : ℕ)

variable {L : Lengths}

namespace UploadScheduler

def alive : UploadScheduler L → Bool
  | .ended => false
  | .receiving | .acquiring .. | .waiting .. => true

/-- The peer that the chunk in hand is for. -/
def peer? : UploadScheduler L → Option ℕ
  | .acquiring _ peer _ | .waiting _ peer _ => some peer
  | .receiving | .ended => none

/-- The chunk in hand. -/
def chunk? : UploadScheduler L → Option (ChunkInfo L)
  | .acquiring _ _ chunk | .waiting _ _ chunk => some chunk
  | .receiving | .ended => none

end UploadScheduler

namespace ChunkRequester

/-- One turn of the loop over the chunks of a piece, up to the first limit. -/
def nextChunk (inserted : Bool) : ChunkRequester L → Option (ChunkRequester L)
  | .requesting [] => some .idle
  | .requesting (chunk :: chunks) =>
    match inserted, NonZeroU32.new chunk.size with
    | true, some size => some (.acquiring .torrent chunk size chunks)
    | _, _ => some (.requesting chunks)
  | _ => none

/-- A limit is passed. -/
def ready (sessionAlive : Bool) : ChunkRequester L → Option (ChunkRequester L)
  | .waiting .torrent chunk size chunks =>
    some (if sessionAlive then .acquiring .session chunk size chunks else .permitted chunk chunks)
  | .waiting .session chunk _ chunks => some (.permitted chunk chunks)
  | _ => none

/-- The chunks that it requests, or will. -/
def chunks : ChunkRequester L → List (ChunkInfo L)
  | .idle => []
  | .requesting chunks => chunks
  | .acquiring _ chunk _ chunks | .waiting _ chunk _ chunks | .permitted chunk chunks =>
    chunk :: chunks

end ChunkRequester

/-- The request for a chunk. -/
def requestOf (chunk : ChunkInfo L) : Request where
  index := UInt32.ofNat chunk.pieceIndex.1
  begin := UInt32.ofNat chunk.offset
  length := UInt32.ofNat chunk.size

namespace Transfers

variable (s : Transfers L)

/-- The torrent goes live. -/
def new (torrent session : LimitsConfig) (disableUpload : Bool) : Transfers L where
  ratelimits := .new torrent
  sessionRatelimits := .new session
  disableUpload

def limits : Scope → Limits
  | .torrent => s.ratelimits
  | .session => s.sessionRatelimits

def setLimits (f : Limits → Limits) : Scope → Transfers L
  | .torrent => { s with ratelimits := f s.ratelimits }
  | .session => { s with sessionRatelimits := f s.sessionRatelimits }

def setScheduler (scheduler : UploadScheduler L) : Transfers L := { s with scheduler }

def setPeer (i : ℕ) (peer : Peer L) : Transfers L := { s with peers := s.peers.set i peer }

/-- A step of a peer that is connected. -/
def withPeer (i : ℕ) (f : Peer L → Option (Peer L)) : Option (Transfers L) :=
  match s.peers[i]? with
  | some peer => if peer.ended.isSome then none else (f peer).map (s.setPeer i)
  | none => none

/-- The chunk of a request, if the request is a valid one. -/
def requestedChunk (request : Request) (ready : Bool) : Option (ChunkInfo L) := do
  if s.disableUpload then none
  let pieceIndex ← L.validatePieceIndex request.index.toNat
  let chunkInfo ← L.chunkInfoFromReceivedData pieceIndex request.begin.toNat request.length.toNat
  if ready then some chunkInfo else none

def onDownloadRequest (i : ℕ) (request : Request) (ready : Bool) : Option (Transfers L) :=
  match s.peers[i]? with
  | some peer =>
    if peer.ended.isSome then none
    else
      match s.requestedChunk request ready with
      | none => some (s.setPeer i { peer with ended := some .badRequest })
      | some chunkInfo =>
        some (if s.scheduler.alive then { s with uploads := s.uploads ++ [(i, chunkInfo)] }
          else s.setPeer i { peer with ended := some .schedulerEnded })
  | none => none

def schedulerReceive : Option (Transfers L) :=
  match s.scheduler, s.uploads with
  | .receiving, (i, chunk) :: uploads =>
    some { s with uploads, scheduler := .acquiring .torrent i chunk }
  | _, _ => none

/-- The task ends with the error, or where it unwraps a size of zero. -/
def schedulerAcquire : Option (Transfers L) :=
  match s.scheduler with
  | .acquiring scope i chunk =>
    match (NonZeroU32.new chunk.size).map (s.limits scope).prepareForUpload with
    | some (.ok ()) => some (s.setScheduler (.waiting scope i chunk))
    | some (.error _) | none => some (s.setScheduler .ended)
  | _ => none

/-- The chunk goes to the writer, whether the peer is there or not. -/
def sendChunk (i : ℕ) (chunk : ChunkInfo L) : Transfers L :=
  { s with
    scheduler := .receiving
    peers := s.peers.modify i fun peer => { peer with tx := peer.tx ++ [.readChunkRequest chunk] } }

def schedulerReady : Option (Transfers L) :=
  match s.scheduler with
  | .waiting .torrent i chunk =>
    some (if s.sessionAlive then s.setScheduler (.acquiring .session i chunk)
      else s.sendChunk i chunk)
  | .waiting .session i chunk => some (s.sendChunk i chunk)
  | _ => none

def schedulerClosed : Option (Transfers L) :=
  match s.scheduler.peer?.bind (s.peers[·]?) with
  | some peer => if peer.ended.isSome then some (s.setScheduler .receiving) else none
  | none => none

/-- The requester of a peer asks for the limit; the peer is disconnected by an error. -/
def requesterAcquire (peer : Peer L) : Option (Peer L) :=
  match peer.requester with
  | .acquiring scope chunk size chunks =>
    match (s.limits scope).prepareForDownload size with
    | .ok () => some { peer with requester := .waiting scope chunk size chunks }
    | .error _ => some { peer with ended := some .rateLimit }
  | _ => none

/-- The request goes to the writer. -/
def sendRequest (peer : Peer L) : Option (Peer L) :=
  match peer.requester with
  | .permitted chunk chunks =>
    some { peer with
      requester := .requesting chunks
      tx := peer.tx ++ [.message (.request (requestOf chunk))] }
  | _ => none

/-- **One step**, of one of the tasks or from outside. -/
def step : TransferStep L → Option (Transfers L)
  | .setUploadBps scope bps => some (s.setLimits (·.setUploadBps bps) scope)
  | .setDownloadBps scope bps => some (s.setLimits (·.setDownloadBps bps) scope)
  | .dropSession => some { s with sessionAlive := false }
  | .addPeer => some { s with peers := s.peers ++ [{}] }
  | .endPeer i => s.withPeer i fun peer => some { peer with ended := some .connection }
  | .downloadRequest i request ready => s.onDownloadRequest i request ready
  | .schedulerReceive => s.schedulerReceive
  | .schedulerAcquire => s.schedulerAcquire
  | .schedulerReady => s.schedulerReady
  | .schedulerClosed => s.schedulerClosed
  | .acquirePiece i p => s.withPeer i fun peer =>
    match peer.requester with
    | .idle => some { peer with requester := .requesting (L.iterChunkInfos p) }
    | _ => none
  | .nextChunk i inserted => s.withPeer i fun peer =>
    (peer.requester.nextChunk inserted).map fun requester => { peer with requester }
  | .requesterAcquire i => s.withPeer i s.requesterAcquire
  | .requesterReady i => s.withPeer i fun peer =>
    (peer.requester.ready s.sessionAlive).map fun requester => { peer with requester }
  | .sendRequest i => s.withPeer i sendRequest

end Transfers

/-! ## Blocks

Every chunk on its way is one that a piece is cut into. -/

/-- A chunk of at least one byte and at most `CHUNK_SIZE`. -/
def IsBlock (chunk : ChunkInfo L) : Prop := 0 < chunk.size ∧ chunk.size ≤ chunkSize

variable {chunk : ChunkInfo L} {p : ValidPieceIndex L}

lemma isBlock_of_chunkInfoFromReceivedData {begin size}
    (h : L.chunkInfoFromReceivedData p begin size = some chunk) :
    IsBlock chunk := by
  obtain ⟨i, -, hexpected, -, rfl⟩ := Lengths.chunkInfoFromReceivedData_eq_some.mp h
  have hmod : L.pieceLengthOf p % chunkSize < chunkSize := Nat.mod_lt _ (by decide)
  rw [Lengths.chunkSizeOf] at hexpected
  show 0 < size ∧ size ≤ chunkSize
  grind

lemma isBlock_of_mem_iterChunkInfos (h : chunk ∈ L.iterChunkInfos p) : IsBlock chunk := by
  rw [Lengths.iterChunkInfos_eq] at h
  obtain ⟨i, hi, rfl⟩ := mem_map.mp h
  have hlt := (lt_ceilDiv_iff_mul_lt (by decide)).mp (mem_range.mp hi)
  rw [Nat.mul_comm] at hlt
  exact ⟨Nat.lt_min.mpr ⟨Nat.sub_pos_of_lt hlt, by decide⟩, Nat.min_le_right _ _⟩

lemma IsBlock.exists_new (h : IsBlock chunk) :
    ∃ size, NonZeroU32.new chunk.size = some size := by
  have hlt : chunk.size < 2 ^ 32 := lt_of_le_of_lt h.2 (by decide)
  exact ⟨⟨chunk.size, h.1, hlt⟩, dif_pos ⟨h.1, hlt⟩⟩

namespace ChunkRequester

/-- The size that is waited for is that of a chunk, and the chunks are blocks. -/
structure Valid (r : ChunkRequester L) : Prop where
  isBlock : ∀ chunk ∈ r.chunks, IsBlock chunk
  size_eq : ∀ scope chunk size chunks,
    r = .acquiring scope chunk size chunks ∨ r = .waiting scope chunk size chunks →
      size.1 = chunk.size

variable {r r' : ChunkRequester L}

lemma Valid.nextChunk {inserted} (hv : r.Valid)
    (h : r.nextChunk inserted = some r') : r'.Valid := by
  unfold ChunkRequester.nextChunk at h
  split at h
  · cases h
    exact ⟨fun chunk hchunk => (not_mem_nil hchunk).elim, by simp⟩
  · next chunk chunks =>
    have hchunks : ∀ c ∈ chunk :: chunks, IsBlock c := hv.isBlock
    split at h
    · next size hnew =>
      cases h
      refine ⟨hchunks, fun scope' chunk' size' chunks' hr => ?_⟩
      rcases hr with hr | hr
      · cases hr
        exact NonZeroU32.new_eq_some hnew
      · cases hr
    · cases h
      exact ⟨fun c hc => hchunks c (mem_cons_of_mem _ hc), by simp⟩
  · cases h

lemma Valid.ready {sessionAlive} (hv : r.Valid)
    (h : r.ready sessionAlive = some r') : r'.Valid := by
  unfold ChunkRequester.ready at h
  split at h
  · next chunk size chunks =>
    have hsize := hv.size_eq .torrent chunk size chunks (Or.inr rfl)
    cases h
    cases sessionAlive with
    | true =>
      refine ⟨hv.isBlock, fun scope' chunk' size' chunks' hr => ?_⟩
      rcases hr with hr | hr
      · cases hr
        exact hsize
      · cases hr
    | false => exact ⟨hv.isBlock, by simp⟩
  · cases h
    exact ⟨hv.isBlock, by simp⟩
  · cases h

/-- The size stays the same while the limiter is waited for. -/
lemma Valid.wait {scope chunk size}
    {chunks : List (ChunkInfo L)} (hv : (acquiring scope chunk size chunks).Valid) :
    (waiting scope chunk size chunks).Valid := by
  refine ⟨hv.isBlock, fun scope' chunk' size' chunks' hr => ?_⟩
  rcases hr with hr | hr
  · cases hr
  · cases hr
    exact hv.size_eq scope chunk size chunks (Or.inl rfl)

end ChunkRequester

/-! ## What a step does -/

namespace Transfers

variable {s s' : Transfers L}

/-- **The limit that is asked is none or at least as large as the chunk.** -/
def Fits (s : Transfers L) : TransferStep L → Prop
  | .schedulerAcquire =>
    match s.scheduler with
    | .acquiring scope _ chunk => (s.limits scope).up.Fits chunk.size
    | _ => True
  | .requesterAcquire i =>
    match (s.peers[i]?).map Peer.requester with
    | some (.acquiring scope _ size _) => (s.limits scope).down.Fits size.1
    | _ => True
  | _ => True

/-- What a step does to the peer that makes it. -/
inductive PeerEffect (s : Transfers L) (i : ℕ) (peer : Peer L) : TransferStep L → Peer L → Prop
  | works {act requester} (tx : List (WriterRequest L))
      (hfits : s.Fits act) (hvalid : peer.requester.Valid → requester.Valid) :
      PeerEffect s i peer act { peer with requester, tx }
  | ends {act reason} (hfits : s.Fits act)
      (hreason : s.scheduler.alive = true → reason.byLimit = false) :
      PeerEffect s i peer act { peer with ended := some reason }
  | refused (hfits : ¬ s.Fits (.requesterAcquire i)) :
      PeerEffect s i peer (.requesterAcquire i) { peer with ended := some .rateLimit }

/-- What a step does. -/
inductive Effect (s : Transfers L) : TransferStep L → Transfers L → Prop
  | setUploadBps (scope : Scope) (bps : Option NonZeroU32) :
      Effect s (.setUploadBps scope bps) (s.setLimits (·.setUploadBps bps) scope)
  | setDownloadBps (scope : Scope) (bps : Option NonZeroU32) :
      Effect s (.setDownloadBps scope bps) (s.setLimits (·.setDownloadBps bps) scope)
  | dropSession : Effect s .dropSession { s with sessionAlive := false }
  | addPeer : Effect s .addPeer { s with peers := s.peers ++ [{}] }
  | peer {act i peer peer'} (hpeer : s.peers[i]? = some peer)
      (hended : peer.ended = none) (heffect : PeerEffect s i peer act peer') :
      Effect s act (s.setPeer i peer')
  | enqueue {i request ready chunk}
      (hchunk : IsBlock chunk) :
      Effect s (.downloadRequest i request ready) { s with uploads := s.uploads ++ [(i, chunk)] }
  | receive {i chunk uploads}
      (huploads : s.uploads = (i, chunk) :: uploads) :
      Effect s .schedulerReceive { s with uploads, scheduler := .acquiring .torrent i chunk }
  | acquire {scope i chunk}
      (hscheduler : s.scheduler = .acquiring scope i chunk) (hfits : s.Fits .schedulerAcquire) :
      Effect s .schedulerAcquire (s.setScheduler (.waiting scope i chunk))
  | refuse {scope i chunk}
      (hscheduler : s.scheduler = .acquiring scope i chunk)
      (hfits : IsBlock chunk → ¬ s.Fits .schedulerAcquire) :
      Effect s .schedulerAcquire (s.setScheduler .ended)
  | next {i chunk} (hscheduler : s.scheduler = .waiting .torrent i chunk) :
      Effect s .schedulerReady (s.setScheduler (.acquiring .session i chunk))
  | send (i : ℕ) (chunk : ChunkInfo L) : Effect s .schedulerReady (s.sendChunk i chunk)
  | closed : Effect s .schedulerClosed (s.setScheduler .receiving)

variable {request : Request}

lemma isBlock_requestedChunk {ready chunk}
    (h : s.requestedChunk request ready = some chunk) : IsBlock chunk := by
  unfold requestedChunk at h
  cases hdis : s.disableUpload with
  | true =>
    rw [hdis] at h
    cases h
  | false =>
    rw [hdis] at h
    obtain ⟨p, -, h⟩ := bind_eq_some_iff.mp h
    obtain ⟨chunkInfo, hchunk, h⟩ := bind_eq_some_iff.mp h
    cases ready with
    | true =>
      cases h
      exact isBlock_of_chunkInfoFromReceivedData hchunk
    | false => cases h

variable {i : ℕ}

/-- A step of a connected peer. -/
lemma effect_withPeer {act f} (hf : ∀ peer peer', s.peers[i]? = some peer → f peer = some peer' →
      PeerEffect s i peer act peer')
    (h : s.withPeer i f = some s') : Effect s act s' := by
  unfold withPeer at h
  split at h
  · next peer hpeer =>
    split at h
    · cases h
    · next hended =>
      obtain ⟨peer', hpeer', rfl⟩ := map_eq_some_iff.mp h
      exact .peer hpeer (not_isSome_iff_eq_none.mp hended) (hf peer peer' hpeer hpeer')
  · cases h

lemma effect_onDownloadRequest {ready} (h : s.onDownloadRequest i request ready = some s') :
    Effect s (.downloadRequest i request ready) s' := by
  unfold onDownloadRequest at h
  split at h
  · next peer hpeer =>
    split at h
    · cases h
    next hended =>
    have hended := not_isSome_iff_eq_none.mp hended
    split at h
    · cases h
      exact .peer hpeer hended (.ends trivial fun _ => rfl)
    next chunk hchunk =>
    cases h
    split
    · exact .enqueue (isBlock_requestedChunk hchunk)
    · next halive => exact .peer hpeer hended (.ends trivial fun h => absurd h halive)
  · cases h

lemma effect_schedulerAcquire (h : s.schedulerAcquire = some s') :
    Effect s .schedulerAcquire s' := by
  unfold schedulerAcquire at h
  split at h
  · next scope i chunk hscheduler =>
    have hfits : s.Fits .schedulerAcquire ↔ (s.limits scope).up.Fits chunk.size := by
      simp only [Fits, hscheduler]
    -- The limiter is asked for the size of the chunk, which is not zero if the chunk is a block.
    split at h
    · next hres =>
      cases h
      obtain ⟨size, hsize, hres⟩ := map_eq_some_iff.mp hres
      refine .acquire hscheduler (hfits.mpr ?_)
      rw [← NonZeroU32.new_eq_some hsize]
      exact (Limit.acquire_eq_ok_iff _ size).mp hres
    · next err hres =>
      cases h
      obtain ⟨size, hsize, hres⟩ := map_eq_some_iff.mp hres
      refine .refuse hscheduler fun _ hf => ?_
      rw [hfits, ← NonZeroU32.new_eq_some hsize, ← Limit.acquire_eq_ok_iff] at hf
      exact absurd (hf.symm.trans hres) (fun herr => by cases herr)
    · next hnone =>
      cases h
      refine .refuse hscheduler fun hblock _ => ?_
      obtain ⟨size, hsize⟩ := hblock.exists_new
      rw [hsize] at hnone
      cases hnone
  · cases h

variable {peer peer' : Peer L}

lemma peerEffect_requesterAcquire (hpeer : s.peers[i]? = some peer)
    (h : s.requesterAcquire peer = some peer') :
    PeerEffect s i peer (.requesterAcquire i) peer' := by
  unfold requesterAcquire at h
  split at h
  · next scope chunk size chunks hreq =>
    have hfits : s.Fits (.requesterAcquire i) ↔
        (s.limits scope).prepareForDownload size = .ok () := by
      simp only [Fits, hpeer, map_some, hreq]
      exact (Limit.acquire_eq_ok_iff _ size).symm
    split at h
    · next hres =>
      cases h
      refine .works peer.tx (hfits.mpr hres) fun hv => ?_
      rw [hreq] at hv
      exact hv.wait
    · next err hres =>
      cases h
      refine .refused fun hf => ?_
      exact absurd ((hfits.mp hf).symm.trans hres) (fun herr => by cases herr)
  · cases h

variable {a : TransferStep L}

/-- **Every step is one of these.** -/
theorem effect_of_step (h : s.step a = some s') : Effect s a s' := by
  cases a with
  | setUploadBps scope bps => exact Option.some.inj h ▸ .setUploadBps scope bps
  | setDownloadBps scope bps => exact Option.some.inj h ▸ .setDownloadBps scope bps
  | dropSession => exact Option.some.inj h ▸ .dropSession
  | addPeer => exact Option.some.inj h ▸ .addPeer
  | endPeer i =>
    refine effect_withPeer (fun peer peer' _ heq => ?_) h
    exact Option.some.inj heq ▸ .ends trivial fun _ => rfl
  | downloadRequest i request ready => exact effect_onDownloadRequest h
  | schedulerReceive =>
    change s.schedulerReceive = some s' at h
    unfold schedulerReceive at h
    split at h
    · next huploads => exact Option.some.inj h ▸ .receive huploads
    · cases h
  | schedulerAcquire => exact effect_schedulerAcquire h
  | schedulerReady =>
    change s.schedulerReady = some s' at h
    unfold schedulerReady at h
    split at h
    · next i chunk hscheduler =>
      cases h
      split
      · exact .next hscheduler
      · exact .send i chunk
    · next i chunk _ => exact Option.some.inj h ▸ .send i chunk
    · cases h
  | schedulerClosed =>
    change s.schedulerClosed = some s' at h
    unfold schedulerClosed at h
    split at h
    · split at h
      · exact Option.some.inj h ▸ .closed
      · cases h
    · cases h
  | acquirePiece i p =>
    refine effect_withPeer (fun peer peer' _ heq => ?_) h
    split at heq <;> cases heq
    exact .works peer.tx trivial fun _ =>
      ⟨fun chunk hchunk => isBlock_of_mem_iterChunkInfos hchunk, by simp⟩
  | nextChunk i inserted =>
    refine effect_withPeer (fun peer peer' _ heq => ?_) h
    obtain ⟨r, hr, rfl⟩ := map_eq_some_iff.mp heq
    exact .works peer.tx trivial fun hv => hv.nextChunk hr
  | requesterAcquire i =>
    exact effect_withPeer (fun peer peer' hpeer heq => peerEffect_requesterAcquire hpeer heq) h
  | requesterReady i =>
    refine effect_withPeer (fun peer peer' _ heq => ?_) h
    obtain ⟨r, hr, rfl⟩ := map_eq_some_iff.mp heq
    exact .works peer.tx trivial fun hv => hv.ready hr
  | sendRequest i =>
    refine effect_withPeer (fun peer peer' _ heq => ?_) h
    unfold sendRequest at heq
    split at heq
    · next chunk chunks hreq =>
      cases heq
      refine .works _ trivial fun hv => ?_
      rw [hreq] at hv
      exact ⟨fun c hc => hv.isBlock c (mem_cons_of_mem _ hc), by simp⟩
    · cases heq

/-! ## What a run keeps -/

/-- Every chunk on its way is a block. -/
structure Valid (s : Transfers L) : Prop where
  uploads : ∀ upload ∈ s.uploads, IsBlock upload.2
  scheduler : ∀ chunk ∈ s.scheduler.chunk?, IsBlock chunk
  peers : ∀ peer ∈ s.peers, peer.requester.Valid

lemma valid_new (torrent session : LimitsConfig) (disableUpload : Bool) :
    (new torrent session disableUpload : Transfers L).Valid :=
  ⟨fun _ h => (not_mem_nil h).elim, fun _ h => (not_mem_none _ h).elim,
    fun _ h => (not_mem_nil h).elim⟩

/-- What goes to a writer changes nothing else of the peer. -/
lemma exists_of_mem_sendChunk {chunk x} (hx : x ∈ (s.sendChunk i chunk).peers) :
    ∃ peer ∈ s.peers, peer.requester = x.requester ∧ peer.ended = x.ended := by
  have hmap : (s.sendChunk i chunk).peers.map (fun peer => (peer.requester, peer.ended)) =
      s.peers.map fun peer => (peer.requester, peer.ended) :=
    map_modify_of_forall _ _ fun _ => rfl
  have hmem : (x.requester, x.ended) ∈ s.peers.map fun peer => (peer.requester, peer.ended) :=
    hmap ▸ mem_map.mpr ⟨x, hx, rfl⟩
  obtain ⟨peer, hpeer, heq⟩ := mem_map.mp hmem
  exact ⟨peer, hpeer, (Prod.mk.inj heq).1, (Prod.mk.inj heq).2⟩

/-- **A step keeps the chunks blocks.** -/
theorem valid_of_effect (hv : s.Valid) (h : Effect s a s') : s'.Valid := by
  have hscheduler : ∀ scheduler, (∀ chunk ∈ scheduler.chunk?, IsBlock chunk) →
      (s.setScheduler scheduler).Valid := fun scheduler h => ⟨hv.uploads, h, hv.peers⟩
  cases h with
  | setUploadBps scope bps | setDownloadBps scope bps =>
    cases scope with
    | torrent | session => exact ⟨hv.uploads, hv.scheduler, hv.peers⟩
  | dropSession => exact ⟨hv.uploads, hv.scheduler, hv.peers⟩
  | addPeer =>
    refine ⟨hv.uploads, hv.scheduler, forall_mem_concat hv.peers ?_⟩
    exact ⟨fun chunk hchunk => (not_mem_nil hchunk).elim, by simp⟩
  | @peer _ i peer peer' hpeer _ heffect =>
    have hold := hv.peers peer (mem_of_getElem? hpeer)
    have hnew : peer'.requester.Valid := by
      cases heffect with
      | works tx hfits hvalid => exact hvalid hold
      | ends hfits hreason | refused hfits => exact hold
    exact ⟨hv.uploads, hv.scheduler, forall_mem_set hv.peers hnew⟩
  | enqueue hchunk =>
    exact ⟨forall_mem_concat hv.uploads hchunk, hv.scheduler, hv.peers⟩
  | receive huploads =>
    have hblocks := hv.uploads
    rw [huploads] at hblocks
    refine ⟨fun upload hupload => hblocks upload (mem_cons_of_mem _ hupload),
      fun c hc => ?_, hv.peers⟩
    cases hc
    exact hblocks _ mem_cons_self
  | acquire hs _ | next hs => exact hscheduler _ fun c hc => hv.scheduler c (by rw [hs]; exact hc)
  | refuse | closed => exact hscheduler _ fun _ hc => (not_mem_none _ hc).elim
  | send i chunk =>
    refine ⟨hv.uploads, fun _ hc => (not_mem_none _ hc).elim, fun x hx => ?_⟩
    obtain ⟨peer, hpeer, hreq, -⟩ := exists_of_mem_sendChunk hx
    exact hreq ▸ hv.peers peer hpeer

/-! ## Limits only delay -/

/-- **No task was ended by a limit**: the scheduler takes requests, and no peer was disconnected
because the limiter or the scheduler failed. -/
structure Sound (s : Transfers L) : Prop where
  scheduler : s.scheduler.alive = true
  peers : ∀ peer ∈ s.peers, peer.endedByLimit = false

instance (s : Transfers L) : Decidable s.Sound :=
  decidable_of_iff (s.scheduler.alive = true ∧ ∀ peer ∈ s.peers, peer.endedByLimit = false)
    ⟨fun h => ⟨h.1, h.2⟩, fun h => ⟨h.scheduler, h.peers⟩⟩

lemma endedByLimit_iff_of_peerEffect
    (halive : s.scheduler.alive = true) (hended : peer.ended = none)
    (h : PeerEffect s i peer a peer') : peer'.endedByLimit = false ↔ s.Fits a := by
  cases h with
  | works tx hfits hvalid =>
    refine iff_of_true ?_ hfits
    rw [hended]
    rfl
  | ends hfits hreason => exact iff_of_true (hreason halive) hfits
  | refused hfits => exact iff_of_false Bool.true_eq_false_eq_False hfits

/-- **Whether a step ends a task is decided by the limit it asks.** -/
theorem sound_iff_of_effect (hv : s.Valid) (hs : s.Sound)
    (h : Effect s a s') : s'.Sound ↔ s.Fits a := by
  cases h with
  | setUploadBps scope bps | setDownloadBps scope bps =>
    refine iff_true_intro ?_
    cases scope with
    | torrent | session => exact ⟨hs.scheduler, hs.peers⟩
  | dropSession | enqueue => exact iff_true_intro ⟨hs.scheduler, hs.peers⟩
  | addPeer =>
    exact iff_true_intro ⟨hs.scheduler, forall_mem_concat hs.peers rfl⟩
  | @peer _ i peer peer' hpeer hended heffect =>
    rw [← endedByLimit_iff_of_peerEffect hs.scheduler hended heffect]
    constructor
    · intro hs'
      exact hs'.peers peer' (mem_of_getElem? (getElem?_set_of_some hpeer peer'))
    · exact fun hpeer' => ⟨hs.scheduler, forall_mem_set hs.peers hpeer'⟩
  | receive | next | closed => exact iff_true_intro ⟨rfl, hs.peers⟩
  | acquire _ hfits => exact iff_of_true ⟨rfl, hs.peers⟩ hfits
  | refuse hscheduler hfits =>
    refine iff_of_false (fun hs' => absurd hs'.scheduler Bool.false_ne_true) (hfits ?_)
    exact hv.scheduler _ (by rw [hscheduler]; rfl)
  | send i chunk =>
    refine iff_true_intro ⟨rfl, fun x hx => ?_⟩
    obtain ⟨peer, hpeer, -, hended⟩ := exists_of_mem_sendChunk hx
    rw [Peer.endedByLimit, ← hended]
    exact hs.peers peer hpeer

lemma sound_new (torrent session : LimitsConfig) (disableUpload : Bool) :
    (new torrent session disableUpload : Transfers L).Sound :=
  ⟨rfl, fun _ h => (not_mem_nil h).elim⟩

/-- **Limits only delay exactly as long as they are not asked for more than a second's worth**: in a
run, no limit ends the scheduler or disconnects a peer, whatever the limits are at first and are set
to, if and only if each limit is none or at least as large as the chunk when a task asks it. -/
theorem sound_iff_fits (torrent session : LimitsConfig) (disableUpload : Bool)
    (as : List (TransferStep L)) :
    Always step Sound (new torrent session disableUpload : Transfers L) as ↔
      Along step Fits (new torrent session disableUpload : Transfers L) as :=
  always_iff_along_of_invariant (fun _ _ _ hv h => valid_of_effect hv (effect_of_step h))
    (fun _ _ _ hv hs h => sound_iff_of_effect hv hs (effect_of_step h))
    (valid_new torrent session disableUpload) (sound_new torrent session disableUpload) as

/-- **Two limits that disconnect**: with one byte a second for the torrent's uploads, the first
request for a block ends the scheduler; with 16383 bytes a second for the session's downloads, the
first block that we want from a peer disconnects it. -/
theorem not_sound_limited : ¬ Always step Sound
      (new { uploadBps := NonZeroU32.new 1 } {} false : Transfers Lengths.onePiece)
      [.addPeer, .downloadRequest 0 ⟨0, 0, 16384⟩ true, .schedulerReceive, .schedulerAcquire] ∧
    ¬ Always step Sound
      (new {} { downloadBps := NonZeroU32.new 16383 } false : Transfers Lengths.onePiece)
      [.addPeer, .acquirePiece 0 0, .nextChunk 0 true, .requesterAcquire 0, .requesterReady 0,
        .requesterAcquire 0] :=
  ⟨not_always_of_run (by decide +kernel),
    not_always_of_run (by decide +kernel)⟩

/-! ### Limits of at least a block -/

/-- No limit, or at least a block a second. -/
def Ample (bps : Option NonZeroU32) : Prop := ∀ q ∈ bps, chunkSize ≤ q.1

/-- A limit that is set is ample. -/
def SetsAmple : TransferStep L → Prop
  | .setUploadBps _ bps | .setDownloadBps _ bps => Ample bps
  | _ => True

/-- All four limits let a block pass. -/
def AmpleLimits (s : Transfers L) : Prop :=
  ∀ scope, (s.limits scope).up.Fits chunkSize ∧ (s.limits scope).down.Fits chunkSize

lemma fits_new {bps} (h : Ample bps) : (Limit.new bps).Fits chunkSize := by
  intro rl hrl
  obtain ⟨q, hq, rfl⟩ := map_eq_some_iff.mp hrl
  exact h q hq

/-- Ample limits stay so as long as only ample ones are set. -/
lemma ampleLimits_of_effect (hs : s.AmpleLimits) (ha : SetsAmple a)
    (h : Effect s a s') : s'.AmpleLimits := by
  cases h with
  | setUploadBps scope bps =>
    intro scope'
    cases scope <;> cases scope'
    · exact ⟨fits_new ha, (hs .torrent).2⟩
    · exact hs .session
    · exact hs .torrent
    · exact ⟨fits_new ha, (hs .session).2⟩
  | setDownloadBps scope bps =>
    intro scope'
    cases scope <;> cases scope'
    · exact ⟨(hs .torrent).1, fits_new ha⟩
    · exact hs .session
    · exact hs .torrent
    · exact ⟨(hs .session).1, fits_new ha⟩
  | dropSession | addPeer | peer | enqueue | receive | acquire | refuse | next | send | closed =>
    intro scope
    cases scope with
    | torrent => exact hs .torrent
    | session => exact hs .session

/-- A block fits into an ample limit. -/
lemma AmpleLimits.fits (hs : s.AmpleLimits) (hv : s.Valid) (a : TransferStep L) : s.Fits a := by
  unfold Fits
  split
  · split
    · next scope i chunk hscheduler =>
      have hblock : IsBlock chunk := hv.scheduler chunk (by rw [hscheduler]; rfl)
      exact fun rl hrl => hblock.2.trans ((hs scope).1 rl hrl)
    · trivial
  · split
    · next i _ scope chunk size chunks hreq =>
      obtain ⟨peer, hpeer, hreq⟩ := map_eq_some_iff.mp hreq
      have hvalid := hv.peers peer (mem_of_getElem? hpeer)
      rw [hreq] at hvalid
      have hsize := hvalid.size_eq scope chunk size chunks (Or.inl rfl)
      have hblock := hvalid.isBlock chunk mem_cons_self
      exact fun rl hrl => hsize ▸ hblock.2.trans ((hs scope).2 rl hrl)
    · trivial
  · trivial

/-- **Limits of at least a block a second only delay**, whenever they are changed. -/
theorem always_sound_of_chunkSize_le {torrent session} (disableUpload : Bool)
    (htorrent : Ample torrent.uploadBps ∧ Ample torrent.downloadBps)
    (hsession : Ample session.uploadBps ∧ Ample session.downloadBps) {as}
    (has : Along step (fun _ a => SetsAmple a) (new torrent session disableUpload) as) :
    Always step Sound (new torrent session disableUpload : Transfers L) as := by
  refine Always.mono (I := fun s => s.Valid ∧ s.AmpleLimits ∧ s.Sound) (fun s h => h.2.2)
    (always_of_along (fun s a s' h ha hstep => ?_) ⟨valid_new torrent session disableUpload,
      fun scope => ?_, sound_new torrent session disableUpload⟩ has)
  · obtain ⟨hv, hample, hsound⟩ := h
    have heffect := effect_of_step hstep
    exact ⟨valid_of_effect hv heffect, ampleLimits_of_effect hample ha heffect,
      (sound_iff_of_effect hv hsound heffect).mpr (hample.fits hv a)⟩
  · cases scope with
    | torrent => exact ⟨fits_new htorrent.1, fits_new htorrent.2⟩
    | session => exact ⟨fits_new hsession.1, fits_new hsession.2⟩

/-- A limit of one block a second, and a block that waits for it. -/
theorem always_sound_one_block : Always step Sound (new {} {} false : Transfers .onePiece)
    [.addPeer, .setUploadBps .session (some ⟨chunkSize, by decide⟩),
      .downloadRequest 0 ⟨0, 0, 16384⟩ true, .schedulerReceive, .schedulerAcquire] := by
  have hnone : Ample none := by rintro _ ⟨⟩
  refine always_sound_of_chunkSize_le false ⟨hnone, hnone⟩ ⟨hnone, hnone⟩ fun _ _ => ⟨trivial, ?_⟩
  refine fun _ _ => ⟨by rintro _ ⟨⟩; exact le_rfl, fun _ _ => ⟨trivial, ?_⟩⟩
  exact fun _ _ => ⟨trivial, fun _ _ => ⟨trivial, trivial⟩⟩

end Transfers

end RateLimits

end Librtbit
