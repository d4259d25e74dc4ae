import Librtbit.Machinery.Pool
import Librtbit.Session.Discovery

/-!
# Session/Privacy — private torrents keep to their trackers

Once the info dictionary of a private torrent is known, no address of the DHT or the local discovery
may get to the torrent, neither of them may announce it, and no `ut_pex`, `ut_metadata` or
`ut_holepunch` message may be sent.  Messages are not: whatever would send one looks at the info
dictionary first.  Streams that are opened for a torrent that is there have no such sources, and a
torrent always has its metadata to tell.

What is opened for a magnet link has them, and is handed over to the torrent as it is.

* `Discovery.compliant_iff_fresh` — a private torrent does what it must not exactly when it uses a
  source that was opened for a magnet link.
* `Discovery.compliant_of_no_magnet` — so a torrent that is never added from a magnet link is safe.
-/

namespace Librtbit

open Machinery ManagedTorrent List Option

variable {L : Lengths}

namespace Discovery

/-! ## What a private torrent must not do -/

/-- **A private torrent keeps to its trackers**: nothing forbidden has gone out since its info
dictionary is known. -/
def Compliant (info : Info) (s : Discovery L) : Prop :=
  info.isPrivate = true → ∀ e ∈ s.log, e.forbidden = false
  deriving Decidable

/-- The step uses the DHT or the local discovery through what was opened for a magnet link. -/
def UsesMagnet (s : Discovery L) : Step L → Prop
  | .feed h k pull =>
    ∃ stream ∈ s.drainedAt h k, stream.magnet = true ∧
      ∃ pulled ∈ stream.pull s.announces pull, pulled.1.1.isPublic = true
  | .dhtAnnounce place => ∃ stream ∈ s.streamAt place, stream.magnet = true
  | .lsdAnnounce r => ∃ announce ∈ s.announces[r]?, announce.magnet = true
  | .lsdReceive _ reply =>
    reply = true ∧ s.replies = true ∧
      ∃ announce ∈ s.receiver.bind (s.announces[·]?), announce.magnet = true
  | _ => False

/-- **What was opened for a magnet link is no longer used** when the torrent is known to be
private. -/
def Fresh (info : Info) (s : Discovery L) (a : Step L) : Prop :=
  info.isPrivate = true → s.known = true → ¬ s.UsesMagnet a

/-! ## Streams without public sources -/

variable {m : Prop} {config : Config} {info : Info}

/-- A stream has no public source, but for a magnet link, of which there are some only if `m`. -/
structure PeerStream.Quiet (m : Prop) (stream : PeerStream) : Prop where
  magnet : stream.magnet = true → m
  dht : stream.magnet = false → stream.dht = none
  lsd : stream.magnet = false → stream.lsd = none
  seenPeers : stream.magnet = false → stream.seenPeers = []

namespace PeerStream

variable {stream stream' : PeerStream} {announces announces' : List Announce} {pull : Pull}
  {found : Source × PeerHandle}

lemma quiet_of_magnet (h : stream.magnet) (hm : m) : stream.Quiet m where
  magnet _ := hm
  dht h' := by cases h.symm.trans h'
  lsd h' := by cases h.symm.trans h'
  seenPeers h' := by cases h.symm.trans h'

lemma eq_of_mem_merged (h : stream' ∈ stream.merged) : stream' = stream := by
  rw [merged] at h
  split at h
  · cases h
  · exact (Option.some.inj h).symm

/-- **What is taken out of a stream**, from where, and what is left. -/
inductive Pulled (stream : PeerStream) (announces : List Announce) :
    Source × PeerHandle → PeerStream → List Announce → Prop where
  | dht (addr : PeerHandle) (h : stream.dht.isSome = true) :
    Pulled stream announces (.dht, addr) stream announces
  | lsd {r announce} (addr : PeerHandle) (rest : List PeerHandle)
    (h : stream.lsd = some r) (hr : announces[r]? = some announce) :
    Pulled stream announces (.lsd, addr) stream (announces.set r { announce with rx := rest })
  | tracker (addr : PeerHandle) : Pulled stream announces (.tracker, addr) stream announces
  | initialPeer (addr : PeerHandle) (rest : List PeerHandle) :
    Pulled stream announces (.user, addr) { stream with initialPeers := rest } announces
  | seenPeer {seen rest}
    (h : stream.seenPeers = seen :: rest) :
    Pulled stream announces seen { stream with seenPeers := rest } announces

lemma pulled_of_pull (h : stream.pull announces pull = some (found, stream', announces')) :
    Pulled stream announces found stream' announces' := by
  cases pull with
  | dht addr =>
    rw [PeerStream.pull] at h
    split at h
    · next hdht =>
      cases h
      exact .dht addr hdht
    · cases h
  | lsd =>
    obtain ⟨r, hlsd, h⟩ := bind_eq_some_iff.mp h
    obtain ⟨announce, hr, h⟩ := bind_eq_some_iff.mp h
    split at h
    · next addr rest _ =>
      cases h
      exact .lsd addr rest hlsd hr
    · cases h
  | tracker addr =>
    rw [PeerStream.pull] at h
    split at h <;> cases h
    exact .tracker addr
  | initialPeer =>
    rw [PeerStream.pull] at h
    split at h
    · next addr rest _ =>
      cases h
      exact .initialPeer addr rest
    · cases h
  | seenPeer =>
    rw [PeerStream.pull] at h
    split at h
    · next hseen =>
      cases h
      exact .seenPeer hseen
    · cases h

lemma Quiet.pulled (h : stream.Quiet m)
    (hpulled : Pulled stream announces found stream' announces') : stream'.Quiet m := by
  cases hpulled with
  | dht | lsd | tracker => exact h
  | initialPeer => exact ⟨h.magnet, h.dht, h.lsd, h.seenPeers⟩
  | seenPeer hseen =>
    refine ⟨h.magnet, h.dht, h.lsd, fun hmagnet => ?_⟩
    rw [h.seenPeers hmagnet] at hseen
    cases hseen

lemma magnet_pulled (hpulled : Pulled stream announces found stream' announces') :
    stream'.magnet = stream.magnet := by
  cases hpulled with
  | dht | lsd | tracker | initialPeer | seenPeer => rfl

/-- Only what was opened for a magnet link yields an address of a public source. -/
lemma Quiet.magnet_of_pulled (h : stream.Quiet m)
    (hpulled : Pulled stream announces found stream' announces')
    (hpublic : found.1.isPublic) : stream.magnet := by
  by_contra hmagnet
  rw [Bool.not_eq_true] at hmagnet
  cases hpulled with
  | dht addr hdht =>
    rw [h.dht hmagnet] at hdht
    cases hdht
  | lsd addr rest hlsd =>
    rw [h.lsd hmagnet] at hlsd
    cases hlsd
  | tracker | initialPeer => cases hpublic
  | seenPeer hseen =>
    rw [h.seenPeers hmagnet] at hseen
    cases hseen

lemma announces_of_pulled (hpulled : Pulled stream announces found stream' announces')
    (h : ∀ announce ∈ announces, announce.magnet ∧ m) :
    ∀ announce ∈ announces', announce.magnet ∧ m := by
  cases hpulled with
  | lsd addr rest hlsd hr =>
    have hannounce := h _ (mem_of_getElem? hr)
    exact forall_mem_set h ⟨hannounce.1, hannounce.2⟩
  | dht | tracker | initialPeer | seenPeer => exact h

end PeerStream

/-! ## The invariant -/

/-- A torrent that knows that it is private, and does nothing about peers in public. -/
structure Handle.Quiet (m : Prop) (handle : Handle L) : Prop where
  metadata : handle.torrent.metadata = true
  feeders : ∀ feeder ∈ handle.feeders, ∀ stream ∈ feeder.stream?, stream.Quiet m
  sendingPex : handle.sendingPex = []

/-- The stream of a call is quiet; a magnet link is resolved with one that was opened for it. -/
def Call.Quiet (m : Prop) : Call → Prop
  | .resolving _ stream _ => stream.magnet = true ∧ m
  | .adding _ stream? | .storing _ _ stream? | .starting _ _ stream? =>
    ∀ stream ∈ stream?, stream.Quiet m
  | .addingSource _ stream => stream.Quiet m
  | .over => True

lemma Call.Quiet.stream {call : Call} (h : call.Quiet m) :
    ∀ stream ∈ call.stream?, stream.Quiet m := by
  cases call with
  | resolving opts stream seen =>
    exact fun _ h' => Option.some.inj h' ▸ PeerStream.quiet_of_magnet h.1 h.2
  | adding | storing | starting => exact h
  | addingSource i stream => exact fun _ h' => Option.some.inj h' ▸ h
  | «over» => exact fun _ h' => by cases h'

/-- **All that is public was opened for a magnet link**, and there is some only if `m`. -/
structure Inv (m : Prop) (s : Discovery L) : Prop where
  calls : ∀ call ∈ s.calls, call.Quiet m
  handles : ∀ handle ∈ s.handles, handle.Quiet m
  announces : ∀ announce ∈ s.announces, announce.magnet = true ∧ m

namespace Feeder

variable {feeder : Feeder} {stream : PeerStream}

lemma stream?_of_drained? (h : feeder.drained? = some stream) : feeder.stream? = some stream := by
  cases feeder with
  | adder | added => exact h
  | initializing | «over» => cases h

end Feeder

namespace Handle

variable {handle : Handle L} {feeder : Feeder} {stream? : Option PeerStream}

section

variable (h : handle.Quiet m) (hfeeder : ∀ stream ∈ feeder.stream?, stream.Quiet m)
include h hfeeder

lemma Quiet.setFeeder (k : ℕ) :
    (handle.setFeeder k feeder).Quiet m :=
  ⟨h.metadata, forall_mem_set h.feeders hfeeder, h.sendingPex⟩

lemma Quiet.addFeeder :
    ({ handle with feeders := handle.feeders ++ [feeder] } : Handle L).Quiet m :=
  ⟨h.metadata, forall_mem_concat h.feeders hfeeder, h.sendingPex⟩

omit hfeeder

lemma Quiet.setTorrent {torrent}
    (htorrent : torrent.metadata = handle.torrent.metadata) : (handle.setTorrent torrent).Quiet m :=
  ⟨htorrent.trans h.metadata, h.feeders, h.sendingPex⟩

lemma Quiet.getElem? {k : ℕ} (hk : handle.feeders[k]? = some feeder) :
    ∀ stream ∈ feeder.stream?, stream.Quiet m :=
  h.feeders feeder (mem_of_getElem? hk)

lemma Quiet.streamOf (task : ℕ) : ∀ stream ∈ handle.streamOf task, stream.Quiet m := by
  intro stream hstream
  obtain ⟨feeder, hfind, hstream⟩ := bind_eq_some_iff.mp hstream
  exact h.feeders feeder (mem_of_find?_eq_some hfind) stream hstream

lemma Quiet.release (task : ℕ) : (handle.release task).Quiet m := by
  refine ⟨h.metadata, fun feeder hfeeder stream hstream => ?_, h.sendingPex⟩
  obtain ⟨feeder', hmem, rfl⟩ := mem_map.mp hfeeder
  split at hstream
  · cases hstream
  · exact h.feeders feeder' hmem stream hstream

end

variable {torrent : ManagedTorrent L}

/-- The task that is started with a stream has that stream. -/
lemma stream?_of_startedWith {stream}
    (h : handle.startedWith torrent stream = some feeder) : feeder.stream? = some stream := by
  rw [startedWith] at h
  split at h
  · cases h
    rfl
  · cases h
    rfl
  · cases h

lemma Quiet.started (h : handle.Quiet m) (htorrent : torrent.metadata = handle.torrent.metadata)
    (hstream : ∀ stream ∈ stream?, stream.Quiet m) :
    (handle.started torrent stream?).1.Quiet m := by
  rw [Handle.started]
  split
  · next feeder hfeeder =>
    obtain ⟨stream, hsome, hfeeder⟩ := bind_eq_some_iff.mp hfeeder
    refine (h.setTorrent htorrent).addFeeder ?_
    rw [stream?_of_startedWith hfeeder]
    exact fun stream' h' => Option.some.inj h' ▸ hstream stream hsome
  · exact h.setTorrent htorrent

lemma Quiet.isPrivate (h : handle.Quiet m) (hprivate : info.isPrivate) :
    handle.isPrivate info := by
  rw [Handle.isPrivate, h.metadata, hprivate, Bool.and_self]

lemma quiet_new (opts : AddTorrentOptions) : (new opts : Handle L).Quiet m where
  metadata := rfl
  feeders _ h := (not_mem_nil h).elim
  sendingPex := rfl

end Handle

namespace Inv

variable {s : Discovery L} {call : Call} {handle : Handle L} {stream? : Option PeerStream}

section

variable (h : s.Inv m)
include h

lemma setCall (hcall : call.Quiet m) (c : ℕ) : (s.setCall c call).Inv m :=
  ⟨forall_mem_set h.calls hcall, h.handles, h.announces⟩

lemma addCall (hcall : call.Quiet m) : (s.addCall call).Inv m :=
  ⟨forall_mem_concat h.calls hcall, h.handles, h.announces⟩

lemma endCall (c : ℕ) : (s.setCall c .over).Inv m := by
  refine h.setCall ?_ c
  trivial

lemma setHandle (hhandle : handle.Quiet m) (i : ℕ) : (s.setHandle i handle).Inv m :=
  ⟨h.calls, forall_mem_set h.handles hhandle, h.announces⟩

lemma addHandle (hhandle : handle.Quiet m) : (s.addHandle handle).Inv m :=
  ⟨h.calls, forall_mem_concat h.handles hhandle, h.announces⟩

lemma setAnnounces {announces} (hannounces : ∀ announce ∈ announces, announce.magnet ∧ m) :
    (s.setAnnounces announces).Inv m :=
  ⟨h.calls, h.handles, hannounces⟩

lemma setManaged (managed : Option ℕ) : (s.setManaged managed).Inv m :=
  ⟨h.calls, h.handles, h.announces⟩

lemma learn : s.learn.Inv m := ⟨h.calls, h.handles, h.announces⟩

lemma drop (stream? : Option PeerStream) : (s.drop stream?).Inv m :=
  ⟨h.calls, h.handles, h.announces⟩

lemma getElem?_calls {c : ℕ} (hc : s.calls[c]? = some call) : call.Quiet m :=
  h.calls call (mem_of_getElem? hc)

lemma getElem?_handles {i : ℕ} (hi : s.handles[i]? = some handle) : handle.Quiet m :=
  h.handles handle (mem_of_getElem? hi)

/-- Only a magnet link makes the local discovery announce. -/
lemma register (hstream : ∀ stream ∈ stream?, stream.Quiet m) (announce : Bool) :
    (s.register stream? announce).Inv m := by
  rw [Discovery.register.eq_def]
  split
  · next stream =>
    split
    · next hlsd =>
      have hquiet := hstream stream rfl
      have hmagnet : stream.magnet := by
        by_contra hmagnet
        rw [hquiet.lsd (Bool.not_eq_true _ ▸ hmagnet)] at hlsd
        cases hlsd
      exact ⟨h.calls, h.handles, forall_mem_concat h.announces ⟨hmagnet, hquiet.magnet hmagnet⟩⟩
    · exact h
  · exact h

end

end Inv

section Streams

variable (config) (s : Discovery L)

/-- What is opened for a private torrent is not public. -/
lemma quiet_makePeerRx {isPrivate} (hprivate : isPrivate = true) (trackers : List String)
    (announce : Bool) (initialPeers : List PeerHandle) :
    ∀ stream ∈ s.makePeerRx config trackers announce initialPeers isPrivate false,
      stream.Quiet m := by
  intro stream hstream
  rw [PeerStream.eq_of_mem_merged hstream, hprivate]
  exact ⟨nofun, fun _ => rfl, fun _ => rfl, fun _ => rfl⟩

variable {s} {stream? : Option PeerStream}

lemma Inv.giveStream (h : s.Inv m) {handle} (hhandle : handle.Quiet m)
    {torrent} (htorrent : torrent.metadata = handle.torrent.metadata)
    (hstream : ∀ stream ∈ stream?, stream.Quiet m) (i : ℕ) :
    (s.giveStream i handle torrent stream?).Inv m :=
  (h.drop _).setHandle (hhandle.started htorrent hstream) i

lemma Inv.callStart (h : s.Inv m)
    (hstream : ∀ stream ∈ stream?, stream.Quiet m) (i : ℕ) (startPaused : Bool) :
    (s.callStart i startPaused stream?).Inv m :=
  (h.register hstream true).addCall hstream

end Streams

/-! ## Steps -/

section Steps

variable {s s' : Discovery L}

/-- The step adds a magnet link. -/
def Step.addsMagnet : Step L → Bool
  | .addTorrent add _ => add.isMagnet
  | _ => false

section

variable (h : s.Inv m)
include h

lemma Inv.of_addTorrent (hprivate : info.isPrivate) {add} (hm : add.isMagnet → m) {opts}
    (hs : s.addTorrent config info add opts = some s') : s'.Inv m := by
  unfold addTorrent at hs
  split at hs
  · next hmagnet =>
    obtain ⟨stream, hstream, rfl⟩ := map_eq_some_iff.mp hs
    have hquiet : ∀ stream ∈ s.makePeerRx config opts.trackers (!opts.paused && !opts.listOnly)
        opts.initialPeers false true, stream.Quiet m := fun stream hstream => by
      rw [PeerStream.eq_of_mem_merged hstream]
      exact PeerStream.quiet_of_magnet rfl (hm hmagnet)
    refine (h.register hquiet _).addCall ⟨?_, hm hmagnet⟩
    rw [PeerStream.eq_of_mem_merged hstream]
    rfl
  · cases hs
    have hquiet : ∀ stream ∈ (if (!opts.paused && !opts.listOnly) = true then
        s.makePeerRx config opts.trackers (!opts.paused && !opts.listOnly) opts.initialPeers
          info.isPrivate false
        else none), stream.Quiet m := by
      split
      · exact quiet_makePeerRx config s hprivate _ _ _
      · exact fun _ h' => by cases h'
    exact (h.register hquiet _).learn.addCall hquiet

variable {c : ℕ}

lemma Inv.of_nextAddr {pull} (hs : s.nextAddr c pull = some s') : s'.Inv m := by
  unfold nextAddr at hs
  split at hs
  · next opts stream seen hc =>
    obtain ⟨⟨found, stream', announces'⟩, hpull, rfl⟩ := map_eq_some_iff.mp hs
    have hpulled := PeerStream.pulled_of_pull hpull
    have hcall := h.getElem?_calls hc
    refine (h.setAnnounces (PeerStream.announces_of_pulled hpulled h.announces)).setCall ?_ c
    exact ⟨(PeerStream.magnet_pulled hpulled).trans hcall.1, hcall.2⟩
  · cases hs

lemma Inv.of_resolve (hs : s.resolve c = some s') : s'.Inv m := by
  unfold resolve at hs
  split at hs
  · next opts stream seen hc =>
    cases hs
    have hcall := h.getElem?_calls hc
    refine h.learn.setCall ?_ c
    exact fun _ h' => Option.some.inj h' ▸ PeerStream.quiet_of_magnet hcall.1 hcall.2
  · cases hs

lemma Inv.of_fail (hs : s.fail c = some s') : s'.Inv m := by
  unfold fail at hs
  split at hs
  · cases hs
    exact (h.drop _).endCall c
  · cases hs
    exact (h.drop _).endCall c
  · cases hs

variable {created : StorageResult}

lemma Inv.of_insert {sameId} (hs : s.insert c sameId created = some s') : s'.Inv m := by
  unfold insert at hs
  split at hs
  · next opts stream? hc =>
    split at hs
    · cases hs
      exact (h.drop _).endCall c
    split at hs
    · cases hs
      exact (h.drop _).endCall c
    cases hs
    have hcall : ∀ stream ∈ stream?, stream.Quiet m := h.getElem?_calls hc
    refine ((h.addHandle (Handle.quiet_new opts)).setManaged _).setCall ?_ c
    exact hcall
  · cases hs

lemma Inv.of_stored {success} (hs : s.stored c success = some s') : s'.Inv m := by
  unfold stored at hs
  split at hs
  · next i startPaused stream? hc =>
    cases hs
    have hcall : ∀ stream ∈ stream?, stream.Quiet m := h.getElem?_calls hc
    split
    · refine h.setCall ?_ c
      exact hcall
    · exact ((h.drop _).setManaged none).endCall c
  · cases hs

lemma Inv.of_start (hs : s.start c created = some s') :
    s'.Inv m := by
  unfold start at hs
  split at hs
  · next i startPaused stream? hc =>
    obtain ⟨handle, hi, rfl⟩ := map_eq_some_iff.mp hs
    have htorrent :=
      (evolves_of_turn (turn_start (t := handle.torrent) [] true startPaused created).core).metadata
    exact (h.giveStream (h.getElem?_handles hi) htorrent (h.getElem?_calls hc) i).endCall c
  · cases hs

end

/-- A torrent that is there tells that it is private. -/
lemma quiet_makePeerRxManagedTorrent (hprivate : info.isPrivate) {handle}
    (hhandle : handle.Quiet m) (announce : Bool) :
    ∀ stream ∈ s.makePeerRxManagedTorrent config info handle announce, stream.Quiet m :=
  quiet_makePeerRx config s (hhandle.isPrivate hprivate) _ _ _

section

variable (h : s.Inv m)
include h

variable {i : ℕ}

lemma Inv.of_unpause (hprivate : info.isPrivate)
    (hs : s.unpause config info i = some s') : s'.Inv m := by
  obtain ⟨handle, hi, rfl⟩ := map_eq_some_iff.mp hs
  exact h.callStart (quiet_makePeerRxManagedTorrent hprivate (h.getElem?_handles hi) true) i false

lemma Inv.of_forceRecheck (hprivate : info.isPrivate)
    {taken created} (hs : s.forceRecheck config info i taken created = some s') :
    s'.Inv m := by
  obtain ⟨handle, hi, rfl⟩ := map_eq_some_iff.mp hs
  have hhandle := h.getElem?_handles hi
  have hset := h.setHandle (hhandle.setTorrent (evolves_of_turn
      (turn_prepareForceRecheck [] taken created).core).metadata) i
  dsimp only
  split
  · exact hset
  refine hset.callStart ?_ i _
  split
  · exact quiet_makePeerRxManagedTorrent hprivate hhandle true
  · exact fun _ h' => by cases h'

lemma Inv.of_checked {i task result}
    (hs : s.checked info i task result = some s') : s'.Inv m := by
  obtain ⟨handle, hi, hs⟩ := bind_eq_some_iff.mp hs
  obtain ⟨torrent, hstep, rfl⟩ := map_eq_some_iff.mp hs
  have hhandle := h.getElem?_handles hi
  have htorrent := (evolves_step hstep).metadata
  exact h.giveStream (hhandle.release task) htorrent (hhandle.streamOf task) i

lemma Inv.of_life {a} (hs : s.life info i a = some s') : s'.Inv m := by
  obtain ⟨handle, hi, hs⟩ := bind_eq_some_iff.mp hs
  have hhandle := h.getElem?_handles hi
  split at hs
  · cases hs
  · cases hs
  · cases hs
  · obtain ⟨torrent, hstep, rfl⟩ := map_eq_some_iff.mp hs
    exact (h.drop _).setHandle
      ((hhandle.release _).setTorrent (evolves_life hstep).metadata) i
  · obtain ⟨torrent, hstep, rfl⟩ := map_eq_some_iff.mp hs
    exact h.setHandle (hhandle.setTorrent (evolves_life hstep).metadata) i

lemma Inv.of_feed {i k pull} (hs : s.feed i k pull = some s') : s'.Inv m := by
  obtain ⟨handle, hi, hs⟩ := bind_eq_some_iff.mp hs
  obtain ⟨feeder, hk, hs⟩ := bind_eq_some_iff.mp hs
  obtain ⟨stream, hstream, hs⟩ := bind_eq_some_iff.mp hs
  obtain ⟨⟨found, stream', announces'⟩, hpull, rfl⟩ := map_eq_some_iff.mp hs
  have hpulled := PeerStream.pulled_of_pull hpull
  have hhandle := h.getElem?_handles hi
  have hquiet := hhandle.getElem? hk stream (Feeder.stream?_of_drained? hstream)
  refine (h.setAnnounces (PeerStream.announces_of_pulled hpulled h.announces)).setHandle
    (hhandle.setFeeder ?_ k) i
  cases feeder with
  | initializing | adder | added => exact fun _ h' => Option.some.inj h' ▸ (hquiet.pulled hpulled)
  | «over» => exact fun _ h' => by cases h'

/-- A task drops its stream, and waits or is over. -/
lemma Inv.dropFeeder {handle : Handle L} (hhandle : handle.Quiet m) {feeder}
    (hnone : feeder.stream? = none) (stream? : Option PeerStream) (i k : ℕ) :
    ((s.drop stream?).setHandle i (handle.setFeeder k feeder)).Inv m := by
  refine (h.drop stream?).setHandle (hhandle.setFeeder ?_ k) i
  rw [hnone]
  exact fun _ h' => by cases h'

lemma Inv.of_rediscover (hprivate : info.isPrivate) {i k}
    (hs : s.rediscover config info i k = some s') : s'.Inv m := by
  obtain ⟨handle, hi, hs⟩ := bind_eq_some_iff.mp hs
  have hhandle := h.getElem?_handles hi
  split at hs <;> cases hs
  have hquiet := quiet_makePeerRx (m := m) config s hprivate handle.trackers true []
  refine (h.register hquiet true).setHandle (hhandle.setFeeder ?_ k) i
  exact hquiet

lemma Inv.of_addTrackers (hprivate : info.isPrivate) {trackers}
    (hs : s.addTrackers config info i trackers = some s') : s'.Inv m := by
  obtain ⟨handle, hi, rfl⟩ := map_eq_some_iff.mp hs
  have hhandle := h.getElem?_handles hi
  have hset : (s.setHandle i { handle with
      trackers := handle.trackers ++ trackers.dedup.filter (· ∉ handle.trackers) }).Inv m := by
    refine h.setHandle ?_ i
    exact ⟨hhandle.metadata, hhandle.feeders, hhandle.sendingPex⟩
  dsimp only
  split
  · next live stream _ hstream =>
    have hquiet : stream.Quiet m :=
      quiet_makePeerRx config s (hhandle.isPrivate hprivate) _ true [] stream hstream
    split
    · exact hset
    · refine (hset.register (fun _ h' => Option.some.inj h' ▸ hquiet) true).addCall ?_
      exact hquiet
  · exact hset

lemma Inv.of_addPeerStream {c} (hs : s.addPeerStream c = some s') : s'.Inv m := by
  unfold addPeerStream at hs
  split at hs
  · next i stream hc =>
    obtain ⟨handle, hi, rfl⟩ := map_eq_some_iff.mp hs
    split
    · refine (h.setHandle ((h.getElem?_handles hi).addFeeder fun _ h' => ?_) i).endCall c
      exact Option.some.inj h' ▸ h.getElem?_calls hc
    · exact (h.drop _).endCall c
  · cases hs

lemma Inv.of_lsdReceive {addr} (hs : s.lsdReceive addr = some s') : s'.Inv m := by
  obtain ⟨r, hr, hs⟩ := bind_eq_some_iff.mp hs
  obtain ⟨announce, hannounce, rfl⟩ := map_eq_some_iff.mp hs
  have hmagnet := h.announces announce (mem_of_getElem? hannounce)
  exact h.setAnnounces (forall_mem_set h.announces ⟨hmagnet.1, hmagnet.2⟩)

variable {a : Step L}

/-- **One step keeps the invariant**, when magnet links are added only if `m`. -/
theorem Inv.of_next (hprivate : info.isPrivate) (hm : a.addsMagnet → m)
    (hs : s.next config info a = some s') : s'.Inv m := by
  cases a with
  | addTorrent add opts => exact h.of_addTorrent hprivate hm hs
  | nextAddr c pull => exact h.of_nextAddr hs
  | resolve c => exact h.of_resolve hs
  | fail c => exact h.of_fail hs
  | insert c sameId created => exact h.of_insert hs
  | stored c success => exact h.of_stored hs
  | unpause i => exact h.of_unpause hprivate hs
  | forceRecheck i taken created => exact h.of_forceRecheck hprivate hs
  | start c created => exact h.of_start hs
  | addTrackers i trackers => exact h.of_addTrackers hprivate hs
  | addPeerStream c => exact h.of_addPeerStream hs
  | remove =>
    cases hs
    exact h.setManaged none
  | life i a => exact h.of_life hs
  | checked i task result => exact h.of_checked hs
  | feed i k pull => exact h.of_feed hs
  | exhausted i k | feederEnds i k =>
    obtain ⟨handle, hi, hs⟩ := bind_eq_some_iff.mp hs
    have hhandle := h.getElem?_handles hi
    split at hs
    · cases hs
      exact h.dropFeeder hhandle rfl _ i k
    · cases hs
      exact h.dropFeeder hhandle rfl _ i k
    · cases hs
  | rediscover i k => exact h.of_rediscover hprivate hs
  | dhtAnnounce place | lsdAnnounce r =>
    rw [next] at hs
    split at hs <;> cases hs
    exact h
  | lsdReceive addr reply => exact h.of_lsdReceive hs
  | setAnnouncePort port =>
    cases hs
    exact ⟨h.calls, h.handles, h.announces⟩
  | extendedHandshake i peer utPex =>
    obtain ⟨handle, hi, rfl⟩ := map_eq_some_iff.mp hs
    rwa [hprivate, Bool.not_true, Bool.false_and, if_neg Bool.false_ne_true]
  | sendPex i j =>
    obtain ⟨handle, hi, hs⟩ := bind_eq_some_iff.mp hs
    obtain ⟨peer, hj, rfl⟩ := map_eq_some_iff.mp hs
    exact h
  | pexEnds i j =>
    obtain ⟨handle, hi, rfl⟩ := map_eq_some_iff.mp hs
    have hhandle := h.getElem?_handles hi
    have hnil : handle.sendingPex.eraseIdx j = [] := by
      rw [hhandle.sendingPex, eraseIdx_nil]
    refine h.setHandle ?_ i
    exact ⟨hhandle.metadata, hhandle.feeders, hnil⟩
  | message i peer msg =>
    obtain ⟨handle, hi, rfl⟩ := map_eq_some_iff.mp hs
    exact h

lemma Inv.of_step (hprivate : info.isPrivate) (hm : a.addsMagnet → m)
    (hs : s.step config info a = some s') : s'.Inv m := by
  obtain ⟨s₁, hnext, rfl⟩ := map_eq_some_iff.mp hs
  have h' := h.of_next hprivate hm hnext
  exact ⟨h'.calls, h'.handles, h'.announces⟩

/-! ## What goes out -/

lemma Inv.streamAt (place : Place) : ∀ stream ∈ s.streamAt place, stream.Quiet m := by
  intro stream hstream
  cases place with
  | call c =>
    obtain ⟨call, hc, hstream⟩ := bind_eq_some_iff.mp hstream
    exact (h.getElem?_calls hc).stream stream hstream
  | feeder i k =>
    obtain ⟨handle, hi, hstream⟩ := bind_eq_some_iff.mp hstream
    obtain ⟨feeder, hk, hstream⟩ := bind_eq_some_iff.mp hstream
    exact (h.getElem?_handles hi).getElem? hk stream hstream

lemma Inv.drainedAt (i k : ℕ) : ∀ stream ∈ s.drainedAt i k, stream.Quiet m := by
  intro stream hstream
  obtain ⟨handle, hi, hstream⟩ := bind_eq_some_iff.mp hstream
  obtain ⟨feeder, hk, hstream⟩ := bind_eq_some_iff.mp hstream
  exact (h.getElem?_handles hi).getElem? hk stream (Feeder.stream?_of_drained? hstream)

/-- An address of a public source is fed only from what was opened for a magnet link. -/
lemma Inv.feed_iff (i k : ℕ) (pull : Pull) :
    (∀ e ∈ s.events info (.feed i k pull), e.forbidden = false) ↔
      ¬ s.UsesMagnet (.feed i k pull) := by
  constructor
  · rintro hall ⟨stream, hstream, -, pulled, hpulled, hpublic⟩
    have hmem : .fed pulled.1.1 pulled.1.2 ∈ s.events info (.feed i k pull) :=
      mem_toList.mpr (map_eq_some_iff.mpr
        ⟨pulled, bind_eq_some_iff.mpr ⟨stream, hstream, hpulled⟩, rfl⟩)
    cases hpublic.symm.trans (hall _ hmem)
  · intro hnot e he
    obtain ⟨⟨found, stream', announces'⟩, hpull, rfl⟩ :=
      map_eq_some_iff.mp (mem_toList.mp he)
    obtain ⟨stream, hstream, hpull⟩ := bind_eq_some_iff.mp hpull
    rw [← Bool.not_eq_true]
    intro hpublic
    have hquiet := h.drainedAt i k stream hstream
    have hmagnet := hquiet.magnet_of_pulled (PeerStream.pulled_of_pull hpull) hpublic
    exact hnot ⟨stream, hstream, hmagnet, _, hpull, hpublic⟩

/-- A lookup announces only if it was opened for a magnet link. -/
lemma Inv.usesMagnet_dhtAnnounce {place}
    (hs : s.next config info (.dhtAnnounce place) = some s') :
    s.UsesMagnet (.dhtAnnounce place) := by
  rw [next] at hs
  split at hs
  · next hannounces =>
    obtain ⟨stream, hstream, hdht⟩ := bind_eq_some_iff.mp hannounces.1
    refine ⟨stream, hstream, ?_⟩
    by_contra hmagnet
    rw [(h.streamAt place stream hstream).dht (Bool.not_eq_true _ ▸ hmagnet)] at hdht
    cases hdht
  · cases hs

lemma Inv.usesMagnet_lsdAnnounce {r} (hs : s.next config info (.lsdAnnounce r) = some s') :
    s.UsesMagnet (.lsdAnnounce r) := by
  rw [next] at hs
  split at hs
  · next hannounces =>
    rw [Bool.and_eq_true, Option.any_eq_true] at hannounces
    obtain ⟨⟨announce, hr, -⟩, -⟩ := hannounces
    exact ⟨announce, hr, (h.announces announce (mem_of_getElem? hr)).1⟩
  · cases hs

lemma Inv.lsdReceive_iff (addr : PeerHandle) (reply : Bool) :
    (∀ e ∈ s.events info (.lsdReceive addr reply), e.forbidden = false) ↔
      ¬ s.UsesMagnet (.lsdReceive addr reply) := by
  rw [events]
  split
  · next hreply =>
    rw [Bool.and_eq_true] at hreply
    obtain ⟨hreply, hreplies⟩ := hreply
    refine iff_of_false (fun hall => ?_) (not_not.mpr ⟨hreply, hreplies, ?_⟩)
    · cases hall .lsdAnnounce (mem_singleton_self _)
    rw [replies, Bool.and_eq_true, Option.any_eq_true] at hreplies
    obtain ⟨⟨announce, hannounce, -⟩, -⟩ := hreplies
    refine ⟨announce, hannounce, ?_⟩
    obtain ⟨r, -, hr⟩ := bind_eq_some_iff.mp hannounce
    exact (h.announces announce (mem_of_getElem? hr)).1
  · next hreply =>
    refine iff_of_true (fun e he => by cases he) ?_
    rintro ⟨hr, hreplies, -⟩
    exact hreply (Bool.and_eq_true _ _ ▸ ⟨hr, hreplies⟩)

/-- **A step lets out something forbidden exactly when it uses what was opened for a magnet
link.** -/
theorem Inv.events_iff (hprivate : info.isPrivate) (hs : s.next config info a = some s') :
    (∀ e ∈ s.events info a, e.forbidden = false) ↔ ¬ s.UsesMagnet a := by
  cases a with
  | feed i k pull => exact h.feed_iff i k pull
  | dhtAnnounce place =>
    refine iff_of_false (fun hall => ?_) (not_not.mpr (h.usesMagnet_dhtAnnounce hs))
    cases hall .dhtAnnounce (mem_singleton_self _)
  | lsdAnnounce r =>
    refine iff_of_false (fun hall => ?_) (not_not.mpr (h.usesMagnet_lsdAnnounce hs))
    cases hall .lsdAnnounce (mem_singleton_self _)
  | lsdReceive addr reply => exact h.lsdReceive_iff addr reply
  | sendPex i j =>
    obtain ⟨handle, hi, hs⟩ := bind_eq_some_iff.mp hs
    obtain ⟨peer, hj, -⟩ := map_eq_some_iff.mp hs
    rw [(h.getElem?_handles hi).sendingPex] at hj
    cases hj
  | message i peer msg =>
    have hnil : s.events info (.message i peer msg) = [] := by rw [events, if_pos hprivate]
    rw [hnil]
    exact iff_of_true (fun e he => by cases he) id
  | _ => exact iff_of_true (fun e he => by cases he) id

end

/-- Without magnet links nothing is there that was opened for one. -/
lemma Inv.not_usesMagnet (h : s.Inv False) {a} : ¬ s.UsesMagnet a := by
  intro huses
  cases a with
  | feed i k pull =>
    obtain ⟨stream, hstream, hmagnet, -⟩ := huses
    exact (h.drainedAt i k stream hstream).magnet hmagnet
  | dhtAnnounce place =>
    obtain ⟨stream, hstream, hmagnet⟩ := huses
    exact (h.streamAt place stream hstream).magnet hmagnet
  | lsdAnnounce r =>
    obtain ⟨announce, hr, -⟩ := huses
    exact (h.announces announce (mem_of_getElem? hr)).2
  | lsdReceive addr reply =>
    obtain ⟨-, -, announce, hannounce, -⟩ := huses
    obtain ⟨r, -, hr⟩ := bind_eq_some_iff.mp hannounce
    exact (h.announces announce (mem_of_getElem? hr)).2
  | _ => exact huses

end Steps

/-! ## Runs -/

lemma compliant_step_iff {s s' : Discovery L} {a} (hs : s.step config info a = some s')
    (h : s.Compliant info) :
    s'.Compliant info ↔
      (info.isPrivate = true → s.known → ∀ e ∈ s.events info a, e.forbidden = false) := by
  obtain ⟨s₁, -, rfl⟩ := map_eq_some_iff.mp hs
  refine forall_congr' fun hprivate => ?_
  rw [forall_mem_append, and_iff_left (h hprivate)]
  split
  · next hknown => exact ⟨fun hall _ => hall, fun hall => hall hknown⟩
  · next hknown => exact iff_of_true (fun e he => by cases he) fun h' => absurd h' hknown

lemma inv_empty : ({} : Discovery L).Inv m where
  calls _ h := (not_mem_nil h).elim
  handles _ h := (not_mem_nil h).elim
  announces _ h := (not_mem_nil h).elim

lemma compliant_empty : ({} : Discovery L).Compliant info := fun _ _ h =>
  (not_mem_nil h).elim

/-- **When a private torrent keeps to its trackers.**  However a torrent is added, from a file, a
magnet link or the store, and whatever happens to it: from when its info dictionary is known and
private, no address of the DHT or the local discovery is fed to it, neither announces it, and no
`ut_pex`, `ut_metadata` or `ut_holepunch` message is sent, exactly as long as no lookup, stream or
announce is used that was opened for a magnet link. -/
theorem compliant_iff_fresh (config : Config) (info : Info) (as : List (Step L)) :
    Always (step config info) (Compliant info) ({} : Discovery L) as ↔
      Along (step config info) (Fresh info) ({} : Discovery L) as := by
  refine always_iff_along_of_invariant
    (I := fun s => info.isPrivate → s.Inv True) ?_ ?_ (fun _ => inv_empty) compliant_empty as
  · exact fun s a s' h hs hprivate => (h hprivate).of_step hprivate (fun _ => trivial) hs
  intro s a s' h hcompliant hs
  rw [compliant_step_iff hs hcompliant]
  refine forall_congr' fun hprivate => forall_congr' fun _ => ?_
  obtain ⟨s₁, hnext, -⟩ := map_eq_some_iff.mp hs
  exact (h hprivate).events_iff hprivate hnext

/-- **Without magnet links a private torrent keeps to its trackers.** -/
theorem compliant_of_no_magnet (config : Config) (info : Info) (as : List (Step L))
    (h : Along (step config info) (fun _ a => a.addsMagnet = false) ({} : Discovery L) as) :
    Always (step config info) (Compliant info) ({} : Discovery L) as := by
  refine Always.mono (fun s h => h.2) (always_of_along
    (I := fun s => (info.isPrivate = true → s.Inv False) ∧ s.Compliant info) ?_
    ⟨fun _ => inv_empty, compliant_empty⟩ h)
  rintro s a s' ⟨hinv, hcompliant⟩ hmagnet hs
  have hno : a.addsMagnet → False := fun h' => by cases hmagnet.symm.trans h'
  refine ⟨fun hprivate => (hinv hprivate).of_step hprivate hno hs, ?_⟩
  rw [compliant_step_iff hs hcompliant]
  intro hprivate _
  obtain ⟨s₁, hnext, -⟩ := map_eq_some_iff.mp hs
  exact ((hinv hprivate).events_iff hprivate hnext).mpr (hinv hprivate).not_usesMagnet

/-! ## A private torrent from a magnet link -/

/-- A session with a DHT and a local discovery. -/
def publicConfig : Config where
  dht := true
  lsd := true

def privateInfo : Info where
  isPrivate := true
  infoBytes := 100
  fileInfos := ChunkTracker.oneFile

def goesLive : List (Step .onePiece) :=
  [.insert 0 false (.ok ()), .stored 0 true, .start 0 (.ok ()),
    .checked 0 0 (.ok ChunkTracker.emptyTracker)]

/-- From a torrent file. -/
theorem compliant_torrentFile : Always (step publicConfig privateInfo) (Compliant privateInfo)
    ({} : Discovery .onePiece) (.addTorrent .torrentFile {} :: goesLive) :=
  compliant_of_no_magnet _ _ _ fun _ _ => ⟨rfl, fun _ _ => ⟨rfl, fun _ _ => ⟨rfl, fun _ _ =>
    ⟨rfl, fun _ _ => ⟨rfl, trivial⟩⟩⟩⟩⟩

/-- A magnet link is resolved and its torrent goes live. -/
def magnetGoesLive : List (Step .onePiece) :=
  .addTorrent .magnet {} :: .resolve 0 :: goesLive

/-- **Three ways to go wrong.**  The lookup for a magnet link feeds the private torrent that it
turns out to be.  It announces it.  And the announces in the local network go on for a torrent whose
magnet link was not resolved and that was then added from a file. -/
theorem not_compliant_magnet : ¬ Always (step publicConfig privateInfo) (Compliant privateInfo) {}
        (magnetGoesLive ++ [.feed 0 1 (.dht ⟨.v4 1, 6881⟩)]) ∧
    ¬ Always (step publicConfig privateInfo) (Compliant privateInfo) {}
        ([.setAnnouncePort (some 4240)] ++ magnetGoesLive ++ [.dhtAnnounce (.feeder 0 1)]) ∧
    ¬ Always (step publicConfig privateInfo) (Compliant privateInfo) ({} : Discovery .onePiece)
        [.setAnnouncePort (some 4240), .addTorrent .magnet {}, .fail 0, .addTorrent .torrentFile {},
          .lsdAnnounce 0] :=
  ⟨not_always_of_run (by decide +kernel), not_always_of_run (by decide +kernel),
    not_always_of_run (by decide +kernel)⟩

end Discovery

end Librtbit
