import Librtbit.Machinery.Pool
import Librtbit.Swarm.Session

/-!
# Swarm/Blocklist — whom the client connects to

An address comes from a tracker, the DHT, a peer, the local network or the user.  It leads to a
connection in three ways: the peer adder of a live torrent dials it, the address belongs to a socket
that was accepted, or it is asked for the metadata of a magnet link.  The first two look into the
blocklist and the allowlist.  The third one does not.

* `Client.sound_iff_allowed` — forbidden addresses are connected to when a magnet link is resolved,
  and never else.
-/

namespace Librtbit

open Machinery List Option

/-- The blocklist has the address, or there is an allowlist and it has not. -/
def PeerFilter.forbids (filter : PeerFilter) (ip : IpAddr) : Bool :=
  filter.blocklist ip || filter.allowlist.any fun allowlist => !allowlist ip

lemma PeerFilter.forbids_of_not_skips {filter : PeerFilter} {addr}
    (h : filter.skips addr = false) : filter.forbids addr.ip = false := by
  rw [skips, Bool.or_assoc, Bool.or_eq_false_iff] at h
  exact h.2

/-! ## The client -/

/-- `read_info_guarded`: an address is asked for the metadata. -/
inductive MetainfoReader where
  /-- Waiting for a permit. -/
  | waiting (addr : PeerHandle)
  /-- `connector.connect` -/
  | connecting (addr : PeerHandle)
  | connected (addr : PeerHandle)
  | over
  deriving DecidableEq

/-- `read_metainfo_from_peer_receiver`, for a magnet link. -/
structure Resolving where
  seen : List PeerHandle := []
  readers : List MetainfoReader := []
  /-- The metadata were found, and all connections dropped. -/
  found : Bool := false
  deriving DecidableEq

/-- A socket that was accepted. -/
inductive IncomingSocket where
  | accepted (addr : PeerHandle) (kind : ConnectionKind)
  /-- `check_incoming_connection` has read the handshake. -/
  | checked (addr : PeerHandle) (kind : ConnectionKind)
  | over
  deriving DecidableEq

/-- The session with its listener and its magnet links. -/
structure Client {ι : Type} (L : ι → Lengths) where
  session : Session L := {}
  incoming : List IncomingSocket := []
  resolving : List Resolving := []

inductive MetainfoStep where
  | connect
  | handshake
  | ends
  deriving DecidableEq

inductive ClientStep {ι : Type} (L : ι → Lengths) where
  | session (a : SessionStep L)
  | accept (addr : PeerHandle) (kind : ConnectionKind)
  /-- `check_incoming_connection`; whether a handshake with a known info hash is read. -/
  | checkIncoming (j : ℕ) (handshake : Bool)
  /-- `add_incoming_peer` on the torrent of the handshake. -/
  | addIncomingPeer (j : ℕ) (i : ι)
  | resolveMagnet
  /-- An address comes out of the stream: from the DHT, a tracker, the network or the user. -/
  | nextAddr (m : ℕ) (addr : PeerHandle)
  | reader (m r : ℕ) (a : MetainfoStep)
  /-- A connection returns the metadata. -/
  | readMetainfo (m r : ℕ)

/-- A step that gives a torrent a connection from outside. -/
def SessionStep.isIncoming {ι : Type} {L : ι → Lengths} : SessionStep L → Bool
  | .torrent _ (.addIncomingPeer ..) => true
  | _ => false

/-- `StreamConnector::connect` refuses these addresses before it connects. -/
def PeerFilter.refuses (filter : PeerFilter) (addr : PeerHandle) : Bool :=
  addr.port == 0 || (filter.ipv4Only && addr.ip.isIpv6)

namespace MetainfoReader

/-- Whom it is connected to, or about to be. -/
def connection? : MetainfoReader → Option PeerHandle
  | .connecting addr | .connected addr => some addr
  | .waiting _ | .over => none

def step (filter : PeerFilter) (permit : Bool) :
    MetainfoReader → MetainfoStep → Option MetainfoReader
  | .waiting addr, .connect =>
    if permit then some (if filter.refuses addr then .over else .connecting addr) else none
  | .connecting addr, .handshake => some (.connected addr)
  | .connecting _, .ends | .connected _, .ends => some .over
  | _, _ => none

end MetainfoReader

namespace Resolving

variable (m : Resolving)

/-- An address that was not seen is asked. -/
def nextAddr (addr : PeerHandle) : Resolving :=
  if addr ∈ m.seen then m
  else { m with seen := addr :: m.seen, readers := m.readers ++ [.waiting addr] }

def finish : Resolving := { m with readers := [], found := true }

/-- One of 128 permits is free. -/
def hasPermit : Bool := m.readers.countP (fun r => r.connection?.isSome) < 128

def setReader (r : ℕ) (reader : MetainfoReader) : Resolving :=
  { m with readers := m.readers.set r reader }

def readerStep (filter : PeerFilter) (r : ℕ) (a : MetainfoStep) : Option Resolving :=
  (m.readers[r]?).bind fun reader => (reader.step filter m.hasPermit a).map (m.setReader r)

end Resolving

namespace Client

variable {ι : Type} [DecidableEq ι] {L : ι → Lengths} (filter : PeerFilter) (c : Client L)

def setSession (session : Session L) : Client L := { c with session }

def setIncoming (j : ℕ) (socket : IncomingSocket) : Client L :=
  { c with incoming := c.incoming.set j socket }

def setResolving (m : ℕ) (resolving : Resolving) : Client L :=
  { c with resolving := c.resolving.set m resolving }

def checkIncoming (j : ℕ) (handshake : Bool) : Option (Client L) :=
  match c.incoming[j]? with
  | some (.accepted addr kind) =>
    some (c.setIncoming j
      (if !filter.forbids addr.ip && handshake then .checked addr kind else .over))
  | _ => none

/-- A peer that is connected already is not added. -/
def addIncomingPeer (j : ℕ) (i : ι) : Option (Client L) :=
  match c.incoming[j]? with
  | some (.checked addr kind) =>
    match c.session.step filter (.torrent i (.addIncomingPeer addr kind)) with
    | some session => some ((c.setSession session).setIncoming j .over)
    | none => some (c.setIncoming j .over)
  | _ => none

/-- **One step of the client.** -/
def step : ClientStep L → Option (Client L)
  | .session a => if a.isIncoming then none else (c.session.step filter a).map c.setSession
  | .accept addr kind => some { c with incoming := c.incoming ++ [.accepted addr kind] }
  | .checkIncoming j handshake => c.checkIncoming filter j handshake
  | .addIncomingPeer j i => c.addIncomingPeer filter j i
  | .resolveMagnet => some { c with resolving := c.resolving ++ [{}] }
  | .nextAddr m addr =>
    (c.resolving[m]?).bind fun x =>
      if x.found then none else some (c.setResolving m (x.nextAddr addr))
  | .reader m r a =>
    (c.resolving[m]?).bind fun x => (x.readerStep filter r a).map (c.setResolving m)
  | .readMetainfo m r =>
    (c.resolving[m]?).bind fun x =>
      match x.readers[r]? with
      | some (.connected _) => some (c.setResolving m x.finish)
      | _ => none

end Client

/-! ## Connections -/

/-- Whom a task of a torrent is connected to, or about to be. -/
def SwarmTask.connection? : SwarmTask → Option PeerHandle
  | .dialing addr | .marked addr _ => some addr
  | .connecting h | .connected h | .dying h _ => some h.addr
  | .adding .. | .sending _ | .dropping _ | .dropped .. | .waiting _ | .over => none

/-- The address whose handshake was read. -/
def IncomingSocket.connection? : IncomingSocket → Option PeerHandle
  | .checked addr _ => some addr
  | .accepted .. | .over => none

variable {filter : PeerFilter}

namespace Swarm

variable {L : Lengths} {s s' : Swarm L}

/-- No connection is to a forbidden address. -/
def Allowed (filter : PeerFilter) (s : Swarm L) : Prop :=
  ∀ task ∈ s.tasks, ∀ addr ∈ task.connection?, filter.forbids addr.ip = false

section

variable (hs : s.Allowed filter)
include hs

lemma Allowed.setTask {id task}
    (htask : ∀ addr ∈ task.connection?, filter.forbids addr.ip = false) :
    (s.setTask id task).Allowed filter :=
  forall_mem_set hs htask

lemma Allowed.spawn {task} (htask : ∀ addr ∈ task.connection?, filter.forbids addr.ip = false) :
    (s.spawn task).Allowed filter :=
  forall_mem_concat hs htask

lemma Allowed.congr (h : s'.tasks = s.tasks) : s'.Allowed filter := by
  rw [Allowed, h]
  exact hs

variable (addr : PeerHandle)

lemma Allowed.begins (ps : CountedPeers L) :
    ((s.begins addr).withPeers ps).Allowed filter :=
  hs.congr (tasks_begins addr)

lemma Allowed.trySend : (s.trySend addr).Allowed filter :=
  hs.congr (tasks_trySend addr)

end

lemma forbids_none {filter : PeerFilter} :
    ∀ addr ∈ (none : Option PeerHandle), filter.forbids addr.ip = false :=
  fun addr h => (not_mem_none addr h).elim

lemma forbids_some {filter : PeerFilter} {addr : PeerHandle}
    (h : filter.forbids addr.ip = false) :
    ∀ a ∈ some addr, filter.forbids a.ip = false :=
  fun _ ha => Option.some.inj ha ▸ h

/-- **A torrent does not connect to forbidden addresses**, unless it is given a connection from
one. -/
theorem Allowed.of_step (hs : s.Allowed filter) {a} (h : s.step filter a = some s')
    (ha : ∀ addr kind, a = .addIncomingPeer addr kind → filter.forbids addr.ip = false) :
    s'.Allowed filter := by
  -- Who a task is connected to stays the same while the connection lasts.
  have hof : ∀ {id : ℕ} {task : SwarmTask} {addr : PeerHandle}, s.tasks[id]? = some task →
      task.connection? = some addr → filter.forbids addr.ip = false :=
    fun htask haddr => hs _ (mem_of_getElem? htask) _ haddr
  cases effect_of_step h with
  | addPeerIfNotSeen => exact (hs.begins _ _).spawn forbids_none
  | @addIncomingPeer addr kind ps hps =>
    exact (hs.begins _ _).spawn (forbids_some (ha addr kind rfl))
  | adderReceives | adderMarksNotNeeded | adderSkips | disconnectIfFull | pruneDeadPeer
  | withLiveMut | setOwner | onHandshake | ignoresHandshake | onExtendedHandshake
  | ignoresExtendedHandshake => exact hs.congr rfl
  | adderSpawns hadder hskips =>
    have hnone : Allowed filter { s with adder := none } := hs.congr rfl
    exact hnone.spawn (forbids_some (PeerFilter.forbids_of_not_skips hskips))
  | @reconnectNotNeededPeer addr ps outgoing hps =>
    refine Allowed.trySend ?_ outgoing
    split
    · exact hs.begins _ _
    · exact hs.congr rfl
  | requeueDeadPeer => exact (hs.begins _ _).trySend _
  | @countsAdded id addr which todo htask | @countsDropped id state which todo htask =>
    refine Allowed.setTask (hs.congr (by cases which <;> rfl)) ?_
    cases todo <;> exact forbids_none
  | sends htask => exact (hs.trySend _).setTask forbids_none
  | marks htask hps => exact (hs.begins _ _).setTask (forbids_some (hof htask rfl))
  | marksNot | getsNoCounters | dropsNothing | wakesLate => exact hs.setTask forbids_none
  | getsCounters htask he => exact hs.setTask (forbids_some (hof htask rfl))
  | onConnected htask => exact Allowed.setTask (hs.congr rfl) (forbids_some (hof htask rfl))
  | ends htask =>
    rcases htask with htask | htask
    · exact hs.setTask (forbids_some (hof htask rfl))
    · exact hs.setTask (forbids_some (hof htask rfl))
  | @onPeerDied id handler error finished tracker htask =>
    obtain ⟨task, htasks, -, htask'⟩ :=
      s.exists_tasks_onPeerDied id handler error finished tracker
    have hset : (s.setTask id task).Allowed filter := by
      refine hs.setTask ?_
      rcases htask' with rfl | rfl | rfl <;> exact forbids_none
    exact hset.congr htasks
  | drops => exact Allowed.setTask (hs.congr rfl) forbids_none
  | wakes htask hps => exact (hs.begins _ _).setTask forbids_none

end Swarm

namespace Client

variable {ι : Type} {L : ι → Lengths} {c c' : Client L}

/-- **No connection is to a forbidden address**: of no torrent, of no magnet link and from no
socket. -/
structure Sound (filter : PeerFilter) (c : Client L) : Prop where
  torrents : ∀ i, (c.session.torrents i).Allowed filter
  incoming : ∀ socket ∈ c.incoming, ∀ addr ∈ socket.connection?, filter.forbids addr.ip = false
  resolving : ∀ m ∈ c.resolving, ∀ reader ∈ m.readers, ∀ addr ∈ reader.connection?,
    filter.forbids addr.ip = false

/-- **What is asked for metadata is allowed**, when it is connected to. -/
def Allowed (filter : PeerFilter) (c : Client L) : ClientStep L → Prop
  | .reader m r .connect =>
    ∀ addr, (c.resolving[m]?).bind (fun x => x.readers[r]?) = some (.waiting addr) →
      filter.refuses addr = false → filter.forbids addr.ip = false
  | _ => True

lemma sound_iff_of_readerStep {x x' : Resolving} {r a}
    (hx : ∀ reader ∈ x.readers, ∀ addr ∈ reader.connection?, filter.forbids addr.ip = false)
    (h : x.readerStep filter r a = some x') :
    (∀ reader ∈ x'.readers, ∀ addr ∈ reader.connection?, filter.forbids addr.ip = false) ↔
      (a = .connect → ∀ addr, x.readers[r]? = some (.waiting addr) →
        filter.refuses addr = false → filter.forbids addr.ip = false) := by
  obtain ⟨reader, hreader, h⟩ := bind_eq_some_iff.mp h
  obtain ⟨reader', hstep, rfl⟩ := map_eq_some_iff.mp h
  have hold := hx reader (mem_of_getElem? hreader)
  have hset : (∀ y ∈ (x.setReader r reader').readers, ∀ addr ∈ y.connection?,
      filter.forbids addr.ip = false) ↔
      ∀ addr ∈ reader'.connection?, filter.forbids addr.ip = false :=
    ⟨fun h => h reader' (mem_of_getElem? (getElem?_set_of_some hreader reader')),
      fun h => forall_mem_set hx h⟩
  rw [hset, hreader]
  cases reader with
  | waiting addr =>
    cases a with
    | connect =>
      rw [MetainfoReader.step] at hstep
      split at hstep <;> cases hstep
      cases hrefuses : filter.refuses addr with
      | true =>
        refine iff_of_true Swarm.forbids_none fun _ addr' heq hrefuses' => ?_
        cases heq
        exact absurd (hrefuses.symm.trans hrefuses') Bool.true_eq_false_eq_False
      | false =>
        refine ⟨fun h _ addr' heq _ => ?_, fun h => ?_⟩
        · cases heq
          exact h addr rfl
        · exact Swarm.forbids_some (h rfl addr rfl hrefuses)
    | handshake | ends => cases hstep
  | connecting addr =>
    cases a with
    | connect => cases hstep
    | handshake =>
      cases hstep
      exact iff_of_true hold (fun h => by cases h)
    | ends =>
      cases hstep
      exact iff_of_true Swarm.forbids_none (fun h => by cases h)
  | connected addr =>
    cases a with
    | connect | handshake => cases hstep
    | ends =>
      cases hstep
      exact iff_of_true Swarm.forbids_none (fun h => by cases h)
  | «over» => cases a <;> cases hstep

lemma Sound.of_checkIncoming (hs : c.Sound filter) {j handshake}
    (h : c.checkIncoming filter j handshake = some c') : c'.Sound filter := by
  unfold checkIncoming at h
  split at h
  · next addr kind _ =>
    cases h
    refine ⟨hs.torrents, forall_mem_set hs.incoming ?_, hs.resolving⟩
    split
    · next hok =>
      simp only [Bool.and_eq_true, Bool.not_eq_true'] at hok
      exact Swarm.forbids_some hok.1
    · exact Swarm.forbids_none
  · cases h

lemma sound_setResolving_iff (hs : c.Sound filter) {m x}
    (hx : c.resolving[m]? = some x) (x' : Resolving) :
    (c.setResolving m x').Sound filter ↔
      ∀ reader ∈ x'.readers, ∀ addr ∈ reader.connection?, filter.forbids addr.ip = false := by
  constructor
  · exact fun hs' => hs'.resolving x' (mem_of_getElem? (getElem?_set_of_some hx x'))
  · exact fun h => ⟨hs.torrents, hs.incoming, forall_mem_set hs.resolving h⟩

variable [DecidableEq ι]

/-- The torrents of a session, after a step. -/
lemma allowed_of_sessionStep {s s' : Session L}
    (hs : ∀ i, (s.torrents i).Allowed filter) {a} (h : s.step filter a = some s')
    (ha : ∀ i addr kind, a = .torrent i (.addIncomingPeer addr kind) →
      filter.forbids addr.ip = false) : ∀ i, (s'.torrents i).Allowed filter := by
  have hset : ∀ j (t : Swarm (L j)), t.Allowed filter →
      ∀ i, ((s.setTorrent j t).torrents i).Allowed filter := by
    intro j t ht i
    by_cases hij : i = j
    · subst hij
      show Swarm.Allowed filter (Function.update s.torrents i t i)
      rw [Function.update_self]
      exact ht
    · show Swarm.Allowed filter (Function.update s.torrents j t i)
      rw [Function.update_of_ne hij]
      exact hs i
  cases a with
  | torrent j a =>
    rw [Session.step] at h
    split at h
    · cases h
    obtain ⟨t, ht, rfl⟩ := map_eq_some_iff.mp h
    have hj : (s.torrent j).Allowed filter := hs j
    refine hset j t (hj.of_step ht fun addr kind heq => ?_)
    exact ha j addr kind (by rw [heq])
  | drop j =>
    rw [Session.step] at h
    split at h <;> cases h
    exact hs
  | destroy j addr =>
    rw [Session.step] at h
    split at h
    · obtain ⟨ps, -, rfl⟩ := map_eq_some_iff.mp h
      exact hset j _ (hs j)
    · cases h

/-- The address of a socket was looked up before it gets to a torrent. -/
lemma Sound.of_addIncomingPeer (hs : c.Sound filter) {j i}
    (h : c.addIncomingPeer filter j i = some c') : c'.Sound filter := by
  unfold addIncomingPeer at h
  split at h
  · next addr kind hj =>
    have haddr : filter.forbids addr.ip = false :=
      hs.incoming _ (mem_of_getElem? hj) addr rfl
    have hover := forall_mem_set (i := j) hs.incoming
      (x := IncomingSocket.over) Swarm.forbids_none
    split at h
    · next session hsession =>
      cases h
      refine ⟨allowed_of_sessionStep hs.torrents hsession fun i addr' kind' heq => ?_, hover,
        hs.resolving⟩
      cases heq
      exact haddr
    · cases h
      exact ⟨hs.torrents, hover, hs.resolving⟩
  · cases h

/-- **Only asking for metadata can connect to a forbidden address.** -/
theorem sound_iff_of_step (hs : c.Sound filter) {a}
    (h : c.step filter a = some c') : c'.Sound filter ↔ c.Allowed filter a := by
  cases a with
  | session a =>
    refine iff_true_intro ?_
    rw [step] at h
    split at h
    · cases h
    next hincoming =>
    obtain ⟨session, hsession, rfl⟩ := map_eq_some_iff.mp h
    refine ⟨allowed_of_sessionStep hs.torrents hsession fun i addr kind heq => ?_, hs.incoming,
      hs.resolving⟩
    rw [heq] at hincoming
    exact absurd rfl hincoming
  | accept addr kind =>
    cases h
    exact iff_true_intro ⟨hs.torrents, forall_mem_concat hs.incoming Swarm.forbids_none,
      hs.resolving⟩
  | checkIncoming j handshake => exact iff_true_intro (hs.of_checkIncoming h)
  | addIncomingPeer j i => exact iff_true_intro (hs.of_addIncomingPeer h)
  | resolveMagnet =>
    cases h
    refine iff_true_intro ⟨hs.torrents, hs.incoming, forall_mem_concat hs.resolving ?_⟩
    exact fun reader h => (not_mem_nil h).elim
  | nextAddr m addr =>
    refine iff_true_intro ?_
    obtain ⟨x, hx, h⟩ := bind_eq_some_iff.mp h
    split at h <;> cases h
    refine (sound_setResolving_iff hs hx _).mpr ?_
    have hreaders := hs.resolving x (mem_of_getElem? hx)
    unfold Resolving.nextAddr
    split
    · exact hreaders
    · exact forall_mem_concat hreaders Swarm.forbids_none
  | reader m r a =>
    obtain ⟨x, hx, h⟩ := bind_eq_some_iff.mp h
    obtain ⟨x', hx', rfl⟩ := map_eq_some_iff.mp h
    have hreaders := sound_iff_of_readerStep (hs.resolving x (mem_of_getElem? hx)) hx'
    rw [sound_setResolving_iff hs hx, hreaders]
    cases a with
    | connect => simp [Allowed, hx]
    | handshake | ends => exact iff_true_intro (fun h => by cases h)
  | readMetainfo m r =>
    refine iff_true_intro ?_
    obtain ⟨x, hx, h⟩ := bind_eq_some_iff.mp h
    split at h <;> cases h
    refine (sound_setResolving_iff hs hx _).mpr ?_
    exact fun reader h => (not_mem_nil h).elim

/-- **The client connects to allowed addresses exactly as long as those it asks for metadata are
allowed**: with any blocklist and allowlist, in every run of any number of torrents, sockets and
magnet links, no connection is opened to a forbidden address and no handshake is made with one, if
and only if none is asked for the metadata of a magnet link. -/
theorem sound_iff_allowed (filter : PeerFilter) (as : List (ClientStep L)) :
    Always (step filter) (Sound filter) ({} : Client L) as ↔
      Along (step filter) (Allowed filter) ({} : Client L) as := by
  refine always_iff_along (fun c a c' hs h => sound_iff_of_step hs h)
    ⟨fun i task h => ?_, ?_, ?_⟩ as
  · exact (not_mem_nil h).elim
  · exact fun socket h => (not_mem_nil h).elim
  · exact fun m h => (not_mem_nil h).elim

/-- A filter that blocks one address. -/
def blocksOne : PeerFilter where
  ipv4Only := false
  blocklist ip := decide (ip = .v4 1)
  allowlist := none

/-- **A blocked address is asked for metadata**: it comes out of the stream of a magnet link, is
connected to, and a handshake is made with it. -/
theorem not_sound_magnet :
    ¬ Always (step blocksOne) (Sound blocksOne) ({} : Client fun _ : Unit => Lengths.onePiece)
      [.resolveMagnet, .nextAddr 0 Swarm.listening, .reader 0 0 .connect,
        .reader 0 0 .handshake] := by
  intro h
  have hreaders := h.mono fun c hs => hs.resolving
  exact absurd hreaders (not_always_of_run (by decide +kernel))

end Client

end Librtbit
