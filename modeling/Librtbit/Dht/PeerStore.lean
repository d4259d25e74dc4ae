import Librtbit.Dht.Protocol
import Librtbit.Machinery.Run
import Librtbit.Machinery.Table

/-!
# Dht/PeerStore — peers that were announced to us

Peers are kept by info hash in a concurrent map, next to a counter of them.  A peer is stored if it
comes with a token that we have issued; a collector removes what is too old or too much.

A step is what one call does between two points where another may run.  The entry of an info hash is
locked from when `store_peer` takes it until it has been changed; the counter follows later.  A walk
over the map is a step for each entry; it comes to every entry that stays in the map, and maybe to
some that are added meanwhile.
-/

namespace Librtbit

open Machinery Net

/-- `Id::distance` -/
def Id.distance {n : ℕ} (a b : Id n) : Id n :=
  ⟨List.zipWith (· ^^^ ·) a.val b.val, by
    rw [List.length_zipWith, a.property, b.property, min_self]⟩

/-- `SocketAddr::set_port` -/
def Net.SocketAddr.setPort (addr : SocketAddr) (port : UInt16) : SocketAddr :=
  match addr with
  | .v4 addr => .v4 { addr with port }
  | .v6 addr => .v6 { addr with port }

namespace Dht

/-- `DateTime<Utc>`, in milliseconds: the clock can be set back. -/
abbrev DateTime : Type := ℤ

structure StoredToken where
  token : Octets 4
  nodeId : Id20
  addr : SocketAddr
  time : DateTime
  deriving DecidableEq

structure StoredPeer where
  addr : SocketAddr
  time : DateTime
  deriving DecidableEq

structure PeerStore where
  selfId : Id20
  maxRememberedTokens : ℕ
  maxRememberedPeers : ℕ
  maxDistance : Id20
  tokens : List StoredToken
  peers : Table Id20 (List StoredPeer)
  peersLen : ℕ

namespace PeerStore

def maxPeersPerInfoHash : ℕ := 100

def peerTtl : ℤ := 15 * 60 * 1000

def tokenTtl : ℤ := 10 * 60 * 1000

/-- A store without tokens and peers. -/
def empty (selfId : Id20) (maxRememberedTokens maxRememberedPeers : ℕ) (maxDistance : Id20) :
    PeerStore where
  selfId
  maxRememberedTokens
  maxRememberedPeers
  maxDistance
  tokens := []
  peers := ∅
  peersLen := 0

def new (selfId : Id20) : PeerStore :=
  empty selfId 1000 1000 (.ofNat 20 0x00000fffffffffffffffffffffffffffffffffff)

variable (s : PeerStore)

def withPeers (peers : Table Id20 (List StoredPeer)) : PeerStore := { s with peers }

def peersOf (infoHash : Id20) : List StoredPeer := (s.peers.lookup infoHash).getD []

/-- The number of peers that are stored. -/
def total : ℕ := s.peers.weight List.length

/-- `gen_token_for`, with the token that was drawn. -/
def genTokenFor (token : StoredToken) : PeerStore :=
  let tokens := s.tokens ++ [token]
  { s with tokens := if tokens.length > s.maxRememberedTokens then tokens.tail else tokens }

/-! ## `store_peer` -/

end PeerStore

/-- Whether a token is the one of an announcement that came from an address. -/
def StoredToken.isFor (t : StoredToken) (announce : AnnouncePeer) (addr : SocketAddr) : Bool :=
  t.token.val = announce.token && t.addr = addr && t.nodeId = announce.id

/-- The address that an announcement is about. -/
def AnnouncePeer.peerAddr (announce : AnnouncePeer) (addr : SocketAddr) : SocketAddr :=
  if announce.impliedPort = 0 then addr.setPort announce.port else addr

inductive StorePhase where
  /-- The info hash and the token are checked. -/
  | check
  | entry
  /-- The entry is locked, and the counter was read. -/
  | update (peersLen : ℕ)
  /-- The peer was pushed, and is to be counted. -/
  | count
  | returned (stored : Bool)
  deriving DecidableEq

structure StoreTask where
  announce : AnnouncePeer
  addr : SocketAddr
  phase : StorePhase := .check
  deriving DecidableEq

namespace PeerStore

variable (s : PeerStore)

/-- One step of `store_peer`. -/
def advanceStore (locked : Id20 → Bool) (now : DateTime) (task : StoreTask) :
    Option (PeerStore × StoreTask) :=
  let infoHash := task.announce.infoHash
  let addr := task.announce.peerAddr task.addr
  match task.phase with
  | .check =>
    if infoHash.distance s.selfId > s.maxDistance then
      some (s, { task with phase := .returned false })
    else if s.tokens.any fun t => t.isFor task.announce task.addr then
      some (s, { task with phase := .entry })
    else some (s, { task with phase := .returned false })
  | .entry =>
    if locked infoHash then none else some (s, { task with phase := .update s.peersLen })
  | .update peersLen =>
    let ps := s.peersOf infoHash
    match ps.findIdx? fun p => p.addr = addr with
    | some i =>
      let ps' := ps.modify i fun p => { p with time := now }
      some (s.withPeers (s.peers.insert infoHash ps'),
        { task with phase := .returned true })
    | none =>
      if peersLen ≥ s.maxRememberedPeers then some (s, { task with phase := .returned false })
      else
        some (s.withPeers (s.peers.insert infoHash (ps ++ [⟨addr, now⟩])),
          { task with phase := .count })
  | .count => some ({ s with peersLen := s.peersLen + 1 }, { task with phase := .returned true })
  | .returned _ => none

end PeerStore

/-! ## `garbage_collect_peers` -/

/-- A walk over the map: the keys it began with, and those it has come to. -/
structure Walk where
  keys : List Id20
  seen : List Id20 := []
  deriving DecidableEq

def Walk.isOver (w : Walk) (peers : Table Id20 (List StoredPeer)) : Bool :=
  w.keys.all fun h => h ∈ w.seen || !decide (h ∈ peers)

inductive CollectPhase where
  | tokens
  /-- Stale peers are removed, and peers over the cap of an info hash. -/
  | clean (walk : Walk) (emptyHashes : List Id20)
  | removeEmpty (emptyHashes : List Id20)
  | actualCount (walk : Walk) (sum : ℕ)
  | findOldest (toEvict : ℕ) (walk : Walk) (found : List (Id20 × DateTime))
  | evict (toEvict evicted : ℕ) (entries : List Id20)
  /-- An entry that became empty is removed, after its lock was released. -/
  | removeEvicted (toEvict evicted : ℕ) (hash : Id20) (entries : List Id20)
  | finalCount (walk : Walk) (sum : ℕ)
  | storeCount (finalCount : ℕ)
  | over
  deriving DecidableEq

structure CollectTask where
  now : DateTime
  phase : CollectPhase := .tokens
  deriving DecidableEq

namespace PeerStore

variable (s : PeerStore)

/-- A walk begins. -/
def walk : Walk where
  keys := s.peers.keys

/-- What is left of the peers of an info hash. -/
def cleaned (now : DateTime) (ps : List StoredPeer) : List StoredPeer :=
  let fresh := ps.filter fun p => p.time > now - peerTtl
  if fresh.length > maxPeersPerInfoHash then
    (fresh.mergeSort fun p q => decide (q.time ≤ p.time)).take maxPeersPerInfoHash
  else fresh

/-- One step of `garbage_collect_peers`.  On a walk, `next` is the entry that it comes to next;
without one, it is at its end. -/
def advanceCollect (locked : Id20 → Bool) (next : Option Id20) (task : CollectTask) :
    Option (PeerStore × CollectTask) :=
  match task.phase with
  | .tokens =>
    let tokens := s.tokens.filter fun t => t.time > task.now - tokenTtl
    some ({ s with tokens }, { task with phase := .clean s.walk [] })
  | .clean walk emptyHashes =>
    match next with
    | some h =>
      if h ∈ s.peers ∧ h ∉ walk.seen ∧ locked h = false then
        let ps := cleaned task.now (s.peersOf h)
        let emptyHashes := if ps.isEmpty then emptyHashes ++ [h] else emptyHashes
        some (s.withPeers (s.peers.insert h ps),
          { task with phase := .clean { walk with seen := h :: walk.seen } emptyHashes })
      else none
    | none =>
      if walk.isOver s.peers then some (s, { task with phase := .removeEmpty emptyHashes })
      else none
  | .removeEmpty [] => some (s, { task with phase := .actualCount s.walk 0 })
  | .removeEmpty (h :: hashes) =>
    if locked h then none
    else some (s.withPeers (s.peers.erase h), { task with phase := .removeEmpty hashes })
  | .actualCount walk sum =>
    match next with
    | some h =>
      if h ∈ s.peers ∧ h ∉ walk.seen ∧ locked h = false then
        let sum := sum + (s.peersOf h).length
        some (s, { task with phase := .actualCount { walk with seen := h :: walk.seen } sum })
      else none
    | none =>
      if walk.isOver s.peers then
        if sum > s.maxRememberedPeers then
          let toEvict := sum - s.maxRememberedPeers
          some (s, { task with phase := .findOldest toEvict s.walk [] })
        else some (s, { task with phase := .finalCount s.walk 0 })
      else none
  | .findOldest toEvict walk found =>
    match next with
    | some h =>
      if h ∈ s.peers ∧ h ∉ walk.seen ∧ locked h = false then
        let oldest := ((s.peersOf h).map StoredPeer.time).min?
        let found := found ++ (oldest.map fun t => (h, t)).toList
        some (s, { task with
          phase := .findOldest toEvict { walk with seen := h :: walk.seen } found })
      else none
    | none =>
      if walk.isOver s.peers then
        let entries := (found.mergeSort fun e e' => decide (e.2 ≤ e'.2)).map Prod.fst
        some (s, { task with phase := .evict toEvict 0 entries })
      else none
  | .evict _ _ [] => some (s, { task with phase := .finalCount s.walk 0 })
  | .evict toEvict evicted (h :: entries) =>
    if evicted ≥ toEvict then some (s, { task with phase := .finalCount s.walk 0 })
    else if locked h then none
    else if h ∈ s.peers then
      let ps := (s.peersOf h).mergeSort fun p q => decide (p.time ≤ q.time)
      let k := min ps.length (toEvict - evicted)
      let s' := s.withPeers (s.peers.insert h (ps.drop k))
      if (ps.drop k).isEmpty then
        some (s', { task with phase := .removeEvicted toEvict (evicted + k) h entries })
      else some (s', { task with phase := .evict toEvict (evicted + k) entries })
    else some (s, { task with phase := .evict toEvict evicted entries })
  | .removeEvicted toEvict evicted h entries =>
    if locked h then none
    else
      some (s.withPeers (s.peers.erase h),
        { task with phase := .evict toEvict evicted entries })
  | .finalCount walk sum =>
    match next with
    | some h =>
      if h ∈ s.peers ∧ h ∉ walk.seen ∧ locked h = false then
        let sum := sum + (s.peersOf h).length
        some (s, { task with phase := .finalCount { walk with seen := h :: walk.seen } sum })
      else none
    | none => if walk.isOver s.peers then some (s, { task with phase := .storeCount sum }) else none
  | .storeCount finalCount =>
    some ({ s with peersLen := finalCount }, { task with phase := .over })
  | .over => none

end PeerStore

/-! ## Concurrent calls -/

inductive PeerTask where
  | store (task : StoreTask)
  | collect (task : CollectTask)
  deriving DecidableEq

structure PeerStoreCalls where
  store : PeerStore
  tasks : List PeerTask := []
  /-- Every token that was ever issued. -/
  issued : List StoredToken := []

inductive PeerStoreStep where
  | genTokenFor (token : StoredToken)
  | storePeer (announce : AnnouncePeer) (addr : SocketAddr)
  | garbageCollectPeers (now : DateTime)
  | advance (id : ℕ) (now : DateTime) (next : Option Id20)

namespace PeerStoreCalls

variable (s : PeerStoreCalls)

/-- The entry of an info hash is locked. -/
def locked (h : Id20) : Bool :=
  s.tasks.any fun
    | .store { announce, phase := .update _, .. } => announce.infoHash = h
    | _ => false

def step : PeerStoreStep → Option PeerStoreCalls
  | .genTokenFor token =>
    some { s with store := s.store.genTokenFor token, issued := token :: s.issued }
  | .storePeer announce addr => some { s with tasks := s.tasks ++ [.store { announce, addr }] }
  | .garbageCollectPeers now => some { s with tasks := s.tasks ++ [.collect { now }] }
  | .advance id now next =>
    (s.tasks[id]?).bind fun
      | .store task =>
        (s.store.advanceStore s.locked now task).map fun (store, task') =>
          { s with store, tasks := s.tasks.set id (.store task') }
      | .collect task =>
        (s.store.advanceCollect s.locked next task).map fun (store, task') =>
          { s with store, tasks := s.tasks.set id (.collect task') }

end PeerStoreCalls

end Dht

end Librtbit
