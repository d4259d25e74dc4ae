import Librtbit.Machinery.Run
import Librtbit.Wire.Extended

/-!
# Wire/Pex — telling a peer who else we are connected to

Every minute a connected peer is told which peers came and which went since the last round, at most
fifty of each.  The sender keeps its own account of what the peer knows
(`PexSender.peerViewOfLivePeers`); the peer knows what the lists it was sent add up to
(`receivedPeers`).

Addresses that only make sense in our own network are kept out of the account, but not out of the
message.  `PexSender.agrees_iff_passes` says when the two agree.
-/

namespace Librtbit

open Machinery Net CompactListInBuffer

namespace Wire

structure PexPeerInfo where
  flags : UInt8
  addr : Net.SocketAddr
  deriving DecidableEq

namespace UtPex

/-- `added_peers_inner` -/
def addedPeersInner {T : Type} [CompactSerialize T] [CompactSerializeFixedLen T]
    (into : T → Net.SocketAddr) (buf : Option (CompactListInBuffer T))
    (flags : Option (CompactListInBuffer Flags)) : List PexPeerInfo :=
  ((buf.map iter).getD []).zipIdx.map fun (ip, idx) =>
    { flags := ((flags.bind fun f => f.get idx).map Flags.bits).getD 0, addr := into ip }

def addedPeers (m : UtPex) : List PexPeerInfo :=
  addedPeersInner Net.SocketAddr.v4 m.added m.addedF ++
    addedPeersInner Net.SocketAddr.v6 m.added6 m.added6F

def droppedPeers (m : UtPex) : List PexPeerInfo :=
  addedPeersInner Net.SocketAddr.v4 m.dropped none ++
    addedPeersInner Net.SocketAddr.v6 m.dropped6 none

def split4 (addrs : List Net.SocketAddr) : Option (CompactListInBuffer SocketAddrV4) :=
  let v4 := newFromIter SocketAddrV4.length_asSlice <| addrs.filterMap fun
    | .v4 a => some a
    | .v6 _ => none
  v4.ofNonempty

def split6 (addrs : List Net.SocketAddr) : Option (CompactListInBuffer SocketAddrV6) :=
  let v6 := newFromIter SocketAddrV6.length_asSlice <| addrs.filterMap fun
    | .v4 _ => none
    | .v6 a => some a
  v6.ofNonempty

def fromAddrs (addrsLive addrsClosed : List Net.SocketAddr) : UtPex where
  added := split4 addrsLive
  added6 := split6 addrsLive
  dropped := split4 addrsClosed
  dropped6 := split6 addrsClosed

end UtPex

end Wire

/-! ## Local addresses -/

namespace Net

/-- `127.0.0.0/8` -/
def Ipv4Addr.isLoopback (a : Ipv4Addr) : Bool := a.octets.val.head? = some 127

/-- `10.0.0.0/8`, `172.16.0.0/12` and `192.168.0.0/16` -/
def Ipv4Addr.isPrivate (a : Ipv4Addr) : Bool :=
  match a.octets.val with
  | 10 :: _ => true
  | 172 :: b :: _ => 16 ≤ b && b ≤ 31
  | 192 :: 168 :: _ => true
  | _ => false

/-- `::1` -/
def Ipv6Addr.isLoopback (a : Ipv6Addr) : Bool := a.octets.val = List.replicate 15 0 ++ [1]

/-- `fc00::/7` -/
def Ipv6Addr.isUniqueLocal (a : Ipv6Addr) : Bool :=
  a.octets.val.head?.any fun b => b &&& 0xfe = 0xfc

/-- `fe80::/10` -/
def Ipv6Addr.isUnicastLinkLocal (a : Ipv6Addr) : Bool :=
  match a.octets.val with
  | 0xfe :: b :: _ => b &&& 0xc0 = 0x80
  | _ => false

end Net

/-! ## The sender -/

open Wire Net

/-- `MAX_SENT_PEERS` -/
def maxSentPeers : ℕ := 50

/-- `peer_ip_non_local` -/
def peerIpNonLocal : Net.IpAddr → Bool
  | .v4 a => !a.isLoopback && !a.isPrivate
  | .v6 a => !a.isLoopback && !a.isUniqueLocal

/-- `other_ip_is_local` -/
def otherIpIsLocal : Net.IpAddr → Bool
  | .v4 a => a.isLoopback || a.isPrivate
  | .v6 a => a.isLoopback || a.isUnicastLinkLocal || a.isUniqueLocal

/-- `filter`: the peer may be told about the address. -/
def pexFilter (thisPeerAddr addr : Net.SocketAddr) : Bool :=
  !(peerIpNonLocal thisPeerAddr.ip && otherIpIsLocal addr.ip)

/-- What the task that sends to one peer keeps, and what it has sent. -/
structure PexSender where
  peerViewOfLivePeers : Finset Net.SocketAddr := ∅
  sent : List UtPex := []
  /-- The peer has disconnected. -/
  «over» : Bool := false

/-- **What a peer knows**, from all it was sent. -/
def receivedPeers (sent : List UtPex) : Finset Net.SocketAddr :=
  sent.foldl (fun peers m =>
    peers \ (m.droppedPeers.map PexPeerInfo.addr).toFinset ∪
      (m.addedPeers.map PexPeerInfo.addr).toFinset) ∅

/-- The first elements of a set, in whatever order they come. -/
def Taken (set : Finset Net.SocketAddr) (taken : List Net.SocketAddr) : Prop :=
  taken.Nodup ∧ (∀ a ∈ taken, a ∈ set) ∧ taken.length = min maxSentPeers set.card
  deriving Decidable

inductive PexSender.Step where
  /-- A round, with the live peers there are, and those it takes of the ones that came and went. -/
  | round (livePeers : Finset Net.SocketAddr) (connected dropped : List Net.SocketAddr)
  | disconnected

namespace PexSender

variable (thisPeerAddr : Net.SocketAddr) (s : PexSender)

/-- The message of a round, and what it does to the account. -/
def send (connected dropped : List Net.SocketAddr) : PexSender :=
  { s with
    sent := s.sent ++ [UtPex.fromAddrs connected dropped]
    peerViewOfLivePeers := s.peerViewOfLivePeers \ dropped.toFinset ∪
      (connected.filter (pexFilter thisPeerAddr)).toFinset }

def step : Step → Option PexSender
  | .round livePeers connected dropped =>
    if s.over then none
    else if Taken (livePeers \ s.peerViewOfLivePeers) connected ∧
        Taken (s.peerViewOfLivePeers \ livePeers) dropped then
      if connected.isEmpty && dropped.isEmpty then some s
      else some (s.send thisPeerAddr connected dropped)
    else none
  | .disconnected => some { s with «over» := true }

/-- **The peer knows what the sender thinks it knows**, and was told about no address that is not
for it. -/
def Agrees : Prop :=
  receivedPeers s.sent = s.peerViewOfLivePeers ∧
    ∀ m ∈ s.sent, ∀ p ∈ m.addedPeers, pexFilter thisPeerAddr p.addr = true
  deriving Decidable

/-- The addresses of a round are for the peer, and can be sent as they are. -/
def Passes : Step → Prop
  | .round _ connected _ => ∀ a ∈ connected, pexFilter thisPeerAddr a = true ∧ a.Plain
  | .disconnected => True

end PexSender

/-! ## What a message says -/

lemma CompactListInBuffer.iter_ofNonempty {T : Type} [CompactSerialize T]
    [CompactSerializeFixedLen T] (l : CompactListInBuffer T) :
    (l.ofNonempty.map iter).getD [] = l.iter := by
  rw [ofNonempty]
  split
  · rename_i hempty
    rw [iter, List.isEmpty_iff.mp hempty, chunksExact, List.length_nil, Nat.zero_div]
    rfl
  · rfl

namespace Wire.UtPex

lemma map_addr_addedPeersInner {T : Type} [CompactSerialize T] [CompactSerializeFixedLen T]
    (into : T → Net.SocketAddr) (buf : Option (CompactListInBuffer T))
    (flags : Option (CompactListInBuffer Flags)) :
    (addedPeersInner into buf flags).map PexPeerInfo.addr =
      ((buf.map iter).getD []).map into := by
  have hfst : ((buf.map iter).getD []).zipIdx.map (fun x => into x.1) =
      (((buf.map iter).getD []).zipIdx.map Prod.fst).map into := by
    rw [List.map_map]
    rfl
  rw [addedPeersInner, List.map_map]
  exact hfst.trans (by rw [List.zipIdx_map_fst])

variable (addrs : List Net.SocketAddr)

lemma map_addr_split4 (flags : Option (CompactListInBuffer Flags)) :
    (addedPeersInner Net.SocketAddr.v4 (split4 addrs) flags).map PexPeerInfo.addr =
      addrs.filterMap fun
        | .v4 a => some (.v4 a)
        | .v6 _ => none := by
  rw [map_addr_addedPeersInner, split4, iter_ofNonempty, iter_newFromIter _ (by decide)]
  simp only [SocketAddrV4.fromSlice_asSlice, List.filterMap_some, List.map_filterMap]
  congr 1
  funext a
  cases a <;> rfl

lemma map_addr_split6 (flags : Option (CompactListInBuffer Flags)) :
    (addedPeersInner Net.SocketAddr.v6 (split6 addrs) flags).map PexPeerInfo.addr =
      addrs.filterMap fun
        | .v4 _ => none
        | .v6 a => some (.v6 { a with flowinfo := 0, scopeId := 0 }) := by
  rw [map_addr_addedPeersInner, split6, iter_ofNonempty, iter_newFromIter _ (by decide)]
  simp only [SocketAddrV6.fromSlice_asSlice, List.filterMap_filterMap, List.map_filterMap]
  congr 1
  funext a
  cases a <;> rfl

variable {addr : Net.SocketAddr}

/-- **An address is told as its ip address and port.** -/
theorem mem_split_iff {addrs flags flags6} :
    addr ∈ (addedPeersInner Net.SocketAddr.v4 (split4 addrs) flags ++
        addedPeersInner Net.SocketAddr.v6 (split6 addrs) flags6).map PexPeerInfo.addr ↔
      ∃ a ∈ addrs, Net.SocketAddr.new a.ip a.port = addr := by
  rw [List.map_append, map_addr_split4, map_addr_split6, List.mem_append, List.mem_filterMap,
    List.mem_filterMap, ← exists_or]
  refine exists_congr fun a => ?_
  cases a with
  | v4 a | v6 a => simp [Net.SocketAddr.new, Net.SocketAddr.ip, Net.SocketAddr.port]

variable {connected dropped : List Net.SocketAddr}

lemma mem_addedPeers_fromAddrs :
    addr ∈ ((fromAddrs connected dropped).addedPeers.map PexPeerInfo.addr).toFinset ↔
      ∃ a ∈ connected, Net.SocketAddr.new a.ip a.port = addr :=
  List.mem_toFinset.trans mem_split_iff

lemma mem_droppedPeers_fromAddrs :
    addr ∈ ((fromAddrs connected dropped).droppedPeers.map PexPeerInfo.addr).toFinset ↔
      ∃ a ∈ dropped, Net.SocketAddr.new a.ip a.port = addr :=
  List.mem_toFinset.trans mem_split_iff

end Wire.UtPex

/-- Addresses that are plain are told as they are. -/
lemma exists_new_eq_iff {addrs : List Net.SocketAddr} (h : ∀ a ∈ addrs, a.Plain)
    {addr : Net.SocketAddr} :
    (∃ a ∈ addrs, Net.SocketAddr.new a.ip a.port = addr) ↔ addr ∈ addrs := by
  constructor
  · rintro ⟨a, ha, rfl⟩
    rwa [(Net.SocketAddr.new_eq_self_iff a).mpr (h a ha)]
  · exact fun ha => ⟨addr, ha, (Net.SocketAddr.new_eq_self_iff addr).mpr (h addr ha)⟩

namespace PexSender

variable {thisPeerAddr : Net.SocketAddr} {s s' : PexSender}

lemma receivedPeers_append (sent : List UtPex) (m : UtPex) : receivedPeers (sent ++ [m]) =
      receivedPeers sent \ (m.droppedPeers.map PexPeerInfo.addr).toFinset ∪
        (m.addedPeers.map PexPeerInfo.addr).toFinset := by
  rw [receivedPeers, List.foldl_append]
  rfl

/-- The addresses that can have been told so far are plain. -/
def Told (s : PexSender) : Prop := ∀ a ∈ receivedPeers s.sent, a.Plain

lemma told_default : Told {} := fun a ha => absurd ha (Finset.notMem_empty a)

lemma Told.send (h : s.Told) (connected dropped : List Net.SocketAddr) :
    (s.send thisPeerAddr connected dropped).Told := by
  intro a ha
  rw [PexSender.send, receivedPeers_append, Finset.mem_union, Finset.mem_sdiff,
    UtPex.mem_addedPeers_fromAddrs] at ha
  rcases ha with ⟨ha, -⟩ | ⟨b, -, rfl⟩
  · exact h a ha
  · exact Net.SocketAddr.plain_new _ _

/-- **A message keeps the two in agreement exactly when all its new addresses are for the peer and
can be sent as they are.** -/
theorem agrees_send_iff (htold : s.Told) (h : s.Agrees thisPeerAddr) {connected dropped}
    (hdropped : ∀ a ∈ dropped, a ∈ s.peerViewOfLivePeers) :
    (s.send thisPeerAddr connected dropped).Agrees thisPeerAddr ↔
      ∀ a ∈ connected, pexFilter thisPeerAddr a = true ∧ a.Plain := by
  have hplain : ∀ a ∈ dropped, a.Plain := fun a ha => htold a (h.1 ▸ hdropped a ha)
  constructor
  · rintro ⟨heq, hsent⟩
    have hfilter : ∀ a ∈ connected, pexFilter thisPeerAddr a = true := by
      intro a ha
      obtain ⟨p, hp, haddr⟩ := List.mem_map.mp <| List.mem_toFinset.mp <|
        UtPex.mem_addedPeers_fromAddrs.mpr ⟨a, ha, rfl⟩
      have hpass := hsent _ (List.mem_append_right _ (List.mem_singleton_self _)) p hp
      rw [haddr] at hpass
      cases a <;> exact hpass
    have htold' : (s.send thisPeerAddr connected dropped).Told := htold.send connected dropped
    refine fun a ha => ⟨hfilter a ha, htold' a ?_⟩
    -- the address is in the account, and so among those the peer was told
    rw [heq]
    exact Finset.mem_union_right _
      (List.mem_toFinset.mpr (List.mem_filter.mpr ⟨ha, hfilter a ha⟩))
  · intro hall
    refine ⟨?_, fun m hm p hp => ?_⟩
    · rw [send, receivedPeers_append, h.1]
      ext a
      rw [Finset.mem_union, Finset.mem_sdiff, UtPex.mem_addedPeers_fromAddrs,
        UtPex.mem_droppedPeers_fromAddrs, exists_new_eq_iff hplain,
        exists_new_eq_iff fun a ha => (hall a ha).2, Finset.mem_union, Finset.mem_sdiff,
        List.mem_toFinset, List.mem_toFinset, List.mem_filter]
      exact or_congr_right ⟨fun ha => ⟨ha, (hall a ha).1⟩, And.left⟩
    · rcases List.mem_append.mp hm with hm | hm
      · exact h.2 m hm p hp
      rw [List.mem_singleton.mp hm] at hp
      have hmem := List.mem_toFinset.mpr (List.mem_map_of_mem (f := PexPeerInfo.addr) hp)
      rw [UtPex.mem_addedPeers_fromAddrs, exists_new_eq_iff fun a ha => (hall a ha).2] at hmem
      exact (hall _ hmem).1

/-- What a step can do: nothing, as far as the account goes, or send a message. -/
lemma step_cases {a} (hstep : s.step thisPeerAddr a = some s') :
    (s'.sent = s.sent ∧ s'.peerViewOfLivePeers = s.peerViewOfLivePeers ∧ Passes thisPeerAddr a) ∨
    ∃ livePeers connected dropped, a = .round livePeers connected dropped ∧
      (∀ a ∈ dropped, a ∈ s.peerViewOfLivePeers) ∧ s' = s.send thisPeerAddr connected dropped := by
  cases a with
  | round livePeers connected dropped =>
    rw [step] at hstep
    split at hstep
    · cases hstep
    split at hstep
    · rename_i htaken
      split at hstep
      · rename_i hempty
        cases hstep
        rw [Bool.and_eq_true, List.isEmpty_iff] at hempty
        refine .inl ⟨rfl, rfl, fun a ha => ?_⟩
        rw [hempty.1] at ha
        exact absurd ha List.not_mem_nil
      · cases hstep
        exact .inr ⟨livePeers, connected, dropped, rfl,
          fun a ha => (Finset.mem_sdiff.mp (htaken.2.2.1 a ha)).1, rfl⟩
    · cases hstep
  | disconnected =>
    cases hstep
    exact .inl ⟨rfl, rfl, trivial⟩

lemma told_step {a} (h : s.Told) (hstep : s.step thisPeerAddr a = some s') : s'.Told := by
  rcases step_cases hstep with ⟨hsent, -, -⟩ | ⟨_, connected, dropped, -, -, rfl⟩
  · rw [Told, hsent]
    exact h
  · exact h.send connected dropped

/-- **The peer knows what the sender thinks it knows, and was told about no address that is not for
it, after every round exactly when every new address of every round is for the peer** (and, being an
IPv6 address, has no flow information and no scope id, which are not sent). -/
theorem agrees_iff_passes (thisPeerAddr : Net.SocketAddr) (as : List Step) :
    Always (step thisPeerAddr) (Agrees thisPeerAddr) {} as ↔
      Along (step thisPeerAddr) (fun _ => Passes thisPeerAddr) {} as :=
  always_iff_along_of_invariant (fun _ _ _ => told_step) (fun s _ s' htold h hstep => by
      rcases step_cases hstep with ⟨hsent, hview, hpass⟩ | ⟨_, _, _, rfl, hdropped, rfl⟩
      · rw [Agrees, hsent, hview]
        exact iff_of_true h hpass
      · exact agrees_send_iff htold h hdropped)
    told_default ⟨rfl, fun _ hm => absurd hm List.not_mem_nil⟩ as

/-- A peer at `8.8.8.8` is told about `192.168.0.1`. -/
theorem not_agrees_local :
    ¬ Always (step (.v4 ⟨⟨[8, 8, 8, 8], rfl⟩, 1⟩)) (Agrees (.v4 ⟨⟨[8, 8, 8, 8], rfl⟩, 1⟩)) {}
      [.round {.v4 ⟨⟨[192, 168, 0, 1], rfl⟩, 2⟩} [.v4 ⟨⟨[192, 168, 0, 1], rfl⟩, 2⟩] []] :=
  not_always_of_run (by decide)

end PexSender

end Librtbit
