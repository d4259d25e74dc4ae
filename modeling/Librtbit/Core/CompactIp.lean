import Librtbit.Bencode.Serializer
import Librtbit.Machinery.BigEndian
import Librtbit.Machinery.Slices

/-!
# Core/CompactIp — addresses as bytes

The compact form of an address is its octets, followed by the port in big-endian order if it has
one.  It is what goes over the wire, alone (`Compact`) or many of the same length in one byte string
(`CompactListInBuffer`).

The compact form of an IPv6 socket address leaves out its flow information and scope id, so only
an address where both are zero is read back (`SocketAddrV6.fromSlice_asSlice`).
-/

namespace Librtbit

open Machinery Bencode List

/-- `[u8; N]`. -/
abbrev Octets (n : ℕ) : Type := { bytes : ByteBuf // bytes.length = n }

/-- A slice as an array of its length. -/
def Octets.ofSlice (n : ℕ) (buf : ByteBuf) : Option (Octets n) :=
  if h : buf.length = n then some ⟨buf, h⟩ else none

@[simp] lemma Octets.ofSlice_val {n} (octets : Octets n) :
    Octets.ofSlice n octets.val = some octets := by
  rw [ofSlice, dif_pos octets.property]

/-- `u16::to_be_bytes`. -/
def portBytes (port : UInt16) : ByteBuf := beBytes 2 port.toNat

/-- `u16::from_be_bytes`. -/
def portOfBytes (bytes : ByteBuf) : UInt16 := UInt16.ofNat (beNat bytes)

@[simp] lemma length_portBytes (port : UInt16) : (portBytes port).length = 2 := length_beBytes _ _

@[simp] lemma portOfBytes_portBytes (port : UInt16) : portOfBytes (portBytes port) = port := by
  rw [portOfBytes, portBytes, beNat_beBytes_of_lt port.toNat_lt, UInt16.ofNat_toNat]

namespace Net

structure Ipv4Addr where
  octets : Octets 4
  deriving DecidableEq

/-- `Ipv4Addr::new`. -/
def Ipv4Addr.new (a b c d : UInt8) : Ipv4Addr := ⟨⟨[a, b, c, d], rfl⟩⟩

structure Ipv6Addr where
  octets : Octets 16
  deriving DecidableEq

inductive IpAddr where
  | v4 (ip : Ipv4Addr)
  | v6 (ip : Ipv6Addr)
  deriving DecidableEq

structure SocketAddrV4 where
  ip : Ipv4Addr
  port : UInt16
  deriving DecidableEq

structure SocketAddrV6 where
  ip : Ipv6Addr
  port : UInt16
  flowinfo : UInt32
  scopeId : UInt32
  deriving DecidableEq

inductive SocketAddr where
  | v4 (addr : SocketAddrV4)
  | v6 (addr : SocketAddrV6)
  deriving DecidableEq

namespace SocketAddr

/-- `SocketAddr::new`. -/
def new (ip : IpAddr) (port : UInt16) : SocketAddr :=
  match ip with
  | .v4 ip => .v4 ⟨ip, port⟩
  | .v6 ip => .v6 ⟨ip, port, 0, 0⟩

def ip : SocketAddr → IpAddr
  | .v4 addr => .v4 addr.ip
  | .v6 addr => .v6 addr.ip

def port : SocketAddr → UInt16
  | .v4 addr => addr.port
  | .v6 addr => addr.port

/-- An address that its ip address and port make up. -/
def Plain : SocketAddr → Prop
  | .v4 _ => True
  | .v6 addr => addr.flowinfo = 0 ∧ addr.scopeId = 0

instance : DecidablePred Plain
  | .v4 _ => inferInstanceAs (Decidable True)
  | .v6 _ => inferInstanceAs (Decidable (_ ∧ _))

/-- **An address is made of its ip address and port exactly when it is plain.** -/
theorem new_eq_self_iff (addr : SocketAddr) : new addr.ip addr.port = addr ↔ addr.Plain := by
  cases addr with
  | v4 addr => exact ⟨fun _ => trivial, fun _ => rfl⟩
  | v6 addr =>
    obtain ⟨ip, port, flowinfo, scopeId⟩ := addr
    constructor
    · intro h
      injection h with h
      injection h with _ _ hflow hscope
      exact ⟨hflow.symm, hscope.symm⟩
    · rintro ⟨hflow, hscope⟩
      dsimp only at hflow hscope
      rw [hflow, hscope]
      rfl

lemma plain_new (ip : IpAddr) (port : UInt16) : (new ip port).Plain := by
  cases ip with
  | v4 ip => trivial
  | v6 ip => exact ⟨rfl, rfl⟩

end SocketAddr

end Net

/-! ## The compact form -/

open Net

class CompactSerialize (T : Type) where
  expecting : String
  asSlice : T → ByteBuf
  fromSlice : ByteBuf → Option T

class CompactSerializeFixedLen (T : Type) where
  fixedLen : ℕ

open CompactSerialize CompactSerializeFixedLen

instance : CompactSerialize Ipv4Addr where
  expecting := "4 bytes for IPv4"
  asSlice ip := ip.octets.val
  fromSlice buf := (Octets.ofSlice 4 (buf.take 4)).map Ipv4Addr.mk

instance : CompactSerialize Ipv6Addr where
  expecting := "16 bytes for IPv6"
  asSlice ip := ip.octets.val
  fromSlice buf := (Octets.ofSlice 16 (buf.take 16)).map Ipv6Addr.mk

instance : CompactSerialize IpAddr where
  expecting := "16 bytes for IPv6 or 4 bytes for IPv4"
  asSlice
    | .v4 ip => asSlice ip
    | .v6 ip => asSlice ip
  fromSlice buf :=
    if buf.length = 4 then (fromSlice buf).map IpAddr.v4
    else if buf.length = 16 then (fromSlice buf).map IpAddr.v6
    else none

instance : CompactSerialize SocketAddrV4 where
  expecting := "6 bytes for SocketAddrV4"
  asSlice addr := asSlice addr.ip ++ portBytes addr.port
  fromSlice buf :=
    if buf.length = 6 then
      (fromSlice (buf.take 4)).map fun ip => ⟨ip, portOfBytes (buf.drop 4)⟩
    else none

instance : CompactSerialize SocketAddrV6 where
  expecting := "18 bytes for SocketAddrV6"
  asSlice addr := asSlice addr.ip ++ portBytes addr.port
  fromSlice buf :=
    if buf.length = 18 then
      (fromSlice (buf.take 16)).map fun ip => ⟨ip, portOfBytes (buf.drop 16), 0, 0⟩
    else none

instance : CompactSerialize SocketAddr where
  expecting := "18 bytes for SocketAddrV6 or 6 bytes for SocketAddrV4"
  asSlice addr := asSlice addr.ip ++ portBytes addr.port
  fromSlice buf :=
    if buf.length = 6 then (fromSlice buf).map SocketAddr.v4
    else if buf.length = 18 then (fromSlice buf).map SocketAddr.v6
    else none

instance : CompactSerializeFixedLen SocketAddrV4 := ⟨6⟩

instance : CompactSerializeFixedLen SocketAddrV6 := ⟨18⟩

/-! ## Reading back -/

@[simp] lemma Net.Ipv4Addr.length_asSlice (ip : Ipv4Addr) : (asSlice ip).length = 4 :=
  ip.octets.property

@[simp] lemma Net.Ipv6Addr.length_asSlice (ip : Ipv6Addr) : (asSlice ip).length = 16 :=
  ip.octets.property

@[simp] lemma Net.Ipv4Addr.fromSlice_asSlice (ip : Ipv4Addr) :
    fromSlice (asSlice ip) = some ip := by
  have htake : ip.octets.val.take 4 = ip.octets.val :=
    take_of_length_le ip.octets.property.le
  show (Octets.ofSlice 4 (ip.octets.val.take 4)).map Ipv4Addr.mk = some ip
  rw [htake, Octets.ofSlice_val]
  rfl

@[simp] lemma Net.Ipv6Addr.fromSlice_asSlice (ip : Ipv6Addr) :
    fromSlice (asSlice ip) = some ip := by
  have htake : ip.octets.val.take 16 = ip.octets.val :=
    take_of_length_le ip.octets.property.le
  show (Octets.ofSlice 16 (ip.octets.val.take 16)).map Ipv6Addr.mk = some ip
  rw [htake, Octets.ofSlice_val]
  rfl

@[simp] lemma Net.IpAddr.fromSlice_asSlice (ip : IpAddr) : fromSlice (asSlice ip) = some ip := by
  cases ip with
  | v4 ip =>
    show (if (asSlice ip).length = 4 then (fromSlice (asSlice ip)).map IpAddr.v4 else _) = _
    rw [if_pos ip.length_asSlice, ip.fromSlice_asSlice]
    rfl
  | v6 ip =>
    show (if (asSlice ip).length = 4 then _ else if (asSlice ip).length = 16 then
      (fromSlice (asSlice ip)).map IpAddr.v6 else _) = _
    rw [if_neg (by simp), if_pos ip.length_asSlice, ip.fromSlice_asSlice]
    rfl

variable (addr : SocketAddrV4)

lemma Net.SocketAddrV4.asSlice_eq :
    asSlice addr = asSlice addr.ip ++ portBytes addr.port := rfl

lemma Net.SocketAddrV6.asSlice_eq (addr : SocketAddrV6) :
    asSlice addr = asSlice addr.ip ++ portBytes addr.port := rfl

@[simp] lemma Net.SocketAddrV4.length_asSlice :
    (asSlice addr).length = 6 := by
  rw [asSlice_eq, length_append, Ipv4Addr.length_asSlice, length_portBytes]

@[simp] lemma Net.SocketAddrV6.length_asSlice (addr : SocketAddrV6) :
    (asSlice addr).length = 18 := by
  rw [asSlice_eq, length_append, Ipv6Addr.length_asSlice, length_portBytes]

lemma Net.SocketAddrV4.fromSlice_asSlice :
    fromSlice (asSlice addr) = some addr := by
  show (if (asSlice addr).length = 6 then _ else none) = some addr
  rw [if_pos addr.length_asSlice, asSlice_eq, take_left' addr.ip.length_asSlice,
    drop_left' addr.ip.length_asSlice, addr.ip.fromSlice_asSlice, portOfBytes_portBytes]
  rfl

/-- **The compact form drops the flow information and the scope id.** -/
theorem Net.SocketAddrV6.fromSlice_asSlice (addr : SocketAddrV6) :
    fromSlice (asSlice addr) = some { addr with flowinfo := 0, scopeId := 0 } := by
  show (if (asSlice addr).length = 18 then _ else none) = _
  rw [if_pos addr.length_asSlice, asSlice_eq, take_left' addr.ip.length_asSlice,
    drop_left' addr.ip.length_asSlice, addr.ip.fromSlice_asSlice, portOfBytes_portBytes]
  rfl

/-- **A socket address is read back as its ip address and port.** -/
theorem Net.SocketAddr.fromSlice_asSlice (addr : SocketAddr) :
    fromSlice (asSlice addr) = some (SocketAddr.new addr.ip addr.port) := by
  cases addr with
  | v4 addr =>
    show (if (asSlice addr).length = 6 then (fromSlice (asSlice addr)).map SocketAddr.v4 else _) = _
    rw [if_pos addr.length_asSlice, addr.fromSlice_asSlice]
    rfl
  | v6 addr =>
    show (if (asSlice addr).length = 6 then _ else if (asSlice addr).length = 18 then
      (fromSlice (asSlice addr)).map SocketAddr.v6 else _) = _
    rw [if_neg (by simp), if_pos addr.length_asSlice, addr.fromSlice_asSlice]
    rfl

/-! ## In bencode -/

section Compact

variable {T : Type} [CompactSerialize T]

/-- `Compact::serialize`. -/
def writeCompact (x : T) : ByteBuf := writeBytes (asSlice x)

/-- `Compact::deserialize`. -/
def readCompact (T : Type) [CompactSerialize T] : De T := do
  match fromSlice (← parseBytes) with
  | some x => return x
  | none => throw (.custom (expecting T))

lemma reads_readCompact {x} (hlen : (writeCompact x).length < 2 ^ 64)
    (h : fromSlice (asSlice x) = some x) : Reads (readCompact T) (writeCompact x) x := by
  refine (reads_writeBytes hlen).bind_nil ?_
  rw [h]
  exact Reads.pure x

end Compact

section CompactList

/-- A list of addresses of one length, in one byte string. -/
structure CompactListInBuffer (T : Type) [CompactSerializeFixedLen T] where
  buf : ByteBuf
  whole : buf.length % fixedLen T = 0
  deriving DecidableEq

namespace CompactListInBuffer

variable {T : Type} [CompactSerialize T] [CompactSerializeFixedLen T]

def serialize (l : CompactListInBuffer T) : ByteBuf := writeBytes l.buf

def deserialize (T : Type) [CompactSerialize T] [CompactSerializeFixedLen T] :
    De (CompactListInBuffer T) := do
  let buf ← parseBytes
  if h : buf.length % fixedLen T = 0 then return ⟨buf, h⟩
  else throw (.custom ("invalid length " ++ toString buf.length ++
    ", expected an exact multiple of [" ++ expecting T ++ "]"))

lemma reads_deserialize {l} (hlen : l.serialize.length < 2 ^ 64) :
    Reads (deserialize T) l.serialize l := by
  refine (reads_writeBytes hlen).bind_nil ?_
  rw [dif_pos l.whole]
  exact Reads.pure l

/-! ### Reading the items -/

/-- `new_from_iter` -/
def newFromIter (hlen : ∀ x : T, (asSlice x).length = fixedLen T) (it : List T) :
    CompactListInBuffer T where
  buf := it.flatMap asSlice
  whole := by
    rw [length_flatMap, funext hlen, map_const', sum_replicate, smul_eq_mul]
    exact Nat.mul_mod_left _ _

def isEmpty (l : CompactListInBuffer T) : Bool := l.buf.isEmpty

def iter (l : CompactListInBuffer T) : List T :=
  (chunksExact (fixedLen T) l.buf).filterMap fromSlice

/-- **Each address of a list is read back on its own.** -/
theorem iter_newFromIter (hlen : ∀ x : T, (asSlice x).length = fixedLen T) (hpos : 0 < fixedLen T)
    (it : List T) : (newFromIter hlen it).iter = it.filterMap fun x => fromSlice (asSlice x) := by
  rw [iter, newFromIter, chunksExact_flatMap hpos hlen, filterMap_map]
  rfl

def get (l : CompactListInBuffer T) (idx : ℕ) : Option T :=
  let offset := idx * fixedLen T
  if offset + fixedLen T ≤ l.buf.length then fromSlice ((l.buf.drop offset).take (fixedLen T))
  else none

/-- A list that is left out if it is empty. -/
def ofNonempty (l : CompactListInBuffer T) : Option (CompactListInBuffer T) :=
  if l.isEmpty then none else some l

end CompactListInBuffer

end CompactList

end Librtbit
