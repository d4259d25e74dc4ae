import Librtbit.Core.HashId

/-!
# Dht/Protocol — the messages of the DHT

A message is a dictionary that says what it is (`y`), which exchange it belongs to (`t`) and, by its
kind, has the name of a method and its arguments (`q` and `a`), a response (`r`) or an error (`e`).

It is written in one go.  It is read twice: first with everything passed over that depends on the
kind, to see what kind it is, and then as a message of that kind.
-/

namespace Librtbit.Dht

open Machinery Bencode Net Bencode.Schema

/-- A type with its `Serialize` and `Deserialize`. -/
structure Codec (α : Type) where
  write : α → ByteBuf
  read : De α

/-- `IgnoredAny` where a message is read, and `()` where it is written: there, it is never there. -/
def Codec.ignored : Codec Unit where
  write _ := []
  read := ignoredAny

/-! ## Parts of messages -/

inductive MessageType where
  | request
  | response
  | error
  deriving DecidableEq

namespace MessageType

def expecting : String := "\"q\", \"e\" or \"r\" bencode string"

def bytes : MessageType → ByteBuf
  | request => ascii "q"
  | response => ascii "r"
  | error => ascii "e"

def serialize (t : MessageType) : ByteBuf := writeBytes t.bytes

def visitBytes (v : ByteBuf) : De MessageType :=
  if v = ascii "q" then return request
  else if v = ascii "r" then return response
  else if v = ascii "e" then return error
  else throw (.invalidValueFor "byte array" expecting)

def deserialize : De MessageType := parseBytes >>= visitBytes

end MessageType

structure ErrorDescription where
  code : Int32
  description : ByteBuf
  deriving DecidableEq

namespace ErrorDescription

def expecting : String := "a list [i32, string]"

def serialize (e : ErrorDescription) : ByteBuf :=
  serializeSeq [serializeI32 e.code, writeBytes e.description]

/-- `visit_seq`. -/
def visitSeq : De ErrorDescription := do
  match ← nextElement deserializeI32 with
  | none => throw (.invalidLengthFor 0 expecting)
  | some code =>
    match ← nextElement parseBytes with
    | none => throw (.invalidLengthFor 1 expecting)
    | some description =>
      -- The type doesn't matter here, we are just making sure the list is over.
      match ← nextElement ignoredAny with
      | some _ => throw (.invalidLengthFor 3 expecting)
      | none => return { code, description }

def deserialize : De ErrorDescription :=
  parseFirstByte 'l'.toUInt8 .invalidValue >>= fun _ => visitSeq

end ErrorDescription

structure Node (A : Type) where
  id : Id20
  addr : A
  deriving DecidableEq

namespace Node

variable {A : Type} [CompactSerialize A]

/-- `from_slice`, for nodes of `len` bytes. -/
def ofSlice (len : ℕ) (buf : ByteBuf) : Option (Node A) :=
  if buf.length = len then
    (Octets.ofSlice 20 (buf.take 20)).bind fun id =>
      (CompactSerialize.fromSlice (buf.drop 20)).map fun addr => { id, addr }
  else none

instance : CompactSerialize (Node SocketAddrV4) where
  expecting := "26 bytes"
  asSlice node := node.id.val ++ CompactSerialize.asSlice node.addr
  fromSlice := ofSlice 26

instance : CompactSerialize (Node SocketAddrV6) where
  expecting := "38 bytes"
  asSlice node := node.id.val ++ CompactSerialize.asSlice node.addr
  fromSlice := ofSlice 38

instance [CompactSerializeFixedLen A] : CompactSerializeFixedLen (Node A) :=
  ⟨20 + CompactSerializeFixedLen.fixedLen A⟩

end Node

abbrev CompactNodeInfo (A : Type) [CompactSerializeFixedLen A] : Type :=
  CompactListInBuffer (Node A)

inductive Want where
  | v4
  | v6
  | both
  | none
  deriving DecidableEq

namespace Want

def items : Want → List ByteBuf
  | v4 => [ascii "n4"]
  | v6 => [ascii "n6"]
  | both => [ascii "n4", ascii "n6"]
  | none => []

def serialize (want : Want) : ByteBuf := serializeSeq (want.items.map writeBytes)

/-- What the items of a list ask for, whatever else is among them. -/
def ofItems (items : List ByteBuf) : Want :=
  match decide (ascii "n4" ∈ items), decide (ascii "n6" ∈ items) with
  | true, true => both
  | true, false => v4
  | false, true => v6
  | false, false => none

def deserialize : De Want := do return ofItems (← deserializeSeq parseBytes)

end Want

/-! ## Arguments and responses -/

/-- The fields of the arguments of requests and of responses.  A field has the same type wherever it
occurs. -/
inductive Field where
  | id
  | target
  | infoHash
  | want
  | values
  | nodes
  | nodes6
  | token
  | v
  | k
  | sig
  | seq
  | impliedPort
  | port
  | salt
  | cas
  deriving DecidableEq

abbrev Field.Ty : Field → Type
  | .id | .target | .infoHash => Id20
  | .want => Want
  | .values => List SocketAddr
  | .nodes => CompactNodeInfo SocketAddrV4
  | .nodes6 => CompactNodeInfo SocketAddrV6
  | .token | .v | .k | .sig | .salt => ByteBuf
  | .seq | .cas => Int64
  | .impliedPort => UInt8
  | .port => UInt16

def body : Schema Field where
  all := [.id, .target, .infoHash, .want, .values, .nodes, .nodes6, .token, .v, .k, .sig, .seq,
    .impliedPort, .port, .salt, .cas]
  name
    | .id => "id"
    | .target => "target"
    | .infoHash => "info_hash"
    | .want => "want"
    | .values => "values"
    | .nodes => "nodes"
    | .nodes6 => "nodes6"
    | .token => "token"
    | .v => "v"
    | .k => "k"
    | .sig => "sig"
    | .seq => "seq"
    | .impliedPort => "implied_port"
    | .port => "port"
    | .salt => "salt"
    | .cas => "cas"
  ty := Field.Ty
  write
    | .id, id | .target, id | .infoHash, id => Id.serialize id
    | .want, want => want.serialize
    | .values, values => serializeSeq (values.map writeCompact)
    | .nodes, nodes => nodes.serialize
    | .nodes6, nodes => nodes.serialize
    | .token, bytes | .v, bytes | .k, bytes | .sig, bytes | .salt, bytes => writeBytes bytes
    | .seq, n | .cas, n => serializeI64 n
    | .impliedPort, n => serializeU8 n
    | .port, n => serializeU16 n
  read
    | .id | .target | .infoHash => Id.deserialize 20
    | .want => Want.deserialize
    | .values => deserializeSeq (readCompact SocketAddr)
    | .nodes => CompactListInBuffer.deserialize (Node SocketAddrV4)
    | .nodes6 => CompactListInBuffer.deserialize (Node SocketAddrV6)
    | .token | .v | .k | .sig | .salt => parseBytes
    | .seq | .cas => deserializeI64
    | .impliedPort => deserializeU8
    | .port => deserializeU16

/-- A struct of some of the fields, in the order of its declaration. -/
structure Struct (α : Type) where
  all : List Field
  fields : α → body.Values
  ofFields : body.Values → Except DeError α

def Struct.codec {α : Type} (s : Struct α) : Codec α where
  write x := (body.only s.all).serialize (restrict (s.fields x))
  read := (body.only s.all).deserialize fun values => s.ofFields (extend values)

structure FindNodeRequest where
  id : Id20
  target : Id20
  want : Option Want := none
  deriving DecidableEq

def FindNodeRequest.struct : Struct FindNodeRequest where
  all := [.id, .target, .want]
  fields req
    | .id => some req.id
    | .target => some req.target
    | .want => req.want
    | _ => none
  ofFields values := do
    return {
      id := ← require values .id
      target := ← require values .target
      want := values .want }

structure Response where
  values : Option (List SocketAddr) := none
  id : Id20
  nodes : Option (CompactNodeInfo SocketAddrV4) := none
  nodes6 : Option (CompactNodeInfo SocketAddrV6) := none
  token : Option ByteBuf := none
  /-- The stored bencoded value. -/
  v : Option ByteBuf := none
  k : Option ByteBuf := none
  sig : Option ByteBuf := none
  seq : Option Int64 := none
  deriving DecidableEq

def Response.struct : Struct Response where
  all := [.values, .id, .nodes, .nodes6, .token, .v, .k, .sig, .seq]
  fields resp
    | .values => resp.values
    | .id => some resp.id
    | .nodes => resp.nodes
    | .nodes6 => resp.nodes6
    | .token => resp.token
    | .v => resp.v
    | .k => resp.k
    | .sig => resp.sig
    | .seq => resp.seq
    | _ => none
  ofFields values := do
    return {
      values := values .values
      id := ← require values .id
      nodes := values .nodes
      nodes6 := values .nodes6
      token := values .token
      v := values .v
      k := values .k
      sig := values .sig
      seq := values .seq }

structure GetPeersRequest where
  id : Id20
  infoHash : Id20
  want : Option Want := none
  deriving DecidableEq

def GetPeersRequest.struct : Struct GetPeersRequest where
  all := [.id, .infoHash, .want]
  fields req
    | .id => some req.id
    | .infoHash => some req.infoHash
    | .want => req.want
    | _ => none
  ofFields values := do
    return {
      id := ← require values .id
      infoHash := ← require values .infoHash
      want := values .want }

structure PingRequest where
  id : Id20
  deriving DecidableEq

def PingRequest.struct : Struct PingRequest where
  all := [.id]
  fields req
    | .id => some req.id
    | _ => none
  ofFields values := do return { id := ← require values .id }

structure AnnouncePeer where
  id : Id20
  impliedPort : UInt8
  infoHash : Id20
  port : UInt16
  token : ByteBuf
  deriving DecidableEq

def AnnouncePeer.struct : Struct AnnouncePeer where
  all := [.id, .impliedPort, .infoHash, .port, .token]
  fields req
    | .id => some req.id
    | .impliedPort => some req.impliedPort
    | .infoHash => some req.infoHash
    | .port => some req.port
    | .token => some req.token
    | _ => none
  ofFields values := do
    return {
      id := ← require values .id
      impliedPort := ← require values .impliedPort
      infoHash := ← require values .infoHash
      port := ← require values .port
      token := ← require values .token }

structure Bep44GetRequest where
  id : Id20
  target : Id20
  seq : Option Int64 := none
  deriving DecidableEq

def Bep44GetRequest.struct : Struct Bep44GetRequest where
  all := [.id, .target, .seq]
  fields req
    | .id => some req.id
    | .target => some req.target
    | .seq => req.seq
    | _ => none
  ofFields values := do
    return {
      id := ← require values .id
      target := ← require values .target
      seq := values .seq }

structure Bep44PutRequest where
  id : Id20
  token : ByteBuf
  k : ByteBuf
  sig : ByteBuf
  seq : Int64
  v : ByteBuf
  salt : Option ByteBuf := none
  cas : Option Int64 := none
  deriving DecidableEq

def Bep44PutRequest.struct : Struct Bep44PutRequest where
  all := [.id, .token, .k, .sig, .seq, .v, .salt, .cas]
  fields req
    | .id => some req.id
    | .token => some req.token
    | .k => some req.k
    | .sig => some req.sig
    | .seq => some req.seq
    | .v => some req.v
    | .salt => req.salt
    | .cas => req.cas
    | _ => none
  ofFields values := do
    return {
      id := ← require values .id
      token := ← require values .token
      k := ← require values .k
      sig := ← require values .sig
      seq := ← require values .seq
      v := ← require values .v
      salt := values .salt
      cas := values .cas }

/-! ## The message around them -/

structure RawMessage (Args Resp : Type) where
  messageType : MessageType
  transactionId : ByteBuf
  error : Option ErrorDescription := none
  response : Option Resp := none
  methodName : Option ByteBuf := none
  arguments : Option Args := none
  version : Option ByteBuf := none
  ip : Option SocketAddr := none
  deriving DecidableEq

namespace RawMessage

inductive Field where
  | messageType
  | transactionId
  | error
  | response
  | methodName
  | arguments
  | version
  | ip
  deriving DecidableEq

abbrev Field.Ty (Args Resp : Type) : Field → Type
  | .messageType => MessageType
  | .transactionId | .methodName | .version => ByteBuf
  | .error => ErrorDescription
  | .response => Resp
  | .arguments => Args
  | .ip => SocketAddr

variable {Args Resp : Type}

def schema (args : Codec Args) (resp : Codec Resp) : Schema Field where
  all := [.messageType, .transactionId, .error, .response, .methodName, .arguments, .version, .ip]
  name
    | .messageType => "y"
    | .transactionId => "t"
    | .error => "e"
    | .response => "r"
    | .methodName => "q"
    | .arguments => "a"
    | .version => "v"
    | .ip => "ip"
  ty := Field.Ty Args Resp
  write
    | .messageType, t => t.serialize
    | .transactionId, bytes | .methodName, bytes | .version, bytes => writeBytes bytes
    | .error, e => e.serialize
    | .response, r => resp.write r
    | .arguments, a => args.write a
    | .ip, addr => writeCompact addr
  read
    | .messageType => MessageType.deserialize
    | .transactionId | .methodName | .version => parseBytes
    | .error => ErrorDescription.deserialize
    | .response => resp.read
    | .arguments => args.read
    | .ip => readCompact SocketAddr

variable (args : Codec Args) (resp : Codec Resp)

def fields (m : RawMessage Args Resp) : (schema args resp).Values
  | .messageType => some m.messageType
  | .transactionId => some m.transactionId
  | .error => m.error
  | .response => m.response
  | .methodName => m.methodName
  | .arguments => m.arguments
  | .version => m.version
  | .ip => m.ip

def ofFields (values : (schema args resp).Values) : Except DeError (RawMessage Args Resp) := do
  return {
    messageType := ← require values .messageType
    transactionId := ← require values .transactionId
    error := values .error
    response := values .response
    methodName := values .methodName
    arguments := values .arguments
    version := values .version
    ip := values .ip }

def serialize (m : RawMessage Args Resp) : ByteBuf :=
  (schema args resp).serialize (m.fields args resp)

def deserialize : De (RawMessage Args Resp) := (schema args resp).deserialize (ofFields args resp)

end RawMessage

/-! ## Messages -/

inductive MessageKind where
  | error (e : ErrorDescription)
  | getPeersRequest (req : GetPeersRequest)
  | findNodeRequest (req : FindNodeRequest)
  | response (resp : Response)
  | pingRequest (req : PingRequest)
  | announcePeer (req : AnnouncePeer)
  | bep44GetRequest (req : Bep44GetRequest)
  | bep44PutRequest (req : Bep44PutRequest)
  deriving DecidableEq

structure Message where
  kind : MessageKind
  transactionId : ByteBuf
  version : Option ByteBuf := none
  ip : Option SocketAddr := none
  deriving DecidableEq

inductive MessageError where
  | bencode (e : ErrorWithContext)
  /-- `unsupported method {:?}` -/
  | unsupportedMethod (method : ByteBuf)
  /-- `cannot deserialize message as request, expected exactly "a" and "q" to be set.
  Message: {de:?}` -/
  | notRequest (de : RawMessage Unit Unit)
  /-- `cannot deserialize message as response, expected exactly "r" to be set. Message: {de:?}` -/
  | notResponse (de : RawMessage Unit Unit)
  /-- `cannot deserialize message as error, expected exactly "e" to be set. Message: {de:?}` -/
  | notError (de : RawMessage Unit Unit)
  deriving DecidableEq

namespace Message

/-! ### Writing -/

def rawError (m : Message) (e : ErrorDescription) : RawMessage Unit Unit where
  messageType := .error
  transactionId := m.transactionId
  error := some e
  version := m.version
  ip := m.ip

def rawResponse (m : Message) (resp : Response) : RawMessage Unit Response where
  messageType := .response
  transactionId := m.transactionId
  response := some resp
  ip := m.ip
  version := m.version

def rawRequest {Args : Type} (m : Message) (methodName : String) (req : Args) :
    RawMessage Args Unit where
  messageType := .request
  transactionId := m.transactionId
  methodName := some (ascii methodName)
  arguments := some req
  ip := m.ip
  version := m.version

def serializeRequest {Args : Type} (m : Message) (args : Struct Args) (methodName : String)
    (req : Args) : ByteBuf :=
  (m.rawRequest methodName req).serialize args.codec .ignored

/-- `serialize_message` -/
def serialize (m : Message) : ByteBuf :=
  match m.kind with
  | .error e => (m.rawError e).serialize .ignored .ignored
  | .getPeersRequest req => m.serializeRequest GetPeersRequest.struct "get_peers" req
  | .findNodeRequest req => m.serializeRequest FindNodeRequest.struct "find_node" req
  | .response resp => (m.rawResponse resp).serialize .ignored Response.struct.codec
  | .pingRequest req => m.serializeRequest PingRequest.struct "ping" req
  | .announcePeer req => m.serializeRequest AnnouncePeer.struct "announce_peer" req
  | .bep44GetRequest req => m.serializeRequest Bep44GetRequest.struct "get" req
  | .bep44PutRequest req => m.serializeRequest Bep44PutRequest.struct "put" req

/-! ### Reading -/

/-- `bencode::from_bytes` of a raw message. -/
def fromBytesRaw {Args Resp : Type} (args : Codec Args) (resp : Codec Resp) (buf : ByteBuf) :
    Outcome MessageError (RawMessage Args Resp) :=
  match fromBytes (RawMessage.deserialize args resp) buf with
  | .ok de => .ok de
  | .error e => .err (.bencode e)

/-- `Option::unwrap`. -/
def unwrap {α : Type} : Option α → Outcome MessageError α
  | some a => .ok a
  | none => .abort .unwrap

/-- The second pass over a message, as one of a kind. -/
def deserializeAs {Args Resp Part : Type} (args : Codec Args) (resp : Codec Resp)
    (part : RawMessage Args Resp → Option Part) (kind : Part → MessageKind) (buf : ByteBuf) :
    Outcome MessageError Message := do
  let de ← fromBytesRaw args resp buf
  let part ← unwrap (part de)
  return {
    transactionId := de.transactionId
    version := de.version
    ip := de.ip
    kind := kind part }

/-- A request of a method that is known. -/
def deserializeRequest {Args : Type} (args : Struct Args) (kind : Args → MessageKind)
    (buf : ByteBuf) : Outcome MessageError Message :=
  deserializeAs args.codec .ignored RawMessage.arguments kind buf

def deserializeMethod (methodName : ByteBuf) (buf : ByteBuf) : Outcome MessageError Message :=
  if methodName = ascii "find_node" then
    deserializeRequest FindNodeRequest.struct .findNodeRequest buf
  else if methodName = ascii "get_peers" then
    deserializeRequest GetPeersRequest.struct .getPeersRequest buf
  else if methodName = ascii "ping" then deserializeRequest PingRequest.struct .pingRequest buf
  else if methodName = ascii "announce_peer" then
    deserializeRequest AnnouncePeer.struct .announcePeer buf
  else if methodName = ascii "get" then
    deserializeRequest Bep44GetRequest.struct .bep44GetRequest buf
  else if methodName = ascii "put" then
    deserializeRequest Bep44PutRequest.struct .bep44PutRequest buf
  else .err (.unsupportedMethod methodName)

/-- What the first pass over a message found out about it. -/
def deserializeKind (de : RawMessage Unit Unit) (buf : ByteBuf) : Outcome MessageError Message :=
  match de.messageType with
  | .request =>
    match de.arguments, de.methodName, de.response, de.error with
    | some _, some methodName, none, none => deserializeMethod methodName buf
    | _, _, _, _ => .err (.notRequest de)
  | .response =>
    -- some peers are sending method name against the protocol, so ignore it.
    match de.arguments, de.response, de.error with
    | none, some _, none =>
      deserializeAs .ignored Response.struct.codec RawMessage.response .response buf
    | _, _, _ => .err (.notResponse de)
  | .error =>
    match de.arguments, de.response, de.error with
    | none, none, some _ =>
      deserializeAs .ignored Response.struct.codec RawMessage.error .error buf
    | _, _, _ => .err (.notError de)

/-- `deserialize_message` -/
def deserialize (buf : ByteBuf) : Outcome MessageError Message := do
  deserializeKind (← fromBytesRaw .ignored .ignored buf) buf

end Message

end Librtbit.Dht
