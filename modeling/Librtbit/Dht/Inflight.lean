import Librtbit.Dht.Protocol
import Librtbit.Machinery.Run
import Librtbit.Machinery.Table

/-!
# Dht/Inflight — requests that wait for a response

A request takes the next transaction id, enters the sending end of a channel into a table under that
id and the address it goes to, and waits at the other end.  The one who takes the entry out of the
table sends into the channel: the reader, when a response comes from that address with that id, or
the writer, when the request could not be sent.  A request that gets no response in time takes out
its entry itself.

A step is what happens between two points where something else may.  A caller that waits may be
dropped (`cancel`); nothing takes its entry out of the table then.
-/

namespace Librtbit

open Machinery Net

def Net.SocketAddr.isIpv6 : SocketAddr → Bool
  | .v4 _ => false
  | .v6 _ => true

namespace Dht

inductive Request where
  | getPeers (infoHash : Id20)
  | findNode (target : Id20)
  | announce (infoHash : Id20) (token : ByteBuf) (port : UInt16)
  | ping

inductive ResponseOrError where
  | response (r : Response)
  | error (e : ErrorDescription)
  deriving DecidableEq

/-- What a request can fail with. -/
inductive RequestError where
  | dhtDead
  | responseTimeout
  | send
  deriving DecidableEq

/-! ## Transaction ids -/

/-- The bytes of a transaction id. -/
def transactionIdBuf (tid : UInt16) : ByteBuf := [(tid >>> 8).toUInt8, (tid &&& 0xff).toUInt8]

/-- `create_request`, with the transaction id that it takes. -/
def createRequest (id : Id20) (tid : UInt16) (request : Request) (addr : SocketAddr) : Message :=
  let want : Option Want := if addr.isIpv6 then some .v6 else some .v4
  { transactionId := transactionIdBuf tid
    kind :=
      match request with
      | .getPeers infoHash => .getPeersRequest { id, infoHash, want }
      | .findNode target => .findNodeRequest { id, target, want }
      | .ping => .pingRequest { id }
      | .announce infoHash token port =>
        .announcePeer { id, impliedPort := 0, infoHash, port, token } }

def Message.getOurTransactionId (m : Message) : Option UInt16 :=
  match m.transactionId with
  | [a, b] => some ((a.toUInt16 <<< 8) + b.toUInt16)
  | _ => none

/-! ## The table -/

/-- The channel between a request and the one who takes out its entry. -/
inductive Channel where
  | empty
  | sent (r : Except RequestError ResponseOrError)
  /-- The sending end was dropped. -/
  | closed

inductive RequestPhase where
  /-- It has its transaction id. -/
  | created
  /-- Its entry is in the table. -/
  | inserted
  /-- It was handed to the writer. -/
  | waiting
  /-- It has failed, and is to remove its entry. -/
  | removing (e : RequestError)
  | returned (r : Except RequestError ResponseOrError)
  | cancelled
  /-- Nobody waits for a response to an announcement. -/
  | unawaited

structure RequestTask where
  tid : UInt16
  request : Request
  addr : SocketAddr
  phase : RequestPhase := .created
  channel : Channel := .empty

structure WorkerSendRequest where
  ourTid : Option UInt16
  message : Message
  addr : SocketAddr

/-- A response: which packet it was, its id, where it came from, and the request it was sent to. -/
structure Delivery where
  packet : ℕ
  tid : UInt16
  addr : SocketAddr
  answer : ResponseOrError
  request : ℕ

namespace RequestTask

def key (t : RequestTask) : UInt16 × SocketAddr := (t.tid, t.addr)

def withPhase (phase : RequestPhase) (t : RequestTask) : RequestTask := { t with phase }

def withChannel (channel : Channel) (t : RequestTask) : RequestTask := { t with channel }

end RequestTask

/-- The part of `DhtState` that is about requests. -/
structure Inflight where
  id : Id20
  nextTransactionId : UInt16 := 0
  /-- `inflight_by_transaction_id`; the sending end of a channel is the number of its request. -/
  table : Table (UInt16 × SocketAddr) ℕ := ∅
  /-- What the writer has to send. -/
  queue : List WorkerSendRequest := []
  /-- Every request that was created, in this order. -/
  tasks : List RequestTask := []
  packets : ℕ := 0
  delivered : List Delivery := []

inductive InflightStep where
  /-- `request`, once it has passed the rate limiter -/
  | request (request : Request) (addr : SocketAddr)
  /-- A node is told of us after it has responded; `dead` says that there is no writer any more. -/
  | announce (infoHash : Id20) (token : ByteBuf) (port : UInt16) (addr : SocketAddr) (dead : Bool)
  | insert (i : ℕ)
  | send (i : ℕ) (dead : Bool)
  | poll (i : ℕ)
  | timeout (i : ℕ)
  | remove (i : ℕ)
  | cancel (i : ℕ)
  | writer (failed : Bool)
  | onReceivedMessage (msg : Message) (addr : SocketAddr)

namespace Inflight

variable (s : Inflight)

/-- An entry is removed from the table, and what it holds is sent into or dropped. -/
def take (key : UInt16 × SocketAddr) (channel : Channel) : Inflight :=
  match s.table.lookup key with
  | some i =>
    { s with
      table := s.table.erase key
      tasks := s.tasks.modify i (RequestTask.withChannel channel) }
  | none => s

/-- An entry is inserted; what was there before is dropped. -/
def enter (key : UInt16 × SocketAddr) (i : ℕ) : Inflight :=
  let s := s.take key .closed
  { s with table := s.table.insert key i }

def setPhase (i : ℕ) (phase : RequestPhase) : Inflight :=
  { s with tasks := s.tasks.modify i (RequestTask.withPhase phase) }

def pushTask (t : RequestTask) : Inflight :=
  { s with nextTransactionId := s.nextTransactionId + 1, tasks := s.tasks ++ [t] }

def pushQueue (ourTid : Option UInt16) (message : Message) (addr : SocketAddr) : Inflight :=
  { s with queue := s.queue ++ [⟨ourTid, message, addr⟩] }

def onSendError (tid : UInt16) (addr : SocketAddr) : Inflight :=
  s.take (tid, addr) (.sent (.error .send))

/-- A response is sent to the request it is for. -/
def respond (tid : UInt16) (addr : SocketAddr) (answer : ResponseOrError) : Inflight :=
  match s.table.lookup (tid, addr) with
  | some i =>
    let s' := s.take (tid, addr) (.sent (.ok answer))
    { s' with delivered := ⟨s.packets, tid, addr, answer, i⟩ :: s.delivered }
  | none => s

/-- `on_received_message`; a query leaves the requests as they are. -/
def onReceivedMessage (msg : Message) (addr : SocketAddr) : Inflight :=
  match msg.kind, msg.getOurTransactionId with
  | .error e, some tid => s.respond tid addr (.error e)
  | .response r, some tid => s.respond tid addr (.response r)
  | _, _ => s

def new (id : Id20) : Inflight where
  id

def step : InflightStep → Option Inflight
  | .request request addr => some (s.pushTask { tid := s.nextTransactionId, request, addr })
  | .announce infoHash token port addr dead =>
    let request := .announce infoHash token port
    let tid := s.nextTransactionId
    let s := s.pushTask { tid, request, addr, phase := .unawaited, channel := .closed }
    some (if dead then s else s.pushQueue (some tid) (createRequest s.id tid request addr) addr)
  | .insert i =>
    (s.tasks[i]?).bind fun t =>
      match t.phase with
      | .created => some ((s.enter t.key i).setPhase i .inserted)
      | _ => none
  | .send i dead =>
    (s.tasks[i]?).bind fun t =>
      match t.phase with
      | .inserted =>
        if dead then some (s.setPhase i (.removing .dhtDead))
        else
          let s := s.pushQueue (some t.tid) (createRequest s.id t.tid t.request t.addr) t.addr
          some (s.setPhase i .waiting)
      | _ => none
  | .poll i =>
    (s.tasks[i]?).bind fun t =>
      match t.phase, t.channel with
      | .waiting, .sent r => some (s.setPhase i (.returned r))
      | .waiting, .closed => some (s.setPhase i (.removing .dhtDead))
      | _, _ => none
  | .timeout i =>
    (s.tasks[i]?).bind fun t =>
      match t.phase, t.channel with
      | .waiting, .empty => some (s.setPhase i (.removing .responseTimeout))
      | _, _ => none
  | .remove i =>
    (s.tasks[i]?).bind fun t =>
      match t.phase with
      | .removing e => some ((s.take t.key .closed).setPhase i (.returned (.error e)))
      | _ => none
  | .cancel i =>
    (s.tasks[i]?).bind fun t =>
      match t.phase with
      | .waiting => some (s.setPhase i .cancelled)
      | _ => none
  | .writer failed =>
    match s.queue with
    | [] => none
    | r :: queue =>
      let s := { s with queue }
      match r.ourTid, failed with
      | some tid, true => some (s.onSendError tid r.addr)
      | _, _ => some s
  | .onReceivedMessage msg addr =>
    let s' := s.onReceivedMessage msg addr
    some { s' with packets := s.packets + 1 }

end Inflight

end Dht

end Librtbit
