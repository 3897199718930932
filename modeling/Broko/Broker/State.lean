import Broko.Amqp.Frame
import Broko.Broker.Exchange
import Broko.Lib.Assoc
import Broko.Lib.Heap
import Broko.Storage.MessageStore

/-! The objects of `src/broker` and the state of the server.

    Messages and consumers are shared by `std::shared_ptr` and changed in place, so they live in heaps.
    Queues, exchanges, channels and connections are reached through one map each; a channel carries the
    reference that a `weak_ptr` to it holds. One step of the model is one handler run to its end: a frame,
    a task posted to a connection's strand, a timer.

    Some fields record what has happened and are never read by the model: the `origin` of a message
    object, the messages `enqueued` in a queue, and the `ledger`. -/

namespace Broko.Broker
open Amqp Storage

/-! ### Messages, consumers, queues -/

/-- A message object. The object that `on_deliver` makes for a delivery has the origin of the one that
    was taken from the queue; any other object is its own origin. --/
structure Cell where
  msg : Message := {}
  origin : Ref := 0

instance : Inhabited Cell := ⟨{}⟩

/-- The closure in `Consumer::on_deliver`: the connection whose strand it posts to, the channel object and
    its number, and the queue. --/
structure OnDeliver where
  connection : Nat
  channel_id : UInt16
  channel : Ref
  queue : Bytes
  deriving DecidableEq, Repr

/-- The `id_` of a connection. A connection goes by its number among those accepted; `nextConnectionId_` is a `uint32_t`, so
    the ids come round again, and what is compared or written is always the id. --/
def idOf (c : Nat) : UInt32 := UInt32.ofNat c

example : idOf (2 ^ 32 + 1) = idOf 1 := rfl

structure Consumer where
  tag : Bytes := []
  queue_name : Bytes := []
  no_local : Bool := false
  no_ack : Bool := false
  exclusive : Bool := false
  channel_id : UInt16 := 0
  connection_id : Nat := 0
  prefetch_count : UInt16 := 0
  in_flight : UInt32 := 0
  on_deliver : Option OnDeliver := none
  deriving DecidableEq, Repr, Inhabited

structure MessageQueue where
  name : Bytes
  durable : Bool := false
  exclusive : Bool := false
  auto_delete : Bool := false
  arguments : FieldTable := []
  owner_connection : Nat := 0
  messages : List Ref := []
  consumers : List Ref := []
  roundRobinIdx : Nat := 0
  queueTtlMs : Int := -1
  maxPriority : UInt8 := 0
  dlxExchange : Bytes := []
  dlxRoutingKey : Bytes := []
  /-- Whether `deadLetterFn_` is set; it is always the handler of the virtual host. -/
  deadLetterFn : Bool := false
  /-- The origins of the messages that were enqueued. -/
  enqueued : List Ref := []

/-! ### Channels and connections -/

structure PendingPublish where
  exchange : Bytes := []
  routing_key : Bytes := []
  mandatory : Bool := false
  immediate : Bool := false
  bodySize : UInt64 := 0
  bodyReceived : Nat := 0
  properties : BasicProperties := {}
  body : Bytes := []

structure UnackedMessage where
  message : Ref
  queue_name : Bytes
  consumer : Option Ref

/-- A channel. Its `id_` and `connectionId_` are the keys that it is found under. --/
structure Channel where
  /-- The identity of the object, for `weak_from_this`. -/
  ref : Ref
  frameMax : UInt32
  isOpen : Bool := false
  confirmMode : Bool := false
  nextDeliveryTag : Nat := 1
  nextConfirmSeqNo : Nat := 1
  prefetchCount : UInt16 := 0
  prefetchSize : UInt32 := 0
  consumers : Assoc Bytes Ref := ∅
  consumerTagCounter : Nat := 0
  pendingPublish : Option PendingPublish := none
  unackedMessages : Assoc Nat UnackedMessage := ∅

/-- A task posted by `on_deliver`, with what its closure captured. --/
structure DeliverTask where
  channel_id : UInt16
  channel : Ref
  tag : Bytes
  exchange : Bytes
  routingKey : Bytes
  redelivered : Bool
  props : BasicProperties
  body : Bytes
  queue : Bytes
  msg : Ref

/-- What goes into `writeQueue_`: a frame, or the protocol header that answers a wrong one. --/
inductive Outgoing where
  | frame (f : Frame)
  | protocolHeader
  deriving DecidableEq, Repr

inductive State where
  | AWAITING_PROTOCOL_HEADER
  | AWAITING_START_OK
  | AWAITING_TUNE_OK
  | AWAITING_OPEN
  | OPEN
  | CLOSING
  | CLOSED
  deriving DecidableEq, Repr

/-- A connection. Its `id_` is the key that it is found under. --/
structure Connection where
  state : State := .AWAITING_PROTOCOL_HEADER
  channelMax : UInt16 := 2047
  frameMax : UInt32 := 131072
  heartbeatInterval : UInt16 := 60
  channels : Assoc UInt16 Channel := ∅
  authUser : Bytes := []
  /-- Whether a read is outstanding; after an error the connection does not start another one. -/
  reading : Bool := true
  /-- The tasks posted to the strand, oldest first. -/
  strand : List DeliverTask := []
  /-- What was put into `writeQueue_`. -/
  sent : List Outgoing := []

/-! ### The server -/

/-- `UserStore`: the users of the file, if one was loaded. --/
structure UserStore where
  users : List (Bytes × Bytes) := []
  loaded : Bool := false

/-- What has happened to a message, by its origin and the queue. --/
inductive Fact where
  /-- `storeMessage` wrote the record with this id. -/
  | stored (origin : Ref) (queue : Bytes) (id : UInt64)
  /-- A client acked it, or rejected it without requeue. -/
  | settled (origin : Ref) (queue : Bytes)
  /-- It was purged, it expired, or it was handed to a receiver that does not ack. -/
  | removed (origin : Ref) (queue : Bytes)
  deriving DecidableEq, Repr

/-- The state of the process: `AmqpServer` with its `VirtualHost` and `MessageStore`. --/
structure AmqpServer where
  store : Option MessageStore := none
  userStore : UserStore := {}
  exchanges : Assoc Bytes Exchange := ∅
  queues : Assoc Bytes MessageQueue := ∅
  connections : Assoc Nat Connection := ∅
  nextConnectionId : Nat := 1
  /-- The counter of `generateQueueName`. -/
  nameCounter : UInt64 := 0
  heap : Heap Cell := Heap.empty
  consumerHeap : Heap Consumer := Heap.empty
  nextChannel : Ref := 0
  /-- The readings of `steady_clock`, and how many were taken. -/
  clock : Nat → Int := fun _ => 0
  readings : Nat := 0
  ledger : List Fact := []

namespace AmqpServer

def message (s : AmqpServer) (r : Ref) : Message := (s.heap.cell r).msg

def origin (s : AmqpServer) (r : Ref) : Ref := (s.heap.cell r).origin

def consumer (s : AmqpServer) (r : Ref) : Consumer := s.consumerHeap.cell r

def queue (s : AmqpServer) (name : Bytes) : Option MessageQueue := s.queues.lookup name

def connection (s : AmqpServer) (c : Nat) : Option Connection := s.connections.lookup c

def channel (s : AmqpServer) (c : Nat) (num : UInt16) : Option Channel :=
  (s.connection c).bind fun conn => conn.channels.lookup num

def modifyMessage (s : AmqpServer) (r : Ref) (f : Message → Message) : AmqpServer :=
  { s with heap := s.heap.modify r fun x => { x with msg := f x.msg } }

def modifyConsumer (s : AmqpServer) (r : Ref) (f : Consumer → Consumer) : AmqpServer :=
  { s with consumerHeap := s.consumerHeap.modify r f }

def modifyQueue (s : AmqpServer) (name : Bytes) (f : MessageQueue → MessageQueue) : AmqpServer :=
  { s with queues := s.queues.modify name f }

def modifyConnection (s : AmqpServer) (c : Nat) (f : Connection → Connection) : AmqpServer :=
  { s with connections := s.connections.modify c f }

def modifyChannel (s : AmqpServer) (c : Nat) (num : UInt16) (f : Channel → Channel) : AmqpServer :=
  s.modifyConnection c fun conn => { conn with channels := conn.channels.modify num f }

/-- A new message object that is its own origin, at reference `s.heap.size`. --/
def newMessage (s : AmqpServer) (m : Message) : AmqpServer :=
  { s with heap := s.heap.alloc { msg := m, origin := s.heap.size } }

/-- A new message object for a delivery of `r`. --/
def newDelivery (s : AmqpServer) (r : Ref) (m : Message) : AmqpServer :=
  { s with heap := s.heap.alloc { msg := m, origin := s.origin r } }

def now (s : AmqpServer) : Int := s.clock s.readings

def readClock (s : AmqpServer) : AmqpServer := { s with readings := s.readings + 1 }

def record (s : AmqpServer) (facts : List Fact) : AmqpServer := { s with ledger := s.ledger ++ facts }

/-- `AmqpConnection::sendFrame`. --/
def send (s : AmqpServer) (c : Nat) (out : Outgoing) : AmqpServer :=
  s.modifyConnection c fun conn => { conn with sent := conn.sent ++ [out] }

def sendFrame (s : AmqpServer) (c : Nat) (frame : Frame) : AmqpServer := s.send c (.frame frame)

/-- Writes to the log, if there is a store. --/
def modifyStore (s : AmqpServer) (f : MessageStore → MessageStore) : AmqpServer := { s with store := s.store.map f }

end AmqpServer
end Broko.Broker
