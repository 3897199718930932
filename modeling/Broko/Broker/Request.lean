import Broko.Broker.Server

/-! What a client asks for: the methods on queues and consumers once their arguments are read, the channels that it
    opens and closes, and the end of its connection. `handle` reads and acts in one go; here the two are apart. -/

namespace Broko.Broker
open Amqp Storage

/-! ### Methods -/

/-- A method of a channel that names a queue or a consumer, with the arguments that its handler reads. --/
inductive Method where
  | queueDeclare (queue : Bytes) (bits : UInt8) (args : FieldTable)
  | queueBind (queue exchange routingKey : Bytes) (bits : UInt8) (args : FieldTable)
  | queueUnbind (queue exchange routingKey : Bytes)
  | queuePurge (queue : Bytes) (bits : UInt8)
  | queueDelete (queue : Bytes) (bits : UInt8)
  | basicConsume (queue consumerTag : Bytes) (bits : UInt8)
  | basicCancel (consumerTag : Bytes) (bits : UInt8)
  | basicGet (queue : Bytes) (bits : UInt8)

namespace Method

def readQueueDeclare : Read Method := do
  let _reserved ← readUint16
  let queue ← readShortString
  let bits ← readUint8
  let args ← readFieldTable 0
  return .queueDeclare queue bits args

def readQueueBind : Read Method := do
  let (queue, exchange, routingKey) ← AmqpServer.readBindArgs
  let bits ← readUint8
  let args ← readFieldTable 0
  return .queueBind queue exchange routingKey bits args

def readQueueUnbind : Read Method := do
  let (queue, exchange, routingKey) ← AmqpServer.readBindArgs
  let _args ← readFieldTable 0
  return .queueUnbind queue exchange routingKey

/-- A method with a queue and a byte of bits. --/
def readOnQueue (method : Bytes → UInt8 → Method) : Read Method := do
  let (queue, bits) ← AmqpServer.readQueueArgs
  return method queue bits

def readBasicConsume : Read Method := do
  let _reserved ← readUint16
  let queue ← readShortString
  let consumerTag ← readShortString
  let bits ← readUint8
  let _args ← readFieldTable 0
  return .basicConsume queue consumerTag bits

def readBasicCancel : Read Method := do
  let consumerTag ← readShortString
  let bits ← readUint8
  return .basicCancel consumerTag bits

/-- The reader for the arguments of a method, if it is one of these. --/
def reader (classId methodId : UInt16) : Option (Read Method) :=
  if classId = class_id.QUEUE then
    if methodId = queue_method.DECLARE then some readQueueDeclare
    else if methodId = queue_method.BIND then some readQueueBind
    else if methodId = queue_method.UNBIND then some readQueueUnbind
    else if methodId = queue_method.PURGE then some (readOnQueue .queuePurge)
    else if methodId = queue_method.DELETE then some (readOnQueue .queueDelete)
    else none
  else if classId = class_id.BASIC then
    if methodId = basic_method.CONSUME then some readBasicConsume
    else if methodId = basic_method.CANCEL then some readBasicCancel
    else if methodId = basic_method.GET then some (readOnQueue .basicGet)
    else none
  else none

def decode (classId methodId : UInt16) (buf : Buffer) : Option Method :=
  match reader classId methodId with
  | none => none
  | some read =>
    match read buf with
    | .error _ => none
    | .ok (m, _) => some m

end Method

/-! ### Requests -/

inductive Request where
  /-- A method on a channel that is open. -/
  | method (c : Nat) (num : UInt16) (m : Method)
  | openChannel (c : Nat) (num : UInt16)
  | closeChannel (c : Nat) (num : UInt16)
  | shutdown (c : Nat)
  | restart
  | other

/-- The request is a method with this property on the channel. --/
def Request.isMethod (c : Nat) (num : UInt16) (p : Method → Bool) : Request → Bool
  | .method c' num' m => c' = c && num' = num && p m
  | _ => false

namespace AmqpServer

variable (c : Nat) (num : UInt16)

/-- What the handler of the method does once it has read the arguments. --/
def act (s : AmqpServer) : Method → AmqpServer
  | .queueDeclare queue bits args =>
    match s.declareQueue queue (hasBit bits 0x01) (hasBit bits 0x02) (hasBit bits 0x04) (hasBit bits 0x08) args c with
    | (.error e, s) => s.sendChannelClose c num e.replyCode e.replyText class_id.QUEUE queue_method.DECLARE
    | (.ok qname, s) =>
      if hasBit bits 0x10 then s
      else s.sendMethodFrame c num class_id.QUEUE queue_method.DECLARE_OK (writeShortString qname ++ s.queueSizes qname)
  | .queueBind queue exchange routingKey bits args =>
    s.reply c num class_id.QUEUE queue_method.BIND queue_method.BIND_OK (hasBit bits 0x01)
      (s.bindQueue queue exchange routingKey args)
  | .queueUnbind queue exchange routingKey =>
    s.reply c num class_id.QUEUE queue_method.UNBIND queue_method.UNBIND_OK false
      (s.unbindQueue queue exchange routingKey)
  | .queuePurge queue bits =>
    match s.queue queue with
    | none => s.sendNoQueue c num queue class_id.QUEUE queue_method.PURGE
    | some q =>
      let s := s.purge queue
      if hasBit bits 0x01 then s
      else s.sendMethodFrame c num class_id.QUEUE queue_method.PURGE_OK (writeUint32 (UInt32.ofNat q.messages.length))
  | .queueDelete queue bits =>
    match s.deleteQueue queue (hasBit bits 0x01) (hasBit bits 0x02) with
    | .error e => s.sendChannelClose c num e.replyCode e.replyText class_id.QUEUE queue_method.DELETE
    | .ok (count, s) =>
      if hasBit bits 0x04 then s
      else s.sendMethodFrame c num class_id.QUEUE queue_method.DELETE_OK (writeUint32 (UInt32.ofNat count))
  | .basicConsume queue consumerTag bits =>
    match s.queue queue, s.channel c num with
    | none, _ => s.sendNoQueue c num queue class_id.BASIC basic_method.CONSUME
    | some _, none => s
    | some _, some ch => s.consume c num ch queue consumerTag bits
  | .basicCancel consumerTag bits =>
    let s := s.cancel c num consumerTag
    if hasBit bits 0x01 then s
    else s.sendMethodFrame c num class_id.BASIC basic_method.CANCEL_OK (writeShortString consumerTag)
  | .basicGet queue bits =>
    match s.queue queue, s.channel c num with
    | none, _ => s.sendNoQueue c num queue class_id.BASIC basic_method.GET
    | some _, none => s
    | some _, some ch =>
      match s.get queue with
      | (none, s) => s.sendMethodFrame c num class_id.BASIC basic_method.GET_EMPTY (writeShortString [])
      | (some r, s) => s.handGet c num ch queue (hasBit bits 0x01) r

/-- What a method frame asks for on a connection that reads it. --/
def methodRequest (s : AmqpServer) (conn : Connection) (buf : Buffer) : Request :=
  match readMethodIds buf with
  | .error _ => .other
  | .ok ((classId, methodId), buf) =>
    if conn.state = .CLOSING then
      if classId = class_id.CONNECTION ∧ methodId = connection_method.CLOSE_OK then .shutdown c else .other
    else if classId = class_id.CONNECTION then
      if num ≠ 0 then .other
      else if methodId = connection_method.CLOSE then
        match readClose buf with
        | .error _ => .other
        | .ok _ => .shutdown c
      else if methodId = connection_method.CLOSE_OK then .shutdown c
      else .other
    else if classId = class_id.CHANNEL ∧ methodId = channel_method.OPEN then
      match readShortString buf with
      | .error _ => .other
      | .ok _ => if num = 0 ∨ conn.channelMax < num then .other else .openChannel c num
    else if classId = class_id.CHANNEL ∧ methodId = channel_method.CLOSE then
      match readClose buf with
      | .error _ => .other
      | .ok _ => .closeChannel c num
    else if classId = class_id.CHANNEL ∧ methodId = channel_method.CLOSE_OK then .closeChannel c num
    else if classId = class_id.CHANNEL ∧ methodId = channel_method.FLOW then .other
    else
      match s.openChannelAt c num with
      | none => .other
      | some _ =>
        match Method.decode classId methodId buf with
        | none => .other
        | some m => .method c num m

/-- What an event asks for. --/
def request (s : AmqpServer) : Event → Request
  | .protocolHeader c header =>
    match s.connection c with
    | none => .other
    | some conn =>
      if conn.reading ∧ conn.state = .AWAITING_PROTOCOL_HEADER ∧ header ≠ PROTOCOL_HEADER then .shutdown c else .other
  | .frame c frame frameEnd =>
    match s.connection c with
    | none => .other
    | some conn =>
      if conn.reading ∧ conn.state ≠ .AWAITING_PROTOCOL_HEADER ∧
          frame.payload.length ≤ effectiveMax conn ∧ frameEnd = FRAME_END ∧ frame.type = FRAME_METHOD then
        s.methodRequest c frame.channel conn (Buffer.ofBytes frame.payload)
      else .other
  | .disconnect c => .shutdown c
  | .restart => .restart
  | _ => .other

end AmqpServer
end Broko.Broker
