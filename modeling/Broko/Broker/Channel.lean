import Broko.Broker.VHost

/-! `src/broker/channel.h` and `src/broker/channel.cpp`: the methods of a channel, publishing, delivery and
    settlement. The channel with number `num` of connection `c` is meant throughout. -/

namespace Broko.Broker
open Amqp Storage

/-- How a handler ends: it returns, or it throws out of the state that it has got to. --/
abbrev Outcome := Except AmqpServer AmqpServer

/-- `bits & mask`. --/
def hasBit (bits mask : UInt8) : Bool := bits &&& mask != 0

def MAX_BODY_SIZE : Nat := 128 * 1024 * 1024

/-! ### Outgoing content -/

/-- The body cut into pieces of at most `maxBodyPayload` bytes, by the `do` loop: at least one piece. --/
def bodyChunks (maxBodyPayload : Nat) : Nat → Bytes → List Bytes
  | 0, _ => []
  | turns + 1, body =>
    body.take maxBodyPayload ::
      if body.length ≤ maxBodyPayload then [] else bodyChunks maxBodyPayload turns (body.drop maxBodyPayload)

/-- The frames of `sendContentFrames`. --/
def contentFrames (id classId : UInt16) (frameMax : UInt32) (props : BasicProperties) (body : Bytes) : List Frame :=
  let header : Frame :=
    { type := FRAME_HEADER, channel := id,
      payload := writeUint16 classId ++ writeUint16 0 ++ writeUint64 (UInt64.ofNat body.length) ++ props.encode }
  let maxBodyPayload := if 8 < frameMax.toNat then frameMax.toNat - 8 else 131064
  let bodyFrame (chunk : Bytes) : Frame := { type := FRAME_BODY, channel := id, payload := chunk }
  header :: ((bodyChunks maxBodyPayload (body.length + 1) body).map bodyFrame ++
    if body = [] then [bodyFrame []] else [])

namespace AmqpServer

variable (c : Nat) (num : UInt16)

def sendMethodFrame (s : AmqpServer) (classId methodId : UInt16) (args : Bytes) : AmqpServer :=
  s.sendFrame c (methodFrame num classId methodId args)

def sendContentFrames (s : AmqpServer) (classId : UInt16) (props : BasicProperties) (body : Bytes) : AmqpServer :=
  match s.channel c num with
  | none => s
  | some ch => (contentFrames num classId ch.frameMax props body).foldl (fun s f => s.sendFrame c f) s

def sendChannelClose (s : AmqpServer) (replyCode : UInt16) (replyText : Bytes) (classId methodId : UInt16) :
    AmqpServer :=
  s.sendMethodFrame c num class_id.CHANNEL channel_method.CLOSE
    (writeUint16 replyCode ++ writeShortString replyText ++ writeUint16 classId ++ writeUint16 methodId)

/-- Reads the arguments of a method and goes on with them; a read that fails throws before anything is
    changed. --/
def withArgs {α : Type} (read : Read α) (buf : Buffer) (s : AmqpServer) (k : α → AmqpServer) : Outcome :=
  match read buf with
  | .error _ => .error s
  | .ok (args, _) => .ok (k args)

/-! ### Publishing -/

def setPending (s : AmqpServer) (p : Option PendingPublish) : AmqpServer :=
  s.modifyChannel c num fun ch => { ch with pendingPublish := p }

/-- `copy->wal_id = store()->storeMessage(qname, copy)`. --/
def storeMessage (s : AmqpServer) (qname : Bytes) (r : Ref) : AmqpServer :=
  match s.store with
  | none => s
  | some st =>
    let (id, st) := st.storeMessage qname (s.message r)
    (({ s with store := some st }).modifyMessage r fun m => { m with wal_id := id }).record
      [.stored (s.origin r) qname id]

/-- One turn of the loop over the queues that a message is routed to. `msg` is copied for each of them if
    there are several. --/
def publishTo (several : Bool) (msg : Ref) (s : AmqpServer) (qname : Bytes) : AmqpServer :=
  let copy := if several then s.heap.size else msg
  let s := if several then s.newMessage (s.message msg) else s
  let s :=
    match s.queue qname with
    | none => s
    | some q => if (s.message copy).isPersistent && q.durable then s.storeMessage qname copy else s
  s.deliverToQueue qname copy

/-- The message that is built from a complete publish. --/
def messageOf (c : Nat) (p : PendingPublish) : Message :=
  { exchange := p.exchange, routing_key := p.routing_key, mandatory := p.mandatory, immediate := p.immediate,
    properties := p.properties, body := p.body, source_connection_id := c }

def sendReturn (s : AmqpServer) (m : Message) : AmqpServer :=
  (s.sendMethodFrame c num class_id.BASIC basic_method.RETURN
    (writeUint16 reply_code.NO_ROUTE ++ writeShortString (ascii "NO_ROUTE") ++ writeShortString m.exchange ++
      writeShortString m.routing_key)).sendContentFrames c num class_id.BASIC m.properties m.body

/-- `if (confirmMode_)`: the ack of a publish. --/
def sendConfirm (s : AmqpServer) : AmqpServer :=
  match s.channel c num with
  | none => s
  | some ch =>
    if ch.confirmMode then
      (s.modifyChannel c num fun ch => { ch with nextConfirmSeqNo := ch.nextConfirmSeqNo + 1 }).sendMethodFrame c num
        class_id.BASIC basic_method.ACK (writeUint64 (UInt64.ofNat ch.nextConfirmSeqNo) ++ writeUint8 0)
    else s

def publish (s : AmqpServer) (p : PendingPublish) : AmqpServer :=
  let m := messageOf c p
  let msg := s.heap.size
  let s := s.newMessage m
  let queues := s.routeMessage m.exchange m.routing_key m.properties.headers
  let s :=
    if queues = [] ∧ m.mandatory then s.sendReturn c num m
    else queues.foldl (publishTo (decide (1 < queues.length)) msg) s
  (s.sendConfirm c num).setPending c num none

def handleContentBody (s : AmqpServer) (data : Bytes) : AmqpServer :=
  match (s.channel c num).bind Channel.pendingPublish with
  | none => s
  | some p =>
    let p := { p with body := p.body ++ data, bodyReceived := p.bodyReceived + data.length }
    let s := s.setPending c num (some p)
    if p.bodySize.toNat ≤ p.bodyReceived then s.publish c num p else s

def readContentHeader : Read UInt64 := do
  let _classId ← readUint16
  let _weight ← readUint16
  readUint64

def handleContentHeader (s : AmqpServer) (buf : Buffer) : Outcome :=
  match (s.channel c num).bind Channel.pendingPublish with
  | none => .ok s
  | some p =>
    match readContentHeader buf with
    | .error _ => .error s
    | .ok (bodySize, buf) =>
      let p := { p with bodySize }
      if MAX_BODY_SIZE < bodySize.toNat then
        .ok ((s.setPending c num none).sendChannelClose c num reply_code.CONTENT_TOO_LARGE
          (ascii "Message body exceeds maximum size") class_id.BASIC basic_method.PUBLISH)
      else
        match BasicProperties.decode buf with
        | .error _ => .error (s.setPending c num (some p))
        | .ok (properties, _) =>
          let s := s.setPending c num (some { p with properties })
          .ok (if bodySize = 0 then s.handleContentBody c num [] else s)

/-! ### Exchange methods -/

/-- What the handlers of requests to the virtual host do with its answer. --/
def reply (s : AmqpServer) (classId methodId okId : UInt16) (noWait : Bool) (answer : Except Refusal AmqpServer) :
    AmqpServer :=
  match answer with
  | .error e => s.sendChannelClose c num e.replyCode e.replyText classId methodId
  | .ok s => if noWait then s else s.sendMethodFrame c num classId okId []

def handleExchangeDeclare (s : AmqpServer) (buf : Buffer) : Outcome :=
  withArgs (do
    let _reserved ← readUint16
    let exchange ← readShortString
    let type ← readShortString
    let bits ← readUint8
    let args ← readFieldTable 0
    return (exchange, type, bits, args)) buf s fun (exchange, type, bits, args) =>
    let passive := hasBit bits 0x01
    let type := if type = [] ∧ passive = false then ascii "direct" else type
    s.reply c num class_id.EXCHANGE exchange_method.DECLARE exchange_method.DECLARE_OK (hasBit bits 0x10)
      (s.declareExchange exchange type passive (hasBit bits 0x02) (hasBit bits 0x04) (hasBit bits 0x08) args)

def handleExchangeDelete (s : AmqpServer) (buf : Buffer) : Outcome :=
  withArgs (do
    let _reserved ← readUint16
    let exchange ← readShortString
    let bits ← readUint8
    return (exchange, bits)) buf s fun (exchange, bits) =>
    s.reply c num class_id.EXCHANGE exchange_method.DELETE exchange_method.DELETE_OK (hasBit bits 0x02)
      (s.deleteExchange exchange)

/-! ### Queue methods -/

def queueSizes (s : AmqpServer) (name : Bytes) : Bytes :=
  match s.queue name with
  | none => []
  | some q => writeUint32 (UInt32.ofNat q.messages.length) ++ writeUint32 (UInt32.ofNat q.consumers.length)

def handleQueueDeclare (s : AmqpServer) (buf : Buffer) : Outcome :=
  withArgs (do
    let _reserved ← readUint16
    let queue ← readShortString
    let bits ← readUint8
    let args ← readFieldTable 0
    return (queue, bits, args)) buf s fun (queue, bits, args) =>
    match s.declareQueue queue (hasBit bits 0x01) (hasBit bits 0x02) (hasBit bits 0x04) (hasBit bits 0x08) args c with
    | (.error e, s) => s.sendChannelClose c num e.replyCode e.replyText class_id.QUEUE queue_method.DECLARE
    | (.ok qname, s) =>
      if hasBit bits 0x10 then s
      else s.sendMethodFrame c num class_id.QUEUE queue_method.DECLARE_OK (writeShortString qname ++ s.queueSizes qname)

def readBindArgs : Read (Bytes × Bytes × Bytes) := do
  let _reserved ← readUint16
  let queue ← readShortString
  let exchange ← readShortString
  let routingKey ← readShortString
  return (queue, exchange, routingKey)

def handleQueueBind (s : AmqpServer) (buf : Buffer) : Outcome :=
  withArgs (do
    let (queue, exchange, routingKey) ← readBindArgs
    let bits ← readUint8
    let args ← readFieldTable 0
    return (queue, exchange, routingKey, bits, args)) buf s fun (queue, exchange, routingKey, bits, args) =>
    s.reply c num class_id.QUEUE queue_method.BIND queue_method.BIND_OK (hasBit bits 0x01)
      (s.bindQueue queue exchange routingKey args)

def handleQueueUnbind (s : AmqpServer) (buf : Buffer) : Outcome :=
  withArgs (do
    let (queue, exchange, routingKey) ← readBindArgs
    let _args ← readFieldTable 0
    return (queue, exchange, routingKey)) buf s fun (queue, exchange, routingKey) =>
    s.reply c num class_id.QUEUE queue_method.UNBIND queue_method.UNBIND_OK false
      (s.unbindQueue queue exchange routingKey)

/-- A queue and a byte of bits, as purge, delete and get take them. --/
def readQueueArgs : Read (Bytes × UInt8) := do
  let _reserved ← readUint16
  let queue ← readShortString
  let bits ← readUint8
  return (queue, bits)

/-- The channel close of a method that names a queue that is not there. --/
def sendNoQueue (s : AmqpServer) (queue : Bytes) (classId methodId : UInt16) : AmqpServer :=
  s.sendChannelClose c num reply_code.NOT_FOUND (notFound "queue" queue).replyText classId methodId

def handleQueuePurge (s : AmqpServer) (buf : Buffer) : Outcome :=
  withArgs readQueueArgs buf s fun (queue, bits) =>
    match s.queue queue with
    | none => s.sendNoQueue c num queue class_id.QUEUE queue_method.PURGE
    | some q =>
      let s := s.purge queue
      if hasBit bits 0x01 then s
      else s.sendMethodFrame c num class_id.QUEUE queue_method.PURGE_OK (writeUint32 (UInt32.ofNat q.messages.length))

def handleQueueDelete (s : AmqpServer) (buf : Buffer) : Outcome :=
  withArgs readQueueArgs buf s fun (queue, bits) =>
    match s.deleteQueue queue (hasBit bits 0x01) (hasBit bits 0x02) with
    | .error e => s.sendChannelClose c num e.replyCode e.replyText class_id.QUEUE queue_method.DELETE
    | .ok (count, s) =>
      if hasBit bits 0x04 then s
      else s.sendMethodFrame c num class_id.QUEUE queue_method.DELETE_OK (writeUint32 (UInt32.ofNat count))

/-! ### Consuming -/

/-- Each field is set as it is read. --/
def handleBasicQos (s : AmqpServer) (buf : Buffer) : Outcome :=
  match readUint32 buf with
  | .error _ => .error s
  | .ok (prefetchSize, buf) =>
    let s := s.modifyChannel c num fun ch => { ch with prefetchSize }
    match readUint16 buf with
    | .error _ => .error s
    | .ok (prefetchCount, buf) =>
      let s := s.modifyChannel c num fun ch => { ch with prefetchCount }
      withArgs readUint8 buf s fun _global => s.sendMethodFrame c num class_id.BASIC basic_method.QOS_OK []

/-- The consumer object of `handleBasicConsume`. --/
def newConsumer (ch : Channel) (queue tag : Bytes) (bits : UInt8) : Consumer :=
  { tag, queue_name := queue, no_local := hasBit bits 0x01, no_ack := hasBit bits 0x02,
    exclusive := hasBit bits 0x04, channel_id := num, connection_id := c, prefetch_count := ch.prefetchCount,
    on_deliver := some { connection := c, channel_id := num, channel := ch.ref, queue } }

/-- The tag that a consumer gets. --/
def consumerTag (ch : Channel) (tag : Bytes) : Bytes :=
  if tag = [] then
    ascii "amq.ctag-" ++ decimal (idOf c).toNat ++ ascii "-" ++ decimal num.toNat ++ ascii "-" ++
      decimal (ch.consumerTagCounter + 1)
  else tag

def consume (s : AmqpServer) (ch : Channel) (queue tag : Bytes) (bits : UInt8) : AmqpServer :=
  let counter := if tag = [] then ch.consumerTagCounter + 1 else ch.consumerTagCounter
  let tag := consumerTag c num ch tag
  let k := s.consumerHeap.size
  let s := { s with consumerHeap := s.consumerHeap.alloc (newConsumer c num ch queue tag bits) }
  let s := s.modifyChannel c num fun ch =>
    { ch with consumerTagCounter := counter, consumers := ch.consumers.insert tag k }
  let s :=
    if hasBit bits 0x08 then s
    else s.sendMethodFrame c num class_id.BASIC basic_method.CONSUME_OK (writeShortString tag)
  s.addConsumer queue k

def handleBasicConsume (s : AmqpServer) (buf : Buffer) : Outcome :=
  withArgs (do
    let _reserved ← readUint16
    let queue ← readShortString
    let consumerTag ← readShortString
    let bits ← readUint8
    let _args ← readFieldTable 0
    return (queue, consumerTag, bits)) buf s fun (queue, consumerTag, bits) =>
    match s.queue queue, s.channel c num with
    | none, _ => s.sendNoQueue c num queue class_id.BASIC basic_method.CONSUME
    | some _, none => s
    | some _, some ch => s.consume c num ch queue consumerTag bits

/-- Takes the consumer out of its queue and out of the channel. --/
def cancel (s : AmqpServer) (tag : Bytes) : AmqpServer :=
  match (s.channel c num).bind fun ch => ch.consumers.lookup tag with
  | none => s
  | some k =>
    (s.removeConsumer (s.consumer k).queue_name tag).modifyChannel c num fun ch =>
      { ch with consumers := ch.consumers.erase tag }

def handleBasicCancel (s : AmqpServer) (buf : Buffer) : Outcome :=
  withArgs (do
    let consumerTag ← readShortString
    let bits ← readUint8
    return (consumerTag, bits)) buf s fun (consumerTag, bits) =>
    let s := s.cancel c num consumerTag
    if hasBit bits 0x01 then s
    else s.sendMethodFrame c num class_id.BASIC basic_method.CANCEL_OK (writeShortString consumerTag)

def handleBasicPublish (s : AmqpServer) (buf : Buffer) : Outcome :=
  withArgs (do
    let _reserved ← readUint16
    let exchange ← readShortString
    let routingKey ← readShortString
    let bits ← readUint8
    return (exchange, routingKey, bits)) buf s fun (exchange, routingKey, bits) =>
    if hasBit bits 0x02 then
      s.sendChannelClose c num reply_code.NOT_IMPLEMENTED (ascii "immediate=true is not supported") class_id.BASIC
        basic_method.PUBLISH
    else s.setPending c num (some { exchange, routing_key := routingKey, mandatory := hasBit bits 0x01 })

/-- `unackedMessages_[tag] = {...}` under the next delivery tag, which is used up. --/
def hold (s : AmqpServer) (u : UnackedMessage) : AmqpServer :=
  s.modifyChannel c num fun ch => { ch with unackedMessages := ch.unackedMessages.insert ch.nextDeliveryTag u }

def takeTag (s : AmqpServer) : AmqpServer :=
  s.modifyChannel c num fun ch => { ch with nextDeliveryTag := ch.nextDeliveryTag + 1 }

def sendGetOk (s : AmqpServer) (queue : Bytes) (deliveryTag : Nat) (m : Message) : AmqpServer :=
  (s.sendMethodFrame c num class_id.BASIC basic_method.GET_OK
    (writeUint64 (UInt64.ofNat deliveryTag) ++ writeUint8 (if m.redelivered then 1 else 0) ++
      writeShortString m.exchange ++ writeShortString m.routing_key ++
      writeUint32 (UInt32.ofNat (((s.queue queue).map fun q => q.messages.length).getD 0)))).sendContentFrames c num
    class_id.BASIC m.properties m.body

/-- A message that `get` has returned goes to the client: held unacked, or gone if it needs no ack. --/
def handGet (s : AmqpServer) (ch : Channel) (queue : Bytes) (noAck : Bool) (r : Ref) : AmqpServer :=
  let s :=
    if noAck then s.record [.removed (s.origin r) queue]
    else s.hold c num { message := r, queue_name := queue, consumer := none }
  (s.takeTag c num).sendGetOk c num queue ch.nextDeliveryTag (s.message r)

def handleBasicGet (s : AmqpServer) (buf : Buffer) : Outcome :=
  withArgs readQueueArgs buf s fun (queue, bits) =>
    match s.queue queue, s.channel c num with
    | none, _ => s.sendNoQueue c num queue class_id.BASIC basic_method.GET
    | some _, none => s
    | some _, some ch =>
      match s.get queue with
      | (none, s) => s.sendMethodFrame c num class_id.BASIC basic_method.GET_EMPTY (writeShortString [])
      | (some r, s) => s.handGet c num ch queue (hasBit bits 0x01) r

/-- `Channel::deliverMessage`, for a posted task. --/
def deliverMessage (s : AmqpServer) (ch : Channel) (t : DeliverTask) : AmqpServer :=
  let s :=
    match ch.consumers.lookup t.tag with
    | none => s
    | some k =>
      if (s.consumer k).no_ack then s.record [.removed (s.origin t.msg) t.queue]
      else s.hold c num { message := t.msg, queue_name := t.queue, consumer := some k }
  ((s.takeTag c num).sendMethodFrame c num class_id.BASIC basic_method.DELIVER
    (writeShortString t.tag ++ writeUint64 (UInt64.ofNat ch.nextDeliveryTag) ++
      writeUint8 (if t.redelivered then 1 else 0) ++ writeShortString t.exchange ++
      writeShortString t.routingKey)).sendContentFrames c num class_id.BASIC t.props t.body

/-! ### Settlement -/

/-- `consumer->in_flight.fetch_sub(1)`, for a message that was delivered to a consumer. --/
def releaseCredit (s : AmqpServer) (u : UnackedMessage) : AmqpServer :=
  match u.consumer with
  | none => s
  | some k => s.modifyConsumer k fun c => { c with in_flight := c.in_flight - 1 }

def persistAck (s : AmqpServer) (u : UnackedMessage) : AmqpServer :=
  let s := (s.releaseCredit u).record [.settled (s.origin u.message) u.queue_name]
  match s.queue u.queue_name with
  | none => s
  | some q =>
    if (s.message u.message).isPersistent && q.durable && (s.message u.message).wal_id != 0 then
      s.modifyStore fun st => st.storeAck u.queue_name (s.message u.message).wal_id
    else s

/-- `if (q) q->reject(...)`. --/
def rejectIfThere (s : AmqpServer) (requeue : Bool) (u : UnackedMessage) : AmqpServer :=
  match s.queue u.queue_name with
  | none => s
  | some _ => s.reject u.queue_name requeue u.message

def eraseUnacked (s : AmqpServer) (tag : Nat) : AmqpServer :=
  s.modifyChannel c num fun ch => { ch with unackedMessages := ch.unackedMessages.erase tag }

def clearUnacked (s : AmqpServer) : AmqpServer :=
  s.modifyChannel c num fun ch => { ch with unackedMessages := ∅ }

/-- Settles the message under a delivery tag, if there is one, and takes it out of the table. --/
def settle (f : AmqpServer → UnackedMessage → AmqpServer) (s : AmqpServer) (tag : Nat) : AmqpServer :=
  match (s.channel c num).bind fun ch => ch.unackedMessages.lookup tag with
  | none => s
  | some u => (f s u).eraseUnacked c num tag

/-- What reject and nack do with a message. --/
def rejectUnacked (requeue : Bool) (s : AmqpServer) (u : UnackedMessage) : AmqpServer :=
  (if requeue then s else s.persistAck u).rejectIfThere requeue u

/-- The tags that a settlement of `deliveryTag` is about. --/
def settledTags (s : AmqpServer) (deliveryTag : UInt64) (multiple : Bool) : List Nat :=
  if multiple then
    match s.channel c num with
    | none => []
    | some ch => ch.unackedMessages.keys.filter fun tag => tag ≤ deliveryTag.toNat
  else [deliveryTag.toNat]

def readSettleArgs : Read (UInt64 × UInt8) := do
  let deliveryTag ← readUint64
  let bits ← readUint8
  return (deliveryTag, bits)

def handleBasicAck (s : AmqpServer) (buf : Buffer) : Outcome :=
  withArgs readSettleArgs buf s fun (deliveryTag, bits) =>
    (s.settledTags c num deliveryTag (hasBit bits 0x01)).foldl (settle c num persistAck) s

def handleBasicReject (s : AmqpServer) (buf : Buffer) : Outcome :=
  withArgs readSettleArgs buf s fun (deliveryTag, bits) =>
    settle c num (rejectUnacked (hasBit bits 0x01)) s deliveryTag.toNat

def handleBasicNack (s : AmqpServer) (buf : Buffer) : Outcome :=
  withArgs readSettleArgs buf s fun (deliveryTag, bits) =>
    (s.settledTags c num deliveryTag (hasBit bits 0x01)).foldl (settle c num (rejectUnacked (hasBit bits 0x02))) s

/-- The messages of the unacked table, in the order of iteration. --/
def unacked (s : AmqpServer) : List UnackedMessage :=
  match s.channel c num with
  | none => []
  | some ch => ch.unackedMessages.entries.map Prod.snd

/-- `Channel::requeueUnackedMessages`. --/
def requeueUnackedMessages (s : AmqpServer) : AmqpServer :=
  ((s.unacked c num).foldl (fun s u => (s.releaseCredit u).rejectIfThere true u) s).clearUnacked c num

def handleBasicRecover (s : AmqpServer) (buf : Buffer) : Outcome :=
  withArgs readUint8 buf s fun bits =>
    let s := if hasBit bits 0x01 then (s.unacked c num).foldl (rejectIfThere · true ·) s else s
    (s.clearUnacked c num).sendMethodFrame c num class_id.BASIC basic_method.RECOVER_OK []

/-- `Channel::removeAllConsumers`. --/
def removeAllConsumers (s : AmqpServer) : AmqpServer :=
  match s.channel c num with
  | none => s
  | some ch =>
    let s := ch.consumers.entries.foldl (fun s (tag, k) => s.removeConsumer (s.consumer k).queue_name tag) s
    (s.modifyChannel c num fun ch => { ch with consumers := ∅ }).requeueUnackedMessages c num

/-! ### Modes -/

def handleConfirmSelect (s : AmqpServer) (buf : Buffer) : Outcome :=
  withArgs readUint8 buf s fun bits =>
    let s := s.modifyChannel c num fun ch => { ch with confirmMode := true, nextConfirmSeqNo := 1 }
    if hasBit bits 0x01 then s else s.sendMethodFrame c num class_id.CONFIRM confirm_method.SELECT_OK []

/-- The three methods of class `tx` only answer. --/
def handleTx (s : AmqpServer) (okId : UInt16) : Outcome := .ok (s.sendMethodFrame c num class_id.TX okId [])

def notImplemented (s : AmqpServer) (classId methodId : UInt16) : AmqpServer :=
  s.sendChannelClose c num reply_code.NOT_IMPLEMENTED
    (ascii "Method not implemented: " ++ decimal classId.toNat ++ ascii "." ++ decimal methodId.toNat) classId methodId

/-- `Channel::handleMethod`. --/
def handleMethod (s : AmqpServer) (classId methodId : UInt16) (buf : Buffer) : Outcome :=
  if classId = class_id.EXCHANGE then
    if methodId = exchange_method.DECLARE then s.handleExchangeDeclare c num buf
    else if methodId = exchange_method.DELETE then s.handleExchangeDelete c num buf
    else .ok (s.notImplemented c num classId methodId)
  else if classId = class_id.QUEUE then
    if methodId = queue_method.DECLARE then s.handleQueueDeclare c num buf
    else if methodId = queue_method.BIND then s.handleQueueBind c num buf
    else if methodId = queue_method.UNBIND then s.handleQueueUnbind c num buf
    else if methodId = queue_method.PURGE then s.handleQueuePurge c num buf
    else if methodId = queue_method.DELETE then s.handleQueueDelete c num buf
    else .ok (s.notImplemented c num classId methodId)
  else if classId = class_id.BASIC then
    if methodId = basic_method.QOS then s.handleBasicQos c num buf
    else if methodId = basic_method.CONSUME then s.handleBasicConsume c num buf
    else if methodId = basic_method.CANCEL then s.handleBasicCancel c num buf
    else if methodId = basic_method.PUBLISH then s.handleBasicPublish c num buf
    else if methodId = basic_method.GET then s.handleBasicGet c num buf
    else if methodId = basic_method.ACK then s.handleBasicAck c num buf
    else if methodId = basic_method.REJECT then s.handleBasicReject c num buf
    else if methodId = basic_method.RECOVER then s.handleBasicRecover c num buf
    else if methodId = basic_method.RECOVER_ASYNC then s.handleBasicRecover c num buf
    else if methodId = basic_method.NACK then s.handleBasicNack c num buf
    else .ok (s.notImplemented c num classId methodId)
  else if classId = class_id.CONFIRM then
    if methodId = confirm_method.SELECT then s.handleConfirmSelect c num buf
    else .ok (s.notImplemented c num classId methodId)
  else if classId = class_id.TX then
    if methodId = tx_method.SELECT then s.handleTx c num tx_method.SELECT_OK
    else if methodId = tx_method.COMMIT then s.handleTx c num tx_method.COMMIT_OK
    else if methodId = tx_method.ROLLBACK then s.handleTx c num tx_method.ROLLBACK_OK
    else .ok (s.notImplemented c num classId methodId)
  else .ok (s.notImplemented c num classId methodId)

end AmqpServer
end Broko.Broker
