import Broko.Broker.Cascade
import Broko.Broker.Server
import Broko.Lib.Prefix

/-! What happens to message objects, in order: each function here follows the one of the same name and says what that does
    to them, with the states in between. A message object comes into a queue at the end or at the front; `dispatch` takes
    it from there and makes a new object for its consumer; `deadLetter` changes it. -/

namespace Broko.Broker
open Amqp Storage

inductive MessageEvent where
  /-- The head of a queue is handed to a consumer. -/
  | handedOver (x : AmqpServer.Handover)
  /-- `reject` with `requeue`, in this state: the message goes to the front of the queue. -/
  | putBack (state : AmqpServer) (name : Bytes) (msg : Ref)
  /-- The message goes to the end of a queue. -/
  | enqueued (msg : Ref)
  /-- `deadLetter` is called for it. -/
  | deadLettered (msg : Ref)
  /-- The process is gone, with all its objects. -/
  | restarted

/-- The message object comes into a queue, is dead-lettered, or is gone. --/
def MessageEvent.Ends (d : Ref) : MessageEvent → Prop
  | .handedOver _ => False
  | .putBack _ _ r => r = d
  | .enqueued r => r = d
  | .deadLettered r => r = d
  | .restarted => True

def MessageEvent.handover? : MessageEvent → Option AmqpServer.Handover
  | .handedOver x => some x
  | _ => none

/-- `deadLetter` is called for the object. --/
def MessageEvent.deadLetters (d : Ref) : MessageEvent → Bool
  | .deadLettered r => r = d
  | _ => false

namespace AmqpServer

/-- What is handed to consumers. --/
def handedIn (L : List MessageEvent) : List Handover := L.filterMap MessageEvent.handover?

/-! ### Queues -/

/-- `dispatchLocked` in an operation of a queue. --/
def dispatchJournal (name : Bytes) (s : AmqpServer) (op : QueueOp) : List MessageEvent :=
  (s.handoversOf name op).map .handedOver

/-- `deadLetter`, with `enqueue` for the queues that the message is routed to. --/
def deadLetterWithJournal (enqueue : AmqpServer → Bytes → Ref → AmqpServer)
    (journal : AmqpServer → Bytes → Ref → List MessageEvent) (name reason : Bytes) (s : AmqpServer) (r : Ref) :
    List MessageEvent :=
  .deadLettered r ::
    match letter name reason s r with
    | (_, none) => []
    | (s, some addr) =>
      Prefix.trace (fun s qname => enqueue s qname r) (fun s qname => journal s qname r) s (s.letterQueues r addr)

def enqueueLoopJournal : Nat → AmqpServer → Bytes → Ref → List MessageEvent
  | 0, _, _, _ => []
  | fuel + 1, s, name, r =>
    match s.queue name with
    | none => []
    | some _ =>
      let (dlq, s') := s.enqueueLocked name r
      .enqueued r :: (dispatchJournal name s (.enqueue r) ++
        Prefix.trace (deadLetterWith (enqueueLoop fuel) name (ascii "expired"))
          (deadLetterWithJournal (enqueueLoop fuel) (enqueueLoopJournal fuel) name (ascii "expired")) s' dlq)

def deliverToQueueJournal (s : AmqpServer) (name : Bytes) (r : Ref) : List MessageEvent :=
  enqueueLoopJournal s.dlxFuel s name r

def deadLetterJournal (name reason : Bytes) (s : AmqpServer) (r : Ref) : List MessageEvent :=
  deadLetterWithJournal (enqueueLoop s.dlxFuel) (enqueueLoopJournal s.dlxFuel) name reason s r

/-- What has expired is dead-lettered. --/
def expiredJournal (name : Bytes) (s : AmqpServer) (dlq : List Ref) : List MessageEvent :=
  Prefix.trace (deadLetter name (ascii "expired")) (deadLetterJournal name (ascii "expired")) s dlq

def getJournal (s : AmqpServer) (name : Bytes) : List MessageEvent :=
  let (dlq, _, s') := s.getLocked name
  expiredJournal name s' dlq

def flushJournal (s : AmqpServer) (name : Bytes) : List MessageEvent :=
  let (dlq, s') := s.flushLocked name
  dispatchJournal name s .flush ++ expiredJournal name s' dlq

def rejectJournal (s : AmqpServer) (name : Bytes) (requeue : Bool) (r : Ref) : List MessageEvent :=
  if requeue then .putBack s name r :: dispatchJournal name s (.requeue r)
  else deadLetterJournal name (ascii "rejected") s r

def tickJournal (s : AmqpServer) : List MessageEvent := Prefix.trace flush flushJournal s s.queues.keys

/-! ### Channels -/

variable (c : Nat) (num : UInt16)

def argsJournal {α : Type} (read : Read α) (buf : Buffer) (k : α → List MessageEvent) : List MessageEvent :=
  match read buf with
  | .error _ => []
  | .ok (args, _) => k args

def publishToJournal (several : Bool) (msg : Ref) (s : AmqpServer) (qname : Bytes) : List MessageEvent :=
  let copy := if several then s.heap.size else msg
  let s := if several then s.newMessage (s.message msg) else s
  let s :=
    match s.queue qname with
    | none => s
    | some q => if (s.message copy).isPersistent && q.durable then s.storeMessage qname copy else s
  s.deliverToQueueJournal qname copy

def publishJournal (s : AmqpServer) (p : PendingPublish) : List MessageEvent :=
  let m := messageOf c p
  let msg := s.heap.size
  let s := s.newMessage m
  let queues := s.routeMessage m.exchange m.routing_key m.properties.headers
  if queues = [] ∧ m.mandatory then []
  else
    Prefix.trace (publishTo (decide (1 < queues.length)) msg) (publishToJournal (decide (1 < queues.length)) msg) s queues

def handleContentBodyJournal (s : AmqpServer) (data : Bytes) : List MessageEvent :=
  match (s.channel c num).bind Channel.pendingPublish with
  | none => []
  | some p =>
    let p := { p with body := p.body ++ data, bodyReceived := p.bodyReceived + data.length }
    if p.bodySize.toNat ≤ p.bodyReceived then (s.setPending c num (some p)).publishJournal c p else []

def handleContentHeaderJournal (s : AmqpServer) (buf : Buffer) : List MessageEvent :=
  match (s.channel c num).bind Channel.pendingPublish with
  | none => []
  | some p =>
    match readContentHeader buf with
    | .error _ => []
    | .ok (bodySize, buf) =>
      let p := { p with bodySize }
      if MAX_BODY_SIZE < bodySize.toNat then []
      else
        match BasicProperties.decode buf with
        | .error _ => []
        | .ok (properties, _) =>
          if bodySize = 0 then (s.setPending c num (some { p with properties })).handleContentBodyJournal c num [] else []

def consumeJournal (s : AmqpServer) (ch : Channel) (queue tag : Bytes) (bits : UInt8) : List MessageEvent :=
  let counter := if tag = [] then ch.consumerTagCounter + 1 else ch.consumerTagCounter
  let tag := consumerTag c num ch tag
  let k := s.consumerHeap.size
  let s := { s with consumerHeap := s.consumerHeap.alloc (newConsumer c num ch queue tag bits) }
  let s := s.modifyChannel c num fun ch =>
    { ch with consumerTagCounter := counter, consumers := ch.consumers.insert tag k }
  let s :=
    if hasBit bits 0x08 then s
    else s.sendMethodFrame c num class_id.BASIC basic_method.CONSUME_OK (writeShortString tag)
  dispatchJournal queue s (.addConsumer k)

def handleBasicConsumeJournal (s : AmqpServer) (buf : Buffer) : List MessageEvent :=
  argsJournal (do
    let _reserved ← readUint16
    let queue ← readShortString
    let consumerTag ← readShortString
    let bits ← readUint8
    let _args ← readFieldTable 0
    return (queue, consumerTag, bits)) buf fun (queue, consumerTag, bits) =>
    match s.queue queue, s.channel c num with
    | none, _ => []
    | some _, none => []
    | some _, some ch => s.consumeJournal c num ch queue consumerTag bits

def handleBasicGetJournal (s : AmqpServer) (buf : Buffer) : List MessageEvent :=
  argsJournal readQueueArgs buf fun (queue, _) =>
    match s.queue queue, s.channel c num with
    | none, _ => []
    | some _, none => []
    | some _, some _ => s.getJournal queue

/-! ### Settlement -/

def rejectIfThereJournal (s : AmqpServer) (requeue : Bool) (u : UnackedMessage) : List MessageEvent :=
  match s.queue u.queue_name with
  | none => []
  | some _ => s.rejectJournal u.queue_name requeue u.message

def settleJournal (journal : AmqpServer → UnackedMessage → List MessageEvent) (s : AmqpServer) (tag : Nat) :
    List MessageEvent :=
  match (s.channel c num).bind fun ch => ch.unackedMessages.lookup tag with
  | none => []
  | some u => journal s u

def rejectUnackedJournal (requeue : Bool) (s : AmqpServer) (u : UnackedMessage) : List MessageEvent :=
  (if requeue then s else s.persistAck u).rejectIfThereJournal requeue u

def handleBasicRejectJournal (s : AmqpServer) (buf : Buffer) : List MessageEvent :=
  argsJournal readSettleArgs buf fun (deliveryTag, bits) =>
    settleJournal c num (rejectUnackedJournal (hasBit bits 0x01)) s deliveryTag.toNat

def handleBasicNackJournal (s : AmqpServer) (buf : Buffer) : List MessageEvent :=
  argsJournal readSettleArgs buf fun (deliveryTag, bits) =>
    Prefix.trace (settle c num (rejectUnacked (hasBit bits 0x02)))
      (settleJournal c num (rejectUnackedJournal (hasBit bits 0x02))) s (s.settledTags c num deliveryTag (hasBit bits 0x01))

def requeueUnackedMessagesJournal (s : AmqpServer) : List MessageEvent :=
  Prefix.trace (fun s u => (s.releaseCredit u).rejectIfThere true u)
    (fun s u => (s.releaseCredit u).rejectIfThereJournal true u) s (s.unacked c num)

def handleBasicRecoverJournal (s : AmqpServer) (buf : Buffer) : List MessageEvent :=
  argsJournal readUint8 buf fun bits =>
    if hasBit bits 0x01 then
      Prefix.trace (rejectIfThere · true ·) (rejectIfThereJournal · true ·) s (s.unacked c num)
    else []

def removeAllConsumersJournal (s : AmqpServer) : List MessageEvent :=
  match s.channel c num with
  | none => []
  | some ch =>
    let s := ch.consumers.entries.foldl (fun s (tag, k) => s.removeConsumer (s.consumer k).queue_name tag) s
    (s.modifyChannel c num fun ch => { ch with consumers := ∅ }).requeueUnackedMessagesJournal c num

/-- The tests are those of `handleMethod`, in their order. --/
def handleMethodJournal (s : AmqpServer) (classId methodId : UInt16) (buf : Buffer) : List MessageEvent :=
  if classId = class_id.EXCHANGE then []
  else if classId = class_id.QUEUE then []
  else if classId = class_id.BASIC then
    if methodId = basic_method.QOS then []
    else if methodId = basic_method.CONSUME then s.handleBasicConsumeJournal c num buf
    else if methodId = basic_method.CANCEL then []
    else if methodId = basic_method.PUBLISH then []
    else if methodId = basic_method.GET then s.handleBasicGetJournal c num buf
    else if methodId = basic_method.ACK then []
    else if methodId = basic_method.REJECT then s.handleBasicRejectJournal c num buf
    else if methodId = basic_method.RECOVER then s.handleBasicRecoverJournal c num buf
    else if methodId = basic_method.RECOVER_ASYNC then s.handleBasicRecoverJournal c num buf
    else if methodId = basic_method.NACK then s.handleBasicNackJournal c num buf
    else []
  else []

/-! ### Connections -/

def closeChannelJournal (s : AmqpServer) (num : UInt16) : List MessageEvent :=
  (s.modifyChannel c num fun ch => { ch with isOpen := false }).removeAllConsumersJournal c num

def cleanupChannelJournal (s : AmqpServer) : List MessageEvent :=
  match s.channel c num with
  | none => []
  | some _ => s.closeChannelJournal c num

def cleanupAllChannelsJournal (s : AmqpServer) : List MessageEvent :=
  match s.connection c with
  | none => []
  | some conn => Prefix.trace (closeChannel c) (closeChannelJournal c) s conn.channels.keys

def shutdownJournal (s : AmqpServer) : List MessageEvent :=
  match s.connection c with
  | none => []
  | some conn =>
    if conn.state = .CLOSED then []
    else (s.modifyConnection c fun conn => { conn with state := .CLOSED, reading := false }).cleanupAllChannelsJournal c

def handleConnectionMethodJournal (s : AmqpServer) (methodId : UInt16) (buf : Buffer) : List MessageEvent :=
  if methodId = connection_method.START_OK then []
  else if methodId = connection_method.TUNE_OK then []
  else if methodId = connection_method.OPEN then []
  else if methodId = connection_method.CLOSE then
    argsJournal readClose buf fun _ =>
      (s.sendMethodFrame c 0 class_id.CONNECTION connection_method.CLOSE_OK []).shutdownJournal c
  else if methodId = connection_method.CLOSE_OK then s.shutdownJournal c
  else []

def handleOnChannelJournal (s : AmqpServer) (classId methodId : UInt16) (buf : Buffer) : List MessageEvent :=
  match s.openChannelAt c num with
  | none => []
  | some _ => s.handleMethodJournal c num classId methodId buf

def handleMethodFrameJournal (s : AmqpServer) (buf : Buffer) : List MessageEvent :=
  match readMethodIds buf with
  | .error _ => []
  | .ok ((classId, methodId), buf) =>
    if classId = class_id.CONNECTION then
      if num ≠ 0 then [] else s.handleConnectionMethodJournal c methodId buf
    else if classId = class_id.CHANNEL ∧ methodId = channel_method.OPEN then []
    else if classId = class_id.CHANNEL ∧ methodId = channel_method.CLOSE then
      argsJournal readClose buf fun _ => s.cleanupChannelJournal c num
    else if classId = class_id.CHANNEL ∧ methodId = channel_method.CLOSE_OK then s.cleanupChannelJournal c num
    else if classId = class_id.CHANNEL ∧ methodId = channel_method.FLOW then []
    else s.handleOnChannelJournal c num classId methodId buf

def handleClosingJournal (s : AmqpServer) (buf : Buffer) : List MessageEvent :=
  match readMethodIds buf with
  | .error _ => []
  | .ok ((classId, methodId), _) =>
    if classId = class_id.CONNECTION ∧ methodId = connection_method.CLOSE_OK then s.shutdownJournal c else []

def handleFrameJournal (s : AmqpServer) (frame : Frame) : List MessageEvent :=
  if (s.connection c).map Connection.state = some .CLOSING ∧ frame.type = FRAME_METHOD then
    s.handleClosingJournal c (Buffer.ofBytes frame.payload)
  else if frame.type = FRAME_METHOD then s.handleMethodFrameJournal c frame.channel (Buffer.ofBytes frame.payload)
  else if frame.type = FRAME_HEADER then
    match s.openChannelAt c frame.channel with
    | none => []
    | some _ => s.handleContentHeaderJournal c frame.channel (Buffer.ofBytes frame.payload)
  else if frame.type = FRAME_BODY then
    match s.openChannelAt c frame.channel with
    | none => []
    | some _ => s.handleContentBodyJournal c frame.channel frame.payload
  else []

def receiveFrameJournal (s : AmqpServer) (conn : Connection) (frame : Frame) (frameEnd : UInt8) : List MessageEvent :=
  if effectiveMax conn < frame.payload.length then []
  else if frameEnd ≠ FRAME_END then []
  else s.handleFrameJournal c frame

def receiveProtocolHeaderJournal (s : AmqpServer) (header : Bytes) : List MessageEvent :=
  if header = PROTOCOL_HEADER then [] else (s.send c .protocolHeader).shutdownJournal c

/-! ### Runs -/

/-- `handle`. A task only gives its message to a client; a new process has no consumers and nothing unacked when it reads
    its log. --/
def handleJournal (s : AmqpServer) : Event → List MessageEvent
  | .protocolHeader c header =>
    match s.connection c with
    | none => []
    | some conn =>
      if conn.reading ∧ conn.state = .AWAITING_PROTOCOL_HEADER then s.receiveProtocolHeaderJournal c header else []
  | .frame c frame frameEnd =>
    match s.connection c with
    | none => []
    | some conn =>
      if conn.reading ∧ conn.state ≠ .AWAITING_PROTOCOL_HEADER then s.receiveFrameJournal c conn frame frameEnd else []
  | .disconnect c => s.shutdownJournal c
  | .tick => s.tickJournal
  | .restart => [.restarted]
  | _ => []

/-- All that happens to messages in a run. --/
def journal (s : AmqpServer) (events : List Event) : List MessageEvent := Prefix.trace handle handleJournal s events

end AmqpServer
end Broko.Broker
