import Broko.Lib.Assoc
import Broko.Sdk.Frame

/-! `sdk/broko-client-js/lib/channel.js`: what a channel of the client sends for a publish, and what it does with the
    frames that it receives. Callbacks are values of a type `κ`; what they do is not part of the model. -/

namespace Broko.Sdk
open Amqp

/-! ### Publishing -/

/-- The pieces of the `for` loop of `publish`; each turn takes at least one byte. --/
def chunks (maxBody : Nat) : Nat → Bytes → List Bytes
  | 0, _ => []
  | turns + 1, body => if body = [] then [] else body.take maxBody :: chunks maxBody turns (body.drop maxBody)

/-- The byte of bits of a publish. --/
def publishBits (options : Options) : UInt8 :=
  (if options.mandatory then 1 else 0) ||| (if options.immediate then 2 else 0)

/-- The frames that `publish` sends. If the header cannot be written, it throws after the method. --/
def publish (id : UInt16) (frameMax : Nat) (exchange routingKey : String) (body : Bytes) (options : Options) : List Frame :=
  let maxBody := max 1 ((if frameMax = 0 then 131072 else frameMax) - 8)
  methodFrame id class_id.BASIC basic_method.PUBLISH
      (writeUint16 0 ++ writeShortString exchange ++ writeShortString routingKey ++ writeUint8 (publishBits options)) ::
    match encodeHeaderFrame id class_id.BASIC body.length options with
    | none => []
    | some header => header :: (chunks maxBody body.length body).map (encodeBodyFrame id)

/-! ### Receiving -/

/-- A class and a method, as a waiter is found by them. --/
instance lawfulBEqWaiter : LawfulBEq (UInt16 × UInt16) := inferInstance

/-- The `method` of a pending content. --/
inductive ContentMethod where
  | deliver (consumerTag : String) (deliveryTag : UInt64) (redelivered : Bool) (exchange routingKey : String)
  | return (replyCode : UInt16) (replyText exchange routingKey : String)

/-- A content that is being received. Size and body are there once the header has come. --/
structure PendingDelivery where
  method : ContentMethod
  props : Option Properties := none
  bodySize : Option Nat := none
  body : Option Bytes := none
  accumulated : Nat := 0

/-- What a callback is given. --/
structure Delivered where
  fields : ContentMethod
  properties : Option Properties
  content : Option Bytes

/-- The value that a waiting request is resolved with. --/
inductive Reply where
  | undefined
  | queue (name : String) (messageCount consumerCount : UInt32)
  | tag (consumerTag : String)
  deriving DecidableEq

/-- What a channel does to its surroundings. --/
inductive Effect (κ : Type) where
  | send (frame : Frame)
  | resolve (classId methodId : UInt16) (value : Reply)
  | reject (classId methodId code : UInt16) (text : String)
  | emitError (code : UInt16) (text : String)
  | emitClose
  | emitReturn (message : Delivered)
  | removeChannel
  | call (callback : κ) (message : Delivered)

structure Channel (κ : Type) where
  id : UInt16
  open_ : Bool := false
  consumers : Assoc String κ := ∅
  replyWaiters : List (UInt16 × UInt16) := []
  pendingDelivery : Option PendingDelivery := none
  /-- Whether there is a listener for `error`: without one, `emit` throws. -/
  listening : Bool := true
  effects : List (Effect κ) := []

/-- How a handler ends: it returns, or it throws out of the state that it has got to. --/
abbrev Outcome (κ : Type) := Except (Channel κ) (Channel κ)

/-- `Number(v)`: the nearest double, the even one of two. --/
def numberOf (v : UInt64) : Nat :=
  let unit := 2 ^ (Nat.log2 v.toNat - 52)
  let below := v.toNat / unit
  let rest := v.toNat % unit
  if 2 * rest < unit ∨ 2 * rest = unit ∧ below % 2 = 0 then below * unit else (below + 1) * unit

namespace Channel

variable {κ : Type} (ch : Channel κ)

def does (effects : List (Effect κ)) : Channel κ := { ch with effects := ch.effects ++ effects }

/-- Reads the arguments of a method and goes on with them. --/
def withArgs {α : Type} (read : Read α) (args : Buffer) (k : α → Outcome κ) : Outcome κ :=
  match read args with
  | .error _ => .error ch
  | .ok (a, _) => k a

/-- `_resolveWait`. --/
def resolveWait (classId methodId : UInt16) (value : Reply := .undefined) : Channel κ :=
  if (classId, methodId) ∈ ch.replyWaiters then
    ({ ch with replyWaiters := ch.replyWaiters.erase (classId, methodId) }).does [.resolve classId methodId value]
  else ch

/-- A close from the server. --/
def closedByServer (code : UInt16) (text : String) : Outcome κ :=
  let ch := ch.does [.send (methodFrame ch.id class_id.CHANNEL channel_method.CLOSE_OK [])]
  let ch := ({ ch with replyWaiters := [] }).does (ch.replyWaiters.map fun (classId, methodId) => .reject classId methodId code text)
  let ch := { ch with open_ := false }
  if ch.listening then .ok (ch.does [.emitError code text, .emitClose, .removeChannel]) else .error ch

/-- The methods that only resolve the request that they answer. --/
def plainReplies : List (UInt16 × UInt16) :=
  [(class_id.CHANNEL, channel_method.CLOSE_OK), (class_id.CHANNEL, channel_method.OPEN_OK),
    (class_id.EXCHANGE, exchange_method.DECLARE_OK), (class_id.EXCHANGE, exchange_method.DELETE_OK),
    (class_id.QUEUE, queue_method.BIND_OK), (class_id.QUEUE, queue_method.UNBIND_OK),
    (class_id.QUEUE, queue_method.DELETE_OK), (class_id.QUEUE, queue_method.PURGE_OK),
    (class_id.BASIC, basic_method.QOS_OK), (class_id.CONFIRM, confirm_method.SELECT_OK)]

def readDeliver : Read ContentMethod := do
  let consumerTag ← Codec.readShortString
  let deliveryTag ← readUint64
  let redelivered ← readUint8
  let exchange ← Codec.readShortString
  let routingKey ← Codec.readShortString
  return .deliver consumerTag deliveryTag (redelivered &&& 1 != 0) exchange routingKey

def readReturn : Read ContentMethod := do
  let replyCode ← readUint16
  let replyText ← Codec.readShortString
  let exchange ← Codec.readShortString
  let routingKey ← Codec.readShortString
  return .return replyCode replyText exchange routingKey

/-- `_handleMethod`. --/
def handleMethod (classId methodId : UInt16) (args : Buffer) : Outcome κ :=
  if classId = class_id.CHANNEL ∧ methodId = channel_method.CLOSE then
    ch.withArgs (do
      let code ← readUint16
      let text ← Codec.readShortString
      let _classId ← readUint16
      let _methodId ← readUint16
      return (code, text)) args fun (code, text) => ch.closedByServer code text
  else if (classId, methodId) ∈ plainReplies then .ok (ch.resolveWait classId methodId)
  else if classId = class_id.QUEUE ∧ methodId = queue_method.DECLARE_OK then
    ch.withArgs (do
      let name ← Codec.readShortString
      let messageCount ← readUint32
      let consumerCount ← readUint32
      return (name, messageCount, consumerCount)) args fun (name, messageCount, consumerCount) =>
        .ok (ch.resolveWait classId methodId (.queue name messageCount consumerCount))
  else if classId = class_id.BASIC ∧ methodId = basic_method.CANCEL_OK then
    ch.withArgs Codec.readShortString args fun tag =>
      .ok (({ ch with consumers := ch.consumers.erase tag }).resolveWait classId methodId)
  else if classId = class_id.BASIC ∧ methodId = basic_method.CONSUME_OK then
    ch.withArgs Codec.readShortString args fun tag => .ok (ch.resolveWait classId methodId (.tag tag))
  else if classId = class_id.BASIC ∧ methodId = basic_method.DELIVER then
    ch.withArgs readDeliver args fun method => .ok { ch with pendingDelivery := some { method } }
  else if classId = class_id.BASIC ∧ methodId = basic_method.RETURN then
    ch.withArgs readReturn args fun method => .ok { ch with pendingDelivery := some { method } }
  else .ok ch

/-- `_finishDelivery` of a pending content. --/
def finishDelivery (d : PendingDelivery) : Channel κ :=
  let ch := { ch with pendingDelivery := none }
  let message : Delivered := { fields := d.method, properties := d.props, content := d.body }
  match d.method with
  | .deliver consumerTag .. =>
    match ch.consumers.lookup consumerTag with
    | none => ch
    | some callback => ch.does [.call callback message]
  | .return .. => ch.does [.emitReturn message]

/-- `_handleHeader`. --/
def handleHeader (payload : Bytes) : Outcome κ :=
  match ch.pendingDelivery with
  | none => .ok ch
  | some d =>
    ch.withArgs decodeHeader (Buffer.ofBytes payload) fun (bodySize, props) =>
      let d := { d with props := some props, bodySize := some (numberOf bodySize), body := some [] }
      .ok (if numberOf bodySize = 0 then ch.finishDelivery d else { ch with pendingDelivery := some d })

/-- `_handleBody`; before the header there is no body to add to, and it throws. --/
def handleBody (payload : Bytes) : Outcome κ :=
  match ch.pendingDelivery with
  | none => .ok ch
  | some d =>
    match d.body with
    | none => .error ch
    | some body =>
      let d := { d with body := some (body ++ payload), accumulated := d.accumulated + payload.length }
      .ok (if d.bodySize.any (· ≤ d.accumulated) then ch.finishDelivery d else { ch with pendingDelivery := some d })

/-- `Connection._handleFrame`, as far as the channel is concerned. --/
def handleFrame (frame : Frame) : Outcome κ :=
  if frame.channel ≠ ch.id then .ok ch
  else if frame.type = FRAME_METHOD then
    match decodeMethod (Buffer.ofBytes frame.payload) with
    | .error _ => .error ch
    | .ok ((classId, methodId), args) => ch.handleMethod classId methodId args
  else if frame.type = FRAME_HEADER then ch.handleHeader frame.payload
  else if frame.type = FRAME_BODY then ch.handleBody frame.payload
  else .ok ch

end Channel
end Broko.Sdk
