import Broko.Sdk.Channel

/-! The requests of `sdk/broko-client-js/lib/channel.js` and the promises that they return. A request sends its method
    and waits for a reply; what stands after its `await` is a job, which runs some time after the reply was handled.
    Jobs run in the order in which their promises were settled. -/

namespace Broko.Sdk
open Amqp

/-- Bits of a byte, the lowest first. --/
def bitsOf (flags : List Bool) : UInt8 :=
  flags.foldr (fun flag bits => (if flag then 1 else 0) ||| (bits <<< 1)) 0

/-- The calls that wait for a reply, with the options that they read. --/
inductive Request (κ : Type) where
  | assertExchange (name type : String) (passive durable autoDelete internal : Bool) (arguments : JsTable)
  | deleteExchange (name : String) (ifUnused : Bool)
  | assertQueue (name : String) (passive durable exclusive autoDelete : Bool) (arguments : JsTable)
  | deleteQueue (name : String) (ifUnused ifEmpty : Bool)
  | bindQueue (queue exchange routingKey : String) (args : JsTable)
  | unbindQueue (queue exchange routingKey : String) (args : JsTable)
  | purgeQueue (queue : String)
  | prefetch (count : Int) (isGlobal : Bool)
  | consume (queue : String) (callback : κ) (consumerTag : String) (noLocal noAck exclusive : Bool) (arguments : JsTable)
  | cancel (consumerTag : String)
  | confirmSelect

namespace Request
variable {κ : Type}

/-- The class and method of the frame that is sent. --/
def method : Request κ → UInt16 × UInt16
  | assertExchange .. => (class_id.EXCHANGE, exchange_method.DECLARE)
  | deleteExchange .. => (class_id.EXCHANGE, exchange_method.DELETE)
  | assertQueue .. => (class_id.QUEUE, queue_method.DECLARE)
  | deleteQueue .. => (class_id.QUEUE, queue_method.DELETE)
  | bindQueue .. => (class_id.QUEUE, queue_method.BIND)
  | unbindQueue .. => (class_id.QUEUE, queue_method.UNBIND)
  | purgeQueue .. => (class_id.QUEUE, queue_method.PURGE)
  | prefetch .. => (class_id.BASIC, basic_method.QOS)
  | consume .. => (class_id.BASIC, basic_method.CONSUME)
  | cancel .. => (class_id.BASIC, basic_method.CANCEL)
  | confirmSelect => (class_id.CONFIRM, confirm_method.SELECT)

/-- The arguments that are written; none where a field table throws. --/
def writeArgs : Request κ → Option Bytes
  | assertExchange name type passive durable autoDelete internal arguments =>
    (writeFieldTable arguments).map fun table =>
      writeUint16 0 ++ writeShortString name ++ writeShortString type ++
        writeUint8 (bitsOf [passive, durable, autoDelete, internal]) ++ table
  | deleteExchange name ifUnused => some (writeUint16 0 ++ writeShortString name ++ writeUint8 (bitsOf [ifUnused]))
  | assertQueue name passive durable exclusive autoDelete arguments =>
    (writeFieldTable arguments).map fun table =>
      writeUint16 0 ++ writeShortString name ++ writeUint8 (bitsOf [passive, durable, exclusive, autoDelete]) ++ table
  | deleteQueue name ifUnused ifEmpty =>
    some (writeUint16 0 ++ writeShortString name ++ writeUint8 (bitsOf [ifUnused, ifEmpty]))
  | bindQueue queue exchange routingKey args =>
    (writeFieldTable args).map fun table =>
      writeUint16 0 ++ writeShortString queue ++ writeShortString exchange ++ writeShortString routingKey ++
        writeUint8 0 ++ table
  -- no byte for no-wait here
  | unbindQueue queue exchange routingKey args =>
    (writeFieldTable args).map fun table =>
      writeUint16 0 ++ writeShortString queue ++ writeShortString exchange ++ writeShortString routingKey ++ table
  | purgeQueue queue => some (writeUint16 0 ++ writeShortString queue ++ writeUint8 0)
  | prefetch count isGlobal =>
    some (writeUint32 0 ++ writeUint16 (UInt16.ofInt count) ++ writeUint8 (if isGlobal then 1 else 0))
  | consume queue _ consumerTag noLocal noAck exclusive arguments =>
    (writeFieldTable arguments).map fun table =>
      writeUint16 0 ++ writeShortString queue ++ writeShortString consumerTag ++
        writeUint8 (bitsOf [noLocal, noAck, exclusive]) ++ table
  | cancel consumerTag => some (writeShortString consumerTag ++ writeUint8 0)
  | confirmSelect => some (writeUint8 0)

/-- The class and method that the request waits for. --/
def awaits : Request κ → UInt16 × UInt16
  | assertExchange .. => (class_id.EXCHANGE, exchange_method.DECLARE_OK)
  | deleteExchange .. => (class_id.EXCHANGE, exchange_method.DELETE_OK)
  | assertQueue .. => (class_id.QUEUE, queue_method.DECLARE_OK)
  | deleteQueue .. => (class_id.QUEUE, queue_method.DELETE_OK)
  | bindQueue .. => (class_id.QUEUE, queue_method.BIND_OK)
  | unbindQueue .. => (class_id.QUEUE, queue_method.UNBIND_OK)
  | purgeQueue .. => (class_id.QUEUE, queue_method.PURGE_OK)
  | prefetch .. => (class_id.BASIC, basic_method.QOS_OK)
  | consume .. => (class_id.BASIC, basic_method.CONSUME_OK)
  | cancel .. => (class_id.BASIC, basic_method.CANCEL_OK)
  | confirmSelect => (class_id.CONFIRM, confirm_method.SELECT_OK)

/-- What the call returns when the `await` gave `value`. --/
def returns (value : Reply) : Request κ → Reply
  | assertQueue .. => value
  | consume .. => value
  | _ => .undefined

end Request

/-- How a promise ends: with a value, with the error of a close, or with what the call threw before it waited. --/
inductive Settlement where
  | fulfilled (value : Reply)
  | rejected (code : UInt16) (text : String)
  | thrown
  deriving DecidableEq

/-- A channel with the calls that its user has made. A call has a number and is what its deferred belongs to. --/
structure Session (κ : Type) where
  channel : Channel κ
  calls : Nat := 0
  /-- The values of `replyWaiters`. -/
  deferreds : Assoc (UInt16 × UInt16) (Nat × Request κ) := ∅
  jobs : List ((Nat × Request κ) × Settlement) := []
  settled : List (Nat × Settlement) := []

/-- What can happen to a channel. --/
inductive Event (κ : Type) where
  | call (request : Request κ)
  | frame (frame : Frame)
  | resume

/-- The end that an effect brings to the promise of a waiter. --/
def Effect.settles {κ : Type} : Effect κ → Option ((UInt16 × UInt16) × Settlement)
  | .resolve classId methodId value => some ((classId, methodId), .fulfilled value)
  | .reject classId methodId code text => some ((classId, methodId), .rejected code text)
  | _ => none

/-- The state that a handler leaves, also when it throws. --/
def Outcome.state {κ : Type} : Outcome κ → Channel κ
  | .ok ch => ch
  | .error ch => ch

namespace Session
variable {κ : Type} (s : Session κ)

def start (id : UInt16) (listening : Bool) : Session κ := { channel := { id, open_ := true, listening } }

/-- `_waitFor`. A deferred that is there under the same class and method is replaced. --/
def waitFor (key : UInt16 × UInt16) (call : Nat × Request κ) : Session κ :=
  { s with
    channel := if key ∈ s.channel.replyWaiters then s.channel
      else { s.channel with replyWaiters := s.channel.replyWaiters ++ [key] }
    deferreds := s.deferreds.insert key call }

/-- A call of one of the request methods. If the arguments cannot be written, nothing is sent. --/
def call (request : Request κ) : Session κ :=
  let s' := { s with calls := s.calls + 1 }
  match request.writeArgs with
  | none => { s' with settled := s.settled ++ [(s.calls, .thrown)] }
  | some args =>
    let frame := methodFrame s.channel.id request.method.1 request.method.2 args
    ({ s' with channel := s.channel.does [.send frame] }).waitFor request.awaits (s.calls, request)

/-- A promise is settled: the rest of its call becomes a job. --/
def settle (key : UInt16 × UInt16) (settlement : Settlement) : Session κ :=
  match s.deferreds.lookup key with
  | none => s
  | some call => { s with deferreds := s.deferreds.erase key, jobs := s.jobs ++ [(call, settlement)] }

/-- A frame is handled, and the promises that this settles make jobs. --/
def handle (frame : Frame) : Session κ :=
  let ch := (({ s.channel with effects := [] }).handleFrame frame).state
  let s' := { s with channel := { ch with effects := s.channel.effects ++ ch.effects } }
  (ch.effects.filterMap Effect.settles).foldl (fun s (key, settlement) => s.settle key settlement) s'

/-- What `consume` does after its `await`; the other calls only return. --/
def register (request : Request κ) (value : Reply) (ch : Channel κ) : Channel κ :=
  match request, value with
  | .consume _ callback _ _ _ _ _, .tag tag => { ch with consumers := ch.consumers.insert tag callback }
  | _, _ => ch

/-- The oldest job runs. --/
def resume : Session κ :=
  match s.jobs with
  | [] => s
  | ((number, request), .fulfilled value) :: jobs =>
    { s with
      channel := register request value s.channel, jobs
      settled := s.settled ++ [(number, .fulfilled (request.returns value))] }
  | ((number, _), settlement) :: jobs => { s with jobs, settled := s.settled ++ [(number, settlement)] }

def step : Session κ → Event κ → Session κ
  | s, .call request => s.call request
  | s, .frame frame => s.handle frame
  | s, .resume => s.resume

def run (events : List (Event κ)) : Session κ := events.foldl step s

/-- All jobs run. --/
def drain : Session κ := s.run (List.replicate s.jobs.length .resume)

/-- How the promise of a call has ended. --/
def outcome (number : Nat) : Option Settlement := s.settled.lookup number

end Session
end Broko.Sdk
