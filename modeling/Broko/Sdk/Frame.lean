import Broko.Amqp.Frame
import Broko.Lib.Streaming
import Broko.Sdk.Types

/-! `sdk/broko-client-js/lib/frame.js`: frames and content headers as the client writes and reads them. The class, method
    and frame numbers of `methods.js` and its `PROP_FLAGS` are those of `src/amqp`. -/

namespace Broko.Sdk
open Amqp BasicProperties

/-- The properties of a message. --/
structure Properties where
  contentType : Option String := none
  contentEncoding : Option String := none
  headers : Option JsTable := none
  deliveryMode : Option UInt8 := none
  priority : Option UInt8 := none
  correlationId : Option String := none
  replyTo : Option String := none
  expiration : Option String := none
  messageId : Option String := none
  timestamp : Option UInt64 := none
  type : Option String := none
  userId : Option String := none
  appId : Option String := none
  clusterId : Option String := none

/-- The `options` of a publish: the properties, another way to give the delivery mode, and the flags. --/
structure Options extends Properties where
  persistent : Option Bool := none
  mandatory : Bool := false
  immediate : Bool := false

namespace Options

/-- The delivery mode that is written. --/
def mode (p : Options) : Option UInt8 := p.deliveryMode <|> p.persistent.map fun v => if v then 2 else 1

def flags (p : Options) : UInt16 :=
  flagOf p.contentType PROP_CONTENT_TYPE ||| flagOf p.contentEncoding PROP_CONTENT_ENCODING |||
  flagOf p.headers PROP_HEADERS ||| flagOf p.mode PROP_DELIVERY_MODE |||
  flagOf p.priority PROP_PRIORITY ||| flagOf p.correlationId PROP_CORRELATION_ID |||
  flagOf p.replyTo PROP_REPLY_TO ||| flagOf p.expiration PROP_EXPIRATION |||
  flagOf p.messageId PROP_MESSAGE_ID ||| flagOf p.timestamp PROP_TIMESTAMP |||
  flagOf p.type PROP_TYPE ||| flagOf p.userId PROP_USER_ID ||| flagOf p.appId PROP_APP_ID |||
  flagOf p.clusterId PROP_CLUSTER_ID

end Options

/-- `_encodeBasicProperties`. --/
def encodeBasicProperties (p : Options) : Option Bytes :=
  ((p.headers.map writeFieldTable).getD (some [])).map fun headers =>
    writeUint16 p.flags ++
    (writeProp p.contentType writeShortString ++
    (writeProp p.contentEncoding writeShortString ++
    (headers ++
    (writeProp p.mode writeUint8 ++
    (writeProp p.priority writeUint8 ++
    (writeProp p.correlationId writeShortString ++
    (writeProp p.replyTo writeShortString ++
    (writeProp p.expiration writeShortString ++
    (writeProp p.messageId writeShortString ++
    (writeProp p.timestamp writeUint64 ++
    (writeProp p.type writeShortString ++
    (writeProp p.userId writeShortString ++
    (writeProp p.appId writeShortString ++
    writeProp p.clusterId writeShortString)))))))))))))

/-- `_decodeBasicProperties`. --/
def decodeBasicProperties : Read Properties := do
  let flags ← readUint16
  let contentType ← readProp flags PROP_CONTENT_TYPE Codec.readShortString
  let contentEncoding ← readProp flags PROP_CONTENT_ENCODING Codec.readShortString
  let headers ← readProp flags PROP_HEADERS Codec.readFieldTable
  let deliveryMode ← readProp flags PROP_DELIVERY_MODE readUint8
  let priority ← readProp flags PROP_PRIORITY readUint8
  let correlationId ← readProp flags PROP_CORRELATION_ID Codec.readShortString
  let replyTo ← readProp flags PROP_REPLY_TO Codec.readShortString
  let expiration ← readProp flags PROP_EXPIRATION Codec.readShortString
  let messageId ← readProp flags PROP_MESSAGE_ID Codec.readShortString
  let timestamp ← readProp flags PROP_TIMESTAMP readUint64
  let type ← readProp flags PROP_TYPE Codec.readShortString
  let userId ← readProp flags PROP_USER_ID Codec.readShortString
  let appId ← readProp flags PROP_APP_ID Codec.readShortString
  let clusterId ← readProp flags PROP_CLUSTER_ID Codec.readShortString
  return { contentType, contentEncoding, headers, deliveryMode, priority, correlationId, replyTo, expiration, messageId,
           timestamp, type, userId, appId, clusterId }

def encodeHeaderFrame (channel classId : UInt16) (bodySize : Nat) (props : Options) : Option Frame :=
  (encodeBasicProperties props).map fun encoded =>
    { type := FRAME_HEADER, channel,
      payload := writeUint16 classId ++ writeUint16 0 ++ writeUint64 (UInt64.ofNat bodySize) ++ encoded }

def encodeBodyFrame (channel : UInt16) (body : Bytes) : Frame := { type := FRAME_BODY, channel, payload := body }

def decodeHeader : Read (UInt64 × Properties) := do
  let _classId ← readUint16
  let _weight ← readUint16
  let bodySize ← readUint64
  let props ← decodeBasicProperties
  return (bodySize, props)

/-- The class and the method, and the arguments behind them. --/
def decodeMethod : Read (UInt16 × UInt16) := do
  let classId ← readUint16
  let methodId ← readUint16
  return (classId, methodId)

/-! ### Frames -/

/-- `_frame`. `writeUInt32BE` throws for a length that needs more than 32 bits. --/
def frame (type : UInt8) (channel : UInt16) (payload : Bytes) : Option Bytes :=
  if payload.length < 2 ^ 32 then
    some (writeUint8 type ++ writeUint16 channel ++ writeUint32 (UInt32.ofNat payload.length) ++ payload ++
      writeUint8 FRAME_END)
  else none

/-- A `FrameParser`: its `buf`. --/
abbrev FrameParser := Bytes

/-- `AMQP framing error: invalid frame-end byte 0x..` --/
structure FramingError where
  frameEnd : UInt8
  deriving DecidableEq, Repr

namespace FrameParser

def feed (buf : FrameParser) (chunk : Bytes) : FrameParser := if buf.length = 0 then chunk else buf ++ chunk

/-- The frame at the front of the buffer and the parser after it, `none` for null. A throw leaves the parser as it is. --/
def next (buf : FrameParser) : Except FramingError (Option (Frame × FrameParser)) :=
  if buf.length < 7 then .ok none
  else
    let size := BigEndian.decode ((buf.drop 3).take 4)
    if buf.length < 7 + size + 1 then .ok none
    else
      let type := buf.headD 0
      let channel := UInt16.ofNat (BigEndian.decode ((buf.drop 1).take 2))
      let frameEnd := (buf.drop (7 + size)).headD 0
      if frameEnd ≠ FRAME_END then .error ⟨frameEnd⟩
      else
        let payload := (buf.drop 7).take size
        .ok (some ({ type, channel, payload }, buf.drop (7 + size + 1)))

/-- The frames that come out when the chunks are fed one by one, and `next` is called after each of them until it returns
    null. A throw ends the run. --/
def received (buf : FrameParser) : List Bytes → Streaming.Result FramingError UInt8 Frame
  | [] => ⟨[], none, buf⟩
  | chunk :: chunks =>
    let r := Streaming.pull next (buf.feed chunk)
    match r.error with
    | some _ => r
    | none => (received r.buffer chunks).after r.items

end FrameParser
end Broko.Sdk
