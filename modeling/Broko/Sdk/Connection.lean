import Broko.Broker.State
import Broko.Sdk.Session

/-! `sdk/broko-client-js/lib/connection.js`: the handshake of the client, the dispatch of frames to its channels, and the
    end of the connection. -/

namespace Broko.Sdk
open Amqp

/-- The `opts` that the connection reads; `undefined` and `null` are `none`. --/
structure ConnectOptions where
  user : Option String := none
  password : Option String := none
  vhost : Option String := none
  heartbeat : Option Nat := none

/-- `value || fallback`, where the empty string is falsy. --/
def orElse (value : Option String) (fallback : String) : String := (value.filter (· ≠ "")).getD fallback

namespace ConnectOptions

variable (opts : ConnectOptions)

def userName : String := orElse opts.user "guest"
def passWord : String := orElse opts.password "guest"
def virtualHost : String := orElse opts.vhost "/"

/-- The `credentials` of PLAIN: a NUL stands before each part. --/
def credentials : String :=
  String.singleton (Char.ofNat 0) ++ opts.userName ++ String.singleton (Char.ofNat 0) ++ opts.passWord

end ConnectOptions

def clientProps : JsTable :=
  [(text "product", .string (text "broko-client-js")), (text "version", .string (text "0.1.0")),
    (text "platform", .string (text "Node.js"))]

/-- How the promise of `connect` has ended, if it has. --/
inductive Opening where
  | pending
  | opened
  | refused (code : UInt16) (text : String)
  /-- The socket was closed before the connection was open. -/
  | lost
  deriving DecidableEq

inductive SocketState where
  | up
  /-- After `end()` nothing is written any more. -/
  | ended
  | destroyed
  deriving DecidableEq

/-- A `Connection` of the client. Its `emitted` errors are those without a promise that takes them. --/
structure Connection (κ : Type) where
  opts : ConnectOptions
  socket : SocketState := .up
  channels : Assoc UInt16 (Channel κ) := ∅
  nextChannelId : Nat := 1
  channelMax : UInt16 := 2047
  frameMax : UInt32 := 131072
  heartbeat : Nat := 60
  closed : Bool := false
  /-- Whether the timers of the heartbeat are set. -/
  timers : Bool := false
  opening : Opening := .pending
  errors : Nat := 0
  sent : List Broker.Outgoing := []

namespace Connection

variable {κ : Type} (conn : Connection κ)

/-- How a handler ends: it returns, or it throws out of the state that it has got to. --/
abbrev Outcome (κ : Type) := Except (Connection κ) (Connection κ)

/-- `_send`. --/
def send (out : Broker.Outgoing) : Connection κ :=
  if conn.socket = .up then { conn with sent := conn.sent ++ [out] } else conn

/-- `_sendMethod` on channel 0. --/
def sendMethod (methodId : UInt16) (args : Bytes) : Connection κ :=
  conn.send (.frame (methodFrame 0 class_id.CONNECTION methodId args))

def withArgs {α : Type} (read : Read α) (args : Buffer) (k : α → Outcome κ) : Outcome κ :=
  match read args with
  | .error _ => .error conn
  | .ok (a, _) => k a

/-- Settles the promise of `connect`, or emits the error if it is settled. --/
def refuse (code : UInt16) (text : String) : Connection κ :=
  if conn.opening = .pending then { conn with opening := .refused code text } else { conn with errors := conn.errors + 1 }

/-! ### Handshake -/

def readStart : Read Unit := do
  let _versionMajor ← readUint8
  let _versionMinor ← readUint8
  let _serverProps ← Codec.readFieldTable
  let _mechanisms ← Codec.readLongString
  let _locales ← Codec.readLongString
  return ()

/-- The arguments of Start-Ok; none where a length needs more than 32 bits. --/
def startOkArgs (opts : ConnectOptions) : Option Bytes :=
  (writeFieldTable clientProps).bind fun props => (writeLongString opts.credentials).map fun credentials =>
    props ++ writeShortString "PLAIN" ++ credentials ++ writeShortString "en_US"

/-- `_onStart`. --/
def onStart (args : Buffer) : Outcome κ :=
  conn.withArgs readStart args fun _ =>
    match startOkArgs conn.opts with
    | none => .error conn
    | some args => .ok (conn.sendMethod connection_method.START_OK args)

def readTune : Read (UInt16 × UInt32 × UInt16) := do
  let channelMax ← readUint16
  let frameMax ← readUint32
  let heartbeat ← readUint16
  return (channelMax, frameMax, heartbeat)

def openArgs (opts : ConnectOptions) : Bytes :=
  writeShortString opts.virtualHost ++ writeShortString "" ++ writeUint8 0

/-- `_onTune`. An interval that needs more than 16 bits cannot be written. --/
def onTune (args : Buffer) : Outcome κ :=
  conn.withArgs readTune args fun (channelMax, frameMax, heartbeat) =>
    let conn := { conn with
      channelMax := if channelMax = 0 then conn.channelMax else channelMax
      frameMax := if frameMax = 0 then conn.frameMax else frameMax
      heartbeat := conn.opts.heartbeat.getD heartbeat.toNat }
    if conn.heartbeat < 2 ^ 16 then
      .ok ((conn.sendMethod connection_method.TUNE_OK
        (writeUint16 conn.channelMax ++ writeUint32 conn.frameMax ++ writeUint16 (UInt16.ofNat conn.heartbeat))).sendMethod
          connection_method.OPEN (openArgs conn.opts))
    else .error conn

/-- `_onOpenOk`. --/
def onOpenOk : Connection κ :=
  { conn with timers := conn.timers || 0 < conn.heartbeat
              opening := if conn.opening = .pending then .opened else conn.opening }

def readClose : Read (UInt16 × String) := do
  let code ← readUint16
  let text ← Codec.readShortString
  let _classId ← readUint16
  let _methodId ← readUint16
  return (code, text)

/-- `socket.end()`. --/
def endSocket : Connection κ := if conn.socket = .up then { conn with socket := .ended } else conn

/-- `_onClose`. --/
def onClose (args : Buffer) : Outcome κ :=
  conn.withArgs readClose args fun (code, text) =>
    .ok (((conn.sendMethod connection_method.CLOSE_OK []).refuse code text).endSocket)

/-- `_handleConnectionMethod`. The class is not looked at. --/
def handleConnectionMethod (methodId : UInt16) (args : Buffer) : Outcome κ :=
  if methodId = connection_method.START then conn.onStart args
  else if methodId = connection_method.TUNE then conn.onTune args
  else if methodId = connection_method.OPEN_OK then .ok conn.onOpenOk
  else if methodId = connection_method.CLOSE then conn.onClose args
  else if methodId = connection_method.CLOSE_OK then .ok conn.endSocket
  else .ok conn

/-! ### Channels -/

/-- What a channel does to its connection. --/
def absorb (id : UInt16) (effects : List (Effect κ)) : Connection κ :=
  effects.foldl (fun conn effect =>
    match effect with
    | .send frame => conn.send (.frame frame)
    | .removeChannel => { conn with channels := conn.channels.erase id }
    | _ => conn) conn

/-- A channel handles something, if it is there. What it throws comes through. --/
def onChannel (id : UInt16) (f : Channel κ → Broko.Sdk.Outcome κ) : Outcome κ :=
  match conn.channels.lookup id with
  | none => .ok conn
  | some ch =>
    let put (ch' : Channel κ) : Connection κ :=
      ({ conn with
        channels := conn.channels.insert id { ch' with effects := ch.effects ++ ch'.effects } }).absorb id ch'.effects
    match f { ch with effects := [] } with
    | .ok ch' => .ok (put ch')
    | .error ch' => .error (put ch')

/-- `_handleFrame`. --/
def handleFrame (frame : Frame) : Outcome κ :=
  if frame.type = FRAME_HEARTBEAT then .ok conn
  else if frame.type = FRAME_METHOD then
    match decodeMethod (Buffer.ofBytes frame.payload) with
    | .error _ => .error conn
    | .ok ((classId, methodId), args) =>
      if frame.channel = 0 then conn.handleConnectionMethod methodId args
      else conn.onChannel frame.channel fun ch => ch.handleMethod classId methodId args
  else if frame.type = FRAME_HEADER then conn.onChannel frame.channel fun ch => ch.handleHeader frame.payload
  else if frame.type = FRAME_BODY then conn.onChannel frame.channel fun ch => ch.handleBody frame.payload
  else .ok conn

/-- `_fatal`. --/
def fatal : Connection κ := { conn with socket := .destroyed, errors := conn.errors + 1 }

/-- `_onData` on a frame that the parser gives. --/
def receive (frame : Frame) : Connection κ :=
  if conn.socket = .destroyed then conn
  else
    match conn.handleFrame frame with
    | .ok conn => conn
    | .error conn => conn.fatal

/-- `_onSocketClose`. --/
def onSocketClose : Connection κ :=
  { conn with
    closed := true, timers := false, channels := ∅
    opening := if conn.opening = .pending then .lost else conn.opening }

/-- The constructor and `connect`, once the socket is there. --/
def connect (opts : ConnectOptions) : Connection κ := { opts, sent := [.protocolHeader] }

end Connection
end Broko.Sdk
