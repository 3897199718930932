import Broko.Broker.Channel

/-! `src/broker/connection.h`, `src/broker/connection.cpp` and `UserStore::verify` of `src/broker/auth.h`: the
    handshake, the dispatch of frames to channels, and the end of a connection. -/

namespace Broko.Broker
open Amqp Storage

/-- `UserStore::verify`. --/
def UserStore.verify (u : UserStore) (user password : Bytes) : Bool :=
  if u.loaded then u.users.lookup user == some password
  else user = ascii "guest" && password = ascii "guest"

/-- User and password of a PLAIN response. --/
def plainCredentials (response : Bytes) : Bytes × Bytes :=
  let response := if response.head? = some 0 then response.tail else response
  (response.takeWhile (· != 0), (response.dropWhile (· != 0)).drop 1)

/-- User and password of an AMQPLAIN response. --/
def amqplainCredentials (fields : FieldTable) : Bytes × Bytes :=
  (((fields.find (ascii "LOGIN")).map Exchange.stringVal).getD [],
    ((fields.find (ascii "PASSWORD")).map Exchange.stringVal).getD [])

def capabilities : FieldTable :=
  ([("publisher_confirms", true), ("exchange_exchange_bindings", false), ("basic.nack", true),
    ("consumer_cancel_notify", true), ("connection.blocked", false), ("consumer_priorities", false),
    ("authentication_failure_close", true), ("per_consumer_qos", true), ("direct_reply_to", false)]).foldl
    (fun t (name, v) => FieldTable.assign (ascii name) (.boolean v) t) []

def serverProps : FieldTable :=
  FieldTable.assign (ascii "capabilities") (.table capabilities)
    (([("product", "Broko"), ("version", "0.1.0"), ("platform", "C++"), ("copyright", ""),
      ("information", "https://github.com/broko")]).foldl
      (fun t (name, v) => FieldTable.assign (ascii name) (.longString (ascii v)) t) [])

def HARD_FRAME_MAX : Nat := 16 * 1024 * 1024

/-- `effectiveMax` of `readFrameHeader`. --/
def effectiveMax (conn : Connection) : Nat := if 0 < conn.frameMax then conn.frameMax.toNat else HARD_FRAME_MAX

namespace AmqpServer

variable (c : Nat)

/-! ### The end of a connection -/

/-- `Channel::removeAllConsumers` of a channel that was set closed. --/
def closeChannel (s : AmqpServer) (num : UInt16) : AmqpServer :=
  (s.modifyChannel c num fun ch => { ch with isOpen := false }).removeAllConsumers c num

def cleanupChannel (s : AmqpServer) (num : UInt16) : AmqpServer :=
  match s.channel c num with
  | none => s
  | some _ =>
    (s.closeChannel c num).modifyConnection c fun conn => { conn with channels := conn.channels.erase num }

def cleanupAllChannels (s : AmqpServer) : AmqpServer :=
  match s.connection c with
  | none => s
  | some conn =>
    (conn.channels.keys.foldl (closeChannel c) s).modifyConnection c fun conn => { conn with channels := ∅ }

/-- `AmqpConnection::shutdown`. The entry of a closed connection stays for the tasks left on its strand. --/
def shutdown (s : AmqpServer) : AmqpServer :=
  match s.connection c with
  | none => s
  | some conn =>
    if conn.state = .CLOSED then s
    else
      let s := s.modifyConnection c fun conn => { conn with state := .CLOSED, reading := false }
      (s.cleanupAllChannels c).removeConnectionQueues c

/-- `AmqpConnection::sendConnectionClose`. --/
def sendConnectionClose (s : AmqpServer) (replyCode : UInt16) (replyText : Bytes) (classId methodId : UInt16) :
    AmqpServer :=
  match s.connection c with
  | none => s
  | some conn =>
    if conn.state = .CLOSING ∨ conn.state = .CLOSED then s
    else
      (s.modifyConnection c fun conn => { conn with state := .CLOSING }).sendMethodFrame c 0 class_id.CONNECTION
        connection_method.CLOSE
        (writeUint16 replyCode ++ writeShortString replyText ++ writeUint16 classId ++ writeUint16 methodId)

/-! ### Handshake -/

def sendConnectionStart (s : AmqpServer) : AmqpServer :=
  s.sendMethodFrame c 0 class_id.CONNECTION connection_method.START
    (writeUint8 0 ++ writeUint8 9 ++ writeFieldTable serverProps ++ writeLongString (ascii "PLAIN AMQPLAIN") ++
      writeLongString (ascii "en_US"))

/-- The credentials of a Start-Ok, or the mechanism if it is not supported. --/
def readStartOk : Read (Except Bytes (Bytes × Bytes × Bytes)) := do
  let _clientProps ← readFieldTable 0
  let mechanism ← readShortString
  let response ← readLongString
  let _locale ← readShortString
  if mechanism = ascii "PLAIN" then
    return .ok (mechanism, plainCredentials response)
  else if mechanism = ascii "AMQPLAIN" then do
    let fields ← readInner (readFieldTable 0) response
    return .ok (mechanism, amqplainCredentials fields)
  else return .error mechanism

def sendConnectionTune (s : AmqpServer) : AmqpServer :=
  match s.connection c with
  | none => s
  | some conn =>
    s.sendMethodFrame c 0 class_id.CONNECTION connection_method.TUNE
      (writeUint16 conn.channelMax ++ writeUint32 conn.frameMax ++ writeUint16 conn.heartbeatInterval)

def handleStartOk (s : AmqpServer) (buf : Buffer) : Outcome :=
  if (s.connection c).map Connection.state ≠ some .AWAITING_START_OK then
    .ok (s.sendConnectionClose c reply_code.COMMAND_INVALID (ascii "Unexpected Start-Ok") class_id.CONNECTION
      connection_method.START_OK)
  else
    withArgs readStartOk buf s fun args =>
      match args with
      | .error mechanism =>
        s.sendConnectionClose c reply_code.ACCESS_REFUSED (ascii "Unsupported mechanism: " ++ mechanism)
          class_id.CONNECTION connection_method.START_OK
      | .ok (mechanism, user, pass) =>
        if s.userStore.verify user pass then
          (s.modifyConnection c fun conn =>
            { conn with authUser := user, state := .AWAITING_TUNE_OK }).sendConnectionTune c
        else
          s.sendConnectionClose c reply_code.ACCESS_REFUSED
            (ascii "ACCESS_REFUSED - Login was refused using authentication mechanism " ++ mechanism)
            class_id.CONNECTION connection_method.START_OK

/-- The negotiated values: the smaller one, where the client names one. --/
def tune (conn : Connection) (clientChannelMax : UInt16) (clientFrameMax : UInt32) (clientHeartbeat : UInt16) :
    Connection :=
  { conn with
    channelMax := if 0 < clientChannelMax then min conn.channelMax clientChannelMax else conn.channelMax
    frameMax := if 0 < clientFrameMax then min conn.frameMax clientFrameMax else conn.frameMax
    heartbeatInterval :=
      if 0 < clientHeartbeat ∧ 0 < conn.heartbeatInterval then min conn.heartbeatInterval clientHeartbeat
      else if 0 < clientHeartbeat then clientHeartbeat
      else conn.heartbeatInterval
    state := .AWAITING_OPEN }

def handleTuneOk (s : AmqpServer) (buf : Buffer) : Outcome :=
  if (s.connection c).map Connection.state ≠ some .AWAITING_TUNE_OK then
    .ok (s.sendConnectionClose c reply_code.COMMAND_INVALID (ascii "Unexpected Tune-Ok") class_id.CONNECTION
      connection_method.TUNE_OK)
  else
    withArgs (do
      let channelMax ← readUint16
      let frameMax ← readUint32
      let heartbeat ← readUint16
      return (channelMax, frameMax, heartbeat)) buf s fun (channelMax, frameMax, heartbeat) =>
      s.modifyConnection c fun conn => tune conn channelMax frameMax heartbeat

/-- One more byte is read if there is one; that cannot fail. --/
def readOpen : Read Bytes := do
  let virtualHost ← readShortString
  let _reserved1 ← readShortString
  return virtualHost

def handleConnectionOpen (s : AmqpServer) (buf : Buffer) : Outcome :=
  if (s.connection c).map Connection.state ≠ some .AWAITING_OPEN then
    .ok (s.sendConnectionClose c reply_code.COMMAND_INVALID (ascii "Unexpected Open") class_id.CONNECTION
      connection_method.OPEN)
  else
    withArgs readOpen buf s fun virtualHost =>
      if virtualHost ≠ ascii "/" ∧ virtualHost ≠ [] then
        s.sendConnectionClose c reply_code.INVALID_PATH (ascii "Unknown vhost: " ++ virtualHost) class_id.CONNECTION
          connection_method.OPEN
      else
        (s.modifyConnection c fun conn => { conn with state := .OPEN }).sendMethodFrame c 0 class_id.CONNECTION
          connection_method.OPEN_OK (writeShortString [])

/-- Reply code, reply text, class and method, as both close methods carry them. --/
def readClose : Read Unit := do
  let _replyCode ← readUint16
  let _replyText ← readShortString
  let _classId ← readUint16
  let _methodId ← readUint16
  return ()

def handleConnectionClose (s : AmqpServer) (buf : Buffer) : Outcome :=
  withArgs readClose buf s fun _ =>
    (s.sendMethodFrame c 0 class_id.CONNECTION connection_method.CLOSE_OK []).shutdown c

def handleConnectionMethod (s : AmqpServer) (methodId : UInt16) (buf : Buffer) : Outcome :=
  if methodId = connection_method.START_OK then s.handleStartOk c buf
  else if methodId = connection_method.TUNE_OK then s.handleTuneOk c buf
  else if methodId = connection_method.OPEN then s.handleConnectionOpen c buf
  else if methodId = connection_method.CLOSE then s.handleConnectionClose c buf
  else if methodId = connection_method.CLOSE_OK then .ok (s.shutdown c)
  else
    .ok (s.sendConnectionClose c reply_code.COMMAND_INVALID
      (ascii "Unexpected connection method " ++ decimal methodId.toNat) class_id.CONNECTION methodId)

/-! ### Channels -/

/-- `channels_[channelNum] = channel`, in any state and over a channel that is there. --/
def openChannel (s : AmqpServer) (num : UInt16) : AmqpServer :=
  let ref := s.nextChannel
  ({ s with nextChannel := ref + 1 }).modifyConnection c fun conn =>
    { conn with channels := conn.channels.insert num { ref, frameMax := conn.frameMax, isOpen := true } }

def handleChannelOpen (s : AmqpServer) (num : UInt16) (buf : Buffer) : Outcome :=
  withArgs readShortString buf s fun _reserved =>
    match s.connection c with
    | none => s
    | some conn =>
      if num = 0 ∨ conn.channelMax < num then
        s.sendConnectionClose c reply_code.CHANNEL_ERROR (ascii "Invalid channel number " ++ decimal num.toNat)
          class_id.CHANNEL channel_method.OPEN
      else
        (s.openChannel c num).sendMethodFrame c num class_id.CHANNEL channel_method.OPEN_OK (writeLongString [])

def handleChannelClose (s : AmqpServer) (num : UInt16) (buf : Buffer) : Outcome :=
  withArgs readClose buf s fun _ =>
    (s.cleanupChannel c num).sendMethodFrame c num class_id.CHANNEL channel_method.CLOSE_OK []

def handleChannelFlow (s : AmqpServer) (num : UInt16) (buf : Buffer) : Outcome :=
  withArgs readUint8 buf s fun bits =>
    s.sendMethodFrame c num class_id.CHANNEL channel_method.FLOW_OK (writeUint8 (if hasBit bits 0x01 then 1 else 0))

/-! ### Frames -/

/-- The channel that a frame is for, if it is open. --/
def openChannelAt (s : AmqpServer) (num : UInt16) : Option Channel := (s.channel c num).filter Channel.isOpen

/-- `handleMethodFrame` from the lookup of the channel on. --/
def handleOnChannel (s : AmqpServer) (num classId methodId : UInt16) (buf : Buffer) : Outcome :=
  match s.openChannelAt c num with
  | none =>
    .ok (s.sendConnectionClose c reply_code.CHANNEL_ERROR (ascii "Channel " ++ decimal num.toNat ++ ascii " not open")
      classId methodId)
  | some _ => s.handleMethod c num classId methodId buf

def readMethodIds : Read (UInt16 × UInt16) := do
  let classId ← readUint16
  let methodId ← readUint16
  return (classId, methodId)

def handleMethodFrame (s : AmqpServer) (num : UInt16) (buf : Buffer) : Outcome :=
  match readMethodIds buf with
  | .error _ => .error s
  | .ok ((classId, methodId), buf) =>
    if classId = class_id.CONNECTION then
      if num ≠ 0 then
        .ok (s.sendConnectionClose c reply_code.COMMAND_INVALID (ascii "Connection method on non-zero channel") classId
          methodId)
      else s.handleConnectionMethod c methodId buf
    else if classId = class_id.CHANNEL ∧ methodId = channel_method.OPEN then s.handleChannelOpen c num buf
    else if classId = class_id.CHANNEL ∧ methodId = channel_method.CLOSE then s.handleChannelClose c num buf
    else if classId = class_id.CHANNEL ∧ methodId = channel_method.CLOSE_OK then .ok (s.cleanupChannel c num)
    else if classId = class_id.CHANNEL ∧ methodId = channel_method.FLOW then s.handleChannelFlow c num buf
    else s.handleOnChannel c num classId methodId buf

/-- A method frame on a connection that is closing: only Close-Ok has an effect. --/
def handleClosing (s : AmqpServer) (buf : Buffer) : Outcome :=
  match readMethodIds buf with
  | .error _ => .error s
  | .ok ((classId, methodId), _) =>
    .ok (if classId = class_id.CONNECTION ∧ methodId = connection_method.CLOSE_OK then s.shutdown c else s)

def handleFrame (s : AmqpServer) (frame : Frame) : Outcome :=
  if (s.connection c).map Connection.state = some .CLOSING ∧ frame.type = FRAME_METHOD then
    s.handleClosing c (Buffer.ofBytes frame.payload)
  else if frame.type = FRAME_METHOD then s.handleMethodFrame c frame.channel (Buffer.ofBytes frame.payload)
  else if frame.type = FRAME_HEADER then
    match s.openChannelAt c frame.channel with
    | none => .ok s
    | some _ => s.handleContentHeader c frame.channel (Buffer.ofBytes frame.payload)
  else if frame.type = FRAME_BODY then
    match s.openChannelAt c frame.channel with
    | none => .ok s
    | some _ => .ok (s.handleContentBody c frame.channel frame.payload)
  else if frame.type = FRAME_HEARTBEAT then .ok s
  else .ok (s.sendConnectionClose c reply_code.FRAME_ERROR (ascii "Unknown frame type") 0 0)

/-- The connection is closed from this side and no further read is started. --/
def stopReading (s : AmqpServer) (replyText : Bytes) : AmqpServer :=
  (s.sendConnectionClose c reply_code.FRAME_ERROR replyText 0 0).modifyConnection c fun conn =>
    { conn with reading := false }

/-- `readFrameHeader` and `readFramePayload` on a frame that has arrived. --/
def receiveFrame (s : AmqpServer) (conn : Connection) (frame : Frame) (frameEnd : UInt8) : AmqpServer :=
  if effectiveMax conn < frame.payload.length then s.stopReading c (ascii "Frame too large")
  else if frameEnd ≠ FRAME_END then s.stopReading c (ascii "Invalid frame-end byte")
  else
    match s.handleFrame c frame with
    | .ok s => s
    | .error s => s.stopReading c (ascii "Internal error")

/-- `readProtocolHeader` on the eight bytes that have arrived. --/
def receiveProtocolHeader (s : AmqpServer) (header : Bytes) : AmqpServer :=
  if header = PROTOCOL_HEADER then
    (s.modifyConnection c fun conn => { conn with state := .AWAITING_START_OK }).sendConnectionStart c
  else (s.send c .protocolHeader).shutdown c

end AmqpServer
end Broko.Broker
