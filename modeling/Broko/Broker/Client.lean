import Broko.Broker.Server

/-! The frames of a client, as `sdk/broko-client-js` sends them: what arrives at the server on connection `c`. -/

namespace Broko.Broker
open Amqp Storage

namespace Client

variable (c : Nat) (id : UInt16)

/-- `_sendMethod`. --/
def sendMethod (classId methodId : UInt16) (args : Bytes) : Event :=
  .frame c (methodFrame id classId methodId args) FRAME_END

/-- The flag at its place in a byte of bits. --/
def bit (n : UInt8) (v : Bool) : UInt8 := if v then n else 0

/-! ### Connection -/

def startOk (user password : String) : Event :=
  sendMethod c 0 class_id.CONNECTION connection_method.START_OK
    (writeFieldTable [] ++ writeShortString (ascii "PLAIN") ++
      writeLongString ([0] ++ ascii user ++ [0] ++ ascii password) ++ writeShortString (ascii "en_US"))

def tuneOk : Event :=
  sendMethod c 0 class_id.CONNECTION connection_method.TUNE_OK
    (writeUint16 2047 ++ writeUint32 131072 ++ writeUint16 60)

def openConnection : Event :=
  sendMethod c 0 class_id.CONNECTION connection_method.OPEN
    (writeShortString (ascii "/") ++ writeShortString [] ++ writeUint8 0)

/-- The whole handshake of a connection that is accepted as `c`. --/
def connect : List Event :=
  [.accept, .protocolHeader c PROTOCOL_HEADER, startOk c "guest" "guest", tuneOk c, openConnection c]

/-! ### Channels -/

/-- `_open`. --/
def openChannel : Event := sendMethod c id class_id.CHANNEL channel_method.OPEN (writeShortString [])

def close : Event :=
  sendMethod c id class_id.CHANNEL channel_method.CLOSE
    (writeUint16 200 ++ writeShortString (ascii "Normal shutdown") ++ writeUint16 0 ++ writeUint16 0)

def confirmSelect : Event := sendMethod c id class_id.CONFIRM confirm_method.SELECT (writeUint8 0)

/-! ### Queues -/

def assertQueue (name : Bytes) (passive durable exclusive autoDelete : Bool) (args : FieldTable) : Event :=
  sendMethod c id class_id.QUEUE queue_method.DECLARE
    (writeUint16 0 ++ writeShortString name ++
      writeUint8 (bit 1 passive ||| bit 2 durable ||| bit 4 exclusive ||| bit 8 autoDelete) ++ writeFieldTable args)

def deleteQueue (name : Bytes) (ifUnused ifEmpty : Bool) : Event :=
  sendMethod c id class_id.QUEUE queue_method.DELETE
    (writeUint16 0 ++ writeShortString name ++ writeUint8 (bit 1 ifUnused ||| bit 2 ifEmpty))

def bindQueue (queue exchange routingKey : Bytes) (args : FieldTable) : Event :=
  sendMethod c id class_id.QUEUE queue_method.BIND
    (writeUint16 0 ++ writeShortString queue ++ writeShortString exchange ++ writeShortString routingKey ++ writeUint8 0 ++
      writeFieldTable args)

def purgeQueue (queue : Bytes) : Event :=
  sendMethod c id class_id.QUEUE queue_method.PURGE (writeUint16 0 ++ writeShortString queue ++ writeUint8 0)

def prefetch (count : UInt16) (global : Bool) : Event :=
  sendMethod c id class_id.BASIC basic_method.QOS
    (writeUint32 0 ++ writeUint16 count ++ writeUint8 (if global then 1 else 0))

/-! ### Messages -/

/-- `publish` of a body that fits into one frame. --/
def publish (exchange routingKey content : Bytes) (mandatory immediate : Bool) (options : BasicProperties) : List Event :=
  [sendMethod c id class_id.BASIC basic_method.PUBLISH
      (writeUint16 0 ++ writeShortString exchange ++ writeShortString routingKey ++
        writeUint8 (bit 1 mandatory ||| bit 2 immediate)),
    .frame c { type := FRAME_HEADER, channel := id, payload := writeUint16 class_id.BASIC ++ writeUint16 0 ++
      writeUint64 (UInt64.ofNat content.length) ++ options.encode } FRAME_END] ++
    if content = [] then [] else [.frame c { type := FRAME_BODY, channel := id, payload := content } FRAME_END]

def sendToQueue (queue content : Bytes) (options : BasicProperties) : List Event :=
  publish c id [] queue content false false options

def consume (queue consumerTag : Bytes) (noLocal noAck exclusive : Bool) : Event :=
  sendMethod c id class_id.BASIC basic_method.CONSUME
    (writeUint16 0 ++ writeShortString queue ++ writeShortString consumerTag ++
      writeUint8 (bit 1 noLocal ||| bit 2 noAck ||| bit 4 exclusive) ++ writeFieldTable [])

def cancel (consumerTag : Bytes) : Event :=
  sendMethod c id class_id.BASIC basic_method.CANCEL (writeShortString consumerTag ++ writeUint8 0)

/-- `basic.get`, which the SDK does not offer. --/
def get (queue : Bytes) (noAck : Bool) : Event :=
  sendMethod c id class_id.BASIC basic_method.GET (writeUint16 0 ++ writeShortString queue ++ writeUint8 (bit 1 noAck))

def ack (deliveryTag : UInt64) (allUpTo : Bool) : Event :=
  sendMethod c id class_id.BASIC basic_method.ACK (writeUint64 deliveryTag ++ writeUint8 (bit 1 allUpTo))

def reject (deliveryTag : UInt64) (requeue : Bool) : Event :=
  sendMethod c id class_id.BASIC basic_method.REJECT (writeUint64 deliveryTag ++ writeUint8 (bit 1 requeue))

end Client
end Broko.Broker
