import Broko.Amqp.Types

/-! `src/amqp/content.h`: the properties of a content header. A flag word says which of the fourteen
    properties follow, in a fixed order; the two low bits belong to no property. -/

namespace Broko.Amqp

def PROP_CONTENT_TYPE : UInt16 := (1 : UInt16) <<< 15
def PROP_CONTENT_ENCODING : UInt16 := (1 : UInt16) <<< 14
def PROP_HEADERS : UInt16 := (1 : UInt16) <<< 13
def PROP_DELIVERY_MODE : UInt16 := (1 : UInt16) <<< 12
def PROP_PRIORITY : UInt16 := (1 : UInt16) <<< 11
def PROP_CORRELATION_ID : UInt16 := (1 : UInt16) <<< 10
def PROP_REPLY_TO : UInt16 := (1 : UInt16) <<< 9
def PROP_EXPIRATION : UInt16 := (1 : UInt16) <<< 8
def PROP_MESSAGE_ID : UInt16 := (1 : UInt16) <<< 7
def PROP_TIMESTAMP : UInt16 := (1 : UInt16) <<< 6
def PROP_TYPE : UInt16 := (1 : UInt16) <<< 5
def PROP_USER_ID : UInt16 := (1 : UInt16) <<< 4
def PROP_APP_ID : UInt16 := (1 : UInt16) <<< 3
def PROP_CLUSTER_ID : UInt16 := (1 : UInt16) <<< 2

structure BasicProperties where
  content_type : Option Bytes := none
  content_encoding : Option Bytes := none
  headers : Option FieldTable := none
  delivery_mode : Option UInt8 := none
  priority : Option UInt8 := none
  correlation_id : Option Bytes := none
  reply_to : Option Bytes := none
  expiration : Option Bytes := none
  message_id : Option Bytes := none
  timestamp : Option UInt64 := none
  type : Option Bytes := none
  user_id : Option Bytes := none
  app_id : Option Bytes := none
  cluster_id : Option Bytes := none
  deriving Repr, BEq

namespace BasicProperties

/-- `flags & prop` as a condition. --/
def hasFlag (flags prop : UInt16) : Bool := flags &&& prop != 0

/-- `if (flags & prop) field = read();` --/
def readProp {α : Type} (flags prop : UInt16) (read : Read α) : Read (Option α) :=
  if hasFlag flags prop then do return some (← read) else return none

def decode : Read BasicProperties := do
  let flags ← readUint16
  let content_type ← readProp flags PROP_CONTENT_TYPE readShortString
  let content_encoding ← readProp flags PROP_CONTENT_ENCODING readShortString
  let headers ← readProp flags PROP_HEADERS (readFieldTable 0)
  let delivery_mode ← readProp flags PROP_DELIVERY_MODE readUint8
  let priority ← readProp flags PROP_PRIORITY readUint8
  let correlation_id ← readProp flags PROP_CORRELATION_ID readShortString
  let reply_to ← readProp flags PROP_REPLY_TO readShortString
  let expiration ← readProp flags PROP_EXPIRATION readShortString
  let message_id ← readProp flags PROP_MESSAGE_ID readShortString
  let timestamp ← readProp flags PROP_TIMESTAMP readUint64
  let type ← readProp flags PROP_TYPE readShortString
  let user_id ← readProp flags PROP_USER_ID readShortString
  let app_id ← readProp flags PROP_APP_ID readShortString
  let cluster_id ← readProp flags PROP_CLUSTER_ID readShortString
  return { content_type, content_encoding, headers, delivery_mode, priority, correlation_id, reply_to,
           expiration, message_id, timestamp, type, user_id, app_id, cluster_id }

/-- `if (field) flags |= prop;` --/
def flagOf {α : Type} (field : Option α) (prop : UInt16) : UInt16 := if field.isSome then prop else 0

def flags (p : BasicProperties) : UInt16 :=
  flagOf p.content_type PROP_CONTENT_TYPE ||| flagOf p.content_encoding PROP_CONTENT_ENCODING |||
  flagOf p.headers PROP_HEADERS ||| flagOf p.delivery_mode PROP_DELIVERY_MODE |||
  flagOf p.priority PROP_PRIORITY ||| flagOf p.correlation_id PROP_CORRELATION_ID |||
  flagOf p.reply_to PROP_REPLY_TO ||| flagOf p.expiration PROP_EXPIRATION |||
  flagOf p.message_id PROP_MESSAGE_ID ||| flagOf p.timestamp PROP_TIMESTAMP |||
  flagOf p.type PROP_TYPE ||| flagOf p.user_id PROP_USER_ID ||| flagOf p.app_id PROP_APP_ID |||
  flagOf p.cluster_id PROP_CLUSTER_ID

/-- `if (field) buf.write(*field);` --/
def writeProp {α : Type} (field : Option α) (write : α → Bytes) : Bytes := (field.map write).getD []

def encode (p : BasicProperties) : Bytes :=
  writeUint16 p.flags ++
  (writeProp p.content_type writeShortString ++
  (writeProp p.content_encoding writeShortString ++
  (writeProp p.headers writeFieldTable ++
  (writeProp p.delivery_mode writeUint8 ++
  (writeProp p.priority writeUint8 ++
  (writeProp p.correlation_id writeShortString ++
  (writeProp p.reply_to writeShortString ++
  (writeProp p.expiration writeShortString ++
  (writeProp p.message_id writeShortString ++
  (writeProp p.timestamp writeUint64 ++
  (writeProp p.type writeShortString ++
  (writeProp p.user_id writeShortString ++
  (writeProp p.app_id writeShortString ++
  writeProp p.cluster_id writeShortString)))))))))))))

end BasicProperties
end Broko.Amqp
