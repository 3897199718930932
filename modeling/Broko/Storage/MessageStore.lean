import Broko.Broker.Message

/-! `src/storage/message_store.h`: the write-ahead log.

    The file is a byte string and a store operation appends one entry to it: its size, a type byte, a
    payload and a CRC of the payload. `recoverLocked` replays the entries from the start of the file and
    stops at the first one that it cannot accept. Stream and file operations are taken to succeed. -/

namespace Broko.Storage
open Amqp Broker

def ENTRY_MESSAGE : UInt8 := 1
def ENTRY_ACK : UInt8 := 2
def ENTRY_QUEUE_DECLARE : UInt8 := 3
def ENTRY_EXCHANGE_DECLARE : UInt8 := 4
def ENTRY_BINDING : UInt8 := 5
def ENTRY_QUEUE_DELETE : UInt8 := 6
def ENTRY_EXCHANGE_DELETE : UInt8 := 7
def ENTRY_UNBIND : UInt8 := 8

structure StoredMessage where
  id : UInt64
  queue_name : Bytes
  exchange : Bytes
  routing_key : Bytes
  properties : BasicProperties
  body : Bytes
  deriving Repr

structure StoredQueueDecl where
  name : Bytes
  durable : Bool
  auto_delete : Bool
  deriving DecidableEq, Repr

structure StoredExchangeDecl where
  name : Bytes
  type : Bytes
  durable : Bool
  auto_delete : Bool
  internal : Bool
  deriving DecidableEq, Repr

structure StoredBinding where
  queue : Bytes
  exchange : Bytes
  routing_key : Bytes
  deriving DecidableEq, Repr

def MAX_ENTRY_SIZE : Nat := 64 * 1024 * 1024

/-! ### Entries -/

/-- What one entry of the log says. --/
inductive Entry where
  | message (m : StoredMessage)
  | ack (id : UInt64) (queue : Bytes)
  | queueDeclare (d : StoredQueueDecl)
  | exchangeDeclare (d : StoredExchangeDecl)
  | binding (b : StoredBinding)
  | queueDelete (name : Bytes)
  | exchangeDelete (name : Bytes)
  | unbind (b : StoredBinding)
  deriving Repr

def writeString (s : Bytes) : Bytes := writeUint32 (UInt32.ofNat s.length) ++ s

def writeFlag (v : Bool) : Bytes := writeUint8 (if v then 1 else 0)

def readString : Read Bytes := do
  let len ← readUint32
  readBytes len.toNat

def readFlag : Read Bool := do return (← readUint8) != 0

namespace Entry

def type : Entry → UInt8
  | .message _ => ENTRY_MESSAGE
  | .ack _ _ => ENTRY_ACK
  | .queueDeclare _ => ENTRY_QUEUE_DECLARE
  | .exchangeDeclare _ => ENTRY_EXCHANGE_DECLARE
  | .binding _ => ENTRY_BINDING
  | .queueDelete _ => ENTRY_QUEUE_DELETE
  | .exchangeDelete _ => ENTRY_EXCHANGE_DELETE
  | .unbind _ => ENTRY_UNBIND

/-- The payload buffer that the `store` functions and `compactIfNeeded` fill for an entry. --/
def payload : Entry → Bytes
  | .message m =>
    writeUint64 m.id ++ (writeString m.queue_name ++ (writeString m.exchange ++ (writeString m.routing_key ++
      (writeString m.properties.encode ++ writeString m.body))))
  | .ack id queue => writeUint64 id ++ writeString queue
  | .queueDeclare d => writeString d.name ++ (writeFlag d.durable ++ writeFlag d.auto_delete)
  | .exchangeDeclare d =>
    writeString d.name ++ (writeString d.type ++
      (writeFlag d.durable ++ (writeFlag d.auto_delete ++ writeFlag d.internal)))
  | .binding b => writeString b.queue ++ (writeString b.exchange ++ writeString b.routing_key)
  | .queueDelete name => writeString name
  | .exchangeDelete name => writeString name
  | .unbind b => writeString b.queue ++ (writeString b.exchange ++ writeString b.routing_key)

end Entry

/-- One round of the inner loop of `crc32`. --/
def crcRound (crc : UInt32) : UInt32 := (crc >>> 1) ^^^ (0xEDB88320 &&& -(crc &&& 1))

def crcByte (crc : UInt32) (b : UInt8) : UInt32 :=
  (List.range 8).foldl (fun crc _ => crcRound crc) (crc ^^^ b.toUInt32)

def crc32 (data : Bytes) : UInt32 := ~~~(data.foldl crcByte 0xFFFFFFFF)

/-- The bytes that `writeEntry` appends to the file. --/
def writeEntry (entryType : UInt8) (payload : Bytes) : Bytes :=
  let totalSize : UInt32 := 1 + UInt32.ofNat payload.length + 4
  writeUint32 totalSize ++ (entryType :: (payload ++ writeUint32 (crc32 payload)))

def Entry.write (e : Entry) : Bytes := writeEntry e.type e.payload

/-- The bytes of a log that holds `es`. --/
def writeEntries (es : List Entry) : Bytes := es.flatMap Entry.write

/-! ### Replay -/

structure RecoveryData where
  exchanges : List StoredExchangeDecl := []
  queues : List StoredQueueDecl := []
  bindings : List StoredBinding := []
  messages : List StoredMessage := []
  ackedMessages : List (Bytes × List UInt64) := []
  deriving Repr

/-- `ackedMessages[queue].push_back(id)`. --/
def pushAck (queue : Bytes) (id : UInt64) : List (Bytes × List UInt64) → List (Bytes × List UInt64)
  | [] => [(queue, [id])]
  | (q, ids) :: rest => if q = queue then (q, ids ++ [id]) :: rest else (q, ids) :: pushAck queue id rest

/-- Size, length and checksum checks on the next entry: its type, its payload and the bytes after it.
    `none` stands for the `break`s before the entry is decoded, and for the end of the file. --/
def nextRecord (file : Bytes) : Option (UInt8 × Bytes × Bytes) :=
  if file.length < 4 then none
  else
    let totalSize := BigEndian.decode (file.take 4)
    if totalSize < 5 ∨ MAX_ENTRY_SIZE < totalSize then none
    else
      let entry := (file.drop 4).take totalSize
      if entry.length ≠ totalSize then none
      else
        let storedCrc := BigEndian.decode (entry.drop (totalSize - 4))
        let payload := (entry.drop 1).take (totalSize - 5)
        if storedCrc ≠ (crc32 payload).toNat then none
        else some (entry.headD 0, payload, file.drop (4 + totalSize))

/-- Reads a buffer of its own, as `BasicProperties::decode(propBuf)` does. --/
def readInner {α : Type} (read : Read α) (bytes : Bytes) : Read α :=
  match read (Buffer.ofBytes bytes) with
  | .ok (a, _) => pure a
  | .error e => throw e

def readMessage : Read StoredMessage := do
  let id ← readUint64
  let queue_name ← readString
  let exchange ← readString
  let routing_key ← readString
  let propLen ← readUint32
  let propBytes ← readBytes propLen.toNat
  let properties ← readInner BasicProperties.decode propBytes
  let bodyLen ← readUint32
  let body ← readBytes bodyLen.toNat
  return { id, queue_name, exchange, routing_key, properties, body }

def readQueueDecl : Read StoredQueueDecl := do
  let name ← readString
  let durable ← readFlag
  let auto_delete ← readFlag
  return { name, durable, auto_delete }

def readExchangeDecl : Read StoredExchangeDecl := do
  let name ← readString
  let type ← readString
  let durable ← readFlag
  let auto_delete ← readFlag
  let internal ← readFlag
  return { name, type, durable, auto_delete, internal }

def readBinding : Read StoredBinding := do
  let queue ← readString
  let exchange ← readString
  let routing_key ← readString
  return { queue, exchange, routing_key }

def readAck : Read Entry := do
  let id ← readUint64
  let queue ← readString
  return .ack id queue

/-- The reads of the `switch` over the entry type; every case reads all its fields before it changes
    the data. A type that no case names gives `none`. --/
def readEntry (entryType : UInt8) : Read (Option Entry) :=
  if entryType = ENTRY_MESSAGE then do return some (.message (← readMessage))
  else if entryType = ENTRY_ACK then do return some (← readAck)
  else if entryType = ENTRY_QUEUE_DECLARE then do return some (.queueDeclare (← readQueueDecl))
  else if entryType = ENTRY_EXCHANGE_DECLARE then do return some (.exchangeDeclare (← readExchangeDecl))
  else if entryType = ENTRY_BINDING then do return some (.binding (← readBinding))
  else if entryType = ENTRY_QUEUE_DELETE then do return some (.queueDelete (← readString))
  else if entryType = ENTRY_EXCHANGE_DELETE then do return some (.exchangeDelete (← readString))
  else if entryType = ENTRY_UNBIND then do return some (.unbind (← readBinding))
  else return none

namespace RecoveryData

/-- What the `switch` does with the entry it has read. --/
def apply (data : RecoveryData) : Entry → RecoveryData
  | .message m => { data with messages := data.messages ++ [m] }
  | .ack id queue => { data with ackedMessages := pushAck queue id data.ackedMessages }
  | .queueDeclare d => { data with queues := data.queues ++ [d] }
  | .exchangeDeclare d => { data with exchanges := data.exchanges ++ [d] }
  | .binding b => { data with bindings := data.bindings ++ [b] }
  | .queueDelete name =>
    { data with
      queues := data.queues.filter fun q => q.name ≠ name
      messages := data.messages.filter fun m => m.queue_name ≠ name
      bindings := data.bindings.filter fun b => b.queue ≠ name }
  | .exchangeDelete name =>
    { data with
      exchanges := data.exchanges.filter fun e => e.name ≠ name
      bindings := data.bindings.filter fun b => b.exchange ≠ name }
  | .unbind u =>
    { data with
      bindings := data.bindings.filter fun b =>
        ¬(b.queue = u.queue ∧ b.exchange = u.exchange ∧ b.routing_key = u.routing_key) }

/-- The pass over `ackedMessages` after the loop. --/
def applyAcks (data : RecoveryData) : RecoveryData :=
  { data with
    messages := data.ackedMessages.foldl
      (fun ms (queue, ids) => ms.filter fun m => ¬(m.queue_name = queue ∧ m.id ∈ ids)) data.messages }

end RecoveryData

/-- `if (sm.id >= nextMsgId_) nextMsgId_ = sm.id + 1;` --/
def raiseMsgId (next : UInt64) : Entry → UInt64
  | .message m => if next ≤ m.id then m.id + 1 else next
  | _ => next

/-- The `while` loop of `recoverLocked`, on fuel: what it has recovered, `nextMsgId_`, and the bytes that
    it did not get to. --/
def recoverLoop : Nat → Bytes → RecoveryData → UInt64 → RecoveryData × UInt64 × Bytes
  | 0, file, data, next => (data, next, file)
  | fuel + 1, file, data, next =>
    match nextRecord file with
    | none => (data, next, file)
    | some (entryType, payload, rest) =>
      match readEntry entryType (Buffer.ofBytes payload) with
      | .error _ => (data, next, file)
      | .ok (none, _) => recoverLoop fuel rest data next
      | .ok (some e, _) => recoverLoop fuel rest (data.apply e) (raiseMsgId next e)

/-! ### The store -/

/-- The file at `walPath_` and the id counter. --/
structure MessageStore where
  wal : Bytes := []
  nextMsgId : UInt64 := 1

namespace MessageStore

/-- Each turn of the loop consumes at least nine bytes, so the fuel is never used up. --/
def replay (st : MessageStore) : RecoveryData × UInt64 × Bytes :=
  recoverLoop (st.wal.length + 1) st.wal {} st.nextMsgId

def recoverLocked (st : MessageStore) : RecoveryData × MessageStore :=
  (st.replay.1.applyAcks, { st with nextMsgId := st.replay.2.1 })

def recover (st : MessageStore) : RecoveryData × MessageStore := st.recoverLocked

/-- Appends an entry to the log. --/
def append (st : MessageStore) (e : Entry) : MessageStore := { st with wal := st.wal ++ e.write }

/-- The record that `storeMessage` writes for a message in a queue. --/
def recordOf (id : UInt64) (queueName : Bytes) (msg : Message) : StoredMessage :=
  { id, queue_name := queueName, exchange := msg.exchange, routing_key := msg.routing_key,
    properties := msg.properties, body := msg.body }

def storeMessage (st : MessageStore) (queueName : Bytes) (msg : Message) : UInt64 × MessageStore :=
  let id := st.nextMsgId
  (id, { st with nextMsgId := id + 1 }.append (.message (recordOf id queueName msg)))

def storeAck (st : MessageStore) (queueName : Bytes) (messageId : UInt64) : MessageStore :=
  st.append (.ack messageId queueName)

def storeQueueDeclare (st : MessageStore) (name : Bytes) (durable autoDelete : Bool) : MessageStore :=
  st.append (.queueDeclare { name, durable, auto_delete := autoDelete })

def storeExchangeDeclare (st : MessageStore) (name type : Bytes) (durable autoDelete internal : Bool) :
    MessageStore :=
  st.append (.exchangeDeclare { name, type, durable, auto_delete := autoDelete, internal })

def storeBinding (st : MessageStore) (queue exchange routingKey : Bytes) : MessageStore :=
  st.append (.binding { queue, exchange, routing_key := routingKey })

def storeQueueDelete (st : MessageStore) (name : Bytes) : MessageStore := st.append (.queueDelete name)

def storeExchangeDelete (st : MessageStore) (name : Bytes) : MessageStore := st.append (.exchangeDelete name)

def storeUnbind (st : MessageStore) (queue exchange routingKey : Bytes) : MessageStore :=
  st.append (.unbind { queue, exchange, routing_key := routingKey })

/-- The entries that `compactIfNeeded` writes for what it has recovered. --/
def liveEntries (data : RecoveryData) : List Entry :=
  data.exchanges.map .exchangeDeclare ++ (data.queues.map .queueDeclare ++
    (data.bindings.map .binding ++ data.messages.map .message))

/-- `compactIfNeeded`: the recovered data is written to a new file, which then replaces the log. --/
def compactIfNeeded (st : MessageStore) : MessageStore :=
  let (liveData, st) := st.recoverLocked
  { st with wal := writeEntries (liveEntries liveData) }

/-- A new process on the same file: a fresh `MessageStore`, `open` in append mode, and `recover`. --/
def restart (st : MessageStore) : RecoveryData × MessageStore :=
  ({ wal := st.wal } : MessageStore).recover

end MessageStore
end Broko.Storage
