import Broko.Broker.Server

/-! `src/broker/stats_writer.h`: the snapshots of the broker, and the JSON text that is written of them. -/

namespace Broko.Broker
open Amqp

/-! ### Snapshots -/

structure QueueSnapshot where
  name : Bytes
  durable : Bool
  exclusive : Bool
  auto_delete : Bool
  message_count : UInt32
  consumer_count : UInt32

structure ExchangeSnapshot where
  name : Bytes
  type : Bytes
  durable : Bool
  auto_delete : Bool
  binding_count : Nat

structure ConnectionInfo where
  id : UInt32
  user : Bytes
  peer : Bytes
  connectedAtMs : Int64
  channels : Nat

/-- What a connection knows from when it was accepted. --/
structure Peer where
  peerAddress : Bytes
  connectedAtMs : Int64

namespace AmqpServer

def snapshotQueues (s : AmqpServer) : List QueueSnapshot :=
  s.queues.entries.map fun (n, q) =>
    { name := n
      durable := q.durable
      exclusive := q.exclusive
      auto_delete := q.auto_delete
      message_count := UInt32.ofNat q.messages.length
      consumer_count := UInt32.ofNat q.consumers.length }

def snapshotExchanges (s : AmqpServer) : List ExchangeSnapshot :=
  s.exchanges.entries.map fun (n, ex) =>
    { name := n
      type := ex.type
      durable := ex.durable
      auto_delete := ex.auto_delete
      binding_count := ex.bindings.length }

/-- The connections that `removeConnection` has not taken out. --/
def snapshotConnections (s : AmqpServer) (peers : Nat → Peer) : List ConnectionInfo :=
  (s.connections.entries.filter fun x => x.2.state ≠ .CLOSED).map fun (id, conn) =>
    { id := idOf id
      user := conn.authUser
      peer := (peers id).peerAddress
      connectedAtMs := (peers id).connectedAtMs
      channels := conn.channels.entries.length }

end AmqpServer

/-! ### Text -/

namespace StatsWriter

/-- A digit of `%x`. --/
def hexDigit (n : Nat) : UInt8 := if n < 10 then UInt8.ofNat (0x30 + n) else UInt8.ofNat (0x61 + (n - 10))

/-- `%04x`, below 65536. --/
def hex04 (n : Nat) : Bytes := [hexDigit (n / 4096 % 16), hexDigit (n / 256 % 16), hexDigit (n / 16 % 16), hexDigit (n % 16)]

/-- What the loop of `jsonEscape` adds for a character. --/
def jsonEscapeChar (c : UInt8) : Bytes :=
  if c = tagByte '\x22' then ascii "\\\""
  else if c = tagByte '\\' then ascii "\\\\"
  else if c = 0x08 then ascii "\\b"
  else if c = 0x0C then ascii "\\f"
  else if c = tagByte '\n' then ascii "\\n"
  else if c = tagByte '\r' then ascii "\\r"
  else if c = tagByte '\t' then ascii "\\t"
  else if c < 0x20 then ascii "\\u" ++ hex04 c.toNat
  else [c]

def jsonEscape (s : Bytes) : Bytes := s.flatMap jsonEscapeChar

def boolText (b : Bool) : Bytes := if b then ascii "true" else ascii "false"

/-- A signed number as a stream prints it. --/
def intText (n : Int) : Bytes := if n < 0 then ascii "-" ++ decimal n.natAbs else decimal n.natAbs

/-- A loop of `writeSnapshot`: the texts, with a comma before every one but the first. --/
def textLoop {α : Type} (text : α → Bytes) (xs : List α) : Bytes :=
  (xs.mapIdx fun i x => (if i ≠ 0 then ascii "," else []) ++ text x).flatten

def queueText (q : QueueSnapshot) : Bytes :=
  ascii "\x7b" ++
  ascii "\"name\":\"" ++ jsonEscape q.name ++ ascii "\"," ++
  ascii "\"durable\":" ++ boolText q.durable ++ ascii "," ++
  ascii "\"exclusive\":" ++ boolText q.exclusive ++ ascii "," ++
  ascii "\"auto_delete\":" ++ boolText q.auto_delete ++ ascii "," ++
  ascii "\"messages\":" ++ decimal q.message_count.toNat ++ ascii "," ++
  ascii "\"consumers\":" ++ decimal q.consumer_count.toNat ++
  ascii "\x7d"

def exchangeText (ex : ExchangeSnapshot) : Bytes :=
  ascii "\x7b" ++
  ascii "\"name\":\"" ++ jsonEscape (if ex.name = [] then ascii "(default)" else ex.name) ++ ascii "\"," ++
  ascii "\"type\":\"" ++ jsonEscape ex.type ++ ascii "\"," ++
  ascii "\"durable\":" ++ boolText ex.durable ++ ascii "," ++
  ascii "\"auto_delete\":" ++ boolText ex.auto_delete ++ ascii "," ++
  ascii "\"bindings\":" ++ decimal ex.binding_count ++
  ascii "\x7d"

def connectionText (c : ConnectionInfo) : Bytes :=
  ascii "\x7b" ++
  ascii "\"id\":" ++ decimal c.id.toNat ++ ascii "," ++
  ascii "\"user\":\"" ++ jsonEscape c.user ++ ascii "\"," ++
  ascii "\"peer\":\"" ++ jsonEscape c.peer ++ ascii "\"," ++
  ascii "\"connected_at_ms\":" ++ intText c.connectedAtMs.toInt ++ ascii "," ++
  ascii "\"channels\":" ++ decimal c.channels ++
  ascii "\x7d"

/-- `totalMessages`. --/
def totalMessages (queues : List QueueSnapshot) : UInt32 := queues.foldl (fun total q => total + q.message_count) 0

def snapshotText (now uptimeMs : Int64) (queues : List QueueSnapshot) (exchanges : List ExchangeSnapshot)
    (conns : List ConnectionInfo) : Bytes :=
  ascii "\x7b" ++
  ascii "\"version\":\"1.0\"," ++
  ascii "\"timestamp_ms\":" ++ intText now.toInt ++ ascii "," ++
  ascii "\"uptime_ms\":" ++ intText uptimeMs.toInt ++ ascii "," ++
  ascii "\"stats\":\x7b" ++
  ascii "\"connections\":" ++ decimal conns.length ++ ascii "," ++
  ascii "\"queues\":" ++ decimal queues.length ++ ascii "," ++
  ascii "\"exchanges\":" ++ decimal exchanges.length ++ ascii "," ++
  ascii "\"messages_ready\":" ++ decimal (totalMessages queues).toNat ++
  ascii "\x7d," ++
  ascii "\"queues\":[" ++ textLoop queueText queues ++ ascii "]," ++
  ascii "\"exchanges\":[" ++ textLoop exchangeText exchanges ++ ascii "]," ++
  ascii "\"connections\":[" ++ textLoop connectionText conns ++ ascii "]" ++
  ascii "\x7d"

/-- The text that `writeSnapshot` writes. Each of the three snapshots is made under a lock of its own, so that the server may
    have moved on between them. --/
def writeSnapshot (startedAtMs now : Int64) (peers : Nat → Peer) (atQueues atExchanges atConnections : AmqpServer) : Bytes :=
  snapshotText now (now - startedAtMs) atQueues.snapshotQueues atExchanges.snapshotExchanges
    (atConnections.snapshotConnections peers)

end StatsWriter
end Broko.Broker
