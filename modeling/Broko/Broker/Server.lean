import Broko.Broker.Connection

/-! `src/broker/server.cpp`: what can happen to a broker process, one event at a time. -/

namespace Broko.Broker
open Amqp Storage

/-- The events of a broker. The `reorder` events stand for the freedom that an `unordered_map` has in its
    order of iteration: a map may be iterated in any order, and in another one the next time. --/
inductive Event where
  | accept
  | protocolHeader (c : Nat) (header : Bytes)
  | frame (c : Nat) (frame : Frame) (frameEnd : UInt8)
  /-- The oldest task on the strand of a connection runs. -/
  | runTask (c : Nat)
  /-- A read or a write fails, or no data came for two heartbeats. -/
  | disconnect (c : Nat)
  | tick
  | compact
  /-- The process stops and a new one is started on the same files. -/
  | restart
  | reorderQueues (order : List Bytes)
  | reorderExchanges (order : List Bytes)
  | reorderChannels (c : Nat) (order : List UInt16)
  | reorderConsumers (c : Nat) (num : UInt16) (order : List Bytes)
  | reorderUnacked (c : Nat) (num : UInt16) (order : List Nat)

namespace AmqpServer

/-- The constructor of `AmqpServer`. --/
def start (store : Option MessageStore) (userStore : UserStore) (clock : Nat → Int) (readings : Nat) : AmqpServer :=
  recoverFromStore { store, userStore, clock, readings, exchanges := defaultExchanges }

def restart (s : AmqpServer) : AmqpServer :=
  start (s.store.map fun st => { wal := st.wal }) s.userStore s.clock s.readings

def accept (s : AmqpServer) : AmqpServer :=
  { s with
    connections := s.connections.insert s.nextConnectionId {}
    nextConnectionId := s.nextConnectionId + 1 }

/-- `weakCh.lock()`: the channel that a task was posted for, if it is still there. --/
def lockChannel (s : AmqpServer) (c : Nat) (t : DeliverTask) : Option Channel :=
  (s.channel c t.channel_id).filter fun ch => ch.ref = t.channel

/-- The oldest task of the strand runs: the delivery, if its channel is there and open. --/
def runTask (s : AmqpServer) (c : Nat) : AmqpServer :=
  match (s.connection c).map Connection.strand with
  | none => s
  | some [] => s
  | some (t :: rest) =>
    let s := s.modifyConnection c fun conn => { conn with strand := rest }
    match (s.lockChannel c t).filter Channel.isOpen with
    | none => s
    | some ch => s.deliverMessage c t.channel_id ch t

def handle (s : AmqpServer) : Event → AmqpServer
  | .accept => s.accept
  | .protocolHeader c header =>
    match s.connection c with
    | none => s
    | some conn =>
      if conn.reading ∧ conn.state = .AWAITING_PROTOCOL_HEADER then s.receiveProtocolHeader c header else s
  | .frame c frame frameEnd =>
    match s.connection c with
    | none => s
    | some conn =>
      if conn.reading ∧ conn.state ≠ .AWAITING_PROTOCOL_HEADER then s.receiveFrame c conn frame frameEnd else s
  | .runTask c => s.runTask c
  | .disconnect c => s.shutdown c
  | .tick => s.tick
  | .compact => s.modifyStore MessageStore.compactIfNeeded
  | .restart => s.restart
  | .reorderQueues order => { s with queues := s.queues.reorder order }
  | .reorderExchanges order => { s with exchanges := s.exchanges.reorder order }
  | .reorderChannels c order =>
    s.modifyConnection c fun conn => { conn with channels := conn.channels.reorder order }
  | .reorderConsumers c num order =>
    s.modifyChannel c num fun ch => { ch with consumers := ch.consumers.reorder order }
  | .reorderUnacked c num order =>
    s.modifyChannel c num fun ch => { ch with unackedMessages := ch.unackedMessages.reorder order }

def run (s : AmqpServer) (events : List Event) : AmqpServer := events.foldl handle s

end AmqpServer
end Broko.Broker
