import Mathlib.Logic.Function.Basic
import Broko.Broker.Server
import Broko.Lib.ExactReads

/-! `readProtocolHeader`, `readFrameHeader` and `readFramePayload` of `src/broker/connection.cpp`: a connection reads bytes,
    in pieces of a length that it knows beforehand. -/

namespace Broko.Broker
open Amqp Storage

def PROTOCOL_HEADER_SIZE : Nat := 8
def FRAME_HEADER_SIZE : Nat := 7

/-- The `async_read` that is outstanding, by the function that started it, with what its handler captured. --/
inductive Pending where
  | readProtocolHeader
  | readFrameHeader
  | readFramePayload (type : UInt8) (channel : UInt16) (size : UInt32)
  deriving DecidableEq, Repr

/-- What `readBuf_` is resized to. A size that was let through is far from the end of its 32 bits. --/
def Pending.readBufSize : Pending → Nat
  | .readProtocolHeader => PROTOCOL_HEADER_SIZE
  | .readFrameHeader => FRAME_HEADER_SIZE
  | .readFramePayload _ _ size => size.toNat + 1

/-- Type, channel and size of a frame. --/
def frameHeader (readBuf : Bytes) : UInt8 × UInt16 × UInt32 :=
  (readBuf.getD 0 0,
    ((readBuf.getD 1 0).toUInt16 <<< 8) ||| (readBuf.getD 2 0).toUInt16,
    ((readBuf.getD 3 0).toUInt32 <<< 24) ||| ((readBuf.getD 4 0).toUInt32 <<< 16) |||
      ((readBuf.getD 5 0).toUInt32 <<< 8) ||| (readBuf.getD 6 0).toUInt32)

namespace AmqpServer

variable (c : Nat)

/-- The handler in `readFrameHeader`. --/
def onFrameHeader (s : AmqpServer) (conn : Connection) (readBuf : Bytes) : AmqpServer × Pending :=
  let (type, channel, size) := frameHeader readBuf
  if effectiveMax conn < size.toNat then (s.stopReading c (ascii "Frame too large"), .readFrameHeader)
  else (s, .readFramePayload type channel size)

/-- The handler in `readFramePayload`. --/
def onFramePayload (s : AmqpServer) (type : UInt8) (channel : UInt16) (size : UInt32) (readBuf : Bytes) : AmqpServer :=
  if readBuf.getD size.toNat 0 ≠ FRAME_END then s.stopReading c (ascii "Invalid frame-end byte")
  else
    match s.handleFrame c { type, channel, payload := readBuf.take size.toNat } with
    | .ok s => s
    | .error s => s.stopReading c (ascii "Internal error")

/-- The handler of the outstanding read, and the read that follows. --/
def onRead (s : AmqpServer) (conn : Connection) : Pending → Bytes → AmqpServer × Pending
  | .readProtocolHeader, readBuf => (s.receiveProtocolHeader c readBuf, .readFrameHeader)
  | .readFrameHeader, readBuf => s.onFrameHeader c conn readBuf
  | .readFramePayload type channel size, readBuf => (s.onFramePayload c type channel size readBuf, .readFrameHeader)

/-- What the outstanding read of a connection is for. --/
def wanted (s : AmqpServer) (pending : Pending) : Option Nat :=
  ((s.connection c).filter Connection.reading).map fun _ => pending.readBufSize

theorem wanted_pos {s : AmqpServer} {pending : Pending} {n : Nat} (h : s.wanted c pending = some n) : 0 < n := by
  obtain ⟨-, -, rfl⟩ := Option.map_eq_some_iff.mp h
  cases pending with
  | readProtocolHeader => exact Nat.zero_lt_succ 7
  | readFrameHeader => exact Nat.zero_lt_succ 6
  | readFramePayload type channel size => exact Nat.zero_lt_succ size.toNat

/-- The connection as a reader of its stream. --/
def reader : ExactReads.Party (AmqpServer × Pending) UInt8 where
  wants x := x.1.wanted c x.2
  took x readBuf :=
    match x.1.connection c with
    | none => x
    | some conn => x.1.onRead c conn x.2 readBuf
  pos := wanted_pos c

end AmqpServer

/-- The bytes that have arrived for a connection and are not read yet. --/
structure Socket where
  pending : Pending := .readProtocolHeader
  arrived : Bytes := []

/-- The broker with its sockets. --/
structure Wire where
  server : AmqpServer
  sockets : Nat → Socket := fun _ => {}

/-- The events that a connection reads. --/
def Event.isRead : Event → Bool
  | .protocolHeader _ _ => true
  | .frame _ _ _ => true
  | _ => false

/-- What can happen to the process: bytes arrive, a read completes if there is enough for it, or something that is not
    read. --/
inductive WireEvent where
  | data (c : Nat) (bytes : Bytes)
  | read (c : Nat)
  | event (e : Event) (h : e.isRead = false)

namespace Wire

def start (store : Option MessageStore) (userStore : UserStore) (clock : Nat → Int) (readings : Nat) : Wire :=
  { server := .start store userStore clock readings }

def setSocket (w : Wire) (c : Nat) (socket : Socket) : Wire :=
  { w with sockets := Function.update w.sockets c socket }

/-- The sockets of a process that ends are gone. --/
def socketsAfter (w : Wire) : Event → Nat → Socket
  | .restart => fun _ => {}
  | _ => w.sockets

def handle (w : Wire) : WireEvent → Wire
  | .data c bytes =>
    match w.server.connection c with
    | none => w
    | some _ => w.setSocket c { w.sockets c with arrived := (w.sockets c).arrived ++ bytes }
  | .read c =>
    match (AmqpServer.reader c).read (w.server, (w.sockets c).pending) (w.sockets c).arrived with
    | none => w
    | some ((server, pending), arrived) => { w with server }.setSocket c { pending, arrived }
  | .event e _ => { server := w.server.handle e, sockets := w.socketsAfter e }

def run (w : Wire) (events : List WireEvent) : Wire := events.foldl handle w

/-- Reads that complete until one has to wait. --/
def readAll (w : Wire) (c : Nat) : Wire :=
  Nat.iterate (fun w => w.handle (.read c)) ((w.sockets c).arrived.length + 1) w

/-- The chunks arrive one by one, and after each of them everything is read that can be. --/
def receive (w : Wire) (c : Nat) (chunks : List Bytes) : Wire :=
  chunks.foldl (fun w chunk => (w.handle (.data c chunk)).readAll c) w

end Wire
end Broko.Broker
