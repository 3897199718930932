import Broko.Broker.Connection

/-! The heartbeat of a connection, `src/broker/connection.cpp`: `startHeartbeat`, `sendHeartbeat`, `checkHeartbeat`. Times
    are milliseconds on a clock that does not go back. -/

namespace Broko.Broker
open Amqp

/-- What the heartbeat of a connection uses. The timers are the times that they expire at. --/
structure Heartbeat where
  heartbeatInterval : UInt16
  heartbeatTimer : Nat := 0
  heartbeatCheckTimer : Nat := 0
  receivedData : Bool := false
  closed : Bool := false
  deriving DecidableEq, Repr

/-- The frame that `sendHeartbeat` writes. --/
def heartbeatFrame : Frame := { type := FRAME_HEARTBEAT, channel := 0, payload := [] }

namespace Heartbeat

variable (b : Heartbeat) (now : Nat)

/-- `std::chrono::seconds(heartbeatInterval_)` in milliseconds. --/
def period : Nat := 1000 * b.heartbeatInterval.toNat

/-- The head of `sendHeartbeat`. --/
def sendHeartbeat : Heartbeat := { b with heartbeatTimer := now + b.period }

/-- The head of `checkHeartbeat`. --/
def checkHeartbeat : Heartbeat := { b with heartbeatCheckTimer := now + 2 * b.period }

def startHeartbeat : Heartbeat := (b.sendHeartbeat now).checkHeartbeat now

/-- Both timers are cancelled. --/
def shutdown : Heartbeat := { b with closed := true }

/-- The handler in `sendHeartbeat`, with what it sends. --/
def onHeartbeatTimer : Heartbeat × List Frame :=
  if b.closed then (b, []) else (b.sendHeartbeat now, [heartbeatFrame])

/-- The handler in `checkHeartbeat`. --/
def onHeartbeatCheckTimer : Heartbeat :=
  if b.closed then b
  else if b.receivedData then ({ b with receivedData := false }).checkHeartbeat now
  else b.shutdown

/-- A frame header is read. --/
def onFrameHeader : Heartbeat := if b.closed then b else { b with receivedData := true }

end Heartbeat

end Broko.Broker
