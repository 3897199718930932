import Broko.Broker.Heartbeat
import Broko.Sdk.Connection

/-! The heartbeat of the client, `sdk/broko-client-js/lib/connection.js`, and both heartbeats on one connection. -/

namespace Broko.Sdk
open Amqp

/-- What the heartbeat of a client uses. The timers are those of `setInterval`, by when they are next due. --/
structure Heartbeat where
  heartbeat : Nat
  heartbeatTimer : Option Nat := none
  heartbeatCheckTimer : Option Nat := none
  lastDataAt : Nat
  closed : Bool := false
  deriving DecidableEq, Repr

/-- `encodeHeartbeat` of `frame.js`. --/
def encodeHeartbeat : Frame := { type := FRAME_HEARTBEAT, channel := 0, payload := [] }

namespace Heartbeat

variable (b : Heartbeat) (now : Nat)

def ms : Nat := b.heartbeat * 1000

/-- `_startHeartbeat`, which `_onOpenOk` calls if there is an interval. --/
def startHeartbeat : Heartbeat :=
  if 0 < b.heartbeat then
    { b with heartbeatTimer := some (now + b.ms), heartbeatCheckTimer := some (now + b.ms) }
  else b

/-- `_fatal`: the socket is destroyed, and its end clears the timers. --/
def fatal : Heartbeat := { b with heartbeatTimer := none, heartbeatCheckTimer := none, closed := true }

/-- The first interval function, with what it sends. --/
def onHeartbeatTimer : Heartbeat × List Frame := ({ b with heartbeatTimer := some (now + b.ms) }, [encodeHeartbeat])

/-- The second interval function. --/
def onHeartbeatCheckTimer : Heartbeat :=
  if b.ms * 2 < now - b.lastDataAt then b.fatal else { b with heartbeatCheckTimer := some (now + b.ms) }

/-- `_onData`. --/
def onData : Heartbeat := if b.closed then b else { b with lastDataAt := now }

end Heartbeat

/-- Both sides of a connection, with the times at which what is on its way was sent, the oldest first. --/
structure Vigil where
  now : Nat
  server : Broker.Heartbeat
  client : Heartbeat
  toServer : List Nat := []
  toClient : List Nat := []
  deriving DecidableEq, Repr

/-- What can happen: time goes by, a timer goes off, a side sends something else, a side reads what comes first. --/
inductive VigilEvent where
  | elapse (d : Nat)
  | serverTimer
  | serverCheck
  | clientTimer
  | clientCheck
  | serverWrites
  | clientWrites
  | serverReads
  | clientReads
  deriving DecidableEq

namespace Vigil

/-- How late a timer can go off, and how long something can be on its way. --/
structure Delays where
  slack : Nat
  delay : Nat

variable (δ : Delays)

/-- Nothing that has to happen before `t` is left undone. --/
structure Punctual (v : Vigil) (t : Nat) : Prop where
  serverTimer : v.server.closed = false → t ≤ v.server.heartbeatTimer + δ.slack
  serverCheck : v.server.closed = false → t ≤ v.server.heartbeatCheckTimer + δ.slack
  clientTimer : ∀ due ∈ v.client.heartbeatTimer, t ≤ due + δ.slack
  clientCheck : ∀ due ∈ v.client.heartbeatCheckTimer, t ≤ due + δ.slack
  toServer : v.server.closed = false → ∀ sent ∈ v.toServer, t ≤ sent + δ.delay
  toClient : v.client.closed = false → ∀ sent ∈ v.toClient, t ≤ sent + δ.delay

theorem punctual_iff (v : Vigil) (t : Nat) :
    v.Punctual δ t ↔
      ((v.server.closed = false → t ≤ v.server.heartbeatTimer + δ.slack) ∧
        (v.server.closed = false → t ≤ v.server.heartbeatCheckTimer + δ.slack)) ∧
      ((∀ due ∈ v.client.heartbeatTimer, t ≤ due + δ.slack) ∧ (∀ due ∈ v.client.heartbeatCheckTimer, t ≤ due + δ.slack)) ∧
      (v.server.closed = false → ∀ sent ∈ v.toServer, t ≤ sent + δ.delay) ∧
      (v.client.closed = false → ∀ sent ∈ v.toClient, t ≤ sent + δ.delay) :=
  ⟨fun h => ⟨⟨h.1, h.2⟩, ⟨h.3, h.4⟩, h.5, h.6⟩, fun h => ⟨h.1.1, h.1.2, h.2.1.1, h.2.1.2, h.2.2.1, h.2.2.2⟩⟩

instance instDecidablePunctual (v : Vigil) (t : Nat) : Decidable (v.Punctual δ t) :=
  decidable_of_iff' _ (punctual_iff δ v t)

/-- A timer does not go off before its time, and time does not pass over what has to happen first. --/
def step (v : Vigil) : VigilEvent → Vigil
  | .elapse d => if v.Punctual δ (v.now + d) then { v with now := v.now + d } else v
  | .serverTimer =>
    if v.server.heartbeatTimer ≤ v.now then
      let (server, sent) := v.server.onHeartbeatTimer v.now
      { v with server, toClient := v.toClient ++ sent.map fun _ => v.now }
    else v
  | .serverCheck =>
    if v.server.heartbeatCheckTimer ≤ v.now then { v with server := v.server.onHeartbeatCheckTimer v.now } else v
  | .clientTimer =>
    if ∃ due ∈ v.client.heartbeatTimer, due ≤ v.now then
      let (client, sent) := v.client.onHeartbeatTimer v.now
      { v with client, toServer := v.toServer ++ sent.map fun _ => v.now }
    else v
  | .clientCheck =>
    if ∃ due ∈ v.client.heartbeatCheckTimer, due ≤ v.now then { v with client := v.client.onHeartbeatCheckTimer v.now }
    else v
  | .serverWrites => if v.server.closed then v else { v with toClient := v.toClient ++ [v.now] }
  | .clientWrites => if v.client.closed then v else { v with toServer := v.toServer ++ [v.now] }
  | .serverReads =>
    match v.toServer with
    | [] => v
    | _ :: rest => { v with server := v.server.onFrameHeader, toServer := rest }
  | .clientReads =>
    match v.toClient with
    | [] => v
    | _ :: rest => { v with client := v.client.onData v.now, toClient := rest }

def run (v : Vigil) (events : List VigilEvent) : Vigil := events.foldl (step δ) v

/-- The broker starts its heartbeat at the Tune-Ok, after reading which `receivedData_` is set; `lag` later the client
    reads the Open-Ok and starts its own. --/
def start (heartbeatInterval : UInt16) (heartbeat lag : Nat) : Vigil :=
  { now := lag
    server := Broker.Heartbeat.startHeartbeat { heartbeatInterval, receivedData := true } 0
    client := Heartbeat.startHeartbeat { heartbeat, lastDataAt := lag } lag }

end Vigil
end Broko.Sdk
