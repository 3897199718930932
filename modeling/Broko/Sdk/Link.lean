import Broko.Broker.Server
import Broko.Sdk.Connection

/-! A client of the SDK that connects to the broker. What each side has sent and the other has not read yet is on its way;
    both directions keep their order. The client makes no calls before `connect` has returned. -/

namespace Broko.Sdk
open Amqp Broker

/-- The two sides of connection `c`, and how much of what was sent to it each of them has read. --/
structure Link (κ : Type) where
  client : Connection κ
  server : AmqpServer
  c : Nat
  readByServer : Nat := 0
  readByClient : Nat := 0

/-- What can happen: a side reads the oldest thing that is on its way to it, the client sees that the broker has closed the
    socket and reads no more, or the broker does something else. --/
inductive LinkEvent where
  | serverReads
  | clientReads
  | clientLoses
  | other (e : Broker.Event)

namespace Link

variable {κ : Type} (l : Link κ)

/-- What the broker has sent to the client. --/
def sentByServer : List Outgoing := ((l.server.connection l.c).map Broker.Connection.sent).getD []

def toServer : List Outgoing := l.client.sent.drop l.readByServer
def toClient : List Outgoing := l.sentByServer.drop l.readByClient

/-- What arrives at the broker. --/
def arrival (c : Nat) : Outgoing → Broker.Event
  | .protocolHeader => .protocolHeader c PROTOCOL_HEADER
  | .frame f => .frame c f FRAME_END

/-- The client reads. The protocol header, which answers a wrong one, is the beginning of a frame that never ends. --/
def readBy (client : Connection κ) : Outgoing → Connection κ
  | .protocolHeader => client
  | .frame f => client.receive f

/-- The event is not one of the link itself: it does not read from the connection, and the process goes on. --/
def isOther (c : Nat) : Broker.Event → Bool
  | .protocolHeader c' _ => c' != c
  | .frame c' _ _ => c' != c
  | .restart => false
  | _ => true

def step : Link κ → LinkEvent → Link κ
  | l, .serverReads =>
    match l.toServer with
    | [] => l
    | out :: _ => { l with server := l.server.handle (arrival l.c out), readByServer := l.readByServer + 1 }
  | l, .clientReads =>
    if l.client.closed then l
    else
      match l.toClient with
      | [] => l
      | out :: _ => { l with client := readBy l.client out, readByClient := l.readByClient + 1 }
  | l, .clientLoses =>
    if (l.server.connection l.c).map Broker.Connection.state = some .CLOSED then
      { l with client := l.client.onSocketClose }
    else l
  | l, .other e => if isOther l.c e then { l with server := l.server.handle e } else l

def run (l : Link κ) (events : List LinkEvent) : Link κ := events.foldl step l

/-- The broker accepts a client that connects. --/
def connect (opts : ConnectOptions) (s : AmqpServer) : Link κ :=
  { client := .connect opts, server := s.accept, c := s.nextConnectionId }

end Link
end Broko.Sdk
