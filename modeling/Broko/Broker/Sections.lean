import Broko.Broker.Channel

/-! `handleContentBody` at the grain of its locks. The virtual host, each exchange, the store and each queue have a lock
    of their own, and a complete publish takes them one after the other, so other threads run between any two of its
    sections. What it has found in one section can be gone in the next one. -/

namespace Broko.Broker
open Amqp Storage

/-- Where a publish is between two sections. --/
inductive Stage where
  /-- `routeMessage`: the exchange is looked up next. -/
  | routing
  /-- `ex->route` on the exchange that was found. -/
  | matching (ex : Exchange)
  /-- The loop over the queues, with the turns that are left. -/
  | turns (several : Bool) (queues : List Bytes)
  /-- `storeMessage` of the copy, for a durable queue that was found. -/
  | storing (copy : Ref) (name : Bytes) (several : Bool) (rest : List Bytes)
  /-- `deliverToQueue`: the queue is looked up next. -/
  | finding (copy : Ref) (name : Bytes) (several : Bool) (rest : List Bytes)
  /-- `enqueue` on the queue that was found. The object is in `gone` if the virtual host does not have it any more. -/
  | pushing (copy : Ref) (name : Bytes) (gone : Option MessageQueue) (several : Bool) (rest : List Bytes)
  /-- `deliverDeadLetters` of `enqueue`, for what had expired in the queue. -/
  | letters (fuel : Nat) (q : MessageQueue) (dlq : List Ref) (name : Bytes) (several : Bool) (rest : List Bytes)
  /-- The ack of the publish. -/
  | confirming
  | done

/-- A publish and the server that it runs on. --/
structure Config where
  stage : Stage
  server : AmqpServer

namespace AmqpServer

/-- The section of `enqueue`: what had expired, and the state after it. --/
def enqueueLocked (s : AmqpServer) (name : Bytes) (r : Ref) : List Ref × AmqpServer :=
  let (dlq, s) := (s.pushBack name r).collectExpired name
  (dlq, s.dispatchLocked name)

/-- `deadLetter` of a queue object. --/
def deadLetterFrom (enqueue : AmqpServer → Bytes → Ref → AmqpServer) (q : MessageQueue) (name reason : Bytes)
    (s : AmqpServer) (r : Ref) : AmqpServer :=
  if q.dlxExchange = [] ∨ q.deadLetterFn = false then s
  else
    let s := s.modifyMessage r fun m => { m with dlx_hops := m.dlx_hops + 1 }
    if MAX_DLX_HOPS < (s.message r).dlx_hops then s
    else
      let s := s.modifyMessage r fun m =>
        setHeader (ascii "x-first-death-exchange") m.exchange
          (setHeader (ascii "x-first-death-queue") name (setHeader (ascii "x-first-death-reason") reason m))
      let rk := if q.dlxRoutingKey = [] then (s.message r).routing_key else q.dlxRoutingKey
      (s.routeMessage q.dlxExchange rk (s.message r).properties.headers).foldl (fun s qname => enqueue s qname r) s

/-- What the connection has, but for the tasks that other threads post to its strand. --/
def own (s : AmqpServer) (c : Nat) : Option Connection := (s.connection c).map fun conn => { conn with strand := [] }

end AmqpServer

namespace Config
open AmqpServer

variable (c : Nat) (num : UInt16) (p : PendingPublish) (msg : Ref)

/-- The message object is made. --/
def begin (s : AmqpServer) : Config := { stage := .routing, server := s.newMessage (messageOf c p) }

/-- `routeMessage` has returned: the message goes back, or the loop starts. --/
def routed (s : AmqpServer) (queues : List Bytes) : Config :=
  if queues = [] ∧ p.mandatory then { stage := .confirming, server := s.sendReturn c num (messageOf c p) }
  else { stage := .turns (decide (1 < queues.length)) queues, server := s }

/-- The next section of the publish. Nobody else has the object `msg` before it is in a queue, so that a copy of it has
    what the publish brought. --/
def advance (x : Config) : Config :=
  let s := x.server
  match x.stage with
  | .routing =>
    match s.exchanges.lookup p.exchange with
    | none => routed c num p s []
    | some ex => { stage := .matching ex, server := s }
  | .matching ex => routed c num p s (eraseSeen [] (ex.route p.routing_key p.properties.headers))
  | .turns _ [] => { stage := .confirming, server := s }
  | .turns several (name :: rest) =>
    let copy := if several then s.heap.size else msg
    let s := if several then s.newMessage (messageOf c p) else s
    match s.queue name with
    | none => { stage := .finding copy name several rest, server := s }
    | some q =>
      if (s.message copy).isPersistent && q.durable then { stage := .storing copy name several rest, server := s }
      else { stage := .finding copy name several rest, server := s }
  | .storing copy name several rest =>
    { stage := .finding copy name several rest, server := s.storeMessage name copy }
  | .finding copy name several rest =>
    match s.queue name with
    | none => { stage := .turns several rest, server := s }
    | some _ => { stage := .pushing copy name none several rest, server := s }
  | .pushing copy name none several rest =>
    match s.queue name with
    | none => { stage := .turns several rest, server := s }
    | some q =>
      let (dlq, s') := s.enqueueLocked name copy
      { stage := .letters (s.dlxFuel - 1) q dlq name several rest, server := s' }
  | .pushing copy name (some q) several rest =>
    -- The section runs on the object that was found; the queues of the virtual host are what they were.
    let (dlq, s') := ({ s with queues := s.queues.insert name q } : AmqpServer).enqueueLocked name copy
    { stage := .letters (s.dlxFuel - 1) q dlq name several rest, server := { s' with queues := s.queues } }
  | .letters _ _ [] _ several rest => { stage := .turns several rest, server := s }
  | .letters fuel q (r :: dlq) name several rest =>
    { stage := .letters fuel q dlq name several rest
      server := s.deadLetterFrom (enqueueLoop fuel) q name (ascii "expired") r }
  | .confirming => { stage := .done, server := (s.sendConfirm c num).setPending c num none }
  | .done => x

end Config

/-! ### Other threads -/

/-- The message objects of the publish that nobody else has yet. --/
def Stage.objects (msg : Ref) : Stage → List Ref
  | .routing => [msg]
  | .matching _ => [msg]
  | .turns several queues => if several || queues.isEmpty then [] else [msg]
  | .storing copy .. => [copy]
  | .finding copy .. => [copy]
  | .pushing copy .. => [copy]
  | _ => []

/-- What other threads do to the objects that a publish has found: the bindings of an exchange change, and a queue is
    removed from the virtual host, for good. --/
inductive Stage.Changes (s : AmqpServer) : Stage → Stage → Prop
  | same {x : Stage} (h : ∀ copy name several rest, x ≠ .pushing copy name none several rest) : Changes s x x
  | rebind (ex ex' : Exchange) : Changes s (.matching ex) (.matching ex')
  | keep {copy : Ref} {name : Bytes} {several : Bool} {rest : List Bytes} (h : (s.queue name).isSome) :
      Changes s (.pushing copy name none several rest) (.pushing copy name none several rest)
  | remove {copy : Ref} {name : Bytes} {gone : Option MessageQueue} {several : Bool} {rest : List Bytes} (q : MessageQueue) :
      Changes s (.pushing copy name gone several rest) (.pushing copy name (some q) several rest)

namespace Config

/-- A step of another thread. It can change anything that others can get at; what the connection has belongs to the
    strand that the publish runs on. --/
structure Elsewhere (c : Nat) (msg : Ref) (x y : Config) : Prop where
  stage : x.stage.Changes y.server y.stage
  own : y.server.own c = x.server.own c
  objects : ∀ r ∈ x.stage.objects msg, y.server.message r = x.server.message r

/-- The sections of a publish among steps of other threads, with the configurations in which the publish takes its
    turns. --/
inductive Run (c : Nat) (num : UInt16) (p : PendingPublish) (msg : Ref) (x : Config) : List Config → Config → Prop
  | refl : Run c num p msg x [] x
  | own {l : List Config} {y : Config} (h : Run c num p msg x l y) :
      Run c num p msg x (l ++ [y]) (y.advance c num p msg)
  | other {l : List Config} {y z : Config} (h : Run c num p msg x l y) (hz : Elsewhere c msg y z) :
      Run c num p msg x l z

end Config
end Broko.Broker
