import Mathlib.Data.List.Sort
import Broko.Broker.State

/-! `src/broker/queue.h`, with the two functions of the virtual host that a dead letter goes through.

    A queue is named rather than pointed to: a handler that holds a `MessageQueuePtr` does not outlive
    the entry in `queues_` that it was found in. Expiry, dispatch and dead-lettering call each other
    through enqueues of the same message objects; an object is dead-lettered at most `MAX_DLX_HOPS`
    times, and the recursion runs on fuel. -/

namespace Broko.Broker
open Amqp Storage

/-! ### Settings -/

/-- `int_val`, 0 for a value that is no integer. --/
def intVal : FieldValue → Int
  | .shortShortInt v => v.toInt
  | .shortShortUint v => v.toNat
  | .shortInt v => v.toInt
  | .shortUint v => v.toNat
  | .longInt v => v.toInt
  | .longUint v => v.toNat
  | .longLongInt v => v.toInt
  | .longLongUint v => v.toInt64.toInt
  | .timestamp v => v.toInt64.toInt
  | _ => 0

namespace MessageQueue

def configure (q : MessageQueue) : MessageQueue :=
  { q with
    queueTtlMs := ((q.arguments.find (ascii "x-message-ttl")).map intVal).getD q.queueTtlMs
    maxPriority := ((q.arguments.find (ascii "x-max-priority")).map
      fun v => UInt8.ofNat (min 255 (intVal v) % 256).toNat).getD q.maxPriority
    dlxExchange := ((q.arguments.find (ascii "x-dead-letter-exchange")).map Exchange.stringVal).getD q.dlxExchange
    dlxRoutingKey :=
      ((q.arguments.find (ascii "x-dead-letter-routing-key")).map Exchange.stringVal).getD q.dlxRoutingKey }

end MessageQueue

def isSpace (c : UInt8) : Bool := c = 32 || (9 ≤ c && c ≤ 13)

def isDigit (c : UInt8) : Bool := 48 ≤ c && c ≤ 57

/-- `std::stoll`: white space, a sign, digits; `none` where it throws. --/
def stoll (str : Bytes) : Option Int :=
  let str := str.dropWhile isSpace
  let negative := str.head? = some (tagByte '-')
  let str := if negative ∨ str.head? = some (tagByte '+') then str.tail else str
  let digits := str.takeWhile isDigit
  let value : Int := digits.foldl (fun n d => n * 10 + (d.toNat - 48 : Int)) 0
  let value := if negative then -value else value
  if digits = [] then none
  else if -(2 ^ 63) ≤ value ∧ value < 2 ^ 63 then some value
  else none

def effectiveTtl (q : MessageQueue) (m : Message) : Int :=
  let perMsg := (m.properties.expiration.bind stoll).getD (-1)
  if 0 ≤ perMsg ∧ 0 ≤ q.queueTtlMs then min perMsg q.queueTtlMs
  else if 0 ≤ perMsg then perMsg
  else q.queueTtlMs

def MAX_DLX_HOPS : Nat := 20

/-- `(*headers)[key] = FieldValue::longString(value)`, on an empty table if there is none. --/
def setHeader (key value : Bytes) (m : Message) : Message :=
  { m with
    properties := { m.properties with
      headers := some (FieldTable.assign key (.longString value) (m.properties.headers.getD [])) } }

namespace AmqpServer

/-! ### Routing -/

/-- `std::erase_if` with the names seen so far. --/
def eraseSeen (seen : List Bytes) : List Bytes → List Bytes
  | [] => []
  | q :: rest => if q ∈ seen then eraseSeen seen rest else q :: eraseSeen (q :: seen) rest

def routeMessage (s : AmqpServer) (exchangeName routingKey : Bytes) (headers : Option FieldTable) : List Bytes :=
  match s.exchanges.lookup exchangeName with
  | none => []
  | some ex => eraseSeen [] (ex.route routingKey headers)

/-! ### Expiry -/

def hasPerMessageTtl (s : AmqpServer) (q : MessageQueue) : Bool :=
  q.messages.any fun r => (s.message r).properties.expiration.isSome

/-- The test of the loop of `collectExpired`: a TTL that the age in milliseconds has reached. --/
def isExpired (s : AmqpServer) (q : MessageQueue) (now : Int) (r : Ref) : Bool :=
  let ttl := effectiveTtl q (s.message r)
  0 ≤ ttl ∧ ttl ≤ (now - (s.message r).enqueued_at).tdiv 1000000

def collectExpired (s : AmqpServer) (name : Bytes) : List Ref × AmqpServer :=
  match s.queue name with
  | none => ([], s)
  | some q =>
    if q.queueTtlMs < 0 ∧ s.hasPerMessageTtl q = false then ([], s)
    else
      let dlq := q.messages.takeWhile (s.isExpired q s.now)
      (dlq, (s.readClock.modifyQueue name fun q => { q with messages := q.messages.drop dlq.length }).record
        (dlq.map fun r => .removed (s.origin r) name))

/-! ### Dispatch -/

/-- The checks of `dispatchLocked` on one consumer. --/
def eligible (s : AmqpServer) (head k : Ref) : Bool :=
  let consumer := s.consumer k
  consumer.on_deliver.isSome &&
    !(0 < consumer.prefetch_count && consumer.prefetch_count.toNat ≤ consumer.in_flight.toNat) &&
    !(consumer.no_local && idOf (s.message head).source_connection_id = idOf consumer.connection_id)

/-- The `for` loop of `dispatchLocked`: the consumer that takes the message, and `roundRobinIdx_`. --/
def pickConsumer (ok : Ref → Bool) (consumers : List Ref) : Nat → Nat → Option Ref × Nat
  | 0, idx => (none, idx)
  | attempts + 1, idx =>
    match consumers[idx % consumers.length]? with
    | none => (none, idx + 1)
    | some k => if ok k then (some k, idx + 1) else pickConsumer ok consumers attempts (idx + 1)

/-- The call of `on_deliver` for a taken message: a new message object without the WAL id, and a task on
    the strand of the consumer's connection. --/
def onDeliver (s : AmqpServer) (k taken : Ref) : AmqpServer :=
  match (s.consumer k).on_deliver with
  | none => s
  | some f =>
    let m := s.message taken
    let copy : Message :=
      { exchange := m.exchange, routing_key := m.routing_key, properties := m.properties, body := m.body,
        redelivered := m.redelivered }
    let task : DeliverTask :=
      { channel_id := f.channel_id, channel := f.channel, tag := (s.consumer k).tag, exchange := m.exchange,
        routingKey := m.routing_key, redelivered := m.redelivered, props := m.properties, body := m.body,
        queue := f.queue, msg := s.heap.size }
    (s.newDelivery taken copy).modifyConnection f.connection fun conn =>
      { conn with strand := conn.strand ++ [task] }

/-- The head of the queue is handed to consumer `k`. --/
def handOver (s : AmqpServer) (name : Bytes) (k head : Ref) (idx : Nat) : AmqpServer :=
  let s := s.modifyQueue name fun q => { q with messages := q.messages.tail, roundRobinIdx := idx }
  let s := if (s.consumer k).no_ack then s else s.modifyConsumer k fun c => { c with in_flight := c.in_flight + 1 }
  s.onDeliver k head

/-- The `while` loop of `dispatchLocked`; each turn that does not end it takes one message. --/
def dispatchLoop (name : Bytes) : Nat → AmqpServer → AmqpServer
  | 0, s => s
  | turns + 1, s =>
    match s.queue name with
    | none => s
    | some q =>
      match q.messages with
      | [] => s
      | head :: _ =>
        match pickConsumer (s.eligible head) q.consumers q.consumers.length q.roundRobinIdx with
        | (none, idx) => s.modifyQueue name fun q => { q with roundRobinIdx := idx }
        | (some k, idx) => dispatchLoop name turns (s.handOver name k head idx)

def dispatchLocked (s : AmqpServer) (name : Bytes) : AmqpServer :=
  match s.queue name with
  | none => s
  | some q => if q.consumers = [] then s else dispatchLoop name q.messages.length s

/-! ### Dead letters -/

/-- `std::stable_sort` by falling priority, for a queue with priorities. --/
def sortMessages (s : AmqpServer) (q : MessageQueue) (messages : List Ref) : List Ref :=
  if 0 < q.maxPriority then
    messages.insertionSort fun a b => (s.message b).effectivePriority ≤ (s.message a).effectivePriority
  else messages

/-- `push_back` of `enqueue`, with the time and the sort. --/
def pushBack (s : AmqpServer) (name : Bytes) (r : Ref) : AmqpServer :=
  let now := s.now
  let s := s.readClock.modifyMessage r fun m => { m with enqueued_at := now }
  s.modifyQueue name fun q =>
    { q with messages := s.sortMessages q (q.messages ++ [r]), enqueued := q.enqueued ++ [s.origin r] }

/-- `deadLetter`, with `enqueue` for the queues that the message is routed to. --/
def deadLetterWith (enqueue : AmqpServer → Bytes → Ref → AmqpServer) (name reason : Bytes) (s : AmqpServer) (r : Ref) :
    AmqpServer :=
  match s.queue name with
  | none => s
  | some q =>
    if q.dlxExchange = [] ∨ q.deadLetterFn = false then s
    else
      let s := s.modifyMessage r fun m => { m with dlx_hops := m.dlx_hops + 1 }
      if MAX_DLX_HOPS < (s.message r).dlx_hops then s
      else
        let s := s.modifyMessage r fun m =>
          setHeader (ascii "x-first-death-exchange") m.exchange
            (setHeader (ascii "x-first-death-queue") name (setHeader (ascii "x-first-death-reason") reason m))
        let rk := if q.dlxRoutingKey = [] then (s.message r).routing_key else q.dlxRoutingKey
        (s.routeMessage q.dlxExchange rk (s.message r).properties.headers).foldl (fun s qname => enqueue s qname r) s

/-- `deliverToQueue` and `enqueue`: nothing if there is no such queue. --/
def enqueueLoop : Nat → AmqpServer → Bytes → Ref → AmqpServer
  | 0, s, _, _ => s
  | fuel + 1, s, name, r =>
    match s.queue name with
    | none => s
    | some _ =>
      let (dlq, s) := (s.pushBack name r).collectExpired name
      dlq.foldl (deadLetterWith (enqueueLoop fuel) name (ascii "expired")) (s.dispatchLocked name)

/-- More than the dead-letterings that the objects of the heap have left. --/
def dlxFuel (s : AmqpServer) : Nat := (MAX_DLX_HOPS + 1) * s.heap.size + 1

def deliverToQueue (s : AmqpServer) (name : Bytes) (r : Ref) : AmqpServer := enqueueLoop s.dlxFuel s name r

def deadLetter (name reason : Bytes) (s : AmqpServer) (r : Ref) : AmqpServer :=
  deadLetterWith (enqueueLoop s.dlxFuel) name reason s r

/-! ### Operations of a queue -/

def addConsumer (s : AmqpServer) (name : Bytes) (k : Ref) : AmqpServer :=
  (s.modifyQueue name fun q => { q with consumers := q.consumers ++ [k] }).dispatchLocked name

/-- The first consumer with this tag loses its callback and its place. --/
def removeConsumer (s : AmqpServer) (name tag : Bytes) : AmqpServer :=
  match s.queue name with
  | none => s
  | some q =>
    match q.consumers.find? fun k => (s.consumer k).tag = tag with
    | none => s
    | some k =>
      (s.modifyConsumer k fun c => { c with on_deliver := none }).modifyQueue name fun q =>
        { q with consumers := q.consumers.eraseP fun k => (s.consumer k).tag = tag }

def removeConsumersByConnection (s : AmqpServer) (name : Bytes) (connId : Nat) : AmqpServer :=
  match s.queue name with
  | none => s
  | some q =>
    let gone := q.consumers.filter fun k => idOf (s.consumer k).connection_id = idOf connId
    (gone.foldl (fun s k => s.modifyConsumer k fun c => { c with on_deliver := none }) s).modifyQueue name fun q =>
      { q with consumers := q.consumers.filter fun k => idOf (s.consumer k).connection_id ≠ idOf connId }

/-- `get`: the message taken, if there is one. --/
def get (s : AmqpServer) (name : Bytes) : Option Ref × AmqpServer :=
  let (dlq, s) := s.collectExpired name
  let result := (s.queue name).bind fun q => q.messages.head?
  let s := s.modifyQueue name fun q => { q with messages := q.messages.tail }
  (result, dlq.foldl (deadLetter name (ascii "expired")) s)

def purge (s : AmqpServer) (name : Bytes) : AmqpServer :=
  match s.queue name with
  | none => s
  | some q =>
    (s.modifyQueue name fun q => { q with messages := [] }).record
      (q.messages.map fun r => .removed (s.origin r) name)

/-- `reject` of a queue that exists. --/
def reject (s : AmqpServer) (name : Bytes) (requeue : Bool) (r : Ref) : AmqpServer :=
  if requeue then
    ((s.modifyMessage r fun m => { m with redelivered := true }).modifyQueue name fun q =>
      { q with messages := r :: q.messages }).dispatchLocked name
  else deadLetter name (ascii "rejected") s r

def flush (s : AmqpServer) (name : Bytes) : AmqpServer :=
  let (dlq, s) := s.collectExpired name
  dlq.foldl (deadLetter name (ascii "expired")) (s.dispatchLocked name)

end AmqpServer
end Broko.Broker
