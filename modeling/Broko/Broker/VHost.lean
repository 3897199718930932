import Broko.Broker.Queue

/-! `src/broker/vhost.h`: declarations, bindings, the end of a connection, and recovery. -/

namespace Broko.Broker
open Amqp Storage

/-- The reply code and text of a refused request. --/
structure Refusal where
  replyCode : UInt16
  replyText : Bytes
  deriving DecidableEq, Repr

/-- `"NOT_FOUND - no <what> '<name>'"` --/
def notFound (what : String) (name : Bytes) : Refusal :=
  ⟨404, ascii "NOT_FOUND - no " ++ ascii what ++ ascii " '" ++ name ++ ascii "'"⟩

/-- `std::to_string`. --/
def decimal (n : Nat) : Bytes := ascii (toString n)

namespace AmqpServer

/-- The exchanges that the constructor of `VirtualHost` makes. --/
def defaultExchanges : Assoc Bytes Exchange :=
  ([(ascii "", ascii "direct"), (ascii "amq.direct", ascii "direct"), (ascii "amq.fanout", ascii "fanout"),
    (ascii "amq.topic", ascii "topic"), (ascii "amq.headers", ascii "headers"),
    (ascii "amq.match", ascii "headers")]).foldl
    (fun m (name, type) => m.insert name { name, type, durable := true }) ∅

/-! ### Exchanges -/

def declareExchange (s : AmqpServer) (name type : Bytes) (passive durable autoDelete internal : Bool)
    (args : FieldTable) : Except Refusal AmqpServer :=
  match s.exchanges.lookup name with
  | some ex =>
    if passive then .ok s
    else if ex.type ≠ type then .error ⟨406, ascii "PRECONDITION_FAILED - exchange type mismatch"⟩
    else .ok s
  | none =>
    if passive then .error (notFound "exchange" name)
    else
      let ex : Exchange := { name, type, durable, auto_delete := autoDelete, internal, arguments := args }
      let s := { s with exchanges := s.exchanges.insert name ex }
      .ok (if durable then s.modifyStore fun st => st.storeExchangeDeclare name type durable autoDelete internal else s)

def deleteExchange (s : AmqpServer) (name : Bytes) : Except Refusal AmqpServer :=
  match s.exchanges.lookup name with
  | none => .error (notFound "exchange" name)
  | some _ =>
    if (ascii "amq.").isPrefixOf name ∨ name = [] then
      .error ⟨403, ascii "ACCESS_REFUSED - cannot delete default exchange"⟩
    else
      .ok (({ s with exchanges := s.exchanges.erase name }).modifyStore fun st => st.storeExchangeDelete name)

/-! ### Queues -/

def bindDefault (s : AmqpServer) (qname : Bytes) : AmqpServer :=
  { s with exchanges := s.exchanges.modify (ascii "") fun ex => ex.addBinding qname qname [] }

/-- `declareQueue`: the name of the queue, or the refusal. A generated name is used up in any case. --/
def declareQueue (s : AmqpServer) (name : Bytes) (passive durable exclusive autoDelete : Bool) (args : FieldTable)
    (connectionId : Nat) : Except Refusal Bytes × AmqpServer :=
  let s := if name = [] then { s with nameCounter := s.nameCounter + 1 } else s
  let qname := if name = [] then ascii "amq.gen-" ++ decimal s.nameCounter.toNat else name
  match s.queue qname with
  | some q =>
    if passive then (.ok qname, s)
    else if q.exclusive ∧ idOf q.owner_connection ≠ idOf connectionId then
      (.error ⟨405, ascii "RESOURCE_LOCKED - queue '" ++ qname ++ ascii "' is exclusive"⟩, s)
    else (.ok qname, s)
  | none =>
    if passive then (.error (notFound "queue" qname), s)
    else
      let q : MessageQueue :=
        { name := qname, durable, exclusive, auto_delete := autoDelete, arguments := args,
          owner_connection := if exclusive then connectionId else 0, deadLetterFn := true }
      let s := { s with queues := s.queues.insert qname q.configure }
      let s := s.bindDefault qname
      (.ok qname, if durable then s.modifyStore fun st => st.storeQueueDeclare qname durable autoDelete else s)

/-- The loop over all exchanges that takes the bindings of a queue away. --/
def removeBindingsOf (s : AmqpServer) (name : Bytes) : AmqpServer :=
  { s with exchanges := s.exchanges.map fun ex => ex.removeBindingsOf name }

/-- `deleteQueue`, with the number of messages that the queue had. --/
def deleteQueue (s : AmqpServer) (name : Bytes) (ifUnused ifEmpty : Bool) : Except Refusal (Nat × AmqpServer) :=
  match s.queue name with
  | none => .error (notFound "queue" name)
  | some q =>
    if ifUnused ∧ q.consumers ≠ [] then .error ⟨406, ascii "PRECONDITION_FAILED - queue in use"⟩
    else if ifEmpty ∧ q.messages ≠ [] then .error ⟨406, ascii "PRECONDITION_FAILED - queue not empty"⟩
    else
      let s := s.removeBindingsOf name
      let s := { s with queues := s.queues.erase name }
      .ok (q.messages.length, s.modifyStore fun st => st.storeQueueDelete name)

/-! ### Bindings -/

def bindQueue (s : AmqpServer) (queue exchange routingKey : Bytes) (args : FieldTable) : Except Refusal AmqpServer :=
  match s.exchanges.lookup exchange, s.queue queue with
  | none, _ => .error (notFound "exchange" exchange)
  | some _, none => .error (notFound "queue" queue)
  | some _, some _ =>
    let s := { s with exchanges := s.exchanges.modify exchange fun ex => ex.addBinding queue routingKey args }
    .ok (s.modifyStore fun st => st.storeBinding queue exchange routingKey)

def unbindQueue (s : AmqpServer) (queue exchange routingKey : Bytes) : Except Refusal AmqpServer :=
  match s.exchanges.lookup exchange with
  | none => .error (notFound "exchange" exchange)
  | some _ =>
    let s := { s with exchanges := s.exchanges.modify exchange fun ex => ex.removeBinding queue routingKey }
    .ok (s.modifyStore fun st => st.storeUnbind queue exchange routingKey)

/-! ### Maintenance -/

def tick (s : AmqpServer) : AmqpServer := s.queues.keys.foldl flush s

/-- Whether the queue goes with its connection. --/
def ownedBy (connectionId : Nat) (q : MessageQueue) : Bool := q.exclusive && idOf q.owner_connection = idOf connectionId

/-- Whether the last phase of `removeConnectionQueues` takes the queue: on no connection's account. --/
def abandoned (q : MessageQueue) : Bool := q.auto_delete && q.consumers.isEmpty

/-- The keys of the queues with a property, in the order of iteration. --/
def queueNames (s : AmqpServer) (p : MessageQueue → Bool) : List Bytes :=
  (s.queues.entries.filter fun e => p e.2).map Prod.fst

def removeConnectionQueues (s : AmqpServer) (connectionId : Nat) : AmqpServer :=
  let toRemove := s.queueNames (ownedBy connectionId)
  let nonExclusive := s.queueNames fun q => !ownedBy connectionId q
  let s := nonExclusive.foldl (fun s name => s.removeConsumersByConnection name connectionId) s
  let s := toRemove.foldl
    (fun s name => { s.removeBindingsOf name with queues := s.queues.erase name }) s
  (s.queueNames abandoned).foldl (fun s name => { s with queues := s.queues.erase name }) s

/-! ### Recovery -/

def recoverExchange (s : AmqpServer) (ed : StoredExchangeDecl) : AmqpServer :=
  match s.exchanges.lookup ed.name with
  | some _ => s
  | none =>
    let ex : Exchange :=
      { name := ed.name, type := ed.type, durable := ed.durable, auto_delete := ed.auto_delete, internal := ed.internal }
    { s with exchanges := s.exchanges.insert ed.name ex }

def recoverQueue (s : AmqpServer) (qd : StoredQueueDecl) : AmqpServer :=
  match s.queue qd.name with
  | some _ => s
  | none =>
    let q : MessageQueue := { name := qd.name, durable := qd.durable, auto_delete := qd.auto_delete }
    ({ s with queues := s.queues.insert qd.name q }).bindDefault qd.name

def recoverBinding (s : AmqpServer) (sb : StoredBinding) : AmqpServer :=
  { s with exchanges := s.exchanges.modify sb.exchange fun ex => ex.addBinding sb.queue sb.routing_key [] }

def recoverMessage (s : AmqpServer) (sm : StoredMessage) : AmqpServer :=
  match s.queue sm.queue_name with
  | none => s
  | some _ =>
    let msg : Message :=
      { exchange := sm.exchange, routing_key := sm.routing_key, properties := sm.properties, body := sm.body,
        wal_id := sm.id }
    let r := s.heap.size
    ((s.newMessage msg).record [.stored r sm.queue_name sm.id]).deliverToQueue sm.queue_name r

def recoverFromStore (s : AmqpServer) : AmqpServer :=
  match s.store with
  | none => s
  | some st =>
    let (data, st) := st.recover
    let s := { s with store := some st }
    let s := data.exchanges.foldl recoverExchange s
    let s := data.queues.foldl recoverQueue s
    let s := data.bindings.foldl recoverBinding s
    data.messages.foldl recoverMessage s

end AmqpServer
end Broko.Broker
