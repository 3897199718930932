import Broko.Broker.Server

/-! The operations of `VirtualHost` on its exchanges, queues and bindings, as calls of the class: any of them may
    be made at any time. A request that is refused leaves everything as it was. -/

namespace Broko.Broker
open Amqp Storage

inductive VHostOp where
  | declareExchange (name type : Bytes) (passive durable autoDelete internal : Bool) (args : FieldTable)
  | deleteExchange (name : Bytes)
  | declareQueue (name : Bytes) (passive durable exclusive autoDelete : Bool) (args : FieldTable) (connectionId : Nat)
  | deleteQueue (name : Bytes) (ifUnused ifEmpty : Bool)
  | bindQueue (queue exchange routingKey : Bytes) (args : FieldTable)
  | unbindQueue (queue exchange routingKey : Bytes)
  | removeConnectionQueues (connectionId : Nat)
  /-- A new `VirtualHost` on the same store, and `recoverFromStore`. -/
  | restart

/-- Names come from short strings. --/
def VHostOp.Short : VHostOp → Prop
  | .declareExchange name type .. => name.length ≤ 255 ∧ type.length ≤ 255
  | .deleteExchange name => name.length ≤ 255
  | .declareQueue name .. => name.length ≤ 255
  | .deleteQueue name .. => name.length ≤ 255
  | .bindQueue queue exchange routingKey _ =>
    queue.length ≤ 255 ∧ exchange.length ≤ 255 ∧ routingKey.length ≤ 255
  | .unbindQueue queue exchange routingKey => queue.length ≤ 255 ∧ exchange.length ≤ 255 ∧ routingKey.length ≤ 255
  | .removeConnectionQueues _ => True
  | .restart => True

instance : (op : VHostOp) → Decidable op.Short
  | .declareExchange name type .. => inferInstanceAs (Decidable (name.length ≤ 255 ∧ type.length ≤ 255))
  | .deleteExchange name => inferInstanceAs (Decidable (name.length ≤ 255))
  | .declareQueue name .. => inferInstanceAs (Decidable (name.length ≤ 255))
  | .deleteQueue name .. => inferInstanceAs (Decidable (name.length ≤ 255))
  | .bindQueue queue exchange routingKey _ =>
    inferInstanceAs (Decidable (queue.length ≤ 255 ∧ exchange.length ≤ 255 ∧ routingKey.length ≤ 255))
  | .unbindQueue queue exchange routingKey =>
    inferInstanceAs (Decidable (queue.length ≤ 255 ∧ exchange.length ≤ 255 ∧ routingKey.length ≤ 255))
  | .removeConnectionQueues _ => inferInstanceAs (Decidable True)
  | .restart => inferInstanceAs (Decidable True)

namespace AmqpServer

/-- The state after a request: that of the answer, or the old one. --/
def orElse (s : AmqpServer) : Except Refusal AmqpServer → AmqpServer
  | .ok s' => s'
  | .error _ => s

def perform (s : AmqpServer) : VHostOp → AmqpServer
  | .declareExchange name type passive durable autoDelete internal args =>
    s.orElse (s.declareExchange name type passive durable autoDelete internal args)
  | .deleteExchange name => s.orElse (s.deleteExchange name)
  | .declareQueue name passive durable exclusive autoDelete args connectionId =>
    (s.declareQueue name passive durable exclusive autoDelete args connectionId).2
  | .deleteQueue name ifUnused ifEmpty => s.orElse ((s.deleteQueue name ifUnused ifEmpty).map Prod.snd)
  | .bindQueue queue exchange routingKey args => s.orElse (s.bindQueue queue exchange routingKey args)
  | .unbindQueue queue exchange routingKey => s.orElse (s.unbindQueue queue exchange routingKey)
  | .removeConnectionQueues connectionId => s.removeConnectionQueues connectionId
  | .restart => s.restart

/-! ### What is there -/

def hasQueue (s : AmqpServer) (name : Bytes) : Bool := (s.queue name).isSome

def hasExchange (s : AmqpServer) (name : Bytes) : Bool := (s.exchanges.lookup name).isSome

/-- The bindings of an exchange, none if it is not there. --/
def bindingsOf (s : AmqpServer) (exchange : Bytes) : List Binding :=
  ((s.exchanges.lookup exchange).map Exchange.bindings).getD []

def hasBinding (s : AmqpServer) (b : StoredBinding) : Bool :=
  (s.bindingsOf b.exchange).any fun x => x.queue_name = b.queue ∧ x.routing_key = b.routing_key

/-- What the log would give to a new process. --/
def logged (s : AmqpServer) : RecoveryData := ((s.store.map fun st => st.recover.1)).getD {}

end AmqpServer
end Broko.Broker
