import Broko.Storage.MessageStore

/-! Runs of the store: calls of its operations, compactions, and new processes on the same file. -/

namespace Broko.Storage
open Amqp Broker

inductive StoreOp where
  | storeMessage (queueName : Bytes) (msg : Message)
  | storeAck (queueName : Bytes) (messageId : UInt64)
  | storeQueueDeclare (name : Bytes) (durable autoDelete : Bool)
  | storeExchangeDeclare (name type : Bytes) (durable autoDelete internal : Bool)
  | storeBinding (queue exchange routingKey : Bytes)
  | storeQueueDelete (name : Bytes)
  | storeExchangeDelete (name : Bytes)
  | storeUnbind (queue exchange routingKey : Bytes)
  | compactIfNeeded
  | restart

namespace MessageStore

def step (st : MessageStore) : StoreOp → MessageStore
  | .storeMessage queueName msg => (st.storeMessage queueName msg).2
  | .storeAck queueName messageId => st.storeAck queueName messageId
  | .storeQueueDeclare name durable autoDelete => st.storeQueueDeclare name durable autoDelete
  | .storeExchangeDeclare name type durable autoDelete internal =>
    st.storeExchangeDeclare name type durable autoDelete internal
  | .storeBinding queue exchange routingKey => st.storeBinding queue exchange routingKey
  | .storeQueueDelete name => st.storeQueueDelete name
  | .storeExchangeDelete name => st.storeExchangeDelete name
  | .storeUnbind queue exchange routingKey => st.storeUnbind queue exchange routingKey
  | .compactIfNeeded => st.compactIfNeeded
  | .restart => st.restart.2

def run (st : MessageStore) (ops : List StoreOp) : MessageStore := ops.foldl step st

/-- The call as an entry; a message has the id that `storeMessage` returns for it. --/
def written (st : MessageStore) : StoreOp → Option Entry
  | .storeMessage queueName msg => some (.message (recordOf (st.storeMessage queueName msg).1 queueName msg))
  | .storeAck queueName messageId => some (.ack messageId queueName)
  | .storeQueueDeclare name durable autoDelete => some (.queueDeclare { name, durable, auto_delete := autoDelete })
  | .storeExchangeDeclare name type durable autoDelete internal =>
    some (.exchangeDeclare { name, type, durable, auto_delete := autoDelete, internal })
  | .storeBinding queue exchange routingKey => some (.binding { queue, exchange, routing_key := routingKey })
  | .storeQueueDelete name => some (.queueDelete name)
  | .storeExchangeDelete name => some (.exchangeDelete name)
  | .storeUnbind queue exchange routingKey => some (.unbind { queue, exchange, routing_key := routingKey })
  | .compactIfNeeded => none
  | .restart => none

/-- The calls of a run, in order. --/
def history : MessageStore → List StoreOp → List Entry
  | _, [] => []
  | st, op :: ops => (st.written op).toList ++ history (st.step op) ops

end MessageStore
end Broko.Storage
