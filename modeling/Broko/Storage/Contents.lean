import Broko.Lib.History
import Broko.Storage.MessageStore

/-! What the store is for, without bytes and without a file: the declarations, bindings and messages that
    a history of store calls leaves. A call adds one thing, or removes things that earlier calls added. -/

namespace Broko.Storage
open Amqp

namespace Entry

def exchange? : Entry → Option StoredExchangeDecl
  | .exchangeDeclare d => some d
  | _ => none

def queue? : Entry → Option StoredQueueDecl
  | .queueDeclare d => some d
  | _ => none

def binding? : Entry → Option StoredBinding
  | .binding b => some b
  | _ => none

def message? : Entry → Option StoredMessage
  | .message m => some m
  | _ => none

def removesExchange : Entry → StoredExchangeDecl → Bool
  | .exchangeDelete name, d => d.name = name
  | _, _ => false

def removesQueue : Entry → StoredQueueDecl → Bool
  | .queueDelete name, d => d.name = name
  | _, _ => false

def removesBinding : Entry → StoredBinding → Bool
  | .unbind u, b => b.queue = u.queue ∧ b.exchange = u.exchange ∧ b.routing_key = u.routing_key
  | .queueDelete name, b => b.queue = name
  | .exchangeDelete name, b => b.exchange = name
  | _, _ => false

/-- The entry is an ack of the message: it names the message's queue and id. --/
def acks : Entry → StoredMessage → Bool
  | .ack id queue, m => m.queue_name = queue ∧ m.id = id
  | _, _ => false

def deletesQueueOf : Entry → StoredMessage → Bool
  | .queueDelete name, m => m.queue_name = name
  | _, _ => false

def removesMessage (e : Entry) (m : StoredMessage) : Bool := e.acks m || e.deletesQueueOf m

end Entry

/-- The state of the abstract store. --/
structure Contents where
  exchanges : List StoredExchangeDecl := []
  queues : List StoredQueueDecl := []
  bindings : List StoredBinding := []
  messages : List StoredMessage := []

namespace Contents

/-- The call takes effect at once, on what is there. --/
def apply (c : Contents) (e : Entry) : Contents where
  exchanges := c.exchanges.filter (fun d => !e.removesExchange d) ++ e.exchange?.toList
  queues := c.queues.filter (fun d => !e.removesQueue d) ++ e.queue?.toList
  bindings := c.bindings.filter (fun b => !e.removesBinding b) ++ e.binding?.toList
  messages := c.messages.filter (fun m => !e.removesMessage m) ++ e.message?.toList

/-- What was declared, bound or stored and not removed later, in the order of the calls. --/
def ofHistory (h : List Entry) : Contents where
  exchanges := History.surviving Entry.exchange? Entry.removesExchange h
  queues := History.surviving Entry.queue? Entry.removesQueue h
  bindings := History.surviving Entry.binding? Entry.removesBinding h
  messages := History.surviving Entry.message? Entry.removesMessage h

theorem ofHistory_concat (h : List Entry) (e : Entry) : ofHistory (h ++ [e]) = (ofHistory h).apply e := by
  simp only [ofHistory, apply, History.surviving_concat]

end Contents

/-- The part of the recovered data that callers of `recover` use. --/
def RecoveryData.contents (data : RecoveryData) : Contents where
  exchanges := data.exchanges
  queues := data.queues
  bindings := data.bindings
  messages := data.messages

end Broko.Storage
