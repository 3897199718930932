import Broko.Broker.Sections

/-! The operations of a `MessageQueue`, each at the grain of its lock. What has expired is dead-lettered after the lock
    is released; if it comes back to the queue, that is an `enqueue` of its own. Between two operations other code runs:
    settlements, other queues, other threads. -/

namespace Broko.Broker
open Amqp Storage

inductive QueueOp where
  | enqueue (msg : Ref)
  | addConsumer (consumer : Ref)
  | removeConsumer (tag : Bytes)
  | removeConsumersByConnection (connId : Nat)
  | get
  | purge
  /-- `reject` with `requeue` set. -/
  | requeue (msg : Ref)
  | flush

/-- The message that the operation puts into the queue. --/
def QueueOp.message? : QueueOp → Option Ref
  | .enqueue r => some r
  | .requeue r => some r
  | _ => none

/-- The message that the operation enqueues. --/
def QueueOp.enqueued? : QueueOp → Option Ref
  | .enqueue r => some r
  | _ => none

def QueueOp.isRequeue : QueueOp → Bool
  | .requeue _ => true
  | _ => false

namespace AmqpServer

/-- The section of `get`: what had expired, the message taken, and the state after it. --/
def getLocked (s : AmqpServer) (name : Bytes) : List Ref × Option Ref × AmqpServer :=
  let (dlq, s) := s.collectExpired name
  (dlq, (s.queue name).bind fun q => q.messages.head?,
    s.modifyQueue name fun q => { q with messages := q.messages.tail })

/-- The section of `flush`. --/
def flushLocked (s : AmqpServer) (name : Bytes) : List Ref × AmqpServer :=
  let (dlq, s) := s.collectExpired name
  (dlq, s.dispatchLocked name)

/-- The state after the section of an operation. --/
def locked (name : Bytes) (s : AmqpServer) : QueueOp → AmqpServer
  | .enqueue r => (s.enqueueLocked name r).2
  | .addConsumer k => s.addConsumer name k
  | .removeConsumer tag => s.removeConsumer name tag
  | .removeConsumersByConnection connId => s.removeConsumersByConnection name connId
  | .get => (s.getLocked name).2.2
  | .purge => s.purge name
  | .requeue r => s.reject name true r
  | .flush => (s.flushLocked name).2

/-! ### What an operation takes out -/

/-- A message that is handed to a consumer, with the state that it is taken from the queue in. --/
structure Handover where
  state : AmqpServer
  message : Ref
  consumer : Ref

/-- The messages that `dispatchLoop` hands out and who gets them, in order. --/
def handoversLoop (name : Bytes) : Nat → AmqpServer → List Handover
  | 0, _ => []
  | turns + 1, s =>
    match s.queue name with
    | none => []
    | some q =>
      match q.messages with
      | [] => []
      | head :: _ =>
        match pickConsumer (s.eligible head) q.consumers q.consumers.length q.roundRobinIdx with
        | (none, _) => []
        | (some k, idx) => ⟨s, head, k⟩ :: handoversLoop name turns (s.handOver name k head idx)

/-- The same of `dispatchLocked`. --/
def handovers (s : AmqpServer) (name : Bytes) : List Handover :=
  match s.queue name with
  | none => []
  | some q => if q.consumers = [] then [] else handoversLoop name q.messages.length s

/-- The messages among them. --/
def handed (s : AmqpServer) (name : Bytes) : List Ref := (s.handovers name).map Handover.message

/-- The state in which an operation dispatches, if it does. --/
def dispatching (name : Bytes) (s : AmqpServer) : QueueOp → Option AmqpServer
  | .enqueue r => some ((s.pushBack name r).collectExpired name).2
  | .addConsumer k => some (s.modifyQueue name fun q => { q with consumers := q.consumers ++ [k] })
  | .requeue r =>
    some ((s.modifyMessage r fun m => { m with redelivered := true }).modifyQueue name fun q =>
      { q with messages := r :: q.messages })
  | .flush => some (s.collectExpired name).2
  | _ => none

/-- What an operation hands to consumers. --/
def handoversOf (name : Bytes) (s : AmqpServer) (op : QueueOp) : List Handover :=
  ((s.dispatching name op).map fun s => s.handovers name).getD []

/-- What an operation drops as expired. --/
def expired (name : Bytes) (s : AmqpServer) : QueueOp → List Ref
  | .enqueue r => (s.enqueueLocked name r).1
  | .get => (s.getLocked name).1
  | .flush => (s.flushLocked name).1
  | _ => []

/-- What an operation hands out: to consumers, or as the result of `get`. --/
def handedOut (name : Bytes) (s : AmqpServer) (op : QueueOp) : List Ref :=
  match op with
  | .get => (s.getLocked name).2.1.toList
  | op => ((s.dispatching name op).map fun s => s.handed name).getD []

/-- What an operation takes out of the queue, in order: first what has expired, then what it hands out; a purge takes all
    that is there. --/
def taken (name : Bytes) (s : AmqpServer) (op : QueueOp) : List Ref :=
  match op with
  | .purge => ((s.queue name).map MessageQueue.messages).getD []
  | op => s.expired name op ++ s.handedOut name op

/-! ### Runs -/

/-- The messages that are ready, and whether they are kept by priority. --/
def deque (s : AmqpServer) (name : Bytes) : Option (List Ref × UInt8) :=
  (s.queue name).map fun q => (q.messages, q.maxPriority)

/-- The message objects have the priorities that they had. --/
structure SamePriorities (s s' : AmqpServer) : Prop where
  size : s.heap.size ≤ s'.heap.size
  priority : ∀ r < s.heap.size, (s'.message r).effectivePriority = (s.message r).effectivePriority

/-- What other code may do between two operations: it does not reach into the queue. --/
structure Between (name : Bytes) (s s' : AmqpServer) : Prop where
  deque : s'.deque name = s.deque name
  priorities : SamePriorities s s'

/-- A run of operations of the queue with anything between them: the operations with the states that they start in. --/
inductive QueueRun (name : Bytes) (s : AmqpServer) : List (AmqpServer × QueueOp) → AmqpServer → Prop
  | nil : QueueRun name s [] s
  | between {log s₁ s₂} (run : QueueRun name s log s₁) (h : Between name s₁ s₂) : QueueRun name s log s₂
  | op {log s₁} (run : QueueRun name s log s₁) (o : QueueOp) (h : ∀ r ∈ o.message?, r < s₁.heap.size) :
    QueueRun name s (log ++ [(s₁, o)]) (s₁.locked name o)

/-- The consumers of a queue, and the position of its round robin. --/
def rota (s : AmqpServer) (name : Bytes) : Option (List Ref × Nat) :=
  (s.queue name).map fun q => (q.consumers, q.roundRobinIdx)

/-- A run in which the queue has the consumers `l` all the time, with what is handed to them: operations of the queue, and
    between them anything that leaves its consumers and its position alone. --/
inductive RotaRun (name : Bytes) (l : List Ref) (s : AmqpServer) : List Handover → AmqpServer → Prop
  | nil (h : (s.rota name).map Prod.fst = some l) : RotaRun name l s [] s
  | between {log s₁ s₂} (run : RotaRun name l s log s₁) (h : s₂.rota name = s₁.rota name) : RotaRun name l s log s₂
  | op {log s₁} (run : RotaRun name l s log s₁) (o : QueueOp)
    (h : ((s₁.locked name o).rota name).map Prod.fst = some l) :
    RotaRun name l s (log ++ s₁.handoversOf name o) (s₁.locked name o)

/-- The operations with the states that they start in. --/
def opsFrom (name : Bytes) : AmqpServer → List QueueOp → List (AmqpServer × QueueOp)
  | _, [] => []
  | s, op :: ops => (s, op) :: opsFrom name (s.locked name op) ops

/-- The messages enqueued in a run, in order. --/
def enqueuedIn (log : List (AmqpServer × QueueOp)) : List Ref := log.filterMap fun x => x.2.enqueued?

/-- The messages taken out in a run, in order. --/
def takenIn (name : Bytes) (log : List (AmqpServer × QueueOp)) : List Ref := log.flatMap fun x => x.1.taken name x.2

end AmqpServer
end Broko.Broker
