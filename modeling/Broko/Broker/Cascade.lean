import Broko.Broker.QueueOp
import Broko.Lib.Prefix

/-! What one operation of a queue sets off. Expired and rejected messages go to `deadLetter`, from there through
    `routeMessage` to `enqueue` on other queues, where more messages may expire. `Cascade` follows these calls as the source
    makes them, without a bound on their depth. -/

namespace Broko.Broker
open Amqp Storage

/-- The calls that follow each other. --/
inductive CascadeCall where
  | deadLetter (name : Bytes) (msg : Ref)
  /-- `routeMessage` for a message that `deadLetter` passes on. -/
  | routeMessage (msg : Ref) (exchange routingKey : Bytes)
  | enqueue (name : Bytes) (msg : Ref)
  deriving DecidableEq

/-- What a part of a cascade has to do. --/
inductive CascadeWork where
  /-- `deliverToQueue` for the queues of a list. -/
  | deliver (names : List Bytes) (msg : Ref)
  /-- `deliverDeadLetters`. -/
  | letters (name reason : Bytes) (dlq : List Ref)

/-- The operations that a cascade starts with. --/
inductive CascadeOp where
  | enqueue (msg : Ref)
  | flush
  | get
  /-- `reject` without `requeue`. -/
  | reject (msg : Ref)

def CascadeOp.message? : CascadeOp → Option Ref
  | .enqueue r => some r
  | .reject r => some r
  | _ => none

/-- Why the operation calls `deadLetter`. --/
def CascadeOp.reason : CascadeOp → Bytes
  | .reject _ => ascii "rejected"
  | _ => ascii "expired"

namespace AmqpServer

/-- `deadLetter` up to the call of `deadLetterFn_`: the state there, and the exchange and the routing key of the call. --/
def letter (name reason : Bytes) (s : AmqpServer) (r : Ref) : AmqpServer × Option (Bytes × Bytes) :=
  match s.queue name with
  | none => (s, none)
  | some q =>
    if q.dlxExchange = [] ∨ q.deadLetterFn = false then (s, none)
    else
      let s := s.modifyMessage r fun m => { m with dlx_hops := m.dlx_hops + 1 }
      if MAX_DLX_HOPS < (s.message r).dlx_hops then (s, none)
      else
        let s := s.modifyMessage r fun m =>
          setHeader (ascii "x-first-death-exchange") m.exchange
            (setHeader (ascii "x-first-death-queue") name (setHeader (ascii "x-first-death-reason") reason m))
        (s, some (q.dlxExchange, if q.dlxRoutingKey = [] then (s.message r).routing_key else q.dlxRoutingKey))

/-- The queues that the message goes to when it is passed on. --/
def letterQueues (s : AmqpServer) (r : Ref) (addr : Bytes × Bytes) : List Bytes :=
  s.routeMessage addr.1 addr.2 (s.message r).properties.headers

/-- A part of a cascade, with the calls that it makes and the state after it. --/
inductive Cascade : AmqpServer → CascadeWork → List CascadeCall → AmqpServer → Prop
  | delivered {s r} : Cascade s (.deliver [] r) [] s
  | missing {s name names r calls s'} (hq : s.queue name = none) (rest : Cascade s (.deliver names r) calls s') :
    Cascade s (.deliver (name :: names) r) calls s'
  | enqueue {s name names r q calls₁ s₁ calls₂ s₂} (hq : s.queue name = some q)
    (expired : Cascade (s.enqueueLocked name r).2 (.letters name (ascii "expired") (s.enqueueLocked name r).1) calls₁ s₁)
    (rest : Cascade s₁ (.deliver names r) calls₂ s₂) :
    Cascade s (.deliver (name :: names) r) (.enqueue name r :: calls₁ ++ calls₂) s₂
  | done {s name reason} : Cascade s (.letters name reason []) [] s
  | dropped {s name reason r dlq s₁ calls s₂} (hl : letter name reason s r = (s₁, none))
    (rest : Cascade s₁ (.letters name reason dlq) calls s₂) :
    Cascade s (.letters name reason (r :: dlq)) (.deadLetter name r :: calls) s₂
  | routed {s name reason r dlq s₁ addr calls₁ s₂ calls₂ s₃} (hl : letter name reason s r = (s₁, some addr))
    (queues : Cascade s₁ (.deliver (s₁.letterQueues r addr) r) calls₁ s₂)
    (rest : Cascade s₂ (.letters name reason dlq) calls₂ s₃) :
    Cascade s (.letters name reason (r :: dlq))
      (.deadLetter name r :: .routeMessage r addr.1 addr.2 :: calls₁ ++ calls₂) s₃

/-- The state after the section of an operation, and what is left to do then. --/
def begins (name : Bytes) (s : AmqpServer) : CascadeOp → AmqpServer × CascadeWork
  | .enqueue r => (s, .deliver [name] r)
  | .flush => ((s.flushLocked name).2, .letters name (ascii "expired") (s.flushLocked name).1)
  | .get => ((s.getLocked name).2.2, .letters name (ascii "expired") (s.getLocked name).1)
  | .reject r => (s, .letters name (ascii "rejected") [r])

/-- The state after the whole operation. --/
def ends (name : Bytes) (s : AmqpServer) : CascadeOp → AmqpServer
  | .enqueue r => s.deliverToQueue name r
  | .flush => s.flush name
  | .get => (s.get name).2
  | .reject r => s.reject name false r

/-- How often a message is dead-lettered: the calls of `deadLetter` that pass it on. --/
def deadLettered (r : Ref) (calls : List CascadeCall) : Nat :=
  calls.countP fun
    | .routeMessage r' _ _ => r' = r
    | _ => false

/-- How often `deadLetter` is called for a message. --/
def lettersOf (r : Ref) (calls : List CascadeCall) : Nat :=
  calls.countP fun
    | .deadLetter _ r' => r' = r
    | _ => false

/-! ### The letters of an operation -/

/-- Calls of `deliverToQueue` one after the other, each with the state that it is made in. --/
def deliverCalls (r : Ref) : AmqpServer → List Bytes → List (AmqpServer × Bytes) :=
  Prefix.visits fun s name => s.deliverToQueue name r

/-- The calls of `deliverToQueue` that `deadLetter` makes. --/
def letterCalls (name reason : Bytes) (s : AmqpServer) (r : Ref) : List (AmqpServer × Bytes) :=
  match letter name reason s r with
  | (_, none) => []
  | (s₁, some addr) => deliverCalls r s₁ (s₁.letterQueues r addr)

/-- The state in which an operation looks for what has expired. --/
def collecting (name : Bytes) (s : AmqpServer) : CascadeOp → Option AmqpServer
  | .enqueue r => some (s.pushBack name r)
  | .flush => some s
  | .get => some s
  | .reject _ => none

/-- The messages that an operation calls `deadLetter` for, and the state then. --/
def lettersBy (name : Bytes) (s : AmqpServer) : CascadeOp → List Ref × AmqpServer
  | .enqueue r => s.enqueueLocked name r
  | .flush => s.flushLocked name
  | .get => ((s.getLocked name).1, (s.getLocked name).2.2)
  | .reject r => ([r], s)

/-- The letters, each with the state in which its turn comes. --/
def turns (name reason : Bytes) (dlq : List Ref) (s : AmqpServer) : List (AmqpServer × Ref) :=
  Prefix.visits (deadLetter name reason) s dlq

/-- The turns of the letters of an operation. --/
def turnsOf (name : Bytes) (s : AmqpServer) (op : CascadeOp) : List (AmqpServer × Ref) :=
  turns name op.reason (s.lettersBy name op).1 (s.lettersBy name op).2

end AmqpServer
end Broko.Broker
