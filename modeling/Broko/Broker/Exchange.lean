import Broko.Amqp.Content

/-! `src/broker/exchange.h`: bindings and routing. -/

namespace Broko.Broker
open Amqp

structure Binding where
  queue_name : Bytes
  routing_key : Bytes
  arguments : FieldTable
  deriving Repr

/-- An exchange. Its class is the one that `createExchange` picks for its type. --/
structure Exchange where
  name : Bytes
  type : Bytes
  durable : Bool := false
  auto_delete : Bool := false
  internal : Bool := false
  arguments : FieldTable := []
  bindings : List Binding := []
  deriving Repr

namespace Exchange

def addBinding (ex : Exchange) (queue routingKey : Bytes) (args : FieldTable) : Exchange :=
  { ex with bindings := ex.bindings ++ [{ queue_name := queue, routing_key := routingKey, arguments := args }] }

def removeBinding (ex : Exchange) (queue routingKey : Bytes) : Exchange :=
  { ex with bindings := ex.bindings.filter fun b => ¬(b.queue_name = queue ∧ b.routing_key = routingKey) }

/-- The loop of `deleteQueue` and `removeConnectionQueues` over a copy of the bindings. --/
def removeBindingsOf (ex : Exchange) (queue : Bytes) : Exchange :=
  ex.bindings.foldl
    (fun ex b => if b.queue_name = queue then ex.removeBinding queue b.routing_key else ex) ex

/-! ### Topic patterns -/

/-- The loop of `splitDot`: `part` is the text since `start`. --/
def splitDotLoop (part : Bytes) : Bytes → List Bytes
  | [] => [part]
  | c :: rest => if c = tagByte '.' then part :: splitDotLoop [] rest else splitDotLoop (part ++ [c]) rest

def splitDot (s : Bytes) : List Bytes := splitDotLoop [] s

/-- `dp[j] = dp[j] || dp[j - 1]`, left to right; `prev` is the entry before. --/
def hashRow (prev : Bool) : List Bool → List Bool
  | [] => []
  | d :: dp => (d || prev) :: hashRow (d || prev) dp

/-- `dp[j] = dp[j - 1] && ...`, right to left, and `dp[0] = false`. --/
def wordRow (pat : Bytes) (kp : List Bytes) (dp : List Bool) : List Bool :=
  false :: (dp.zip kp).map fun (d, word) => d && (pat = ascii "*" || pat = word)

def topicRow (kp : List Bytes) (dp : List Bool) (pat : Bytes) : List Bool :=
  if pat = ascii "#" then
    match dp with
    | [] => []
    | d :: rest => d :: hashRow d rest
  else wordRow pat kp dp

def topicMatch (pattern key : Bytes) : Bool :=
  let kp := splitDot key
  ((splitDot pattern).foldl (topicRow kp) (true :: kp.map fun _ => false)).getLastD false

/-- The loop over a `#`, in place: after `n` rounds `dp[1]` to `dp[n]` are written. --/
def hashScan (dp : List Bool) : Nat → List Bool
  | 0 => dp
  | n + 1 =>
    let dp := hashScan dp n
    dp.set (n + 1) (dp.getD (n + 1) false || dp.getD n false)

/-- The loop over any other word, in place: `dp[j]` to `dp[1]` are still to be written. --/
def wordScan (pat : Bytes) (kp : List Bytes) : Nat → List Bool → List Bool
  | 0, dp => dp
  | j + 1, dp => wordScan pat kp j (dp.set (j + 1) (dp.getD j false && (pat = ascii "*" || pat = kp.getD j [])))

def topicScan (kp : List Bytes) (dp : List Bool) (pat : Bytes) : List Bool :=
  if pat = ascii "#" then hashScan dp kp.length else (wordScan pat kp kp.length dp).set 0 false

/-- `topicMatch` on one row of cells that are overwritten, as the source has it. --/
def topicMatchInPlace (pattern key : Bytes) : Bool :=
  let kp := splitDot key
  ((splitDot pattern).foldl (topicScan kp) ((List.replicate (kp.length + 1) false).set 0 true)).getD kp.length false

/-! ### Headers -/

/-- The loop of `matchHeaders`. --/
def matchHeadersLoop (matchAll : Bool) (msgHeaders : FieldTable) : FieldTable → Bool
  | [] => matchAll
  | (name, _) :: rest =>
    if (ascii "x-").isPrefixOf name then matchHeadersLoop matchAll msgHeaders rest
    else
      let found := (msgHeaders.find name).isSome
      if matchAll && !found then false
      else if !matchAll && found then true
      else matchHeadersLoop matchAll msgHeaders rest

/-- `string_val`, empty for a value that is no string. --/
def stringVal : FieldValue → Bytes
  | .shortString v => v
  | .longString v => v
  | _ => []

def matchHeaders (bindArgs msgHeaders : FieldTable) : Bool :=
  let matchAll :=
    match bindArgs.find (ascii "x-match") with
    | some v => stringVal v ≠ ascii "any"
    | none => true
  matchHeadersLoop matchAll msgHeaders bindArgs

/-! ### Routing -/

def matchesBinding (ex : Exchange) (routingKey : Bytes) (headers : Option FieldTable) (b : Binding) : Bool :=
  if ex.type = ascii "fanout" then true
  else if ex.type = ascii "topic" then topicMatch b.routing_key routingKey
  else if ex.type = ascii "headers" then
    match headers with
    | none => false
    | some h => matchHeaders b.arguments h
  else b.routing_key = routingKey

def route (ex : Exchange) (routingKey : Bytes) (headers : Option FieldTable) : List Bytes :=
  (ex.bindings.filter (ex.matchesBinding routingKey headers)).map Binding.queue_name

end Exchange

/-! ### The classes

The four classes of `exchange.h`, each with its own `route`, as `createExchange` picks them. -/

inductive ExchangeClass where
  | DirectExchange
  | FanoutExchange
  | TopicExchange
  | HeadersExchange
  deriving DecidableEq, Repr

def createExchange (type : Bytes) : ExchangeClass :=
  if type = ascii "direct" then .DirectExchange
  else if type = ascii "fanout" then .FanoutExchange
  else if type = ascii "topic" then .TopicExchange
  else if type = ascii "headers" then .HeadersExchange
  else .DirectExchange

namespace ExchangeClass

/-- The loop of the four `route`s, with the `result` so far. --/
def routeLoop (test : Binding → Bool) (result : List Bytes) : List Binding → List Bytes
  | [] => result
  | b :: rest => routeLoop test (if test b then result ++ [b.queue_name] else result) rest

def route (bindings : List Binding) (routingKey : Bytes) (headers : Option FieldTable) : ExchangeClass → List Bytes
  | .DirectExchange => routeLoop (fun b => b.routing_key = routingKey) [] bindings
  | .FanoutExchange => routeLoop (fun _ => true) [] bindings
  | .TopicExchange => routeLoop (fun b => Exchange.topicMatch b.routing_key routingKey) [] bindings
  | .HeadersExchange =>
    match headers with
    | none => []
    | some headers => routeLoop (fun b => Exchange.matchHeaders b.arguments headers) [] bindings

end ExchangeClass
end Broko.Broker
