import Broko.Lib.FirstOccurrence
import Broko.Theorems.Runs
import Broko.Theorems.TopicMatch
import Broko.Theorems.VHostSteps

/-! What `routeMessage` returns: the queues of the bindings that match, each at its first binding. -/

namespace Broko.Broker
open Amqp Storage FirstOccurrence

/-! ### One exchange -/

namespace ExchangeClass

theorem routeLoop_eq (test : Binding → Bool) (result : List Bytes) (bindings : List Binding) :
    routeLoop test result bindings = result ++ (bindings.filter test).map Binding.queue_name := by
  induction bindings generalizing result with
  | nil => exact (List.append_nil result).symm
  | cons b rest ih =>
    rw [routeLoop, ih, List.filter_cons]
    by_cases hb : test b = true
    · rw [if_pos hb, if_pos hb, List.append_assoc]
      rfl
    · rw [if_neg hb, if_neg hb]

/-- When a class sends a message to the queue of a binding. --/
def Matches (routingKey : Bytes) (headers : Option FieldTable) (b : Binding) : ExchangeClass → Prop
  | .DirectExchange => b.routing_key = routingKey
  | .FanoutExchange => True
  | .TopicExchange => Segments.Cut Exchange.Takes (Exchange.splitDot b.routing_key) (Exchange.splitDot routingKey)
  | .HeadersExchange => ∃ h, headers = some h ∧ Exchange.matchHeaders b.arguments h = true

end ExchangeClass

namespace Exchange

theorem matchesBinding_of_class (ex : Exchange) (routingKey : Bytes) (headers : Option FieldTable) (b : Binding) :
    ex.matchesBinding routingKey headers b =
      match createExchange ex.type with
      | .DirectExchange => decide (b.routing_key = routingKey)
      | .FanoutExchange => true
      | .TopicExchange => topicMatch b.routing_key routingKey
      | .HeadersExchange => headers.any fun h => matchHeaders b.arguments h := by
  unfold matchesBinding createExchange
  by_cases hdirect : ex.type = ascii "direct"
  · rw [hdirect]
    rfl
  · rw [if_neg hdirect]
    split
    · rfl
    · split
      · rfl
      · split
        · cases headers <;> rfl
        · rfl

/-- The exchange routes as the class that `createExchange` picks. --/
theorem route_eq_class (ex : Exchange) (routingKey : Bytes) (headers : Option FieldTable) :
    ex.route routingKey headers = (createExchange ex.type).route ex.bindings routingKey headers := by
  have hmatch : ex.matchesBinding routingKey headers = fun b => ex.matchesBinding routingKey headers b := rfl
  rw [route, hmatch]
  simp only [matchesBinding_of_class]
  cases createExchange ex.type with
  | HeadersExchange =>
    cases headers with
    | none => simp [ExchangeClass.route]
    | some h => simp [ExchangeClass.route, ExchangeClass.routeLoop_eq]
  | DirectExchange => simp [ExchangeClass.route, ExchangeClass.routeLoop_eq]
  | FanoutExchange => simp [ExchangeClass.route, ExchangeClass.routeLoop_eq]
  | TopicExchange => simp [ExchangeClass.route, ExchangeClass.routeLoop_eq]

theorem matchesBinding_iff (ex : Exchange) (routingKey : Bytes) (headers : Option FieldTable) (b : Binding) :
    ex.matchesBinding routingKey headers b = true ↔ (createExchange ex.type).Matches routingKey headers b := by
  rw [matchesBinding_of_class]
  cases createExchange ex.type with
  | DirectExchange => exact decide_eq_true_iff
  | FanoutExchange => exact iff_of_true rfl trivial
  | TopicExchange => exact topicMatch_cut b.routing_key routingKey
  | HeadersExchange => exact Option.any_eq_true ..

theorem type_of_head {ex ex' : Exchange} (h : ex'.head = ex.head) : ex'.type = ex.type :=
  show ex'.head.type = ex.head.type from congrArg Exchange.type h

end Exchange

namespace AmqpServer

variable {s s' : AmqpServer}

theorem eraseSeen_eq (seen l : List Bytes) : eraseSeen seen l = (l.filter fun q => q ∉ seen).eraseDups := by
  induction l generalizing seen with
  | nil => rfl
  | cons q l ih =>
    rw [eraseSeen, List.filter_cons]
    by_cases hq : q ∈ seen
    · rw [if_pos hq, ih, if_neg (by simp [hq])]
    · rw [if_neg hq, ih, if_pos (by simp [hq]), List.eraseDups_cons, List.filter_filter]
      congr 2
      refine List.filter_congr fun x _ => ?_
      rw [Bool.eq_iff_iff]
      simp [not_or]

theorem routeMessage_eq {exchange routingKey : Bytes} {headers : Option FieldTable} {ex : Exchange}
    (h : s.exchanges.lookup exchange = some ex) :
    s.routeMessage exchange routingKey headers =
      names Binding.queue_name (ex.matchesBinding routingKey headers) ex.bindings := by
  rw [routeMessage, h]
  dsimp only
  rw [eraseSeen_eq, names, Exchange.route]
  simp

/-- The position of the first binding of the exchange that matches and has the queue. --/
def firstMatch (ex : Exchange) (routingKey : Bytes) (headers : Option FieldTable) (q : Bytes) : Nat :=
  firstIdx Binding.queue_name (ex.matchesBinding routingKey headers) ex.bindings q

/-! ### Binds -/

theorem bindQueue_eq_ok {queue exchange routingKey : Bytes} {args : FieldTable} :
    s.bindQueue queue exchange routingKey args = .ok s' ↔ s.hasExchange exchange ∧ s.hasQueue queue ∧
      s' = ({ s with exchanges := s.exchanges.modify exchange fun ex => ex.addBinding queue routingKey args } :
        AmqpServer).logIf true (.binding { queue, exchange, routing_key := routingKey }) := by
  rw [AmqpServer.bindQueue, AmqpServer.hasExchange, hasQueue]
  cases s.exchanges.lookup exchange with
  | none => simp
  | some ex =>
    cases s.queue queue with
    | none => simp
    | some q =>
      simp only [Except.ok.injEq, Option.isSome_some, true_and]
      exact eq_comm

theorem exists_bindQueue {queue exchange : Bytes} (hex : s.hasExchange exchange) (hq : s.hasQueue queue) (routingKey : Bytes)
    (args : FieldTable) : ∃ s', s.bindQueue queue exchange routingKey args = .ok s' :=
  ⟨_, bindQueue_eq_ok.mpr ⟨hex, hq, rfl⟩⟩

theorem bindingsOf_bindQueue {queue exchange routingKey : Bytes} {args : FieldTable}
    (h : s.bindQueue queue exchange routingKey args = .ok s') (name : Bytes) :
    s'.bindingsOf name = if name = exchange then
      s.bindingsOf exchange ++ [{ queue_name := queue, routing_key := routingKey, arguments := args }]
    else s.bindingsOf name := by
  obtain ⟨hex, -, rfl⟩ := bindQueue_eq_ok.mp h
  rw [bindingsOf_logIf, bindingsOf_addBinding]
  simp only [hex, and_true]

/-- Two queues on one exchange, the second bound twice. --/
def twiceBound : List VHostOp :=
  [.declareQueue (ascii "p") false true false false [] 1, .declareQueue (ascii "q") false true false false [] 1,
   .bindQueue (ascii "q") (ascii "amq.fanout") (ascii "k") [], .bindQueue (ascii "p") (ascii "amq.fanout") (ascii "k") [],
   .bindQueue (ascii "q") (ascii "amq.fanout") (ascii "l") []]

end AmqpServer
end Broko.Broker
