import Broko.Broker.Client
import Broko.Theorems.Routing

/-! The deletion of queues and exchanges: what goes with a queue and what stays, and when a conditional request is refused. -/

namespace Broko.Broker
open Amqp Storage MessageStore FirstOccurrence

namespace AmqpServer

variable {s s' : AmqpServer}

/-! ### What goes with a queue -/

/-- Some queues are gone with their bindings. Everything else is as it was, also the order of the bindings. --/
structure OnlyWithout (gone : Bytes → Bool) (s s' : AmqpServer) : Prop where
  route : ∀ exchange routingKey headers, s'.routeMessage exchange routingKey headers =
    (s.routeMessage exchange routingKey headers).filter fun q => !gone q
  unbound : ∀ exchange, ∀ b ∈ s'.bindingsOf exchange, gone b.queue_name = false
  queues : ∀ name, s'.queue name = if gone name then none else s.queue name
  exchanges : ∀ exchange, (s'.exchanges.lookup exchange).map Exchange.head = (s.exchanges.lookup exchange).map Exchange.head
  bindings : ∀ exchange, s'.bindingsOf exchange = (s.bindingsOf exchange).filter fun b => !gone b.queue_name
  heap : s'.heap = s.heap
  consumerHeap : s'.consumerHeap = s.consumerHeap

/-- The routes follow the bindings. --/
theorem routeMessage_filter {gone : Bytes → Bool}
    (hhead : ∀ exchange, (s'.exchanges.lookup exchange).map Exchange.head = (s.exchanges.lookup exchange).map Exchange.head)
    (hbindings : ∀ exchange, s'.bindingsOf exchange = (s.bindingsOf exchange).filter fun b => !gone b.queue_name)
    (exchange routingKey : Bytes) (headers : Option FieldTable) : s'.routeMessage exchange routingKey headers =
      (s.routeMessage exchange routingKey headers).filter fun q => !gone q := by
  have hsame := hhead exchange
  have hb := hbindings exchange
  rw [bindingsOf, bindingsOf] at hb
  cases hex : s.exchanges.lookup exchange with
  | none =>
    rw [hex, Option.map_none, Option.map_eq_none_iff] at hsame
    rw [routeMessage, routeMessage, hex, hsame]
    rfl
  | some ex =>
    rw [hex, Option.map_some, Option.map_eq_some_iff] at hsame
    obtain ⟨ex', hex', hhead'⟩ := hsame
    rw [hex, hex'] at hb
    have hb : ex'.bindings = ex.bindings.filter fun b => !gone b.queue_name := hb
    have hmatch : ex'.matchesBinding routingKey headers = ex.matchesBinding routingKey headers := by
      funext b
      rw [Exchange.matchesBinding_of_class, Exchange.matchesBinding_of_class, Exchange.type_of_head hhead']
    rw [routeMessage_eq hex, routeMessage_eq hex', hmatch, hb]
    exact names_filter_name fun q => !gone q

namespace OnlyWithout

variable {gone : Bytes → Bool}

theorem of_bindings
    (hhead : ∀ exchange, (s'.exchanges.lookup exchange).map Exchange.head = (s.exchanges.lookup exchange).map Exchange.head)
    (hbindings : ∀ exchange, s'.bindingsOf exchange = (s.bindingsOf exchange).filter fun b => !gone b.queue_name)
    (hqueues : ∀ name, s'.queue name = if gone name then none else s.queue name) (hheap : s'.heap = s.heap)
    (hconsumers : s'.consumerHeap = s.consumerHeap) : OnlyWithout gone s s' := by
  refine ⟨routeMessage_filter hhead hbindings, fun exchange b hb => ?_, hqueues, hhead, hbindings, hheap, hconsumers⟩
  rw [hbindings, List.mem_filter, Bool.not_eq_true'] at hb
  exact hb.2

theorem logIf (h : OnlyWithout gone s s') (p : Bool) (e : Entry) : OnlyWithout gone s (s'.logIf p e) := by
  refine of_bindings (fun exchange => ?_) (fun exchange => ?_) (fun name => ?_) ?_ ?_
  · rw [exchanges_logIf, h.exchanges]
  · rw [bindingsOf_logIf, h.bindings]
  · rw [queue_logIf, h.queues]
  · cases p <;> exact h.heap
  · cases p <;> exact h.consumerHeap

end OnlyWithout

/-- A queue is taken out, as `removeConnectionQueues` does it and `deleteQueue` before it writes to the log. --/
def dropQueue (s : AmqpServer) (name : Bytes) : AmqpServer :=
  { s.removeBindingsOf name with queues := s.queues.erase name }

theorem onlyWithout_dropQueue (s : AmqpServer) (name : Bytes) : OnlyWithout (fun q => q = name) s (s.dropQueue name) := by
  refine .of_bindings (fun exchange => ?_) (fun exchange => ?_) (fun name' => ?_) rfl rfl
  · change ((s.exchanges.map fun ex => ex.removeBindingsOf name).lookup exchange).map Exchange.head = _
    rw [Assoc.lookup_map, Option.map_map]
    congr 1
    funext ex
    rw [Function.comp_apply, Exchange.removeBindingsOf_eq]
    rfl
  · refine (bindingsOf_removeBindingsOf (s := s) name exchange).trans (List.filter_congr fun b _ => ?_)
    rw [decide_not]
  · refine (queue_erase (s := s) name name').trans ?_
    simp only [decide_eq_true_eq]

/-- `deleteQueue` succeeds if the queue is there and meets the conditions that are asked for. --/
theorem deleteQueue_eq_ok {name : Bytes} {ifUnused ifEmpty : Bool} {n : Nat} :
    s.deleteQueue name ifUnused ifEmpty = .ok (n, s') ↔
      ∃ q, s.queue name = some q ∧ (ifUnused = true → q.consumers = []) ∧ (ifEmpty = true → q.messages = []) ∧
        n = q.messages.length ∧ s' = (s.dropQueue name).logIf true (.queueDelete name) := by
  rw [deleteQueue]
  cases s.queue name with
  | none => simp
  | some q =>
    dsimp only
    by_cases hunused : ifUnused = true ∧ q.consumers ≠ []
    · rw [if_pos hunused]
      refine iff_of_false (fun herror => by cases herror) ?_
      rintro ⟨q', hq', hnone, -⟩
      obtain rfl := Option.some.inj hq'
      exact hunused.2 (hnone hunused.1)
    · rw [if_neg hunused]
      by_cases hempty : ifEmpty = true ∧ q.messages ≠ []
      · rw [if_pos hempty]
        refine iff_of_false (fun herror => by cases herror) ?_
        rintro ⟨q', hq', -, hnone, -⟩
        obtain rfl := Option.some.inj hq'
        exact hempty.2 (hnone hempty.1)
      · rw [if_neg hempty, Except.ok.injEq, Prod.mk.injEq]
        rw [not_and, not_not] at hunused hempty
        constructor
        · rintro ⟨hn, hs'⟩
          exact ⟨q, rfl, hunused, hempty, hn.symm, hs'.symm⟩
        · rintro ⟨q', hq', -, -, hn, hs'⟩
          obtain rfl := Option.some.inj hq'
          exact ⟨hn.symm, hs'.symm⟩

/-- The state in which `removeConnectionQueues` takes out the queues of the connection: the other queues have lost its
    consumers. --/
def releaseQueues (s : AmqpServer) (c : Nat) : AmqpServer :=
  (s.queueNames fun q => !ownedBy c q).foldl (fun s name => s.removeConsumersByConnection name c) s

/-- The end of a connection: its exclusive queues go one after the other, each with its bindings and nothing else. The other
    queues lose its consumers; of these, the `auto_delete` ones that nobody consumes from go without their bindings. --/
structure EndsQueues (c : Nat) (s s' : AmqpServer) : Prop where
  phases : ∃ s₁, s₁ = (s.queueNames (ownedBy c)).foldl dropQueue (s.releaseQueues c) ∧
    s' = (s₁.queueNames abandoned).foldl (fun s name => { s with queues := s.queues.erase name }) s₁
  owned : ∀ front name back, s.queueNames (ownedBy c) = front ++ name :: back →
    OnlyWithout (fun q => q = name) (front.foldl dropQueue (s.releaseQueues c))
      ((front ++ [name]).foldl dropQueue (s.releaseQueues c))
  route : ∀ exchange routingKey headers, s'.routeMessage exchange routingKey headers =
    (s.routeMessage exchange routingKey headers).filter fun q => !s.ownsQueue c q
  unbound : ∀ exchange, ∀ b ∈ s'.bindingsOf exchange, s.ownsQueue c b.queue_name = false
  exchanges : ∀ exchange, (s'.exchanges.lookup exchange).map Exchange.head = (s.exchanges.lookup exchange).map Exchange.head
  bindings : ∀ exchange, s'.bindingsOf exchange = (s.bindingsOf exchange).filter fun b => !s.ownsQueue c b.queue_name
  queues : ∀ name, s'.queue name = (s.queue name).bind fun q => if s.goesWith c q then none else some (s.without c q)
  heap : s'.heap = s.heap

theorem endsQueues_removeConnectionQueues (s : AmqpServer) (c : Nat) : EndsQueues c s (s.removeConnectionQueues c) := by
  obtain ⟨-, hqueues, hbindings, hhead⟩ := removeConnectionQueues_spec (s := s) c
  refine ⟨⟨_, rfl, rfl⟩, fun front name _ _ => ?_, routeMessage_filter hhead hbindings, fun exchange b hb => ?_, hhead,
    hbindings, hqueues, ?_⟩
  · rw [List.foldl_append]
    exact onlyWithout_dropQueue _ name
  · rw [hbindings, List.mem_filter, Bool.not_eq_true'] at hb
    exact hb.2
  · exact removeConnectionQueues_keeps (P := fun s' => s'.heap = s.heap) rfl
      (fun _ _ h => (heap_removeConsumersByConnection ..).trans h) fun _ _ _ h => h

/-- The deletion of a queue takes its bindings with it and changes nothing else; so does the end of a connection with each of
    its exclusive queues. --/
theorem deletion_takes_only (s : AmqpServer) :
    (∀ name ifUnused ifEmpty n s', s.deleteQueue name ifUnused ifEmpty = .ok (n, s') →
      OnlyWithout (fun q => q = name) s s') ∧
    ∀ c, EndsQueues c s (s.removeConnectionQueues c) := by
  refine ⟨fun name ifUnused ifEmpty n s' h => ?_, endsQueues_removeConnectionQueues s⟩
  obtain ⟨q, -, -, -, -, rfl⟩ := deleteQueue_eq_ok.mp h
  exact (onlyWithout_dropQueue s name).logIf true (.queueDelete name)

theorem deletion_twiceBound : ∃ s', (twiceBound.foldl perform freshServer).deleteQueue (ascii "q") true true = .ok (0, s') ∧
    OnlyWithout (fun q => q = ascii "q") (twiceBound.foldl perform freshServer) s' ∧
    s'.routeMessage (ascii "amq.fanout") [] none = [ascii "p"] := by
  have hq : ((twiceBound.foldl perform freshServer).queue (ascii "q")).any
      (fun q => q.consumers.isEmpty && q.messages.isEmpty) = true := by decide +kernel
  obtain ⟨q, hq, hidle⟩ := (Option.any_eq_true _ _).mp hq
  rw [Bool.and_eq_true, List.isEmpty_iff, List.isEmpty_iff] at hidle
  have hnone : 0 = q.messages.length := by
    rw [hidle.2]
    rfl
  have hdelete : (twiceBound.foldl perform freshServer).deleteQueue (ascii "q") true true = .ok (0,
      ((twiceBound.foldl perform freshServer).dropQueue (ascii "q")).logIf true (.queueDelete (ascii "q"))) :=
    deleteQueue_eq_ok.mpr ⟨q, hq, fun _ => hidle.1, fun _ => hidle.2, hnone, rfl⟩
  have honly := (deletion_takes_only _).1 _ _ _ _ _ hdelete
  refine ⟨_, hdelete, honly, (honly.route _ _ _).trans ?_⟩
  decide +kernel

/-! ### Conditions -/

/-- A request to delete, with its flags. --/
inductive Deletion where
  | queue (name : Bytes) (ifUnused ifEmpty : Bool)
  | exchange (name : Bytes) (ifUnused : Bool)

/-- `deleteExchange` has a parameter for its flag too, without a name: it does not look at it. --/
def delete (s : AmqpServer) : Deletion → Except Refusal AmqpServer
  | .queue name ifUnused ifEmpty => (s.deleteQueue name ifUnused ifEmpty).map Prod.snd
  | .exchange name _ => s.deleteExchange name

/-- The conditions that the request sets are met: the queue has no consumers, or no messages, or the exchange no bindings. --/
def Meets (s : AmqpServer) : Deletion → Prop
  | .queue name ifUnused ifEmpty => ∀ q, s.queue name = some q →
    (ifUnused = true → q.consumers = []) ∧ (ifEmpty = true → q.messages = [])
  | .exchange name ifUnused => ifUnused = true → s.bindingsOf name = []

/-- A request goes through only if its conditions are met. Otherwise the answer is 406 and nothing has changed. --/
structure Conditional (s : AmqpServer) (d : Deletion) : Prop where
  meets : ∀ s', s.delete d = .ok s' → s.Meets d
  refused : ¬s.Meets d → ∃ text, s.delete d = .error ⟨406, text⟩ ∧ s.orElse (s.delete d) = s

theorem conditional_queue (s : AmqpServer) (name : Bytes) (ifUnused ifEmpty : Bool) :
    Conditional s (.queue name ifUnused ifEmpty) := by
  constructor
  · intro s' h q hq
    rw [delete] at h
    cases hdelete : s.deleteQueue name ifUnused ifEmpty with
    | error e =>
      rw [hdelete] at h
      cases h
    | ok x =>
      obtain ⟨q', hq', hunused, hempty, -⟩ := deleteQueue_eq_ok.mp hdelete
      obtain rfl := Option.some.inj (hq'.symm.trans hq)
      exact ⟨hunused, hempty⟩
  · intro hnot
    have hrefused : ∃ text, s.deleteQueue name ifUnused ifEmpty = .error ⟨406, text⟩ := by
      rw [Meets] at hnot
      push Not at hnot
      obtain ⟨q, hq, hcond⟩ := hnot
      rw [deleteQueue, hq]
      dsimp only
      by_cases hunused : ifUnused = true ∧ q.consumers ≠ []
      · exact ⟨_, if_pos hunused⟩
      · rw [if_neg hunused]
        rw [not_and, not_not] at hunused
        exact ⟨_, if_pos (hcond hunused)⟩
    obtain ⟨text, htext⟩ := hrefused
    have hdelete : s.delete (.queue name ifUnused ifEmpty) = .error ⟨406, text⟩ := by rw [delete, htext, Except.map]
    exact ⟨text, hdelete, by rw [hdelete, orElse]⟩

theorem deleteExchange_cases (s : AmqpServer) (name : Bytes) :
    (∃ s', s.deleteExchange name = .ok s') ∨ ∃ e, s.deleteExchange name = .error e ∧ e.replyCode ≠ 406 := by
  rw [deleteExchange]
  cases s.exchanges.lookup name with
  | none => exact .inr ⟨_, rfl, show (404 : UInt16) ≠ 406 by decide⟩
  | some ex =>
    dsimp only
    split
    · exact .inr ⟨_, rfl, by decide⟩
    · exact .inl ⟨_, rfl⟩

/-- A condition on an exchange is never tested. --/
theorem conditional_exchange (s : AmqpServer) (name : Bytes) (ifUnused : Bool) :
    Conditional s (.exchange name ifUnused) ↔ s.Meets (.exchange name ifUnused) := by
  refine ⟨fun h => ?_, fun hmeets => ⟨fun _ _ => hmeets, fun hnot => absurd hmeets hnot⟩⟩
  by_contra hnot
  obtain ⟨text, hdelete, -⟩ := h.refused hnot
  rw [delete] at hdelete
  rcases s.deleteExchange_cases name with ⟨s', hok⟩ | ⟨e, herror, hcode⟩
  · rw [hok] at hdelete
    cases hdelete
  · rw [herror, Except.error.injEq] at hdelete
    exact hcode (congrArg Refusal.replyCode hdelete)

/-- Conditions hold for queues, and for an exchange that has no bindings or may have some. --/
theorem conditional_iff (s : AmqpServer) (d : Deletion) :
    Conditional s d ↔ ∀ name, d = .exchange name true → s.bindingsOf name = [] := by
  cases d with
  | queue name ifUnused ifEmpty => exact iff_of_true (conditional_queue s name ifUnused ifEmpty) nofun
  | exchange name ifUnused =>
    rw [conditional_exchange, Meets]
    constructor
    · intro h name' hname
      obtain ⟨rfl, hunused⟩ := Deletion.exchange.inj hname
      exact h hunused
    · rintro h rfl
      exact h name rfl

/-- The arguments of `exchange.declare`, for a direct exchange, and of `exchange.delete` with `if-unused`. --/
def declareDirect (name : Bytes) : Bytes :=
  writeUint16 0 ++ writeShortString name ++ writeShortString (ascii "direct") ++ writeUint8 0 ++ writeUint32 0

def deleteUnused (name : Bytes) : Bytes := writeUint16 0 ++ writeShortString name ++ writeUint8 0x01

/-- A client binds a queue to an exchange of its own. --/
def boundExchangeRun : List Event :=
  Client.connect 1 ++ [Client.openChannel 1 1,
    Client.sendMethod 1 1 class_id.EXCHANGE exchange_method.DECLARE (declareDirect (ascii "e")),
    Client.assertQueue 1 1 (ascii "q") false false false false [],
    Client.bindQueue 1 1 (ascii "q") (ascii "e") (ascii "k") []]

/-- Its request to delete the exchange if it is unused goes through. --/
theorem bound_exchange_deleted :
    let s := freshServer.run boundExchangeRun
    (s.bindingsOf (ascii "e")).length = 1 ∧
      (s.handle (Client.sendMethod 1 1 class_id.EXCHANGE exchange_method.DELETE (deleteUnused (ascii "e")))).hasExchange
        (ascii "e") = false ∧
      ¬Conditional s (.exchange (ascii "e") true) := by
  intro s
  have hbound : (s.bindingsOf (ascii "e")).length = 1 := by decide +kernel
  have hdeleted : s.delete (.exchange (ascii "e") true) matches .ok _ := by decide +kernel
  refine ⟨hbound, by decide +kernel, fun h => ?_⟩
  cases hdelete : s.delete (.exchange (ascii "e") true) with
  | error e =>
    rw [hdelete] at hdeleted
    cases hdeleted
  | ok s' =>
    rw [h.meets s' hdelete rfl] at hbound
    cases hbound

end AmqpServer
end Broko.Broker
