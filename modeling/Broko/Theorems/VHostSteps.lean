import Broko.Broker.VHostOp
import Broko.Theorems.StoreRuns
import Broko.Theorems.Steps

/-! What the operations of the virtual host do, one lemma for each of them: to the queues, to the bindings of the
    exchanges, and to what the log would give to a new process. -/

namespace Broko.Broker
open Amqp Storage MessageStore

namespace Exchange

/-- An exchange without its bindings. --/
def head (ex : Exchange) : Exchange := { ex with bindings := [] }

/-- The loop over the bindings takes away all that name the queue. --/
theorem removeBindingsOf_eq (ex : Exchange) (queue : Bytes) :
    ex.removeBindingsOf queue = { ex with bindings := ex.bindings.filter fun b => b.queue_name ≠ queue } := by
  have hloop : ∀ (l : List Binding) (ex : Exchange),
      l.foldl (fun ex b => if b.queue_name = queue then ex.removeBinding queue b.routing_key else ex) ex =
        { ex with bindings := ex.bindings.filter fun b =>
            ¬(b.queue_name = queue ∧ ∃ x ∈ l, x.queue_name = queue ∧ x.routing_key = b.routing_key) } := by
    intro l
    induction l with
    | nil => intro ex; simp
    | cons x l ih =>
      intro ex
      rw [List.foldl_cons, ih]
      split
      · rename_i hx
        simp only [removeBinding, List.filter_filter, Exchange.mk.injEq, true_and]
        refine List.filter_congr fun b _ => ?_
        simp only [hx, List.mem_cons, exists_eq_or_imp, true_and, ← Bool.decide_and, decide_eq_decide]
        constructor
        · rintro ⟨htail, hhead⟩ ⟨hb, hrk | hmem⟩
          · exact hhead ⟨hb, hrk.symm⟩
          · exact htail ⟨hb, hmem⟩
        · intro h
          exact ⟨fun ⟨hb, hmem⟩ => h ⟨hb, .inr hmem⟩, fun ⟨hb, hrk⟩ => h ⟨hb, .inl hrk.symm⟩⟩
      · rename_i hx
        simp only [hx, List.mem_cons, exists_eq_or_imp, false_and, false_or]
  rw [removeBindingsOf, hloop]
  simp only [Exchange.mk.injEq, true_and]
  refine List.filter_congr fun b hb => ?_
  simp only [decide_eq_decide]
  constructor
  · exact fun h hq => h ⟨hq, b, hb, hq, rfl⟩
  · exact fun h hq => h hq.1

end Exchange

namespace AmqpServer

variable {s s' : AmqpServer}

/-! ### Bindings under updates of the exchanges -/

theorem mem_bindingsOf {exchange : Bytes} {b : Binding} :
    b ∈ s.bindingsOf exchange ↔ ∃ ex, s.exchanges.lookup exchange = some ex ∧ b ∈ ex.bindings := by
  rw [bindingsOf]
  cases s.exchanges.lookup exchange with
  | none => simp
  | some ex => simp

theorem hasBinding_iff {sb : StoredBinding} :
    s.hasBinding sb ↔ ∃ b ∈ s.bindingsOf sb.exchange, b.queue_name = sb.queue ∧ b.routing_key = sb.routing_key := by
  rw [hasBinding, List.any_eq_true]
  simp only [Bool.and_eq_true, decide_eq_true_eq, Bool.decide_and]

theorem bindingsOf_congr (h : s'.exchanges = s.exchanges) (exchange : Bytes) :
    s'.bindingsOf exchange = s.bindingsOf exchange := by
  rw [bindingsOf, h, bindingsOf]

theorem bindingsOf_insert {name : Bytes} {ex : Exchange} (hnew : s.exchanges.lookup name = none) (hb : ex.bindings = [])
    (exchange : Bytes) :
    bindingsOf { s with exchanges := s.exchanges.insert name ex } exchange = s.bindingsOf exchange := by
  rw [bindingsOf, bindingsOf]
  by_cases h : exchange = name
  · rw [h, hnew, Assoc.lookup_insert_self, Option.map_some, hb]
    rfl
  · rw [Assoc.lookup_insert_of_ne h]

theorem bindingsOf_erase (name exchange : Bytes) :
    bindingsOf { s with exchanges := s.exchanges.erase name } exchange =
      if exchange = name then [] else s.bindingsOf exchange := by
  rw [bindingsOf]
  split
  · rename_i h
    rw [h, Assoc.lookup_erase_self]
    rfl
  · rename_i h
    rw [Assoc.lookup_erase_of_ne h, bindingsOf]

theorem bindingsOf_addBinding (name queue routingKey : Bytes) (args : FieldTable) (exchange : Bytes) :
    bindingsOf { s with exchanges := s.exchanges.modify name fun ex => ex.addBinding queue routingKey args } exchange =
      if exchange = name ∧ s.hasExchange name then
        s.bindingsOf name ++ [{ queue_name := queue, routing_key := routingKey, arguments := args }]
      else s.bindingsOf exchange := by
  rw [bindingsOf, Assoc.lookup_modify, hasExchange, bindingsOf, bindingsOf]
  by_cases h : exchange = name
  · subst h
    cases s.exchanges.lookup exchange with
    | none => simp
    | some ex => simp [Exchange.addBinding]
  · simp [h]

theorem bindingsOf_removeBinding (name queue routingKey exchange : Bytes) :
    bindingsOf { s with exchanges := s.exchanges.modify name fun ex => ex.removeBinding queue routingKey } exchange =
      if exchange = name then
        (s.bindingsOf name).filter fun b => ¬(b.queue_name = queue ∧ b.routing_key = routingKey)
      else s.bindingsOf exchange := by
  rw [bindingsOf, Assoc.lookup_modify, bindingsOf, bindingsOf]
  by_cases h : exchange = name
  · subst h
    cases s.exchanges.lookup exchange with
    | none => simp
    | some ex => simp [Exchange.removeBinding]
  · simp [h]

theorem bindingsOf_removeBindingsOf (name exchange : Bytes) :
    (s.removeBindingsOf name).bindingsOf exchange = (s.bindingsOf exchange).filter fun b => b.queue_name ≠ name := by
  rw [bindingsOf, removeBindingsOf, Assoc.lookup_map, bindingsOf]
  cases s.exchanges.lookup exchange with
  | none => rfl
  | some ex => rw [Option.map_some, Option.map_some, Exchange.removeBindingsOf_eq]; rfl

theorem hasExchange_of_head
    (h : ∀ exchange, (s'.exchanges.lookup exchange).map Exchange.head = (s.exchanges.lookup exchange).map Exchange.head)
    (exchange : Bytes) : s'.hasExchange exchange = s.hasExchange exchange := by
  have hmap := congrArg Option.isSome (h exchange)
  rwa [Option.isSome_map, Option.isSome_map] at hmap

/-! ### The log -/

/-- There is a store, and its file ends on an entry boundary. --/
def Journaled (s : AmqpServer) : Prop := ∃ st, s.store = some st ∧ Whole st

/-- Writes an entry to the log under a condition. --/
def logIf (s : AmqpServer) (p : Bool) (e : Entry) : AmqpServer := if p then s.modifyStore fun st => st.append e else s

theorem logIf_false (e : Entry) : s.logIf false e = s := rfl

theorem queues_logIf (p : Bool) (e : Entry) : (s.logIf p e).queues = s.queues := by
  cases p <;> rfl

theorem queue_logIf (p : Bool) (e : Entry) (name : Bytes) : (s.logIf p e).queue name = s.queue name := by
  rw [queue, queues_logIf, queue]

theorem exchanges_logIf (p : Bool) (e : Entry) : (s.logIf p e).exchanges = s.exchanges := by
  cases p <;> rfl

theorem bindingsOf_logIf (p : Bool) (e : Entry) (exchange : Bytes) :
    (s.logIf p e).bindingsOf exchange = s.bindingsOf exchange :=
  bindingsOf_congr (exchanges_logIf p e) exchange

theorem appends_append {st : MessageStore} {e : Entry} (hm : e.message? = none) : Appends st (st.append e) e :=
  ⟨rfl, fun _ he => absurd (he ▸ hm) nofun, fun _ => rfl⟩

/-- An entry that is no message takes effect on what is recovered. --/
theorem logged_append (hs : s.Journaled) {e : Entry} (hm : e.message? = none) (he : e.Storable) :
    (s.modifyStore fun st => st.append e).Journaled ∧
      (s.modifyStore fun st => st.append e).logged.contents = s.logged.contents.apply e := by
  obtain ⟨st, hst, hw⟩ := hs
  have happ : Appends st (st.append e) e := appends_append hm
  have hfresh : Fresh st e := fun m heq => absurd (heq ▸ hm) nofun
  refine ⟨⟨st.append e, by rw [modifyStore, hst]; rfl, ?_⟩, ?_⟩
  · rw [whole_iff, parse_appends happ hw he]
  · rw [logged, logged, modifyStore, hst]
    exact appends_contents happ hw he hfresh

theorem logged_of_store (h : s'.store = s.store) : s'.logged = s.logged := by
  rw [logged, h, logged]

theorem journaled_of_store (h : s'.store = s.store) (hs : s.Journaled) : s'.Journaled := by
  rw [Journaled, h]
  exact hs

/-- An entry that only holds short names. --/
theorem storable_of_length {e : Entry} (hm : e.message? = none) (hlen : e.payload.length ≤ 4096) : e.Storable := by
  refine ⟨?_, fits_of_length hlen⟩
  cases e with
  | message m => cases hm
  | _ => trivial

theorem mem_exchanges_apply {c : Contents} {e : Entry} {d : StoredExchangeDecl} :
    d ∈ (c.apply e).exchanges ↔ (d ∈ c.exchanges ∧ e.removesExchange d = false) ∨ e.exchange? = some d := by
  simp [Contents.apply]

theorem mem_queues_apply {c : Contents} {e : Entry} {d : StoredQueueDecl} :
    d ∈ (c.apply e).queues ↔ (d ∈ c.queues ∧ e.removesQueue d = false) ∨ e.queue? = some d := by
  simp [Contents.apply]

theorem mem_bindings_apply {c : Contents} {e : Entry} {b : StoredBinding} :
    b ∈ (c.apply e).bindings ↔ (b ∈ c.bindings ∧ e.removesBinding b = false) ∨ e.binding? = some b := by
  simp [Contents.apply]

/-- The log after an entry that is no message, if it is written. --/
structure Logs (s s' : AmqpServer) (p : Bool) (e : Entry) : Prop where
  journaled : s'.Journaled
  exchanges : ∀ d, d ∈ s'.logged.exchanges ↔
    (d ∈ s.logged.exchanges ∧ (p && e.removesExchange d) = false) ∨ (p = true ∧ e.exchange? = some d)
  queues : ∀ d, d ∈ s'.logged.queues ↔
    (d ∈ s.logged.queues ∧ (p && e.removesQueue d) = false) ∨ (p = true ∧ e.queue? = some d)
  bindings : ∀ b, b ∈ s'.logged.bindings ↔
    (b ∈ s.logged.bindings ∧ (p && e.removesBinding b) = false) ∨ (p = true ∧ e.binding? = some b)
  messages : ∀ m, m ∈ s'.logged.messages ↔ m ∈ s.logged.messages ∧ (p && e.deletesQueueOf m) = false

theorem logs_logIf {s₁ : AmqpServer} {p : Bool} {e : Entry} (hs : s.Journaled) (hst : s₁.store = s.store)
    (hm : e.message? = none) (hack : ∀ m, e.acks m = false) (hlen : e.payload.length ≤ 4096) :
    Logs s (s₁.logIf p e) p e := by
  have hs₁ := journaled_of_store hst hs
  cases p with
  | false =>
    rw [logIf_false]
    refine ⟨hs₁, fun d => ?_, fun d => ?_, fun b => ?_, fun m => ?_⟩
    · simp [logged_of_store hst]
    · simp [logged_of_store hst]
    · simp [logged_of_store hst]
    · simp [logged_of_store hst]
  | true =>
    obtain ⟨hj, hlog⟩ := logged_append hs₁ hm (storable_of_length hm hlen)
    rw [logged_of_store hst] at hlog
    refine ⟨hj, fun d => ?_, fun d => ?_, fun b => ?_, fun m => ?_⟩
    · have h := mem_exchanges_apply (c := s.logged.contents) (e := e) (d := d)
      rw [← hlog] at h
      simp only [Bool.true_and, true_and]
      exact h
    · have h := mem_queues_apply (c := s.logged.contents) (e := e) (d := d)
      rw [← hlog] at h
      simp only [Bool.true_and, true_and]
      exact h
    · have h := mem_bindings_apply (c := s.logged.contents) (e := e) (b := b)
      rw [← hlog] at h
      simp only [Bool.true_and, true_and]
      exact h
    · have hmessages : ((s₁.logIf true e).logged).messages = (s.logged.contents.apply e).messages :=
        congrArg Contents.messages hlog
      rw [hmessages, Contents.apply, hm, Option.toList_none, List.append_nil, List.mem_filter, Bool.not_eq_true',
        Entry.removesMessage, hack, Bool.false_or, Bool.true_and]
      exact Iff.rfl

theorem length_exchangeDeclare {d : StoredExchangeDecl} (hname : d.name.length ≤ 255) (htype : d.type.length ≤ 255) :
    (Entry.exchangeDeclare d).payload.length ≤ 4096 := by
  simp only [Entry.payload, List.length_append, length_writeString, length_writeFlag]
  omega

theorem length_queueDeclare {d : StoredQueueDecl} (hname : d.name.length ≤ 255) :
    (Entry.queueDeclare d).payload.length ≤ 4096 := by
  simp only [Entry.payload, List.length_append, length_writeString, length_writeFlag]
  omega

theorem length_binding {b : StoredBinding} (hq : b.queue.length ≤ 255) (hex : b.exchange.length ≤ 255)
    (hrk : b.routing_key.length ≤ 255) : (Entry.binding b).payload.length ≤ 4096 := by
  simp only [Entry.payload, List.length_append, length_writeString]
  omega

theorem length_unbind {b : StoredBinding} (hq : b.queue.length ≤ 255) (hex : b.exchange.length ≤ 255)
    (hrk : b.routing_key.length ≤ 255) : (Entry.unbind b).payload.length ≤ 4096 := by
  simp only [Entry.payload, List.length_append, length_writeString]
  omega

theorem length_queueDelete {name : Bytes} (hname : name.length ≤ 255) : (Entry.queueDelete name).payload.length ≤ 4096 := by
  simp only [Entry.payload, length_writeString]
  omega

theorem length_exchangeDelete {name : Bytes} (hname : name.length ≤ 255) :
    (Entry.exchangeDelete name).payload.length ≤ 4096 := by
  simp only [Entry.payload, length_writeString]
  omega

/-! ### The operations -/

/-- The exchange that `declareExchange` makes. --/
def newExchange (name type : Bytes) (durable autoDelete internal : Bool) (args : FieldTable) : Exchange :=
  { name, type, durable, auto_delete := autoDelete, internal, arguments := args }

theorem perform_declareExchange (name type : Bytes) (passive durable autoDelete internal : Bool) (args : FieldTable) :
    s.perform (.declareExchange name type passive durable autoDelete internal args) = s ∨
      (s.exchanges.lookup name = none ∧
        s.perform (.declareExchange name type passive durable autoDelete internal args) =
          ({ s with exchanges := s.exchanges.insert name (newExchange name type durable autoDelete internal args) } :
            AmqpServer).logIf durable (.exchangeDeclare { name, type, durable, auto_delete := autoDelete, internal })) := by
  rw [perform, declareExchange]
  split
  · split
    · exact .inl rfl
    · split <;> exact .inl rfl
  · rename_i hnew
    split
    · exact .inl rfl
    · exact .inr ⟨hnew, rfl⟩

/-- The exchanges that cannot be deleted. --/
def isReserved (name : Bytes) : Bool := (ascii "amq.").isPrefixOf name || name = []

theorem perform_deleteExchange (name : Bytes) :
    s.perform (.deleteExchange name) = s ∨
      (isReserved name = false ∧
        s.perform (.deleteExchange name) =
          ({ s with exchanges := s.exchanges.erase name } : AmqpServer).logIf true (.exchangeDelete name)) := by
  rw [perform, deleteExchange]
  split
  · exact .inl rfl
  · split
    · exact .inl rfl
    · rename_i hres
      refine .inr ⟨?_, rfl⟩
      rw [not_or] at hres
      simp [isReserved, hres.1, hres.2]

/-- The queue that `declareQueue` makes. --/
def newQueue (name : Bytes) (durable exclusive autoDelete : Bool) (args : FieldTable) (connectionId : Nat) : MessageQueue :=
  MessageQueue.configure
    { name, durable, exclusive, auto_delete := autoDelete, arguments := args,
      owner_connection := if exclusive then connectionId else 0, deadLetterFn := true }

theorem perform_declareQueue {name : Bytes} (hname : name.length ≤ 255) (passive durable exclusive autoDelete : Bool)
    (args : FieldTable) (connectionId : Nat) :
    ∃ n, s.perform (.declareQueue name passive durable exclusive autoDelete args connectionId) =
        { s with nameCounter := n } ∨
      ∃ qname, qname.length ≤ 255 ∧ s.queue qname = none ∧ (passive = false ∧ (name ≠ [] → qname = name)) ∧
        s.perform (.declareQueue name passive durable exclusive autoDelete args connectionId) =
          (({ s with
              nameCounter := n
              queues := s.queues.insert qname (newQueue qname durable exclusive autoDelete args connectionId) } :
            AmqpServer).bindDefault qname).logIf durable (.queueDeclare { name := qname, durable, auto_delete := autoDelete }) := by
  rw [perform, declareQueue]
  have hcounter : ∃ n, (if name = [] then { s with nameCounter := s.nameCounter + 1 } else s) = { s with nameCounter := n } := by
    split
    · exact ⟨_, rfl⟩
    · exact ⟨s.nameCounter, rfl⟩
  obtain ⟨n, hn⟩ := hcounter
  refine ⟨n, ?_⟩
  rw [hn]
  have hlen : (if name = [] then ascii "amq.gen-" ++ decimal n.toNat else name).length ≤ 255 := by
    split
    · exact length_generated _
    · exact hname
  have hmade : name ≠ [] → (if name = [] then ascii "amq.gen-" ++ decimal n.toNat else name) = name := fun h => if_neg h
  dsimp only
  generalize (if name = [] then ascii "amq.gen-" ++ decimal n.toNat else name) = qname at hlen hmade
  split
  · split
    · exact .inl rfl
    · split <;> exact .inl rfl
  · rename_i hnew
    split
    · exact .inl rfl
    · rename_i hpassive
      exact .inr ⟨qname, hlen, hnew, ⟨Bool.eq_false_iff.mpr hpassive, hmade⟩, by cases durable <;> rfl⟩

theorem perform_deleteQueue (name : Bytes) (ifUnused ifEmpty : Bool) :
    s.perform (.deleteQueue name ifUnused ifEmpty) = s ∨
      s.perform (.deleteQueue name ifUnused ifEmpty) =
        ({ s.removeBindingsOf name with queues := s.queues.erase name } : AmqpServer).logIf true (.queueDelete name) := by
  rw [perform, deleteQueue]
  split
  · exact .inl rfl
  · split
    · exact .inl rfl
    · split
      · exact .inl rfl
      · exact .inr rfl

theorem perform_bindQueue (queue exchange routingKey : Bytes) (args : FieldTable) :
    s.perform (.bindQueue queue exchange routingKey args) = s ∨
      (s.hasExchange exchange ∧ s.hasQueue queue ∧
        s.perform (.bindQueue queue exchange routingKey args) =
          ({ s with exchanges := s.exchanges.modify exchange fun ex => ex.addBinding queue routingKey args } :
            AmqpServer).logIf true (.binding { queue, exchange, routing_key := routingKey })) := by
  rw [perform, bindQueue]
  split
  · exact .inl rfl
  · exact .inl rfl
  · rename_i hex hq
    exact .inr ⟨by rw [hasExchange, hex]; rfl, by rw [hasQueue, hq]; rfl, rfl⟩

theorem perform_unbindQueue (queue exchange routingKey : Bytes) :
    s.perform (.unbindQueue queue exchange routingKey) = s ∨
      s.perform (.unbindQueue queue exchange routingKey) =
        ({ s with exchanges := s.exchanges.modify exchange fun ex => ex.removeBinding queue routingKey } :
          AmqpServer).logIf true (.unbind { queue, exchange, routing_key := routingKey }) := by
  rw [perform, unbindQueue]
  split
  · exact .inl rfl
  · exact .inr rfl

/-! ### The end of a connection -/

theorem mem_queueNames {p : MessageQueue → Bool} {name : Bytes} :
    name ∈ s.queueNames p ↔ ∃ q, s.queue name = some q ∧ p q := by
  simp only [queueNames, List.mem_map, List.mem_filter, Prod.exists, Assoc.mem_entries, queue]
  constructor
  · rintro ⟨_, q, ⟨hq, hp⟩, rfl⟩
    exact ⟨q, hq, hp⟩
  · rintro ⟨q, hq, hp⟩
    exact ⟨name, q, ⟨hq, hp⟩, rfl⟩

/-- The queue without the consumers of a connection. --/
def without (s : AmqpServer) (c : Nat) (q : MessageQueue) : MessageQueue :=
  { q with consumers := q.consumers.filter fun k => idOf (s.consumer k).connection_id ≠ idOf c }

/-- The connection of each consumer, which no operation changes. --/
def SameOwners (s s' : AmqpServer) : Prop := ∀ k, (s'.consumer k).connection_id = (s.consumer k).connection_id

theorem without_congr (h : SameOwners s s') (c : Nat) (q : MessageQueue) : s'.without c q = s.without c q := by
  have hk : ∀ k, (s'.consumer k).connection_id = (s.consumer k).connection_id := h
  simp only [without, hk]

theorem without_without (c : Nat) (q : MessageQueue) : s.without c (s.without c q) = s.without c q := by
  simp only [without, List.filter_filter, Bool.and_self]

/-- What `removeConsumersByConnection` of one queue does to all of them. --/
theorem removeConsumersByConnection_spec (name : Bytes) (c : Nat) :
    (s.removeConsumersByConnection name c).exchanges = s.exchanges ∧
      (s.removeConsumersByConnection name c).store = s.store ∧ SameOwners s (s.removeConsumersByConnection name c) ∧
      ∀ name', (s.removeConsumersByConnection name c).queue name' =
        if name' = name then (s.queue name).map (s.without c) else s.queue name' := by
  have hfold : ∀ (l : List Ref) (s : AmqpServer),
      (l.foldl (fun s k => s.modifyConsumer k fun c => { c with on_deliver := none }) s).exchanges = s.exchanges ∧
        (l.foldl (fun s k => s.modifyConsumer k fun c => { c with on_deliver := none }) s).store = s.store ∧
        SameOwners s (l.foldl (fun s k => s.modifyConsumer k fun c => { c with on_deliver := none }) s) ∧
        (l.foldl (fun s k => s.modifyConsumer k fun c => { c with on_deliver := none }) s).queues = s.queues := by
    intro l
    induction l with
    | nil => exact fun _ => ⟨rfl, rfl, fun _ => rfl, rfl⟩
    | cons k l ih =>
      intro s
      obtain ⟨hex, hst, hown, hq⟩ := ih (s.modifyConsumer k fun c => { c with on_deliver := none })
      refine ⟨hex, hst, fun k' => (hown k').trans ?_, hq⟩
      exact Heap.cell_modify_congr (f := fun c : Consumer => { c with on_deliver := none }) Consumer.connection_id
        (fun _ => rfl) k'
  rw [removeConsumersByConnection]
  split
  · rename_i hq
    refine ⟨rfl, rfl, fun _ => rfl, fun name' => ?_⟩
    split
    · rename_i hname
      rw [hname, hq]
      rfl
    · rfl
  · rename_i q hq
    obtain ⟨hex, hst, hown, hqs⟩ := hfold (q.consumers.filter fun k => idOf (s.consumer k).connection_id = idOf c) s
    refine ⟨hex, hst, hown, fun name' => ?_⟩
    rw [queue, modifyQueue, Assoc.lookup_modify, hqs]
    rfl

theorem SameOwners.trans {s₁ s₂ : AmqpServer} (h₁ : SameOwners s s₁) (h₂ : SameOwners s₁ s₂) : SameOwners s s₂ :=
  fun k => (h₂ k).trans (h₁ k)

theorem foldl_removeConsumers_spec (c : Nat) (names : List Bytes) (s : AmqpServer) :
    (names.foldl (fun s name => s.removeConsumersByConnection name c) s).exchanges = s.exchanges ∧
      (names.foldl (fun s name => s.removeConsumersByConnection name c) s).store = s.store ∧
      SameOwners s (names.foldl (fun s name => s.removeConsumersByConnection name c) s) ∧
      ∀ name', (names.foldl (fun s name => s.removeConsumersByConnection name c) s).queue name' =
        if name' ∈ names then (s.queue name').map (s.without c) else s.queue name' := by
  induction names generalizing s with
  | nil => exact ⟨rfl, rfl, fun _ => rfl, fun _ => rfl⟩
  | cons name names ih =>
    obtain ⟨hex, hst, hown, hq⟩ := removeConsumersByConnection_spec (s := s) name c
    obtain ⟨hex', hst', hown', hq'⟩ := ih (s.removeConsumersByConnection name c)
    refine ⟨hex'.trans hex, hst'.trans hst, hown.trans hown', fun name' => ?_⟩
    have hwithout : (s.removeConsumersByConnection name c).without c = s.without c := funext (without_congr hown c)
    rw [List.foldl_cons, hq', hq, hwithout]
    by_cases hname : name' = name
    · subst hname
      simp only [if_true, List.mem_cons, true_or]
      split
      · rw [Option.map_map]
        congr 1
        exact funext (without_without c)
      · rfl
    · simp only [hname, if_false, List.mem_cons, false_or]

theorem queue_erase (name name' : Bytes) :
    queue { s with queues := s.queues.erase name } name' = if name' = name then none else s.queue name' := by
  rw [queue]
  split
  · rename_i h
    rw [h]
    exact Assoc.lookup_erase_self ..
  · rename_i h
    exact Assoc.lookup_erase_of_ne h

theorem foldl_erase_spec (names : List Bytes) (s : AmqpServer) :
    (names.foldl (fun s name => { s with queues := s.queues.erase name }) s).exchanges = s.exchanges ∧
      (names.foldl (fun s name => { s with queues := s.queues.erase name }) s).store = s.store ∧
      ∀ name', (names.foldl (fun s name => { s with queues := s.queues.erase name }) s).queue name' =
        if name' ∈ names then none else s.queue name' := by
  induction names generalizing s with
  | nil => exact ⟨rfl, rfl, fun _ => rfl⟩
  | cons name names ih =>
    obtain ⟨hex, hst, hq⟩ := ih { s with queues := s.queues.erase name }
    refine ⟨hex, hst, fun name' => ?_⟩
    rw [List.foldl_cons, hq, queue_erase]
    by_cases hname : name' = name
    · simp [hname]
    · simp [hname]

theorem foldl_dropOwned_spec (names : List Bytes) (s : AmqpServer) :
    (names.foldl (fun s name => { s.removeBindingsOf name with queues := s.queues.erase name }) s).store = s.store ∧
      SameOwners s (names.foldl (fun s name => { s.removeBindingsOf name with queues := s.queues.erase name }) s) ∧
      (∀ exchange, (names.foldl (fun s name => { s.removeBindingsOf name with queues := s.queues.erase name })
        s).bindingsOf exchange = (s.bindingsOf exchange).filter fun b => b.queue_name ∉ names) ∧
      (∀ exchange, ((names.foldl (fun s name => { s.removeBindingsOf name with queues := s.queues.erase name })
        s).exchanges.lookup exchange).map Exchange.head = (s.exchanges.lookup exchange).map Exchange.head) ∧
      ∀ name', (names.foldl (fun s name => { s.removeBindingsOf name with queues := s.queues.erase name }) s).queue name' =
        if name' ∈ names then none else s.queue name' := by
  induction names generalizing s with
  | nil => exact ⟨rfl, fun _ => rfl, fun _ => by simp, fun _ => rfl, fun _ => rfl⟩
  | cons name names ih =>
    obtain ⟨hst, hown, hb, hex, hq⟩ := ih { s.removeBindingsOf name with queues := s.queues.erase name }
    refine ⟨hst, fun k => hown k, fun exchange => ?_, fun exchange => ?_, fun name' => ?_⟩
    · have hhead : bindingsOf { s.removeBindingsOf name with queues := s.queues.erase name } exchange = _ :=
        bindingsOf_removeBindingsOf (s := s) name exchange
      rw [List.foldl_cons, hb, hhead, List.filter_filter]
      refine List.filter_congr fun b _ => ?_
      simp only [← Bool.decide_and, List.mem_cons, not_or, and_comm]
    · rw [List.foldl_cons, hex]
      simp only [removeBindingsOf, Assoc.lookup_map, Option.map_map]
      congr 1
      funext ex
      rw [Function.comp_apply, Exchange.removeBindingsOf_eq]
      rfl
    · have herase : queue { s.removeBindingsOf name with queues := s.queues.erase name } name' = _ :=
        queue_erase (s := s) name name'
      rw [List.foldl_cons, hq, herase]
      by_cases hname : name' = name
      · simp [hname]
      · simp [hname]

/-- `removeConnectionQueues` takes consumers out of queues, and then only changes exchanges and queues. --/
theorem removeConnectionQueues_keeps {P : AmqpServer → Prop} {c : Nat} (hs : P s)
    (hremove : ∀ s name, P s → P (s.removeConsumersByConnection name c))
    (hdrop : ∀ (s : AmqpServer) exchanges queues, P s → P { s with exchanges, queues }) : P (s.removeConnectionQueues c) := by
  rw [removeConnectionQueues]
  refine List.foldlRecOn _ _ (List.foldlRecOn _ _ (List.foldlRecOn _ _ hs ?_) ?_) ?_
  · exact fun s h name _ => hremove s name h
  · exact fun s h name _ => hdrop s (s.removeBindingsOf name).exchanges _ h
  · exact fun s h name _ => hdrop s s.exchanges _ h

/-- Whether the end of the connection takes the queue away. --/
def goesWith (s : AmqpServer) (c : Nat) (q : MessageQueue) : Bool := ownedBy c q || abandoned (s.without c q)

/-- Whether the queue is owned by the connection. --/
def ownsQueue (s : AmqpServer) (c : Nat) (name : Bytes) : Bool := (s.queue name).any (ownedBy c)

theorem removeConnectionQueues_spec (c : Nat) :
    (s.removeConnectionQueues c).store = s.store ∧
      (∀ name, (s.removeConnectionQueues c).queue name =
        (s.queue name).bind fun q => if s.goesWith c q then none else some (s.without c q)) ∧
      (∀ exchange, (s.removeConnectionQueues c).bindingsOf exchange =
        (s.bindingsOf exchange).filter fun b => !s.ownsQueue c b.queue_name) ∧
      ∀ exchange, ((s.removeConnectionQueues c).exchanges.lookup exchange).map Exchange.head =
        (s.exchanges.lookup exchange).map Exchange.head := by
  rw [removeConnectionQueues]
  dsimp only
  obtain ⟨hex₁, hst₁, hown₁, hq₁⟩ :=
    foldl_removeConsumers_spec c (s.queueNames fun q => !ownedBy c q) s
  generalize (s.queueNames fun q => !ownedBy c q).foldl (fun s name => s.removeConsumersByConnection name c) s = s₁ at *
  obtain ⟨hst₂, hown₂, hb₂, hex₂, hq₂⟩ := foldl_dropOwned_spec (s.queueNames (ownedBy c)) s₁
  generalize (s.queueNames (ownedBy c)).foldl
    (fun s name => { s.removeBindingsOf name with queues := s.queues.erase name }) s₁ = s₂ at *
  obtain ⟨hex₃, hst₃, hq₃⟩ := foldl_erase_spec (s₂.queueNames abandoned) s₂
  have hqueue : ∀ name, s₂.queue name =
      (s.queue name).bind fun q => if ownedBy c q then none else some (s.without c q) := by
    intro name
    simp only [hq₂, hq₁, mem_queueNames]
    cases hq : s.queue name with
    | none => simp
    | some q => cases ho : ownedBy c q <;> simp [ho]
  refine ⟨(hst₃.trans hst₂).trans hst₁, fun name => ?_, fun exchange => ?_, fun exchange => ?_⟩
  · simp only [hq₃, mem_queueNames, hqueue]
    cases hq : s.queue name with
    | none => simp
    | some q =>
      cases ho : ownedBy c q with
      | true => simp [goesWith, ho]
      | false => cases ha : abandoned (s.without c q) <;> simp [goesWith, ho, ha]
  · rw [bindingsOf_congr hex₃, hb₂, bindingsOf_congr hex₁]
    refine List.filter_congr fun b _ => ?_
    rw [Bool.eq_iff_iff, decide_eq_true_eq, mem_queueNames, ownsQueue]
    cases hq : s.queue b.queue_name with
    | none => simp
    | some q => simp
  · rw [hex₃, hex₂, hex₁]

end AmqpServer
end Broko.Broker
