import Broko.Theorems.Refinement
import Broko.Theorems.VHostRuns

/-! The log of a broker as the calls of its store. Whatever a process does, its store goes through a run of calls, and the
    messages in these calls have properties that the wire decoder can return. -/

namespace Broko.Broker
open Amqp Storage MessageStore

/-- The messages of the calls have such properties. --/
def Decodable (ops : List StoreOp) : Prop :=
  ∀ queueName msg, .storeMessage queueName msg ∈ ops → msg.properties.WellFormed

theorem Decodable.append {ops ops' : List StoreOp} (h : Decodable ops) (h' : Decodable ops') : Decodable (ops ++ ops') :=
  fun queueName msg hmem => (List.mem_append.mp hmem).elim (h queueName msg) (h' queueName msg)

theorem decodable_nil : Decodable [] := fun _ _ hmem => absurd hmem List.not_mem_nil

theorem decodable_singleton {op : StoreOp} (h : ∀ queueName msg, op = .storeMessage queueName msg → msg.properties.WellFormed) :
    Decodable [op] :=
  fun queueName msg hmem => h queueName msg (List.mem_singleton.mp hmem).symm

namespace AmqpServer

variable {c : Nat} {K : List Kind} {s s₁ s' : AmqpServer}

/-- The store of the second state is that of the first after some calls. --/
def Calls (s s' : AmqpServer) : Prop := ∃ ops, Decodable ops ∧ s'.store = s.store.map fun st => MessageStore.run st ops

theorem store_handOver (name : Bytes) (k head : Ref) (idx : Nat) : (s.handOver name k head idx).store = s.store := by
  have hdeliver : ∀ s : AmqpServer, (s.onDeliver k head).store = s.store := fun s => by
    rw [onDeliver]
    split <;> rfl
  rw [handOver, hdeliver]
  split <;> rfl

theorem store_removeConsumersByConnection (name : Bytes) (connId : Nat) :
    (s.removeConsumersByConnection name connId).store = s.store := by
  rw [removeConsumersByConnection]
  split
  · rfl
  · exact List.foldlRecOn (motive := fun s' : AmqpServer => s'.store = s.store) _ _ rfl fun _ h _ _ => h

namespace Calls

theorem of_eq (h : s'.store = s.store) : Calls s s' := by
  refine ⟨[], decodable_nil, h.trans ?_⟩
  cases s.store <;> rfl

theorem refl : Calls s s := of_eq rfl

theorem trans (h : Calls s s₁) (h' : Calls s₁ s') : Calls s s' := by
  obtain ⟨ops, hops, hst⟩ := h
  obtain ⟨ops', hops', hst'⟩ := h'
  refine ⟨ops ++ ops', hops.append hops', ?_⟩
  rw [hst', hst, Option.map_map]
  refine congrArg (fun f => s.store.map f) (funext fun st => ?_)
  rw [Function.comp_apply, MessageStore.run, MessageStore.run, MessageStore.run, List.foldl_append]

theorem one (op : StoreOp) (hop : ∀ queueName msg, op = .storeMessage queueName msg → msg.properties.WellFormed)
    (h : s'.store = s.store.map fun st => st.step op) : Calls s s' :=
  ⟨[op], decodable_singleton hop, h⟩

/-- A call that stores no message. --/
theorem other (op : StoreOp) (hop : ∀ queueName msg, op ≠ .storeMessage queueName msg)
    (h : s'.store = s.store.map fun st => st.step op) : Calls s s' :=
  one op (fun queueName msg heq => absurd heq (hop queueName msg)) h

theorem storeMessage (name : Bytes) {m : Message} (hw : m.properties.WellFormed) :
    Calls s ((s.newMessage m).storeMessage name s.heap.size) := by
  have hm : (s.newMessage m).message s.heap.size = m := by rw [message, newMessage, Heap.cell_alloc_self]
  refine one (.storeMessage name m) (fun _ _ heq => (StoreOp.storeMessage.inj heq).2 ▸ hw) ?_
  rw [AmqpServer.storeMessage, hm]
  split
  · rename_i hst
    have hst : s.store = none := hst
    rw [hst]
    exact hst
  · rename_i st hst
    have hst : s.store = some st := hst
    rw [hst]
    rfl

theorem persistAck (u : UnackedMessage) : Calls s (s.persistAck u) := by
  have hcredit : (s.releaseCredit u).store = s.store := store_releaseCredit u
  rw [AmqpServer.persistAck]
  split
  · exact of_eq hcredit
  · split
    · refine other (.storeAck u.queue_name ((s.releaseCredit u).message u.message).wal_id) (fun _ _ heq => by cases heq) ?_
      exact congrArg (fun x => x.map fun st => st.storeAck u.queue_name ((s.releaseCredit u).message u.message).wal_id) hcredit
    · exact of_eq hcredit

/-- Entries that are not messages are what the other calls write. --/
theorem append {e : Entry} (hm : e.message? = none) : Calls s (s.modifyStore fun st => st.append e) := by
  cases e with
  | message m => cases hm
  | ack id queue => exact other (.storeAck queue id) (fun _ _ heq => by cases heq) rfl
  | queueDeclare d =>
    exact other (.storeQueueDeclare d.name d.durable d.auto_delete) (fun _ _ heq => by cases heq) rfl
  | exchangeDeclare d =>
    exact other (.storeExchangeDeclare d.name d.type d.durable d.auto_delete d.internal) (fun _ _ heq => by cases heq) rfl
  | binding b => exact other (.storeBinding b.queue b.exchange b.routing_key) (fun _ _ heq => by cases heq) rfl
  | queueDelete name => exact other (.storeQueueDelete name) (fun _ _ heq => by cases heq) rfl
  | exchangeDelete name => exact other (.storeExchangeDelete name) (fun _ _ heq => by cases heq) rfl
  | unbind b => exact other (.storeUnbind b.queue b.exchange b.routing_key) (fun _ _ heq => by cases heq) rfl

theorem move {k : Kind} (hm : Move c k s s') : Calls s s' := by
  cases hm with
  | handOver idx hq hm hk he => exact of_eq (store_handOver ..)
  | purge name => exact of_eq (by rw [purge]; split <;> rfl)
  | store m hw => exact storeMessage _ hw
  | oversize m hw => exact storeMessage _ hw
  | releaseCredit u => exact of_eq (store_releaseCredit u)
  | settle u => exact persistAck u
  | log e he => exact append he
  | compact => exact other .compactIfNeeded (fun _ _ heq => by cases heq) rfl
  | removeConsumer name tag => exact of_eq (store_removeConsumer name tag)
  | removeConsumersByConnection name => exact of_eq (store_removeConsumersByConnection name c)
  | _ => exact of_eq rfl

theorem restart (s : AmqpServer) : Calls s s.restart := by
  cases hst : s.store with
  | none => exact of_eq (by rw [AmqpServer.restart, hst]; rfl)
  | some st =>
    refine other .restart (fun _ _ heq => by cases heq) ?_
    rw [store_restart hst, hst]
    rfl

theorem handle (hv : Valid s) (e : Event) : Calls s (s.handle e) := by
  by_cases he : e = .restart
  · subst he
    exact restart s
  · obtain ⟨c, hactor, -⟩ := exists_actor e 0
    have hdoes : Does c (.oversize :: allKinds) s (s.handle e) :=
      does_handle hactor he (fun _ => List.mem_cons_of_mem _) (.inl List.mem_cons_self)
    exact (hdoes.moves hv).keeps (P := Calls s) (fun _ _ _ _ hm h => h.trans (move hm)) .refl

theorem run (hv : Valid s) (events : List Event) : Calls s (s.run events) := by
  induction events generalizing s with
  | nil => exact .refl
  | cons e events ih => exact (handle hv e).trans (ih (valid_handle hv e))

end Calls

/-- The log of a broker that starts on an empty one: without compaction, and as long as its entries fit and its acks name
    ids that were returned, it is replayed as exactly what the calls leave. --/
theorem recover_broker_run {userStore : UserStore} {clock : Nat → Int} {readings : Nat} (events : List Event) :
    ∃ ops, ((start (some {}) userStore clock readings).run events).store = some (MessageStore.run {} ops) ∧
      (.compactIfNeeded ∉ ops → (∀ e ∈ history {} ops, e.Fits) → AcksReturned (history {} ops) →
        (MessageStore.run {} ops).wal.length < 2 ^ 63 →
        (MessageStore.run {} ops).recover.1.contents = Contents.ofHistory (history {} ops) ∧
          (returnedIds (history {} ops)).Nodup) := by
  have hstart : Calls { store := some {}, userStore, clock, readings, exchanges := defaultExchanges }
      (start (some {}) userStore clock readings) := by
    refine Calls.other .restart (fun _ _ heq => by cases heq) ?_
    exact recoveredFrom_start.2
  obtain ⟨ops, hops, hst⟩ := hstart.trans (Calls.run valid_start events)
  refine ⟨ops, hst, fun hcompact hfits hacks hlen => ?_⟩
  have hadmissible : Admissible {} ops := ⟨hops, hfits⟩
  exact ⟨contents_run hcompact hadmissible hacks hlen, (freshIds_run hcompact hadmissible hlen).nodup⟩

end AmqpServer
end Broko.Broker
