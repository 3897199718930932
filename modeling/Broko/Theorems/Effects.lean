import Broko.Theorems.Bindings

/-! The operations of a virtual host with a log: what each of them does to queues, exchanges and bindings, and the
    entry that it writes. -/

namespace Broko.Broker
open Amqp Storage MessageStore

namespace AmqpServer

variable {s s' : AmqpServer} {op : VHostOp}

/-- An entry that neither declares nor removes queues. --/
theorem Logs.sameQueues {p : Bool} {e : Entry} (h : Logs s s' p e) (hr : ∀ d, e.removesQueue d = false)
    (hn : e.queue? = none) (d : StoredQueueDecl) : d ∈ s'.logged.queues ↔ d ∈ s.logged.queues := by
  rw [h.queues, hr, hn]
  simp

theorem Logs.sameExchanges {p : Bool} {e : Entry} (h : Logs s s' p e) (hr : ∀ d, e.removesExchange d = false)
    (hn : e.exchange? = none) (d : StoredExchangeDecl) : d ∈ s'.logged.exchanges ↔ d ∈ s.logged.exchanges := by
  rw [h.exchanges, hr, hn]
  simp

theorem Logs.sameBindings {p : Bool} {e : Entry} (h : Logs s s' p e) (hr : ∀ b, e.removesBinding b = false)
    (hn : e.binding? = none) (b : StoredBinding) : b ∈ s'.logged.bindings ↔ b ∈ s.logged.bindings := by
  rw [h.bindings, hr, hn]
  simp

/-- The exchanges are the same up to their bindings. --/
def SameHeads (s s' : AmqpServer) : Prop :=
  ∀ name, (s'.exchanges.lookup name).map Exchange.head = (s.exchanges.lookup name).map Exchange.head

/-- What an operation other than the end of a connection and a restart can do. --/
inductive Effect (s s' : AmqpServer) : VHostOp → Prop
  | idle {op : VHostOp} (hq : s'.queues = s.queues) (hex : s'.exchanges = s.exchanges) (hst : s'.store = s.store) :
      Effect s s' op
  | declareExchange {name type : Bytes} {passive durable autoDelete internal : Bool} {args : FieldTable}
      (hnew : s.exchanges.lookup name = none)
      (hlog : Logs s s' durable (.exchangeDeclare { name, type, durable, auto_delete := autoDelete, internal }))
      (hq : ∀ n, s'.queue n = s.queue n)
      (hex : ∀ n, s'.exchanges.lookup n =
        if n = name then some (newExchange name type durable autoDelete internal args) else s.exchanges.lookup n) :
      Effect s s' (.declareExchange name type passive durable autoDelete internal args)
  | deleteExchange {name : Bytes} (hres : isReserved name = false) (hlog : Logs s s' true (.exchangeDelete name))
      (hq : ∀ n, s'.queue n = s.queue n)
      (hex : ∀ n, s'.exchanges.lookup n = if n = name then none else s.exchanges.lookup n) :
      Effect s s' (.deleteExchange name)
  | declareQueue {name : Bytes} {passive durable exclusive autoDelete : Bool} {args : FieldTable} {connectionId : Nat}
      (qname : Bytes) (hlen : qname.length ≤ 255) (hnew : s.queue qname = none)
      (hmade : passive = false ∧ (name ≠ [] → qname = name))
      (hlog : Logs s s' durable (.queueDeclare { name := qname, durable, auto_delete := autoDelete }))
      (hq : ∀ n, s'.queue n =
        if n = qname then some (newQueue qname durable exclusive autoDelete args connectionId) else s.queue n)
      (hex : SameHeads s s')
      (hb : ∀ ex b, b ∈ s'.bindingsOf ex ↔
        b ∈ s.bindingsOf ex ∨ (ex = [] ∧ s.hasExchange [] ∧ b = defaultBinding qname)) :
      Effect s s' (.declareQueue name passive durable exclusive autoDelete args connectionId)
  | deleteQueue {name : Bytes} {ifUnused ifEmpty : Bool} (hlog : Logs s s' true (.queueDelete name))
      (hq : ∀ n, s'.queue n = if n = name then none else s.queue n) (hex : SameHeads s s')
      (hb : ∀ ex b, b ∈ s'.bindingsOf ex ↔ b ∈ s.bindingsOf ex ∧ b.queue_name ≠ name) :
      Effect s s' (.deleteQueue name ifUnused ifEmpty)
  | bindQueue {queue exchange routingKey : Bytes} {args : FieldTable} (hthere : s.hasExchange exchange)
      (hqueue : s.hasQueue queue) (hlog : Logs s s' true (.binding { queue, exchange, routing_key := routingKey }))
      (hq : ∀ n, s'.queue n = s.queue n) (hex : SameHeads s s')
      (hb : ∀ ex b, b ∈ s'.bindingsOf ex ↔ b ∈ s.bindingsOf ex ∨
        (ex = exchange ∧ b = { queue_name := queue, routing_key := routingKey, arguments := args })) :
      Effect s s' (.bindQueue queue exchange routingKey args)
  | unbindQueue {queue exchange routingKey : Bytes}
      (hlog : Logs s s' true (.unbind { queue, exchange, routing_key := routingKey }))
      (hq : ∀ n, s'.queue n = s.queue n) (hex : SameHeads s s')
      (hb : ∀ ex b, b ∈ s'.bindingsOf ex ↔ b ∈ s.bindingsOf ex ∧
        ¬(ex = exchange ∧ b.queue_name = queue ∧ b.routing_key = routingKey)) :
      Effect s s' (.unbindQueue queue exchange routingKey)

/-- Every operation on a log that is whole. --/
theorem effect_perform (hs : s.Journaled) (hshort : op.Short) (hend : ∀ c, op ≠ .removeConnectionQueues c)
    (hrestart : op ≠ .restart) : Effect s (s.perform op) op := by
  cases op with
  | declareExchange name type passive durable autoDelete internal args =>
    rcases s.perform_declareExchange name type passive durable autoDelete internal args with heq | ⟨hnew, heq⟩
    · rw [heq]
      exact .idle rfl rfl rfl
    · rw [heq]
      refine .declareExchange hnew (logs_logIf hs rfl rfl (fun _ => rfl) (length_exchangeDeclare hshort.1 hshort.2))
        (fun n => queue_logIf ..) (fun n => ?_)
      rw [exchanges_logIf]
      split
      · rename_i h
        rw [h]
        exact Assoc.lookup_insert_self ..
      · rename_i h
        exact Assoc.lookup_insert_of_ne h
  | deleteExchange name =>
    rcases s.perform_deleteExchange name with heq | ⟨hres, heq⟩
    · rw [heq]
      exact .idle rfl rfl rfl
    · rw [heq]
      refine .deleteExchange hres (logs_logIf hs rfl rfl (fun _ => rfl) (length_exchangeDelete hshort)) (fun n => queue_logIf ..)
        (fun n => ?_)
      rw [exchanges_logIf]
      split
      · rename_i h
        rw [h]
        exact Assoc.lookup_erase_self ..
      · rename_i h
        exact Assoc.lookup_erase_of_ne h
  | declareQueue name passive durable exclusive autoDelete args connectionId =>
    obtain ⟨n, heq | ⟨qname, hlen, hnew, hmade, heq⟩⟩ :=
      perform_declareQueue (s := s) hshort passive durable exclusive autoDelete args connectionId
    · rw [heq]
      exact .idle rfl rfl rfl
    · rw [heq]
      refine .declareQueue qname hlen hnew hmade (logs_logIf hs rfl rfl (fun _ => rfl) (length_queueDeclare hlen)) (fun n => ?_)
        (fun ex => ?_) (fun ex b => mem_bindingsOf_insert ..)
      · rw [queue_logIf]
        split
        · rename_i h
          rw [h]
          exact Assoc.lookup_insert_self ..
        · rename_i h
          exact Assoc.lookup_insert_of_ne h
      · rw [exchanges_logIf]
        exact head_modify (fun ex => head_addBinding ex ..) ..
  | deleteQueue name ifUnused ifEmpty =>
    rcases s.perform_deleteQueue name ifUnused ifEmpty with heq | heq
    · rw [heq]
      exact .idle rfl rfl rfl
    · rw [heq]
      refine .deleteQueue (logs_logIf hs rfl rfl (fun _ => rfl) (length_queueDelete hshort)) (fun n => ?_) (fun ex => ?_) (fun ex b => ?_)
      · rw [queue_logIf]
        exact queue_erase (s := s) name n
      · rw [exchanges_logIf]
        change ((s.exchanges.map fun ex => ex.removeBindingsOf name).lookup ex).map Exchange.head = _
        rw [Assoc.lookup_map, Option.map_map]
        congr 1
        funext ex
        rw [Function.comp_apply, Exchange.removeBindingsOf_eq]
        rfl
      · rw [bindingsOf_delete, List.mem_filter, decide_eq_true_eq]
  | bindQueue queue exchange routingKey args =>
    rcases s.perform_bindQueue queue exchange routingKey args with heq | ⟨hthere, hqueue, heq⟩
    · rw [heq]
      exact .idle rfl rfl rfl
    · rw [heq]
      refine .bindQueue hthere hqueue (logs_logIf hs rfl rfl (fun _ => rfl) (length_binding hshort.1 hshort.2.1 hshort.2.2))
        (fun n => queue_logIf ..) (fun ex => ?_) (fun ex b => ?_)
      · rw [exchanges_logIf]
        exact head_modify (fun ex => head_addBinding ex ..) ..
      · rw [bindingsOf_logIf, bindingsOf_addBinding]
        by_cases h : ex = exchange
        · rw [if_pos ⟨h, hthere⟩, List.mem_append, List.mem_singleton, h]
          simp
        · rw [if_neg fun hex => h hex.1]
          simp [h]
  | unbindQueue queue exchange routingKey =>
    rcases s.perform_unbindQueue queue exchange routingKey with heq | heq
    · rw [heq]
      exact .idle rfl rfl rfl
    · rw [heq]
      refine .unbindQueue (logs_logIf hs rfl rfl (fun _ => rfl) (length_unbind hshort.1 hshort.2.1 hshort.2.2)) (fun n => queue_logIf ..)
        (fun ex => ?_) (fun ex b => ?_)
      · rw [exchanges_logIf]
        exact head_modify (fun ex => head_removeBinding ex ..) ..
      · rw [bindingsOf_logIf, bindingsOf_removeBinding]
        by_cases h : ex = exchange
        · rw [if_pos h, List.mem_filter, decide_eq_true_eq, h]
          simp
        · rw [if_neg h]
          simp [h]
  | removeConnectionQueues c => exact absurd rfl (hend c)
  | restart => exact absurd rfl hrestart

namespace Effect

theorem journaled (h : Effect s s' op) (hs : s.Journaled) : s'.Journaled := by
  cases h with
  | idle hq hex hst => exact journaled_of_store hst hs
  | declareExchange _ hlog => exact hlog.journaled
  | deleteExchange _ hlog => exact hlog.journaled
  | declareQueue _ _ _ _ hlog => exact hlog.journaled
  | deleteQueue hlog => exact hlog.journaled
  | bindQueue _ _ hlog => exact hlog.journaled
  | unbindQueue hlog => exact hlog.journaled

/-- A queue that is there afterwards was there, or it was made under a short name. --/
theorem names (h : Effect s s' op) {name : Bytes} (hq' : s'.hasQueue name) : s.hasQueue name ∨ name.length ≤ 255 := by
  have hsame : s'.queue name = s.queue name → s.hasQueue name ∨ name.length ≤ 255 := by
    intro heq
    rw [hasQueue, heq] at hq'
    exact .inl hq'
  cases h with
  | idle hq hex hst => exact hsame (by rw [queue, hq, queue])
  | declareExchange _ _ hq => exact hsame (hq name)
  | deleteExchange _ _ hq => exact hsame (hq name)
  | declareQueue qname hlen _ _ _ hq =>
    by_cases h : name = qname
    · exact .inr (h ▸ hlen)
    · exact hsame (by rw [hq, if_neg h])
  | @deleteQueue gone _ _ _ hq =>
    by_cases h : name = gone
    · rw [hasQueue, hq, if_pos h] at hq'
      cases hq'
    · exact hsame (by rw [hq, if_neg h])
  | bindQueue _ _ _ hq => exact hsame (hq name)
  | unbindQueue _ hq => exact hsame (hq name)

/-- A queue that is in the log afterwards was in the log, or it was declared under a short name. --/
theorem loggedNames (h : Effect s s' op) {d : StoredQueueDecl} (hd' : d ∈ s'.logged.queues) :
    d ∈ s.logged.queues ∨ d.name.length ≤ 255 := by
  have hlogs : ∀ {p : Bool} {e : Entry}, Logs s s' p e → (∀ d, e.queue? = some d → d.name.length ≤ 255) →
      d ∈ s.logged.queues ∨ d.name.length ≤ 255 := by
    intro p e hlog he
    rcases (hlog.queues d).mp hd' with ⟨hd, -⟩ | ⟨-, hd⟩
    · exact .inl hd
    · exact .inr (he d hd)
  cases h with
  | idle hq hex hst => exact .inl (logged_of_store hst ▸ hd')
  | declareExchange _ hlog => exact hlogs hlog nofun
  | deleteExchange _ hlog => exact hlogs hlog nofun
  | declareQueue qname hlen _ _ hlog =>
    refine hlogs hlog fun d hd => ?_
    rw [← Option.some.inj hd]
    exact hlen
  | deleteQueue hlog => exact hlogs hlog nofun
  | bindQueue _ _ hlog => exact hlogs hlog nofun
  | unbindQueue hlog => exact hlogs hlog nofun

theorem default (h : Effect s s' op) (hs : s.hasExchange []) : s'.hasExchange [] := by
  cases h with
  | idle hq hex hst => rw [hasExchange, hex, ← hasExchange]; exact hs
  | declareExchange hnew _ _ hex =>
    rw [hasExchange, hex]
    split
    · rfl
    · exact hs
  | deleteExchange hres _ _ hex =>
    rw [hasExchange, hex]
    split
    · rename_i h
      rw [← h] at hres
      cases hres
    · exact hs
  | declareQueue _ _ _ _ _ _ hex => rw [hasExchange_of_head hex]; exact hs
  | deleteQueue _ _ hex => rw [hasExchange_of_head hex]; exact hs
  | bindQueue _ _ _ _ hex => rw [hasExchange_of_head hex]; exact hs
  | unbindQueue _ _ hex => rw [hasExchange_of_head hex]; exact hs

end Effect

/-! ### Names -/

/-- The log is whole, the names of queues are short, and the default exchange is there. --/
structure Tidy (s : AmqpServer) : Prop where
  journaled : s.Journaled
  names : ∀ name, s.hasQueue name → name.length ≤ 255
  logged : ∀ d ∈ s.logged.queues, d.name.length ≤ 255
  default : s.hasExchange []

namespace Tidy

theorem perform (h : Tidy s) (hshort : op.Short) : Tidy (s.perform op) := by
  by_cases hrestart : op = .restart
  · subst hrestart
    have hrec := recoveredFrom_restart s
    refine ⟨h.journaled.restart, fun name hq => ?_, fun d hd => ?_, ?_⟩
    · obtain ⟨d, hd, rfl⟩ := (hrec.hasQueue name).mp hq
      exact h.logged d hd
    · exact h.logged d (logged_restart s ▸ hd)
    · exact (hrec.hasExchange []).mpr (.inl (by decide))
  · by_cases hend : ∃ c, op = .removeConnectionQueues c
    · obtain ⟨c, rfl⟩ := hend
      obtain ⟨hst, -, -, hhead⟩ := removeConnectionQueues_spec (s := s) c
      refine ⟨journaled_of_store hst h.journaled, fun name hq => ?_, fun d hd => ?_, ?_⟩
      · exact h.names name ((hasQueue_removeConnectionQueues c name).mp hq).1
      · exact h.logged d (logged_of_store hst ▸ hd)
      · exact (hasExchange_of_head hhead []).trans h.default
    · have heff := effect_perform h.journaled hshort (fun c hc => hend ⟨c, hc⟩) hrestart
      refine ⟨heff.journaled h.journaled, fun name hq => ?_, fun d hd => ?_, heff.default h.default⟩
      · exact (heff.names hq).elim (h.names name) id
      · exact (heff.loggedNames hd).elim (h.logged d) id

theorem move {c : Nat} {k : Kind} (h : Tidy s) (hk : k ∈ trafficKinds) (hm : Move c k s s') : Tidy s' ∧ SameLog s s' := by
  have hsame := SameTopology.of_move hm hk
  obtain ⟨hj, hlog⟩ := h.journaled.move h.names hm hk
  refine ⟨⟨hj, fun name hq => ?_, fun d hd => ?_, ?_⟩, hlog⟩
  · rw [hsame.hasQueue] at hq
    exact h.names name hq
  · rw [hlog.queues] at hd
    exact h.logged d hd
  · rw [hsame.hasExchange]
    exact h.default

theorem start {userStore : UserStore} {clock : Nat → Int} {readings : Nat} :
    Tidy (start (some {}) userStore clock readings) := by
  have hrec : RecoveredFrom {} (AmqpServer.start (some {}) userStore clock readings) := recoveredFrom_empty (.inr rfl)
  refine ⟨⟨_, recoveredFrom_start.2, ?_⟩, fun name hq => ?_, nofun, (hrec.hasExchange []).mpr (.inl (by decide))⟩
  · rw [whole_iff]
    rfl
  · obtain ⟨d, hd, -⟩ := (hrec.hasQueue name).mp hq
    cases hd

theorem run {Ok : AmqpServer → VHostOp → Prop} (h : Tidy s) (hrun : VHostRun Ok s s') : Tidy s' :=
  hrun.keeps (fun _ _ hshort _ h => h.perform hshort) (fun _ _ _ _ hk hm h => (h.move hk hm).1) h

end Tidy

end AmqpServer
end Broko.Broker
