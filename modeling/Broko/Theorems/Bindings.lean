import Broko.Theorems.VHostRuns

/-! Bindings and queues. Bindings live in the exchanges and queues in a map of their own. A queue that is deleted
    takes its bindings along, and so does one that goes with its connection; but a queue that is removed because
    nobody consumes from it leaves its bindings behind, and the log keeps bindings of queues that it does not keep. -/

namespace Broko.Broker
open Amqp Storage MessageStore

namespace AmqpServer

variable {s : AmqpServer} {userStore : UserStore} {clock : Nat → Int} {readings : Nat}

/-! ### What the operations do to queues and bindings -/

theorem hasQueue_insert (n : UInt64) (qname : Bytes) (q : MessageQueue) (p : Bool) (e : Entry) (name : Bytes) :
    ((({ s with nameCounter := n, queues := s.queues.insert qname q } : AmqpServer).bindDefault qname).logIf p e).hasQueue
      name ↔ name = qname ∨ s.hasQueue name := by
  rw [hasQueue, queue_logIf]
  change ((s.queues.insert qname q).lookup name).isSome ↔ _
  by_cases h : name = qname
  · simp [h]
  · rw [Assoc.lookup_insert_of_ne h]
    simp [h, hasQueue, queue]

theorem mem_bindingsOf_insert (n : UInt64) (qname : Bytes) (q : MessageQueue) (p : Bool) (e : Entry) (exchange : Bytes)
    (b : Binding) :
    b ∈ ((({ s with nameCounter := n, queues := s.queues.insert qname q } : AmqpServer).bindDefault qname).logIf p
      e).bindingsOf exchange ↔
      b ∈ s.bindingsOf exchange ∨ (exchange = [] ∧ s.hasExchange [] ∧ b = defaultBinding qname) := by
  rw [bindingsOf_logIf]
  exact mem_bindingsOf_bindDefault (s := { s with nameCounter := n, queues := s.queues.insert qname q }) ..

theorem hasQueue_delete (name : Bytes) (p : Bool) (e : Entry) (name' : Bytes) :
    (({ s.removeBindingsOf name with queues := s.queues.erase name } : AmqpServer).logIf p e).hasQueue name' ↔
      name' ≠ name ∧ s.hasQueue name' := by
  have herase : queue { s.removeBindingsOf name with queues := s.queues.erase name } name' = _ :=
    queue_erase (s := s) name name'
  rw [hasQueue, queue_logIf, herase]
  by_cases h : name' = name
  · simp [h]
  · simp [h, hasQueue]

theorem bindingsOf_delete (name : Bytes) (p : Bool) (e : Entry) (exchange : Bytes) :
    (({ s.removeBindingsOf name with queues := s.queues.erase name } : AmqpServer).logIf p e).bindingsOf exchange =
      (s.bindingsOf exchange).filter fun b => b.queue_name ≠ name := by
  rw [bindingsOf_logIf]
  exact bindingsOf_removeBindingsOf (s := s) name exchange

theorem hasQueue_logIf (p : Bool) (e : Entry) (name : Bytes) : (s.logIf p e).hasQueue name = s.hasQueue name := by
  rw [hasQueue, queue_logIf, hasQueue]

/-- The queues that `removeConnectionQueues` removes because nobody consumes from them. --/
def leftAlone (s : AmqpServer) (c : Nat) : List Bytes :=
  s.queueNames fun q => !ownedBy c q && abandoned (s.without c q)

theorem hasQueue_removeConnectionQueues (c : Nat) (name : Bytes) :
    (s.removeConnectionQueues c).hasQueue name ↔
      s.hasQueue name ∧ s.ownsQueue c name = false ∧ name ∉ s.leftAlone c := by
  obtain ⟨-, hq, -, -⟩ := removeConnectionQueues_spec (s := s) c
  rw [leftAlone, mem_queueNames, hasQueue, hq, hasQueue, ownsQueue]
  cases s.queue name with
  | none => simp
  | some q => cases ho : ownedBy c q <;> cases ha : abandoned (s.without c q) <;> simp [goesWith, ho, ha]

/-! ### No dangling bindings -/

/-- Every binding of every exchange names a queue that exists. --/
def NoDangling (s : AmqpServer) : Prop := ∀ exchange, ∀ b ∈ s.bindingsOf exchange, s.hasQueue b.queue_name

/-- Whether some exchange has a binding of the queue. --/
def isBound (s : AmqpServer) (name : Bytes) : Bool :=
  s.exchanges.entries.any fun e => e.2.bindings.any fun b => b.queue_name = name

/-- A queue that is removed because nobody consumes from it has no binding left, and a new process finds no binding
    in the log whose exchange it has and whose queue it does not have. --/
def BindsKept (s : AmqpServer) : VHostOp → Prop
  | .removeConnectionQueues c => ∀ name ∈ s.leftAlone c, s.isBound name = false
  | .restart => ∀ b ∈ s.logged.bindings,
    ((defaultExchanges.lookup b.exchange).isSome ∨ ∃ d ∈ s.logged.exchanges, d.name = b.exchange) →
      ∃ d ∈ s.logged.queues, d.name = b.queue
  | _ => True

instance (s : AmqpServer) : (op : VHostOp) → Decidable (BindsKept s op)
  | .removeConnectionQueues c => inferInstanceAs (Decidable (∀ name ∈ s.leftAlone c, s.isBound name = false))
  | .restart => inferInstanceAs (Decidable (∀ b ∈ s.logged.bindings, _ → ∃ d ∈ s.logged.queues, d.name = b.queue))
  | .declareExchange .. => inferInstanceAs (Decidable True)
  | .deleteExchange _ => inferInstanceAs (Decidable True)
  | .declareQueue .. => inferInstanceAs (Decidable True)
  | .deleteQueue .. => inferInstanceAs (Decidable True)
  | .bindQueue .. => inferInstanceAs (Decidable True)
  | .unbindQueue .. => inferInstanceAs (Decidable True)

theorem isBound_of_mem {exchange : Bytes} {b : Binding} (h : b ∈ s.bindingsOf exchange) : s.isBound b.queue_name := by
  obtain ⟨ex, hex, hb⟩ := mem_bindingsOf.mp h
  rw [isBound, List.any_eq_true]
  refine ⟨(exchange, ex), Assoc.mem_entries.mpr hex, ?_⟩
  rw [List.any_eq_true]
  exact ⟨b, hb, decide_eq_true rfl⟩

theorem NoDangling.perform {op : VHostOp} (h : NoDangling s) (hshort : op.Short) (hok : BindsKept s op) :
    NoDangling (s.perform op) := by
  cases op with
  | declareExchange name type passive durable autoDelete internal args =>
    rcases s.perform_declareExchange name type passive durable autoDelete internal args with heq | ⟨hnew, heq⟩
    · rw [heq]
      exact h
    · rw [heq]
      intro exchange b hb
      rw [bindingsOf_logIf, bindingsOf_insert hnew rfl] at hb
      rw [hasQueue_logIf]
      exact h exchange b hb
  | deleteExchange name =>
    rcases s.perform_deleteExchange name with heq | ⟨-, heq⟩
    · rw [heq]
      exact h
    · rw [heq]
      intro exchange b hb
      rw [bindingsOf_logIf, bindingsOf_erase] at hb
      rw [hasQueue_logIf]
      split at hb
      · cases hb
      · exact h exchange b hb
  | declareQueue name passive durable exclusive autoDelete args connectionId =>
    obtain ⟨n, heq | ⟨qname, -, -, -, heq⟩⟩ :=
      perform_declareQueue (s := s) hshort passive durable exclusive autoDelete args connectionId
    · rw [heq]
      exact h
    · rw [heq]
      intro exchange b hb
      rw [mem_bindingsOf_insert] at hb
      rw [hasQueue_insert]
      rcases hb with hb | ⟨-, -, rfl⟩
      · exact .inr (h exchange b hb)
      · exact .inl rfl
  | deleteQueue name ifUnused ifEmpty =>
    rcases s.perform_deleteQueue name ifUnused ifEmpty with heq | heq
    · rw [heq]
      exact h
    · rw [heq]
      intro exchange b hb
      rw [bindingsOf_delete, List.mem_filter, decide_eq_true_eq] at hb
      rw [hasQueue_delete]
      exact ⟨hb.2, h exchange b hb.1⟩
  | bindQueue queue exchange routingKey args =>
    rcases s.perform_bindQueue queue exchange routingKey args with heq | ⟨-, hq, heq⟩
    · rw [heq]
      exact h
    · rw [heq]
      intro exchange' b hb
      rw [bindingsOf_logIf, bindingsOf_addBinding] at hb
      rw [hasQueue_logIf]
      split at hb
      · rcases List.mem_append.mp hb with hb | hb
        · exact h exchange b hb
        · rw [List.mem_singleton.mp hb]
          exact hq
      · exact h exchange' b hb
  | unbindQueue queue exchange routingKey =>
    rcases s.perform_unbindQueue queue exchange routingKey with heq | heq
    · rw [heq]
      exact h
    · rw [heq]
      intro exchange' b hb
      rw [bindingsOf_logIf, bindingsOf_removeBinding] at hb
      rw [hasQueue_logIf]
      split at hb
      · exact h exchange b (List.mem_filter.mp hb).1
      · exact h exchange' b hb
  | removeConnectionQueues c =>
    intro exchange b hb
    obtain ⟨-, -, hbind, -⟩ := removeConnectionQueues_spec (s := s) c
    change b ∈ (s.removeConnectionQueues c).bindingsOf exchange at hb
    rw [hbind, List.mem_filter, Bool.not_eq_true'] at hb
    refine (hasQueue_removeConnectionQueues c b.queue_name).mpr ⟨h exchange b hb.1, hb.2, fun hleft => ?_⟩
    have hbound := isBound_of_mem hb.1
    rw [hok b.queue_name hleft] at hbound
    cases hbound
  | restart =>
    have hrec := recoveredFrom_restart s
    intro exchange b hb
    change b ∈ s.restart.bindingsOf exchange at hb
    refine (hrec.hasQueue b.queue_name).mpr ?_
    obtain ⟨hex, ⟨sb, hsb, rfl, rfl⟩ | ⟨-, d, hd, rfl⟩⟩ := (hrec.bindings exchange b).mp hb
    · exact hok sb hsb ((hrec.hasExchange _).mp hex)
    · exact ⟨d, hd, rfl⟩

theorem recoveredFrom_empty {store : Option MessageStore} (hstore : store = none ∨ store = some {}) :
    RecoveredFrom {} (start store userStore clock readings) := by
  rcases hstore with rfl | rfl
  · exact recoveredFrom_blank
  · have hempty : ({} : MessageStore).recover.1 = {} := rfl
    exact hempty ▸ recoveredFrom_start.1

theorem noDangling_start {store : Option MessageStore} (hstore : store = none ∨ store = some {}) :
    NoDangling (start store userStore clock readings) := by
  have hrec : RecoveredFrom {} (start store userStore clock readings) := recoveredFrom_empty hstore
  intro exchange b hb
  obtain ⟨-, ⟨sb, hsb, -⟩ | ⟨-, d, hd, -⟩⟩ := (hrec.bindings exchange b).mp hb
  · cases hsb
  · cases hd

/-- In every state of every run from an empty host in which nothing that is still bound is removed as abandoned, and no
    restart finds in the log a binding of a queue that is not in the log, every binding names a queue. --/
theorem no_dangling_bindings {store : Option MessageStore} (hstore : store = none ∨ store = some {})
    (hrun : VHostRun BindsKept (start store userStore clock readings) s) : NoDangling s := by
  refine hrun.keeps (fun _ _ hshort hok h => h.perform hshort hok) ?_ (noDangling_start hstore)
  intro c k s s' hk hm h exchange b hb
  have hsame := SameTopology.of_move hm hk
  rw [hsame.bindingsOf] at hb
  rw [hsame.hasQueue]
  exact h exchange b hb

/-- A queue that is deleted when nobody consumes from it is declared, and some other connection ends. --/
def abandonedRun : List VHostOp :=
  [.declareQueue (ascii "q") false false false true [] 1, .removeConnectionQueues 2]

/-- The default exchange keeps its binding to the queue that is gone. --/
theorem binding_outlives_queue :
    VHostRun (fun _ _ => True) freshServer (abandonedRun.foldl perform freshServer) ∧
      ¬NoDangling (abandonedRun.foldl perform freshServer) := by
  refine ⟨.ops (by decide +kernel), fun h => ?_⟩
  have hnames : ascii "q" ∈ ((abandonedRun.foldl perform freshServer).bindingsOf []).map Binding.queue_name := by
    decide +kernel
  obtain ⟨b, hb, hname⟩ := List.mem_map.mp hnames
  have hthere := h [] b hb
  rw [hname] at hthere
  revert hthere
  decide +kernel

/-- A durable queue is bound, a connection ends, and a new process reads the log. --/
def boundRun : List VHostOp :=
  [.declareQueue (ascii "q") false true false false [] 1, .bindQueue (ascii "q") (ascii "amq.direct") (ascii "k") [],
    .removeConnectionQueues 1, .restart]

theorem no_dangling_boundRun :
    NoDangling (boundRun.foldl perform freshServer) ∧
      ((boundRun.foldl perform freshServer).bindingsOf (ascii "amq.direct")).length = 1 :=
  ⟨no_dangling_bindings (.inr rfl) (.ops (by decide +kernel)), by decide +kernel⟩

/-! ### The default exchange -/

/-- A message for the default exchange goes to the queue with the name of its routing key, if there is one. --/
def DefaultLaw (s : AmqpServer) : Prop :=
  ∀ k headers, s.routeMessage [] k headers = if s.hasQueue k then [k] else []

/-- No client binds a queue to the default exchange under another key than its name or takes its binding away, no queue
    is removed because nobody consumes from it, and a new process finds no binding of the default exchange in the log
    but of queues in the log under their names. --/
def DefaultKept (s : AmqpServer) : VHostOp → Prop
  | .bindQueue queue exchange routingKey _ => exchange = [] → routingKey = queue
  | .unbindQueue queue exchange routingKey => exchange = [] → routingKey = queue → s.hasQueue queue = false
  | .removeConnectionQueues c => s.leftAlone c = []
  | .restart => ∀ b ∈ s.logged.bindings, b.exchange = [] → b.routing_key = b.queue ∧ ∃ d ∈ s.logged.queues, d.name = b.queue
  | _ => True

instance (s : AmqpServer) : (op : VHostOp) → Decidable (DefaultKept s op)
  | .bindQueue queue exchange routingKey _ => inferInstanceAs (Decidable (exchange = [] → routingKey = queue))
  | .unbindQueue queue exchange routingKey =>
    inferInstanceAs (Decidable (exchange = [] → routingKey = queue → s.hasQueue queue = false))
  | .removeConnectionQueues c => inferInstanceAs (Decidable (s.leftAlone c = []))
  | .restart => inferInstanceAs (Decidable (∀ b ∈ s.logged.bindings, b.exchange = [] → b.routing_key = b.queue ∧ _))
  | .declareExchange .. => inferInstanceAs (Decidable True)
  | .deleteExchange _ => inferInstanceAs (Decidable True)
  | .declareQueue .. => inferInstanceAs (Decidable True)
  | .deleteQueue .. => inferInstanceAs (Decidable True)

/-- The bindings of the default exchange are those of the queues, each under its name. --/
structure DefaultBound (s : AmqpServer) : Prop where
  direct : (s.exchanges.lookup []).map Exchange.head = defaultExchanges.lookup []
  queues : ∀ name, s.hasQueue name → ∃ b ∈ s.bindingsOf [], b.queue_name = name
  bindings : ∀ b ∈ s.bindingsOf [], b.routing_key = b.queue_name ∧ s.hasQueue b.queue_name

theorem eraseSeen_replicate {k : Bytes} {l : List Bytes} (h : ∀ x ∈ l, x = k) :
    eraseSeen [] l = if l = [] then [] else [k] := by
  have hseen : ∀ l : List Bytes, (∀ x ∈ l, x = k) → eraseSeen [k] l = [] := by
    intro l hl
    induction l with
    | nil => rfl
    | cons x l ih =>
      obtain rfl := hl x List.mem_cons_self
      rw [eraseSeen, if_pos List.mem_cons_self]
      exact ih fun y hy => hl y (List.mem_cons_of_mem _ hy)
  cases l with
  | nil => rfl
  | cons x l =>
    obtain rfl := h x List.mem_cons_self
    rw [eraseSeen, if_neg (List.not_mem_nil), hseen l fun y hy => h y (List.mem_cons_of_mem _ hy), if_neg (List.cons_ne_nil _ _)]

theorem DefaultBound.law (h : DefaultBound s) : DefaultLaw s := by
  intro k headers
  obtain ⟨ex, hex, hhead⟩ : ∃ ex, s.exchanges.lookup [] = some ex ∧ ex.type = ascii "direct" := by
    have hdef : (defaultExchanges.lookup []).map Exchange.type = some (ascii "direct") := by decide
    rw [← h.direct, Option.map_map, Option.map_eq_some_iff] at hdef
    exact hdef
  have hmatch : ∀ b, ex.matchesBinding k headers b = decide (b.routing_key = k) := by
    intro b
    unfold Exchange.matchesBinding
    rw [hhead]
    rfl
  have hbindings : s.bindingsOf [] = ex.bindings := by
    rw [bindingsOf, hex]
    rfl
  rw [routeMessage, hex]
  dsimp only
  have hroute : ∀ x ∈ ex.route k headers, x = k := by
    intro x hx
    obtain ⟨b, hb, rfl⟩ := List.mem_map.mp hx
    rw [List.mem_filter, hmatch, decide_eq_true_eq] at hb
    exact ((h.bindings b (hbindings ▸ hb.1)).1).symm.trans hb.2
  rw [eraseSeen_replicate hroute]
  by_cases hq : s.hasQueue k
  · obtain ⟨b, hb, hname⟩ := h.queues k hq
    have hmem : k ∈ ex.route k headers := by
      refine List.mem_map.mpr ⟨b, List.mem_filter.mpr ⟨hbindings ▸ hb, ?_⟩, hname⟩
      rw [hmatch, decide_eq_true_eq, (h.bindings b hb).1, hname]
    rw [if_pos hq, if_neg (List.ne_nil_of_mem hmem)]
  · have hnil : ex.route k headers = [] := by
      rw [List.eq_nil_iff_forall_not_mem]
      intro x hx
      have hxk := hroute x hx
      obtain ⟨b, hb, hname⟩ := List.mem_map.mp hx
      exact hq (hxk ▸ hname ▸ (h.bindings b (hbindings ▸ (List.mem_filter.mp hb).1)).2)
    rw [if_neg hq, if_pos hnil]

theorem DefaultBound.hasExchange (h : DefaultBound s) : s.hasExchange [] := by
  have hsome : (defaultExchanges.lookup []).isSome := by decide
  rwa [← h.direct, Option.isSome_map] at hsome

theorem DefaultBound.perform {op : VHostOp} (h : DefaultBound s) (hshort : op.Short) (hok : DefaultKept s op) :
    DefaultBound (s.perform op) := by
  cases op with
  | declareExchange name type passive durable autoDelete internal args =>
    rcases s.perform_declareExchange name type passive durable autoDelete internal args with heq | ⟨hnew, heq⟩
    · rw [heq]
      exact h
    · rw [heq]
      have hne : [] ≠ name := by
        rintro rfl
        have hthere := h.hasExchange
        rw [AmqpServer.hasExchange, hnew] at hthere
        cases hthere
      refine ⟨?_, fun name' hq => ?_, fun b hb => ?_⟩
      · rw [exchanges_logIf]
        exact (congrArg _ (Assoc.lookup_insert_of_ne hne)).trans h.direct
      · rw [bindingsOf_logIf, bindingsOf_insert hnew rfl]
        rw [hasQueue_logIf] at hq
        exact h.queues name' hq
      · rw [bindingsOf_logIf, bindingsOf_insert hnew rfl] at hb
        rw [hasQueue_logIf]
        exact h.bindings b hb
  | deleteExchange name =>
    rcases s.perform_deleteExchange name with heq | ⟨hres, heq⟩
    · rw [heq]
      exact h
    · rw [heq]
      have hne : [] ≠ name := by
        rintro rfl
        cases hres
      refine ⟨?_, fun name' hq => ?_, fun b hb => ?_⟩
      · rw [exchanges_logIf]
        exact (congrArg _ (Assoc.lookup_erase_of_ne hne)).trans h.direct
      · rw [bindingsOf_logIf, bindingsOf_erase, if_neg hne]
        rw [hasQueue_logIf] at hq
        exact h.queues name' hq
      · rw [bindingsOf_logIf, bindingsOf_erase, if_neg hne] at hb
        rw [hasQueue_logIf]
        exact h.bindings b hb
  | declareQueue name passive durable exclusive autoDelete args connectionId =>
    obtain ⟨n, heq | ⟨qname, -, -, -, heq⟩⟩ :=
      perform_declareQueue (s := s) hshort passive durable exclusive autoDelete args connectionId
    · rw [heq]
      exact ⟨h.direct, h.queues, h.bindings⟩
    · rw [heq]
      refine ⟨?_, fun name' hq => ?_, fun b hb => ?_⟩
      · rw [exchanges_logIf]
        exact (head_modify (fun ex => head_addBinding ex ..) ..).trans h.direct
      · simp only [mem_bindingsOf_insert]
        rw [hasQueue_insert] at hq
        rcases hq with rfl | hq
        · exact ⟨defaultBinding name', .inr ⟨trivial, h.hasExchange, rfl⟩, rfl⟩
        · obtain ⟨b, hb, hname⟩ := h.queues name' hq
          exact ⟨b, .inl hb, hname⟩
      · rw [mem_bindingsOf_insert] at hb
        rw [hasQueue_insert]
        rcases hb with hb | ⟨-, -, rfl⟩
        · exact ⟨(h.bindings b hb).1, .inr (h.bindings b hb).2⟩
        · exact ⟨rfl, .inl rfl⟩
  | deleteQueue name ifUnused ifEmpty =>
    rcases s.perform_deleteQueue name ifUnused ifEmpty with heq | heq
    · rw [heq]
      exact h
    · rw [heq]
      refine ⟨?_, fun name' hq => ?_, fun b hb => ?_⟩
      · rw [exchanges_logIf]
        change ((s.exchanges.map fun ex => ex.removeBindingsOf name).lookup []).map Exchange.head = _
        rw [Assoc.lookup_map, Option.map_map, ← h.direct]
        congr 1
        funext ex
        rw [Function.comp_apply, Exchange.removeBindingsOf_eq]
        rfl
      · rw [hasQueue_delete] at hq
        obtain ⟨b, hb, hname⟩ := h.queues name' hq.2
        refine ⟨b, ?_, hname⟩
        rw [bindingsOf_delete, List.mem_filter, decide_eq_true_eq, hname]
        exact ⟨hb, hq.1⟩
      · rw [bindingsOf_delete, List.mem_filter, decide_eq_true_eq] at hb
        rw [hasQueue_delete]
        exact ⟨(h.bindings b hb.1).1, hb.2, (h.bindings b hb.1).2⟩
  | bindQueue queue exchange routingKey args =>
    rcases s.perform_bindQueue queue exchange routingKey args with heq | ⟨-, hthere, heq⟩
    · rw [heq]
      exact h
    · rw [heq]
      have hsub : ∀ b ∈ s.bindingsOf [], b ∈ bindingsOf
          { s with exchanges := s.exchanges.modify exchange fun ex => ex.addBinding queue routingKey args } [] := by
        intro b hb
        rw [bindingsOf_addBinding]
        split
        · rename_i hex
          exact List.mem_append_left _ (hex.1 ▸ hb)
        · exact hb
      refine ⟨?_, fun name' hq => ?_, fun b hb => ?_⟩
      · rw [exchanges_logIf]
        exact (head_modify (fun ex => head_addBinding ex ..) ..).trans h.direct
      · rw [hasQueue_logIf] at hq
        obtain ⟨b, hb, hname⟩ := h.queues name' hq
        exact ⟨b, by rw [bindingsOf_logIf]; exact hsub b hb, hname⟩
      · rw [bindingsOf_logIf, bindingsOf_addBinding] at hb
        rw [hasQueue_logIf]
        split at hb
        · rename_i hex
          rcases List.mem_append.mp hb with hb | hb
          · exact h.bindings b (hex.1 ▸ hb)
          · obtain rfl := List.mem_singleton.mp hb
            exact ⟨hok hex.1.symm, hthere⟩
        · exact h.bindings b hb
  | unbindQueue queue exchange routingKey =>
    rcases s.perform_unbindQueue queue exchange routingKey with heq | heq
    · rw [heq]
      exact h
    · rw [heq]
      refine ⟨?_, fun name' hq => ?_, fun b hb => ?_⟩
      · rw [exchanges_logIf]
        exact (head_modify (fun ex => head_removeBinding ex ..) ..).trans h.direct
      · rw [hasQueue_logIf] at hq
        obtain ⟨b, hb, hname⟩ := h.queues name' hq
        refine ⟨b, ?_, hname⟩
        rw [bindingsOf_logIf, bindingsOf_removeBinding]
        split
        · rename_i hex
          rw [List.mem_filter, decide_eq_true_eq]
          refine ⟨hex ▸ hb, ?_⟩
          rintro ⟨hqueue, hrk⟩
          have hgone := hok hex.symm (by rw [← hrk, (h.bindings b hb).1, hqueue])
          have hthere := (h.bindings b hb).2
          rw [hqueue, hgone] at hthere
          cases hthere
        · exact hb
      · rw [bindingsOf_logIf, bindingsOf_removeBinding] at hb
        rw [hasQueue_logIf]
        split at hb
        · rename_i hex
          exact h.bindings b (hex ▸ (List.mem_filter.mp hb).1)
        · exact h.bindings b hb
  | removeConnectionQueues c =>
    obtain ⟨-, -, hbind, hhead⟩ := removeConnectionQueues_spec (s := s) c
    refine ⟨(hhead []).trans h.direct, fun name hq => ?_, fun b hb => ?_⟩
    · obtain ⟨hq, howns, -⟩ := (hasQueue_removeConnectionQueues c name).mp hq
      obtain ⟨b, hb, hname⟩ := h.queues name hq
      refine ⟨b, ?_, hname⟩
      change b ∈ (s.removeConnectionQueues c).bindingsOf []
      rw [hbind, List.mem_filter, hname, howns]
      exact ⟨hb, rfl⟩
    · change b ∈ (s.removeConnectionQueues c).bindingsOf [] at hb
      rw [hbind, List.mem_filter, Bool.not_eq_true'] at hb
      refine ⟨(h.bindings b hb.1).1, (hasQueue_removeConnectionQueues c _).mpr ⟨(h.bindings b hb.1).2, hb.2, ?_⟩⟩
      have hleft : s.leftAlone c = [] := hok
      rw [hleft]
      exact List.not_mem_nil
  | restart =>
    have hrec := recoveredFrom_restart s
    have hthere : (defaultExchanges.lookup []).isSome := by decide
    have hex : s.restart.hasExchange [] := (hrec.hasExchange []).mpr (.inl hthere)
    refine ⟨?_, fun name hq => ?_, fun b hb => ?_⟩
    · change (s.restart.exchanges.lookup []).map Exchange.head = _
      rw [hrec.exchanges, Option.or_of_isSome hthere]
    · obtain ⟨d, hd, rfl⟩ := (hrec.hasQueue name).mp hq
      exact ⟨defaultBinding d.name, (hrec.bindings [] _).mpr ⟨hex, .inr ⟨rfl, d, hd, rfl⟩⟩, rfl⟩
    · obtain ⟨-, ⟨sb, hsb, hex, rfl⟩ | ⟨-, d, hd, rfl⟩⟩ := (hrec.bindings [] b).mp hb
      · obtain ⟨hrk, hd⟩ := hok sb hsb hex
        exact ⟨hrk, (hrec.hasQueue _).mpr hd⟩
      · exact ⟨rfl, (hrec.hasQueue _).mpr ⟨d, hd, rfl⟩⟩

theorem defaultBound_start {store : Option MessageStore} (hstore : store = none ∨ store = some {}) :
    DefaultBound (start store userStore clock readings) := by
  have hrec : RecoveredFrom {} (start store userStore clock readings) := recoveredFrom_empty hstore
  refine ⟨?_, fun name hq => ?_, fun b hb => ?_⟩
  · rw [hrec.exchanges]
    exact Option.or_of_isSome (by decide)
  · obtain ⟨d, hd, -⟩ := (hrec.hasQueue name).mp hq
    cases hd
  · obtain ⟨-, ⟨sb, hsb, -⟩ | ⟨-, d, hd, -⟩⟩ := (hrec.bindings [] b).mp hb
    · cases hsb
    · cases hd

/-- In every state of every run whose operations leave the bindings of the default exchange alone, a message for the
    default exchange goes to exactly the queue with the name of its routing key. --/
theorem default_exchange_law {store : Option MessageStore} (hstore : store = none ∨ store = some {})
    (hrun : VHostRun DefaultKept (start store userStore clock readings) s) : DefaultLaw s := by
  refine DefaultBound.law (hrun.keeps (fun _ _ hshort hok h => h.perform hshort hok) ?_ (defaultBound_start hstore))
  intro c k s s' hk hm h
  have hsame := SameTopology.of_move hm hk
  refine ⟨by rw [hsame.exchanges]; exact h.direct, fun name hq => ?_, fun b hb => ?_⟩
  · rw [hsame.hasQueue] at hq
    rw [hsame.bindingsOf]
    exact h.queues name hq
  · rw [hsame.bindingsOf] at hb
    rw [hsame.hasQueue]
    exact h.bindings b hb

/-- A client binds its queue to the default exchange under the name of another queue. --/
def foreignBindRun : List VHostOp :=
  [.declareQueue (ascii "q") false true false false [] 1, .bindQueue (ascii "q") [] (ascii "k") []]

/-- Messages for a queue that does not exist go to the other queue. --/
theorem foreign_key_routed :
    VHostRun (fun _ _ => True) freshServer (foreignBindRun.foldl perform freshServer) ∧
      ¬DefaultLaw (foreignBindRun.foldl perform freshServer) := by
  refine ⟨.ops (by decide +kernel), fun h => ?_⟩
  have hlaw := h (ascii "k") none
  revert hlaw
  decide +kernel

theorem default_law_boundRun :
    DefaultLaw (boundRun.foldl perform freshServer) ∧ (boundRun.foldl perform freshServer).hasQueue (ascii "q") :=
  ⟨default_exchange_law (.inr rfl) (.ops (by decide +kernel)), by decide +kernel⟩

end AmqpServer
end Broko.Broker
