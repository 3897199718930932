import Broko.Theorems.Routing

/-! `unbindQueue` right after `bindQueue`. A binding has a queue, a key and arguments; `removeBinding` and the log go by the
    queue and the key, so what is taken away is every binding of the queue under the key, with whatever arguments. -/

namespace Broko.Broker
open Amqp Storage MessageStore FirstOccurrence

namespace AmqpServer

variable {s s' : AmqpServer} {queue exchange key : Bytes} {args : FieldTable}

/-- Whether `removeBinding` takes the binding. --/
def underKey (queue key : Bytes) (b : Binding) : Bool := b.queue_name = queue ∧ b.routing_key = key

/-- The state after the bind and the unbind. --/
def rebound (s : AmqpServer) (queue exchange key : Bytes) (args : FieldTable) : AmqpServer :=
  (s.perform (.bindQueue queue exchange key args)).perform (.unbindQueue queue exchange key)

/-- Messages are routed as before, and a new process gets the same bindings. --/
structure SameBindings (s s' : AmqpServer) : Prop where
  route : ∀ exchange routingKey headers, s'.routeMessage exchange routingKey headers = s.routeMessage exchange routingKey headers
  logged : s'.logged.bindings = s.logged.bindings

/-- The log has no binding of the queue under the key, and no message misses those that the exchange has: where one of them is
    the first match for the queue, another match for it comes before any for a queue not met yet. --/
structure Unmissed (s : AmqpServer) (queue exchange key : Bytes) (ex : Exchange) : Prop where
  spared : ∀ routingKey headers, Spared Binding.queue_name (underKey queue key) queue
    (ex.bindings.filter (ex.matchesBinding routingKey headers))
  logged : { queue, exchange, routing_key := key } ∉ s.logged.bindings

theorem unmissed_of_unbound {ex : Exchange} (hb : ∀ b ∈ ex.bindings, underKey queue key b = false)
    (hlog : { queue, exchange, routing_key := key } ∉ s.logged.bindings) : Unmissed s queue exchange key ex :=
  ⟨fun _ _ => spared_of_none fun b hmem => hb b (List.mem_filter.mp hmem).1, hlog⟩

/-! ### The exchanges -/

theorem rebound_of_none (h : s.exchanges.lookup exchange = none) : s.rebound queue exchange key args = s := by
  rw [rebound, perform, bindQueue, h, orElse, perform, unbindQueue, h, orElse]

theorem lookup_unbindQueue {ex : Exchange} (h : s.exchanges.lookup exchange = some ex) (name : Bytes) :
    (s.perform (.unbindQueue queue exchange key)).exchanges.lookup name =
      if name = exchange then some (ex.removeBinding queue key) else s.exchanges.lookup name := by
  rw [perform, unbindQueue, h, orElse, modifyStore, Assoc.lookup_modify, h]
  rfl

theorem lookup_bindQueue {ex : Exchange} (h : s.exchanges.lookup exchange = some ex) (queue key : Bytes) (args : FieldTable) :
    ∃ ex', ex'.removeBinding queue key = ex.removeBinding queue key ∧ ∀ name,
      (s.perform (.bindQueue queue exchange key args)).exchanges.lookup name =
        if name = exchange then some ex' else s.exchanges.lookup name := by
  rw [perform]
  cases hbind : s.bindQueue queue exchange key args with
  | error e =>
    refine ⟨ex, rfl, fun name => ?_⟩
    rw [orElse]
    split
    · rename_i hname
      rw [hname, h]
    · rfl
  | ok s₁ =>
    obtain ⟨-, -, rfl⟩ := bindQueue_eq_ok.mp hbind
    refine ⟨ex.addBinding queue key args, ?_, fun name => ?_⟩
    · rw [Exchange.removeBinding, Exchange.removeBinding, Exchange.addBinding, Exchange.mk.injEq]
      simp
    · rw [orElse, exchanges_logIf, Assoc.lookup_modify, h]
      rfl

/-- Only the exchange of the two requests changes: it loses the bindings of the queue under the key. --/
theorem lookup_rebound {ex : Exchange} (h : s.exchanges.lookup exchange = some ex) (queue key : Bytes) (args : FieldTable)
    (name : Bytes) :
    (s.rebound queue exchange key args).exchanges.lookup name =
      if name = exchange then some (ex.removeBinding queue key) else s.exchanges.lookup name := by
  obtain ⟨ex', hsame, hlookup⟩ := lookup_bindQueue h queue key args
  have hex' := hlookup exchange
  rw [if_pos rfl] at hex'
  rw [rebound, lookup_unbindQueue hex', hsame, hlookup]
  split
  · rfl
  · rfl

theorem removeBinding_eq (ex : Exchange) (queue key : Bytes) :
    ex.removeBinding queue key = { ex with bindings := ex.bindings.filter fun b => !underKey queue key b } := by
  rw [Exchange.removeBinding, Exchange.mk.injEq]
  simp [underKey]

theorem routeMessage_rebound {ex : Exchange} (h : s.exchanges.lookup exchange = some ex) (routingKey : Bytes)
    (headers : Option FieldTable) :
    (s.rebound queue exchange key args).routeMessage exchange routingKey headers = s.routeMessage exchange routingKey headers ↔
      Spared Binding.queue_name (underKey queue key) queue (ex.bindings.filter (ex.matchesBinding routingKey headers)) := by
  have hafter := lookup_rebound h queue key args exchange
  rw [if_pos rfl, removeBinding_eq] at hafter
  rw [routeMessage_eq hafter, routeMessage_eq h]
  exact names_filter_iff fun b _ hb => (of_decide_eq_true hb).1

theorem routeMessage_rebound_of_ne {ex : Exchange} (h : s.exchanges.lookup exchange = some ex) {name : Bytes}
    (hne : name ≠ exchange) (routingKey : Bytes) (headers : Option FieldTable) :
    (s.rebound queue exchange key args).routeMessage name routingKey headers = s.routeMessage name routingKey headers := by
  rw [routeMessage, lookup_rebound h, if_neg hne, routeMessage]

/-! ### The log -/

/-- An entry is appended to a log that ends on an entry boundary, or there is no log. --/
theorem bindings_append (hstore : ∀ st, s.store = some st → Whole st) {e : Entry} (hm : e.message? = none) (he : e.Storable) :
    (∀ st, (s.modifyStore fun st => st.append e).store = some st → Whole st) ∧
      (s.modifyStore fun st => st.append e).logged.bindings = s.logged.bindings.filter (fun b => !e.removesBinding b) ++
        if s.store.isSome then e.binding?.toList else [] := by
  cases hst : s.store with
  | none =>
    have hnone : (s.modifyStore fun st => st.append e).store = none := by rw [modifyStore, hst, Option.map_none]
    refine ⟨fun st hsome => ?_, ?_⟩
    · rw [hnone] at hsome
      cases hsome
    · rw [logged, logged, hnone, hst]
      rfl
  | some st =>
    obtain ⟨⟨st', hst', hwhole⟩, hlog⟩ := logged_append ⟨st, hst, hstore st hst⟩ hm he
    refine ⟨fun st'' hsome => ?_, congrArg Contents.bindings hlog⟩
    rw [hst'] at hsome
    exact Option.some.inj hsome ▸ hwhole

theorem removesBinding_unbind (u b : StoredBinding) : (Entry.unbind u).removesBinding b = decide (b = u) := by
  obtain ⟨queue, exchange, routing_key⟩ := u
  obtain ⟨queue', exchange', routing_key'⟩ := b
  rw [Entry.removesBinding, decide_eq_decide, StoredBinding.mk.injEq]

theorem bindings_unbindQueue (hstore : ∀ st, s.store = some st → Whole st)
    (hshort : (VHostOp.unbindQueue queue exchange key).Short) (hex : s.hasExchange exchange) :
    (s.perform (.unbindQueue queue exchange key)).logged.bindings =
      s.logged.bindings.filter fun b => b ≠ { queue, exchange, routing_key := key } := by
  obtain ⟨ex, hlookup⟩ := Option.isSome_iff_exists.mp hex
  obtain ⟨-, hlog⟩ := bindings_append
    (s := { s with exchanges := s.exchanges.modify exchange fun ex => ex.removeBinding queue key })
    (e := .unbind { queue, exchange, routing_key := key }) hstore rfl
    (storable_of_length rfl (length_unbind hshort.1 hshort.2.1 hshort.2.2))
  rw [perform, unbindQueue, hlookup, orElse]
  refine hlog.trans ?_
  simp only [removesBinding_unbind, Entry.binding?, Option.toList_none, ite_self, List.append_nil, decide_not]
  rfl

theorem bindings_bindQueue (hstore : ∀ st, s.store = some st → Whole st)
    (hshort : (VHostOp.unbindQueue queue exchange key).Short) (args : FieldTable) :
    (∀ st, (s.perform (.bindQueue queue exchange key args)).store = some st → Whole st) ∧
      ∃ l : List StoredBinding, (∀ b ∈ l, b = { queue, exchange, routing_key := key }) ∧
        (s.perform (.bindQueue queue exchange key args)).logged.bindings = s.logged.bindings ++ l := by
  rw [perform]
  cases hbind : s.bindQueue queue exchange key args with
  | error e => exact ⟨hstore, [], List.forall_mem_nil _, (List.append_nil _).symm⟩
  | ok s₁ =>
    obtain ⟨-, -, rfl⟩ := bindQueue_eq_ok.mp hbind
    obtain ⟨hwhole, hlog⟩ := bindings_append
      (s := { s with exchanges := s.exchanges.modify exchange fun ex => ex.addBinding queue key args })
      (e := .binding { queue, exchange, routing_key := key }) hstore rfl
      (storable_of_length rfl (length_binding hshort.1 hshort.2.1 hshort.2.2))
    refine ⟨hwhole, if s.store.isSome then [{ queue, exchange, routing_key := key }] else [], fun b hb => ?_, hlog.trans ?_⟩
    · cases hsome : s.store.isSome with
      | true => simpa [hsome] using hb
      | false => simp [hsome] at hb
    · exact congrArg (· ++ _) (List.filter_eq_self.mpr fun _ _ => rfl)

theorem bindings_rebound (hstore : ∀ st, s.store = some st → Whole st)
    (hshort : (VHostOp.unbindQueue queue exchange key).Short) (hex : s.hasExchange exchange) (args : FieldTable) :
    (s.rebound queue exchange key args).logged.bindings =
      s.logged.bindings.filter fun b => b ≠ { queue, exchange, routing_key := key } := by
  obtain ⟨hwhole, l, hl, hlog⟩ := bindings_bindQueue hstore hshort args
  have hex' : (s.perform (.bindQueue queue exchange key args)).hasExchange exchange := by
    obtain ⟨ex, hlookup⟩ := Option.isSome_iff_exists.mp hex
    obtain ⟨ex', -, hafter⟩ := lookup_bindQueue hlookup queue key args
    rw [hasExchange, hafter, if_pos rfl, Option.isSome_some]
  have hgone : l.filter (fun b => b ≠ { queue, exchange, routing_key := key }) = [] :=
    List.filter_eq_nil_iff.mpr fun b hb => by simp [hl b hb]
  rw [rebound, bindings_unbindQueue hwhole hshort hex', hlog, List.filter_append, hgone, List.append_nil]

/-- The bind and the unbind together change nothing, exactly if the bindings that the second one takes besides that of the first are
    not missed. --/
theorem rebound_sameBindings_iff (hstore : ∀ st, s.store = some st → Whole st)
    (hshort : (VHostOp.unbindQueue queue exchange key).Short) (args : FieldTable) :
    SameBindings s (s.rebound queue exchange key args) ↔
      ∀ ex, s.exchanges.lookup exchange = some ex → Unmissed s queue exchange key ex := by
  cases hex : s.exchanges.lookup exchange with
  | none =>
    rw [rebound_of_none hex]
    exact iff_of_true ⟨fun _ _ _ => rfl, rfl⟩ nofun
  | some ex =>
    have hlog := bindings_rebound hstore hshort (Option.isSome_iff_exists.mpr ⟨ex, hex⟩) args
    constructor
    · rintro ⟨hroute, hsame⟩ ex' hex'
      obtain rfl := Option.some.inj hex'
      refine ⟨fun routingKey headers => (routeMessage_rebound hex routingKey headers).mp (hroute _ _ _), fun hmem => ?_⟩
      rw [← hsame, hlog] at hmem
      exact of_decide_eq_true (List.mem_filter.mp hmem).2 rfl
    · intro h
      obtain ⟨hspared, hnot⟩ := h ex rfl
      refine ⟨fun name routingKey headers => ?_, ?_⟩
      · by_cases hname : name = exchange
        · rw [hname]
          exact (routeMessage_rebound hex routingKey headers).mpr (hspared routingKey headers)
        · exact routeMessage_rebound_of_ne hex hname routingKey headers
      · rw [hlog]
        exact List.filter_eq_self.mpr fun b hb => decide_eq_true fun heq => hnot (heq ▸ hb)

/-- A queue is bound for red messages. --/
def redBound : List VHostOp :=
  [.declareQueue (ascii "q") false true false false [] 1,
   .bindQueue (ascii "q") (ascii "amq.headers") (ascii "k") [(ascii "red", .boolean true)]]

theorem whole_redBound : ∀ st, (redBound.foldl perform freshServer).store = some st → Whole st := fun st hst => by
  have hrest : (redBound.foldl perform freshServer).store.map (fun st => st.replay.2.2) = some [] := by decide +kernel
  rw [hst, Option.map_some] at hrest
  exact Option.some.inj hrest

/-- Nothing else is bound under the key of the two requests. --/
theorem rebound_redBound : SameBindings (redBound.foldl perform freshServer)
    ((redBound.foldl perform freshServer).rebound (ascii "q") (ascii "amq.headers") (ascii "l") []) := by
  refine (rebound_sameBindings_iff whole_redBound (by decide) []).mpr fun ex hex => unmissed_of_unbound (fun b hb => ?_) ?_
  · have hfree : ((redBound.foldl perform freshServer).bindingsOf (ascii "amq.headers")).all
        (fun b => !underKey (ascii "q") (ascii "l") b) = true := by decide +kernel
    simpa using List.all_eq_true.mp hfree b (mem_bindingsOf.mpr ⟨ex, hex, hb⟩)
  · decide +kernel

/-- The queue is bound and unbound for large messages, under the same key: the red ones do not come any more. --/
theorem unbind_takes_others :
    (∀ b ∈ (redBound.foldl perform freshServer).bindingsOf (ascii "amq.headers"),
      b ≠ { queue_name := ascii "q", routing_key := ascii "k", arguments := [(ascii "large", .boolean true)] }) ∧
    (redBound.foldl perform freshServer).routeMessage (ascii "amq.headers") [] (some [(ascii "red", .boolean true)]) =
      [ascii "q"] ∧
    ((redBound.foldl perform freshServer).rebound (ascii "q") (ascii "amq.headers") (ascii "k")
      [(ascii "large", .boolean true)]).routeMessage (ascii "amq.headers") [] (some [(ascii "red", .boolean true)]) = [] ∧
    (redBound.foldl perform freshServer).logged.bindings =
      [{ queue := ascii "q", exchange := ascii "amq.headers", routing_key := ascii "k" }] ∧
    ((redBound.foldl perform freshServer).rebound (ascii "q") (ascii "amq.headers") (ascii "k")
      [(ascii "large", .boolean true)]).logged.bindings = [] := by
  refine ⟨?_, by decide +kernel, by decide +kernel, by decide +kernel, by decide +kernel⟩
  have hred : ((redBound.foldl perform freshServer).bindingsOf (ascii "amq.headers")).all
      (fun b => !(b.arguments.map Prod.fst).contains (ascii "large")) = true := by decide +kernel
  rintro b hb rfl
  exact absurd (List.all_eq_true.mp hred _ hb) (by decide)

end AmqpServer
end Broko.Broker
