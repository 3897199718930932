import Broko.Theorems.Recovery
import Broko.Theorems.Routing

/-! Binds that are repeated. Two lists of bindings that no test tells apart route alike, and stay so under everything that the
    virtual host does with bindings. After a restart the bindings come from the log, where a repeated bind has an entry of
    its own each time. -/

namespace Broko.Storage
open Amqp FirstOccurrence MessageStore

/-! ### Logs -/

/-- The same was recovered but for the bindings, and no test tells these apart. --/
structure RecoveryData.BindsAlike (data data' : RecoveryData) : Prop where
  rest : data' = { data with bindings := data'.bindings }
  bindings : Alike StoredBinding.queue data.bindings data'.bindings

namespace RecoveryData.BindsAlike
variable {data data₁ data' : RecoveryData}

theorem refl (data : RecoveryData) : BindsAlike data data := ⟨rfl, .refl _⟩

theorem trans (h₁ : BindsAlike data data₁) (h₂ : BindsAlike data₁ data') : BindsAlike data data' :=
  ⟨h₂.rest.trans (congrArg (fun d : RecoveryData => { d with bindings := data'.bindings }) h₁.rest),
    h₁.bindings.trans h₂.bindings⟩

theorem apply (h : BindsAlike data data') (e : Entry) : BindsAlike (data.apply e) (data'.apply e) := by
  obtain ⟨hrest, hbindings⟩ := h
  generalize data'.bindings = bindings at hrest hbindings
  subst hrest
  cases e with
  | message m => exact ⟨rfl, hbindings⟩
  | ack id queue => exact ⟨rfl, hbindings⟩
  | queueDeclare d => exact ⟨rfl, hbindings⟩
  | exchangeDeclare d => exact ⟨rfl, hbindings⟩
  | binding b => exact ⟨rfl, hbindings.concat b⟩
  | queueDelete name => exact ⟨rfl, hbindings.filter _⟩
  | exchangeDelete name => exact ⟨rfl, hbindings.filter _⟩
  | unbind u => exact ⟨rfl, hbindings.filter _⟩

theorem foldl (h : BindsAlike data data') (es : List Entry) :
    BindsAlike (es.foldl RecoveryData.apply data) (es.foldl RecoveryData.apply data') := by
  induction es generalizing data data' with
  | nil => exact h
  | cons e es ih => exact ih (h.apply e)

theorem applyAcks (h : BindsAlike data data') : BindsAlike data.applyAcks data'.applyAcks := by
  obtain ⟨hrest, hbindings⟩ := h
  generalize data'.bindings = bindings at hrest hbindings
  subst hrest
  exact ⟨rfl, hbindings⟩

end RecoveryData.BindsAlike

namespace MessageStore

/-- Whatever is written behind them, the logs give the same but for bindings that no test tells apart. --/
def LogsAlike : Option MessageStore → Option MessageStore → Prop :=
  Option.Rel fun st st' => ∀ rest : Bytes,
    (recovered (parse (st.wal ++ rest)).1).BindsAlike (recovered (parse (st'.wal ++ rest)).1)

/-- The log ends on an entry boundary, and has the binding. --/
def HasBinding (b : StoredBinding) (st : MessageStore) : Prop :=
  Whole st ∧ b ∈ ((parse st.wal).1.foldl RecoveryData.apply {}).bindings

variable {x y z : Option MessageStore} {b : StoredBinding} {st : MessageStore}

namespace LogsAlike

theorem refl (x : Option MessageStore) : LogsAlike x x := by
  cases x with
  | none => exact .none
  | some st => exact .some fun rest => .refl _

theorem trans (h₁ : LogsAlike x y) (h₂ : LogsAlike y z) : LogsAlike x z := by
  cases h₁ with
  | none => exact h₂
  | some h₁ =>
    cases h₂ with
    | some h₂ => exact .some fun rest => (h₁ rest).trans (h₂ rest)

theorem append (h : LogsAlike x y) (e : Entry) :
    LogsAlike (x.map fun st => st.append e) (y.map fun st => st.append e) := by
  cases h with
  | none => exact .none
  | some h =>
    refine .some fun rest => ?_
    have hrest := h (e.write ++ rest)
    rwa [← List.append_assoc, ← List.append_assoc] at hrest

theorem of_wal {st st' st₁ st₁' : MessageStore} (h : LogsAlike (some st) (some st')) (hwal : st₁.wal = st.wal)
    (hwal' : st₁'.wal = st'.wal) : LogsAlike (some st₁) (some st₁') := by
  cases h with
  | some h =>
    refine .some fun rest => ?_
    rw [hwal, hwal']
    exact h rest

end LogsAlike

theorem parse_append_write (hwhole : Whole st) {e : Entry} (he : e.Storable) (rest : Bytes) :
    parse ((st.append e).wal ++ rest) = ((parse st.wal).1 ++ e :: (parse rest).1, (parse rest).2) := by
  rw [MessageStore.append, List.append_assoc, parse_append (whole_iff.mp hwhole), parse_write he]

theorem hasBinding_append (hwhole : Whole st) (hb : (Entry.binding b).Storable) : HasBinding b (st.append (.binding b)) := by
  have hparse := parse_append_write hwhole hb []
  rw [List.append_nil, parse_nil] at hparse
  refine ⟨whole_iff.mpr (by rw [hparse]), ?_⟩
  rw [hparse, List.foldl_append]
  exact List.mem_append_right _ (List.mem_singleton_self b)

/-- An entry of a binding that the log has. --/
theorem logsAlike_again (h : HasBinding b st) (hb : (Entry.binding b).Storable) :
    LogsAlike (some st) (some (st.append (.binding b))) := by
  refine .some fun rest => ?_
  rw [parse_append_write h.1 hb, parse_append (whole_iff.mp h.1), recovered, recovered, List.foldl_append, List.foldl_append]
  exact (RecoveryData.BindsAlike.foldl ⟨rfl, .again h.2⟩ _).applyAcks

end MessageStore
end Broko.Storage

namespace Broko.Broker
open Amqp Storage FirstOccurrence MessageStore

namespace AmqpServer

variable {P : Prop} {s s₁ s' : AmqpServer} {queue exchange routingKey : Bytes} {args : FieldTable}

/-! ### Recovery -/

theorem collectExpired_update (s : AmqpServer) (name : Bytes) (exchanges : Assoc Bytes Exchange) (store : Option MessageStore) :
    (collectExpired { s with exchanges := exchanges, store := store } name).2 =
      { (s.collectExpired name).2 with exchanges := exchanges, store := store } := by
  rw [collectExpired, collectExpired, show queue { s with exchanges := exchanges, store := store } name = s.queue name from rfl]
  cases s.queue name with
  | none => rfl
  | some q =>
    dsimp only
    rw [show hasPerMessageTtl { s with exchanges := exchanges, store := store } q = s.hasPerMessageTtl q from rfl]
    split <;> rfl

/-- A recovered message finds no consumer and no dead letters, so neither exchanges nor log play a part. --/
theorem recoverMessage_update {data : RecoveryData} (h : HoldsLogged data s) {sm : StoredMessage}
    (hsm : sm ∈ data.messages) (exchanges : Assoc Bytes Exchange) (store : Option MessageStore) :
    recoverMessage { s with exchanges := exchanges, store := store } sm =
      { s.recoverMessage sm with exchanges := exchanges, store := store } := by
  rw [AmqpServer.recoverMessage, AmqpServer.recoverMessage,
    show queue { s with exchanges := exchanges, store := store } sm.queue_name = s.queue sm.queue_name from rfl]
  cases hq : s.queue sm.queue_name with
  | none => rfl
  | some q =>
    have hnew := h.newRecovered sm
    have hother : HoldsLogged data ((newMessage { s with exchanges := exchanges, store := store } (recoveredMessage sm)).record
      [.stored s.heap.size sm.queue_name sm.id]) := hnew
    dsimp only
    rw [deliverToQueue, deliverToQueue, dlxFuel, dlxFuel]
    have hone := hnew.enqueueLoop_eq (Nat.lt_succ_self _) hsm rfl (HoldsLogged.frame_newRecovered sm) hq
    have htwo := hother.enqueueLoop_eq (Nat.lt_succ_self _) hsm rfl (HoldsLogged.frame_newRecovered sm) hq
    exact (htwo _).trans ((collectExpired_update ..).trans
      (congrArg (fun x : AmqpServer => { x with exchanges := exchanges, store := store }) (hone _).symm))

theorem foldl_recoverBinding_eq (bs : List StoredBinding) (s : AmqpServer) :
    bs.foldl recoverBinding s = { s with exchanges := (bs.foldl recoverBinding s).exchanges } := by
  induction bs generalizing s with
  | nil => rfl
  | cons sb bs ih => exact ih (s.recoverBinding sb)

/-! ### States that route alike -/

/-- The exchanges are the same but for their bindings, and no test tells these apart. If it matters, the logs are alike. All
    the rest is the same. --/
structure RoutesAlike (P : Prop) (s s' : AmqpServer) : Prop where
  head : ∀ name, (s'.exchanges.lookup name).map Exchange.head = (s.exchanges.lookup name).map Exchange.head
  bindings : ∀ name, Alike Binding.queue_name (s.bindingsOf name) (s'.bindingsOf name)
  rest : s' = { s with exchanges := s'.exchanges, store := s'.store }
  store : P → LogsAlike s.store s'.store

namespace RoutesAlike

theorem refl (s : AmqpServer) : RoutesAlike P s s := ⟨fun _ => rfl, fun _ => .refl _, rfl, fun _ => .refl _⟩

theorem trans (h₁ : RoutesAlike P s s₁) (h₂ : RoutesAlike P s₁ s') : RoutesAlike P s s' :=
  ⟨fun name => (h₂.head name).trans (h₁.head name), fun name => (h₁.bindings name).trans (h₂.bindings name),
    h₂.rest.trans (congrArg (fun x : AmqpServer => { x with exchanges := s'.exchanges, store := s'.store }) h₁.rest),
    fun hP => (h₁.store hP).trans (h₂.store hP)⟩

theorem queue_eq (h : RoutesAlike P s s') (name : Bytes) : s'.queue name = s.queue name := by
  rw [h.rest]
  rfl

theorem lookup_none (h : RoutesAlike P s s') {name : Bytes} (hnone : s.exchanges.lookup name = none) :
    s'.exchanges.lookup name = none := by
  have hhead := h.head name
  rwa [hnone, Option.map_none, Option.map_eq_none_iff] at hhead

theorem lookup_some (h : RoutesAlike P s s') {name : Bytes} {ex : Exchange} (hex : s.exchanges.lookup name = some ex) :
    ∃ ex', s'.exchanges.lookup name = some ex' ∧ ex'.head = ex.head ∧
      Alike Binding.queue_name ex.bindings ex'.bindings := by
  have hhead := h.head name
  rw [hex, Option.map_some, Option.map_eq_some_iff] at hhead
  obtain ⟨ex', hex', heq⟩ := hhead
  have hbindings := h.bindings name
  rw [bindingsOf, bindingsOf, hex, hex'] at hbindings
  exact ⟨ex', hex', heq, hbindings⟩

theorem routeMessage_eq (h : RoutesAlike P s s') (exchange routingKey : Bytes) (headers : Option FieldTable) :
    s'.routeMessage exchange routingKey headers = s.routeMessage exchange routingKey headers := by
  cases hex : s.exchanges.lookup exchange with
  | none => rw [routeMessage, routeMessage, hex, h.lookup_none hex]
  | some ex =>
    obtain ⟨ex', hex', hhead, halike⟩ := h.lookup_some hex
    have hmatch : ex'.matchesBinding routingKey headers = ex.matchesBinding routingKey headers := by
      funext b
      rw [Exchange.matchesBinding_of_class, Exchange.matchesBinding_of_class, Exchange.type_of_head hhead]
    rw [AmqpServer.routeMessage_eq hex, AmqpServer.routeMessage_eq hex', hmatch]
    exact (halike _).symm

/-! What an update of the exchanges, of the log or of something else keeps. -/

/-- An update that has nothing to do with exchanges and log. --/
theorem update (h : RoutesAlike P s s') {f : AmqpServer → AmqpServer}
    (hf : ∀ exchanges store, f { s with exchanges := exchanges, store := store } =
      { f s with exchanges := exchanges, store := store }) : RoutesAlike P (f s) (f s') := by
  have hself : f s = { f s with exchanges := s.exchanges, store := s.store } := hf s.exchanges s.store
  have hother : f s' = { f s with exchanges := s'.exchanges, store := s'.store } :=
    (congrArg f h.rest).trans (hf s'.exchanges s'.store)
  rw [hself, hother]
  exact ⟨h.head, h.bindings, rfl, h.store⟩

theorem of_exchanges (h : RoutesAlike P s s') {exchanges exchanges' : Assoc Bytes Exchange}
    (hhead : ∀ name, (exchanges'.lookup name).map Exchange.head = (exchanges.lookup name).map Exchange.head)
    (hbindings : ∀ name, Alike Binding.queue_name (bindingsOf { s with exchanges := exchanges } name)
      (bindingsOf { s' with exchanges := exchanges' } name)) :
    RoutesAlike P { s with exchanges := exchanges } { s' with exchanges := exchanges' } :=
  ⟨hhead, hbindings, congrArg (fun x : AmqpServer => { x with exchanges := exchanges' }) h.rest, h.store⟩

theorem logIf (h : RoutesAlike P s s') (p : Bool) (e : Entry) : RoutesAlike P (s.logIf p e) (s'.logIf p e) := by
  cases p with
  | false => exact h
  | true =>
    refine ⟨h.head, h.bindings, ?_, fun hP => (h.store hP).append e⟩
    exact congrArg (fun x : AmqpServer => { x with store := s'.store.map fun st : MessageStore => st.append e }) h.rest

theorem insert (h : RoutesAlike P s s') {name : Bytes} (ex : Exchange) (hnew : s.exchanges.lookup name = none)
    (hb : ex.bindings = []) : RoutesAlike P { s with exchanges := s.exchanges.insert name ex }
      { s' with exchanges := s'.exchanges.insert name ex } := by
  refine h.of_exchanges (fun name' => ?_) fun name' => ?_
  · by_cases hname : name' = name
    · rw [hname, Assoc.lookup_insert_self, Assoc.lookup_insert_self]
    · rw [Assoc.lookup_insert_of_ne hname, Assoc.lookup_insert_of_ne hname, h.head]
  · rw [bindingsOf_insert hnew hb, bindingsOf_insert (h.lookup_none hnew) hb]
    exact h.bindings name'

theorem erase (h : RoutesAlike P s s') (name : Bytes) : RoutesAlike P { s with exchanges := s.exchanges.erase name }
    { s' with exchanges := s'.exchanges.erase name } := by
  refine h.of_exchanges (fun name' => ?_) fun name' => ?_
  · by_cases hname : name' = name
    · rw [hname, Assoc.lookup_erase_self, Assoc.lookup_erase_self]
    · rw [Assoc.lookup_erase_of_ne hname, Assoc.lookup_erase_of_ne hname, h.head]
  · rw [bindingsOf_erase, bindingsOf_erase]
    split
    · exact .refl _
    · exact h.bindings name'

theorem modify (h : RoutesAlike P s s') (name : Bytes) {f : Exchange → Exchange} (hf : ∀ ex, (f ex).head = ex.head)
    (hb : ∀ name', Alike Binding.queue_name (bindingsOf { s with exchanges := s.exchanges.modify name f } name')
      (bindingsOf { s' with exchanges := s'.exchanges.modify name f } name')) :
    RoutesAlike P { s with exchanges := s.exchanges.modify name f } { s' with exchanges := s'.exchanges.modify name f } := by
  refine h.of_exchanges (fun name' => ?_) hb
  rw [head_modify hf, head_modify hf, h.head]

theorem hasExchange (h : RoutesAlike P s s') (name : Bytes) : s'.hasExchange name = s.hasExchange name :=
  hasExchange_of_head h.head name

theorem addBinding (h : RoutesAlike P s s') (name queue routingKey : Bytes) (args : FieldTable) :
    RoutesAlike P { s with exchanges := s.exchanges.modify name fun ex => ex.addBinding queue routingKey args }
      { s' with exchanges := s'.exchanges.modify name fun ex => ex.addBinding queue routingKey args } := by
  refine h.modify name (fun _ => rfl) fun name' => ?_
  rw [bindingsOf_addBinding, bindingsOf_addBinding, h.hasExchange]
  split
  · exact (h.bindings name).concat _
  · exact h.bindings name'

theorem removeBinding (h : RoutesAlike P s s') (name queue routingKey : Bytes) :
    RoutesAlike P { s with exchanges := s.exchanges.modify name fun ex => ex.removeBinding queue routingKey }
      { s' with exchanges := s'.exchanges.modify name fun ex => ex.removeBinding queue routingKey } := by
  refine h.modify name (fun _ => rfl) fun name' => ?_
  rw [bindingsOf_removeBinding, bindingsOf_removeBinding]
  split
  · exact (h.bindings name).filter _
  · exact h.bindings name'

theorem removeBindingsOf (h : RoutesAlike P s s') (name : Bytes) :
    RoutesAlike P (s.removeBindingsOf name) (s'.removeBindingsOf name) := by
  refine h.of_exchanges (fun name' => ?_) fun name' => ?_
  · have hcomp : (Exchange.head ∘ fun ex => ex.removeBindingsOf name) = Exchange.head := by
      funext ex
      rw [Function.comp_apply, Exchange.removeBindingsOf_eq]
      rfl
    rw [Assoc.lookup_map, Assoc.lookup_map, Option.map_map, Option.map_map, hcomp, h.head]
  · have hof := fun s : AmqpServer => bindingsOf_removeBindingsOf (s := s) name name'
    have hs := hof s
    have hs' := hof s'
    rw [AmqpServer.removeBindingsOf] at hs hs'
    rw [hs, hs']
    exact (h.bindings name').filter _

theorem insertQueue (h : RoutesAlike P s s') (name : Bytes) (q : MessageQueue) :
    RoutesAlike P { s with queues := s.queues.insert name q } { s' with queues := s'.queues.insert name q } :=
  h.update (f := fun x => { x with queues := x.queues.insert name q }) fun _ _ => rfl

theorem eraseQueue (h : RoutesAlike P s s') (name : Bytes) :
    RoutesAlike P { s with queues := s.queues.erase name } { s' with queues := s'.queues.erase name } :=
  h.update (f := fun x => { x with queues := x.queues.erase name }) fun _ _ => rfl

theorem foldl {α : Type} {f : AmqpServer → α → AmqpServer}
    (hf : ∀ {s s'} a, RoutesAlike P s s' → RoutesAlike P (f s a) (f s' a)) (l : List α) (h : RoutesAlike P s s') :
    RoutesAlike P (l.foldl f s) (l.foldl f s') := by
  induction l generalizing s s' with
  | nil => exact h
  | cons a l ih => exact ih (hf a h)

/-! The operations take the same branch in both states. -/

theorem declareExchange (h : RoutesAlike P s s') (name type : Bytes) (passive durable autoDelete internal : Bool)
    (args : FieldTable) : RoutesAlike P (s.perform (.declareExchange name type passive durable autoDelete internal args))
      (s'.perform (.declareExchange name type passive durable autoDelete internal args)) := by
  rw [perform, perform, AmqpServer.declareExchange, AmqpServer.declareExchange]
  cases hex : s.exchanges.lookup name with
  | none =>
    rw [h.lookup_none hex]
    cases passive with
    | true => exact h
    | false =>
      have hinsert := h.insert (newExchange name type durable autoDelete internal args) hex rfl
      exact hinsert.logIf durable (.exchangeDeclare { name, type, durable, auto_delete := autoDelete, internal })
  | some ex =>
    obtain ⟨ex', hex', hhead, -⟩ := h.lookup_some hex
    rw [hex']
    dsimp only
    rw [Exchange.type_of_head hhead]
    split
    · exact h
    · split <;> exact h

theorem deleteExchange (h : RoutesAlike P s s') (name : Bytes) :
    RoutesAlike P (s.perform (.deleteExchange name)) (s'.perform (.deleteExchange name)) := by
  rw [perform, perform, AmqpServer.deleteExchange, AmqpServer.deleteExchange]
  cases hex : s.exchanges.lookup name with
  | none =>
    rw [h.lookup_none hex]
    exact h
  | some ex =>
    obtain ⟨ex', hex', -⟩ := h.lookup_some hex
    rw [hex']
    dsimp only
    split
    · exact h
    · exact (h.erase name).logIf true (.exchangeDelete name)

theorem declareQueue (h : RoutesAlike P s s') (name : Bytes) (passive durable exclusive autoDelete : Bool) (args : FieldTable)
    (connectionId : Nat) : RoutesAlike P (s.perform (.declareQueue name passive durable exclusive autoDelete args connectionId))
      (s'.perform (.declareQueue name passive durable exclusive autoDelete args connectionId)) := by
  have hcounter : s'.nameCounter = s.nameCounter := by rw [h.rest]
  obtain ⟨n, hn, hn'⟩ : ∃ n,
      (if name = [] then { s with nameCounter := s.nameCounter + 1 } else s) = { s with nameCounter := n } ∧
      (if name = [] then { s' with nameCounter := s'.nameCounter + 1 } else s') = { s' with nameCounter := n } := by
    split
    · exact ⟨s.nameCounter + 1, rfl, by rw [hcounter]⟩
    · exact ⟨s.nameCounter, rfl, by rw [← hcounter]⟩
  have hs : RoutesAlike P { s with nameCounter := n } { s' with nameCounter := n } :=
    h.update (f := fun x => { x with nameCounter := n }) fun _ _ => rfl
  rw [perform, perform, AmqpServer.declareQueue, AmqpServer.declareQueue, hn, hn']
  dsimp only
  generalize (if name = [] then ascii "amq.gen-" ++ decimal n.toNat else name) = qname
  rw [hs.queue_eq]
  split
  · split
    · exact hs
    · split <;> exact hs
  · split
    · exact hs
    · have hinserted := hs.insertQueue qname (newQueue qname durable exclusive autoDelete args connectionId)
      have hadded := hinserted.addBinding (ascii "") qname qname []
      exact hadded.logIf durable (.queueDeclare { name := qname, durable, auto_delete := autoDelete })

theorem deleteQueue (h : RoutesAlike P s s') (name : Bytes) (ifUnused ifEmpty : Bool) :
    RoutesAlike P (s.perform (.deleteQueue name ifUnused ifEmpty)) (s'.perform (.deleteQueue name ifUnused ifEmpty)) := by
  rw [perform, perform, AmqpServer.deleteQueue, AmqpServer.deleteQueue, h.queue_eq]
  split
  · exact h
  · split
    · exact h
    · split
      · exact h
      · exact ((h.removeBindingsOf name).eraseQueue name).logIf true (.queueDelete name)

theorem bindQueue (h : RoutesAlike P s s') (queue exchange routingKey : Bytes) (args : FieldTable) :
    RoutesAlike P (s.perform (.bindQueue queue exchange routingKey args))
      (s'.perform (.bindQueue queue exchange routingKey args)) := by
  rw [perform, perform, AmqpServer.bindQueue, AmqpServer.bindQueue, h.queue_eq]
  cases hex : s.exchanges.lookup exchange with
  | none =>
    rw [h.lookup_none hex]
    exact h
  | some ex =>
    obtain ⟨ex', hex', -⟩ := h.lookup_some hex
    rw [hex']
    cases s.queue queue with
    | none => exact h
    | some q => exact (h.addBinding exchange queue routingKey args).logIf true (.binding _)

theorem unbindQueue (h : RoutesAlike P s s') (queue exchange routingKey : Bytes) :
    RoutesAlike P (s.perform (.unbindQueue queue exchange routingKey))
      (s'.perform (.unbindQueue queue exchange routingKey)) := by
  rw [perform, perform, AmqpServer.unbindQueue, AmqpServer.unbindQueue]
  cases hex : s.exchanges.lookup exchange with
  | none =>
    rw [h.lookup_none hex]
    exact h
  | some ex =>
    obtain ⟨ex', hex', -⟩ := h.lookup_some hex
    rw [hex']
    exact (h.removeBinding exchange queue routingKey).logIf true (.unbind _)

theorem removeConsumersByConnection (h : RoutesAlike P s s') (name : Bytes) (c : Nat) :
    RoutesAlike P (s.removeConsumersByConnection name c) (s'.removeConsumersByConnection name c) := by
  refine h.update (f := fun x => x.removeConsumersByConnection name c) fun exchanges store => ?_
  have hfold : ∀ (l : List Ref) (s : AmqpServer),
      l.foldl (fun s k => s.modifyConsumer k fun c => { c with on_deliver := none })
          { s with exchanges := exchanges, store := store } =
        { l.foldl (fun s k => s.modifyConsumer k fun c => { c with on_deliver := none }) s with
          exchanges := exchanges, store := store } := by
    intro l
    induction l with
    | nil => exact fun s => rfl
    | cons k l ih => exact fun s => ih (s.modifyConsumer k fun c => { c with on_deliver := none })
  dsimp only
  rw [AmqpServer.removeConsumersByConnection, AmqpServer.removeConsumersByConnection,
    show queue { s with exchanges := exchanges, store := store } name = s.queue name from rfl]
  cases s.queue name with
  | none => rfl
  | some q => exact congrArg (fun x : AmqpServer => x.modifyQueue name _) (hfold _ s)

theorem queueNames_eq (h : RoutesAlike P s s') (p : MessageQueue → Bool) : s'.queueNames p = s.queueNames p := by
  rw [h.rest]
  rfl

theorem removeConnectionQueues (h : RoutesAlike P s s') (c : Nat) :
    RoutesAlike P (s.removeConnectionQueues c) (s'.removeConnectionQueues c) := by
  rw [AmqpServer.removeConnectionQueues, AmqpServer.removeConnectionQueues, h.queueNames_eq, h.queueNames_eq]
  dsimp only
  have h₁ := h.foldl (fun name h => h.removeConsumersByConnection name c) (s.queueNames fun q => !ownedBy c q)
  have hdrop : ∀ {s s' : AmqpServer} (name : Bytes), RoutesAlike P s s' →
      RoutesAlike P { s.removeBindingsOf name with queues := s.queues.erase name }
        { s'.removeBindingsOf name with queues := s'.queues.erase name } := fun name h =>
    (h.removeBindingsOf name).eraseQueue name
  have h₂ := h₁.foldl hdrop (s.queueNames (ownedBy c))
  rw [h₂.queueNames_eq]
  exact h₂.foldl (fun name h => h.eraseQueue name) _

/-! What a new process takes from two logs that are alike. -/

theorem recoverExchange (h : RoutesAlike P s s') (ed : StoredExchangeDecl) :
    RoutesAlike P (s.recoverExchange ed) (s'.recoverExchange ed) := by
  rw [AmqpServer.recoverExchange, AmqpServer.recoverExchange]
  cases hex : s.exchanges.lookup ed.name with
  | none =>
    rw [h.lookup_none hex]
    exact h.insert (recoveredExchange ed) hex rfl
  | some ex =>
    obtain ⟨ex', hex', -⟩ := h.lookup_some hex
    rw [hex']
    exact h

theorem recoverQueue (h : RoutesAlike P s s') (qd : StoredQueueDecl) :
    RoutesAlike P (s.recoverQueue qd) (s'.recoverQueue qd) := by
  rw [AmqpServer.recoverQueue, AmqpServer.recoverQueue, h.queue_eq]
  split
  · exact h
  · exact (h.insertQueue qd.name (recoveredQueue qd)).addBinding (ascii "") qd.name qd.name []

theorem foldl_recoverBinding (h : RoutesAlike P s s') {bs bs' : List StoredBinding} (hbs : Alike StoredBinding.queue bs bs') :
    RoutesAlike P (bs.foldl recoverBinding s) (bs'.foldl recoverBinding s') := by
  obtain ⟨-, -, hhead, -⟩ := foldl_recoverBinding_spec bs s
  obtain ⟨-, -, hhead', -⟩ := foldl_recoverBinding_spec bs' s'
  rw [foldl_recoverBinding_eq bs s, foldl_recoverBinding_eq bs' s']
  refine h.of_exchanges (fun name => ?_) fun name => ?_
  · rw [hhead, hhead', h.head]
  · have hof : ∀ (bs : List StoredBinding) (s : AmqpServer),
        bindingsOf { s with exchanges := (bs.foldl recoverBinding s).exchanges } name =
          (bs.foldl recoverBinding s).bindingsOf name := fun _ _ => rfl
    rw [hof, hof, bindingsOf_foldl_recoverBinding, bindingsOf_foldl_recoverBinding, h.hasExchange]
    refine (h.bindings name).append ?_
    split
    · exact (hbs.filter _).map fun _ => rfl
    · exact .refl _

theorem foldl_recoverMessage {data : RecoveryData} {l : List StoredMessage} (h : RoutesAlike P s s')
    (hheld : HoldsLogged data s) (hl : ∀ sm ∈ l, sm ∈ data.messages) :
    RoutesAlike P (l.foldl recoverMessage s) (l.foldl recoverMessage s') := by
  induction l generalizing s s' with
  | nil => exact h
  | cons sm l ih =>
    have hsm := hl sm List.mem_cons_self
    have hone : RoutesAlike P (s.recoverMessage sm) (s'.recoverMessage sm) :=
      h.update (f := fun x => x.recoverMessage sm) (recoverMessage_update hheld hsm)
    exact ih hone (hheld.recoverMessage hsm) fun sm' hsm' => hl sm' (List.mem_cons_of_mem _ hsm')

theorem start {st st' : MessageStore} {userStore : UserStore} {clock : Nat → Int} {readings : Nat}
    (h : LogsAlike (some st) (some st')) :
    RoutesAlike P (start (some st) userStore clock readings) (start (some st') userStore clock readings) := by
  have hdata : st.recover.1.BindsAlike st'.recover.1 := by
    rw [recover, recover, recoverLocked_eq, recoverLocked_eq]
    cases h with
    | some h =>
      have hnil := h []
      rwa [List.append_nil, List.append_nil] at hnil
  have hfresh : RoutesAlike P
      { store := some st.recover.2, userStore, clock, readings, exchanges := defaultExchanges }
      { store := some st'.recover.2, userStore, clock, readings, exchanges := defaultExchanges } :=
    ⟨fun _ => rfl, fun _ => .refl _, rfl, fun _ => h.of_wal rfl rfl⟩
  have hheld := holdsLogged_declared st.recover.1
    (s := { store := some st.recover.2, userStore, clock, readings, exchanges := defaultExchanges }) fun _ => rfl
  rw [AmqpServer.start, AmqpServer.start, recoverFromStore, recoverFromStore]
  dsimp only
  rw [hdata.rest]
  have hexchanges := hfresh.foldl (fun ed h => h.recoverExchange ed) st.recover.1.exchanges
  have hqueues := hexchanges.foldl (fun qd h => h.recoverQueue qd) st.recover.1.queues
  exact (hqueues.foldl_recoverBinding hdata.bindings).foldl_recoverMessage hheld fun _ => id

theorem restart (h : RoutesAlike P s s') (hP : P) : RoutesAlike P s.restart s'.restart := by
  rw [AmqpServer.restart, AmqpServer.restart, h.rest]
  dsimp only
  have hlogs := h.store hP
  generalize s.store = store at hlogs ⊢
  generalize s'.store = store' at hlogs ⊢
  cases hlogs with
  | none => exact .refl _
  | some hlogs => exact .start (.some hlogs)

theorem perform (h : RoutesAlike P s s') (op : VHostOp) (hop : op = .restart → P) :
    RoutesAlike P (s.perform op) (s'.perform op) := by
  cases op with
  | declareExchange name type passive durable autoDelete internal args => exact h.declareExchange ..
  | deleteExchange name => exact h.deleteExchange name
  | declareQueue name passive durable exclusive autoDelete args connectionId => exact h.declareQueue ..
  | deleteQueue name ifUnused ifEmpty => exact h.deleteQueue name ifUnused ifEmpty
  | bindQueue queue exchange routingKey args => exact h.bindQueue queue exchange routingKey args
  | unbindQueue queue exchange routingKey => exact h.unbindQueue queue exchange routingKey
  | removeConnectionQueues connectionId => exact h.removeConnectionQueues connectionId
  | restart => exact h.restart (hop rfl)

theorem performs (h : RoutesAlike P s s') {ops : List VHostOp} (hops : .restart ∈ ops → P) :
    RoutesAlike P (ops.foldl AmqpServer.perform s) (ops.foldl AmqpServer.perform s') := by
  induction ops generalizing s s' with
  | nil => exact h
  | cons op ops ih =>
    exact ih (h.perform op fun hop => hops (hop ▸ List.mem_cons_self)) fun hmem => hops (List.mem_cons_of_mem _ hmem)

end RoutesAlike

/-! ### Repeated binds -/

/-- The binding is there. If it matters, the log has it, and can be appended to. --/
structure Rebindable (P : Prop) (queue exchange routingKey : Bytes) (args : FieldTable) (s : AmqpServer) : Prop where
  bound : { queue_name := queue, routing_key := routingKey, arguments := args } ∈ s.bindingsOf exchange
  short : P → (VHostOp.bindQueue queue exchange routingKey args).Short
  holds : P → ∀ st, s.store = some st → HasBinding { queue, exchange, routing_key := routingKey } st

theorem rebindable_of_ok (hbind : s.bindQueue queue exchange routingKey args = .ok s₁)
    (hshort : P → (VHostOp.bindQueue queue exchange routingKey args).Short)
    (hwhole : P → ∀ st, s.store = some st → Whole st) : Rebindable P queue exchange routingKey args s₁ := by
  refine ⟨?_, hshort, fun hP st₁ hst₁ => ?_⟩
  · rw [bindingsOf_bindQueue hbind, if_pos rfl]
    exact List.mem_append_right _ (List.mem_singleton_self _)
  · obtain ⟨hq, hex, hkey⟩ := hshort hP
    obtain ⟨-, -, rfl⟩ := bindQueue_eq_ok.mp hbind
    obtain ⟨st, hst, rfl⟩ := Option.map_eq_some_iff.mp hst₁
    exact hasBinding_append (hwhole hP st hst) (storable_of_length rfl (length_binding hq hex hkey))

namespace Rebindable

/-- Bound once more, it is there twice, and its record in the log as well. --/
theorem again (h : Rebindable P queue exchange routingKey args s) :
    RoutesAlike P s (s.perform (.bindQueue queue exchange routingKey args)) ∧
      Rebindable P queue exchange routingKey args (s.perform (.bindQueue queue exchange routingKey args)) := by
  rw [perform]
  cases hbind : s.bindQueue queue exchange routingKey args with
  | error e => exact ⟨.refl s, h⟩
  | ok s₁ =>
    refine ⟨?_, rebindable_of_ok hbind h.short fun hP st hst => (h.holds hP st hst).1⟩
    have hb := bindingsOf_bindQueue hbind
    obtain ⟨-, -, rfl⟩ := bindQueue_eq_ok.mp hbind
    rw [orElse]
    refine ⟨fun name => ?_, fun name => ?_, rfl, fun hP => ?_⟩
    · rw [exchanges_logIf]
      exact head_modify (fun ex => head_addBinding ex ..) exchange name
    · rw [hb]
      split
      · rename_i hname
        rw [hname]
        exact .again h.bound
      · exact .refl _
    · obtain ⟨hq, hex, hkey⟩ := h.short hP
      change LogsAlike s.store (s.store.map fun st => st.append (.binding { queue, exchange, routing_key := routingKey }))
      cases hst : s.store with
      | none => exact .none
      | some st => exact logsAlike_again (h.holds hP st hst) (storable_of_length rfl (length_binding hq hex hkey))

theorem repeated (h : Rebindable P queue exchange routingKey args s) (n : Nat) :
    RoutesAlike P s ((List.replicate n (.bindQueue queue exchange routingKey args)).foldl perform s) := by
  induction n generalizing s with
  | zero => exact .refl s
  | succ n ih =>
    obtain ⟨halike, hagain⟩ := h.again
    exact halike.trans (ih hagain)

end Rebindable

/-- `routeMessage` returns the queues of the bindings that match, once each and in the order of their first matching
    bindings. A bind that is repeated changes no result, now or later, and other orders of the bindings only the order. If the
    broker restarts later, its log has to end on an entry boundary: what is appended to a torn log may become part of the
    record that was cut off. --/
theorem routeMessage_spec (s : AmqpServer) (exchange : Bytes) :
    (∀ ex, s.exchanges.lookup exchange = some ex → ∀ routingKey headers,
      ex.route routingKey headers = (createExchange ex.type).route ex.bindings routingKey headers ∧
      (s.routeMessage exchange routingKey headers).Nodup ∧
      (∀ q, q ∈ s.routeMessage exchange routingKey headers ↔
        ∃ b ∈ ex.bindings, (createExchange ex.type).Matches routingKey headers b ∧ b.queue_name = q) ∧
      (s.routeMessage exchange routingKey headers).Pairwise fun q q' =>
        firstMatch ex routingKey headers q < firstMatch ex routingKey headers q') ∧
    (s.exchanges.lookup exchange = none → ∀ routingKey headers, s.routeMessage exchange routingKey headers = []) ∧
    (∀ queue key args s₁, s.bindQueue queue exchange key args = .ok s₁ → ∀ n (later : List VHostOp),
      (.restart ∈ later → (VHostOp.bindQueue queue exchange key args).Short ∧ ∀ st, s.store = some st → Whole st) →
      ∀ exchange' routingKey headers,
        (later.foldl perform ((List.replicate n (.bindQueue queue exchange key args)).foldl perform s₁)).routeMessage
          exchange' routingKey headers = (later.foldl perform s₁).routeMessage exchange' routingKey headers) ∧
    ∀ ex bindings, s.exchanges.lookup exchange = some ex → ex.bindings.Perm bindings → ∀ routingKey headers,
      (s.routeMessage exchange routingKey headers).Perm
        (routeMessage { s with exchanges := s.exchanges.modify exchange fun ex => { ex with bindings := bindings } }
          exchange routingKey headers) := by
  refine ⟨fun ex hex routingKey headers => ?_, fun hnone routingKey headers => ?_,
    fun queue key args s₁ hbind n later hlater exchange' routingKey headers => ?_,
    fun ex bindings hex hperm routingKey headers => ?_⟩
  · rw [routeMessage_eq hex]
    refine ⟨ex.route_eq_class routingKey headers, nodup_names, fun q => ?_, names_ordered _⟩
    simp only [mem_names, Exchange.matchesBinding_iff]
  · rw [routeMessage, hnone]
  · have hbound : Rebindable (.restart ∈ later) queue exchange key args s₁ :=
      rebindable_of_ok hbind (fun hmem => (hlater hmem).1) fun hmem => (hlater hmem).2
    exact ((hbound.repeated n).performs id).routeMessage_eq exchange' routingKey headers
  · have hlookup : (s.exchanges.modify exchange fun ex => { ex with bindings := bindings }).lookup exchange =
        some { ex with bindings := bindings } := by
      rw [Assoc.lookup_modify, if_pos rfl, hex, Option.map_some]
    have hmatch : Exchange.matchesBinding { ex with bindings := bindings } routingKey headers =
        ex.matchesBinding routingKey headers := rfl
    rw [routeMessage_eq hex, routeMessage_eq hlookup, hmatch]
    exact names_perm hperm

theorem routeMessage_twiceBound :
    (∃ ex, (twiceBound.foldl perform freshServer).exchanges.lookup (ascii "amq.fanout") = some ex ∧
      ((twiceBound.foldl perform freshServer).routeMessage (ascii "amq.fanout") [] none).Nodup ∧
      (twiceBound.foldl perform freshServer).routeMessage (ascii "amq.fanout") [] none = [ascii "q", ascii "p"]) ∧
    ∃ s₁, (twiceBound.foldl perform freshServer).bindQueue (ascii "p") (ascii "amq.fanout") (ascii "m") [] = .ok s₁ ∧
      (∀ st, (twiceBound.foldl perform freshServer).store = some st → Whole st) ∧
      ((List.replicate 3 (.bindQueue (ascii "p") (ascii "amq.fanout") (ascii "m") [])).foldl perform s₁).restart.routeMessage
        (ascii "amq.fanout") [] none = s₁.restart.routeMessage (ascii "amq.fanout") [] none := by
  have hex : (twiceBound.foldl perform freshServer).hasExchange (ascii "amq.fanout") := by decide +kernel
  have hq : (twiceBound.foldl perform freshServer).hasQueue (ascii "p") := by decide +kernel
  obtain ⟨ex, hlookup⟩ := Option.isSome_iff_exists.mp hex
  obtain ⟨s₁, hbind⟩ := exists_bindQueue hex hq (ascii "m") []
  have hwhole : ∀ st, (twiceBound.foldl perform freshServer).store = some st → Whole st := fun st hst => by
    have hrest : (twiceBound.foldl perform freshServer).store.map (fun st => st.replay.2.2) = some [] := by decide +kernel
    rw [hst, Option.map_some] at hrest
    exact Option.some.inj hrest
  obtain ⟨hroute, -, hrepeated, -⟩ := routeMessage_spec (twiceBound.foldl perform freshServer) (ascii "amq.fanout")
  exact ⟨⟨ex, hlookup, (hroute ex hlookup [] none).2.1, by decide +kernel⟩,
    s₁, hbind, hwhole, hrepeated _ _ _ _ hbind 3 [.restart] (fun _ => ⟨by decide, hwhole⟩) _ _ _⟩

end AmqpServer
end Broko.Broker
