import Broko.Theorems.Runs
import Broko.Theorems.VHostSteps

/-! What a new process makes of the log: the queues and exchanges that it declares, the bindings that it holds,
    and for each queue the binding to the default exchange. -/

namespace Broko.Broker
open Amqp Storage MessageStore

/-- A queue as it was declared. --/
def MessageQueue.declared (q : MessageQueue) : MessageQueue :=
  { q with messages := [], consumers := [], roundRobinIdx := 0, enqueued := [] }

namespace AmqpServer

variable {s s' : AmqpServer}

/-- The exchange that `recoverFromStore` makes. --/
def recoveredExchange (ed : StoredExchangeDecl) : Exchange :=
  { name := ed.name, type := ed.type, durable := ed.durable, auto_delete := ed.auto_delete, internal := ed.internal }

/-- The queue that `recoverFromStore` makes. --/
def recoveredQueue (qd : StoredQueueDecl) : MessageQueue :=
  { name := qd.name, durable := qd.durable, auto_delete := qd.auto_delete }

/-- The binding that `recoverFromStore` makes. --/
def recoveredBinding (sb : StoredBinding) : Binding :=
  { queue_name := sb.queue, routing_key := sb.routing_key, arguments := [] }

/-- The binding of a queue to the default exchange. --/
def defaultBinding (name : Bytes) : Binding := { queue_name := name, routing_key := name, arguments := [] }

/-! ### The loops -/

theorem foldl_recoverExchange_spec (ds : List StoredExchangeDecl) (s : AmqpServer) :
    (ds.foldl recoverExchange s).queues = s.queues ∧ (ds.foldl recoverExchange s).store = s.store ∧
      (∀ exchange, (ds.foldl recoverExchange s).bindingsOf exchange = s.bindingsOf exchange) ∧
      ∀ name, (ds.foldl recoverExchange s).exchanges.lookup name =
        (s.exchanges.lookup name).or ((ds.find? fun d => d.name = name).map recoveredExchange) := by
  induction ds generalizing s with
  | nil => exact ⟨rfl, rfl, fun _ => rfl, fun name => by simp⟩
  | cons d ds ih =>
    obtain ⟨hq, hst, hb, hex⟩ := ih (s.recoverExchange d)
    have hone : (s.recoverExchange d).queues = s.queues ∧ (s.recoverExchange d).store = s.store ∧
        (∀ exchange, (s.recoverExchange d).bindingsOf exchange = s.bindingsOf exchange) ∧
        ∀ name, (s.recoverExchange d).exchanges.lookup name =
          (s.exchanges.lookup name).or (if d.name = name then some (recoveredExchange d) else none) := by
      rw [recoverExchange]
      split
      · rename_i ex hd
        refine ⟨rfl, rfl, fun _ => rfl, fun name => ?_⟩
        by_cases hname : d.name = name
        · rw [← hname, hd]
          rfl
        · simp [hname]
      · rename_i hd
        refine ⟨rfl, rfl, bindingsOf_insert hd rfl, fun name => ?_⟩
        dsimp only
        by_cases hname : d.name = name
        · rw [← hname, Assoc.lookup_insert_self, hd]
          simp [recoveredExchange]
        · rw [Assoc.lookup_insert_of_ne (Ne.symm hname)]
          simp [hname]
    rw [List.foldl_cons]
    refine ⟨hq.trans hone.1, hst.trans hone.2.1, fun exchange => (hb exchange).trans (hone.2.2.1 exchange), fun name => ?_⟩
    rw [hex, hone.2.2.2, Option.or_assoc]
    congr 1
    by_cases hname : d.name = name
    · simp [hname]
    · simp [hname]

theorem head_modify {m : Assoc Bytes Exchange} {f : Exchange → Exchange} (hf : ∀ ex, (f ex).head = ex.head)
    (name exchange : Bytes) :
    ((m.modify name f).lookup exchange).map Exchange.head = (m.lookup exchange).map Exchange.head := by
  rw [Assoc.lookup_modify]
  split
  · rename_i h
    rw [h, Option.map_map]
    congr 1
    exact funext hf
  · rfl

theorem head_addBinding (ex : Exchange) (queue routingKey : Bytes) (args : FieldTable) :
    (ex.addBinding queue routingKey args).head = ex.head := rfl

theorem head_removeBinding (ex : Exchange) (queue routingKey : Bytes) :
    (ex.removeBinding queue routingKey).head = ex.head := rfl

theorem mem_bindingsOf_bindDefault (name exchange : Bytes) (b : Binding) :
    b ∈ (s.bindDefault name).bindingsOf exchange ↔
      b ∈ s.bindingsOf exchange ∨ (exchange = [] ∧ s.hasExchange [] ∧ b = defaultBinding name) := by
  rw [bindDefault, bindingsOf_addBinding]
  by_cases h : exchange = ascii "" ∧ s.hasExchange (ascii "")
  · rw [if_pos h, List.mem_append, List.mem_singleton, h.1]
    have hex : s.hasExchange [] = true := h.2
    simp only [defaultBinding, hex]
    simp [ascii]
  · rw [if_neg h]
    constructor
    · exact .inl
    · rintro (hb | ⟨he, hex, -⟩)
      · exact hb
      · exact absurd ⟨he, hex⟩ h

theorem foldl_recoverQueue_spec (ds : List StoredQueueDecl) (s : AmqpServer) :
    (ds.foldl recoverQueue s).store = s.store ∧
      (∀ exchange, ((ds.foldl recoverQueue s).exchanges.lookup exchange).map Exchange.head =
        (s.exchanges.lookup exchange).map Exchange.head) ∧
      (∀ exchange b, b ∈ (ds.foldl recoverQueue s).bindingsOf exchange ↔ b ∈ s.bindingsOf exchange ∨
        (exchange = [] ∧ s.hasExchange [] ∧ ∃ d ∈ ds, s.queue d.name = none ∧ b = defaultBinding d.name)) ∧
      ∀ name, (ds.foldl recoverQueue s).queue name =
        (s.queue name).or ((ds.find? fun d => d.name = name).map recoveredQueue) := by
  induction ds generalizing s with
  | nil => exact ⟨rfl, fun _ => rfl, fun _ _ => by simp, fun name => by simp⟩
  | cons d ds ih =>
    obtain ⟨hst, hhead, hb, hq⟩ := ih (s.recoverQueue d)
    rw [List.foldl_cons]
    cases hd : s.queue d.name with
    | some q =>
      have hone : s.recoverQueue d = s := by rw [recoverQueue, hd]
      rw [hone] at hst hhead hb hq ⊢
      refine ⟨hst, hhead, fun exchange b => ?_, fun name => ?_⟩
      · simp only [hb, List.mem_cons, exists_eq_or_imp, hd, reduceCtorEq, false_and, false_or]
      · rw [hq]
        by_cases hname : d.name = name
        · rw [← hname, hd]
          rfl
        · simp [hname]
    | none =>
      have hone : s.recoverQueue d = ({ s with queues := s.queues.insert d.name (recoveredQueue d) } : AmqpServer).bindDefault
          d.name := by rw [recoverQueue, hd]; rfl
      have hqone : ∀ name, (s.recoverQueue d).queue name =
          (s.queue name).or (if d.name = name then some (recoveredQueue d) else none) := by
        intro name
        rw [hone]
        by_cases hname : d.name = name
        · rw [← hname, hd, if_pos rfl]
          exact Assoc.lookup_insert_self ..
        · rw [if_neg hname, Option.or_none]
          exact Assoc.lookup_insert_of_ne (Ne.symm hname)
      have hheadone : ∀ exchange, ((s.recoverQueue d).exchanges.lookup exchange).map Exchange.head =
          (s.exchanges.lookup exchange).map Exchange.head := by
        intro exchange
        rw [hone]
        exact head_modify (fun ex => head_addBinding ex ..) ..
      refine ⟨hst.trans (by rw [hone]; rfl), fun exchange => (hhead exchange).trans (hheadone exchange),
        fun exchange b => ?_, fun name => ?_⟩
      · have hbone : ∀ b, b ∈ (s.recoverQueue d).bindingsOf exchange ↔
            b ∈ s.bindingsOf exchange ∨ (exchange = [] ∧ s.hasExchange [] ∧ b = defaultBinding d.name) := by
          intro b
          rw [hone]
          exact mem_bindingsOf_bindDefault (s := { s with queues := s.queues.insert d.name (recoveredQueue d) }) ..
        rw [hb, hbone, hasExchange_of_head hheadone]
        simp only [List.mem_cons, exists_eq_or_imp, hd, true_and, or_assoc]
        refine or_congr_right ⟨?_, ?_⟩
        · rintro (⟨he, hex, rfl⟩ | ⟨he, hex, x, hx, hnone, rfl⟩)
          · exact ⟨he, hex, .inl rfl⟩
          · refine ⟨he, hex, .inr ⟨x, hx, ?_, rfl⟩⟩
            rw [hqone, Option.or_eq_none_iff] at hnone
            exact hnone.1
        · rintro ⟨he, hex, rfl | ⟨x, hx, hnone, rfl⟩⟩
          · exact .inl ⟨he, hex, rfl⟩
          · by_cases hname : d.name = x.name
            · exact .inl ⟨he, hex, by rw [hname]⟩
            · exact .inr ⟨he, hex, x, hx, by rw [hqone, hnone, if_neg hname]; rfl, rfl⟩
      · rw [hq, hqone, Option.or_assoc]
        congr 1
        by_cases hname : d.name = name
        · simp [hname]
        · simp [hname]

theorem head_recoverBinding (s : AmqpServer) (sb : StoredBinding) (exchange : Bytes) :
    ((s.recoverBinding sb).exchanges.lookup exchange).map Exchange.head = (s.exchanges.lookup exchange).map Exchange.head :=
  head_modify (fun ex => head_addBinding ex ..) ..

/-- Each exchange that is there gets the bindings that the log has for it, in the order of the log. --/
theorem bindingsOf_foldl_recoverBinding (bs : List StoredBinding) (s : AmqpServer) (exchange : Bytes) :
    (bs.foldl recoverBinding s).bindingsOf exchange = s.bindingsOf exchange ++
      if s.hasExchange exchange then (bs.filter fun sb => sb.exchange = exchange).map recoveredBinding else [] := by
  induction bs generalizing s with
  | nil => simp
  | cons sb bs ih =>
    have hhas := hasExchange_of_head (head_recoverBinding s sb) exchange
    rw [List.foldl_cons, ih, hhas, recoverBinding, bindingsOf_addBinding]
    by_cases h : exchange = sb.exchange
    · subst h
      cases hex : s.hasExchange sb.exchange <;> simp [recoveredBinding]
    · simp [h, Ne.symm h]

theorem foldl_recoverBinding_spec (bs : List StoredBinding) (s : AmqpServer) :
    (bs.foldl recoverBinding s).queues = s.queues ∧ (bs.foldl recoverBinding s).store = s.store ∧
      (∀ exchange, ((bs.foldl recoverBinding s).exchanges.lookup exchange).map Exchange.head =
        (s.exchanges.lookup exchange).map Exchange.head) ∧
      ∀ exchange b, b ∈ (bs.foldl recoverBinding s).bindingsOf exchange ↔ b ∈ s.bindingsOf exchange ∨
        (s.hasExchange exchange ∧ ∃ sb ∈ bs, sb.exchange = exchange ∧ b = recoveredBinding sb) := by
  have hkept : (bs.foldl recoverBinding s).queues = s.queues ∧ (bs.foldl recoverBinding s).store = s.store ∧
      ∀ exchange, ((bs.foldl recoverBinding s).exchanges.lookup exchange).map Exchange.head =
        (s.exchanges.lookup exchange).map Exchange.head := by
    induction bs generalizing s with
    | nil => exact ⟨rfl, rfl, fun _ => rfl⟩
    | cons sb bs ih =>
      obtain ⟨hq, hst, hhead⟩ := ih (s.recoverBinding sb)
      exact ⟨hq, hst, fun exchange => (hhead exchange).trans (head_recoverBinding s sb exchange)⟩
  refine ⟨hkept.1, hkept.2.1, hkept.2.2, fun exchange b => ?_⟩
  rw [bindingsOf_foldl_recoverBinding, List.mem_append]
  cases s.hasExchange exchange with
  | true => simp [and_assoc, eq_comm]
  | false => simp

theorem skeleton_recoverMessage (s : AmqpServer) (sm : StoredMessage) : (s.recoverMessage sm).skeleton = s.skeleton := by
  rw [recoverMessage]
  split
  · rfl
  · rw [skeleton_deliverToQueue, skeleton_record, skeleton_newMessage]

/-! ### Messages -/

/-- The message object that `recoverFromStore` makes. --/
def recoveredMessage (sm : StoredMessage) : Message :=
  { exchange := sm.exchange, routing_key := sm.routing_key, properties := sm.properties, body := sm.body, wal_id := sm.id }

/-- No queue has consumers or dead letters, and each holds only messages that the log has for it. --/
def HoldsLogged (data : RecoveryData) (s : AmqpServer) : Prop :=
  ∀ name q, s.queue name = some q → q.consumers = [] ∧ q.dlxExchange = [] ∧
    ∀ r ∈ q.messages, r < s.heap.size ∧
      ∃ sm ∈ data.messages, sm.queue_name = name ∧ (s.message r).frame = (recoveredMessage sm).frame

namespace HoldsLogged

variable {data : RecoveryData}

theorem modifyQueue (h : HoldsLogged data s) {name : Bytes} {f : MessageQueue → MessageQueue}
    (hf : ∀ q, s.queue name = some q → (f q).consumers = q.consumers ∧ (f q).dlxExchange = q.dlxExchange ∧
      ∀ r ∈ (f q).messages, r ∈ q.messages ∨ (r < s.heap.size ∧
        ∃ sm ∈ data.messages, sm.queue_name = name ∧ (s.message r).frame = (recoveredMessage sm).frame)) :
    HoldsLogged data (s.modifyQueue name f) := by
  intro name' q' hq'
  rw [queue, AmqpServer.modifyQueue, Assoc.lookup_modify] at hq'
  split at hq'
  · rename_i hname
    obtain ⟨q, hq, rfl⟩ := Option.map_eq_some_iff.mp hq'
    obtain ⟨hk, hdlx, hm⟩ := h name q hq
    obtain ⟨hfk, hfdlx, hfm⟩ := hf q hq
    refine ⟨hfk.trans hk, hfdlx.trans hdlx, fun r hr => ?_⟩
    rw [hname]
    rcases hfm r hr with hr | hr
    · exact hm r hr
    · exact hr
  · exact h name' q' hq'

theorem newMessage (h : HoldsLogged data s) (m : Message) : HoldsLogged data (s.newMessage m) := by
  intro name q hq
  obtain ⟨hk, hdlx, hm⟩ := h name q hq
  refine ⟨hk, hdlx, fun r hr => ?_⟩
  obtain ⟨hlt, hsm⟩ := hm r hr
  refine ⟨Nat.lt_succ_of_lt hlt, ?_⟩
  rw [message, AmqpServer.newMessage, Heap.cell_alloc_of_ne (Nat.ne_of_lt hlt)]
  exact hsm

theorem pushBack (h : HoldsLogged data s) {name : Bytes} {r : Ref} (hr : r < s.heap.size) {sm : StoredMessage}
    (hsm : sm ∈ data.messages) (hname : sm.queue_name = name) (hmsg : (s.message r).frame = (recoveredMessage sm).frame) :
    HoldsLogged data (s.pushBack name r) := by
  have hframe : ∀ r', ((s.readClock.modifyMessage r fun m => { m with enqueued_at := s.now }).message r').frame =
      (s.message r').frame := fun r' =>
    Heap.cell_modify_congr (f := fun x : Cell => { x with msg := { x.msg with enqueued_at := s.now } })
      (fun x => x.msg.frame) (fun _ => rfl) r'
  have hstamp : HoldsLogged data (s.readClock.modifyMessage r fun m => { m with enqueued_at := s.now }) := by
    intro name' q hq
    obtain ⟨hk, hdlx, hm⟩ := h name' q hq
    refine ⟨hk, hdlx, fun r' hr' => ?_⟩
    rw [hframe]
    exact hm r' hr'
  rw [AmqpServer.pushBack]
  refine hstamp.modifyQueue fun q hq => ⟨rfl, rfl, fun r' hr' => ?_⟩
  rcases List.mem_append.mp ((sortMessages_perm _ q _).mem_iff.mp hr') with hold | hnew
  · exact .inl hold
  · obtain rfl := List.mem_singleton.mp hnew
    refine .inr ⟨hr, sm, hsm, hname, ?_⟩
    rw [hframe]
    exact hmsg

theorem collectExpired (h : HoldsLogged data s) (name : Bytes) : HoldsLogged data (s.collectExpired name).2 := by
  rw [AmqpServer.collectExpired]
  split
  · exact h
  · split
    · exact h
    · refine HoldsLogged.modifyQueue (s := s.readClock) h fun q _ => ⟨rfl, rfl, fun r hr => ?_⟩
      exact .inl (List.mem_of_mem_drop hr)

/-- Without consumers and dead letters an enqueue only stores and expires. --/
theorem enqueueLoop_eq (h : HoldsLogged data s) {name : Bytes} {r : Ref} (hr : r < s.heap.size) {sm : StoredMessage}
    (hsm : sm ∈ data.messages) (hname : sm.queue_name = name) (hmsg : (s.message r).frame = (recoveredMessage sm).frame)
    {q : MessageQueue} (hq : s.queue name = some q) (fuel : Nat) :
    AmqpServer.enqueueLoop (fuel + 1) s name r = ((s.pushBack name r).collectExpired name).2 := by
  have hexp := (h.pushBack hr hsm hname hmsg).collectExpired name
  rw [AmqpServer.enqueueLoop, hq]
  dsimp only
  generalize (s.pushBack name r).collectExpired name = x at hexp
  obtain ⟨dlq, s₁⟩ := x
  have hdispatch : s₁.dispatchLocked name = s₁ := by
    rw [dispatchLocked]
    split
    · rfl
    · rename_i q hq
      exact if_pos (hexp name q hq).1
  have hletter : ∀ r, deadLetterWith (AmqpServer.enqueueLoop fuel) name (ascii "expired") s₁ r = s₁ := by
    intro r
    rw [deadLetterWith]
    split
    · rfl
    · rename_i q hq
      exact if_pos (.inl (hexp name q hq).2.1)
  have hletters : ∀ l : List Ref,
      l.foldl (deadLetterWith (AmqpServer.enqueueLoop fuel) name (ascii "expired")) s₁ = s₁ := by
    intro l
    induction l with
    | nil => rfl
    | cons r l ih => rw [List.foldl_cons, hletter, ih]
  rw [hdispatch, hletters]

theorem enqueueLoop (h : HoldsLogged data s) {name : Bytes} {r : Ref} (hr : r < s.heap.size) {sm : StoredMessage}
    (hsm : sm ∈ data.messages) (hname : sm.queue_name = name) (hmsg : (s.message r).frame = (recoveredMessage sm).frame)
    (fuel : Nat) : HoldsLogged data (AmqpServer.enqueueLoop fuel s name r) := by
  cases fuel with
  | zero => exact h
  | succ fuel =>
    cases hq : s.queue name with
    | none =>
      rw [AmqpServer.enqueueLoop, hq]
      exact h
    | some q =>
      rw [h.enqueueLoop_eq hr hsm hname hmsg hq]
      exact (h.pushBack hr hsm hname hmsg).collectExpired name

theorem newRecovered (h : HoldsLogged data s) (sm : StoredMessage) :
    HoldsLogged data ((s.newMessage (recoveredMessage sm)).record [.stored s.heap.size sm.queue_name sm.id]) :=
  h.newMessage _

theorem frame_newRecovered (sm : StoredMessage) : (((s.newMessage (recoveredMessage sm)).record
    [.stored s.heap.size sm.queue_name sm.id]).message s.heap.size).frame = (recoveredMessage sm).frame := by
  change (((s.newMessage (recoveredMessage sm)).heap.cell s.heap.size).msg).frame = _
  rw [AmqpServer.newMessage, Heap.cell_alloc_self]

theorem recoverMessage (h : HoldsLogged data s) {sm : StoredMessage} (hsm : sm ∈ data.messages) :
    HoldsLogged data (s.recoverMessage sm) := by
  rw [AmqpServer.recoverMessage]
  split
  · exact h
  · exact (h.newRecovered sm).enqueueLoop (Nat.lt_succ_self _) hsm rfl (frame_newRecovered sm) _

theorem foldl_recoverMessage {l : List StoredMessage} (h : HoldsLogged data s) (hl : ∀ sm ∈ l, sm ∈ data.messages) :
    HoldsLogged data (l.foldl AmqpServer.recoverMessage s) := by
  induction l generalizing s with
  | nil => exact h
  | cons sm l ih =>
    exact ih (h.recoverMessage (hl sm List.mem_cons_self)) fun x hx => hl x (List.mem_cons_of_mem _ hx)

end HoldsLogged

/-- Before its messages come, a new process holds none. --/
theorem holdsLogged_declared (data : RecoveryData) (hnone : ∀ name, s.queue name = none) : HoldsLogged data
    (data.bindings.foldl recoverBinding (data.queues.foldl recoverQueue (data.exchanges.foldl recoverExchange s))) := by
  obtain ⟨hq₁, -⟩ := foldl_recoverExchange_spec data.exchanges s
  obtain ⟨-, -, -, hq₂⟩ := foldl_recoverQueue_spec data.queues (data.exchanges.foldl recoverExchange s)
  obtain ⟨hq₃, -⟩ := foldl_recoverBinding_spec data.bindings
    (data.queues.foldl recoverQueue (data.exchanges.foldl recoverExchange s))
  intro name q hq
  rw [queue, hq₃, ← queue, hq₂, queue, hq₁, ← queue, hnone, Option.none_or] at hq
  obtain ⟨d, -, rfl⟩ := Option.map_eq_some_iff.mp hq
  exact ⟨rfl, rfl, List.forall_mem_nil _⟩

/-! ### The new process -/

/-- What a start on a store with this log leaves, and where. --/
structure RecoveredFrom (data : RecoveryData) (s : AmqpServer) : Prop where
  queues : ∀ name, (s.queue name).map MessageQueue.frame = (data.queues.find? fun d => d.name = name).map recoveredQueue
  exchanges : ∀ name, (s.exchanges.lookup name).map Exchange.head =
    (defaultExchanges.lookup name).or ((data.exchanges.find? fun d => d.name = name).map recoveredExchange)
  bindings : ∀ exchange b, b ∈ s.bindingsOf exchange ↔ s.hasExchange exchange ∧
    ((∃ sb ∈ data.bindings, sb.exchange = exchange ∧ b = recoveredBinding sb) ∨
      (exchange = [] ∧ ∃ d ∈ data.queues, b = defaultBinding d.name))
  messages : HoldsLogged data s

theorem bindings_defaultExchanges {name : Bytes} {ex : Exchange} (h : defaultExchanges.lookup name = some ex) :
    ex.bindings = [] := by
  have hall : ∀ p ∈ defaultExchanges.entries, p.2.bindings.isEmpty = true := by decide
  exact List.isEmpty_iff.mp (hall _ (Assoc.mem_entries.mpr h))

theorem isReserved_of_default {name : Bytes} (h : (defaultExchanges.lookup name).isSome) : isReserved name := by
  obtain ⟨ex, hex⟩ := Option.isSome_iff_exists.mp h
  have hall : ∀ p ∈ defaultExchanges.entries, isReserved p.1 = true := by decide
  exact hall _ (Assoc.mem_entries.mpr hex)

theorem head_eq_self {ex : Exchange} (h : ex.bindings = []) : ex.head = ex := by
  rw [Exchange.head, ← h]

theorem recoveredFrom_start {st : MessageStore} {userStore : UserStore} {clock : Nat → Int} {readings : Nat} :
    RecoveredFrom st.recover.1 (start (some st) userStore clock readings) ∧
      (start (some st) userStore clock readings).store = some st.recover.2 := by
  rw [start, recoverFromStore]
  dsimp only
  have hempty : HoldsLogged st.recover.1 _ := holdsLogged_declared st.recover.1
    (s := { store := some st.recover.2, userStore, clock, readings, exchanges := defaultExchanges }) fun _ => rfl
  obtain ⟨hq₁, hst₁, hb₁, hex₁⟩ := foldl_recoverExchange_spec st.recover.1.exchanges
    { store := some st.recover.2, userStore, clock, readings, exchanges := defaultExchanges }
  generalize st.recover.1.exchanges.foldl recoverExchange _ = s₁ at *
  obtain ⟨hst₂, hhead₂, hb₂, hq₂⟩ := foldl_recoverQueue_spec st.recover.1.queues s₁
  generalize st.recover.1.queues.foldl recoverQueue s₁ = s₂ at *
  obtain ⟨hq₃, hst₃, hhead₃, hb₃⟩ := foldl_recoverBinding_spec st.recover.1.bindings s₂
  generalize st.recover.1.bindings.foldl recoverBinding s₂ = s₃ at *
  have hskel := skeleton_foldl skeleton_recoverMessage st.recover.1.messages s₃
  have hmsgs := hempty.foldl_recoverMessage fun _ => id
  generalize st.recover.1.messages.foldl recoverMessage s₃ = s₄ at *
  have hex₄ : s₄.exchanges = s₃.exchanges := exchanges_of_skeleton hskel
  have hst₄ : s₄.store = s₃.store := store_of_skeleton hskel
  have hnone : ∀ name, s₁.queue name = none := fun name => by rw [queue, hq₁]; rfl
  refine ⟨⟨fun name => ?_, fun name => ?_, fun exchange b => ?_, hmsgs⟩, ?_⟩
  · rw [← queue_skeleton, hskel, queue_skeleton, queue, hq₃, ← queue, hq₂, hnone, Option.none_or, Option.map_map]
    rfl
  · rw [hex₄, hhead₃, hhead₂, hex₁, Option.map_or, Option.map_map]
    dsimp only
    congr 1
    cases hdef : defaultExchanges.lookup name with
    | none => rfl
    | some ex => rw [Option.map_some, head_eq_self (bindings_defaultExchanges hdef)]
  · have hempty : s₁.bindingsOf exchange = [] := by
      rw [hb₁, bindingsOf]
      dsimp only
      cases hdef : defaultExchanges.lookup exchange with
      | none => rfl
      | some ex => rw [Option.map_some, bindings_defaultExchanges hdef]; rfl
    have hhas : ∀ name, s₂.hasExchange name = s₁.hasExchange name := hasExchange_of_head hhead₂
    have hhas₃ : s₃.hasExchange exchange = s₂.hasExchange exchange := hasExchange_of_head hhead₃ exchange
    have hhas₄ : s₄.hasExchange exchange = s₁.hasExchange exchange := by
      rw [hasExchange, hex₄, ← hasExchange, hhas₃, hhas]
    rw [bindingsOf_congr hex₄, hb₃, hb₂, hempty, hhas₄, hhas]
    simp only [List.not_mem_nil, false_or, hnone, true_and]
    constructor
    · rintro (⟨rfl, hex, d, hd, rfl⟩ | ⟨hex, hsb⟩)
      · exact ⟨hex, .inr ⟨rfl, d, hd, rfl⟩⟩
      · exact ⟨hex, .inl hsb⟩
    · rintro ⟨hex, hsb | ⟨rfl, hd⟩⟩
      · exact .inr ⟨hex, hsb⟩
      · exact .inl ⟨rfl, hex, hd⟩
  · rw [hst₄, hst₃, hst₂, hst₁]

end AmqpServer
end Broko.Broker
