import Broko.Theorems.Recovery

/-! Runs of a virtual host: its operations in any order, and between them any traffic of messages and consumers.
    Traffic does not touch exchanges, bindings and declarations, neither in memory nor in the log. -/

namespace Broko.Broker
open Amqp Storage MessageStore

namespace AmqpServer

variable {c : Nat} {s s' : AmqpServer}

/-- The kinds of moves that declare and remove nothing. --/
def trafficKinds : List Kind :=
  [.queue, .enqueue, .requeue, .take, .purge, .create, .store, .output, .confirm, .deliver, .pending, .handshake, .hold,
    .release, .settle, .remove, .register, .unregister, .openChannel, .closeChannel, .task, .server]

/-- The declarations and bindings in memory are the same. --/
structure SameTopology (s s' : AmqpServer) : Prop where
  queues : ∀ name, (s'.queue name).map MessageQueue.declared = (s.queue name).map MessageQueue.declared
  exchanges : ∀ name, s'.exchanges.lookup name = s.exchanges.lookup name

/-- The declarations and bindings in the log are the same. --/
structure SameLog (s s' : AmqpServer) : Prop where
  exchanges : s'.logged.exchanges = s.logged.exchanges
  queues : s'.logged.queues = s.logged.queues
  bindings : s'.logged.bindings = s.logged.bindings

namespace SameTopology

theorem refl : SameTopology s s := ⟨fun _ => rfl, fun _ => rfl⟩

theorem trans {s₁ s₂ : AmqpServer} (h₁ : SameTopology s s₁) (h₂ : SameTopology s₁ s₂) : SameTopology s s₂ :=
  ⟨fun name => (h₂.queues name).trans (h₁.queues name), fun name => (h₂.exchanges name).trans (h₁.exchanges name)⟩

theorem of_eq (hq : s'.queues = s.queues) (hex : s'.exchanges = s.exchanges) : SameTopology s s' :=
  ⟨fun name => by rw [queue, hq, queue], fun name => by rw [hex]⟩

theorem of_skeleton (h : s'.skeleton = s.skeleton) : SameTopology s s' := by
  refine ⟨fun name => ?_, fun name => by rw [exchanges_of_skeleton h]⟩
  have hq := queue_skeleton (s := s') name
  rw [h, queue_skeleton] at hq
  have hdecl : ∀ q : MessageQueue, q.frame.declared = q.declared := fun _ => rfl
  have hmap := congrArg (Option.map MessageQueue.declared) hq
  simp only [Option.map_map, Function.comp_def, hdecl] at hmap
  exact hmap.symm

theorem modifyQueue (name : Bytes) {f : MessageQueue → MessageQueue} (hf : ∀ q, (f q).declared = q.declared) :
    SameTopology s (s.modifyQueue name f) := by
  refine ⟨fun name' => ?_, fun _ => rfl⟩
  rw [queue, AmqpServer.modifyQueue, Assoc.lookup_modify, queue]
  split
  · rename_i h
    rw [h, Option.map_map]
    congr 1
    exact funext hf
  · rfl

theorem hasQueue (h : SameTopology s s') (name : Bytes) : s'.hasQueue name = s.hasQueue name := by
  have hmap := congrArg Option.isSome (h.queues name)
  rwa [Option.isSome_map, Option.isSome_map] at hmap

theorem bindingsOf (h : SameTopology s s') (exchange : Bytes) : s'.bindingsOf exchange = s.bindingsOf exchange := by
  rw [AmqpServer.bindingsOf, h.exchanges, AmqpServer.bindingsOf]

theorem hasExchange (h : SameTopology s s') (name : Bytes) : s'.hasExchange name = s.hasExchange name := by
  rw [AmqpServer.hasExchange, h.exchanges, AmqpServer.hasExchange]

theorem removeConsumer (name tag : Bytes) : SameTopology s (s.removeConsumer name tag) := by
  rw [AmqpServer.removeConsumer]
  split
  · exact refl
  · split
    · exact refl
    · refine trans ?_ (modifyQueue _ fun _ => rfl)
      exact of_eq rfl rfl

theorem removeConsumersByConnection (name : Bytes) (c : Nat) :
    SameTopology s (s.removeConsumersByConnection name c) := by
  obtain ⟨hex, -, -, hq⟩ := removeConsumersByConnection_spec (s := s) name c
  refine ⟨fun name' => ?_, fun name => by rw [hex]⟩
  rw [hq]
  split
  · rename_i h
    rw [h, Option.map_map]
    rfl
  · rfl

theorem releaseCredit (u : UnackedMessage) : SameTopology s (s.releaseCredit u) := by
  rw [AmqpServer.releaseCredit]
  split
  · exact refl
  · exact of_eq rfl rfl

theorem persistAck (u : UnackedMessage) : SameTopology s (s.persistAck u) := by
  rw [AmqpServer.persistAck]
  split
  · exact (releaseCredit u).trans (of_eq rfl rfl)
  · split <;> exact (releaseCredit u).trans (of_eq rfl rfl)

theorem storeMessage (name : Bytes) (r : Ref) : SameTopology s (s.storeMessage name r) := by
  rw [AmqpServer.storeMessage]
  split
  · exact refl
  · exact of_eq rfl rfl

/-- Traffic keeps the topology. --/
theorem of_move {k : Kind} (hm : Move c k s s') (hk : k ∈ trafficKinds) : SameTopology s s' := by
  cases hm with
  | letter r => exact modifyQueue _ fun _ => rfl
  | @expire _ q name dlq rest hq =>
    have htaken : SameTopology s (s.modifyQueue name fun q => { q with messages := q.messages.drop dlq.length }) :=
      modifyQueue _ fun _ => rfl
    exact htaken.trans (of_eq rfl rfl)
  | rotate name idx => exact modifyQueue _ fun _ => rfl
  | handOver idx => exact of_skeleton (skeleton_handOver ..)
  | enqueue r => exact modifyQueue _ fun _ => rfl
  | requeue name r => exact modifyQueue _ fun _ => rfl
  | take name => exact modifyQueue _ fun _ => rfl
  | purge name => exact of_skeleton (skeleton_purge _)
  | store m =>
    refine trans ?_ (storeMessage ..)
    exact of_eq rfl rfl
  | releaseCredit u => exact releaseCredit u
  | settle u => exact persistAck u
  | addConsumer name k => exact modifyQueue _ fun _ => rfl
  | removeConsumer name tag => exact removeConsumer name tag
  | removeConsumersByConnection name => exact removeConsumersByConnection name c
  | reorderQueues order => exact ⟨fun name => by rw [queue, Assoc.lookup_reorder, queue], fun _ => rfl⟩
  | reorderExchanges order => exact ⟨fun _ => rfl, fun name => Assoc.lookup_reorder ..⟩
  | oversize m => exact absurd hk (by decide)
  | recover m name => exact absurd hk (by decide)
  | recoverQueue => exact absurd hk (by decide)
  | exchanges m => exact absurd hk (by decide)
  | nameCounter n => exact absurd hk (by decide)
  | insertQueue => exact absurd hk (by decide)
  | eraseQueue name => exact absurd hk (by decide)
  | log e => exact absurd hk (by decide)
  | _ => exact of_eq rfl rfl

end SameTopology

namespace SameLog

theorem trans {s₁ s₂ : AmqpServer} (h₁ : SameLog s s₁) (h₂ : SameLog s₁ s₂) : SameLog s s₂ :=
  ⟨h₂.exchanges.trans h₁.exchanges, h₂.queues.trans h₁.queues, h₂.bindings.trans h₁.bindings⟩

theorem of_logged (h : s'.logged.contents = s.logged.contents) : SameLog s s' := by
  simp only [RecoveryData.contents, Contents.mk.injEq] at h
  exact ⟨h.1, h.2.1, h.2.2.1⟩

theorem of_store (h : s'.store = s.store) : SameLog s s' := of_logged (by rw [logged_of_store h])

end SameLog

/-! ### Traffic and the log -/

theorem Journaled.of_store (hs : s.Journaled) (h : s'.store = s.store) : s'.Journaled ∧ SameLog s s' :=
  ⟨journaled_of_store h hs, .of_store h⟩

theorem store_releaseCredit (u : UnackedMessage) : (s.releaseCredit u).store = s.store := by
  rw [releaseCredit]
  split <;> rfl

theorem store_removeConsumer (name tag : Bytes) : (s.removeConsumer name tag).store = s.store := by
  rw [removeConsumer]
  split
  · rfl
  · split <;> rfl

/-- The entries of the log after a message was stored. --/
theorem store_storeMessage {st : MessageStore} (hst : s.store = some st) (hwhole : Whole st) {name : Bytes} {r : Ref}
    (hw : (s.message r).properties.WellFormed) (hfit : (Entry.message (recordOf 0 name (s.message r))).Fits) :
    (s.storeMessage name r).store = some (st.storeMessage name (s.message r)).2 ∧
      parse (st.storeMessage name (s.message r)).2.wal =
        ((parse st.wal).1 ++ [.message (recordOf st.nextMsgId name (s.message r))], []) := by
  have happ : Appends st (st.storeMessage name (s.message r)).2 (.message (recordOf st.nextMsgId name (s.message r))) := by
    refine ⟨rfl, fun m hm => ?_, nofun⟩
    obtain rfl := Entry.message.inj hm
    exact ⟨rfl, rfl⟩
  refine ⟨?_, parse_appends happ hwhole ⟨hw, hfit⟩⟩
  rw [storeMessage, hst]
  rfl

/-- The record comes after the others, unless an ack in the log already has its id. --/
theorem logged_storeMessage {st : MessageStore} (hst : s.store = some st) (hwhole : Whole st) {name : Bytes} {r : Ref}
    (hw : (s.message r).properties.WellFormed) (hfit : (Entry.message (recordOf 0 name (s.message r))).Fits) :
    (s.storeMessage name r).logged.messages = s.logged.messages ++
      [recordOf st.nextMsgId name (s.message r)].filter fun m => !(parse st.wal).1.any fun e => e.acks m := by
  obtain ⟨hstore, hparse⟩ := store_storeMessage hst hwhole hw hfit
  have hlogged : ∀ {s : AmqpServer} {st : MessageStore}, s.store = some st →
      s.logged.messages = (recovered (parse st.wal).1).messages := by
    intro s st h
    have hrec : s.logged = st.recover.1 := by
      rw [logged, h]
      rfl
    rw [hrec, recover, recoverLocked_eq]
  rw [hlogged hstore, hlogged hst, hparse, recovered_messages_concat]

/-- A message record changes no declaration. --/
theorem Journaled.storeMessage (hs : s.Journaled) {name : Bytes} {r : Ref} (hw : (s.message r).properties.WellFormed)
    (hfit : (Entry.message (recordOf 0 name (s.message r))).Fits) :
    (s.storeMessage name r).Journaled ∧ SameLog s (s.storeMessage name r) := by
  obtain ⟨st, hst, hwhole⟩ := hs
  obtain ⟨hstore, hparse⟩ := store_storeMessage hst hwhole hw hfit
  have hlogged : (s.storeMessage name r).logged = (st.storeMessage name (s.message r)).2.recover.1 := by
    rw [logged, hstore]
    rfl
  have hold : s.logged = st.recover.1 := by
    rw [logged, hst]
    rfl
  refine ⟨⟨_, hstore, by rw [whole_iff, hparse]⟩, ?_⟩
  constructor <;>
    rw [hlogged, hold, recover, recoverLocked_eq, recover, recoverLocked_eq, hparse, recovered, foldl_apply_concat] <;> rfl

theorem Journaled.storeAck (hs : s.Journaled) {name : Bytes} (hname : name.length ≤ 255) (id : UInt64) :
    (s.modifyStore fun st => st.storeAck name id).Journaled ∧ SameLog s (s.modifyStore fun st => st.storeAck name id) ∧
      ∀ m ∈ (s.modifyStore fun st => st.storeAck name id).logged.messages, m ∈ s.logged.messages := by
  have hlen : (Entry.ack id name).payload.length ≤ 4096 := by
    rw [Entry.payload, List.length_append, length_writeString, length_writeUint64]
    omega
  obtain ⟨hj, hlog⟩ := logged_append hs (e := .ack id name) rfl (storable_of_length rfl hlen)
  refine ⟨hj, ?_, fun m hm => ?_⟩
  rotate_left
  · have hm : m ∈ (s.logged.contents.apply (.ack id name)).messages := hlog ▸ hm
    have hnone : (Entry.ack id name).message? = none := rfl
    rw [Contents.apply, hnone, Option.toList_none, List.append_nil] at hm
    exact (List.mem_filter.mp hm).1
  have hsame : ∀ c : Contents, c.exchanges = (c.apply (.ack id name)).exchanges ∧
      c.queues = (c.apply (.ack id name)).queues ∧ c.bindings = (c.apply (.ack id name)).bindings := by
    intro c
    simp [Contents.apply, Entry.removesExchange, Entry.exchange?, Entry.removesQueue, Entry.queue?, Entry.removesBinding,
      Entry.binding?]
  obtain ⟨hex, hq, hb⟩ := hsame s.logged.contents
  exact ⟨(congrArg Contents.exchanges hlog).trans hex.symm, (congrArg Contents.queues hlog).trans hq.symm,
    (congrArg Contents.bindings hlog).trans hb.symm⟩

/-- Traffic keeps what the log says about declarations and bindings. --/
theorem Journaled.move {k : Kind} (hs : s.Journaled) (hnames : ∀ name, s.hasQueue name → name.length ≤ 255)
    (hm : Move c k s s') (hk : k ∈ trafficKinds) : s'.Journaled ∧ SameLog s s' := by
  cases hm with
  | handOver idx => exact hs.of_store (store_of_skeleton (skeleton_handOver ..))
  | purge name => exact hs.of_store (store_of_skeleton (skeleton_purge _))
  | @store _ q name m hw hid hq hd hp hfit =>
    have hmsg : (s.newMessage m).message s.heap.size = m := by rw [message, newMessage, Heap.cell_alloc_self]
    obtain ⟨hj, hlog⟩ := @Journaled.storeMessage (s.newMessage m)
      (journaled_of_store rfl hs) name s.heap.size (by rw [hmsg]; exact hw) (by rw [hmsg]; exact hfit)
    have hnew : SameLog s (s.newMessage m) := .of_store rfl
    exact ⟨hj, hnew.trans hlog⟩
  | releaseCredit u => exact hs.of_store (store_releaseCredit u)
  | settle u =>
    have hcredit : ((s.releaseCredit u).record [.settled (s.origin u.message) u.queue_name]).Journaled ∧
        SameLog s ((s.releaseCredit u).record [.settled (s.origin u.message) u.queue_name]) :=
      hs.of_store (store_releaseCredit u)
    rw [persistAck]
    split
    · exact hcredit
    · rename_i q hq
      split
      · have hname : u.queue_name.length ≤ 255 := by
          refine hnames _ ?_
          rw [← (SameTopology.releaseCredit (s := s) u).hasQueue, hasQueue]
          exact Option.isSome_iff_exists.mpr ⟨q, hq⟩
        obtain ⟨hj, hlog, -⟩ := hcredit.1.storeAck hname
          (((s.releaseCredit u).record [.settled (s.origin u.message) u.queue_name]).message u.message).wal_id
        exact ⟨hj, hcredit.2.trans hlog⟩
      · exact hcredit
  | removeConsumer name tag => exact hs.of_store (store_removeConsumer name tag)
  | removeConsumersByConnection name => exact hs.of_store (removeConsumersByConnection_spec name c).2.1
  | compact =>
    obtain ⟨st, hst, -⟩ := hs
    refine ⟨⟨st.compactIfNeeded, by rw [modifyStore, hst]; rfl, whole_compactIfNeeded st⟩, .of_logged ?_⟩
    rw [logged, modifyStore, hst, logged, hst]
    exact compactIfNeeded_contents st
  | oversize m => exact absurd hk (by decide)
  | recover m name => exact absurd hk (by decide)
  | recoverQueue => exact absurd hk (by decide)
  | exchanges m => exact absurd hk (by decide)
  | nameCounter n => exact absurd hk (by decide)
  | insertQueue => exact absurd hk (by decide)
  | eraseQueue name => exact absurd hk (by decide)
  | log e => exact absurd hk (by decide)
  | _ => exact hs.of_store rfl

/-- The messages of the log are those before, unless one is stored or settled. --/
theorem Journaled.messages_eq_move {k : Kind} (hs : s.Journaled) (hm : Move c k s s') (hk : k ∈ trafficKinds)
    (hstore : k ≠ .store) (hsettle : k ≠ .settle) : s'.logged.messages = s.logged.messages := by
  have hsame : ∀ {s₁ : AmqpServer}, s₁.store = s.store → s₁.logged.messages = s.logged.messages := by
    intro s₁ h
    rw [logged_of_store h]
  cases hm with
  | handOver idx => exact hsame (store_of_skeleton (skeleton_handOver ..))
  | purge name => exact hsame (store_of_skeleton (skeleton_purge _))
  | store m => exact absurd rfl hstore
  | releaseCredit u => exact hsame (store_releaseCredit u)
  | settle u => exact absurd rfl hsettle
  | removeConsumer name tag => exact hsame (store_removeConsumer name tag)
  | removeConsumersByConnection name => exact hsame (removeConsumersByConnection_spec name c).2.1
  | compact =>
    obtain ⟨st, hst, -⟩ := hs
    rw [logged, modifyStore, hst, logged, hst]
    exact congrArg Contents.messages (compactIfNeeded_contents st)
  | oversize m => exact absurd hk (by decide)
  | recover m name => exact absurd hk (by decide)
  | recoverQueue => exact absurd hk (by decide)
  | exchanges m => exact absurd hk (by decide)
  | nameCounter n => exact absurd hk (by decide)
  | insertQueue => exact absurd hk (by decide)
  | eraseQueue name => exact absurd hk (by decide)
  | log e => exact absurd hk (by decide)
  | _ => exact hsame rfl

/-- A settlement adds no message to the log. --/
theorem Journaled.messages_persistAck (hs : s.Journaled) (hnames : ∀ name, s.hasQueue name → name.length ≤ 255)
    (u : UnackedMessage) {m : StoredMessage} (hmem : m ∈ (s.persistAck u).logged.messages) : m ∈ s.logged.messages := by
  have hcredit : ((s.releaseCredit u).record [.settled (s.origin u.message) u.queue_name]).store = s.store :=
    store_releaseCredit u
  rw [persistAck] at hmem
  split at hmem
  · rwa [logged_of_store hcredit] at hmem
  · rename_i q hq
    split at hmem
    · have hname : u.queue_name.length ≤ 255 := by
        refine hnames _ ?_
        rw [← (SameTopology.releaseCredit (s := s) u).hasQueue, hasQueue]
        exact Option.isSome_iff_exists.mpr ⟨q, hq⟩
      rw [← logged_of_store hcredit]
      exact ((hs.of_store hcredit).1.storeAck hname _).2.2 m hmem
    · rwa [logged_of_store hcredit] at hmem

theorem eq_persistAck_of_move {k : Kind} (hm : Move c k s s') (hk : k = .settle) : ∃ u, s' = s.persistAck u := by
  cases hm with
  | settle u => exact ⟨u, rfl⟩
  | send out => exact absurd (List.mem_singleton.mpr hk) (outgoingKind_not_mem (K := [.settle]) (by decide))
  | note num f hf hkind =>
    rcases hkind with rfl | ⟨rfl, -⟩
    · cases hk
    · cases hk
  | _ => cases hk

/-- Only a store adds to the messages of the log. --/
theorem Journaled.messages_move {k : Kind} (hs : s.Journaled) (hnames : ∀ name, s.hasQueue name → name.length ≤ 255)
    (hm : Move c k s s') (hk : k ∈ trafficKinds) (hstore : k ≠ .store) {m : StoredMessage} (hmem : m ∈ s'.logged.messages) :
    m ∈ s.logged.messages := by
  by_cases hsettle : k = .settle
  · obtain ⟨u, rfl⟩ := eq_persistAck_of_move hm hsettle
    exact hs.messages_persistAck hnames u hmem
  · rwa [hs.messages_eq_move hm hk hstore hsettle] at hmem

/-! ### Restarts -/

theorem recoveredFrom_blank {userStore : UserStore} {clock : Nat → Int} {readings : Nat} :
    RecoveredFrom {} (start none userStore clock readings) := by
  have hempty : ∀ exchange, (start none userStore clock readings).bindingsOf exchange = [] := by
    intro exchange
    rw [bindingsOf]
    cases hdef : (start none userStore clock readings).exchanges.lookup exchange with
    | none => rfl
    | some ex => rw [Option.map_some, bindings_defaultExchanges hdef]; rfl
  refine ⟨fun name => rfl, fun name => ?_, fun exchange b => by simp [hempty], fun _ _ hq => absurd hq.symm (Option.some_ne_none _)⟩
  rw [List.find?_nil, Option.map_none, Option.or_none]
  change (defaultExchanges.lookup name).map _ = _
  cases hdef : defaultExchanges.lookup name with
  | none => rfl
  | some ex => rw [Option.map_some, head_eq_self (bindings_defaultExchanges hdef)]

theorem recover_eq_of_wal {st st' : MessageStore} (h : st'.wal = st.wal) : st'.recover.1 = st.recover.1 := by
  rw [recover, recoverLocked_eq, recover, recoverLocked_eq, h]

theorem recoveredFrom_restart (s : AmqpServer) : RecoveredFrom s.logged s.restart := by
  rw [restart, logged]
  cases s.store with
  | none => exact recoveredFrom_blank
  | some st =>
    have heq : st.recover.1 = ({ wal := st.wal } : MessageStore).recover.1 := recover_eq_of_wal rfl
    dsimp only [Option.map_some, Option.getD_some]
    rw [heq]
    exact recoveredFrom_start.1

theorem store_restart {st : MessageStore} (hst : s.store = some st) :
    s.restart.store = some ({ wal := st.wal } : MessageStore).recover.2 := by
  rw [restart, hst]
  exact recoveredFrom_start.2

theorem logged_restart (s : AmqpServer) : s.restart.logged = s.logged := by
  cases hst : s.store with
  | none => rw [logged, restart, hst, logged, hst]; rfl
  | some st =>
    rw [logged, store_restart hst, logged, hst]
    exact recover_eq_of_wal rfl

theorem Journaled.restart (hs : s.Journaled) : s.restart.Journaled := by
  obtain ⟨st, hst, hw⟩ := hs
  refine ⟨_, store_restart hst, ?_⟩
  rw [whole_iff] at hw ⊢
  exact hw

namespace RecoveredFrom

variable {data : RecoveryData}

theorem hasQueue (h : RecoveredFrom data s) (name : Bytes) : s.hasQueue name ↔ ∃ d ∈ data.queues, d.name = name := by
  have hmap := congrArg Option.isSome (h.queues name)
  rw [Option.isSome_map, Option.isSome_map] at hmap
  rw [AmqpServer.hasQueue, hmap, List.find?_isSome]
  simp

theorem hasExchange (h : RecoveredFrom data s) (name : Bytes) :
    s.hasExchange name ↔ (defaultExchanges.lookup name).isSome ∨ ∃ d ∈ data.exchanges, d.name = name := by
  have hmap := congrArg Option.isSome (h.exchanges name)
  rw [Option.isSome_map, Option.isSome_or, Option.isSome_map] at hmap
  rw [AmqpServer.hasExchange, hmap, Bool.or_eq_true, List.find?_isSome]
  simp

theorem hasBinding (h : RecoveredFrom data s) (sb : StoredBinding) :
    s.hasBinding sb ↔ s.hasExchange sb.exchange ∧ (sb ∈ data.bindings ∨
      (sb.exchange = [] ∧ sb.routing_key = sb.queue ∧ ∃ d ∈ data.queues, d.name = sb.queue)) := by
  obtain ⟨queue, exchange, rk⟩ := sb
  rw [hasBinding_iff]
  simp only [h.bindings]
  constructor
  · rintro ⟨b, ⟨hex, ⟨sb, hsb, rfl, rfl⟩ | ⟨rfl, d, hd, rfl⟩⟩, hq, hrk⟩
    · obtain rfl := hq
      obtain rfl := hrk
      exact ⟨hex, .inl hsb⟩
    · obtain rfl := hq
      obtain rfl := hrk
      exact ⟨hex, .inr ⟨rfl, rfl, d, hd, rfl⟩⟩
  · rintro ⟨hex, hsb | ⟨rfl, rfl, d, hd, rfl⟩⟩
    · exact ⟨recoveredBinding _, ⟨hex, .inl ⟨_, hsb, rfl, rfl⟩⟩, rfl, rfl⟩
    · exact ⟨defaultBinding d.name, ⟨hex, .inr ⟨rfl, d, hd, rfl⟩⟩, rfl, rfl⟩

end RecoveredFrom

/-! ### Runs -/

/-- A step of a virtual host: an operation that meets the condition, or traffic. --/
inductive VHostStep (Ok : AmqpServer → VHostOp → Prop) : AmqpServer → AmqpServer → Prop
  | op {s : AmqpServer} {op : VHostOp} (hshort : op.Short) (hok : Ok s op) : VHostStep Ok s (s.perform op)
  | traffic {s s' : AmqpServer} {c : Nat} (h : Moves c trafficKinds s s') : VHostStep Ok s s'

/-- A run of a virtual host in which every operation meets the condition. --/
def VHostRun (Ok : AmqpServer → VHostOp → Prop) : AmqpServer → AmqpServer → Prop := Relation.ReflTransGen (VHostStep Ok)

/-- The operations of the list meet the condition, each in the state that it is made in. --/
def OpsOk (Ok : AmqpServer → VHostOp → Prop) : AmqpServer → List VHostOp → Prop
  | _, [] => True
  | s, op :: ops => op.Short ∧ Ok s op ∧ OpsOk Ok (s.perform op) ops

instance (Ok : AmqpServer → VHostOp → Prop) [∀ s op, Decidable (Ok s op)] :
    (s : AmqpServer) → (ops : List VHostOp) → Decidable (OpsOk Ok s ops)
  | _, [] => inferInstanceAs (Decidable True)
  | s, op :: ops =>
    have : Decidable (OpsOk Ok (s.perform op) ops) := instDecidableOpsOk Ok (s.perform op) ops
    inferInstanceAs (Decidable (op.Short ∧ Ok s op ∧ OpsOk Ok (s.perform op) ops))

variable {Ok : AmqpServer → VHostOp → Prop}

namespace VHostRun

theorem refl : VHostRun Ok s s := Relation.ReflTransGen.refl

theorem ops {ops : List VHostOp} (h : OpsOk Ok s ops) : VHostRun Ok s (ops.foldl perform s) := by
  induction ops generalizing s with
  | nil => exact refl
  | cons op ops ih =>
    obtain ⟨hshort, hok, hrest⟩ := h
    exact Relation.ReflTransGen.head (.op hshort hok) (ih hrest)

/-- The invariant rule. --/
theorem keeps {P : AmqpServer → Prop} (h : VHostRun Ok s s') (hop : ∀ s op, op.Short → Ok s op → P s → P (s.perform op))
    (htraffic : ∀ c k s s', k ∈ trafficKinds → Move c k s s' → P s → P s') (hs : P s) : P s' := by
  induction h with
  | refl => exact hs
  | tail _ hstep ih =>
    cases hstep with
    | op hshort hok => exact hop _ _ hshort hok ih
    | traffic hm => exact hm.keeps (fun k hk s s' hm hP => htraffic _ k s s' hk hm hP) ih

end VHostRun

end AmqpServer
end Broko.Broker
