import Broko.Theorems.Runs

/-! The authentication gate. A connection that has not got to `OPEN` has no channel, no queue and no consumer,
    and what it sends changes nothing in the virtual host, as long as it opens no channel and does not close
    while an abandoned auto-delete queue is there, or something of another connection with the same id. -/

namespace Broko.Broker
open Amqp Storage

namespace AmqpServer

/-! ### Outsiders -/

/-- Nothing in the state belongs to connection `c`. --/
structure Outsider (c : Nat) (s : AmqpServer) : Prop where
  channels : ∀ conn, s.connection c = some conn → conn.channels.entries = []
  owner : ∀ name q, s.queue name = some q → q.exclusive = true → q.owner_connection ≠ c
  consumers : ∀ name q, s.queue name = some q → ∀ k ∈ q.consumers,
    k < s.consumerHeap.size ∧ (s.consumer k).connection_id ≠ c

variable {c c' : Nat} {s s' : AmqpServer}

namespace Outsider

theorem iff_skeleton : Outsider c s ↔ Outsider c s.skeleton := by
  constructor
  · intro h
    refine ⟨fun conn hc => ?_, fun name q hq => ?_, fun name q hq k hk => ?_⟩
    · rw [connection_skeleton, Option.map_eq_some_iff] at hc
      obtain ⟨conn', hc', rfl⟩ := hc
      exact h.channels conn' hc'
    · rw [queue_skeleton, Option.map_eq_some_iff] at hq
      obtain ⟨q', hq', rfl⟩ := hq
      exact h.owner name q' hq'
    · rw [queue_skeleton, Option.map_eq_some_iff] at hq
      obtain ⟨q', hq', rfl⟩ := hq
      exact h.consumers name q' hq' k hk
  · intro h
    refine ⟨fun conn hc => ?_, fun name q hq => ?_, fun name q hq => ?_⟩
    · exact h.channels conn.frame (by rw [connection_skeleton, hc]; rfl)
    · exact h.owner name q.frame (by rw [queue_skeleton, hq]; rfl)
    · exact h.consumers name q.frame (by rw [queue_skeleton, hq]; rfl)

theorem of_skeleton (h : Outsider c s) (heq : s'.skeleton = s.skeleton) : Outsider c s' := by
  rwa [iff_skeleton, heq, ← iff_skeleton]

/-- Exchanges, the store and other parts that the predicate does not look at. --/
theorem congr (h : Outsider c s) (hc : s'.connections = s.connections) (hq : s'.queues = s.queues)
    (hk : s'.consumerHeap = s.consumerHeap) : Outsider c s' := by
  refine ⟨?_, ?_, ?_⟩
  · intro conn
    rw [connection, hc]
    exact h.channels conn
  · intro name q
    rw [queue, hq]
    exact h.owner name q
  · intro name q
    simp only [queue, hq, AmqpServer.consumer, hk]
    exact h.consumers name q

theorem modifyConnection (h : Outsider c s) {f : Connection → Connection}
    (hf : c' = c → ∀ conn, (f conn).channels = conn.channels) : Outsider c (s.modifyConnection c' f) := by
  refine ⟨fun conn hconn => ?_, h.owner, h.consumers⟩
  rw [connection, AmqpServer.modifyConnection, Assoc.lookup_modify] at hconn
  split at hconn
  · rename_i heq
    rw [Option.map_eq_some_iff] at hconn
    obtain ⟨conn', hconn', rfl⟩ := hconn
    rw [hf heq.symm]
    exact h.channels conn' (heq ▸ hconn')
  · exact h.channels conn hconn

theorem modifyChannel (h : Outsider c s) (hne : c' ≠ c) (num : UInt16) (f : Channel → Channel) :
    Outsider c (s.modifyChannel c' num f) :=
  h.modifyConnection fun heq => absurd heq hne

theorem modifyConsumer (h : Outsider c s) {k : Ref} {f : Consumer → Consumer}
    (hf : ∀ x, (f x).connection_id = x.connection_id) : Outsider c (s.modifyConsumer k f) := by
  refine ⟨h.channels, h.owner, fun name q hq k' hk' => ?_⟩
  have hsame : ((s.modifyConsumer k f).consumer k').connection_id = (s.consumer k').connection_id :=
    Heap.cell_modify_congr Consumer.connection_id hf k'
  rw [hsame]
  exact h.consumers name q hq k' hk'

theorem modifyQueue (h : Outsider c s) {name : Bytes} {f : MessageQueue → MessageQueue}
    (hexclusive : ∀ q, (f q).exclusive = q.exclusive) (howner : ∀ q, (f q).owner_connection = q.owner_connection)
    (hcons : ∀ q, s.queue name = some q → ∀ k ∈ (f q).consumers,
      k ∈ q.consumers ∨ (k < s.consumerHeap.size ∧ (s.consumer k).connection_id ≠ c)) :
    Outsider c (s.modifyQueue name f) := by
  have hlookup : ∀ name' q', (s.modifyQueue name f).queue name' = some q' →
      s.queue name' = some q' ∨ (name' = name ∧ ∃ q, s.queue name = some q ∧ f q = q') := by
    intro name' q' hq'
    rw [queue, AmqpServer.modifyQueue, Assoc.lookup_modify] at hq'
    split at hq'
    · rename_i heq
      rw [Option.map_eq_some_iff] at hq'
      exact .inr ⟨heq, hq'⟩
    · exact .inl hq'
  refine ⟨h.channels, fun name' q' hq' => ?_, fun name' q' hq' k hk => ?_⟩
  · rcases hlookup name' q' hq' with hq | ⟨rfl, q, hq, rfl⟩
    · exact h.owner name' q' hq
    · rw [hexclusive, howner]
      exact h.owner name' q hq
  · rcases hlookup name' q' hq' with hq | ⟨rfl, q, hq, rfl⟩
    · exact h.consumers name' q' hq k hk
    · rcases hcons q hq k hk with hk | hk
      · exact h.consumers name' q hq k hk
      · exact hk

theorem foldl {α : Type} {f : AmqpServer → α → AmqpServer} (hf : ∀ s a, Outsider c s → Outsider c (f s a))
    (l : List α) (h : Outsider c s) : Outsider c (l.foldl f s) := by
  induction l generalizing s with
  | nil => exact h
  | cons a l ih => exact ih (hf s a h)

/-! ### Other connections -/

theorem removeConsumer (h : Outsider c s) (name tag : Bytes) : Outsider c (s.removeConsumer name tag) := by
  rw [AmqpServer.removeConsumer]
  split
  · exact h
  · split
    · exact h
    · refine (h.modifyConsumer ?_).modifyQueue ?_ ?_ ?_
      · exact fun _ => rfl
      · exact fun _ => rfl
      · exact fun _ => rfl
      · exact fun q _ k hk => .inl (List.mem_of_mem_eraseP hk)

theorem removeConsumersByConnection (h : Outsider c s) (name : Bytes) (connId : Nat) :
    Outsider c (s.removeConsumersByConnection name connId) := by
  rw [AmqpServer.removeConsumersByConnection]
  split
  · exact h
  · refine (h.foldl ?_ _).modifyQueue ?_ ?_ ?_
    · intro s k hs
      refine hs.modifyConsumer ?_
      exact fun _ => rfl
    · exact fun _ => rfl
    · exact fun _ => rfl
    · exact fun q _ k hk => .inl (List.mem_filter.mp hk).1

theorem eraseQueue (h : Outsider c s) (name : Bytes) : Outsider c { s with queues := s.queues.erase name } := by
  have hlookup : ∀ name' q, (s.queues.erase name).lookup name' = some q → s.queue name' = some q :=
    fun name' q hq => Assoc.mem_entries.mp (Assoc.mem_erase.mp (Assoc.mem_entries.mpr hq)).2
  exact ⟨h.channels, fun name' q hq => h.owner name' q (hlookup name' q hq),
    fun name' q hq => h.consumers name' q (hlookup name' q hq)⟩

theorem insertQueue (h : Outsider c s) {name : Bytes} {q : MessageQueue}
    (howner : q.exclusive = true → q.owner_connection ≠ c) (hcons : q.consumers = []) : Outsider c { s with queues := s.queues.insert name q } := by
  have hlookup : ∀ name' q', (s.queues.insert name q).lookup name' = some q' → q' = q ∨ s.queue name' = some q' := by
    intro name' q' hq'
    rcases Assoc.mem_insert.mp (Assoc.mem_entries.mpr hq') with ⟨-, heq⟩ | ⟨-, hmem⟩
    · exact .inl heq
    · exact .inr (Assoc.mem_entries.mp hmem)
  refine ⟨h.channels, fun name' q' hq' => ?_, fun name' q' hq' k hk => ?_⟩
  · rcases hlookup name' q' hq' with rfl | hq'
    · exact howner
    · exact h.owner name' q' hq'
  · rcases hlookup name' q' hq' with rfl | hq'
    · rw [hcons] at hk
      cases hk
    · exact h.consumers name' q' hq' k hk

theorem releaseCredit (h : Outsider c s) (u : UnackedMessage) : Outsider c (s.releaseCredit u) := by
  rw [AmqpServer.releaseCredit]
  split
  · exact h
  · refine h.modifyConsumer ?_
    exact fun _ => rfl

theorem persistAck (h : Outsider c s) (u : UnackedMessage) : Outsider c (s.persistAck u) := by
  have hr := (h.releaseCredit u).of_skeleton (skeleton_record [.settled (s.origin u.message) u.queue_name])
  rw [AmqpServer.persistAck]
  split
  · exact hr
  · split
    · exact hr.congr rfl rfl rfl
    · exact hr

theorem storeMessage (h : Outsider c s) (qname : Bytes) (r : Ref) : Outsider c (s.storeMessage qname r) := by
  rw [AmqpServer.storeMessage]
  split
  · exact h
  · exact h.congr rfl rfl rfl

theorem newConsumer (h : Outsider c s) (k : Consumer) :
    Outsider c { s with consumerHeap := s.consumerHeap.alloc k } := by
  refine ⟨h.channels, h.owner, fun name q hq k' hk' => ?_⟩
  obtain ⟨hlt, hid⟩ := h.consumers name q hq k' hk'
  refine ⟨Nat.lt_succ_of_lt hlt, ?_⟩
  rw [AmqpServer.consumer, Heap.cell_alloc_of_ne hlt.ne]
  exact hid

theorem accept (h : Outsider c s) : Outsider c s.accept := by
  refine ⟨fun conn hconn => ?_, h.owner, h.consumers⟩
  rcases Assoc.mem_insert.mp (Assoc.mem_entries.mpr hconn) with ⟨-, rfl⟩ | ⟨-, hmem⟩
  · rfl
  · exact h.channels conn (Assoc.mem_entries.mp hmem)

theorem reorderQueues (h : Outsider c s) (order : List Bytes) :
    Outsider c { s with queues := s.queues.reorder order } := by
  have hlookup : ∀ name, (s.queues.reorder order).lookup name = s.queue name := Assoc.lookup_reorder _ _
  refine ⟨h.channels, fun name q hq => ?_, fun name q hq => ?_⟩
  · exact h.owner name q (hlookup name ▸ hq)
  · exact h.consumers name q (hlookup name ▸ hq)

/-- What another connection does gives `c` nothing. --/
theorem move (h : Outsider c s) {k : Kind} (hne : c' ≠ c) (hm : Move c' k s s') : Outsider c s' := by
  cases hm with
  | clock => exact h.of_skeleton skeleton_readClock
  | touch r f => exact h.of_skeleton (skeleton_modifyMessage r f)
  | mark reason r => exact h.of_skeleton (skeleton_modifyMessage r _)
  | letter r => exact h.of_skeleton (skeleton_modifyQueue fun _ => rfl)
  | expire hq hm => exact h.of_skeleton ((skeleton_record _).trans (skeleton_modifyQueue fun _ => rfl))
  | rotate name idx => exact h.of_skeleton (skeleton_modifyQueue fun _ => rfl)
  | handOver idx => exact h.of_skeleton (skeleton_handOver ..)
  | enqueue r => exact h.of_skeleton (skeleton_modifyQueue fun _ => rfl)
  | requeue name r => exact h.of_skeleton (skeleton_modifyQueue fun _ => rfl)
  | take name => exact h.of_skeleton (skeleton_modifyQueue fun _ => rfl)
  | purge name => exact h.of_skeleton (skeleton_purge name)
  | create m => exact h.of_skeleton (skeleton_newMessage m)
  | store m => exact (h.of_skeleton (skeleton_newMessage m)).storeMessage _ _
  | oversize m => exact (h.of_skeleton (skeleton_newMessage m)).storeMessage _ _
  | recover m name => exact h.of_skeleton (skeleton_newMessage m)
  | @recoverQueue _ q name hname hnew hm hk he ho =>
    exact h.insertQueue (fun hex => absurd (ho.symm.trans hex) Bool.false_ne_true) hk
  | send out => exact h.of_skeleton (skeleton_send c' out)
  | note num f => exact h.modifyChannel hne num f
  | handshake f => exact h.modifyConnection fun heq => absurd heq hne
  | pending num p => exact h.modifyChannel hne num _
  | hold num u => exact (h.modifyChannel hne num _).modifyChannel hne num _
  | takeTag num => exact h.modifyChannel hne num _
  | releaseCredit u => exact h.releaseCredit u
  | eraseUnacked num tag => exact h.modifyChannel hne num _
  | clearUnacked num => exact h.modifyChannel hne num _
  | settle u => exact h.persistAck u
  | remove r name => exact h.of_skeleton (skeleton_record _)
  | newConsumer k hk => exact h.newConsumer k
  | mapConsumer num => exact h.modifyChannel hne num _
  | addConsumer name k hk hid =>
    refine h.modifyQueue (fun _ => rfl) (fun _ => rfl) fun q _ k' hk' => ?_
    rcases List.mem_append.mp hk' with hk' | hk'
    · exact .inl hk'
    · obtain rfl := List.mem_singleton.mp hk'
      exact .inr ⟨hk, hid ▸ hne⟩
  | removeConsumer name tag => exact h.removeConsumer name tag
  | unmapConsumer num => exact h.modifyChannel hne num _
  | unmapConsumers num => exact h.modifyChannel hne num _
  | removeConsumersByConnection name => exact h.removeConsumersByConnection name c'
  | openChannel num =>
    have hnext : Outsider c { s with nextChannel := s.nextChannel + 1 } := h.congr rfl rfl rfl
    exact hnext.modifyConnection fun heq => absurd heq hne
  | setClosed num => exact h.modifyChannel hne num _
  | dropChannel num => exact h.modifyConnection fun heq => absurd heq hne
  | shut => exact h.modifyConnection fun heq => absurd heq hne
  | dropChannels => exact h.modifyConnection fun heq => absurd heq hne
  | exchanges m => exact h.congr rfl rfl rfl
  | nameCounter n => exact h.congr rfl rfl rfl
  | @insertQueue _ q name hname hnew hm hk he ho =>
    exact h.insertQueue (fun hex => ho hex ▸ hne) hk
  | eraseQueue name => exact h.eraseQueue name
  | log e => exact h.congr rfl rfl rfl
  | popTask => exact h.modifyConnection fun heq => absurd heq hne
  | accept => exact h.accept
  | compact => exact h.congr rfl rfl rfl
  | reorderQueues order => exact h.reorderQueues order
  | reorderExchanges order => exact h.congr rfl rfl rfl
  | reorderChannels order => exact h.modifyConnection fun heq => absurd heq hne
  | reorderConsumers num order => exact h.modifyChannel hne num _
  | reorderUnacked num order => exact h.modifyChannel hne num _

end Outsider

/-! ### The connection of an outsider -/

theorem connection_of_skeleton (h : s'.skeleton = s.skeleton) :
    (s'.connection c).map Connection.frame = (s.connection c).map Connection.frame := by
  rw [← connection_skeleton, h, connection_skeleton]

theorem connection_modifyConnection_of_ne (hne : c' ≠ c) (f : Connection → Connection) :
    (s.modifyConnection c' f).connection c = s.connection c :=
  Assoc.lookup_modify_of_ne (Ne.symm hne)

/-- What another connection does leaves the connection in its state, unless it is only now accepted. --/
theorem connection_of_move {k : Kind} (hne : c' ≠ c) (hm : Move c' k s s') :
    (s'.connection c).map Connection.frame = (s.connection c).map Connection.frame ∨ s'.connection c = some {} := by
  have hmod : ∀ f : Connection → Connection,
      ((s.modifyConnection c' f).connection c).map Connection.frame = (s.connection c).map Connection.frame := fun f => by
    rw [connection_modifyConnection_of_ne hne]
  cases hm with
  | handOver idx => exact .inl (connection_of_skeleton (skeleton_handOver ..))
  | purge name => exact .inl (connection_of_skeleton (skeleton_purge name))
  | send out => exact .inl (connection_of_skeleton (skeleton_send c' out))
  | store m => exact .inl (congrArg (fun m => (m.lookup c).map Connection.frame) (connections_storeMessage ..))
  | oversize m => exact .inl (congrArg (fun m => (m.lookup c).map Connection.frame) (connections_storeMessage ..))
  | releaseCredit u =>
    refine .inl ?_
    rw [releaseCredit]
    split <;> rfl
  | settle u =>
    refine .inl ?_
    rw [connection, connections_persistAck, ← connection]
  | removeConsumer name tag =>
    refine .inl ?_
    rw [removeConsumer]
    split
    · rfl
    · split <;> rfl
  | removeConsumersByConnection name =>
    refine .inl ?_
    rw [connection, connections_removeConsumersByConnection, ← connection]
  | note num f => exact .inl (hmod _)
  | handshake f => exact .inl (hmod _)
  | pending num p => exact .inl (hmod _)
  | hold num u =>
    refine .inl ?_
    have heq : (s.hold c' num u).takeTag c' num = s.modifyChannel c' num _ := modifyChannel_modifyChannel ..
    rw [heq]
    exact hmod _
  | takeTag num => exact .inl (hmod _)
  | eraseUnacked num tag => exact .inl (hmod _)
  | clearUnacked num => exact .inl (hmod _)
  | mapConsumer num => exact .inl (hmod _)
  | unmapConsumer num => exact .inl (hmod _)
  | unmapConsumers num => exact .inl (hmod _)
  | openChannel num => exact .inl (hmod _)
  | setClosed num => exact .inl (hmod _)
  | dropChannel num => exact .inl (hmod _)
  | shut => exact .inl (hmod _)
  | dropChannels => exact .inl (hmod _)
  | popTask => exact .inl (hmod _)
  | reorderChannels order => exact .inl (hmod _)
  | reorderConsumers num order => exact .inl (hmod _)
  | reorderUnacked num order => exact .inl (hmod _)
  | accept =>
    by_cases hc : c = s.nextConnectionId
    · refine .inr ?_
      rw [hc]
      exact Assoc.lookup_insert_self ..
    · refine .inl ?_
      rw [connection, accept, Assoc.lookup_insert_of_ne hc]
      rfl
  | _ => exact .inl rfl

/-! ### The end of a connection -/

/-- The queue stays as it is at the end of connection `c`. --/
structure Unharmed (c : Nat) (s : AmqpServer) (q : MessageQueue) : Prop where
  abandoned : abandoned q = false
  owner : ownedBy c q = false
  consumers : ∀ k ∈ q.consumers, idOf (s.consumer k).connection_id ≠ idOf c

theorem removeConnectionQueues_eq (h : ∀ name q, s.queue name = some q → Unharmed c s q) :
    s.removeConnectionQueues c = s := by
  have hnone : ∀ p : MessageQueue → Bool, (∀ name q, s.queue name = some q → p q = false) → s.queueNames p = [] := by
    intro p hp
    rw [queueNames, List.map_eq_nil_iff, List.filter_eq_nil_iff]
    rintro ⟨name, q⟩ hmem
    rw [hp name q (Assoc.mem_entries.mp hmem)]
    exact Bool.false_ne_true
  have hconsumers : ∀ name, s.removeConsumersByConnection name c = s := by
    intro name
    rw [AmqpServer.removeConsumersByConnection]
    split
    · rfl
    · rename_i q hq
      have hall := (h name q hq).consumers
      have hgone : q.consumers.filter (fun k => idOf (s.consumer k).connection_id = idOf c) = [] := by
        rw [List.filter_eq_nil_iff]
        exact fun k hk => by simpa using hall k hk
      dsimp only
      rw [hgone, List.foldl_nil, AmqpServer.modifyQueue, Assoc.modify_eq_self]
      intro q' hq'
      obtain rfl : q = q' := Option.some.inj (hq.symm.trans hq')
      rw [List.filter_eq_self.mpr fun k hk => by simpa using hall k hk]
  have hfold : ∀ l : List Bytes, l.foldl (fun s name => s.removeConsumersByConnection name c) s = s := by
    intro l
    induction l with
    | nil => rfl
    | cons name l ih => rw [List.foldl_cons, hconsumers, ih]
  rw [removeConnectionQueues, hnone (ownedBy c) fun name q hq => (h name q hq).owner]
  simp only [hfold, List.foldl_nil, hnone abandoned fun name q hq => (h name q hq).abandoned]

/-! ### Effects of a frame -/

/-- A message to the client is one content header, with a method frame before and body frames after it. --/
def isContent : Outgoing → Bool
  | .frame f => f.type = FRAME_HEADER
  | .protocolHeader => false

def contentSent (c : Nat) (s : AmqpServer) : List Outgoing :=
  ((s.connection c).map fun conn => conn.sent.filter isContent).getD []

def posted (c : Nat) (s : AmqpServer) : List DeliverTask := ((s.connection c).map Connection.strand).getD []

/-- Between the two states the virtual host has changed, or client `c` was sent a message. --/
def Affects (c : Nat) (s s' : AmqpServer) : Prop :=
  s'.exchanges ≠ s.exchanges ∨ s'.queues ≠ s.queues ∨ s'.heap ≠ s.heap ∨ s'.consumerHeap ≠ s.consumerHeap ∨
    s'.store ≠ s.store ∨ contentSent c s' ≠ contentSent c s ∨ posted c s' ≠ posted c s

/-- The states between an accepted Start-Ok and the end. --/
def authenticated : State → Bool
  | .AWAITING_TUNE_OK => true
  | .AWAITING_OPEN => true
  | .OPEN => true
  | _ => false

/-- How the connection of an outsider may change: it gets no channel, no message, and no further than the
    Start-Ok unless `V` holds. --/
structure Hushed (V : Prop) (conn conn' : Connection) : Prop where
  channels : conn.channels.entries = [] → conn'.channels.entries = []
  strand : conn'.strand = conn.strand
  content : conn'.sent.filter isContent = conn.sent.filter isContent
  state : authenticated conn'.state = true → authenticated conn.state = true ∨ V

/-- A step of an outsider that has no effect. --/
structure Silent (V : Prop) (c : Nat) (s s' : AmqpServer) : Prop where
  exchanges : s'.exchanges = s.exchanges
  queues : s'.queues = s.queues
  heap : s'.heap = s.heap
  consumerHeap : s'.consumerHeap = s.consumerHeap
  store : s'.store = s.store
  connection : ∃ f, s'.connection c = (s.connection c).map f ∧ ∀ conn, s.connection c = some conn → Hushed V conn (f conn)

namespace Silent

variable {V : Prop} {s₁ : AmqpServer}

theorem refl : Silent V c s s :=
  ⟨rfl, rfl, rfl, rfl, rfl, id, Option.map_id.symm ▸ rfl, fun _ _ => ⟨id, rfl, rfl, .inl⟩⟩

theorem trans (h₁ : Silent V c s s₁) (h₂ : Silent V c s₁ s') : Silent V c s s' := by
  obtain ⟨f, hf, hushed⟩ := h₁.connection
  obtain ⟨g, hg, hushed'⟩ := h₂.connection
  refine ⟨h₂.exchanges.trans h₁.exchanges, h₂.queues.trans h₁.queues, h₂.heap.trans h₁.heap,
    h₂.consumerHeap.trans h₁.consumerHeap, h₂.store.trans h₁.store, g ∘ f, ?_, fun conn hconn => ?_⟩
  · rw [hg, hf, Option.map_map]
  · have h := hushed conn hconn
    have h' := hushed' (f conn) (by rw [hf, hconn]; rfl)
    refine ⟨fun hch => h'.channels (h.channels hch), h'.strand.trans h.strand, h'.content.trans h.content, fun hst => ?_⟩
    rcases h'.state hst with hst | hv
    · exact h.state hst
    · exact .inr hv

theorem modifyConnection {f : Connection → Connection} (hf : ∀ conn, s.connection c = some conn → Hushed V conn (f conn)) :
    Silent V c s (s.modifyConnection c f) :=
  ⟨rfl, rfl, rfl, rfl, rfl, f, Assoc.lookup_modify_self .., hf⟩

theorem outsider (hs : Silent V c s s') (h : Outsider c s) : Outsider c s' := by
  obtain ⟨f, hf, hushed⟩ := hs.connection
  refine ⟨fun conn' hconn' => ?_, fun name q hq => ?_, fun name q hq => ?_⟩
  · rw [hf, Option.map_eq_some_iff] at hconn'
    obtain ⟨conn, hconn, rfl⟩ := hconn'
    exact (hushed conn hconn).channels (h.channels conn hconn)
  · rw [queue, hs.queues] at hq
    exact h.owner name q hq
  · rw [queue, hs.queues] at hq
    rw [hs.consumerHeap, show AmqpServer.consumer s' = AmqpServer.consumer s by
      funext k; rw [AmqpServer.consumer, hs.consumerHeap, ← AmqpServer.consumer]]
    exact h.consumers name q hq

theorem not_affects (hs : Silent V c s s') : ¬Affects c s s' := by
  obtain ⟨f, hf, hushed⟩ := hs.connection
  have hsame : contentSent c s' = contentSent c s ∧ posted c s' = posted c s := by
    rw [contentSent, contentSent, posted, posted, hf]
    cases hconn : s.connection c with
    | none => exact ⟨rfl, rfl⟩
    | some conn => exact ⟨(hushed conn hconn).content, (hushed conn hconn).strand⟩
  rintro (h | h | h | h | h | h | h)
  · exact h hs.exchanges
  · exact h hs.queues
  · exact h hs.heap
  · exact h hs.consumerHeap
  · exact h hs.store
  · exact h hsame.1
  · exact h hsame.2

theorem send {out : Outgoing} (hout : isContent out = false) : Silent V c s (s.send c out) := by
  refine modifyConnection fun conn _ => ⟨id, rfl, ?_, .inl⟩
  simp [List.filter_append, hout]

theorem sendMethodFrame (num classId methodId : UInt16) (args : Bytes) :
    Silent V c s (s.sendMethodFrame c num classId methodId args) :=
  send rfl

theorem setState {f : Connection → Connection} (hf : ∀ conn, (f conn).channels = conn.channels ∧
    (f conn).strand = conn.strand ∧ (f conn).sent = conn.sent)
    (hstate : ∀ conn, s.connection c = some conn → authenticated (f conn).state = true → authenticated conn.state = true ∨ V) :
    Silent V c s (s.modifyConnection c f) := by
  refine modifyConnection fun conn hconn => ?_
  obtain ⟨hch, hstrand, hsent⟩ := hf conn
  exact ⟨fun h => hch ▸ h, hstrand, by rw [hsent], hstate conn hconn⟩

theorem sendConnectionClose (replyCode : UInt16) (replyText : Bytes) (classId methodId : UInt16) :
    Silent V c s (s.sendConnectionClose c replyCode replyText classId methodId) := by
  rw [AmqpServer.sendConnectionClose]
  split
  · exact refl
  · split
    · exact refl
    · have hclosing : Silent V c s (s.modifyConnection c fun conn => { conn with state := .CLOSING }) :=
        setState (fun _ => ⟨rfl, rfl, rfl⟩) fun _ _ h => by cases h
      exact hclosing.trans (sendMethodFrame ..)

theorem stopReading (replyText : Bytes) : Silent V c s (s.stopReading c replyText) := by
  refine (sendConnectionClose ..).trans (setState ?_ ?_)
  · exact fun _ => ⟨rfl, rfl, rfl⟩
  · exact fun _ _ => .inl

/-! ### Methods of an outsider -/

/-- An outsider has no channel to close. --/
theorem cleanupAllChannels (h : Outsider c s) : Silent V c s
    ((s.modifyConnection c fun conn => { conn with state := .CLOSED, reading := false }).cleanupAllChannels c) := by
  have hclosed : Silent V c s (s.modifyConnection c fun conn => { conn with state := .CLOSED, reading := false }) :=
    setState (fun _ => ⟨rfl, rfl, rfl⟩) fun _ _ h => by cases h
  refine hclosed.trans ?_
  rw [AmqpServer.cleanupAllChannels]
  split
  · exact refl
  · rename_i conn' hconn'
    rw [Assoc.keys, (hclosed.outsider h).channels conn' hconn', List.map_nil, List.foldl_nil]
    exact modifyConnection fun _ _ => ⟨fun _ => rfl, rfl, rfl, .inl⟩

theorem shutdown (h : Outsider c s) (hspared : ∀ name q, s.queue name = some q → Unharmed c s q) :
    Silent V c s (s.shutdown c) := by
  rw [AmqpServer.shutdown]
  split
  · exact refl
  · split
    · exact refl
    · have hclean := cleanupAllChannels (V := V) h
      rw [removeConnectionQueues_eq fun name q hq => ?_]
      · exact hclean
      · obtain ⟨hab, howner, hconsumers⟩ := hspared name q (by rwa [queue, hclean.queues] at hq)
        refine ⟨hab, howner, fun k hk => ?_⟩
        rw [AmqpServer.consumer, hclean.consumerHeap]
        exact hconsumers k hk

end Silent

/-- A Start-Ok of the right state whose credentials `UserStore::verify` accepts. --/
structure StartOkPasses (c : Nat) (s : AmqpServer) (frame : Frame) : Prop where
  state : (s.connection c).map Connection.state = some .AWAITING_START_OK
  type : frame.type = FRAME_METHOD
  channel : frame.channel = 0
  credentials : ∃ args rest mechanism user pass,
    readMethodIds (Buffer.ofBytes frame.payload) = .ok ((class_id.CONNECTION, connection_method.START_OK), args) ∧
      readStartOk args = .ok (.ok (mechanism, user, pass), rest) ∧ s.userStore.verify user pass = true

namespace Silent

variable {V : Prop}

theorem handleStartOk {buf : Buffer}
    (hV : (s.connection c).map Connection.state = some .AWAITING_START_OK → ∀ mechanism user pass rest,
      readStartOk buf = .ok (.ok (mechanism, user, pass), rest) → s.userStore.verify user pass = true → V) :
    Silent V c s (outcome (s.handleStartOk c buf)) := by
  have htune : ∀ s₁ : AmqpServer, Silent V c s₁ (s₁.sendConnectionTune c) := by
    intro s₁
    rw [sendConnectionTune]
    split
    · exact refl
    · exact sendMethodFrame ..
  rw [AmqpServer.handleStartOk]
  split
  · exact sendConnectionClose ..
  · rename_i hstate
    rw [ne_eq, not_not] at hstate
    rw [withArgs]
    split
    · exact refl
    · rename_i args rest hread
      dsimp only [outcome]
      split
      · exact sendConnectionClose ..
      · split
        · rename_i mechanism user pass hverify
          have hauth : Silent V c s
              (s.modifyConnection c fun conn => { conn with authUser := user, state := .AWAITING_TUNE_OK }) :=
            setState (fun _ => ⟨rfl, rfl, rfl⟩) fun _ _ _ => .inr (hV hstate mechanism user pass rest hread hverify)
          exact hauth.trans (htune _)
        · exact sendConnectionClose ..

theorem handleTuneOk (buf : Buffer) : Silent V c s (outcome (s.handleTuneOk c buf)) := by
  rw [AmqpServer.handleTuneOk]
  split
  · exact sendConnectionClose ..
  · rename_i hstate
    rw [ne_eq, not_not, Option.map_eq_some_iff] at hstate
    obtain ⟨conn, hconn, hstate⟩ := hstate
    refine outcome_withArgs refl fun args => ?_
    refine modifyConnection fun conn' hconn' => ⟨id, rfl, rfl, fun _ => .inl ?_⟩
    obtain rfl : conn = conn' := Option.some.inj (hconn.symm.trans hconn')
    rw [hstate]
    rfl

theorem handleConnectionOpen (buf : Buffer) : Silent V c s (outcome (s.handleConnectionOpen c buf)) := by
  rw [AmqpServer.handleConnectionOpen]
  split
  · exact sendConnectionClose ..
  · rename_i hstate
    rw [ne_eq, not_not, Option.map_eq_some_iff] at hstate
    obtain ⟨conn, hconn, hstate⟩ := hstate
    refine outcome_withArgs refl fun virtualHost => ?_
    split
    · exact sendConnectionClose ..
    · have hopen : Silent V c s (s.modifyConnection c fun conn => { conn with state := .OPEN }) := by
        refine modifyConnection fun conn' hconn' => ⟨id, rfl, rfl, fun _ => .inl ?_⟩
        obtain rfl : conn = conn' := Option.some.inj (hconn.symm.trans hconn')
        rw [hstate]
        rfl
      exact hopen.trans (sendMethodFrame ..)

end Silent

/-- The frames of an unopened connection at which the gate holds: no Channel.Open that is served, and no close
    of the connection that takes away an abandoned queue, or what another connection with the same id has. --/
structure Gated (c : Nat) (s : AmqpServer) (frame : Frame) : Prop where
  channelOpen : methodIds frame = some (class_id.CHANNEL, channel_method.OPEN) →
    ∀ conn, s.connection c = some conn → conn.state = .CLOSING ∨ frame.channel = 0 ∨ conn.channelMax < frame.channel
  close : methodIds frame = some (class_id.CONNECTION, connection_method.CLOSE) ∨
      methodIds frame = some (class_id.CONNECTION, connection_method.CLOSE_OK) →
    ∀ name q, s.queue name = some q → Unharmed c s q

theorem Outsider.channel_eq_none (h : Outsider c s) (num : UInt16) : s.channel c num = none := by
  rw [channel]
  cases hconn : s.connection c with
  | none => rfl
  | some conn =>
    rw [Option.bind_some, Assoc.lookup, h.channels conn hconn]
    rfl

namespace Silent

theorem handleConnectionMethod {frame : Frame} {methodId : UInt16} {buf : Buffer} (h : Outsider c s)
    (hg : Gated c s frame) (htype : frame.type = FRAME_METHOD) (hnum : frame.channel = 0)
    (hids : readMethodIds (Buffer.ofBytes frame.payload) = .ok ((class_id.CONNECTION, methodId), buf)) :
    Silent (StartOkPasses c s frame) c s (outcome (s.handleConnectionMethod c methodId buf)) := by
  have hmethod : methodIds frame = some (class_id.CONNECTION, methodId) := by
    rw [methodIds, if_pos htype, hids]
  rw [AmqpServer.handleConnectionMethod]
  split
  · rename_i hm
    obtain rfl := hm
    refine handleStartOk fun hstate mechanism user pass rest hread hverify => ?_
    exact ⟨hstate, htype, hnum, buf, rest, mechanism, user, pass, hids, hread, hverify⟩
  · refine outcome_ite (handleTuneOk buf) (outcome_ite (handleConnectionOpen buf) ?_)
    split
    · rename_i hm
      refine outcome_withArgs refl fun _ => (sendMethodFrame ..).trans (shutdown ?_ ?_)
      · exact (sendMethodFrame (V := True) ..).outsider h
      · intro name q hq
        obtain ⟨hab, howner, hconsumers⟩ := hg.close (.inl (hm ▸ hmethod)) name q hq
        exact ⟨hab, howner, hconsumers⟩
    · split
      · rename_i hm
        exact shutdown h (hg.close (.inr (hm ▸ hmethod)))
      · exact sendConnectionClose ..

theorem handleMethodFrame {frame : Frame} (h : Outsider c s) (hg : Gated c s frame) (htype : frame.type = FRAME_METHOD)
    (hstate : (s.connection c).map Connection.state ≠ some .CLOSING) :
    Silent (StartOkPasses c s frame) c s
      (outcome (s.handleMethodFrame c frame.channel (Buffer.ofBytes frame.payload))) := by
  have hnone := h.channel_eq_none frame.channel
  have hclean : s.cleanupChannel c frame.channel = s := by rw [cleanupChannel, hnone]
  rw [AmqpServer.handleMethodFrame]
  split
  · exact refl
  · rename_i classId methodId buf hids
    split
    · rename_i hclass
      obtain rfl := hclass
      split
      · exact sendConnectionClose ..
      · rename_i hnum
        exact handleConnectionMethod h hg htype (not_not.mp hnum) hids
    · split
      · -- A Channel.Open that is not served: the number is refused.
        rename_i hopen
        obtain ⟨rfl, rfl⟩ := hopen
        refine outcome_withArgs refl fun _ => ?_
        split
        · exact refl
        · rename_i conn hconn
          have hmethod : methodIds frame = some (class_id.CHANNEL, channel_method.OPEN) := by
            rw [methodIds, if_pos htype, hids]
          rcases hg.channelOpen hmethod conn hconn with hst | hnum
          · rw [hconn, Option.map_some, hst] at hstate
            exact absurd rfl hstate
          · rw [if_pos hnum]
            exact sendConnectionClose ..
      · rw [AmqpServer.handleChannelClose, hclean]
        refine outcome_ite (outcome_withArgs refl fun _ => sendMethodFrame ..) (outcome_ite refl (outcome_ite ?_ ?_))
        · exact outcome_withArgs refl fun _ => sendMethodFrame ..
        · rw [handleOnChannel, openChannelAt, hnone]
          exact sendConnectionClose ..

theorem handleFrame {frame : Frame} (h : Outsider c s) (hg : Gated c s frame) :
    Silent (StartOkPasses c s frame) c s (outcome (s.handleFrame c frame)) := by
  have hnone : s.openChannelAt c frame.channel = none := by rw [openChannelAt, h.channel_eq_none]; rfl
  rw [AmqpServer.handleFrame]
  split
  · rename_i hclosing
    rw [handleClosing]
    split
    · exact refl
    · rename_i classId methodId buf hids
      dsimp only [outcome]
      split
      · rename_i hok
        obtain ⟨rfl, rfl⟩ := hok
        exact shutdown h (hg.close (.inr (by rw [methodIds, if_pos hclosing.2, hids])))
      · exact refl
  · rename_i hclosing
    split
    · rename_i htype
      exact handleMethodFrame h hg htype fun hst => hclosing ⟨hst, htype⟩
    · rw [hnone]
      exact outcome_ite refl (outcome_ite refl (outcome_ite refl (sendConnectionClose ..)))

theorem mono {V V' : Prop} (h : Silent V c s s') (hV : V → V') : Silent V' c s s' := by
  obtain ⟨f, hf, hushed⟩ := h.connection
  refine ⟨h.exchanges, h.queues, h.heap, h.consumerHeap, h.store, f, hf, fun conn hconn => ?_⟩
  have hc := hushed conn hconn
  exact ⟨hc.channels, hc.strand, hc.content, fun hst => (hc.state hst).imp_right hV⟩

/-- The frames of an outsider that the gate is meant for. --/
theorem handle_frame {frame : Frame} (h : Outsider c s) (hg : Gated c s frame) (frameEnd : UInt8) :
    Silent (Served c s frame frameEnd ∧ StartOkPasses c s frame) c s (s.handle (.frame c frame frameEnd)) := by
  rcases handle_frame_cases c s frame frameEnd with ⟨-, heq | ⟨text, heq⟩⟩ | ⟨hserved, hframe⟩
  · rw [heq]
    exact refl
  · rw [heq]
    exact stopReading _
  · have hhandled := (handleFrame h hg).mono fun hv => And.intro hserved hv
    rcases hframe with hok | ⟨s', text, herror, heq⟩
    · rwa [hok] at hhandled
    · rw [herror] at hhandled
      rw [heq]
      exact hhandled.trans (stopReading _)

end Silent

/-! ### Other events -/

/-- The connection is past its Start-Ok, and not yet closing. --/
def AuthIn (c : Nat) (s : AmqpServer) : Prop := ∃ conn, s.connection c = some conn ∧ authenticated conn.state = true

theorem Silent.authIn {V : Prop} (h : Silent V c s s') (hauth : AuthIn c s') : AuthIn c s ∨ V := by
  obtain ⟨conn', hconn', hst⟩ := hauth
  obtain ⟨f, hf, hushed⟩ := h.connection
  rw [hf, Option.map_eq_some_iff] at hconn'
  obtain ⟨conn, hconn, rfl⟩ := hconn'
  rcases (hushed conn hconn).state hst with hst | hv
  · exact .inl ⟨conn, hconn, hst⟩
  · exact .inr hv

theorem authIn_of_move {k : Kind} (hne : c' ≠ c) (hm : Move c' k s s') (h : AuthIn c s') : AuthIn c s := by
  obtain ⟨conn', hconn', hst⟩ := h
  rcases connection_of_move hne hm with hmap | hnew
  · rw [hconn', Option.map_some, eq_comm, Option.map_eq_some_iff] at hmap
    obtain ⟨conn, hconn, hframe⟩ := hmap
    have hstate : conn.frame.state = conn'.frame.state := by rw [hframe]
    exact ⟨conn, hconn, (show conn.state = conn'.state from hstate) ▸ hst⟩
  · rw [hnew] at hconn'
    obtain rfl := Option.some.inj hconn'
    cases hst

namespace Outsider

/-- The end of the connection takes queues away, but gives it nothing. --/
theorem removeConnectionQueues (h : Outsider c s) (connId : Nat) :
    Outsider c (s.removeConnectionQueues connId) ∧ (s.removeConnectionQueues connId).connections = s.connections := by
  have hfold : ∀ {f : AmqpServer → Bytes → AmqpServer} (l : List Bytes) (s₀ : AmqpServer),
      (∀ s name, Outsider c s → Outsider c (f s name) ∧ (f s name).connections = s.connections) → Outsider c s₀ →
      Outsider c (l.foldl f s₀) ∧ (l.foldl f s₀).connections = s₀.connections := by
    intro f l
    induction l with
    | nil => exact fun _ _ h₀ => ⟨h₀, rfl⟩
    | cons name l ih =>
      intro s₀ hf h₀
      obtain ⟨h₁, hc₁⟩ := hf s₀ name h₀
      obtain ⟨h₂, hc₂⟩ := ih _ hf h₁
      exact ⟨h₂, hc₂.trans hc₁⟩
  have h₁ := hfold (s.queueNames fun q => !ownedBy connId q) s
    (fun _ name hs => ⟨hs.removeConsumersByConnection name connId, connections_removeConsumersByConnection ..⟩) h
  have hsweep : ∀ (s : AmqpServer) name, Outsider c s → Outsider c (s.removeBindingsOf name) :=
    fun _ _ hs => hs.congr rfl rfl rfl
  have h₂ := hfold (s.queueNames (ownedBy connId)) _ (fun s name hs => ⟨(hsweep s name hs).eraseQueue name, rfl⟩) h₁.1
  rw [AmqpServer.removeConnectionQueues]
  obtain ⟨h₃, hc₃⟩ := hfold _ _ (fun _ name hs => ⟨hs.eraseQueue name, rfl⟩) h₂.1
  exact ⟨h₃, hc₃.trans (h₂.2.trans h₁.2)⟩

theorem shutdown (h : Outsider c s) : Outsider c (s.shutdown c) ∧ (AuthIn c (s.shutdown c) → AuthIn c s) := by
  rw [AmqpServer.shutdown]
  split
  · exact ⟨h, id⟩
  · split
    · exact ⟨h, id⟩
    · have hclean := Silent.cleanupAllChannels (V := False) h
      obtain ⟨hout, hconn⟩ := (hclean.outsider h).removeConnectionQueues c
      refine ⟨hout, fun hauth => ?_⟩
      rw [AuthIn, connection, hconn] at hauth
      exact (hclean.authIn hauth).resolve_right id

theorem runTask (h : Outsider c s) : Outsider c (s.runTask c) ∧ (AuthIn c (s.runTask c) → AuthIn c s) := by
  rw [AmqpServer.runTask]
  split
  · exact ⟨h, id⟩
  · exact ⟨h, id⟩
  · rename_i t rest _
    have hpop : Outsider c (s.modifyConnection c fun conn => { conn with strand := rest }) :=
      h.modifyConnection fun _ _ => rfl
    have hnone : (s.modifyConnection c fun conn => { conn with strand := rest }).lockChannel c t = none := by
      rw [lockChannel, hpop.channel_eq_none]
      rfl
    simp only [hnone, Option.filter_none]
    refine ⟨hpop, ?_⟩
    rintro ⟨conn', hconn', hst⟩
    rw [connection, AmqpServer.modifyConnection, Assoc.lookup_modify_self, Option.map_eq_some_iff] at hconn'
    obtain ⟨conn, hconn, rfl⟩ := hconn'
    exact ⟨conn, hconn, hst⟩

theorem receiveProtocolHeader (h : Outsider c s) (header : Bytes) :
    Outsider c (s.receiveProtocolHeader c header) ∧ (AuthIn c (s.receiveProtocolHeader c header) → AuthIn c s) := by
  rw [AmqpServer.receiveProtocolHeader]
  split
  · have hstart : Silent False c s (s.modifyConnection c fun conn => { conn with state := .AWAITING_START_OK }) :=
      Silent.setState (fun _ => ⟨rfl, rfl, rfl⟩) fun _ _ h => by cases h
    have hsent : Silent False c s ((s.modifyConnection c fun conn =>
        { conn with state := .AWAITING_START_OK }).sendConnectionStart c) := hstart.trans (Silent.sendMethodFrame ..)
    exact ⟨hsent.outsider h, fun hauth => (hsent.authIn hauth).resolve_right id⟩
  · have hsent : Silent False c s (s.send c .protocolHeader) := Silent.send rfl
    obtain ⟨hout, hauth⟩ := (hsent.outsider h).shutdown
    exact ⟨hout, fun h => (hsent.authIn (hauth h)).resolve_right id⟩

/-- A change of the order of iteration. --/
theorem reorder (h : Outsider c s) {f : Connection → Connection}
    (hf : ∀ conn, (conn.channels.entries = [] → (f conn).channels.entries = []) ∧ (f conn).state = conn.state) :
    Outsider c (s.modifyConnection c f) ∧ (AuthIn c (s.modifyConnection c f) → AuthIn c s) := by
  have hlookup : (s.modifyConnection c f).connection c = (s.connection c).map f := Assoc.lookup_modify_self ..
  refine ⟨⟨fun conn' hconn' => ?_, h.owner, h.consumers⟩, fun ⟨conn', hconn', hst⟩ => ?_⟩
  · rw [hlookup, Option.map_eq_some_iff] at hconn'
    obtain ⟨conn, hconn, rfl⟩ := hconn'
    exact (hf conn).1 (h.channels conn hconn)
  · rw [hlookup, Option.map_eq_some_iff] at hconn'
    obtain ⟨conn, hconn, rfl⟩ := hconn'
    exact ⟨conn, hconn, (hf conn).2 ▸ hst⟩

/-- What other connections do, and what happens to the connection apart from its frames. --/
theorem handle (h : Outsider c s) (hv : Valid s) {e : Event} (he : e ≠ .restart)
    (hframe : ∀ frame frameEnd, e ≠ .frame c frame frameEnd) :
    Outsider c (s.handle e) ∧ (AuthIn c (s.handle e) → AuthIn c s) := by
  by_cases hc : e.connection? = some c
  · have hchannels : ∀ (f : Channel → Channel) (num : UInt16) (conn : Connection),
        (conn.channels.entries = [] → (conn.channels.modify num f).entries = []) := by
      intro f num conn hnil
      rw [Assoc.modify]
      simp [hnil]
    cases e with
    | protocolHeader c' header =>
      obtain rfl := Option.some.inj hc
      rw [AmqpServer.handle]
      split
      · exact ⟨h, id⟩
      · split
        · exact h.receiveProtocolHeader header
        · exact ⟨h, id⟩
    | frame c' frame frameEnd =>
      obtain rfl := Option.some.inj hc
      exact absurd rfl (hframe frame frameEnd)
    | runTask c' =>
      obtain rfl := Option.some.inj hc
      exact h.runTask
    | disconnect c' =>
      obtain rfl := Option.some.inj hc
      exact h.shutdown
    | reorderChannels c' order =>
      obtain rfl := Option.some.inj hc
      refine h.reorder fun conn => ⟨fun hnil => ?_, rfl⟩
      exact List.perm_nil.mp (hnil ▸ Assoc.reorder_perm _ _)
    | reorderConsumers c' num order =>
      obtain rfl := Option.some.inj hc
      exact h.reorder fun conn => ⟨hchannels _ num conn, rfl⟩
    | reorderUnacked c' num order =>
      obtain rfl := Option.some.inj hc
      exact h.reorder fun conn => ⟨hchannels _ num conn, rfl⟩
    | _ => cases hc
  · -- The moves of the event are made by another connection, or by none.
    obtain ⟨c', hactor, hne⟩ := exists_actor e c
    have hdoes : Does c' (.oversize :: allKinds) s (s.handle e) :=
      does_handle hactor he (fun _ => List.mem_cons_of_mem _) (.inl List.mem_cons_self)
    refine (hdoes.moves hv).keeps (P := fun s' => Outsider c s' ∧ (AuthIn c s' → AuthIn c s)) ?_ ⟨h, id⟩
    rintro k - s₁ s₂ hm ⟨hout, hauth⟩
    exact ⟨hout.move (hne hc) hm, fun h => hauth (authIn_of_move (hne hc) hm h)⟩

end Outsider

end AmqpServer
end Broko.Broker
