import Broko.Lib.Gather
import Broko.Theorems.Moves

/-! Where messages are. A message object is referred to from a queue, from a task on the strand of a connection, or from a
    table of unacked messages. -/

namespace Broko.Broker
open Amqp Storage MessageStore

inductive Place where
  | queue (name : Bytes)
  | posted (c : Nat)
  | unacked (c : Nat) (num : UInt16) (tag : Nat)
  deriving DecidableEq, Repr

def MessageQueue.contents (name : Bytes) (q : MessageQueue) : Multiset (Place × Ref) :=
  (q.messages : Multiset Ref).map fun r => (.queue name, r)

def Channel.contents (c : Nat) (num : UInt16) (ch : Channel) : Multiset (Place × Ref) :=
  ch.unackedMessages.gather fun tag u => {(.unacked c num tag, u.message)}

/-- A table entry is taken out. --/
theorem Channel.contents_erase {c : Nat} {num : UInt16} {ch : Channel} {tag : Nat} {u : UnackedMessage}
    (hu : ch.unackedMessages.lookup tag = some u) : ch.contents c num =
      (.unacked c num tag, u.message) ::ₘ
        ({ ch with unackedMessages := ch.unackedMessages.erase tag } : Channel).contents c num := by
  rw [Channel.contents, Assoc.gather_eq_add hu, Multiset.singleton_add, Channel.contents]

def Connection.contents (c : Nat) (conn : Connection) : Multiset (Place × Ref) :=
  ((conn.strand : Multiset DeliverTask).map fun t => (.posted c, t.msg)) + conn.channels.gather (Channel.contents c)

namespace AmqpServer

/-- The places of message objects, with the object that is there. --/
def contents (s : AmqpServer) : Multiset (Place × Ref) :=
  s.queues.gather MessageQueue.contents + s.connections.gather Connection.contents

variable {c : Nat} {num : UInt16} {s s' : AmqpServer} {name : Bytes}

theorem contents_congr (hq : s'.queues = s.queues) (hc : s'.connections = s.connections) : s'.contents = s.contents := by
  rw [contents, hq, hc, contents]

/-! ### One queue, one connection, one channel -/

/-- What is not in this queue. --/
def besidesQueue (name : Bytes) (s : AmqpServer) : Multiset (Place × Ref) :=
  (s.queues.erase name).gather MessageQueue.contents + s.connections.gather Connection.contents

theorem contents_of_queue {q : MessageQueue} (hq : s.queue name = some q) :
    s.contents = q.contents name + s.besidesQueue name := by
  rw [contents, Assoc.gather_eq_add hq, besidesQueue, add_assoc]

theorem contents_modifyQueue {q : MessageQueue} (hq : s.queue name = some q) (f : MessageQueue → MessageQueue) :
    (s.modifyQueue name f).contents = (f q).contents name + s.besidesQueue name := by
  rw [contents, modifyQueue, Assoc.gather_modify hq, besidesQueue, add_assoc]

theorem modifyQueue_of_none {f : MessageQueue → MessageQueue} (h : s.queue name = none) : s.modifyQueue name f = s := by
  rw [modifyQueue, Assoc.modify_of_lookup_eq_none h]

/-- What is not on this connection. --/
def besidesConnection (c : Nat) (s : AmqpServer) : Multiset (Place × Ref) :=
  (s.connections.erase c).gather Connection.contents + s.queues.gather MessageQueue.contents

theorem contents_of_connection {conn : Connection} (hconn : s.connection c = some conn) :
    s.contents = conn.contents c + s.besidesConnection c := by
  rw [contents, Assoc.gather_eq_add hconn, besidesConnection, add_comm, add_assoc]

theorem contents_modifyConnection {conn : Connection} (hconn : s.connection c = some conn) (f : Connection → Connection) :
    (s.modifyConnection c f).contents = (f conn).contents c + s.besidesConnection c := by
  rw [contents, modifyConnection, Assoc.gather_modify hconn, besidesConnection, add_comm, add_assoc]

theorem contents_modifyConnection_eq {f : Connection → Connection}
    (hf : ∀ conn, s.connection c = some conn → (f conn).contents c = conn.contents c) :
    (s.modifyConnection c f).contents = s.contents := by
  rw [contents, modifyConnection, Assoc.gather_modify_eq hf, contents]

theorem contents_modifyConnection_le {f : Connection → Connection}
    (hf : ∀ conn, s.connection c = some conn → (f conn).contents c ≤ conn.contents c) :
    (s.modifyConnection c f).contents ≤ s.contents := by
  cases hconn : s.connection c with
  | none => rw [modifyConnection, Assoc.modify_of_lookup_eq_none hconn]
  | some conn =>
    rw [contents_modifyConnection hconn, contents_of_connection hconn]
    exact add_le_add_left (hf conn hconn) _

/-- What is not in the table of this channel. --/
def besidesChannel (c : Nat) (num : UInt16) (conn : Connection) (s : AmqpServer) : Multiset (Place × Ref) :=
  ((conn.strand : Multiset DeliverTask).map fun t => (.posted c, t.msg)) +
    ((conn.channels.erase num).gather (Channel.contents c) + s.besidesConnection c)

theorem contents_of_channel {conn : Connection} {ch : Channel} (hconn : s.connection c = some conn)
    (hch : conn.channels.lookup num = some ch) : s.contents = ch.contents c num + s.besidesChannel c num conn := by
  rw [contents_of_connection hconn, Connection.contents, Assoc.gather_eq_add hch, besidesChannel, add_assoc, add_assoc,
    add_left_comm]

theorem contents_modifyChannel {conn : Connection} {ch : Channel} (hconn : s.connection c = some conn)
    (hch : conn.channels.lookup num = some ch) (f : Channel → Channel) :
    (s.modifyChannel c num f).contents = (f ch).contents c num + s.besidesChannel c num conn := by
  rw [modifyChannel, contents_modifyConnection hconn, Connection.contents, Assoc.gather_modify hch, besidesChannel, add_assoc,
    add_assoc, add_left_comm]

theorem contents_modifyChannel_eq {f : Channel → Channel} (hf : ∀ ch, (f ch).unackedMessages = ch.unackedMessages) :
    (s.modifyChannel c num f).contents = s.contents := by
  refine contents_modifyConnection_eq fun conn _ => ?_
  rw [Connection.contents, Assoc.gather_modify_eq fun ch _ => by rw [Channel.contents, hf, Channel.contents], Connection.contents]

theorem contents_modifyChannel_le {f : Channel → Channel}
    (hf : ∀ ch, s.channel c num = some ch → (f ch).contents c num ≤ ch.contents c num) :
    (s.modifyChannel c num f).contents ≤ s.contents := by
  cases hconn : s.connection c with
  | none => rw [modifyChannel, modifyConnection, Assoc.modify_of_lookup_eq_none hconn]
  | some conn =>
    cases hch : conn.channels.lookup num with
    | none =>
      refine (contents_modifyConnection_eq fun conn' hconn' => ?_).le
      obtain rfl := Option.some.inj (hconn.symm.trans hconn')
      rw [Assoc.modify_of_lookup_eq_none hch]
    | some ch =>
      rw [contents_modifyChannel hconn hch, contents_of_channel hconn hch]
      refine add_le_add_left (hf ch ?_) _
      rw [channel, hconn]
      exact hch

theorem contents_modifyQueue_eq {f : MessageQueue → MessageQueue} (hf : ∀ q, (f q).messages = q.messages) :
    (s.modifyQueue name f).contents = s.contents := by
  rw [contents, modifyQueue, Assoc.gather_modify_eq fun q _ => by rw [MessageQueue.contents, hf, MessageQueue.contents],
    contents]

theorem contents_modifyQueue_le {f : MessageQueue → MessageQueue} (hf : ∀ q, (f q).messages.Sublist q.messages) :
    (s.modifyQueue name f).contents ≤ s.contents := by
  cases hq : s.queue name with
  | none => rw [modifyQueue_of_none hq]
  | some q =>
    rw [contents_modifyQueue hq, contents_of_queue hq]
    refine add_le_add_left (Multiset.map_le_map ?_) _
    exact Multiset.coe_le.mpr (hf q).subperm

theorem contents_insertQueue_le {q : MessageQueue} (hm : q.messages = []) :
    ({ s with queues := s.queues.insert name q } : AmqpServer).contents ≤ s.contents := by
  rw [contents, Assoc.gather_insert, MessageQueue.contents, hm, Multiset.coe_nil, Multiset.map_zero, zero_add]
  exact add_le_add_left (Assoc.gather_erase_le _ _) _

/-! ### Deliveries are posted -/

theorem contents_post {conn : Connection} (hconn : s.connection c = some conn) (t : DeliverTask) :
    (s.modifyConnection c fun conn => { conn with strand := conn.strand ++ [t] }).contents =
      (.posted c, t.msg) ::ₘ s.contents := by
  rw [contents_modifyConnection hconn, contents_of_connection hconn, Connection.contents, Connection.contents,
    ← Multiset.coe_add, Multiset.map_add, Multiset.coe_singleton, Multiset.map_singleton, add_comm _ {_}, add_assoc, add_assoc,
    Multiset.singleton_add, add_assoc]

/-- What `on_deliver` does: a new object with the origin of the one that was taken is posted, if the connection is there. --/
theorem contents_onDeliver (k taken : Ref) :
    ((s.onDeliver k taken).contents = s.contents ∧ s.heap.size ≤ (s.onDeliver k taken).heap.size) ∨
    ∃ c', (s.onDeliver k taken).contents = (.posted c', s.heap.size) ::ₘ s.contents ∧
      (s.onDeliver k taken).heap.size = s.heap.size + 1 ∧ (s.onDeliver k taken).origin s.heap.size = s.origin taken := by
  have hposted : ∀ (f : OnDeliver) (m : Message) (t : DeliverTask), t.msg = s.heap.size → ∀ s₁ : AmqpServer,
      s₁ = ((s.newDelivery taken m).modifyConnection f.connection fun conn => { conn with strand := conn.strand ++ [t] }) →
      (s₁.contents = s.contents ∧ s.heap.size ≤ s₁.heap.size) ∨
      ∃ c', s₁.contents = (.posted c', s.heap.size) ::ₘ s.contents ∧ s₁.heap.size = s.heap.size + 1 ∧
        s₁.origin s.heap.size = s.origin taken := by
    rintro f m t ht s₁ rfl
    cases hconn : (s.newDelivery taken m).connection f.connection with
    | none =>
      refine .inl ⟨?_, Nat.le_succ _⟩
      rw [modifyConnection, Assoc.modify_of_lookup_eq_none hconn]
      rfl
    | some conn =>
      refine .inr ⟨f.connection, ?_, rfl, ?_⟩
      · rw [contents_post hconn, ht]
        rfl
      · change ((s.heap.alloc { msg := m, origin := s.origin taken }).cell s.heap.size).origin = s.origin taken
        rw [Heap.cell_alloc_self]
  rw [onDeliver]
  split
  · exact .inl ⟨rfl, le_rfl⟩
  · exact hposted _ _ _ rfl _ rfl

/-! ### Moves that put no message anywhere -/

theorem contents_releaseCredit (u : UnackedMessage) : (s.releaseCredit u).contents = s.contents := by
  rw [releaseCredit]
  split <;> rfl

theorem contents_persistAck (u : UnackedMessage) : (s.persistAck u).contents = s.contents := by
  have h : ((s.releaseCredit u).record [.settled (s.origin u.message) u.queue_name]).contents = s.contents :=
    contents_releaseCredit u
  rw [persistAck]
  split
  · exact h
  · split
    · exact h
    · exact h

theorem contents_storeMessage (r : Ref) : (s.storeMessage name r).contents = s.contents := by
  rw [storeMessage]
  split <;> rfl

theorem contents_removeConsumer (tag : Bytes) : (s.removeConsumer name tag).contents = s.contents := by
  rw [removeConsumer]
  split
  · rfl
  · split
    · rfl
    · exact contents_modifyQueue_eq fun _ => rfl

theorem contents_removeConsumersByConnection (connId : Nat) :
    (s.removeConsumersByConnection name connId).contents = s.contents := by
  have hfold : ∀ (l : List Ref) (s : AmqpServer),
      (l.foldl (fun s k => s.modifyConsumer k fun c => { c with on_deliver := none }) s).contents = s.contents := by
    intro l
    induction l with
    | nil => exact fun _ => rfl
    | cons k l ih => exact fun s => (ih _).trans rfl
  rw [removeConsumersByConnection]
  split
  · rfl
  · rename_i q _
    dsimp only
    rw [← hfold (q.consumers.filter fun k => idOf (s.consumer k).connection_id = idOf connId) s]
    exact contents_modifyQueue_eq fun _ => rfl

/-- The kinds of moves that put messages somewhere. --/
def placingKinds : List Kind := [.queue, .enqueue, .requeue, .hold]

theorem contents_le_of_move {k : Kind} (hm : Move c k s s') (hk : k ∉ placingKinds) : s'.contents ≤ s.contents := by
  have hsame : ∀ {s' : AmqpServer}, s'.queues = s.queues → s'.connections = s.connections → s'.contents ≤ s.contents :=
    fun hq hc => (contents_congr hq hc).le
  cases hm with
  | clock | touch | mark | letter | expire | rotate | handOver => exact absurd (by decide) hk
  | enqueue | requeue => exact absurd (by decide) hk
  | hold | takeTag => exact absurd (by decide) hk
  | take name => exact contents_modifyQueue_le fun q => List.tail_sublist _
  | purge name =>
    rw [purge]
    split
    · exact le_rfl
    · exact contents_modifyQueue_le fun q => List.nil_sublist _
  | create m => exact hsame rfl rfl
  | store m => exact (contents_storeMessage _).le
  | oversize m => exact (contents_storeMessage _).le
  | recover m name => exact hsame rfl rfl
  | recoverQueue hname hnew hm => exact contents_insertQueue_le hm
  | send out => exact le_of_eq (contents_modifyConnection_eq fun _ _ => rfl)
  | note num f hf =>
    refine (contents_modifyChannel_eq fun ch => ?_).le
    have hframe := congrArg Channel.unackedMessages (hf ch)
    exact hframe
  | pending num p => exact le_of_eq (contents_modifyChannel_eq fun _ => rfl)
  | handshake f hf =>
    refine (contents_modifyConnection_eq fun conn _ => ?_).le
    rw [Connection.contents, (hf conn).strand, (hf conn).channels, Connection.contents]
  | releaseCredit u => exact (contents_releaseCredit u).le
  | eraseUnacked num tag => exact contents_modifyChannel_le fun ch _ => Assoc.gather_erase_le _ _
  | clearUnacked num => exact contents_modifyChannel_le fun ch _ => Multiset.zero_le _
  | settle u => exact (contents_persistAck u).le
  | remove r name => exact hsame rfl rfl
  | newConsumer k => exact hsame rfl rfl
  | mapConsumer num tag k counter => exact le_of_eq (contents_modifyChannel_eq fun _ => rfl)
  | addConsumer name k => exact le_of_eq (contents_modifyQueue_eq fun _ => rfl)
  | removeConsumer name tag => exact (contents_removeConsumer tag).le
  | unmapConsumer num tag => exact le_of_eq (contents_modifyChannel_eq fun _ => rfl)
  | unmapConsumers num => exact le_of_eq (contents_modifyChannel_eq fun _ => rfl)
  | removeConsumersByConnection name => exact (contents_removeConsumersByConnection c).le
  | openChannel num =>
    refine contents_modifyConnection_le fun conn _ => add_le_add_right ?_ _
    rw [Assoc.gather_insert]
    exact (zero_add _).le.trans (Assoc.gather_erase_le _ _)
  | setClosed num => exact le_of_eq (contents_modifyChannel_eq fun _ => rfl)
  | dropChannel num => exact contents_modifyConnection_le fun conn _ => add_le_add_right (Assoc.gather_erase_le _ _) _
  | shut => exact le_of_eq (contents_modifyConnection_eq fun _ _ => rfl)
  | dropChannels => exact contents_modifyConnection_le fun conn _ => add_le_add_right (Multiset.zero_le _) _
  | exchanges m => exact hsame rfl rfl
  | nameCounter n => exact hsame rfl rfl
  | insertQueue hname hnew hm => exact contents_insertQueue_le hm
  | eraseQueue name => exact add_le_add_left (Assoc.gather_erase_le _ _) _
  | log e => exact hsame rfl rfl
  | @popTask _ conn t rest hconn hstrand =>
    refine contents_modifyConnection_le fun conn' hconn' => add_le_add_left (Multiset.map_le_map ?_) _
    obtain rfl := Option.some.inj (hconn.symm.trans hconn')
    rw [hstrand]
    exact Multiset.coe_le.mpr (List.sublist_cons_self t rest).subperm
  | accept =>
    rw [accept, contents, Assoc.gather_insert, contents]
    refine add_le_add_right ?_ _
    exact (zero_add _).le.trans (Assoc.gather_erase_le _ _)
  | compact => exact hsame rfl rfl
  | reorderQueues order =>
    rw [contents, Assoc.gather_reorder, contents]
  | reorderExchanges order => exact hsame rfl rfl
  | reorderChannels order =>
    refine (contents_modifyConnection_eq fun conn _ => ?_).le
    rw [Connection.contents, Assoc.gather_reorder, Connection.contents]
  | reorderConsumers num order => exact le_of_eq (contents_modifyChannel_eq fun _ => rfl)
  | reorderUnacked num order => exact contents_modifyChannel_le fun ch _ => (Assoc.gather_reorder order).le

end AmqpServer
end Broko.Broker
