import Broko.Theorems.Runs

/-! The consumers of the server. A consumer object is made for one channel, one tag and one queue, and it is never in a
    queue of another name nor in the map of another channel. -/

namespace Broko.Broker
open Amqp Storage MessageStore

/-- A consumer without what changes while it is registered. --/
def Consumer.fixed (k : Consumer) : Consumer := { k with in_flight := 0, on_deliver := none }

namespace AmqpServer

/-- The objects of the first heap are those of the second one, up to credit and callbacks. --/
structure Grows (heap heap' : Heap Consumer) : Prop where
  size : heap.size ≤ heap'.size
  cell : ∀ k, k < heap.size → (heap'.cell k).fixed = (heap.cell k).fixed

/-- The consumer that a channel has under a tag is one that was made for them. --/
structure Owned (heap : Heap Consumer) (c : Nat) (num : UInt16) (tag : Bytes) (k : Ref) : Prop where
  lt : k < heap.size
  connection_id : (heap.cell k).connection_id = c
  channel_id : (heap.cell k).channel_id = num
  tag : (heap.cell k).tag = tag

structure ChannelOwned (heap : Heap Consumer) (c : Nat) (num : UInt16) (ch : Channel) : Prop where
  consumers : ch.consumers.All (Owned heap c num)
  unacked : ch.unackedMessages.All fun _ u => ∀ k, u.consumer = some k → k < heap.size ∧ (heap.cell k).connection_id = c

structure ConnectionOwned (heap : Heap Consumer) (c : Nat) (conn : Connection) : Prop where
  reading : conn.reading = true → conn.state ≠ .CLOSED
  channels : conn.channels.All (ChannelOwned heap c)

structure QueueOwned (heap : Heap Consumer) (name : Bytes) (q : MessageQueue) : Prop where
  nodup : q.consumers.Nodup
  placed : ∀ k ∈ q.consumers, k < heap.size ∧ (heap.cell k).queue_name = name

/-- Consumers are where they were made for, and a connection that was shut down does not read. --/
structure Registered (s : AmqpServer) : Prop where
  queues : s.queues.All (QueueOwned s.consumerHeap)
  connections : s.connections.All (ConnectionOwned s.consumerHeap)

variable {c : Nat} {num : UInt16} {s s' : AmqpServer} {heap heap' : Heap Consumer}

/-! ### Heaps -/

namespace Grows

theorem refl : Grows heap heap := ⟨le_rfl, fun _ _ => rfl⟩

theorem alloc (x : Consumer) : Grows heap (heap.alloc x) :=
  ⟨Nat.le_succ _, fun _ hk => congrArg Consumer.fixed (Heap.cell_alloc_of_ne (Nat.ne_of_lt hk))⟩

theorem modify (k : Ref) {f : Consumer → Consumer} (hf : ∀ x, (f x).fixed = x.fixed) : Grows heap (heap.modify k f) :=
  ⟨le_rfl, fun k' _ => Heap.cell_modify_congr Consumer.fixed hf k'⟩

theorem queue_name (h : Grows heap heap') {k : Ref} (hk : k < heap.size) :
    (heap'.cell k).queue_name = (heap.cell k).queue_name := by
  have hfixed : (heap'.cell k).fixed.queue_name = (heap.cell k).fixed.queue_name := by rw [h.cell k hk]
  exact hfixed

theorem connection_id (h : Grows heap heap') {k : Ref} (hk : k < heap.size) :
    (heap'.cell k).connection_id = (heap.cell k).connection_id := by
  have hfixed : (heap'.cell k).fixed.connection_id = (heap.cell k).fixed.connection_id := by rw [h.cell k hk]
  exact hfixed

theorem channel_id (h : Grows heap heap') {k : Ref} (hk : k < heap.size) :
    (heap'.cell k).channel_id = (heap.cell k).channel_id := by
  have hfixed : (heap'.cell k).fixed.channel_id = (heap.cell k).fixed.channel_id := by rw [h.cell k hk]
  exact hfixed

theorem tag (h : Grows heap heap') {k : Ref} (hk : k < heap.size) : (heap'.cell k).tag = (heap.cell k).tag := by
  have hfixed : (heap'.cell k).fixed.tag = (heap.cell k).fixed.tag := by rw [h.cell k hk]
  exact hfixed

end Grows

theorem Owned.grows {tag : Bytes} {k : Ref} (h : Owned heap c num tag k) (hg : Grows heap heap') : Owned heap' c num tag k :=
  ⟨h.lt.trans_le hg.size, (hg.connection_id h.lt).trans h.connection_id, (hg.channel_id h.lt).trans h.channel_id,
    (hg.tag h.lt).trans h.tag⟩

theorem ChannelOwned.grows {ch : Channel} (h : ChannelOwned heap c num ch) (hg : Grows heap heap') :
    ChannelOwned heap' c num ch := by
  refine ⟨h.consumers.mono fun _ _ hk => hk.grows hg, h.unacked.mono fun _ u hu k hk => ?_⟩
  obtain ⟨hlt, hid⟩ := hu k hk
  exact ⟨hlt.trans_le hg.size, (hg.connection_id hlt).trans hid⟩

theorem ChannelOwned.new (ref : Ref) (frameMax : UInt32) :
    ChannelOwned heap c num { ref, frameMax, isOpen := true } :=
  ⟨Assoc.All.empty, Assoc.All.empty⟩

theorem QueueOwned.grows {name : Bytes} {q : MessageQueue} (h : QueueOwned heap name q) (hg : Grows heap heap') :
    QueueOwned heap' name q := by
  refine ⟨h.nodup, fun k hk => ?_⟩
  obtain ⟨hlt, hname⟩ := h.placed k hk
  exact ⟨hlt.trans_le hg.size, (hg.queue_name hlt).trans hname⟩

theorem QueueOwned.sublist {name : Bytes} {q q' : MessageQueue} (h : QueueOwned heap name q)
    (hsub : q'.consumers.Sublist q.consumers) : QueueOwned heap name q' :=
  ⟨h.nodup.sublist hsub, fun k hk => h.placed k (hsub.subset hk)⟩

theorem QueueOwned.new {name : Bytes} {q : MessageQueue} (h : q.consumers = []) : QueueOwned heap name q := by
  refine ⟨h ▸ List.nodup_nil, fun k hk => ?_⟩
  rw [h] at hk
  cases hk

/-! ### Moves -/

namespace Registered

theorem grows (h : Registered s) (hq : s'.queues = s.queues) (hc : s'.connections = s.connections)
    (hg : Grows s.consumerHeap s'.consumerHeap) : Registered s' := by
  refine ⟨?_, ?_⟩
  · rw [hq]
    exact h.queues.mono fun _ _ hok => hok.grows hg
  · rw [hc]
    exact h.connections.mono fun _ _ hok => ⟨hok.reading, hok.channels.mono fun _ _ hch => hch.grows hg⟩

theorem congr (h : Registered s) (hq : s'.queues = s.queues) (hc : s'.connections = s.connections)
    (hk : s'.consumerHeap = s.consumerHeap) : Registered s' :=
  h.grows hq hc (hk ▸ .refl)

theorem record (h : Registered s) (facts : List Fact) : Registered (s.record facts) := h.congr rfl rfl rfl

theorem newMessage (h : Registered s) (m : Message) : Registered (s.newMessage m) := h.congr rfl rfl rfl

theorem modifyConsumer (h : Registered s) (k : Ref) {f : Consumer → Consumer} (hf : ∀ x, (f x).fixed = x.fixed) :
    Registered (s.modifyConsumer k f) :=
  h.grows rfl rfl (.modify k hf)

theorem modifyQueue (h : Registered s) (name : Bytes) {f : MessageQueue → MessageQueue}
    (hf : ∀ q, (f q).consumers.Sublist q.consumers) : Registered (s.modifyQueue name f) :=
  ⟨h.queues.modify fun q _ hq => hq.sublist (hf q), h.connections⟩

theorem modifyConnection (h : Registered s) {f : Connection → Connection}
    (hf : ∀ conn, s.connection c = some conn → ConnectionOwned s.consumerHeap c conn →
      ConnectionOwned s.consumerHeap c (f conn)) : Registered (s.modifyConnection c f) :=
  ⟨h.queues, h.connections.modify hf⟩

/-- The entry of the connection changes, but neither its state nor its channels. --/
theorem connectionSame (h : Registered s) {f : Connection → Connection} (hstate : ∀ conn, (f conn).state = conn.state)
    (hreading : ∀ conn, (f conn).reading = conn.reading) (hchannels : ∀ conn, (f conn).channels = conn.channels) :
    Registered (s.modifyConnection c f) :=
  h.modifyConnection fun conn _ hok => ⟨by rw [hreading, hstate]; exact hok.reading, by rw [hchannels]; exact hok.channels⟩

theorem modifyChannel (h : Registered s) {f : Channel → Channel}
    (hf : ∀ ch, s.channel c num = some ch → ChannelOwned s.consumerHeap c num ch →
      ChannelOwned s.consumerHeap c num (f ch)) : Registered (s.modifyChannel c num f) := by
  refine h.modifyConnection fun conn hconn hok => ⟨hok.reading, hok.channels.modify fun ch hch => hf ch ?_⟩
  rw [AmqpServer.channel, hconn]
  exact hch

/-- The channel changes, but neither its consumers nor what it holds. --/
theorem channelSame (h : Registered s) {f : Channel → Channel} (hconsumers : ∀ ch, (f ch).consumers = ch.consumers)
    (hunacked : ∀ ch, (f ch).unackedMessages = ch.unackedMessages) : Registered (s.modifyChannel c num f) :=
  h.modifyChannel fun ch _ hok =>
    ⟨by rw [hconsumers]; exact hok.consumers, by rw [hunacked]; exact hok.unacked⟩

theorem onDeliver (h : Registered s) (k taken : Ref) : Registered (s.onDeliver k taken) := by
  rw [AmqpServer.onDeliver]
  split
  · exact h
  · refine connectionSame ?_ (fun _ => rfl) (fun _ => rfl) fun _ => rfl
    exact h.congr rfl rfl rfl

theorem handOver (h : Registered s) (name : Bytes) (k head : Ref) (idx : Nat) : Registered (s.handOver name k head idx) := by
  have htaken : Registered (s.modifyQueue name fun q => { q with messages := q.messages.tail, roundRobinIdx := idx }) :=
    h.modifyQueue name fun _ => .refl _
  rw [AmqpServer.handOver]
  split
  · exact htaken.onDeliver k head
  · refine (htaken.modifyConsumer k ?_).onDeliver k head
    exact fun _ => rfl

theorem storeMessage (h : Registered s) (name : Bytes) (r : Ref) : Registered (s.storeMessage name r) := by
  rw [AmqpServer.storeMessage]
  split
  · exact h
  · exact h.congr rfl rfl rfl

theorem releaseCredit (h : Registered s) (u : UnackedMessage) : Registered (s.releaseCredit u) := by
  rw [AmqpServer.releaseCredit]
  split
  · exact h
  · exact h.modifyConsumer _ fun _ => rfl

theorem persistAck (h : Registered s) (u : UnackedMessage) : Registered (s.persistAck u) := by
  have hsettled : Registered ((s.releaseCredit u).record [.settled (s.origin u.message) u.queue_name]) :=
    (h.releaseCredit u).congr rfl rfl rfl
  rw [AmqpServer.persistAck]
  split
  · exact hsettled
  · split
    · exact hsettled.congr rfl rfl rfl
    · exact hsettled

theorem removeConsumer (h : Registered s) (name tag : Bytes) : Registered (s.removeConsumer name tag) := by
  rw [AmqpServer.removeConsumer]
  split
  · exact h
  · split
    · exact h
    · refine (h.modifyConsumer _ ?_).modifyQueue name ?_
      · exact fun _ => rfl
      · exact fun _ => List.eraseP_sublist

theorem removeConsumersByConnection (h : Registered s) (name : Bytes) (connId : Nat) :
    Registered (s.removeConsumersByConnection name connId) := by
  have hfold : ∀ (l : List Ref) (s : AmqpServer), Registered s →
      Registered (l.foldl (fun s k => s.modifyConsumer k fun c => { c with on_deliver := none }) s) := by
    intro l
    induction l with
    | nil => exact fun _ hs => hs
    | cons k l ih => exact fun s hs => ih _ (hs.modifyConsumer k fun _ => rfl)
  rw [AmqpServer.removeConsumersByConnection]
  split
  · exact h
  · refine (hfold _ s h).modifyQueue name ?_
    exact fun _ => List.filter_sublist

theorem openChannel (h : Registered s) (num : UInt16) : Registered (s.openChannel c num) := by
  have hnext : Registered { s with nextChannel := s.nextChannel + 1 } := h.congr rfl rfl rfl
  exact hnext.modifyConnection fun conn _ hok => ⟨hok.reading, hok.channels.insert (.new _ _)⟩

theorem move {k : Kind} (h : Registered s) (hm : Move c k s s') : Registered s' := by
  cases hm with
  | clock => exact h.congr rfl rfl rfl
  | touch r f hf => exact h.congr rfl rfl rfl
  | mark reason r hq hdlx => exact h.congr rfl rfl rfl
  | letter r hr hq hdlx hroute hq' => exact h.modifyQueue _ fun _ => .refl _
  | expire hq hm =>
    refine record (h.modifyQueue _ ?_) _
    exact fun _ => .refl _
  | rotate name idx => exact h.modifyQueue name fun _ => .refl _
  | handOver idx hq hm hk he => exact h.handOver _ _ _ idx
  | enqueue r hr hq => exact h.modifyQueue _ fun _ => .refl _
  | requeue name r hr => exact h.modifyQueue name fun _ => .refl _
  | take name => exact h.modifyQueue name fun _ => .refl _
  | purge name =>
    rw [purge]
    split
    · exact h
    · refine record (h.modifyQueue name ?_) _
      exact fun _ => .refl _
  | create m hw hid => exact h.newMessage m
  | store m hw hid hq hd hp hfit => exact (h.newMessage m).storeMessage _ _
  | oversize m hw hid hq hd hp hfit => exact (h.newMessage m).storeMessage _ _
  | recover m name hw => exact h.congr rfl rfl rfl
  | recoverQueue hname hnew hm hk he ho => exact ⟨h.queues.insert (.new hk), h.connections⟩
  | send out => exact h.connectionSame (fun _ => rfl) (fun _ => rfl) fun _ => rfl
  | note num f hf =>
    have hframe : ∀ ch, (f ch).consumers = ch.consumers ∧ (f ch).unackedMessages = ch.unackedMessages := by
      intro ch
      have heq := hf ch
      simp only [Channel.frame, Channel.mk.injEq] at heq
      exact ⟨heq.2.2.2.2.2.2.2.2.1, heq.2.2.2.2.2.2.2.2.2.2.2⟩
    exact h.channelSame (fun ch => (hframe ch).1) fun ch => (hframe ch).2
  | pending num p hp => exact h.channelSame (fun _ => rfl) fun _ => rfl
  | handshake f hf =>
    refine h.modifyConnection fun conn _ hok => ⟨fun hreading hclosed => ?_, by rw [(hf conn).channels]; exact hok.channels⟩
    exact hok.reading ((hf conn).reading hreading) ((hf conn).live hclosed)
  | hold num u hu hk =>
    have hheld : Registered (s.hold c num u) := by
      refine h.modifyChannel fun ch hch hok => ⟨hok.consumers, hok.unacked.insert fun k hu => ?_⟩
      obtain ⟨ch', tag, hch', htag⟩ := hk k hu
      obtain rfl := Option.some.inj (hch.symm.trans hch')
      exact ⟨(hok.consumers tag k htag).lt, (hok.consumers tag k htag).connection_id⟩
    exact hheld.channelSame (fun _ => rfl) fun _ => rfl
  | takeTag num => exact h.channelSame (fun _ => rfl) fun _ => rfl
  | releaseCredit u => exact h.releaseCredit u
  | eraseUnacked num tag => exact h.modifyChannel fun ch _ hok => ⟨hok.consumers, hok.unacked.erase tag⟩
  | clearUnacked num => exact h.modifyChannel fun ch _ hok => ⟨hok.consumers, .empty⟩
  | settle u hu => exact h.persistAck u
  | remove r name hr => exact h.congr rfl rfl rfl
  | newConsumer k hk => exact h.grows rfl rfl (.alloc k)
  | mapConsumer num tag k counter hk hown =>
    exact h.modifyChannel fun ch _ hok => ⟨hok.consumers.insert ⟨hk, hown.1, hown.2.1, hown.2.2⟩, hok.unacked⟩
  | addConsumer name k hk hid hname hnew =>
    refine ⟨h.queues.modify fun q hq hok => ⟨?_, fun k' hk' => ?_⟩, h.connections⟩
    · exact List.nodup_append.mpr ⟨hok.nodup, List.nodup_singleton k, fun a ha b hb heq =>
        hnew name q hq ((List.mem_singleton.mp hb) ▸ heq ▸ ha)⟩
    · rcases List.mem_append.mp hk' with hk' | hk'
      · exact hok.placed k' hk'
      · obtain rfl := List.mem_singleton.mp hk'
        exact ⟨hk, hname⟩
  | removeConsumer name tag => exact h.removeConsumer name tag
  | unmapConsumer num tag => exact h.modifyChannel fun ch _ hok => ⟨hok.consumers.erase tag, hok.unacked⟩
  | unmapConsumers num => exact h.modifyChannel fun ch _ hok => ⟨.empty, hok.unacked⟩
  | removeConsumersByConnection name => exact h.removeConsumersByConnection name c
  | openChannel num => exact h.openChannel num
  | setClosed num => exact h.channelSame (fun _ => rfl) fun _ => rfl
  | dropChannel num => exact h.modifyConnection fun conn _ hok => ⟨hok.reading, hok.channels.erase num⟩
  | shut => exact h.modifyConnection fun conn _ hok => ⟨fun h => absurd h Bool.false_ne_true, hok.channels⟩
  | dropChannels => exact h.modifyConnection fun conn _ hok => ⟨hok.reading, .empty⟩
  | exchanges m => exact h.congr rfl rfl rfl
  | nameCounter n => exact h.congr rfl rfl rfl
  | insertQueue hname hnew hm hk he ho => exact ⟨h.queues.insert (.new hk), h.connections⟩
  | eraseQueue name => exact ⟨h.queues.erase name, h.connections⟩
  | log e hm ha hfit => exact h.congr rfl rfl rfl
  | popTask hc hs => exact h.connectionSame (fun _ => rfl) (fun _ => rfl) fun _ => rfl
  | accept => exact ⟨h.queues, h.connections.insert ⟨fun _ => by decide, .empty⟩⟩
  | compact => exact h.congr rfl rfl rfl
  | reorderQueues order => exact ⟨h.queues.reorder order, h.connections⟩
  | reorderExchanges order => exact h.congr rfl rfl rfl
  | reorderChannels order => exact h.modifyConnection fun conn _ hok => ⟨hok.reading, hok.channels.reorder order⟩
  | reorderConsumers num order => exact h.modifyChannel fun ch _ hok => ⟨hok.consumers.reorder order, hok.unacked⟩
  | reorderUnacked num order => exact h.modifyChannel fun ch _ hok => ⟨hok.consumers, hok.unacked.reorder order⟩

end Registered

theorem Moves.registered {K : List Kind} (hm : Moves c K s s') (h : Registered s) : Registered s' :=
  hm.keeps (fun _ _ _ _ hm h => h.move hm) h

/-! ### Runs -/

section
variable {store : Option MessageStore} {userStore : UserStore} {clock : Nat → Int} {readings : Nat}

theorem registered_blank : Registered { store, userStore, clock, readings, exchanges := defaultExchanges } :=
  ⟨Assoc.All.empty, Assoc.All.empty⟩

theorem registered_start : Registered (start store userStore clock readings) := by
  cases store with
  | none => exact registered_blank
  | some st => exact ((does_recoverFromStore (c := 0) rfl).moves valid_blank).registered registered_blank

theorem registered_handle (hv : Valid s) (h : Registered s) (e : Event) : Registered (s.handle e) := by
  by_cases he : e = .restart
  · rw [he]
    exact registered_start
  · obtain ⟨c, hc, -⟩ := exists_actor e 0
    have hdoes : Does c (.oversize :: allKinds) s (s.handle e) :=
      does_handle hc he (fun _ => List.mem_cons_of_mem _) (.inl List.mem_cons_self)
    exact (hdoes.moves hv).registered h

theorem registered_run (events : List Event) : Registered ((start store userStore clock readings).run events) := by
  have hboth : ∀ (events : List Event) (s : AmqpServer), Valid s → Registered s → Registered (s.run events) := by
    intro events
    induction events with
    | nil => exact fun _ _ h => h
    | cons e events ih => exact fun s hv h => ih _ (valid_handle hv e) (registered_handle hv h e)
  exact hboth events _ valid_start registered_start

end

/-! ### What the invariant gives -/

theorem Registered.queue (h : Registered s) {name : Bytes} {q : MessageQueue} (hq : s.queue name = some q) :
    QueueOwned s.consumerHeap name q :=
  h.queues name q hq

theorem Registered.channel (h : Registered s) {ch : Channel} (hch : s.channel c num = some ch) :
    ChannelOwned s.consumerHeap c num ch := by
  obtain ⟨conn, hconn, hch⟩ := Option.bind_eq_some_iff.mp hch
  exact (h.connections c conn hconn).channels num ch hch

end AmqpServer
end Broko.Broker
