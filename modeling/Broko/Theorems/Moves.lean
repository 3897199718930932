import Mathlib.Logic.Relation
import Broko.Storage.Contents
import Broko.Theorems.Entries
import Broko.Theorems.Skeleton

/-! What the server can do. Every handler is a sequence of small moves, each of them one change of the state
    with the guards under which the source makes it. What every move of some kinds keeps, every handler made
    of these kinds keeps. -/

namespace Broko.Broker
open Amqp Storage MessageStore

/-- A message without what is counted and stamped on it in a queue. --/
def Message.frame (m : Message) : Message := { m with enqueued_at := 0, dlx_hops := 0, redelivered := false }

/-- Just made: there is no record of the message, and it has not been dead-lettered. --/
structure Message.Pristine (m : Message) : Prop where
  wal_id : m.wal_id = 0
  dlx_hops : m.dlx_hops = 0

/-- The object that `on_deliver` makes. --/
def Message.copied (m : Message) : Message :=
  { exchange := m.exchange, routing_key := m.routing_key, properties := m.properties, body := m.body,
    redelivered := m.redelivered }

/-- A channel without its modes and limits. --/
def Channel.frame (ch : Channel) : Channel :=
  { ch with confirmMode := false, nextConfirmSeqNo := 0, prefetchCount := 0, prefetchSize := 0 }

/-- A step of the handshake: the channels stay, the frames that may be sent do not get larger, and the connection is
    not shut down. --/
structure Connection.Tuned (conn' conn : Connection) : Prop where
  channels : conn'.channels = conn.channels
  strand : conn'.strand = conn.strand
  sent : conn'.sent = conn.sent
  frameMax : conn'.frameMax.toNat ≤ conn.frameMax.toNat
  live : conn'.state = .CLOSED → conn.state = .CLOSED
  reading : conn'.reading = true → conn.reading = true

/-- The headers of a dead letter. --/
def deathHeaders (name reason : Bytes) (m : Message) : Message :=
  setHeader (ascii "x-first-death-exchange") m.exchange
    (setHeader (ascii "x-first-death-queue") name (setHeader (ascii "x-first-death-reason") reason m))

/-- What the decoders give: names from short strings, and properties that a decoder returns. --/
structure PendingPublish.Sound (p : PendingPublish) : Prop where
  exchange : p.exchange.length ≤ 255
  routing_key : p.routing_key.length ≤ 255
  properties : p.properties.WellFormed

def Fact.origin : Fact → Ref
  | .stored origin _ _ => origin
  | .settled origin _ => origin
  | .removed origin _ => origin

inductive Kind where
  /-- Expiry, dispatch and dead letters. -/
  | queue
  /-- A published or recovered message goes to the end of a queue. -/
  | enqueue
  /-- A message goes back to the front of a queue. -/
  | requeue
  /-- `basic.get` takes the first message. -/
  | take
  | purge
  /-- A new message object, without a record in the log. -/
  | create
  /-- A new message object with its record. -/
  | store
  /-- The same with a record that replay does not accept. -/
  | oversize
  /-- A queue or a message of the log is made again. -/
  | recover
  /-- Frames to the client, and the limits of a channel. -/
  | output
  /-- Acks of publishes, and the counter of a channel that they are numbered by. -/
  | confirm
  /-- Deliveries to the client. -/
  | deliver
  /-- The publish that a channel has begun to receive. -/
  | pending
  | handshake
  | hold
  | release
  | settle
  /-- A message is handed to a receiver that does not ack. -/
  | remove
  | register
  | unregister
  | openChannel
  | closeChannel
  | topology
  | task
  | server
  deriving DecidableEq, Repr

/-- The connection that an event is about. --/
def Event.connection? : Event → Option Nat
  | .protocolHeader c _ => some c
  | .frame c _ _ => some c
  | .runTask c => some c
  | .disconnect c => some c
  | .reorderChannels c _ => some c
  | .reorderConsumers c _ _ => some c
  | .reorderUnacked c _ _ => some c
  | _ => none

namespace AmqpServer

/-- The class and method of a method frame. --/
def methodIds (frame : Frame) : Option (UInt16 × UInt16) :=
  if frame.type = FRAME_METHOD then
    match readMethodIds (Buffer.ofBytes frame.payload) with
    | .ok (ids, _) => some ids
    | .error _ => none
  else none

/-- The kind of writing a method with these ids. --/
def methodKind (classId methodId : UInt16) : Kind :=
  if classId = class_id.BASIC ∧ methodId = basic_method.ACK then .confirm
  else if classId = class_id.BASIC ∧ methodId = basic_method.DELIVER then .deliver
  else .output

def outgoingKind : Outgoing → Kind
  | .frame f => ((methodIds f).map fun ids => methodKind ids.1 ids.2).getD .output
  | .protocolHeader => .output

/-- A message object goes to the end of a queue, or to its place among the priorities. --/
def pushed (s : AmqpServer) (name : Bytes) (r : Ref) : AmqpServer :=
  s.modifyQueue name fun q =>
    { q with messages := s.sortMessages q (q.messages ++ [r]), enqueued := q.enqueued ++ [s.origin r] }

/-- One move, on behalf of connection `c` where it belongs to one. --/
inductive Move (c : Nat) : Kind → AmqpServer → AmqpServer → Prop
  | clock {s} : Move c .queue s s.readClock
  | touch {s} (r : Ref) (f : Message → Message) (hf : ∀ m, (f m).frame = m.frame) : Move c .queue s (s.modifyMessage r f)
  | mark {s} {q : MessageQueue} {name : Bytes} (reason : Bytes) (r : Ref) (hq : s.queue name = some q)
      (hdlx : q.dlxExchange ≠ []) : Move c .queue s (s.modifyMessage r (deathHeaders name reason))
  | letter {s} {q q' : MessageQueue} {name name' rk : Bytes} {headers : Option FieldTable} (r : Ref)
      (hr : r < s.heap.size) (hq : s.queue name = some q) (hdlx : q.dlxExchange ≠ [])
      (hroute : name' ∈ s.routeMessage q.dlxExchange rk headers) (hq' : s.queue name' = some q') :
      Move c .queue s (s.pushed name' r)
  | expire {s} {q : MessageQueue} {name : Bytes} {dlq rest : List Ref} (hq : s.queue name = some q)
      (hm : q.messages = dlq ++ rest) :
      Move c .queue s ((s.modifyQueue name fun q => { q with messages := q.messages.drop dlq.length }).record
        (dlq.map fun r => .removed (s.origin r) name))
  | rotate {s} (name : Bytes) (idx : Nat) : Move c .queue s (s.modifyQueue name fun q => { q with roundRobinIdx := idx })
  | handOver {s} {q : MessageQueue} {name : Bytes} {k head : Ref} {rest : List Ref} (idx : Nat)
      (hq : s.queue name = some q) (hm : q.messages = head :: rest) (hk : k ∈ q.consumers)
      (he : s.eligible head k = true) : Move c .queue s (s.handOver name k head idx)
  | enqueue {s} {q : MessageQueue} {name : Bytes} (r : Ref) (hr : r < s.heap.size) (hq : s.queue name = some q) :
      Move c .enqueue s (s.pushed name r)
  | requeue {s} (name : Bytes) (r : Ref) (hr : r < s.heap.size) :
      Move c .requeue s (s.modifyQueue name fun q => { q with messages := r :: q.messages })
  | take {s} (name : Bytes) : Move c .take s (s.modifyQueue name fun q => { q with messages := q.messages.tail })
  | purge {s} (name : Bytes) : Move c .purge s (s.purge name)
  | create {s} (m : Message) (hw : m.properties.WellFormed) (hid : m.Pristine) : Move c .create s (s.newMessage m)
  | store {s} {q : MessageQueue} {name : Bytes} (m : Message) (hw : m.properties.WellFormed) (hid : m.Pristine)
      (hq : s.queue name = some q) (hd : q.durable = true) (hp : m.isPersistent = true)
      (hfit : (Entry.message (recordOf 0 name m)).Fits) :
      Move c .store s ((s.newMessage m).storeMessage name s.heap.size)
  | oversize {s} {q : MessageQueue} {name : Bytes} (m : Message) (hw : m.properties.WellFormed) (hid : m.Pristine)
      (hq : s.queue name = some q) (hd : q.durable = true) (hp : m.isPersistent = true)
      (hfit : ¬(Entry.message (recordOf 0 name m)).Fits) :
      Move c .oversize s ((s.newMessage m).storeMessage name s.heap.size)
  | recover {s} (m : Message) (name : Bytes) (hw : m.properties.WellFormed) (hhops : m.dlx_hops = 0) :
      Move c .recover s ((s.newMessage m).record [.stored s.heap.size name m.wal_id])
  | recoverQueue {s} {q : MessageQueue} {name : Bytes} (hname : name.length ≤ MAX_ENTRY_SIZE) (hnew : s.queue name = none) (hm : q.messages = [])
      (hk : q.consumers = []) (he : q.enqueued = []) (ho : q.exclusive = false) :
      Move c .recover s { s with queues := s.queues.insert name q }
  | send {s} (out : Outgoing) : Move c (outgoingKind out) s (s.send c out)
  | note {s} {k : Kind} (num : UInt16) (f : Channel → Channel) (hf : ∀ ch, (f ch).frame = ch.frame)
      (hk : k = .confirm ∨ k = .output ∧
        ∀ ch, (f ch).confirmMode = ch.confirmMode ∧ (f ch).nextConfirmSeqNo = ch.nextConfirmSeqNo) :
      Move c k s (s.modifyChannel c num f)
  | pending {s} (num : UInt16) (p : Option PendingPublish) (hp : ∀ x, p = some x → x.Sound) :
      Move c .pending s (s.setPending c num p)
  | handshake {s} (f : Connection → Connection) (hf : ∀ conn, (f conn).Tuned conn)
      (hclosed : ∀ conn, s.connection c = some conn → conn.state = .CLOSED → (f conn).state = .CLOSED) :
      Move c .handshake s (s.modifyConnection c f)
  | hold {s} (num : UInt16) (u : UnackedMessage) (hu : u.message < s.heap.size)
      (hk : ∀ k, u.consumer = some k → ∃ ch tag, s.channel c num = some ch ∧ ch.consumers.lookup tag = some k) :
      Move c .hold s ((s.hold c num u).takeTag c num)
  | takeTag {s} (num : UInt16) : Move c .hold s (s.takeTag c num)
  | releaseCredit {s} (u : UnackedMessage) : Move c .release s (s.releaseCredit u)
  | eraseUnacked {s} (num : UInt16) (tag : Nat) : Move c .release s (s.eraseUnacked c num tag)
  | clearUnacked {s} (num : UInt16) : Move c .release s (s.clearUnacked c num)
  | settle {s} (u : UnackedMessage) (hu : u.message < s.heap.size) : Move c .settle s (s.persistAck u)
  | remove {s} (r : Ref) (name : Bytes) (hr : r < s.heap.size) :
      Move c .remove s (s.record [.removed (s.origin r) name])
  | newConsumer {s} (k : Consumer) (hk : k.connection_id = c) :
      Move c .register s { s with consumerHeap := s.consumerHeap.alloc k }
  | mapConsumer {s} (num : UInt16) (tag : Bytes) (k : Ref) (counter : Nat) (hk : k < s.consumerHeap.size)
      (hown : (s.consumer k).connection_id = c ∧ (s.consumer k).channel_id = num ∧ (s.consumer k).tag = tag) :
      Move c .register s (s.modifyChannel c num fun ch =>
        { ch with consumerTagCounter := counter, consumers := ch.consumers.insert tag k })
  | addConsumer {s} (name : Bytes) (k : Ref) (hk : k < s.consumerHeap.size) (hid : (s.consumer k).connection_id = c)
      (hname : (s.consumer k).queue_name = name) (hnew : ∀ name' q, s.queue name' = some q → k ∉ q.consumers) :
      Move c .register s (s.modifyQueue name fun q => { q with consumers := q.consumers ++ [k] })
  | removeConsumer {s} (name tag : Bytes) : Move c .unregister s (s.removeConsumer name tag)
  | unmapConsumer {s} (num : UInt16) (tag : Bytes) :
      Move c .unregister s (s.modifyChannel c num fun ch => { ch with consumers := ch.consumers.erase tag })
  | unmapConsumers {s} (num : UInt16) :
      Move c .unregister s (s.modifyChannel c num fun ch => { ch with consumers := ∅ })
  | removeConsumersByConnection {s} (name : Bytes) : Move c .unregister s (s.removeConsumersByConnection name c)
  | openChannel {s} (num : UInt16) (hnum : num ≠ 0) : Move c .openChannel s (s.openChannel c num)
  | setClosed {s} (num : UInt16) :
      Move c .closeChannel s (s.modifyChannel c num fun ch => { ch with isOpen := false })
  | dropChannel {s} (num : UInt16) :
      Move c .closeChannel s (s.modifyConnection c fun conn => { conn with channels := conn.channels.erase num })
  | shut {s} :
      Move c .closeChannel s (s.modifyConnection c fun conn => { conn with state := .CLOSED, reading := false })
  | dropChannels {s} : Move c .closeChannel s (s.modifyConnection c fun conn => { conn with channels := ∅ })
  | exchanges {s} (m : Assoc Bytes Exchange) : Move c .topology s { s with exchanges := m }
  | nameCounter {s} (n : UInt64) : Move c .topology s { s with nameCounter := n }
  | insertQueue {s} {q : MessageQueue} {name : Bytes} (hname : name.length ≤ 255) (hnew : s.queue name = none)
      (hm : q.messages = []) (hk : q.consumers = []) (he : q.enqueued = [])
      (ho : q.exclusive = true → q.owner_connection = c) :
      Move c .topology s { s with queues := s.queues.insert name q }
  | eraseQueue {s} (name : Bytes) : Move c .topology s { s with queues := s.queues.erase name }
  | log {s} (e : Entry) (hm : e.message? = none) (ha : ∀ m, e.acks m = false) (hfit : e.Fits) :
      Move c .topology s (s.modifyStore fun st => st.append e)
  | popTask {s} {conn : Connection} {t : DeliverTask} {rest : List DeliverTask} (hc : s.connection c = some conn)
      (hs : conn.strand = t :: rest) : Move c .task s (s.modifyConnection c fun conn => { conn with strand := rest })
  | accept {s} : Move c .server s s.accept
  | compact {s} : Move c .server s (s.modifyStore MessageStore.compactIfNeeded)
  | reorderQueues {s} (order : List Bytes) : Move c .server s { s with queues := s.queues.reorder order }
  | reorderExchanges {s} (order : List Bytes) : Move c .server s { s with exchanges := s.exchanges.reorder order }
  | reorderChannels {s} (order : List UInt16) :
      Move c .server s (s.modifyConnection c fun conn => { conn with channels := conn.channels.reorder order })
  | reorderConsumers {s} (num : UInt16) (order : List Bytes) :
      Move c .server s (s.modifyChannel c num fun ch => { ch with consumers := ch.consumers.reorder order })
  | reorderUnacked {s} (num : UInt16) (order : List Nat) :
      Move c .server s (s.modifyChannel c num fun ch => { ch with unackedMessages := ch.unackedMessages.reorder order })

theorem methodIds_methodFrame (num classId methodId : UInt16) (args : Bytes) :
    methodIds (methodFrame num classId methodId args) = some (classId, methodId) := by
  have hread : Reader.Reads readMethodIds (writeUint16 classId ++ writeUint16 methodId) (classId, methodId) :=
    (reads_uint16 classId).bind (reads_uint16 methodId).map
  rw [methodIds, methodFrame, if_pos rfl]
  dsimp only
  rw [Buffer.ofBytes, hread]

theorem outgoingKind_methodFrame (num classId methodId : UInt16) (args : Bytes) :
    outgoingKind (.frame (methodFrame num classId methodId args)) = methodKind classId methodId := by
  rw [outgoingKind, methodIds_methodFrame]
  rfl

theorem outgoingKind_of_ne {frame : Frame} (h : frame.type ≠ FRAME_METHOD) : outgoingKind (.frame frame) = .output := by
  rw [outgoingKind, methodIds, if_neg h]
  rfl

theorem outgoingKind_mem (out : Outgoing) : outgoingKind out ∈ [Kind.output, .confirm, .deliver] := by
  cases out with
  | protocolHeader => decide
  | frame f =>
    rw [outgoingKind]
    cases methodIds f with
    | none => decide
    | some ids =>
      rw [Option.map_some, Option.getD_some, methodKind]
      split
      · decide
      · split <;> decide

theorem outgoingKind_not_mem {out : Outgoing} {K : List Kind} (hK : ∀ k ∈ [Kind.output, .confirm, .deliver], k ∉ K) :
    outgoingKind out ∉ K :=
  hK _ (outgoingKind_mem out)

/-! ### Valid states -/

/-- The references of a channel are in use; `heap`, `consumers` and `channels` are how many there are. --/
structure ChannelOk (heap consumers channels : Nat) (ch : Channel) : Prop where
  ref : ch.ref < channels
  unacked : ch.unackedMessages.All fun tag u => tag < ch.nextDeliveryTag ∧ u.message < heap
  consumers : ch.consumers.All fun _ k => k < consumers
  pending : ∀ p, ch.pendingPublish = some p → p.Sound

structure ConnectionOk (heap consumers channels : Nat) (conn : Connection) : Prop where
  strand : ∀ t ∈ conn.strand, t.msg < heap
  channels : conn.channels.All fun _ => ChannelOk heap consumers channels

structure QueueOk (heap consumers : Nat) (q : MessageQueue) : Prop where
  messages : ∀ r ∈ q.messages, r < heap
  consumers : ∀ k ∈ q.consumers, k < consumers

/-- No reference dangles, names are within their bounds, and what clients have sent was decoded. --/
structure Valid (s : AmqpServer) : Prop where
  queues : s.queues.All fun name q => name.length ≤ MAX_ENTRY_SIZE ∧ QueueOk s.heap.size s.consumerHeap.size q
  connections : s.connections.All fun c conn =>
    c < s.nextConnectionId ∧ ConnectionOk s.heap.size s.consumerHeap.size s.nextChannel conn
  properties : ∀ r, (s.message r).properties.WellFormed
  origins : ∀ r, r < s.heap.size → s.origin r < s.heap.size
  ledger : ∀ f ∈ s.ledger, f.origin < s.heap.size

variable {c : Nat} {num : UInt16} {s s' : AmqpServer}

theorem modifyChannel_modifyChannel (f g : Channel → Channel) :
    (s.modifyChannel c num f).modifyChannel c num g = s.modifyChannel c num fun ch => g (f ch) := by
  simp only [modifyChannel, modifyConnection, Assoc.modify_modify]

theorem channel_modifyChannel_self (f : Channel → Channel) :
    (s.modifyChannel c num f).channel c num = (s.channel c num).map f := by
  rw [channel, connection, modifyChannel, modifyConnection, Assoc.lookup_modify_self, channel, connection]
  cases s.connections.lookup c with
  | none => rfl
  | some conn => exact Assoc.lookup_modify_self ..

theorem heap_releaseCredit (u : UnackedMessage) : (s.releaseCredit u).heap = s.heap := by
  rw [releaseCredit]
  split <;> rfl

theorem heap_persistAck (u : UnackedMessage) : (s.persistAck u).heap = s.heap := by
  rw [persistAck]
  split
  · exact heap_releaseCredit u
  · split <;> exact heap_releaseCredit u

theorem heap_removeConsumersByConnection (name : Bytes) (connId : Nat) :
    (s.removeConsumersByConnection name connId).heap = s.heap := by
  have hfold : ∀ (l : List Ref) (s : AmqpServer),
      (l.foldl (fun s k => s.modifyConsumer k fun c => { c with on_deliver := none }) s).heap = s.heap := by
    intro l
    induction l with
    | nil => exact fun _ => rfl
    | cons k l ih => exact fun s => (ih _).trans rfl
  rw [removeConsumersByConnection]
  split
  · rfl
  · exact hfold _ _

theorem connections_storeMessage (name : Bytes) (r : Ref) : (s.storeMessage name r).connections = s.connections := by
  rw [storeMessage]
  split <;> rfl

theorem connections_releaseCredit (u : UnackedMessage) : (s.releaseCredit u).connections = s.connections := by
  rw [releaseCredit]
  split <;> rfl

theorem connections_removeConsumer (name tag : Bytes) : (s.removeConsumer name tag).connections = s.connections := by
  rw [removeConsumer]
  split
  · rfl
  · split <;> rfl

theorem connections_persistAck (u : UnackedMessage) : (s.persistAck u).connections = s.connections := by
  rw [persistAck]
  split
  · exact connections_releaseCredit u
  · split <;> exact connections_releaseCredit u

theorem connections_removeConsumersByConnection (name : Bytes) (connId : Nat) :
    (s.removeConsumersByConnection name connId).connections = s.connections := by
  have hfold : ∀ (l : List Ref) (s : AmqpServer),
      (l.foldl (fun s k => s.modifyConsumer k fun c => { c with on_deliver := none }) s).connections = s.connections := by
    intro l
    induction l with
    | nil => exact fun _ => rfl
    | cons k l ih => exact fun s => (ih _).trans rfl
  rw [removeConsumersByConnection]
  split
  · rfl
  · exact hfold _ _

theorem origin_modifyMessage (r : Ref) (f : Message → Message) (r' : Ref) :
    (s.modifyMessage r f).origin r' = s.origin r' :=
  Heap.cell_modify_congr (f := fun x : Cell => { x with msg := f x.msg }) Cell.origin (fun _ => rfl) r'

namespace Valid

theorem queue (h : Valid s) {name : Bytes} {q : MessageQueue} (hq : s.queue name = some q) :
    QueueOk s.heap.size s.consumerHeap.size q :=
  (h.queues name q hq).2

theorem channel (h : Valid s) {ch : Channel} (hch : s.channel c num = some ch) :
    ChannelOk s.heap.size s.consumerHeap.size s.nextChannel ch := by
  obtain ⟨conn, hconn, hch⟩ := Option.bind_eq_some_iff.mp hch
  exact (h.connections c conn hconn).2.channels num ch hch

theorem modifyQueue (h : Valid s) {name : Bytes} {f : MessageQueue → MessageQueue}
    (hf : ∀ q, s.queue name = some q → QueueOk s.heap.size s.consumerHeap.size q →
      QueueOk s.heap.size s.consumerHeap.size (f q)) : Valid (s.modifyQueue name f) :=
  ⟨h.queues.modify fun q hq hok => ⟨hok.1, hf q hq hok.2⟩, h.connections, h.properties, h.origins, h.ledger⟩

theorem modifyConnection (h : Valid s) {f : Connection → Connection}
    (hf : ∀ conn, s.connection c = some conn → ConnectionOk s.heap.size s.consumerHeap.size s.nextChannel conn →
      ConnectionOk s.heap.size s.consumerHeap.size s.nextChannel (f conn)) : Valid (s.modifyConnection c f) :=
  ⟨h.queues, h.connections.modify fun conn hconn hok => ⟨hok.1, hf conn hconn hok.2⟩, h.properties, h.origins, h.ledger⟩

theorem modifyChannel (h : Valid s) {f : Channel → Channel}
    (hf : ∀ ch, ChannelOk s.heap.size s.consumerHeap.size s.nextChannel ch →
      ChannelOk s.heap.size s.consumerHeap.size s.nextChannel (f ch)) : Valid (s.modifyChannel c num f) :=
  h.modifyConnection fun _ _ hok => ⟨hok.strand, hok.channels.modify fun ch _ => hf ch⟩

theorem record (h : Valid s) {facts : List Fact} (hf : ∀ f ∈ facts, f.origin < s.heap.size) : Valid (s.record facts) := by
  refine ⟨h.queues, h.connections, h.properties, h.origins, fun f hmem => ?_⟩
  rcases List.mem_append.mp hmem with hmem | hmem
  · exact h.ledger f hmem
  · exact hf f hmem

theorem modifyMessage (h : Valid s) {r : Ref} {f : Message → Message}
    (hf : ∀ m, m.properties.WellFormed → (f m).properties.WellFormed) : Valid (s.modifyMessage r f) := by
  refine ⟨h.queues, h.connections, fun r' => ?_, fun r' hr' => ?_, h.ledger⟩
  · by_cases hr : r' = r
    · rw [message, hr, AmqpServer.modifyMessage, Heap.cell_modify_self]
      exact hf _ (h.properties r)
    · rw [message, AmqpServer.modifyMessage, Heap.cell_modify_of_ne hr]
      exact h.properties r'
  · rw [origin_modifyMessage]
    exact h.origins r' hr'

/-- A new message object. --/
theorem alloc (h : Valid s) {m : Message} {o : Ref} (hw : m.properties.WellFormed) (ho : o < s.heap.size + 1) :
    Valid { s with heap := s.heap.alloc { msg := m, origin := o } } := by
  have hlt : ∀ {n}, n < s.heap.size → n < s.heap.size + 1 := Nat.lt_succ_of_lt
  refine ⟨?_, ?_, fun r => ?_, fun r hr => ?_, fun f hf => hlt (h.ledger f hf)⟩
  · exact h.queues.mono fun _ q hq => ⟨hq.1, fun r hr => hlt (hq.2.messages r hr), hq.2.consumers⟩
  · refine h.connections.mono fun _ conn hok => ⟨hok.1, fun t ht => hlt (hok.2.strand t ht), ?_⟩
    exact hok.2.channels.mono fun _ ch hch =>
      ⟨hch.ref, hch.unacked.mono fun _ u hu => ⟨hu.1, hlt hu.2⟩, hch.consumers, hch.pending⟩
  · by_cases hr : r = s.heap.size
    · rw [message, hr, Heap.cell_alloc_self]
      exact hw
    · rw [message, Heap.cell_alloc_of_ne hr]
      exact h.properties r
  · by_cases heq : r = s.heap.size
    · rw [origin, heq, Heap.cell_alloc_self]
      exact ho
    · rw [origin, Heap.cell_alloc_of_ne heq]
      exact hlt (h.origins r (by have : r < s.heap.size + 1 := hr; omega))

theorem modifyConsumer (h : Valid s) (k : Ref) (f : Consumer → Consumer) : Valid (s.modifyConsumer k f) :=
  ⟨h.queues, h.connections, h.properties, h.origins, h.ledger⟩

theorem setHeader {m : Message} (h : m.properties.WellFormed) {key : Bytes} (hkey : key.length ≤ 255) (value : Bytes) :
    (setHeader key value m).properties.WellFormed := by
  refine { h with headers := fun t ht => ?_ }
  obtain rfl := Option.some.inj ht
  refine entriesWellFormed_assign hkey (show FieldValue.WellFormed 0 (.longString value) from trivial) ?_
  cases hh : m.properties.headers with
  | none => trivial
  | some t => exact h.headers t hh

theorem deathHeaders {m : Message} (h : m.properties.WellFormed) (name reason : Bytes) :
    (deathHeaders name reason m).properties.WellFormed :=
  setHeader (setHeader (setHeader h (by decide) _) (by decide) _) (by decide) _

theorem pushed (h : Valid s) {r : Ref} (hr : r < s.heap.size) (name : Bytes) : Valid (s.pushed name r) := by
  refine h.modifyQueue fun q _ hq => ⟨fun r' hr' => ?_, hq.consumers⟩
  have hmem : r' ∈ q.messages ++ [r] := (sortMessages_perm s q _).mem_iff.mp hr'
  rcases List.mem_append.mp hmem with hmem | hmem
  · exact hq.messages r' hmem
  · obtain rfl := List.mem_singleton.mp hmem
    exact hr

theorem handOver (h : Valid s) {q : MessageQueue} {name : Bytes} {head : Ref} {rest : List Ref} (k : Ref) (idx : Nat)
    (hq : s.queue name = some q) (hm : q.messages = head :: rest) : Valid (s.handOver name k head idx) := by
  have hhead : head < s.heap.size := (h.queue hq).messages head (hm ▸ List.mem_cons_self)
  rw [AmqpServer.handOver]
  have htaken : Valid (s.modifyQueue name fun q => { q with messages := q.messages.tail, roundRobinIdx := idx }) :=
    h.modifyQueue fun q _ hq => ⟨fun r hr => hq.messages r (List.mem_of_mem_tail hr), hq.consumers⟩
  have hcredit : ∀ s₁ : AmqpServer, Valid s₁ → s₁.heap = s.heap → Valid (s₁.onDeliver k head) := by
    intro s₁ h₁ hheap
    rw [onDeliver]
    split
    · exact h₁
    · refine Valid.modifyConnection (h₁.alloc ?_ ?_) fun conn _ hok => ⟨fun t ht => ?_, hok.channels⟩
      · exact h₁.properties head
      · exact Nat.lt_succ_of_lt (h₁.origins head (hheap ▸ hhead))
      · rcases List.mem_append.mp ht with ht | ht
        · exact hok.strand t ht
        · obtain rfl := List.mem_singleton.mp ht
          exact Nat.lt_succ_self _
  split
  · exact hcredit _ htaken rfl
  · exact hcredit _ (htaken.modifyConsumer k _) rfl

theorem storeMessage (h : Valid s) {name : Bytes} {r : Ref} (hr : r < s.heap.size) : Valid (s.storeMessage name r) := by
  rw [AmqpServer.storeMessage]
  split
  · exact h
  · rename_i st _
    have hst : ∀ st', Valid { s with store := some st' } := fun _ =>
      ⟨h.queues, h.connections, h.properties, h.origins, h.ledger⟩
    dsimp only
    refine Valid.record (Valid.modifyMessage (hst _) ?_) fun f hf => ?_
    · exact fun m hm => hm
    · obtain rfl := List.mem_singleton.mp hf
      exact h.origins r hr

theorem newMessage (h : Valid s) {m : Message} (hw : m.properties.WellFormed) : Valid (s.newMessage m) :=
  h.alloc hw (Nat.lt_succ_self _)

theorem releaseCredit (h : Valid s) (u : UnackedMessage) : Valid (s.releaseCredit u) := by
  rw [AmqpServer.releaseCredit]
  split
  · exact h
  · exact h.modifyConsumer _ _

theorem persistAck (h : Valid s) {u : UnackedMessage} (hu : u.message < s.heap.size) : Valid (s.persistAck u) := by
  have hsettled : Valid ((s.releaseCredit u).record [.settled (s.origin u.message) u.queue_name]) := by
    refine (h.releaseCredit u).record fun f hf => ?_
    obtain rfl := List.mem_singleton.mp hf
    rw [heap_releaseCredit]
    exact h.origins u.message hu
  rw [AmqpServer.persistAck]
  split
  · exact hsettled
  · split
    · exact ⟨hsettled.queues, hsettled.connections, hsettled.properties, hsettled.origins, hsettled.ledger⟩
    · exact hsettled

theorem removeConsumer (h : Valid s) (name tag : Bytes) : Valid (s.removeConsumer name tag) := by
  rw [AmqpServer.removeConsumer]
  split
  · exact h
  · split
    · exact h
    · exact (h.modifyConsumer _ _).modifyQueue fun q _ hq =>
        ⟨hq.messages, fun k hk => hq.consumers k (List.mem_of_mem_eraseP hk)⟩

theorem removeConsumersByConnection (h : Valid s) (name : Bytes) (connId : Nat) :
    Valid (s.removeConsumersByConnection name connId) := by
  have hfold : ∀ (l : List Ref) (s : AmqpServer), Valid s →
      Valid (l.foldl (fun s k => s.modifyConsumer k fun c => { c with on_deliver := none }) s) := by
    intro l
    induction l with
    | nil => exact fun _ hs => hs
    | cons k l ih => exact fun s hs => ih _ (hs.modifyConsumer k _)
  rw [AmqpServer.removeConsumersByConnection]
  split
  · exact h
  · exact (hfold _ s h).modifyQueue fun q _ hq => ⟨hq.messages, fun k hk => hq.consumers k (List.mem_filter.mp hk).1⟩

theorem openChannel (h : Valid s) (num : UInt16) : Valid (s.openChannel c num) := by
  have hlt : ∀ {n}, n < s.nextChannel → n < s.nextChannel + 1 := Nat.lt_succ_of_lt
  have hnext : Valid { s with nextChannel := s.nextChannel + 1 } := by
    refine ⟨h.queues, h.connections.mono fun _ conn hok => ⟨hok.1, hok.2.strand, ?_⟩, h.properties, h.origins, h.ledger⟩
    exact hok.2.channels.mono fun _ ch hch => ⟨hlt hch.ref, hch.unacked, hch.consumers, hch.pending⟩
  have hnew : ∀ conn : Connection, ChannelOk s.heap.size s.consumerHeap.size (s.nextChannel + 1)
      { ref := s.nextChannel, frameMax := conn.frameMax, isOpen := true } := fun conn =>
    ⟨Nat.lt_succ_self _, Assoc.All.empty, Assoc.All.empty, fun p hp => by cases hp⟩
  exact hnext.modifyConnection fun conn _ hok => ⟨hok.strand, hok.channels.insert (hnew conn)⟩

/-- Every move keeps the state valid. --/
theorem move {k : Kind} (h : Valid s) (hm : Move c k s s') : Valid s' := by
  have hkeep : ∀ {s' : AmqpServer}, s'.queues = s.queues → s'.connections = s.connections → s'.heap = s.heap →
      s'.consumerHeap = s.consumerHeap → s'.nextConnectionId = s.nextConnectionId → s'.nextChannel = s.nextChannel →
      s'.ledger = s.ledger → Valid s' := by
    intro s' hq hc hh hk hn hch hl
    refine ⟨by rw [hq, hh, hk]; exact h.queues, by rw [hc, hh, hk, hn, hch]; exact h.connections, ?_, ?_,
      by rw [hl, hh]; exact h.ledger⟩
    · simp only [message, hh]
      exact h.properties
    · simp only [origin, hh]
      exact h.origins
  cases hm with
  | clock => exact hkeep rfl rfl rfl rfl rfl rfl rfl
  | touch r f hf =>
    refine h.modifyMessage fun m hw => ?_
    have hp : (f m).frame.properties = m.frame.properties := by rw [hf]
    exact (show (f m).properties = m.properties from hp) ▸ hw
  | mark reason r => exact h.modifyMessage fun m hw => deathHeaders hw _ reason
  | letter r hr => exact h.pushed hr _
  | @expire _ q name dlq rest hq hsplit =>
    refine Valid.record (Valid.modifyQueue h ?_) fun f hf => ?_
    · exact fun q _ hq => ⟨fun r hr => hq.messages r (List.mem_of_mem_drop hr), hq.consumers⟩
    · obtain ⟨r, hr, rfl⟩ := List.mem_map.mp hf
      exact h.origins r ((h.queue hq).messages r (hsplit ▸ List.mem_append_left _ hr))
  | rotate name idx => exact h.modifyQueue fun q _ hq => ⟨hq.messages, hq.consumers⟩
  | handOver idx hq hm => exact h.handOver _ idx hq hm
  | enqueue r hr => exact h.pushed hr _
  | requeue name r hr =>
    refine h.modifyQueue fun q _ hq => ⟨fun r' hr' => ?_, hq.consumers⟩
    rcases List.mem_cons.mp hr' with rfl | hr'
    · exact hr
    · exact hq.messages r' hr'
  | take name => exact h.modifyQueue fun q _ hq => ⟨fun r hr => hq.messages r (List.mem_of_mem_tail hr), hq.consumers⟩
  | purge name =>
    rw [AmqpServer.purge]
    split
    · exact h
    · rename_i q hq
      refine Valid.record (Valid.modifyQueue h ?_) fun f hf => ?_
      · exact fun q _ hq => ⟨fun r hr => (by cases hr), hq.consumers⟩
      · obtain ⟨r, hr, rfl⟩ := List.mem_map.mp hf
        exact h.origins r ((h.queue hq).messages r hr)
  | create m hw => exact h.newMessage hw
  | store m hw => exact (h.newMessage hw).storeMessage (Nat.lt_succ_self _)
  | oversize m hw => exact (h.newMessage hw).storeMessage (Nat.lt_succ_self _)
  | recover m name hw =>
    refine (h.newMessage hw).record fun f hf => ?_
    obtain rfl := List.mem_singleton.mp hf
    exact Nat.lt_succ_self _
  | @recoverQueue _ q name hname hnew hm hk =>
    refine ⟨h.queues.insert ⟨hname, ?_, ?_⟩, h.connections, h.properties, h.origins, h.ledger⟩
    · rw [hm]
      exact List.forall_mem_nil _
    · rw [hk]
      exact List.forall_mem_nil _
  | send out => exact h.modifyConnection fun _ _ hok => ⟨hok.strand, hok.channels⟩
  | note num f hf =>
    refine h.modifyChannel fun ch hok => ?_
    have hframe := hf ch
    simp only [Channel.frame, Channel.mk.injEq] at hframe
    obtain ⟨href, -, -, -, htag, -, -, -, hcons, -, hpend, hun⟩ := hframe
    exact ⟨href ▸ hok.ref, by rw [hun, htag]; exact hok.unacked, hcons ▸ hok.consumers, hpend ▸ hok.pending⟩
  | pending num p hp => exact h.modifyChannel fun ch hok => ⟨hok.ref, hok.unacked, hok.consumers, hp⟩
  | handshake f hf =>
    refine h.modifyConnection fun conn _ hok => ?_
    exact ⟨(hf conn).strand ▸ hok.strand, (hf conn).channels ▸ hok.channels⟩
  | hold num u hu =>
    have htag : Valid (s.takeTag c num) := h.modifyChannel fun ch hok =>
      ⟨hok.ref, hok.unacked.mono fun _ _ hu => ⟨Nat.lt_succ_of_lt hu.1, hu.2⟩, hok.consumers, hok.pending⟩
    have heq : (s.hold c num u).takeTag c num = s.modifyChannel c num fun ch =>
        { ch with
          unackedMessages := ch.unackedMessages.insert ch.nextDeliveryTag u
          nextDeliveryTag := ch.nextDeliveryTag + 1 } := modifyChannel_modifyChannel ..
    rw [heq]
    exact h.modifyChannel fun ch hok => ⟨hok.ref, Assoc.All.insert (hok.unacked.mono fun _ _ hu =>
      ⟨Nat.lt_succ_of_lt hu.1, hu.2⟩) ⟨Nat.lt_succ_self _, hu⟩, hok.consumers, hok.pending⟩
  | takeTag num =>
    exact h.modifyChannel fun ch hok =>
      ⟨hok.ref, hok.unacked.mono fun _ _ hu => ⟨Nat.lt_succ_of_lt hu.1, hu.2⟩, hok.consumers, hok.pending⟩
  | releaseCredit u => exact h.releaseCredit u
  | eraseUnacked num tag =>
    exact h.modifyChannel fun ch hok => ⟨hok.ref, hok.unacked.erase tag, hok.consumers, hok.pending⟩
  | clearUnacked num => exact h.modifyChannel fun ch hok => ⟨hok.ref, .empty, hok.consumers, hok.pending⟩
  | settle u hu => exact h.persistAck hu
  | remove r name hr =>
    refine h.record fun f hf => ?_
    obtain rfl := List.mem_singleton.mp hf
    exact h.origins r hr
  | newConsumer k =>
    have hlt : ∀ {n}, n < s.consumerHeap.size → n < s.consumerHeap.size + 1 := Nat.lt_succ_of_lt
    refine ⟨h.queues.mono fun _ q hq => ⟨hq.1, hq.2.messages, fun k hk => hlt (hq.2.consumers k hk)⟩, ?_, h.properties,
      h.origins, h.ledger⟩
    exact h.connections.mono fun _ conn hok => ⟨hok.1, hok.2.strand, hok.2.channels.mono fun _ ch hch =>
      ⟨hch.ref, hch.unacked, hch.consumers.mono fun _ _ hk => hlt hk, hch.pending⟩⟩
  | mapConsumer num tag k counter hk =>
    exact h.modifyChannel fun ch hok => ⟨hok.ref, hok.unacked, hok.consumers.insert hk, hok.pending⟩
  | addConsumer name k hk =>
    refine h.modifyQueue fun q _ hq => ⟨hq.messages, fun k' hk' => ?_⟩
    rcases List.mem_append.mp hk' with hk' | hk'
    · exact hq.consumers k' hk'
    · obtain rfl := List.mem_singleton.mp hk'
      exact hk
  | removeConsumer name tag => exact h.removeConsumer name tag
  | unmapConsumer num tag =>
    exact h.modifyChannel fun ch hok => ⟨hok.ref, hok.unacked, hok.consumers.erase tag, hok.pending⟩
  | unmapConsumers num => exact h.modifyChannel fun ch hok => ⟨hok.ref, hok.unacked, .empty, hok.pending⟩
  | removeConsumersByConnection name => exact h.removeConsumersByConnection name c
  | openChannel num => exact h.openChannel num
  | setClosed num => exact h.modifyChannel fun ch hok => ⟨hok.ref, hok.unacked, hok.consumers, hok.pending⟩
  | dropChannel num => exact h.modifyConnection fun conn _ hok => ⟨hok.strand, hok.channels.erase num⟩
  | shut => exact h.modifyConnection fun conn _ hok => ⟨hok.strand, hok.channels⟩
  | dropChannels => exact h.modifyConnection fun conn _ hok => ⟨hok.strand, .empty⟩
  | exchanges m => exact hkeep rfl rfl rfl rfl rfl rfl rfl
  | nameCounter n => exact hkeep rfl rfl rfl rfl rfl rfl rfl
  | @insertQueue _ q name hname hnew hm hk =>
    refine ⟨h.queues.insert ⟨hname.trans (by decide), ?_, ?_⟩, h.connections, h.properties, h.origins, h.ledger⟩
    · rw [hm]
      exact List.forall_mem_nil _
    · rw [hk]
      exact List.forall_mem_nil _
  | eraseQueue name => exact ⟨h.queues.erase name, h.connections, h.properties, h.origins, h.ledger⟩
  | log e => exact hkeep rfl rfl rfl rfl rfl rfl rfl
  | @popTask _ conn t rest hconn hstrand =>
    refine h.modifyConnection fun conn' hconn' hok => ⟨fun t' ht' => hok.strand t' ?_, hok.channels⟩
    obtain rfl : conn = conn' := Option.some.inj (hconn.symm.trans hconn')
    rw [hstrand]
    exact List.mem_cons_of_mem _ ht'
  | accept =>
    have hnew : ConnectionOk s.heap.size s.consumerHeap.size s.nextChannel {} :=
      ⟨fun t ht => (by cases ht), Assoc.All.empty⟩
    have hold := h.connections.mono fun c conn (hok : c < s.nextConnectionId ∧ ConnectionOk _ _ _ conn) =>
      And.intro (Nat.lt_succ_of_lt hok.1) hok.2
    exact ⟨h.queues, hold.insert ⟨Nat.lt_succ_self _, hnew⟩, h.properties, h.origins, h.ledger⟩
  | compact => exact hkeep rfl rfl rfl rfl rfl rfl rfl
  | reorderQueues order => exact ⟨h.queues.reorder order, h.connections, h.properties, h.origins, h.ledger⟩
  | reorderExchanges order => exact hkeep rfl rfl rfl rfl rfl rfl rfl
  | reorderChannels order => exact h.modifyConnection fun conn _ hok => ⟨hok.strand, hok.channels.reorder order⟩
  | reorderConsumers num order =>
    exact h.modifyChannel fun ch hok => ⟨hok.ref, hok.unacked, hok.consumers.reorder order, hok.pending⟩
  | reorderUnacked num order =>
    exact h.modifyChannel fun ch hok => ⟨hok.ref, hok.unacked.reorder order, hok.consumers, hok.pending⟩

end Valid

/-- The cell is that of the object which is made for the delivery of a message in a queue. --/
def IsCopy (s : AmqpServer) (x : Cell) : Prop :=
  ∃ name q r, s.queue name = some q ∧ r ∈ q.messages ∧ x = { msg := (s.message r).copied, origin := s.origin r }

/-- A move changes a message object or makes a new one, which is its own origin or that of a delivery. --/
theorem heap_of_move {k : Kind} (hm : Move c k s s') :
    s'.heap = s.heap ∨ (∃ (r : Ref) (f : Message → Message), s'.heap = s.heap.modify r fun x => { x with msg := f x.msg }) ∨
      ∃ x : Cell, s'.heap = s.heap.alloc x ∧ (x.origin = s.heap.size ∨ IsCopy s x) := by
  have hstore : ∀ (m : Message) (name : Bytes), ∃ x : Cell,
      ((s.newMessage m).storeMessage name s.heap.size).heap = s.heap.alloc x ∧
        (x.origin = s.heap.size ∨ IsCopy s x) := by
    intro m name
    rw [storeMessage]
    split
    · exact ⟨{ msg := m, origin := s.heap.size }, rfl, .inl rfl⟩
    · rename_i st _
      let id := (st.storeMessage name ((s.newMessage m).message s.heap.size)).1
      exact ⟨{ msg := { m with wal_id := id }, origin := s.heap.size },
        Heap.modify_alloc_self s.heap _ fun x => { x with msg := { x.msg with wal_id := id } }, .inl rfl⟩
  cases hm with
  | touch r f hf => exact .inr (.inl ⟨r, f, rfl⟩)
  | mark reason r hq hdlx => exact .inr (.inl ⟨r, _, rfl⟩)
  | @handOver _ q name k head rest idx hq hmsgs =>
    have hcopy : IsCopy s { msg := (s.message head).copied, origin := s.origin head } :=
      ⟨name, q, head, hq, hmsgs ▸ List.mem_cons_self, rfl⟩
    rw [handOver, onDeliver]
    split <;> (split <;> first | exact .inl rfl | exact .inr (.inr ⟨_, rfl, .inr hcopy⟩))
  | purge name =>
    rw [purge]
    split <;> exact .inl rfl
  | create m => exact .inr (.inr ⟨_, rfl, .inl rfl⟩)
  | store m => exact .inr (.inr (hstore m _))
  | oversize m => exact .inr (.inr (hstore m _))
  | recover m name => exact .inr (.inr ⟨_, rfl, .inl rfl⟩)
  | releaseCredit u => exact .inl (heap_releaseCredit u)
  | settle u => exact .inl (heap_persistAck u)
  | removeConsumer name tag =>
    rw [removeConsumer]
    split
    · exact .inl rfl
    · split <;> exact .inl rfl
  | removeConsumersByConnection name => exact .inl (heap_removeConsumersByConnection name c)
  | _ => exact .inl rfl

/-- Objects are not freed. --/
theorem heap_le_of_move {k : Kind} (hm : Move c k s s') : s.heap.size ≤ s'.heap.size := by
  rcases heap_of_move hm with h | ⟨r, f, h⟩ | ⟨x, h, -⟩ <;> rw [h]
  · exact le_rfl
  · exact Nat.le_succ _

/-- An object keeps its origin. --/
theorem origin_move {k : Kind} (hm : Move c k s s') {r : Ref} (hr : r < s.heap.size) : s'.origin r = s.origin r := by
  rcases heap_of_move hm with h | ⟨r', f, h⟩ | ⟨x, h, -⟩ <;> rw [origin, h]
  · rfl
  · exact Heap.cell_modify_congr (f := fun x : Cell => { x with msg := f x.msg }) Cell.origin (fun _ => rfl) r
  · rw [Heap.cell_alloc_of_ne (Nat.ne_of_lt hr), origin]

/-- A message is changed by what happens in queues only: it is counted and stamped, or it gets the headers of a dead
    letter. --/
theorem message_of_move {k : Kind} (hm : Move c k s s') {r : Ref} (hr : r < s.heap.size) :
    s'.message r = s.message r ∨
      k = .queue ∧ ((∃ f : Message → Message, (∀ m, (f m).frame = m.frame) ∧ s' = s.modifyMessage r f) ∨
        ∃ q name reason, s.queue name = some q ∧ q.dlxExchange ≠ [] ∧ s' = s.modifyMessage r (deathHeaders name reason)) := by
  have hheap : ∀ {s₁ s₂ : AmqpServer}, s₂.heap = s₁.heap → s₂.message r = s₁.message r := fun h => by
    rw [message, h, message]
  have hof_ne : ∀ (s : AmqpServer) {r' : Ref} (f : Message → Message), r ≠ r' → (s.modifyMessage r' f).message r = s.message r :=
    fun s r' f hne => congrArg Cell.msg (@Heap.cell_modify_of_ne _ s.heap r' r (fun x => { x with msg := f x.msg }) hne)
  have hnew : ∀ x : Cell, ((s.heap.alloc x).cell r).msg = s.message r := fun x =>
    congrArg Cell.msg (Heap.cell_alloc_of_ne (Nat.ne_of_lt hr))
  have hstore : ∀ (m : Message) (name : Bytes),
      ((s.newMessage m).storeMessage name s.heap.size).message r = s.message r := by
    intro m name
    refine Eq.trans ?_ (hnew { msg := m, origin := s.heap.size })
    rw [storeMessage]
    split
    · rfl
    · exact congrArg Cell.msg (if_neg (Nat.ne_of_lt hr))
  cases hm with
  | touch r' f hf =>
    by_cases heq : r = r'
    · rw [← heq]
      exact .inr ⟨rfl, .inl ⟨f, hf, rfl⟩⟩
    · exact .inl (hof_ne s f heq)
  | @mark _ q name reason r' hq hdlx =>
    by_cases heq : r = r'
    · rw [← heq]
      exact .inr ⟨rfl, .inr ⟨q, name, reason, hq, hdlx, rfl⟩⟩
    · exact .inl (hof_ne s _ heq)
  | handOver idx =>
    refine .inl ?_
    rw [handOver, onDeliver]
    split <;> (split <;> first | exact hheap rfl | exact hnew _)
  | purge name =>
    refine .inl (hheap ?_)
    rw [purge]
    split <;> rfl
  | create m => exact .inl (hnew _)
  | store m => exact .inl (hstore m _)
  | oversize m => exact .inl (hstore m _)
  | recover m name => exact .inl (hnew _)
  | releaseCredit u => exact .inl (hheap (heap_releaseCredit u))
  | settle u => exact .inl (hheap (heap_persistAck u))
  | removeConsumer name tag =>
    refine .inl (hheap ?_)
    rw [removeConsumer]
    split
    · rfl
    · split <;> rfl
  | removeConsumersByConnection name => exact .inl (hheap (heap_removeConsumersByConnection name c))
  | _ => exact .inl (hheap rfl)

/-! ### Sequences of moves -/

/-- Moves of the given kinds lead from one state to the other. --/
def Moves (c : Nat) (K : List Kind) : AmqpServer → AmqpServer → Prop :=
  Relation.ReflTransGen fun s s' => ∃ k ∈ K, Move c k s s'

variable {K K₁ K₂ : List Kind} {s₁ s₂ : AmqpServer}

namespace Moves

theorem refl : Moves c K s s := Relation.ReflTransGen.refl

theorem of {k : Kind} (h : Move c k s s₁) : Moves c [k] s s₁ := Relation.ReflTransGen.single ⟨k, List.mem_singleton_self k, h⟩

theorem mono (h : Moves c K₁ s s₁) (hK : ∀ k ∈ K₁, k ∈ K) : Moves c K s s₁ :=
  Relation.ReflTransGen.mono (fun _ _ ⟨k, hk, hm⟩ => ⟨k, hK k hk, hm⟩) _ _ h

theorem trans (h₁ : Moves c K₁ s s₁) (h₂ : Moves c K₂ s₁ s₂) : Moves c (K₁ ++ K₂) s s₂ :=
  Relation.ReflTransGen.trans (h₁.mono fun _ => List.mem_append_left _) (h₂.mono fun _ => List.mem_append_right _)

/-- The invariant rule. --/
theorem keeps {P : AmqpServer → Prop} (h : Moves c K s s₁) (hP : ∀ k ∈ K, ∀ s s', Move c k s s' → P s → P s')
    (hs : P s) : P s₁ := by
  induction h with
  | refl => exact hs
  | tail _ hm ih =>
    obtain ⟨k, hk, hm⟩ := hm
    exact hP k hk _ _ hm ih

theorem valid (h : Moves c K s s₁) (hs : Valid s) : Valid s₁ := h.keeps (fun _ _ _ _ hm hv => hv.move hm) hs

theorem heap_le (h : Moves c K s s₁) : s.heap.size ≤ s₁.heap.size :=
  h.keeps (P := fun s' => s.heap.size ≤ s'.heap.size) (fun _ _ _ _ hm hle => hle.trans (heap_le_of_move hm)) le_rfl

end Moves

/-- In a valid state, moves of the given kinds lead from one state to the other. --/
structure Does (c : Nat) (K : List Kind) (s s' : AmqpServer) : Prop where
  moves : Valid s → Moves c K s s'

namespace Does

theorem refl : Does c K s s := ⟨fun _ => .refl⟩

theorem of {k : Kind} (h : Move c k s s₁) : Does c [k] s s₁ := ⟨fun _ => .of h⟩

theorem mono (h : Does c K₁ s s₁) (hK : ∀ k ∈ K₁, k ∈ K) : Does c K s s₁ := ⟨fun hv => (h.moves hv).mono hK⟩

theorem trans (h₁ : Does c K₁ s s₁) (h₂ : Does c K₂ s₁ s₂) : Does c (K₁ ++ K₂) s s₂ :=
  ⟨fun hv => (h₁.moves hv).trans (h₂.moves ((h₁.moves hv).valid hv))⟩

/-- What the validity of the state gives may be used. --/
theorem ofValid (h : Valid s → Does c K s s₁) : Does c K s s₁ := ⟨fun hv => (h hv).moves hv⟩

/-- One after the other, where the second needs the objects of the first state. --/
theorem andThen_of_le (h₁ : Does c K s s₁) (h₂ : s.heap.size ≤ s₁.heap.size → Does c K s₁ s₂) : Does c K s s₂ :=
  ofValid fun hv => (h₁.trans (h₂ (h₁.moves hv).heap_le)).mono fun _ hk => (List.mem_append.mp hk).elim id id

/-- One after the other, with the same kinds. --/
theorem andThen (h₁ : Does c K s s₁) (h₂ : Does c K s₁ s₂) : Does c K s s₂ := h₁.andThen_of_le fun _ => h₂

theorem foldl_of {α : Type} {f : AmqpServer → α → AmqpServer} {l : List α} (hf : ∀ s, ∀ a ∈ l, Does c K s (f s a))
    (s : AmqpServer) : Does c K s (l.foldl f s) := by
  induction l generalizing s with
  | nil => exact refl
  | cons a l ih => exact (hf s a List.mem_cons_self).andThen (ih (fun s b hb => hf s b (List.mem_cons_of_mem _ hb)) _)

theorem foldl {α : Type} {f : AmqpServer → α → AmqpServer} (hf : ∀ s a, Does c K s (f s a)) (l : List α)
    (s : AmqpServer) : Does c K s (l.foldl f s) :=
  foldl_of (fun s a _ => hf s a) s

/-- A fold over message objects, each of them given by `ref`. --/
theorem foldl_refs {α : Type} {f : AmqpServer → α → AmqpServer} {ref : α → Ref}
    (hf : ∀ s a, ref a < s.heap.size → Does c K s (f s a)) (l : List α) (s : AmqpServer)
    (hl : ∀ a ∈ l, ref a < s.heap.size) : Does c K s (l.foldl f s) := by
  induction l generalizing s with
  | nil => exact refl
  | cons a l ih =>
    refine (hf s a (hl a List.mem_cons_self)).andThen_of_le fun hle => ih (f s a) fun b hb => ?_
    exact (hl b (List.mem_cons_of_mem _ hb)).trans_le hle

end Does

end AmqpServer
end Broko.Broker
