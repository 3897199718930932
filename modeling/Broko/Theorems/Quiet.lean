import Broko.Theorems.Registry
import Broko.Theorems.Requests
import Broko.Theorems.VHostSteps

/-! Events that ask for nothing about queues, consumers and channels: which consumer is where, and who has it, is the
    same before and after. -/

namespace Broko.Broker
open Amqp Storage MessageStore

namespace AmqpServer

/-- An open channel of a live connection has the consumer under the tag. --/
def Holds (s : AmqpServer) (c : Nat) (num : UInt16) (tag : Bytes) (k : Ref) : Prop :=
  ∃ conn ch, s.connection c = some conn ∧ conn.state ≠ .CLOSED ∧ conn.channels.lookup num = some ch ∧ ch.isOpen = true ∧
    ch.consumers.lookup tag = some k

/-- The consumers are the same, in the same places. --/
structure SameRegistry (s s' : AmqpServer) : Prop where
  queue : ∀ name, (s'.queue name).map MessageQueue.consumers = (s.queue name).map MessageQueue.consumers
  holds : ∀ c num tag k, s'.Holds c num tag k ↔ s.Holds c num tag k
  fixed : ∀ k, (s'.consumer k).fixed = (s.consumer k).fixed

variable {c : Nat} {num : UInt16} {s s' : AmqpServer}

namespace SameRegistry

variable {s₁ : AmqpServer}

theorem refl : SameRegistry s s := ⟨fun _ => rfl, fun _ _ _ _ => Iff.rfl, fun _ => rfl⟩

theorem trans (h₁ : SameRegistry s s₁) (h₂ : SameRegistry s₁ s') : SameRegistry s s' :=
  ⟨fun name => (h₂.queue name).trans (h₁.queue name), fun c num tag k => (h₂.holds c num tag k).trans (h₁.holds c num tag k),
    fun k => (h₂.fixed k).trans (h₁.fixed k)⟩

theorem holds_congr (h : s'.connections = s.connections) (c : Nat) (num : UInt16) (tag : Bytes) (k : Ref) :
    s'.Holds c num tag k ↔ s.Holds c num tag k := by
  simp only [Holds, connection, h]

theorem of_eq (hqueues : s'.queues = s.queues) (hconnections : s'.connections = s.connections)
    (hconsumers : s'.consumerHeap = s.consumerHeap) : SameRegistry s s' := by
  refine ⟨fun name => ?_, holds_congr hconnections, fun k => ?_⟩
  · rw [AmqpServer.queue, hqueues]
    rfl
  · rw [consumer, hconsumers]
    rfl

theorem modifyQueue (name : Bytes) {f : MessageQueue → MessageQueue} (hf : ∀ q, (f q).consumers = q.consumers) :
    SameRegistry s (s.modifyQueue name f) := by
  refine ⟨fun name' => ?_, fun _ _ _ _ => Iff.rfl, fun _ => rfl⟩
  rw [AmqpServer.queue, AmqpServer.modifyQueue, Assoc.lookup_modify]
  split
  · rename_i h
    rw [h, Option.map_map]
    exact congrArg (fun g => (s.queue name).map g) (funext hf)
  · rfl

theorem modifyConsumer (k : Ref) {f : Consumer → Consumer} (hf : ∀ x, (f x).fixed = x.fixed) :
    SameRegistry s (s.modifyConsumer k f) :=
  ⟨fun _ => rfl, fun _ _ _ _ => Iff.rfl, Heap.cell_modify_congr Consumer.fixed hf⟩

/-- The state of the connection and the consumers of its open channels stay. --/
theorem modifyConnection {f : Connection → Connection}
    (hstate : ∀ conn, s.connection c = some conn → ((f conn).state = .CLOSED ↔ conn.state = .CLOSED))
    (hchannels : ∀ conn num tag k, (∃ ch, (f conn).channels.lookup num = some ch ∧ ch.isOpen = true ∧
      ch.consumers.lookup tag = some k) ↔
      ∃ ch, conn.channels.lookup num = some ch ∧ ch.isOpen = true ∧ ch.consumers.lookup tag = some k) :
    SameRegistry s (s.modifyConnection c f) := by
  refine ⟨fun _ => rfl, fun c' num tag k => ?_, fun _ => rfl⟩
  by_cases hc : c' = c
  · subst hc
    have hconn : (s.modifyConnection c' f).connection c' = (s.connection c').map f := by
      rw [connection, AmqpServer.modifyConnection, Assoc.lookup_modify_self, connection]
    constructor
    · rintro ⟨_, ch, hconn', hopen, hch⟩
      rw [hconn, Option.map_eq_some_iff] at hconn'
      obtain ⟨conn, hsome, rfl⟩ := hconn'
      obtain ⟨ch', hch'⟩ := (hchannels conn num tag k).mp ⟨ch, hch⟩
      exact ⟨conn, ch', hsome, fun h => hopen ((hstate conn hsome).mpr h), hch'⟩
    · rintro ⟨conn, ch, hsome, hopen, hch⟩
      obtain ⟨ch', hch'⟩ := (hchannels conn num tag k).mpr ⟨ch, hch⟩
      exact ⟨f conn, ch', by rw [hconn, hsome]; rfl, fun h => hopen ((hstate conn hsome).mp h), hch'⟩
  · have hconn : (s.modifyConnection c f).connection c' = s.connection c' := Assoc.lookup_modify_of_ne hc
    simp only [Holds, hconn]

/-- Neither the state nor the channels of the connection change. --/
theorem connectionSame {f : Connection → Connection} (hstate : ∀ conn, (f conn).state = conn.state)
    (hchannels : ∀ conn, (f conn).channels = conn.channels) : SameRegistry s (s.modifyConnection c f) :=
  modifyConnection (fun conn _ => by rw [hstate]) fun conn num tag k => by rw [hchannels]

theorem modifyChannel (num : UInt16) {f : Channel → Channel} (hopen : ∀ ch, (f ch).isOpen = ch.isOpen)
    (hconsumers : ∀ ch tag, (f ch).consumers.lookup tag = ch.consumers.lookup tag) :
    SameRegistry s (s.modifyChannel c num f) := by
  refine modifyConnection (fun _ _ => Iff.rfl) fun conn num' tag k => ?_
  change (∃ ch, (conn.channels.modify num f).lookup num' = some ch ∧ _) ↔ _
  rw [Assoc.lookup_modify]
  split
  · rename_i h
    subst h
    constructor
    · rintro ⟨_, hch, hok, hk⟩
      obtain ⟨ch, hsome, rfl⟩ := Option.map_eq_some_iff.mp hch
      exact ⟨ch, hsome, (hopen ch).symm.trans hok, (hconsumers ch tag).symm.trans hk⟩
    · rintro ⟨ch, hsome, hok, hk⟩
      exact ⟨f ch, by rw [hsome]; rfl, (hopen ch).trans hok, (hconsumers ch tag).trans hk⟩
  · exact Iff.rfl

/-- Only the modes, the limits or the messages of the channel change. --/
theorem channelSame (num : UInt16) {f : Channel → Channel} (hopen : ∀ ch, (f ch).isOpen = ch.isOpen)
    (hconsumers : ∀ ch, (f ch).consumers = ch.consumers) : SameRegistry s (s.modifyChannel c num f) :=
  modifyChannel num hopen fun ch tag => by rw [hconsumers]

theorem of_skeleton (h : s'.skeleton = s.skeleton) : SameRegistry s s' := by
  have hframe : ∀ c, (s'.connection c).map Connection.frame = (s.connection c).map Connection.frame := fun c => by
    rw [← connection_skeleton, h, connection_skeleton]
  have hholds : ∀ (s : AmqpServer) c num tag k, s.Holds c num tag k ↔ ∃ conn ch, (s.connection c).map Connection.frame =
      some conn ∧ conn.state ≠ .CLOSED ∧ conn.channels.lookup num = some ch ∧ ch.isOpen = true ∧
        ch.consumers.lookup tag = some k := by
    intro s c num tag k
    constructor
    · rintro ⟨conn, ch, hconn, hrest⟩
      exact ⟨conn.frame, ch, by rw [hconn]; rfl, hrest⟩
    · rintro ⟨_, ch, hconn, hrest⟩
      obtain ⟨conn, hsome, rfl⟩ := Option.map_eq_some_iff.mp hconn
      exact ⟨conn, ch, hsome, hrest⟩
  refine ⟨fun name => ?_, fun c num tag k => by rw [hholds, hholds, hframe], fun k => ?_⟩
  · have hqueue := congrArg (Option.map MessageQueue.consumers) (queue_skeleton (s := s') name)
    rw [h, queue_skeleton, Option.map_map, Option.map_map] at hqueue
    exact hqueue.symm
  · have hcell : (s'.skeleton.consumerHeap.cell k).fixed = (s.skeleton.consumerHeap.cell k).fixed := by rw [h]
    exact hcell

/-! ### Moves -/

theorem releaseCredit (u : UnackedMessage) : SameRegistry s (s.releaseCredit u) := of_skeleton (skeleton_releaseCredit u)

theorem persistAck (u : UnackedMessage) : SameRegistry s (s.persistAck u) := by
  have hsettled : SameRegistry s ((s.releaseCredit u).record [.settled (s.origin u.message) u.queue_name]) := by
    refine (releaseCredit u).trans ?_
    exact of_eq rfl rfl rfl
  rw [AmqpServer.persistAck]
  split
  · exact hsettled
  · split
    · refine hsettled.trans ?_
      exact of_eq rfl rfl rfl
    · exact hsettled

theorem storeMessage (name : Bytes) (r : Ref) : SameRegistry s (s.storeMessage name r) := by
  rw [AmqpServer.storeMessage]
  split
  · exact refl
  · exact of_eq rfl rfl rfl

theorem newMessage (m : Message) : SameRegistry s (s.newMessage m) := of_eq rfl rfl rfl

theorem accept (hv : Valid s) : SameRegistry s s.accept := by
  refine ⟨fun _ => rfl, fun c num tag k => ?_, fun _ => rfl⟩
  by_cases hc : c = s.nextConnectionId
  · constructor
    · rintro ⟨conn, ch, hconn, -, hch, -⟩
      rw [connection, AmqpServer.accept, hc, Assoc.lookup_insert_self] at hconn
      obtain rfl := Option.some.inj hconn
      cases hch
    · rintro ⟨conn, ch, hconn, -⟩
      exact absurd (hv.connections c conn hconn).1 (hc ▸ Nat.lt_irrefl _)
  · have hconn : s.accept.connection c = s.connection c := Assoc.lookup_insert_of_ne hc
    simp only [Holds, hconn]

end SameRegistry

/-- What is done for events that are about neither queues nor consumers nor channels. --/
def quietKinds : List Kind :=
  [.queue, .enqueue, .requeue, .take, .create, .store, .oversize, .output, .confirm, .deliver, .pending, .handshake, .hold,
    .release, .settle, .remove, .task, .server]

theorem SameRegistry.move {k : Kind} (hv : Valid s) (hk : k ∈ quietKinds) (hm : Move c k s s') : SameRegistry s s' := by
  cases hm with
  | clock => exact .of_eq rfl rfl rfl
  | touch r f hf => exact .of_eq rfl rfl rfl
  | mark reason r hq hdlx => exact .of_eq rfl rfl rfl
  | letter r hr hq hdlx hroute hq' => exact .modifyQueue _ fun _ => rfl
  | expire hq hm => exact .of_skeleton ((skeleton_record _).trans (skeleton_modifyQueue fun _ => rfl))
  | rotate name idx => exact .modifyQueue name fun _ => rfl
  | handOver idx hq hm hk he => exact .of_skeleton (skeleton_handOver ..)
  | enqueue r hr hq => exact .modifyQueue _ fun _ => rfl
  | requeue name r hr => exact .modifyQueue name fun _ => rfl
  | take name => exact .modifyQueue name fun _ => rfl
  | create m hw hid => exact .newMessage m
  | store m hw hid hq hd hp hfit => exact (SameRegistry.newMessage m).trans (.storeMessage _ _)
  | oversize m hw hid hq hd hp hfit => exact (SameRegistry.newMessage m).trans (.storeMessage _ _)
  | send out => exact .of_skeleton (skeleton_send c out)
  | note num f hf =>
    have hframe : ∀ ch, (f ch).isOpen = ch.isOpen ∧ (f ch).consumers = ch.consumers := by
      intro ch
      have heq := hf ch
      simp only [Channel.frame, Channel.mk.injEq] at heq
      exact ⟨heq.2.2.1, heq.2.2.2.2.2.2.2.2.1⟩
    exact .channelSame num (fun ch => (hframe ch).1) fun ch => (hframe ch).2
  | pending num p hp => exact .channelSame num (fun _ => rfl) fun _ => rfl
  | handshake f hf hclosed =>
    refine .modifyConnection (fun conn hconn => ⟨(hf conn).live, hclosed conn hconn⟩) fun conn num tag k => ?_
    rw [(hf conn).channels]
  | hold num u hu hk =>
    have hheld : SameRegistry s (s.hold c num u) := .channelSame num (fun _ => rfl) fun _ => rfl
    exact hheld.trans (.channelSame num (fun _ => rfl) fun _ => rfl)
  | takeTag num => exact .channelSame num (fun _ => rfl) fun _ => rfl
  | releaseCredit u => exact .releaseCredit u
  | eraseUnacked num tag => exact .channelSame num (fun _ => rfl) fun _ => rfl
  | clearUnacked num => exact .channelSame num (fun _ => rfl) fun _ => rfl
  | settle u hu => exact .persistAck u
  | remove r name hr => exact .of_eq rfl rfl rfl
  | popTask hc hs => exact .connectionSame (fun _ => rfl) fun _ => rfl
  | accept => exact .accept hv
  | compact => exact .of_eq rfl rfl rfl
  | reorderQueues order =>
    refine ⟨fun name => ?_, fun _ _ _ _ => Iff.rfl, fun _ => rfl⟩
    rw [AmqpServer.queue, Assoc.lookup_reorder]
    rfl
  | reorderExchanges order => exact .of_eq rfl rfl rfl
  | reorderChannels order =>
    refine .modifyConnection (fun _ _ => Iff.rfl) fun conn num tag k => ?_
    change (∃ ch, (conn.channels.reorder order).lookup num = some ch ∧ _) ↔ _
    rw [Assoc.lookup_reorder]
  | reorderConsumers num order => exact .modifyChannel num (fun _ => rfl) fun ch tag => Assoc.lookup_reorder ..
  | reorderUnacked num order => exact .channelSame num (fun _ => rfl) fun _ => rfl
  | _ => exact absurd hk (by decide)

theorem SameRegistry.does {K : List Kind} (hv : Valid s) (h : Does c K s s') (hK : ∀ k ∈ K, k ∈ quietKinds) :
    SameRegistry s s' := by
  have hboth : SameRegistry s s' ∧ Valid s' := by
    refine (h.moves hv).keeps (P := fun s' => SameRegistry s s' ∧ Valid s') ?_ ⟨.refl, hv⟩
    intro k hk s₁ s₂ hm ⟨hs, hv₁⟩
    exact ⟨hs.trans (.move hv₁ (hK k hk) hm), hv₁.move hm⟩
  exact hboth.1

/-! ### Methods that cannot be read -/

theorem handleQueueDeclare_of_error {buf : Buffer} (h : ∀ r, Method.readQueueDeclare buf ≠ .ok r) :
    s.handleQueueDeclare c num buf = .error s := by
  rw [handleQueueDeclare, withArgs]
  split
  · rfl
  · rename_i hread
    obtain ⟨_, b₁, h₁, hread⟩ := Reader.bind_eq_ok.mp hread
    obtain ⟨queue, b₂, h₂, hread⟩ := Reader.bind_eq_ok.mp hread
    obtain ⟨bits, b₃, h₃, hread⟩ := Reader.bind_eq_ok.mp hread
    obtain ⟨args, b₄, h₄, hread⟩ := Reader.bind_eq_ok.mp hread
    refine absurd ?_ (h (.queueDeclare queue bits args, b₄))
    rw [Method.readQueueDeclare, Reader.bind_eq_of_ok h₁, Reader.bind_eq_of_ok h₂, Reader.bind_eq_of_ok h₃,
      Reader.bind_eq_of_ok h₄]
    rfl

theorem handleQueueBind_of_error {buf : Buffer} (h : ∀ r, Method.readQueueBind buf ≠ .ok r) :
    s.handleQueueBind c num buf = .error s := by
  rw [handleQueueBind, withArgs]
  split
  · rfl
  · rename_i hread
    obtain ⟨⟨queue, exchange, routingKey⟩, b₁, h₁, hread⟩ := Reader.bind_eq_ok.mp hread
    obtain ⟨bits, b₂, h₂, hread⟩ := Reader.bind_eq_ok.mp hread
    obtain ⟨args, b₃, h₃, hread⟩ := Reader.bind_eq_ok.mp hread
    refine absurd ?_ (h (.queueBind queue exchange routingKey bits args, b₃))
    rw [Method.readQueueBind, Reader.bind_eq_of_ok h₁]
    dsimp only
    rw [Reader.bind_eq_of_ok h₂, Reader.bind_eq_of_ok h₃]
    rfl

theorem handleQueueUnbind_of_error {buf : Buffer} (h : ∀ r, Method.readQueueUnbind buf ≠ .ok r) :
    s.handleQueueUnbind c num buf = .error s := by
  rw [handleQueueUnbind, withArgs]
  split
  · rfl
  · rename_i hread
    obtain ⟨⟨queue, exchange, routingKey⟩, b₁, h₁, hread⟩ := Reader.bind_eq_ok.mp hread
    obtain ⟨args, b₂, h₂, hread⟩ := Reader.bind_eq_ok.mp hread
    refine absurd ?_ (h (.queueUnbind queue exchange routingKey, b₂))
    rw [Method.readQueueUnbind, Reader.bind_eq_of_ok h₁]
    dsimp only
    rw [Reader.bind_eq_of_ok h₂]
    rfl

theorem readQueueArgs_of_error {method : Bytes → UInt8 → Method} {buf : Buffer} {k : Bytes × UInt8 → AmqpServer}
    (h : ∀ r, Method.readOnQueue method buf ≠ .ok r) : withArgs readQueueArgs buf s k = .error s := by
  rw [withArgs]
  split
  · rfl
  · rename_i args b hread
    refine absurd ?_ (h (method args.1 args.2, b))
    rw [Method.readOnQueue, Reader.bind_eq_of_ok hread]
    rfl

theorem handleBasicConsume_of_error {buf : Buffer} (h : ∀ r, Method.readBasicConsume buf ≠ .ok r) :
    s.handleBasicConsume c num buf = .error s := by
  rw [handleBasicConsume, withArgs]
  split
  · rfl
  · rename_i hread
    obtain ⟨_, b₁, h₁, hread⟩ := Reader.bind_eq_ok.mp hread
    obtain ⟨queue, b₂, h₂, hread⟩ := Reader.bind_eq_ok.mp hread
    obtain ⟨tag, b₃, h₃, hread⟩ := Reader.bind_eq_ok.mp hread
    obtain ⟨bits, b₄, h₄, hread⟩ := Reader.bind_eq_ok.mp hread
    obtain ⟨_, b₅, h₅, hread⟩ := Reader.bind_eq_ok.mp hread
    refine absurd ?_ (h (.basicConsume queue tag bits, b₅))
    rw [Method.readBasicConsume, Reader.bind_eq_of_ok h₁, Reader.bind_eq_of_ok h₂, Reader.bind_eq_of_ok h₃,
      Reader.bind_eq_of_ok h₄, Reader.bind_eq_of_ok h₅]
    rfl

theorem handleBasicCancel_of_error {buf : Buffer} (h : ∀ r, Method.readBasicCancel buf ≠ .ok r) :
    s.handleBasicCancel c num buf = .error s := by
  rw [handleBasicCancel, withArgs]
  split
  · rfl
  · rename_i hread
    obtain ⟨tag, b₁, h₁, hread⟩ := Reader.bind_eq_ok.mp hread
    obtain ⟨bits, b₂, h₂, hread⟩ := Reader.bind_eq_ok.mp hread
    refine absurd ?_ (h (.basicCancel tag bits, b₂))
    rw [Method.readBasicCancel, Reader.bind_eq_of_ok h₁, Reader.bind_eq_of_ok h₂]
    rfl

theorem ne_ok_of_decode {classId methodId : UInt16} {buf : Buffer} {read : Read Method}
    (h : Method.decode classId methodId buf = none) (hreader : Method.reader classId methodId = some read) (r : Method × Buffer) :
    read buf ≠ .ok r := by
  intro hread
  unfold Method.decode at h
  rw [hreader] at h
  dsimp only at h
  rw [hread] at h
  cases h

/-! ### Other events -/

theorem sameRegistry_reply {classId methodId okId : UInt16} {noWait : Bool} {answer : Except Refusal AmqpServer}
    (h : ∀ s₁, answer = .ok s₁ → SameRegistry s s₁) : SameRegistry s (s.reply c num classId methodId okId noWait answer) := by
  cases answer with
  | error e => exact .of_skeleton (skeleton_sendChannelClose ..)
  | ok s₁ =>
    unfold reply
    dsimp only
    split
    · exact h s₁ rfl
    · exact (h s₁ rfl).trans (.of_skeleton (skeleton_sendMethodFrame ..))

theorem sameRegistry_declareExchange {s₁ : AmqpServer} {name type : Bytes} {passive durable autoDelete internal : Bool}
    {args : FieldTable} (h : s.declareExchange name type passive durable autoDelete internal args = .ok s₁) :
    SameRegistry s s₁ := by
  rw [declareExchange] at h
  split at h
  · split at h
    · obtain rfl := Except.ok.inj h
      exact .refl
    · split at h
      · cases h
      · obtain rfl := Except.ok.inj h
        exact .refl
  · split at h
    · cases h
    · obtain rfl := Except.ok.inj h
      split <;> exact .of_eq rfl rfl rfl

theorem sameRegistry_deleteExchange {s₁ : AmqpServer} {name : Bytes} (h : s.deleteExchange name = .ok s₁) :
    SameRegistry s s₁ := by
  rw [deleteExchange] at h
  split at h
  · cases h
  · split at h
    · cases h
    · obtain rfl := Except.ok.inj h
      exact .of_eq rfl rfl rfl

theorem sameRegistry_bindQueue {s₁ : AmqpServer} {queue exchange routingKey : Bytes} {args : FieldTable}
    (h : s.bindQueue queue exchange routingKey args = .ok s₁) : SameRegistry s s₁ := by
  rw [bindQueue] at h
  split at h
  · cases h
  · cases h
  · obtain rfl := Except.ok.inj h
    exact .of_eq rfl rfl rfl

theorem sameRegistry_unbindQueue {s₁ : AmqpServer} {queue exchange routingKey : Bytes}
    (h : s.unbindQueue queue exchange routingKey = .ok s₁) : SameRegistry s s₁ := by
  rw [unbindQueue] at h
  split at h
  · cases h
  · obtain rfl := Except.ok.inj h
    exact .of_eq rfl rfl rfl

/-- The methods of a channel that are about neither queues nor consumers, and those that cannot be read. --/
theorem sameRegistry_handleMethod (hv : Valid s) {classId methodId : UInt16} {buf : Buffer}
    (h : Method.decode classId methodId buf = none) : SameRegistry s (outcome (s.handleMethod c num classId methodId buf)) := by
  have hno : SameRegistry s (outcome (.ok (s.notImplemented c num classId methodId))) :=
    .of_skeleton (skeleton_sendChannelClose ..)
  have herror : ∀ {o : Outcome}, o = .error s → SameRegistry s (outcome o) := fun ho => ho ▸ .refl
  unfold handleMethod
  refine outcome_ite_of (fun hclass => ?exchange) fun _ => outcome_ite_of (fun hclass => ?queue) fun _ =>
    outcome_ite_of (fun hclass => ?basic) fun _ => outcome_ite ?confirm (outcome_ite ?tx hno)
  case exchange =>
    refine outcome_ite ?_ (outcome_ite ?_ hno)
    · exact outcome_withArgs .refl fun args => sameRegistry_reply fun s₁ => sameRegistry_declareExchange
    · exact outcome_withArgs .refl fun args => sameRegistry_reply fun s₁ => sameRegistry_deleteExchange
  case queue =>
    subst hclass
    refine outcome_ite_of (fun hid => ?_) fun _ => outcome_ite_of (fun hid => ?_) fun _ => outcome_ite_of (fun hid => ?_)
      fun _ => outcome_ite_of (fun hid => ?_) fun _ => outcome_ite_of (fun hid => ?_) fun _ => hno
    all_goals subst hid
    · exact herror (handleQueueDeclare_of_error (ne_ok_of_decode h rfl))
    · exact herror (handleQueueBind_of_error (ne_ok_of_decode h rfl))
    · exact herror (handleQueueUnbind_of_error (ne_ok_of_decode h rfl))
    · exact herror (readQueueArgs_of_error (ne_ok_of_decode h rfl))
    · exact herror (readQueueArgs_of_error (ne_ok_of_decode h rfl))
  case basic =>
    subst hclass
    refine outcome_ite ?qos (outcome_ite_of (fun hid => ?consume) fun _ => outcome_ite_of (fun hid => ?cancel) fun _ =>
      outcome_ite ?publish (outcome_ite_of (fun hid => ?get) fun _ => outcome_ite ?ack (outcome_ite ?reject
        (outcome_ite ?recover (outcome_ite ?recoverAsync (outcome_ite ?nack hno))))))
    case qos => exact .does hv (does_handleBasicQos buf) (by decide)
    case consume =>
      subst hid
      exact herror (handleBasicConsume_of_error (ne_ok_of_decode h rfl))
    case cancel =>
      subst hid
      exact herror (handleBasicCancel_of_error (ne_ok_of_decode h rfl))
    case publish => exact .does hv (does_handleBasicPublish buf) (by decide)
    case get =>
      subst hid
      exact herror (readQueueArgs_of_error (ne_ok_of_decode h rfl))
    case ack => exact .does hv (does_handleBasicAck buf) (by decide)
    case reject => exact .does hv (does_handleBasicReject buf) (by decide)
    case recover => exact .does hv (does_handleBasicRecover buf) (by decide)
    case recoverAsync => exact .does hv (does_handleBasicRecover buf) (by decide)
    case nack => exact .does hv (does_handleBasicNack buf) (by decide)
  case confirm => exact outcome_ite (.does hv (does_handleConfirmSelect buf) (by decide)) hno
  case tx =>
    have htx : ∀ okId, SameRegistry s (outcome (s.handleTx c num okId)) := fun _ => .of_skeleton (skeleton_sendMethodFrame ..)
    exact outcome_ite (htx _) (outcome_ite (htx _) (outcome_ite (htx _) hno))

theorem sameRegistry_sendConnectionClose (hv : Valid s) (replyCode : UInt16) (replyText : Bytes) (classId methodId : UInt16) :
    SameRegistry s (s.sendConnectionClose c replyCode replyText classId methodId) :=
  .does hv (does_sendConnectionClose ..) (by decide)

theorem sameRegistry_connectionMethod (hv : Valid s) {methodId : UInt16} {buf : Buffer}
    (hclose : methodId = connection_method.CLOSE → ∀ r, readClose buf ≠ .ok r) (hok : methodId ≠ connection_method.CLOSE_OK) :
    SameRegistry s (outcome (s.handleConnectionMethod c methodId buf)) := by
  unfold handleConnectionMethod
  refine outcome_ite ?start (outcome_ite ?tune (outcome_ite ?opened (outcome_ite_of (fun hid => ?close) fun _ =>
    outcome_ite_of (fun hid => absurd hid hok) fun _ => ?other)))
  case start => exact .does hv (does_handleStartOk buf) (by decide)
  case tune => exact .does hv (does_handleTuneOk buf) (by decide)
  case opened => exact .does hv (does_handleConnectionOpen buf) (by decide)
  case close =>
    unfold handleConnectionClose withArgs
    split
    · exact .refl
    · rename_i hread
      exact absurd hread (hclose hid _)
  case other => exact sameRegistry_sendConnectionClose hv _ _ _ _

theorem sameRegistry_methodFrame (hv : Valid s) {conn : Connection} {buf : Buffer} (hconn : s.connection c = some conn)
    (h : s.methodRequest c num conn buf = .other) :
    SameRegistry s (outcome (if conn.state = .CLOSING then s.handleClosing c buf else s.handleMethodFrame c num buf)) := by
  unfold methodRequest at h
  unfold handleClosing handleMethodFrame
  cases hids : readMethodIds buf with
  | error e =>
    dsimp only
    split <;> exact .refl
  | ok r =>
    obtain ⟨⟨classId, methodId⟩, buf⟩ := r
    rw [hids] at h
    dsimp only at h ⊢
    split at h
    · rename_i hclosing
      rw [if_pos hclosing]
      split at h
      · cases h
      · rename_i hok
        rw [if_neg hok]
        exact .refl
    · rename_i hclosing
      rw [if_neg hclosing]
      split at h
      · rename_i hclass
        rw [if_pos hclass]
        split at h
        · rename_i hnum
          rw [if_pos hnum]
          exact sameRegistry_sendConnectionClose hv _ _ _ _
        · rename_i hnum
          rw [if_neg hnum]
          split at h
          · rename_i hid
            refine sameRegistry_connectionMethod hv (fun _ r hread => ?_) (hid ▸ by decide)
            rw [hread] at h
            cases h
          · rename_i hid
            split at h
            · cases h
            · rename_i hok
              exact sameRegistry_connectionMethod hv (fun hclose => absurd hclose hid) hok
      · rename_i hclass
        rw [if_neg hclass]
        split at h
        · rename_i hopen
          rw [if_pos hopen, handleChannelOpen, withArgs]
          split at h
          · rename_i hread
            rw [hread]
            exact .refl
          · rename_i hread
            rw [hread, hconn]
            dsimp only
            split at h
            · rename_i hnum
              rw [if_pos hnum]
              exact sameRegistry_sendConnectionClose hv _ _ _ _
            · cases h
        · rename_i hopen
          rw [if_neg hopen]
          split at h
          · rename_i hclose
            rw [if_pos hclose, handleChannelClose, withArgs]
            split at h
            · rename_i hread
              rw [hread]
              exact .refl
            · cases h
          · rename_i hclose
            rw [if_neg hclose]
            split at h
            · cases h
            · rename_i hok
              rw [if_neg hok]
              split at h
              · rename_i hflow
                rw [if_pos hflow]
                exact .does hv (does_handleChannelFlow buf) (by decide)
              · rename_i hflow
                rw [if_neg hflow, handleOnChannel]
                cases hch : s.openChannelAt c num with
                | none => exact sameRegistry_sendConnectionClose hv _ _ _ _
                | some ch =>
                  rw [hch] at h
                  dsimp only at h
                  split at h
                  · rename_i hdecode
                    exact sameRegistry_handleMethod hv hdecode
                  · cases h

theorem sameRegistry_handleFrame (hv : Valid s) {conn : Connection} {frame : Frame} (hconn : s.connection c = some conn)
    (h : frame.type = FRAME_METHOD → s.methodRequest c frame.channel conn (Buffer.ofBytes frame.payload) = .other) :
    SameRegistry s (outcome (s.handleFrame c frame)) := by
  by_cases hmethod : frame.type = FRAME_METHOD
  · have hframe : s.handleFrame c frame = if conn.state = .CLOSING then s.handleClosing c (Buffer.ofBytes frame.payload)
        else s.handleMethodFrame c frame.channel (Buffer.ofBytes frame.payload) := by
      rw [handleFrame, hconn, if_pos hmethod]
      simp [hmethod]
    rw [hframe]
    exact sameRegistry_methodFrame hv hconn (h hmethod)
  · unfold handleFrame
    refine outcome_ite_of (fun hclosing => absurd hclosing.2 hmethod) fun _ => outcome_ite_of (absurd · hmethod) fun _ =>
      outcome_ite ?header (outcome_ite ?body (outcome_ite .refl ?unknown))
    case header =>
      split
      · exact .refl
      · exact .does hv (does_handleContentHeader (K := .oversize :: contentKinds) (by decide) (.inl List.mem_cons_self)) (by decide)
    case body =>
      split
      · exact .refl
      · exact .does hv (does_handleContentBody (K := .oversize :: contentKinds) (by decide) (.inl List.mem_cons_self)) (by decide)
    case unknown => exact sameRegistry_sendConnectionClose hv _ _ _ _

/-- An event that asks for nothing of the kind. --/
theorem sameRegistry_other (hv : Valid s) {e : Event} (h : s.request e = .other) : SameRegistry s (s.handle e) := by
  have hstop : ∀ s₁ : AmqpServer, Valid s₁ → ∀ c text, SameRegistry s₁ (s₁.stopReading c text) :=
    fun s₁ hv₁ c text => .does hv₁ (does_stopReading text) (by decide)
  cases e with
  | accept => exact .accept hv
  | protocolHeader c header =>
    rw [request] at h
    rw [handle]
    cases hconn : s.connection c with
    | none => exact .refl
    | some conn =>
      rw [hconn] at h
      dsimp only at h ⊢
      split
      · rename_i hread
        split at h
        · cases h
        · rename_i hheader
          have hgood : header = PROTOCOL_HEADER := by
            by_contra hne
            exact hheader ⟨hread.1, hread.2, hne⟩
          rw [receiveProtocolHeader, if_pos hgood]
          exact .does hv ((does_awaitStartOk hconn hread.2).trans (does_sendMethodFrame _ _ _ rfl)) (by decide)
      · exact .refl
  | frame c frame frameEnd =>
    rw [request] at h
    rw [handle]
    cases hconn : s.connection c with
    | none => exact .refl
    | some conn =>
      rw [hconn] at h
      dsimp only at h ⊢
      split
      · rename_i hread
        rw [receiveFrame]
        change SameRegistry s (if effectiveMax conn < frame.payload.length then _ else _)
        split
        · exact hstop s hv c _
        · rename_i hsize
          split
          · exact hstop s hv c _
          · rename_i hend
            have hsame : SameRegistry s (outcome (s.handleFrame c frame)) := by
              refine sameRegistry_handleFrame hv hconn fun hmethod => ?_
              rwa [if_pos ⟨hread.1, hread.2, Nat.le_of_not_lt hsize, not_not.mp hend, hmethod⟩] at h
            have hvalid : Valid (outcome (s.handleFrame c frame)) :=
              ((does_handleFrame (K := .oversize :: requestKinds) (fun _ => List.mem_cons_of_mem _)
                (.inl List.mem_cons_self)).moves hv).valid hv
            split
            · rename_i hok
              rw [hok] at hsame
              exact hsame
            · rename_i herror
              rw [herror] at hsame hvalid
              exact hsame.trans (hstop _ hvalid c _)
      · exact .refl
  | runTask c => exact .does hv does_runTask (by decide)
  | disconnect c => cases h
  | tick => exact .of_skeleton skeleton_tick
  | compact => exact .of_eq rfl rfl rfl
  | restart => cases h
  | reorderQueues order => exact .move (c := 0) hv (by decide) (.reorderQueues order)
  | reorderExchanges order => exact .of_eq rfl rfl rfl
  | reorderChannels c order => exact .move (c := c) hv (by decide) (.reorderChannels order)
  | reorderConsumers c num order => exact .move (c := c) hv (by decide) (.reorderConsumers num order)
  | reorderUnacked c num order => exact .move (c := c) hv (by decide) (.reorderUnacked num order)

end AmqpServer
end Broko.Broker
