import Mathlib.Data.Nat.Digits.Defs
import Broko.Theorems.Compaction
import Broko.Theorems.PublishSteps

/-! The moves that each handler makes, handler by handler as in the source. -/

namespace Broko.Broker
open Amqp Storage MessageStore

namespace AmqpServer

variable {c : Nat} {num : UInt16} {K : List Kind} {s s₁ : AmqpServer}

/-! ### Requests to the virtual host -/

/-- The kinds of a request that changes exchanges, queues and bindings. --/
def topologyKinds : List Kind := [.topology, .output]

/-- An entry that only holds names fits. --/
theorem fits_of_length {e : Entry} (h : e.payload.length ≤ 4096) : e.Fits := by
  rw [Entry.Fits, MAX_ENTRY_SIZE]
  omega

/-- What the store notes of a declaration, a deletion or a binding. --/
theorem does_log {e : Entry} (hm : e.message? = none) (ha : ∀ m, e.acks m = false) (hlen : e.payload.length ≤ 4096) :
    Does c [.topology] s (s.modifyStore fun st => st.append e) :=
  .of (.log e hm ha (fits_of_length hlen))

theorem does_reply {classId methodId okId : UInt16} {noWait : Bool} {answer : Except Refusal AmqpServer}
    (hok : methodKind classId okId = .output) (ha : ∀ s', answer = .ok s' → Does c [.topology] s s') :
    Does c topologyKinds s (s.reply c num classId methodId okId noWait answer) := by
  unfold reply
  split
  · exact (does_sendChannelClose ..).mono (by decide)
  · split
    · exact (ha _ rfl).mono (by decide)
    · refine ((ha _ rfl).trans (does_sendMethodFrame _ _ _ rfl)).mono ?_
      rw [hok]
      decide

theorem does_declareExchange {name type : Bytes} {passive durable autoDelete internal : Bool} {args : FieldTable}
    (hname : name.length ≤ 255) (htype : type.length ≤ 255)
    (ha : s.declareExchange name type passive durable autoDelete internal args = .ok s₁) :
    Does c [.topology] s s₁ := by
  rw [declareExchange] at ha
  split at ha
  · split at ha
    · cases ha
      exact .refl
    · split at ha
      · cases ha
      · cases ha
        exact .refl
  · split at ha
    · cases ha
    · cases ha
      have hdone : ∀ s₁ : AmqpServer, Does c [.topology] s₁
          (if durable then s₁.modifyStore fun st => st.storeExchangeDeclare name type durable autoDelete internal else s₁) := by
        intro s₁
        split
        · refine does_log rfl (fun _ => rfl) ?_
          simp only [Entry.payload, List.length_append, length_writeString, length_writeFlag]
          omega
        · exact .refl
      exact (Does.of (.exchanges _)).andThen (hdone _)

theorem does_deleteExchange {name : Bytes} (hname : name.length ≤ 255) (ha : s.deleteExchange name = .ok s₁) :
    Does c [.topology] s s₁ := by
  rw [deleteExchange] at ha
  split at ha
  · cases ha
  · split at ha
    · cases ha
    · cases ha
      refine (Does.of (.exchanges _)).andThen (does_log rfl (fun _ => rfl) ?_)
      rw [Entry.payload, length_writeString]
      omega

theorem length_bindingPayload {queue exchange routingKey : Bytes} (hq : queue.length ≤ 255) (he : exchange.length ≤ 255)
    (hrk : routingKey.length ≤ 255) :
    (writeString queue ++ (writeString exchange ++ writeString routingKey)).length ≤ 4096 := by
  simp only [List.length_append, length_writeString]
  omega

theorem does_bindQueue {queue exchange routingKey : Bytes} {args : FieldTable} (hq : queue.length ≤ 255)
    (he : exchange.length ≤ 255) (hrk : routingKey.length ≤ 255)
    (ha : s.bindQueue queue exchange routingKey args = .ok s₁) : Does c [.topology] s s₁ := by
  rw [bindQueue] at ha
  split at ha
  · cases ha
  · cases ha
  · cases ha
    exact (Does.of (.exchanges _)).andThen (does_log rfl (fun _ => rfl) (length_bindingPayload hq he hrk))

theorem does_unbindQueue {queue exchange routingKey : Bytes} (hq : queue.length ≤ 255) (he : exchange.length ≤ 255)
    (hrk : routingKey.length ≤ 255) (ha : s.unbindQueue queue exchange routingKey = .ok s₁) :
    Does c [.topology] s s₁ := by
  rw [unbindQueue] at ha
  split at ha
  · cases ha
  · cases ha
    exact (Does.of (.exchanges _)).andThen (does_log rfl (fun _ => rfl) (length_bindingPayload hq he hrk))

/-- A generated name is short. --/
theorem length_generated (n : UInt64) : (ascii "amq.gen-" ++ decimal n.toNat).length ≤ 255 := by
  have hlt : n.toNat < 10 ^ 20 := n.toNat_lt.trans (by decide)
  have hrepr : (Nat.repr n.toNat).length ≤ 20 := Nat.repr_length _ _ (by decide) hlt
  have hdec : (decimal n.toNat).length ≤ 20 := by
    rw [decimal, ascii, List.length_map]
    exact hrepr
  rw [List.length_append, show (ascii "amq.gen-").length = 8 from rfl]
  omega

theorem does_declareQueue {name : Bytes} (hname : name.length ≤ 255) (passive durable exclusive autoDelete : Bool)
    (args : FieldTable) :
    Does c [.topology] s (s.declareQueue name passive durable exclusive autoDelete args c).2 := by
  have hs : Does c [.topology] s (if name = [] then { s with nameCounter := s.nameCounter + 1 } else s) := by
    split
    · exact .of (.nameCounter _)
    · exact .refl
  rw [declareQueue]
  generalize (if name = [] then { s with nameCounter := s.nameCounter + 1 } else s) = s₁ at hs
  have hlen : (if name = [] then ascii "amq.gen-" ++ decimal s₁.nameCounter.toNat else name).length ≤ 255 := by
    split
    · exact length_generated _
    · exact hname
  generalize (if name = [] then ascii "amq.gen-" ++ decimal s₁.nameCounter.toNat else name) = qname at hlen
  split
  · split
    · exact hs
    · split <;> exact hs
  · rename_i hnew
    split
    · exact hs
    · have hlog : ∀ s₂ : AmqpServer, Does c [.topology] s₂
          (if durable then s₂.modifyStore fun st => st.storeQueueDeclare qname durable autoDelete else s₂) := by
        intro s₂
        split
        · refine does_log rfl (fun _ => rfl) ?_
          simp only [Entry.payload, List.length_append, length_writeString, length_writeFlag]
          omega
        · exact .refl
      refine hs.andThen (((Does.of (.insertQueue hlen hnew rfl rfl rfl ?_)).andThen (.of (.exchanges _))).andThen (hlog _))
      intro (h : exclusive = true)
      exact if_pos h

theorem does_deleteQueue {name : Bytes} {ifUnused ifEmpty : Bool} {n : Nat} (hname : name.length ≤ 255)
    (ha : s.deleteQueue name ifUnused ifEmpty = .ok (n, s₁)) : Does c [.topology] s s₁ := by
  rw [deleteQueue] at ha
  split at ha
  · cases ha
  · split at ha
    · cases ha
    · split at ha
      · cases ha
      · cases ha
        refine ((Does.of (.exchanges _)).andThen (.of (.eraseQueue name))).andThen (does_log rfl (fun _ => rfl) ?_)
        rw [Entry.payload, length_writeString]
        omega

/-! The arguments of the methods: names come from short strings. -/

theorem yields_shortString : Reader.Yields readShortString fun str => str.length ≤ 255 :=
  .of_accepts accepts_shortString fun _ _ h => h.1

theorem yields_bindArgs : Reader.Yields readBindArgs fun args =>
    args.1.length ≤ 255 ∧ args.2.1.length ≤ 255 ∧ args.2.2.length ≤ 255 :=
  .bind (.any _) fun _ _ => .bind yields_shortString fun _ hq => .bind yields_shortString fun _ he =>
    .bind yields_shortString fun _ hrk => .pure ⟨hq, he, hrk⟩

theorem yields_queueArgs : Reader.Yields readQueueArgs fun args => args.1.length ≤ 255 :=
  .bind (.any _) fun _ _ => .bind yields_shortString fun _ hq => .bind (.any _) fun _ _ => .pure hq

theorem does_handleExchangeDeclare (buf : Buffer) :
    Does c topologyKinds s (outcome (s.handleExchangeDeclare c num buf)) := by
  refine outcome_withArgs_of (Q := fun args => args.1.length ≤ 255 ∧ args.2.1.length ≤ 255) ?_ .refl ?_
  · exact .bind (.any _) fun _ _ => .bind yields_shortString fun _ hname => .bind yields_shortString fun _ htype =>
      .bind (.any _) fun _ _ => .bind (.any _) fun _ _ => .pure ⟨hname, htype⟩
  · rintro ⟨exchange, type, bits, args⟩ ⟨hname, htype⟩
    refine does_reply rfl fun _ ha => does_declareExchange hname ?_ ha
    split
    · decide
    · exact htype

theorem does_handleExchangeDelete (buf : Buffer) :
    Does c topologyKinds s (outcome (s.handleExchangeDelete c num buf)) := by
  refine outcome_withArgs_of (Q := fun args => args.1.length ≤ 255) ?_ .refl ?_
  · exact .bind (.any _) fun _ _ => .bind yields_shortString fun _ hname => .bind (.any _) fun _ _ => .pure hname
  · exact fun args hname => does_reply rfl fun _ ha => does_deleteExchange hname ha

theorem does_handleQueueBind (buf : Buffer) : Does c topologyKinds s (outcome (s.handleQueueBind c num buf)) := by
  refine outcome_withArgs_of (Q := fun args => args.1.length ≤ 255 ∧ args.2.1.length ≤ 255 ∧ args.2.2.1.length ≤ 255)
    ?_ .refl ?_
  · exact .bind yields_bindArgs fun _ h => .bind (.any _) fun _ _ => .bind (.any _) fun _ _ => .pure h
  · exact fun args h => does_reply rfl fun _ ha => does_bindQueue h.1 h.2.1 h.2.2 ha

theorem does_handleQueueUnbind (buf : Buffer) : Does c topologyKinds s (outcome (s.handleQueueUnbind c num buf)) := by
  refine outcome_withArgs_of (Q := fun args => args.1.length ≤ 255 ∧ args.2.1.length ≤ 255 ∧ args.2.2.length ≤ 255)
    ?_ .refl ?_
  · exact .bind yields_bindArgs fun _ h => .bind (.any _) fun _ _ => .pure h
  · exact fun args h => does_reply rfl fun _ ha => does_unbindQueue h.1 h.2.1 h.2.2 ha

theorem does_handleQueueDeclare (buf : Buffer) :
    Does c topologyKinds s (outcome (s.handleQueueDeclare c num buf)) := by
  refine outcome_withArgs_of (Q := fun args => args.1.length ≤ 255) ?_ .refl ?_
  · exact .bind (.any _) fun _ _ => .bind yields_shortString fun _ hname => .bind (.any _) fun _ _ =>
      .bind (.any _) fun _ _ => .pure hname
  · rintro ⟨queue, bits, args⟩ hname
    have hd := does_declareQueue (c := c) (s := s) hname (hasBit bits 0x01) (hasBit bits 0x02) (hasBit bits 0x04)
      (hasBit bits 0x08) args
    dsimp only
    split
    · rename_i heq
      rw [heq] at hd
      exact (hd.trans (does_sendChannelClose ..)).mono (by decide)
    · rename_i heq
      rw [heq] at hd
      split
      · exact hd.mono (by decide)
      · exact (hd.trans (does_sendMethodFrame _ _ _ rfl)).mono (by decide)

theorem does_handleQueueDelete (buf : Buffer) :
    Does c topologyKinds s (outcome (s.handleQueueDelete c num buf)) := by
  refine outcome_withArgs_of yields_queueArgs .refl ?_
  rintro ⟨queue, bits⟩ hname
  dsimp only
  split
  · exact (does_sendChannelClose ..).mono (by decide)
  · rename_i ha
    split
    · exact (does_deleteQueue hname ha).mono (by decide)
    · exact ((does_deleteQueue hname ha).trans (does_sendMethodFrame _ _ _ rfl)).mono (by decide)

theorem does_handleQueuePurge (buf : Buffer) :
    Does c [.purge, .output] s (outcome (s.handleQueuePurge c num buf)) := by
  refine outcome_withArgs .refl ?_
  rintro ⟨queue, bits⟩
  dsimp only
  split
  · exact (does_sendChannelClose ..).mono (by decide)
  · split
    · exact (Does.of (.purge queue)).mono (by decide)
    · exact ((Does.of (.purge queue)).trans (does_sendMethodFrame _ _ _ rfl)).mono (by decide)

/-! ### Consumers -/

theorem does_handleBasicQos (buf : Buffer) : Does c [.output] s (outcome (s.handleBasicQos c num buf)) := by
  have hsize : ∀ n, Does c [.output] s (s.modifyChannel c num fun ch => { ch with prefetchSize := n }) :=
    fun n => .of (.note num _ (fun _ => rfl) (.inr ⟨rfl, fun _ => ⟨rfl, rfl⟩⟩))
  have hcount : ∀ (s : AmqpServer) n,
      Does c [.output] s (s.modifyChannel c num fun ch => { ch with prefetchCount := n }) :=
    fun s n => .of (.note num _ (fun _ => rfl) (.inr ⟨rfl, fun _ => ⟨rfl, rfl⟩⟩))
  rw [handleBasicQos]
  split
  · exact .refl
  · dsimp only
    split
    · exact hsize _
    · rename_i size _ _ _ count _ _
      have hset := (hsize size).andThen (hcount _ count)
      exact outcome_withArgs hset fun _ => hset.andThen (does_sendMethodFrame _ _ _ rfl)

theorem does_consume (ch : Channel) (queue tag : Bytes) (bits : UInt8) :
    Does c [.register, .output, .queue] s (s.consume c num ch queue tag bits) := by
  rw [consume]
  generalize (if tag = [] then ch.consumerTagCounter + 1 else ch.consumerTagCounter) = counter
  generalize consumerTag c num ch tag = tag'
  have hcell : (s.consumerHeap.alloc (newConsumer c num ch queue tag' bits)).cell s.consumerHeap.size =
      newConsumer c num ch queue tag' bits := Heap.cell_alloc_self ..
  have hnew := (Does.of (s := s) (.newConsumer (newConsumer c num ch queue tag' bits) rfl)).andThen
    (.of (.mapConsumer num tag' s.consumerHeap.size counter (Nat.lt_succ_self _) (by
      rw [consumer, hcell]
      exact ⟨rfl, rfl, rfl⟩)))
  -- Whatever is sent, the consumer object is the one that was made.
  have hadd : Valid s → ∀ s₁ : AmqpServer, s₁.queues = s.queues →
      s₁.consumerHeap = s.consumerHeap.alloc (newConsumer c num ch queue tag' bits) →
      Does c [.register, .queue] s₁ (s₁.addConsumer queue s.consumerHeap.size) := by
    intro hv s₁ hqueues heap
    refine ((Does.of (.addConsumer queue s.consumerHeap.size ?_ ?_ ?_ ?_)).trans (does_dispatchLocked queue)).mono (by decide)
    · rw [heap]
      exact Nat.lt_succ_self _
    · rw [consumer, heap, hcell]
      rfl
    · rw [consumer, heap, hcell]
      rfl
    · intro name' q hq hmem
      rw [AmqpServer.queue, hqueues] at hq
      exact Nat.lt_irrefl _ ((hv.queue hq).consumers _ hmem)
  refine Does.ofValid fun hv => ?_
  split
  · exact (hnew.trans (hadd hv _ rfl rfl)).mono (by decide)
  · exact ((hnew.trans (does_sendMethodFrame _ _ _ rfl)).trans (hadd hv _ rfl rfl)).mono (by decide)

theorem does_handleBasicConsume (buf : Buffer) :
    Does c [.register, .output, .queue] s (outcome (s.handleBasicConsume c num buf)) := by
  refine outcome_withArgs .refl ?_
  rintro ⟨queue, tag, bits⟩
  dsimp only
  split
  · exact (does_sendChannelClose ..).mono (by decide)
  · exact .refl
  · exact does_consume ..

theorem does_cancel (tag : Bytes) : Does c [.unregister] s (s.cancel c num tag) := by
  rw [cancel]
  split
  · exact .refl
  · exact (Does.of (.removeConsumer ..)).andThen (.of (.unmapConsumer num tag))

theorem does_handleBasicCancel (buf : Buffer) :
    Does c [.unregister, .output] s (outcome (s.handleBasicCancel c num buf)) := by
  refine outcome_withArgs .refl ?_
  rintro ⟨tag, bits⟩
  dsimp only
  split
  · exact (does_cancel tag).mono (by decide)
  · exact ((does_cancel tag).trans (does_sendMethodFrame _ _ _ rfl)).mono (by decide)

theorem does_handleBasicPublish (buf : Buffer) :
    Does c [.output, .pending] s (outcome (s.handleBasicPublish c num buf)) := by
  refine outcome_withArgs_of (Q := fun args => args.1.length ≤ 255 ∧ args.2.1.length ≤ 255) ?_ .refl ?_
  · exact .bind (.any _) fun _ _ => .bind yields_shortString fun _ he => .bind yields_shortString fun _ hrk =>
      .bind (.any _) fun _ _ => .pure ⟨he, hrk⟩
  · rintro ⟨exchange, routingKey, bits⟩ ⟨he, hrk⟩
    dsimp only
    split
    · exact (does_sendChannelClose ..).mono (by decide)
    · have hsound : ({ exchange, routing_key := routingKey, mandatory := hasBit bits 0x01 } : PendingPublish).Sound :=
        ⟨he, hrk, BasicProperties.wellFormed_empty⟩
      exact (does_setPending hsound).mono (by decide)

theorem does_handGet (ch : Channel) (queue : Bytes) (noAck : Bool) {r : Ref} (hr : r < s.heap.size) :
    Does c [.remove, .hold, .output] s (s.handGet c num ch queue noAck r) := by
  have hsent : ∀ s₁ : AmqpServer, Does c [.output] s₁ (s₁.sendGetOk c num queue ch.nextDeliveryTag (s.message r)) :=
    fun s₁ => (does_sendMethodFrame (k := .output) _ _ _ rfl).andThen (does_sendContentFrames ..)
  rw [handGet]
  split
  · exact (((Does.of (.remove r queue hr)).trans (.of (.takeTag num))).trans (hsent _)).mono (by decide)
  · have hheld : Does c [.hold] s ((s.hold c num { message := r, queue_name := queue, consumer := none }).takeTag c num) :=
      .of (.hold num _ hr nofun)
    exact (hheld.trans (hsent _)).mono (by decide)

theorem does_handleBasicGet (buf : Buffer) :
    Does c [.queue, .take, .remove, .hold, .output] s (outcome (s.handleBasicGet c num buf)) := by
  refine Does.ofValid fun hv => outcome_withArgs .refl ?_
  rintro ⟨queue, bits⟩
  have hg := does_get (c := c) (s := s) queue
  have hlt : ∀ r, (s.get queue).1 = some r → r < s.heap.size := fun r => lt_of_get hv
  dsimp only
  split
  · exact (does_sendChannelClose ..).mono (by decide)
  · exact .refl
  · split
    · rename_i heq
      rw [heq] at hg
      exact (hg.trans (does_sendMethodFrame _ _ _ rfl)).mono (by decide)
    · rename_i r s' heq
      rw [heq] at hg hlt
      refine Does.andThen_of_le (hg.mono (by decide)) fun hle => (does_handGet _ _ _ ?_).mono (by decide)
      exact (hlt r rfl).trans_le hle

theorem does_deliverMessage {ch : Channel} (hch : s.channel c num = some ch) {t : DeliverTask} (ht : t.msg < s.heap.size) :
    Does c [.remove, .hold, .deliver, .output] s (s.deliverMessage c num ch t) := by
  have hsend : ∀ s₁ bytes, Does c [.remove, .hold] s s₁ → Does c [.remove, .hold, .deliver, .output] s
      ((s₁.sendMethodFrame c num class_id.BASIC basic_method.DELIVER bytes).sendContentFrames c num class_id.BASIC t.props
        t.body) := fun s₁ bytes hheld =>
    ((hheld.trans (does_sendMethodFrame _ _ _ rfl)).trans (does_sendContentFrames ..)).mono (by decide)
  rw [deliverMessage]
  refine hsend _ _ ?_
  split
  · exact (Does.of (.takeTag num)).mono (by decide)
  · split
    · exact ((Does.of (.remove t.msg t.queue ht)).trans (.of (.takeTag num))).mono (by decide)
    · rename_i k hk _
      have hhold : Does c [.hold] s ((s.hold c num { message := t.msg, queue_name := t.queue, consumer := some k }).takeTag c num) :=
        .of (.hold num _ ht fun k' hk' => ⟨ch, t.tag, hch, hk'  ▸ hk⟩)
      exact hhold.mono (by decide)

/-! ### Settlement -/

theorem does_rejectIfThere (requeue : Bool) {u : UnackedMessage} (hu : u.message < s.heap.size) :
    Does c [.queue, .requeue] s (s.rejectIfThere requeue u) := by
  rw [rejectIfThere]
  split
  · exact .refl
  · exact does_reject _ _ hu

theorem does_rejectUnacked (requeue : Bool) (s : AmqpServer) (u : UnackedMessage) (hu : u.message < s.heap.size) :
    Does c [.settle, .queue, .requeue] s (rejectUnacked requeue s u) := by
  rw [rejectUnacked]
  split
  · exact (does_rejectIfThere _ hu).mono (by decide)
  · have hsettle : Does c [.settle] s (s.persistAck u) := .of (.settle u hu)
    refine (hsettle.trans (does_rejectIfThere requeue ?_)).mono (by decide)
    rw [heap_persistAck]
    exact hu

theorem does_settle {f : AmqpServer → UnackedMessage → AmqpServer}
    (hf : ∀ s u, u.message < s.heap.size → Does c K s (f s u)) (s : AmqpServer) (tag : Nat) :
    Does c (K ++ [.release]) s (settle c num f s tag) := by
  refine Does.ofValid fun hv => ?_
  rw [settle]
  split
  · exact .refl
  · rename_i u hu
    obtain ⟨ch, hch, hu⟩ := Option.bind_eq_some_iff.mp hu
    exact (hf s u ((hv.channel hch).unacked tag u hu).2).trans (.of (.eraseUnacked num tag))

/-- The kinds of ack, reject and nack. --/
def settleKinds : List Kind := [.settle, .queue, .requeue, .release]

theorem does_handleBasicAck (buf : Buffer) : Does c settleKinds s (outcome (s.handleBasicAck c num buf)) := by
  have hack : ∀ s u, u.message < s.heap.size → Does c [.settle] s (s.persistAck u) := fun s u hu => .of (.settle u hu)
  exact outcome_withArgs .refl fun _ => (Does.foldl (does_settle hack) _ _).mono (by decide)

theorem does_handleBasicReject (buf : Buffer) : Does c settleKinds s (outcome (s.handleBasicReject c num buf)) :=
  outcome_withArgs .refl fun _ => (does_settle (does_rejectUnacked _) _ _).mono (by decide)

theorem does_handleBasicNack (buf : Buffer) : Does c settleKinds s (outcome (s.handleBasicNack c num buf)) :=
  outcome_withArgs .refl fun _ => (Does.foldl (does_settle (does_rejectUnacked _)) _ _).mono (by decide)

/-- The kinds of putting back what a channel holds. --/
def requeueKinds : List Kind := [.queue, .requeue, .release]

theorem lt_of_mem_unacked (hv : Valid s) {u : UnackedMessage} (hu : u ∈ s.unacked c num) : u.message < s.heap.size := by
  rw [unacked] at hu
  split at hu
  · cases hu
  · rename_i ch hch
    obtain ⟨⟨tag, u'⟩, hmem, rfl⟩ := List.mem_map.mp hu
    exact ((hv.channel hch).unacked tag u' (Assoc.mem_entries.mp hmem)).2

theorem does_requeueUnackedMessages : Does c requeueKinds s (s.requeueUnackedMessages c num) := by
  have hone : ∀ (s : AmqpServer) (u : UnackedMessage), u.message < s.heap.size →
      Does c requeueKinds s ((s.releaseCredit u).rejectIfThere true u) := by
    intro s u hu
    refine ((Does.of (.releaseCredit u)).trans (does_rejectIfThere true ?_)).mono (by decide)
    rw [heap_releaseCredit]
    exact hu
  refine Does.ofValid fun hv => ?_
  exact (Does.foldl_refs hone _ _ fun u hu => lt_of_mem_unacked hv hu).andThen
    ((Does.of (.clearUnacked num)).mono (by decide))

theorem does_handleBasicRecover (buf : Buffer) :
    Does c [.queue, .requeue, .release, .output] s (outcome (s.handleBasicRecover c num buf)) := by
  refine Does.ofValid fun hv => outcome_withArgs .refl fun bits => ?_
  have hdone : ∀ s₁ : AmqpServer, Does c [.release, .output] s₁
      ((s₁.clearUnacked c num).sendMethodFrame c num class_id.BASIC basic_method.RECOVER_OK []) := fun s₁ =>
    (Does.of (.clearUnacked num)).trans (does_sendMethodFrame _ _ _ rfl)
  have hput : ∀ (s : AmqpServer) (u : UnackedMessage), u.message < s.heap.size →
      Does c [.queue, .requeue] s (s.rejectIfThere true u) := fun s u hu => does_rejectIfThere true hu
  split
  · exact ((Does.foldl_refs hput _ _ fun u hu => lt_of_mem_unacked hv hu).trans (hdone _)).mono (by decide)
  · exact (hdone _).mono (by decide)

theorem does_handleConfirmSelect (buf : Buffer) :
    Does c [.confirm, .output] s (outcome (s.handleConfirmSelect c num buf)) := by
  refine outcome_withArgs .refl fun bits => ?_
  have hmode : Does c [.confirm] s
      (s.modifyChannel c num fun ch => { ch with confirmMode := true, nextConfirmSeqNo := 1 }) :=
    .of (.note num _ (fun _ => rfl) (.inl rfl))
  dsimp only
  split
  · exact hmode.mono (by decide)
  · exact hmode.trans (does_sendMethodFrame _ _ _ rfl)

theorem does_handleTx (okId : UInt16) : Does c [.output] s (outcome (s.handleTx c num okId)) :=
  does_sendMethodFrame class_id.TX okId [] rfl

/-! ### The end of channels and connections -/

/-- The kinds of closing a channel. --/
def closeKinds : List Kind := [.closeChannel, .unregister, .queue, .requeue, .release]

theorem does_removeAllConsumers :
    Does c [.unregister, .queue, .requeue, .release] s (s.removeAllConsumers c num) := by
  rw [removeAllConsumers]
  split
  · exact .refl
  · exact (((Does.foldl (fun _ (p : Bytes × Ref) => .of (.removeConsumer _ p.1)) _ _).trans (.of (.unmapConsumers num))).trans
      does_requeueUnackedMessages).mono (by decide)

theorem does_closeChannel (num : UInt16) : Does c closeKinds s (s.closeChannel c num) :=
  ((Does.of (.setClosed num)).trans does_removeAllConsumers).mono (by decide)

theorem does_cleanupChannel : Does c closeKinds s (s.cleanupChannel c num) := by
  rw [cleanupChannel]
  split
  · exact .refl
  · exact ((does_closeChannel num).trans (.of (.dropChannel num))).mono (by decide)

theorem does_cleanupAllChannels : Does c closeKinds s (s.cleanupAllChannels c) := by
  rw [cleanupAllChannels]
  split
  · exact .refl
  · exact ((Does.foldl (fun _ num => does_closeChannel num) _ _).trans (.of .dropChannels)).mono (by decide)

theorem does_removeConnectionQueues :
    Does c [.unregister, .topology] s (s.removeConnectionQueues c) := by
  rw [removeConnectionQueues]
  have herase : ∀ (s : AmqpServer) name, Does c [.topology] s { s with queues := s.queues.erase name } :=
    fun _ name => .of (.eraseQueue name)
  exact (((Does.foldl (fun _ name => .of (.removeConsumersByConnection name)) _ _).trans
    (Does.foldl (fun s name => (Does.of (.exchanges _)).andThen (herase (s.removeBindingsOf name) name)) _ _)).trans
    (Does.foldl herase _ _)).mono (by decide)

/-- The kinds of ending a connection. --/
def shutdownKinds : List Kind := [.handshake, .closeChannel, .unregister, .queue, .requeue, .release, .topology]

theorem does_shutdown : Does c shutdownKinds s (s.shutdown c) := by
  rw [shutdown]
  split
  · exact .refl
  · split
    · exact .refl
    · exact (((Does.of .shut).trans does_cleanupAllChannels).trans does_removeConnectionQueues).mono (by decide)

theorem does_sendConnectionClose (replyCode : UInt16) (replyText : Bytes) (classId methodId : UInt16) :
    Does c [.handshake, .output] s (s.sendConnectionClose c replyCode replyText classId methodId) := by
  rw [sendConnectionClose]
  split
  · exact .refl
  · rename_i conn hconn
    split
    · exact .refl
    · rename_i hopen
      have hclosing : Does c [.handshake] s (s.modifyConnection c fun conn => { conn with state := .CLOSING }) := by
        refine .of (.handshake _ (fun _ => ⟨rfl, rfl, rfl, le_rfl, nofun, id⟩) fun conn' hconn' hclosed => ?_)
        obtain rfl := Option.some.inj (hconn.symm.trans hconn')
        exact absurd (.inr hclosed) hopen
      exact (hclosing.trans (does_sendMethodFrame _ _ _ rfl)).mono (by decide)

theorem does_stopReading (replyText : Bytes) : Does c [.handshake, .output] s (s.stopReading c replyText) := by
  have hstop : ∀ s₁ : AmqpServer, Does c [.handshake] s₁ (s₁.modifyConnection c fun conn => { conn with reading := false }) :=
    fun _ => .of (.handshake _ (fun _ => ⟨rfl, rfl, rfl, le_rfl, id, nofun⟩) fun _ _ hclosed => hclosed)
  exact ((does_sendConnectionClose ..).trans (hstop _)).mono (by decide)

/-! ### Connection methods -/

/-- A step of the handshake in a state that is not the closed one. --/
theorem does_handshake {f : Connection → Connection} {x : State} (hf : ∀ conn, (f conn).Tuned conn)
    (hstate : ¬(s.connection c).map Connection.state ≠ some x) (hne : x ≠ .CLOSED) :
    Does c [.handshake] s (s.modifyConnection c f) := by
  refine .of (.handshake f hf fun conn hconn hclosed => absurd ?_ hne)
  rw [not_not, hconn] at hstate
  exact (Option.some.inj hstate).symm.trans hclosed

theorem does_handleStartOk (buf : Buffer) : Does c [.handshake, .output] s (outcome (s.handleStartOk c buf)) := by
  have htune : ∀ s₁ : AmqpServer, Does c [.output] s₁ (s₁.sendConnectionTune c) := by
    intro s₁
    rw [sendConnectionTune]
    split
    · exact .refl
    · exact does_sendMethodFrame _ _ _ rfl
  rw [handleStartOk]
  refine outcome_ite_of (fun _ => does_sendConnectionClose ..) fun hstate => outcome_withArgs .refl fun args => ?_
  have hauth : ∀ user, Does c [.handshake] s
      (s.modifyConnection c fun conn => { conn with authUser := user, state := .AWAITING_TUNE_OK }) :=
    fun _ => does_handshake (fun _ => ⟨rfl, rfl, rfl, le_rfl, nofun, id⟩) hstate nofun
  split
  · exact does_sendConnectionClose ..
  · split
    · exact (hauth _).trans (htune _)
    · exact does_sendConnectionClose ..

theorem frameMax_tune (conn : Connection) (channelMax : UInt16) (frameMax : UInt32) (heartbeat : UInt16) :
    (tune conn channelMax frameMax heartbeat).frameMax.toNat ≤ conn.frameMax.toNat := by
  have hmin : (min conn.frameMax frameMax).toNat ≤ conn.frameMax.toNat := by
    change (if conn.frameMax ≤ frameMax then conn.frameMax else frameMax).toNat ≤ _
    split
    · exact le_rfl
    · rename_i h
      rw [UInt32.le_iff_toNat_le] at h
      omega
  rw [tune]
  dsimp only
  split
  · exact hmin
  · exact le_rfl

theorem does_handleTuneOk (buf : Buffer) : Does c [.handshake, .output] s (outcome (s.handleTuneOk c buf)) := by
  rw [handleTuneOk]
  refine outcome_ite_of (fun _ => does_sendConnectionClose ..) fun hstate => outcome_withArgs .refl fun args => ?_
  have htuned : Does c [.handshake] s (s.modifyConnection c fun conn => tune conn args.1 args.2.1 args.2.2) :=
    does_handshake (fun conn => ⟨rfl, rfl, rfl, frameMax_tune .., nofun, id⟩) hstate nofun
  exact htuned.mono (by decide)

theorem does_handleConnectionOpen (buf : Buffer) :
    Does c [.handshake, .output] s (outcome (s.handleConnectionOpen c buf)) := by
  rw [handleConnectionOpen]
  refine outcome_ite_of (fun _ => does_sendConnectionClose ..) fun hstate => outcome_withArgs .refl fun virtualHost => ?_
  split
  · exact does_sendConnectionClose ..
  · have hopen : Does c [.handshake] s (s.modifyConnection c fun conn => { conn with state := .OPEN }) :=
      does_handshake (fun _ => ⟨rfl, rfl, rfl, le_rfl, nofun, id⟩) hstate nofun
    exact hopen.trans (does_sendMethodFrame _ _ _ rfl)

/-- The kinds of a method of the connection. --/
def connectionKinds : List Kind :=
  [.handshake, .output, .closeChannel, .unregister, .queue, .requeue, .release, .topology]

theorem does_handleConnectionMethod (methodId : UInt16) (buf : Buffer) :
    Does c connectionKinds s (outcome (s.handleConnectionMethod c methodId buf)) := by
  have hclose : Does c connectionKinds s (outcome (s.handleConnectionClose c buf)) :=
    outcome_withArgs .refl fun _ => ((does_sendMethodFrame _ _ _ rfl).trans does_shutdown).mono (by decide)
  rw [handleConnectionMethod]
  refine outcome_ite ((does_handleStartOk buf).mono (by decide)) (outcome_ite ((does_handleTuneOk buf).mono (by decide))
    (outcome_ite ((does_handleConnectionOpen buf).mono (by decide)) (outcome_ite hclose
      (outcome_ite (does_shutdown.mono (by decide)) ?_))))
  exact (does_sendConnectionClose ..).mono (by decide)

/-! ### Frames -/

/-- The kinds of what a client can ask for, as long as its records fit. --/
def requestKinds : List Kind :=
  [.queue, .enqueue, .requeue, .take, .purge, .create, .store, .output, .confirm, .pending, .handshake, .hold, .release,
    .settle, .remove, .register, .unregister, .openChannel, .closeChannel, .topology]

/-- The kinds of the methods of a channel. --/
def channelKinds : List Kind :=
  [.queue, .enqueue, .requeue, .take, .purge, .create, .store, .output, .confirm, .pending, .hold, .release, .settle,
    .remove, .register, .unregister, .topology]

theorem does_handleMethod (classId methodId : UInt16) (buf : Buffer) :
    Does c channelKinds s (outcome (s.handleMethod c num classId methodId buf)) := by
  refine Handlers.handleMethod (P := fun _ _ => Does c channelKinds s) ?_ classId methodId buf
  constructor
  case exchangeDeclare => exact fun buf => (does_handleExchangeDeclare buf).mono (by decide)
  case exchangeDelete => exact fun buf => (does_handleExchangeDelete buf).mono (by decide)
  case queueDeclare => exact fun buf => (does_handleQueueDeclare buf).mono (by decide)
  case queueBind => exact fun buf => (does_handleQueueBind buf).mono (by decide)
  case queueUnbind => exact fun buf => (does_handleQueueUnbind buf).mono (by decide)
  case queuePurge => exact fun buf => (does_handleQueuePurge buf).mono (by decide)
  case queueDelete => exact fun buf => (does_handleQueueDelete buf).mono (by decide)
  case basicQos => exact fun buf => (does_handleBasicQos buf).mono (by decide)
  case basicConsume => exact fun buf => (does_handleBasicConsume buf).mono (by decide)
  case basicCancel => exact fun buf => (does_handleBasicCancel buf).mono (by decide)
  case basicPublish => exact fun buf => (does_handleBasicPublish buf).mono (by decide)
  case basicGet => exact fun buf => (does_handleBasicGet buf).mono (by decide)
  case basicAck => exact fun buf => (does_handleBasicAck buf).mono (by decide)
  case basicReject => exact fun buf => (does_handleBasicReject buf).mono (by decide)
  case basicRecover => exact fun buf => (does_handleBasicRecover buf).mono (by decide)
  case basicRecoverAsync => exact fun buf => (does_handleBasicRecover buf).mono (by decide)
  case basicNack => exact fun buf => (does_handleBasicNack buf).mono (by decide)
  case confirmSelect => exact fun buf => (does_handleConfirmSelect buf).mono (by decide)
  case tx => exact fun _ okId => (does_handleTx okId).mono (by decide)
  case notImplemented => exact fun classId methodId => (does_sendChannelClose ..).mono (by decide)

theorem does_handleChannelOpen (buf : Buffer) :
    Does c [.openChannel, .handshake, .output] s (outcome (s.handleChannelOpen c num buf)) := by
  refine outcome_withArgs .refl fun _ => ?_
  split
  · exact .refl
  · split
    · exact (does_sendConnectionClose ..).mono (by decide)
    · rename_i hnum
      exact ((Does.of (.openChannel num (not_or.mp hnum).1)).trans (does_sendMethodFrame _ _ _ rfl)).mono (by decide)

theorem does_handleChannelClose (buf : Buffer) :
    Does c (closeKinds ++ [.output]) s (outcome (s.handleChannelClose c num buf)) :=
  outcome_withArgs .refl fun _ => does_cleanupChannel.trans (does_sendMethodFrame _ _ _ rfl)

theorem does_handleChannelFlow (buf : Buffer) : Does c [.output] s (outcome (s.handleChannelFlow c num buf)) :=
  outcome_withArgs .refl fun _ => does_sendMethodFrame _ _ _ rfl

theorem does_handleOnChannel (classId methodId : UInt16) (buf : Buffer) :
    Does c requestKinds s (outcome (s.handleOnChannel c num classId methodId buf)) := by
  rw [handleOnChannel]
  split
  · exact (does_sendConnectionClose ..).mono (by decide)
  · exact (does_handleMethod ..).mono (by decide)

theorem does_handleMethodFrame (buf : Buffer) :
    Does c requestKinds s (outcome (s.handleMethodFrame c num buf)) := by
  rw [handleMethodFrame]
  split
  · exact .refl
  · refine outcome_ite (outcome_ite ?_ ?_) (outcome_ite ?_ (outcome_ite ?_ (outcome_ite ?_ (outcome_ite ?_ ?_))))
    · exact (does_sendConnectionClose ..).mono (by decide)
    · exact (does_handleConnectionMethod ..).mono (by decide)
    · exact (does_handleChannelOpen _).mono (by decide)
    · exact (does_handleChannelClose _).mono (by decide)
    · exact does_cleanupChannel.mono (by decide)
    · exact (does_handleChannelFlow _).mono (by decide)
    · exact does_handleOnChannel ..

theorem does_handleClosing (buf : Buffer) : Does c shutdownKinds s (outcome (s.handleClosing c buf)) := by
  rw [handleClosing]
  split
  · exact .refl
  · dsimp only [outcome]
    split
    · exact does_shutdown
    · exact .refl

theorem does_handleFrame {frame : Frame} (hK : ∀ k ∈ requestKinds, k ∈ K)
    (hfit : .oversize ∈ K ∨ ∀ p, s.completed c frame = some p → s.PublishFits c p) :
    Does c K s (outcome (s.handleFrame c frame)) := by
  have hpub : ∀ k ∈ contentKinds, k ∈ K := fun k hk => hK k (by revert k; decide)
  rw [handleFrame]
  refine outcome_ite (((does_handleClosing _).mono (by decide)).mono hK) ?_
  by_cases hmethod : frame.type = FRAME_METHOD
  · rw [if_pos hmethod]
    exact (does_handleMethodFrame _).mono hK
  · rw [if_neg hmethod]
    by_cases hheader : frame.type = FRAME_HEADER
    · rw [if_pos hheader]
      split
      · exact .refl
      · refine does_handleContentHeader hpub (hfit.imp_right fun h p p' hp hc => h p' ?_)
        rw [completed, hp, Option.bind_some, if_pos hheader, hc]
    · rw [if_neg hheader]
      by_cases hbody : frame.type = FRAME_BODY
      · rw [if_pos hbody]
        split
        · exact .refl
        · refine does_handleContentBody hpub (hfit.imp_right fun h p p' hp hc => h p' ?_)
          rw [completed, hp, Option.bind_some, if_neg hheader, if_pos hbody, hc]
      · rw [if_neg hbody]
        exact outcome_ite .refl (((does_sendConnectionClose ..).mono (by decide)).mono hK)

theorem does_receiveFrame (conn : Connection) {frame : Frame} (frameEnd : UInt8) (hK : ∀ k ∈ requestKinds, k ∈ K)
    (hfit : .oversize ∈ K ∨ ∀ p, s.completed c frame = some p → s.PublishFits c p) :
    Does c K s (s.receiveFrame c conn frame frameEnd) := by
  have hframe := does_handleFrame (c := c) (s := s) hK hfit
  have hstop : ∀ (s₁ : AmqpServer) text, Does c K s₁ (s₁.stopReading c text) :=
    fun _ _ => ((does_stopReading _).mono (by decide)).mono hK
  rw [receiveFrame]
  generalize effectiveMax conn = effectiveMax
  split
  · exact hstop ..
  · split
    · exact hstop ..
    · split
      · rename_i heq
        rwa [heq] at hframe
      · rename_i heq
        rw [heq] at hframe
        exact hframe.andThen (hstop ..)

/-- The server waits for `start-ok`. --/
theorem does_awaitStartOk {conn : Connection} (hconn : s.connection c = some conn)
    (hstate : conn.state = .AWAITING_PROTOCOL_HEADER) :
    Does c [.handshake] s (s.modifyConnection c fun conn => { conn with state := .AWAITING_START_OK }) := by
  have hwas : ¬(s.connection c).map Connection.state ≠ some .AWAITING_PROTOCOL_HEADER := by
    rw [hconn, Option.map_some, hstate, not_not]
  have hopen : State.AWAITING_START_OK ≠ .CLOSED := by decide
  exact does_handshake (fun _ => ⟨rfl, rfl, rfl, le_rfl, fun hclosed => absurd hclosed hopen, id⟩) hwas (by decide)

theorem does_receiveProtocolHeader {conn : Connection} (hconn : s.connection c = some conn)
    (hstate : conn.state = .AWAITING_PROTOCOL_HEADER) (header : Bytes) :
    Does c connectionKinds s (s.receiveProtocolHeader c header) := by
  rw [receiveProtocolHeader]
  split
  · exact ((does_awaitStartOk hconn hstate).trans (does_sendMethodFrame _ _ _ rfl)).mono (by decide)
  · exact ((Does.of (.send .protocolHeader)).trans does_shutdown).mono (by decide)

/-! ### Events -/

theorem does_runTask : Does c [.task, .remove, .hold, .deliver, .output] s (s.runTask c) := by
  refine Does.ofValid fun hv => ?_
  rw [runTask]
  split
  · exact .refl
  · exact .refl
  · rename_i t rest hstrand
    obtain ⟨conn, hconn, hs⟩ := Option.map_eq_some_iff.mp hstrand
    have hpop := Does.of (.popTask hconn hs)
    have ht : t.msg < s.heap.size := (hv.connections c conn hconn).2.strand t (hs ▸ List.mem_cons_self)
    dsimp only
    split
    · exact hpop.mono (by decide)
    · rename_i hlock
      have hch := (Option.filter_eq_some_iff.mp (Option.filter_eq_some_iff.mp hlock).1).1
      exact (hpop.trans (does_deliverMessage hch ht)).mono (by decide)

/-- The kinds of everything but a restart, as long as the records of a publish fit. --/
def allKinds : List Kind := requestKinds ++ [.task, .deliver, .server]

/-- The records of a publish that the event completes fit. --/
def EventFits (s : AmqpServer) (e : Event) : Prop :=
  ∀ c frame frameEnd p, e = .frame c frame frameEnd → s.completed c frame = some p → s.PublishFits c p

theorem does_handle {e : Event} (hc : ∀ c', e.connection? = some c' → c' = c) (he : e ≠ .restart)
    (hK : ∀ k ∈ allKinds, k ∈ K) (hfit : .oversize ∈ K ∨ s.EventFits e) : Does c K s (s.handle e) := by
  have hreq : ∀ k ∈ requestKinds, k ∈ K := fun k hk => hK k (List.mem_append_left _ hk)
  cases e with
  | accept => exact ((Does.of .accept).mono (by decide)).mono hK
  | protocolHeader c' header =>
    obtain rfl := hc c' rfl
    rw [handle]
    split
    · exact .refl
    · rename_i hconn
      split
      · rename_i h
        exact ((does_receiveProtocolHeader hconn h.2 header).mono (by decide)).mono hreq
      · exact .refl
  | frame c' frame frameEnd =>
    obtain rfl := hc c' rfl
    rw [handle]
    split
    · exact .refl
    · split
      · exact does_receiveFrame _ _ hreq (hfit.imp_right fun h p hp => h c' frame frameEnd p rfl hp)
      · exact .refl
  | runTask c' =>
    obtain rfl := hc c' rfl
    exact (does_runTask.mono (by decide)).mono hK
  | disconnect c' =>
    obtain rfl := hc c' rfl
    exact (does_shutdown.mono (by decide)).mono hreq
  | tick => exact (does_tick.mono (by decide)).mono hreq
  | compact => exact ((Does.of .compact).mono (by decide)).mono hK
  | restart => exact absurd rfl he
  | reorderQueues order => exact ((Does.of (.reorderQueues order)).mono (by decide)).mono hK
  | reorderExchanges order => exact ((Does.of (.reorderExchanges order)).mono (by decide)).mono hK
  | reorderChannels c' order =>
    obtain rfl := hc c' rfl
    exact ((Does.of (.reorderChannels order)).mono (by decide)).mono hK
  | reorderConsumers c' num order =>
    obtain rfl := hc c' rfl
    exact ((Does.of (.reorderConsumers num order)).mono (by decide)).mono hK
  | reorderUnacked c' num order =>
    obtain rfl := hc c' rfl
    exact ((Does.of (.reorderUnacked num order)).mono (by decide)).mono hK

/-! ### Recovery -/

/-- The kinds of a start on the files of an earlier process. --/
def recoveryKinds : List Kind := [.topology, .recover, .queue, .enqueue]

theorem does_recoverQueue {qd : StoredQueueDecl} (hname : qd.name.length ≤ MAX_ENTRY_SIZE) (s : AmqpServer) :
    Does c [.recover, .topology] s (s.recoverQueue qd) := by
  rw [recoverQueue]
  split
  · exact .refl
  · rename_i hnew
    exact ((Does.of (.recoverQueue hname hnew rfl rfl rfl rfl)).trans (.of (.exchanges _))).mono (by decide)

theorem does_recoverExchange (s : AmqpServer) (ed : StoredExchangeDecl) : Does c [.topology] s (s.recoverExchange ed) := by
  rw [recoverExchange]
  split
  · exact .refl
  · exact .of (.exchanges _)

theorem does_recoverMessage {sm : StoredMessage} (hw : sm.properties.WellFormed) (s : AmqpServer) :
    Does c [.recover, .queue, .enqueue] s (s.recoverMessage sm) := by
  rw [recoverMessage]
  split
  · exact .refl
  · exact ((Does.of (.recover _ sm.queue_name hw rfl)).trans (does_deliverToQueue _ (Nat.lt_succ_self _))).mono (by decide)

/-- What recovery returns was decoded from entries of the log. --/
theorem storable_of_recover {st : MessageStore} {e : Entry} (h : e ∈ liveEntries st.recover.1) : e.Storable := by
  rw [recover, recoverLocked_eq] at h
  exact storable_of_parse (mem_of_liveEntries h)

theorem wellFormed_of_recover {st : MessageStore} {sm : StoredMessage} (h : sm ∈ st.recover.1.messages) :
    sm.properties.WellFormed := by
  have hlive : .message sm ∈ liveEntries st.recover.1 :=
    List.mem_append_right _ (List.mem_append_right _ (List.mem_append_right _ (List.mem_map_of_mem h)))
  exact (storable_of_recover hlive).wellFormed

theorem name_of_recover {st : MessageStore} {qd : StoredQueueDecl} (h : qd ∈ st.recover.1.queues) :
    qd.name.length ≤ MAX_ENTRY_SIZE := by
  have hlive : .queueDeclare qd ∈ liveEntries st.recover.1 :=
    List.mem_append_right _ (List.mem_append_left _ (List.mem_map_of_mem h))
  have hfits := (storable_of_recover hlive).fits
  rw [Entry.Fits, Entry.payload, List.length_append, length_writeString] at hfits
  omega

/-- The declarations and bindings of the log. --/
theorem does_recoverTopology (st : MessageStore) (s : AmqpServer) :
    Does c [.topology, .recover] s (st.recover.1.bindings.foldl recoverBinding
      (st.recover.1.queues.foldl recoverQueue (st.recover.1.exchanges.foldl recoverExchange s))) := by
  have hbind : ∀ (s : AmqpServer) sb, Does c [.topology] s (s.recoverBinding sb) := fun _ _ => .of (.exchanges _)
  exact (((Does.foldl does_recoverExchange _ _).trans
    (Does.foldl_of (fun s _ hqd => does_recoverQueue (name_of_recover hqd) s) _)).trans
    (Does.foldl hbind _ _)).mono (by decide)

/-- Recovery, once `recover` has read the log. --/
theorem does_recoverFromStore {st : MessageStore} (hst : s.store = some st) :
    Does c recoveryKinds { s with store := some st.recover.2 } s.recoverFromStore := by
  rw [recoverFromStore, hst]
  exact ((does_recoverTopology st _).trans
    (Does.foldl_of (fun s _ hsm => does_recoverMessage (wellFormed_of_recover hsm) s) _)).mono (by decide)

end AmqpServer
end Broko.Broker
