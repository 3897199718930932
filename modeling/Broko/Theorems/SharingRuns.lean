import Broko.Theorems.Losses
import Broko.Theorems.Sharing

/-! From handlers to runs: an event carries message objects from place to place, and it makes new ones. -/

namespace Broko.Broker
open Amqp Storage MessageStore

namespace AmqpServer

variable {c : Nat} {num : UInt16} {s s' s₁ s₂ : AmqpServer} {name : Bytes} {h h₁ h₂ : Multiset Ref}

/-! ### Sending -/

theorem carries_sendFrame (f : Frame) : Carries h h s (s.sendFrame c f) := by
  refine .same ?_ rfl
  exact contents_modifyConnection_eq fun _ _ => rfl

theorem carries_sendMethodFrame (classId methodId : UInt16) (args : Bytes) :
    Carries h h s (s.sendMethodFrame c num classId methodId args) := carries_sendFrame _

theorem carries_sendContentFrames (classId : UInt16) (props : BasicProperties) (body : Bytes) :
    Carries h h s (s.sendContentFrames c num classId props body) := by
  have hfold : ∀ (l : List Frame) (s : AmqpServer), Carries h h s (l.foldl (fun s f => s.sendFrame c f) s) := by
    intro l
    induction l with
    | nil => exact fun _ => .refl
    | cons f l ih => exact fun s => (carries_sendFrame f).trans (ih _)
  rw [sendContentFrames]
  split
  · exact .refl
  · exact hfold _ s

theorem carries_modifyChannel {f : Channel → Channel} (hf : ∀ ch, (f ch).unackedMessages = ch.unackedMessages) :
    Carries h h s (s.modifyChannel c num f) := .same (contents_modifyChannel_eq hf) rfl

theorem carries_takeTag : Carries h h s (s.takeTag c num) := carries_modifyChannel fun _ => rfl

theorem carries_setPending (p : Option PendingPublish) : Carries h h s (s.setPending c num p) :=
  carries_modifyChannel fun _ => rfl

theorem carries_sendConfirm : Carries h h s (s.sendConfirm c num) := by
  rw [sendConfirm]
  split
  · exact .refl
  · split
    · have hnext : Carries h h s (s.modifyChannel c num fun ch => { ch with nextConfirmSeqNo := ch.nextConfirmSeqNo + 1 }) :=
        carries_modifyChannel fun _ => rfl
      exact hnext.trans (carries_sendMethodFrame ..)
    · exact .refl

/-! ### Tables of unacked messages -/

/-- The message is in the table afterwards, if the channel is there. --/
theorem carries_hold (u : UnackedMessage) : Carries {u.message} 0 s (s.hold c num u) := by
  refine .of_add ?_ rfl
  cases hconn : s.connection c with
  | none =>
    rw [hold, modifyChannel, modifyConnection, Assoc.modify_of_lookup_eq_none hconn]
    exact add_le_add_left (Multiset.zero_le _) _
  | some conn =>
    cases hch : conn.channels.lookup num with
    | none =>
      have hsame : (s.hold c num u).contents = s.contents := by
        refine contents_modifyConnection_eq fun conn' hconn' => ?_
        obtain rfl := Option.some.inj (hconn.symm.trans hconn')
        rw [Assoc.modify_of_lookup_eq_none hch]
      rw [references, hsame]
      exact add_le_add_left (Multiset.zero_le _) _
    | some ch =>
      rw [references, hold, contents_modifyChannel hconn hch, references, contents_of_channel hconn hch, Channel.contents,
        Assoc.gather_insert, Multiset.map_add, Multiset.map_add, Multiset.map_add, Multiset.map_singleton, zero_add, add_assoc]
      refine add_le_add_right (add_le_add_left (Multiset.map_le_map ?_) _) _
      exact Assoc.gather_erase_le _ _

/-- An entry is taken out of the table. --/
theorem carries_eraseUnacked {ch : Channel} {tag : Nat} {u : UnackedMessage} (hch : s.channel c num = some ch)
    (hu : ch.unackedMessages.lookup tag = some u) : Carries 0 {u.message} s (s.eraseUnacked c num tag) := by
  obtain ⟨conn, hconn, hch⟩ := Option.bind_eq_some_iff.mp hch
  refine .of_add ?_ rfl
  rw [references, eraseUnacked, contents_modifyChannel hconn hch, references, contents_of_channel hconn hch,
    Channel.contents_erase hu, Multiset.cons_add, Multiset.map_cons, Multiset.singleton_add, zero_add]

theorem map_contents (ch : Channel) : (ch.contents c num).map Prod.snd =
    ((ch.unackedMessages.entries.map Prod.snd).map fun u => ({u.message} : Multiset Ref)).sum := by
  rw [Channel.contents, Assoc.gather, ← Multiset.coe_mapAddMonoidHom, map_list_sum, List.map_map, List.map_map]
  rfl

/-- All entries are taken out. --/
theorem carries_clearUnacked (num : UInt16) :
    Carries 0 ((s.unacked c num).map fun u => ({u.message} : Multiset Ref)).sum s (s.clearUnacked c num) := by
  refine .of_add ?_ rfl
  rw [unacked]
  cases hch : s.channel c num with
  | none => exact add_le_add_right (Multiset.map_le_map (contents_modifyChannel_le fun ch hch' => by simp [hch] at hch')) _
  | some ch =>
    obtain ⟨conn, hconn, hch⟩ := Option.bind_eq_some_iff.mp hch
    rw [references, clearUnacked, contents_modifyChannel hconn hch, references, contents_of_channel hconn hch, Multiset.map_add,
      Multiset.map_add, map_contents ch, zero_add]
    exact le_of_eq (congrArg _ (zero_add _))

/-- A message is settled. It is still in the table while `f` puts it somewhere. --/
theorem carries_settle {f : AmqpServer → UnackedMessage → AmqpServer} (hchannel : ∀ u, (f s u).channel c num = s.channel c num)
    (hf : ∀ u, Carries {u.message} 0 s (f s u)) (tag : Nat) : Carries 0 0 s (settle c num f s tag) := by
  rw [settle]
  split
  · exact .refl
  · rename_i u hu
    obtain ⟨ch, hch, hu⟩ := Option.bind_eq_some_iff.mp hu
    refine Carries.cancel (g := {u.message}) ?_
    rw [add_zero]
    exact (hf u).trans (carries_eraseUnacked ((hchannel u).trans hch) hu)

/-- All messages of the table are put somewhere before they are taken out. --/
theorem carries_unacked {f : AmqpServer → UnackedMessage → AmqpServer} (hskel : ∀ s u, (f s u).skeleton = s.skeleton)
    (hf : ∀ s u, Carries {u.message} 0 s (f s u)) : Carries 0 0 s (((s.unacked c num).foldl f s).clearUnacked c num) := by
  have hput := Carries.foldl (P := fun _ => True) (g := fun u => {u.message}) (fun _ _ _ => trivial) (fun s u _ => hf s u)
    (s.unacked c num) s trivial
  have hclear := carries_clearUnacked (c := c) num (s := (s.unacked c num).foldl f s)
  have hsame : ((s.unacked c num).foldl f s).unacked c num = s.unacked c num := by
    rw [unacked, channel_of_skeleton (skeleton_foldl hskel _ _) c num, ← unacked]
  rw [hsame] at hclear
  refine Carries.cancel (g := ((s.unacked c num).map fun u => ({u.message} : Multiset Ref)).sum) ?_
  rw [add_zero]
  exact hput.trans hclear

/-! ### Settlement -/

theorem carries_persistAck (u : UnackedMessage) : Carries h h s (s.persistAck u) :=
  .same (contents_persistAck u) (congrArg Heap.size (heap_persistAck u))

theorem carries_rejectIfThere {requeue : Bool} (u : UnackedMessage) (hs : requeue = false → Narrow s) :
    Carries {u.message} 0 s (s.rejectIfThere requeue u) := by
  rw [rejectIfThere]
  split
  · exact .drop (Multiset.zero_le _)
  · exact carries_reject u.message hs

theorem carries_rejectUnacked {requeue : Bool} (u : UnackedMessage) (hs : Narrow s) :
    Carries {u.message} 0 s (rejectUnacked requeue s u) := by
  rw [rejectUnacked]
  split
  · exact carries_rejectIfThere u fun _ => hs
  · exact (carries_persistAck u).trans (carries_rejectIfThere u fun _ => hs.congr (.persistAck u))

theorem carries_requeue (s : AmqpServer) (u : UnackedMessage) : Carries {u.message} 0 s (s.rejectIfThere true u) :=
  carries_rejectIfThere u nofun

theorem carries_requeueUnackedMessages : Carries 0 0 s (s.requeueUnackedMessages c num) := by
  refine carries_unacked (fun s u => (skeleton_rejectIfThere true u).trans (skeleton_releaseCredit u)) fun s u => ?_
  have hcredit : Carries {u.message} {u.message} s (s.releaseCredit u) :=
    .same (contents_releaseCredit u) (congrArg Heap.size (heap_releaseCredit u))
  exact hcredit.trans (carries_requeue _ u)

/-! ### The end of channels and connections -/

theorem carries_foldl {α : Type} {f : AmqpServer → α → AmqpServer} (hf : ∀ s a, Carries 0 0 s (f s a)) (l : List α)
    (s : AmqpServer) : Carries 0 0 s (l.foldl f s) :=
  .foldl_of (P := fun _ => True) (fun _ _ _ => trivial) (fun s a _ => hf s a) l s trivial

theorem carries_closeChannel (s : AmqpServer) (num : UInt16) : Carries 0 0 s (s.closeChannel c num) := by
  have hclosed : Carries 0 0 s (s.modifyChannel c num fun ch => { ch with isOpen := false }) := .move (.setClosed num) (by decide)
  rw [closeChannel, removeAllConsumers]
  split
  · exact hclosed
  · have hremoved := carries_foldl (f := fun s (e : Bytes × Ref) => s.removeConsumer (s.consumer e.2).queue_name e.1)
      fun s e => .move (c := c) (.removeConsumer ..) (by decide)
    have hempty : ∀ s₁ : AmqpServer, Carries 0 0 s₁ (s₁.modifyChannel c num fun ch => { ch with consumers := ∅ }) :=
      fun s₁ => .move (.unmapConsumers num) (by decide)
    exact hclosed.trans ((hremoved _ _).trans ((hempty _).trans carries_requeueUnackedMessages))

theorem carries_cleanupChannel : Carries 0 0 s (s.cleanupChannel c num) := by
  rw [cleanupChannel]
  split
  · exact .refl
  · exact (carries_closeChannel s num).trans (.move (.dropChannel num) (by decide))

theorem carries_shutdown (hv : Valid s) : Carries 0 0 s (s.shutdown c) := by
  have hclean : ∀ s₁ : AmqpServer, Carries 0 0 s₁ (s₁.cleanupAllChannels c) := by
    intro s₁
    rw [cleanupAllChannels]
    split
    · exact .refl
    · exact (carries_foldl carries_closeChannel _ s₁).trans (.move .dropChannels (by decide))
  have hshut : Does c (.handshake :: closeKinds) s
      ((s.modifyConnection c fun conn => { conn with state := .CLOSED, reading := false }).cleanupAllChannels c) :=
    ((Does.of .shut).trans does_cleanupAllChannels).mono (by decide)
  rw [shutdown]
  split
  · exact .refl
  · split
    · exact .refl
    · have hfirst : Carries 0 0 s (s.modifyConnection c fun conn => { conn with state := .CLOSED, reading := false }) :=
        .move .shut (by decide)
      exact (hfirst.trans (hclean _)).trans (.does does_removeConnectionQueues ((hshut.moves hv).valid hv) (by decide))

/-! ### Deliveries -/

/-- A message in hand is held for its ack, or it is gone. --/
theorem carries_deliverMessage (ch : Channel) (t : DeliverTask) : Carries {t.msg} 0 s (s.deliverMessage c num ch t) := by
  have hsent : ∀ (s₁ : AmqpServer) args, Carries 0 0 s₁
      (((s₁.takeTag c num).sendMethodFrame c num class_id.BASIC basic_method.DELIVER args).sendContentFrames c num
        class_id.BASIC t.props t.body) := fun s₁ args =>
    (carries_takeTag.trans (carries_sendMethodFrame ..)).trans (carries_sendContentFrames ..)
  have hgone : Carries {t.msg} 0 s s := .drop (Multiset.zero_le _)
  rw [deliverMessage]
  refine Carries.trans ?_ (hsent _ _)
  split
  · exact hgone
  · split
    · exact hgone.trans (.same rfl rfl)
    · rename_i k _ _
      exact carries_hold { message := t.msg, queue_name := t.queue, consumer := some k }

theorem carries_runTask : Carries 0 0 s (s.runTask c) := by
  rw [runTask]
  cases hconn : s.connection c with
  | none => exact .refl
  | some conn =>
    rw [Option.map_some]
    cases hstrand : conn.strand with
    | nil => exact .refl
    | cons t rest =>
      have hpop : Carries 0 {t.msg} s (s.modifyConnection c fun conn => { conn with strand := rest }) := by
        refine .of_add ?_ rfl
        rw [references, contents_modifyConnection hconn, references, contents_of_connection hconn, Connection.contents,
          Connection.contents, hstrand, ← Multiset.cons_coe, Multiset.map_cons, Multiset.cons_add, Multiset.cons_add,
          Multiset.map_cons, Multiset.singleton_add, zero_add]
      dsimp only
      split
      · exact hpop.trans (.drop (Multiset.zero_le _))
      · exact hpop.trans (carries_deliverMessage ..)

theorem carries_handGet (ch : Channel) (queue : Bytes) (noAck : Bool) (r : Ref) :
    Carries {r} 0 s (s.handGet c num ch queue noAck r) := by
  have hsent : ∀ s₁ : AmqpServer, Carries 0 0 s₁ ((s₁.takeTag c num).sendGetOk c num queue ch.nextDeliveryTag (s.message r)) :=
    fun s₁ => (carries_takeTag.trans (carries_sendMethodFrame ..)).trans (carries_sendContentFrames ..)
  rw [handGet]
  split
  · have hgone : Carries {r} 0 s s := .drop (Multiset.zero_le _)
    have hremoved : Carries 0 0 s (s.record [.removed (s.origin r) queue]) := .same rfl rfl
    exact (hgone.trans hremoved).trans (hsent _)
  · exact (carries_hold { message := r, queue_name := queue, consumer := none }).trans (hsent _)

theorem carries_handleBasicGet (hs : Narrow s) (buf : Buffer) : Carries 0 0 s (outcome (s.handleBasicGet c num buf)) := by
  refine outcome_withArgs .refl ?_
  rintro ⟨queue, bits⟩
  have hget := carries_get queue hs
  dsimp only
  split
  · exact carries_sendMethodFrame ..
  · exact .refl
  · split
    · rename_i heq
      rw [heq] at hget
      exact hget.trans (carries_sendMethodFrame ..)
    · rename_i heq
      rw [heq] at hget
      exact hget.trans (carries_handGet ..)

theorem contents_register (k : Consumer) (counter : Nat) : (s.register c num k counter).contents = s.contents := by
  rw [register, contents_modifyChannel_eq]
  · rfl
  · exact fun _ => rfl

theorem carries_consume (ch : Channel) (queue tag : Bytes) (bits : UInt8) :
    Carries 0 0 s (s.consume c num ch queue tag bits) := by
  have hadd : ∀ (s₁ : AmqpServer) k, Carries 0 0 s₁ (s₁.addConsumer queue k) := by
    intro s₁ k
    have hattach : Carries 0 0 s₁ (s₁.attach queue k) := .same (contents_modifyQueue_eq fun _ => rfl) rfl
    exact hattach.trans (carries_dispatchLocked queue)
  have hregister : ∀ k counter, Carries 0 0 s (s.register c num k counter) := fun k counter =>
    .same (contents_register k counter) rfl
  rw [consume]
  split
  · exact (hregister _ _).trans (hadd _ _)
  · exact ((hregister _ _).trans (carries_sendMethodFrame ..)).trans (hadd _ _)

theorem carries_handleBasicConsume (buf : Buffer) : Carries 0 0 s (outcome (s.handleBasicConsume c num buf)) := by
  refine outcome_withArgs .refl ?_
  rintro ⟨queue, tag, bits⟩
  dsimp only
  split
  · exact carries_sendMethodFrame ..
  · exact .refl
  · exact carries_consume ..

/-! ### Publishing -/

theorem fresh_of_alloc (hheap : s'.heap.size = s.heap.size + 1) (r : Nat) : fresh s s' r = if r = s.heap.size then 1 else 0 := by
  unfold fresh
  split_ifs <;> omega

/-- A new object is in hand. --/
theorem carries_newMessage (m : Message) : Carries 0 {s.heap.size} s (s.newMessage m) := by
  refine ⟨Nat.le_succ _, fun r => ?_⟩
  rw [fresh_of_alloc rfl, Multiset.count_singleton, Multiset.count_zero]
  change _ + s.references.count r ≤ _
  omega

theorem carries_storeMessage (r : Ref) : Carries h h s (s.storeMessage name r) :=
  .same (contents_storeMessage r) (heap_storeMessage name r)

theorem SameTopology.publishTo (several : Bool) (msg : Ref) (qname : Bytes) : SameTopology s (publishTo several msg s qname) := by
  obtain ⟨s₁, r, hs₁, heq⟩ := publishTo_cases several msg s qname
  have h₁ : SameTopology s s₁ := by
    rcases hs₁ with ⟨-, rfl, -⟩ | ⟨-, rfl, -⟩
    · exact of_eq rfl rfl
    · exact refl
  rcases heq with heq | heq
  · rw [heq]
    exact h₁.trans (of_skeleton (skeleton_deliverToQueue ..))
  · rw [heq]
    exact (h₁.trans (storeMessage ..)).trans (of_skeleton (skeleton_deliverToQueue ..))

/-- The message goes to one queue, or a copy of it does. --/
theorem carries_publishTo (several : Bool) (msg : Ref) (hs : Narrow s) (qname : Bytes) :
    Carries (if several then 0 else {msg}) 0 s (publishTo several msg s qname) := by
  obtain ⟨s₁, r, hs₁, heq⟩ := publishTo_cases several msg s qname
  have h₁ : Carries (if several then 0 else {msg}) {r} s s₁ ∧ Narrow s₁ := by
    rcases hs₁ with ⟨rfl, rfl, rfl⟩ | ⟨rfl, rfl, rfl⟩
    · exact ⟨carries_newMessage _, hs.of_skeleton (skeleton_newMessage _)⟩
    · exact ⟨.refl, hs⟩
  rcases heq with heq | heq
  · rw [heq]
    exact h₁.1.trans (carries_deliverToQueue r h₁.2)
  · rw [heq]
    exact (h₁.1.trans (carries_storeMessage r)).trans (carries_deliverToQueue r (h₁.2.congr (.storeMessage ..)))

theorem carries_publishAll (msg : Ref) (queues : List Bytes) (hs : Narrow s) :
    Carries {msg} 0 s (queues.foldl (publishTo (decide (1 < queues.length)) msg) s) := by
  by_cases hseveral : 1 < queues.length
  · rw [decide_eq_true hseveral]
    refine (Carries.drop (Multiset.zero_le _)).trans (.foldl_of (P := Narrow) ?_ ?_ queues s hs)
    · exact fun s qname hs => hs.congr (.publishTo true msg qname)
    · exact fun s qname hs => carries_publishTo true msg hs qname
  · rw [decide_eq_false hseveral]
    match queues, hseveral with
    | [], _ => exact .drop (Multiset.zero_le _)
    | [qname], _ => exact carries_publishTo false msg hs qname
    | _ :: _ :: _, hseveral => exact absurd (by simp) hseveral

theorem carries_publish (p : PendingPublish) (hs : Narrow s) : Carries 0 0 s (s.publish c num p) := by
  have hend : ∀ s₁ : AmqpServer, Carries 0 0 s₁ ((s₁.sendConfirm c num).setPending c num none) :=
    fun s₁ => carries_sendConfirm.trans (carries_setPending none)
  rw [publish]
  refine ((carries_newMessage (messageOf c p)).trans ?_).trans (hend _)
  split
  · exact (Carries.drop (Multiset.zero_le _)).trans ((carries_sendMethodFrame ..).trans (carries_sendContentFrames ..))
  · exact carries_publishAll _ _ (hs.of_skeleton (skeleton_newMessage _))

theorem Narrow.setPending (hs : Narrow s) (p : Option PendingPublish) : Narrow (s.setPending c num p) :=
  hs.congr (.of_eq rfl rfl)

theorem carries_handleContentBody (data : Bytes) (hs : Narrow s) : Carries 0 0 s (s.handleContentBody c num data) := by
  rw [handleContentBody]
  split
  · exact .refl
  · dsimp only
    split
    · exact (carries_setPending _).trans (carries_publish _ (hs.setPending _))
    · exact carries_setPending _

theorem carries_handleContentHeader (buf : Buffer) (hs : Narrow s) :
    Carries 0 0 s (outcome (s.handleContentHeader c num buf)) := by
  rw [handleContentHeader]
  split
  · exact .refl
  · split
    · exact .refl
    · dsimp only
      split
      · exact (carries_setPending none).trans (carries_sendMethodFrame ..)
      · split
        · exact carries_setPending _
        · dsimp only [outcome]
          split
          · exact (carries_setPending _).trans (carries_handleContentBody [] (hs.setPending _))
          · exact carries_setPending _

/-! ### Events -/

theorem SameTopology.rejectUnacked (requeue : Bool) (u : UnackedMessage) : SameTopology s (rejectUnacked requeue s u) := by
  rw [AmqpServer.rejectUnacked]
  refine trans ?_ (of_skeleton (skeleton_rejectIfThere requeue u))
  split
  · exact refl
  · exact persistAck u

theorem SameTopology.settle {f : AmqpServer → UnackedMessage → AmqpServer} (hf : ∀ u, SameTopology s (f s u)) (tag : Nat) :
    SameTopology s (settle c num f s tag) := by
  rw [AmqpServer.settle]
  split
  · exact refl
  · exact (hf _).trans (of_eq rfl rfl)

theorem carries_settleAll (requeue : Bool) (tags : List Nat) (hs : Narrow s) :
    Carries 0 0 s (tags.foldl (settle c num (rejectUnacked requeue)) s) := by
  refine .foldl_of (P := Narrow) (fun s tag hs => ?_) (fun s tag hs => ?_) tags s hs
  · exact hs.congr (.settle (.rejectUnacked requeue) tag)
  · exact carries_settle (channel_rejectUnacked requeue s) (fun u => carries_rejectUnacked u hs) tag

theorem carries_handleBasicAck (buf : Buffer) : Carries 0 0 s (outcome (s.handleBasicAck c num buf)) := by
  refine outcome_withArgs .refl fun _ => carries_foldl (fun _ tag => carries_settle channel_persistAck (fun u => ?_) tag) _ s
  exact (Carries.drop (Multiset.zero_le _)).trans (carries_persistAck u)

theorem carries_handleBasicRecover (buf : Buffer) : Carries 0 0 s (outcome (s.handleBasicRecover c num buf)) := by
  refine outcome_withArgs .refl fun bits => Carries.trans ?_ (carries_sendMethodFrame ..)
  split
  · exact carries_unacked (fun _ u => skeleton_rejectIfThere true u) carries_requeue
  · exact .move (.clearUnacked num) (by decide)

theorem carries_handleMethod (hv : Valid s) (hs : Narrow s) (classId methodId : UInt16) (buf : Buffer) :
    Carries 0 0 s (outcome (s.handleMethod c num classId methodId buf)) := by
  refine Handlers.handleMethod (P := fun _ _ s' => Carries 0 0 s s') ?_ classId methodId buf
  constructor
  case exchangeDeclare => exact fun buf => .does (does_handleExchangeDeclare buf) hv (by decide)
  case exchangeDelete => exact fun buf => .does (does_handleExchangeDelete buf) hv (by decide)
  case queueDeclare => exact fun buf => .does (does_handleQueueDeclare buf) hv (by decide)
  case queueBind => exact fun buf => .does (does_handleQueueBind buf) hv (by decide)
  case queueUnbind => exact fun buf => .does (does_handleQueueUnbind buf) hv (by decide)
  case queuePurge => exact fun buf => .does (does_handleQueuePurge buf) hv (by decide)
  case queueDelete => exact fun buf => .does (does_handleQueueDelete buf) hv (by decide)
  case basicQos => exact fun buf => .does (does_handleBasicQos buf) hv (by decide)
  case basicConsume => exact carries_handleBasicConsume
  case basicCancel => exact fun buf => .does (does_handleBasicCancel buf) hv (by decide)
  case basicPublish => exact fun buf => .does (does_handleBasicPublish buf) hv (by decide)
  case basicGet => exact carries_handleBasicGet hs
  case basicAck => exact carries_handleBasicAck
  case basicReject =>
    exact fun buf => outcome_withArgs .refl fun args => carries_settleAll (hasBit args.2 0x01) [args.1.toNat] hs
  case basicRecover => exact carries_handleBasicRecover
  case basicRecoverAsync => exact carries_handleBasicRecover
  case basicNack => exact fun buf => outcome_withArgs .refl fun _ => carries_settleAll _ _ hs
  case confirmSelect => exact fun buf => .does (does_handleConfirmSelect buf) hv (by decide)
  case tx => exact fun _ okId => .does (does_handleTx okId) hv (by decide)
  case notImplemented => exact fun _ _ => carries_sendMethodFrame ..

theorem carries_handleConnectionMethod (hv : Valid s) (methodId : UInt16) (buf : Buffer) :
    Carries 0 0 s (outcome (s.handleConnectionMethod c methodId buf)) := by
  have hsent : ∀ args, Valid (s.sendMethodFrame c 0 class_id.CONNECTION connection_method.CLOSE_OK args) := fun args =>
    ((does_sendMethodFrame (c := c) (k := .output) _ _ _ rfl).moves hv).valid hv
  have hclose : Carries 0 0 s (outcome (s.handleConnectionClose c buf)) :=
    outcome_withArgs .refl fun _ => (carries_sendMethodFrame ..).trans (carries_shutdown (hsent _))
  rw [handleConnectionMethod]
  refine outcome_ite (.does (does_handleStartOk buf) hv (by decide)) (outcome_ite (.does (does_handleTuneOk buf) hv (by decide))
    (outcome_ite (.does (does_handleConnectionOpen buf) hv (by decide)) (outcome_ite hclose (outcome_ite (carries_shutdown hv) ?_))))
  exact .does (does_sendConnectionClose ..) hv (by decide)

theorem carries_handleMethodFrame (hv : Valid s) (hs : Narrow s) (buf : Buffer) :
    Carries 0 0 s (outcome (s.handleMethodFrame c num buf)) := by
  rw [handleMethodFrame]
  split
  · exact .refl
  · refine outcome_ite (outcome_ite ?_ ?_) (outcome_ite ?_ (outcome_ite ?_ (outcome_ite ?_ (outcome_ite ?_ ?_))))
    · exact .does (does_sendConnectionClose ..) hv (by decide)
    · exact carries_handleConnectionMethod hv ..
    · exact .does (does_handleChannelOpen _) hv (by decide)
    · exact outcome_withArgs .refl fun _ => carries_cleanupChannel.trans (carries_sendMethodFrame ..)
    · exact carries_cleanupChannel
    · exact .does (does_handleChannelFlow _) hv (by decide)
    · rw [handleOnChannel]
      split
      · exact .does (does_sendConnectionClose ..) hv (by decide)
      · exact carries_handleMethod hv hs ..

theorem carries_handleFrame (hv : Valid s) (hs : Narrow s) (frame : Frame) : Carries 0 0 s (outcome (s.handleFrame c frame)) := by
  rw [handleFrame]
  refine outcome_ite ?_ (outcome_ite (carries_handleMethodFrame hv hs _) (outcome_ite ?_ (outcome_ite ?_ (outcome_ite .refl ?_))))
  · rw [handleClosing]
    split
    · exact .refl
    · dsimp only [outcome]
      split
      · exact carries_shutdown hv
      · exact .refl
  · split
    · exact .refl
    · exact carries_handleContentHeader _ hs
  · split
    · exact .refl
    · exact carries_handleContentBody _ hs
  · exact .does (does_sendConnectionClose ..) hv (by decide)

theorem carries_stopReading (text : Bytes) : Carries 0 0 s (s.stopReading c text) := by
  have hstop : ∀ s₁ : AmqpServer, Carries 0 0 s₁ (s₁.modifyConnection c fun conn => { conn with reading := false }) :=
    fun s₁ => .same (contents_modifyConnection_eq fun _ _ => rfl) rfl
  have hclosing : Carries 0 0 s (s.modifyConnection c fun conn => { conn with state := .CLOSING }) :=
    .same (contents_modifyConnection_eq fun _ _ => rfl) rfl
  rw [stopReading, sendConnectionClose]
  refine Carries.trans ?_ (hstop _)
  split
  · exact .refl
  · split
    · exact .refl
    · exact hclosing.trans (carries_sendMethodFrame ..)

theorem carries_receiveProtocolHeader (hv : Valid s) (header : Bytes) : Carries 0 0 s (s.receiveProtocolHeader c header) := by
  have hheader : Move c .output s (s.send c .protocolHeader) := .send .protocolHeader
  have hstart : Carries 0 0 s (s.modifyConnection c fun conn => { conn with state := .AWAITING_START_OK }) :=
    .same (contents_modifyConnection_eq fun _ _ => rfl) rfl
  rw [receiveProtocolHeader]
  split
  · exact hstart.trans (carries_sendMethodFrame ..)
  · exact (Carries.move hheader (by decide)).trans (carries_shutdown (hv.move hheader))

/-- Every event but a restart. --/
theorem carries_handle (hv : Valid s) (hs : Narrow s) {e : Event} (he : e ≠ .restart) : Carries 0 0 s (s.handle e) := by
  cases e with
  | accept => exact .move (c := 0) .accept (by decide)
  | protocolHeader c header =>
    rw [handle]
    split
    · exact .refl
    · split
      · exact carries_receiveProtocolHeader hv header
      · exact .refl
  | frame c frame frameEnd =>
    rcases handle_frame_cases c s frame frameEnd with ⟨-, heq | ⟨text, heq⟩⟩ | ⟨hserved, heq | ⟨s₁, text, herror, heq⟩⟩
    · rw [heq]
      exact .refl
    · rw [heq]
      exact carries_stopReading text
    · have hframe := carries_handleFrame (c := c) hv hs frame
      rwa [heq] at hframe
    · have hframe := carries_handleFrame (c := c) hv hs frame
      rw [herror] at hframe
      rw [heq]
      exact hframe.trans (carries_stopReading text)
  | runTask c => exact carries_runTask
  | disconnect c => exact carries_shutdown hv
  | tick => exact carries_tick hs
  | compact => exact .move (c := 0) .compact (by decide)
  | restart => exact absurd rfl he
  | reorderQueues order => exact .move (c := 0) (.reorderQueues order) (by decide)
  | reorderExchanges order => exact .move (c := 0) (.reorderExchanges order) (by decide)
  | reorderChannels c order => exact .move (c := c) (.reorderChannels order) (by decide)
  | reorderConsumers c num order => exact .move (c := c) (.reorderConsumers num order) (by decide)
  | reorderUnacked c num order => exact .move (c := c) (.reorderUnacked num order) (by decide)

/-! ### Runs -/

theorem lt_of_mem_contents (hv : Valid s) {p : Place} {r : Ref} (hr : (p, r) ∈ s.contents) : r < s.heap.size := by
  rw [contents, Multiset.mem_add] at hr
  rcases hr with hr | hr
  · obtain ⟨name, q, hq, hr⟩ := Assoc.mem_gather.mp hr
    obtain ⟨_, hmem, heq⟩ := Multiset.mem_map.mp hr
    obtain ⟨-, rfl⟩ := Prod.mk.inj heq
    exact (hv.queue hq).messages _ hmem
  · obtain ⟨c, conn, hconn, hr⟩ := Assoc.mem_gather.mp hr
    rw [Connection.contents, Multiset.mem_add] at hr
    rcases hr with hr | hr
    · obtain ⟨t, hmem, heq⟩ := Multiset.mem_map.mp hr
      obtain ⟨-, rfl⟩ := Prod.mk.inj heq
      exact (hv.connections c conn hconn).2.strand t hmem
    · obtain ⟨num, ch, hch, hr⟩ := Assoc.mem_gather.mp hr
      obtain ⟨tag, u, hu, hr⟩ := Assoc.mem_gather.mp hr
      obtain ⟨-, rfl⟩ := Prod.mk.inj (Multiset.mem_singleton.mp hr)
      have hchannel : s.channel c num = some ch := Option.bind_eq_some_iff.mpr ⟨conn, hconn, hch⟩
      exact lt_of_holdings hv (mem_holdings.mpr ⟨ch, hchannel, hu⟩)

/-- A new object is referred to once, and the others as before. --/
theorem Carries.nodup (hc : Carries 0 0 s s') (hv : Valid s) (hs : s.references.Nodup) : s'.references.Nodup := by
  rw [Multiset.nodup_iff_count_le_one] at hs ⊢
  intro r
  have hcount := hc.count r
  rw [Multiset.count_zero] at hcount
  by_cases hr : r < s.heap.size
  · have hfresh : fresh s s' r = 0 := if_neg fun h => absurd hr (not_lt.mpr h.1)
    have hone := hs r
    omega
  · have hnone : s.references.count r = 0 := by
      rw [Multiset.count_eq_zero]
      intro hmem
      obtain ⟨⟨p, _⟩, hp, rfl⟩ := Multiset.mem_map.mp hmem
      exact hr (lt_of_mem_contents hv hp)
    have hfresh : fresh s s' r ≤ 1 := by
      unfold fresh
      split <;> omega
    omega

variable {store : Option MessageStore} {userStore : UserStore} {clock : Nat → Int} {readings : Nat}

theorem carries_recoverMessage (s : AmqpServer) (sm : StoredMessage) (hs : Narrow s) : Carries 0 0 s (s.recoverMessage sm) := by
  rw [recoverMessage]
  split
  · exact .refl
  · have hnew := carries_newMessage (s := s) (recoveredMessage sm)
    have hrecord : ∀ s₁ : AmqpServer, Carries {s.heap.size} {s.heap.size} s₁ (s₁.record [.stored s.heap.size sm.queue_name sm.id]) :=
      fun _ => .same rfl rfl
    exact (hnew.trans (hrecord _)).trans (carries_deliverToQueue _ (hs.of_skeleton rfl))

/-- Each message of the log becomes an object in one queue. --/
theorem nodup_start : (start store userStore clock readings).references.Nodup := by
  have hblank : ({ store, userStore, clock, readings, exchanges := defaultExchanges } : AmqpServer).references = 0 := rfl
  cases store with
  | none => exact hblank ▸ Multiset.nodup_zero
  | some st =>
    have hnarrow : Narrow (start (some st) userStore clock readings) := by
      intro name q hq hdlx
      exact absurd (recoveredFrom_start.1.messages name q hq).2.1 hdlx
    have hv : Valid { store := some st.recover.2, userStore, clock, readings, exchanges := defaultExchanges } := valid_blank
    have htopology := does_recoverTopology (c := 0) st
      { store := some st.recover.2, userStore, clock, readings, exchanges := defaultExchanges }
    rw [start, recoverFromStore] at hnarrow ⊢
    dsimp only at hnarrow ⊢
    generalize st.recover.1.bindings.foldl recoverBinding _ = s₃ at *
    have hempty : Carries 0 0 _ s₃ := .does htopology hv (by decide)
    have hnarrow₃ : Narrow s₃ := hnarrow.of_skeleton (skeleton_foldl skeleton_recoverMessage st.recover.1.messages s₃).symm
    have hfold := Carries.foldl_of (fun s sm hs => hs.of_skeleton (skeleton_recoverMessage s sm)) carries_recoverMessage
      st.recover.1.messages s₃ hnarrow₃
    exact (hempty.trans hfold).nodup hv (hblank ▸ Multiset.nodup_zero)

/-- As long as no dead letter can be routed to two queues, no message object is referred to from two places: what is done to
    the message at one place is not seen at another. --/
theorem unshared (store : Option MessageStore) (userStore : UserStore) (clock : Nat → Int) (readings : Nat) (events : List Event)
    (hnarrow : ∀ before e after, events = before ++ e :: after → Narrow ((start store userStore clock readings).run before)) :
    ((start store userStore clock readings).run events).references.Nodup ∧
    ∀ p r p' r', {(p, r), (p', r')} ≤ ((start store userStore clock readings).run events).contents → ∀ f,
      (((start store userStore clock readings).run events).modifyMessage r f).message r' =
        ((start store userStore clock readings).run events).message r' := by
  have hnodup : ((start store userStore clock readings).run events).references.Nodup := by
    induction events using List.reverseRecOn with
    | nil => exact nodup_start
    | append_singleton events e ih =>
      have hv : Valid ((start store userStore clock readings).run events) := valid_run valid_start events
      have hbefore := ih fun before e' after heq => hnarrow before e' (after ++ [e]) (by rw [heq, List.append_assoc, List.cons_append])
      rw [run, List.foldl_concat, ← run]
      by_cases he : e = .restart
      · rw [he]
        exact nodup_start
      · exact (carries_handle hv (hnarrow events e [] rfl) he).nodup hv hbefore
  refine ⟨hnodup, fun p r p' r' hpair f => ?_⟩
  have hdistinct := Multiset.nodup_of_le (Multiset.map_le_map (f := Prod.snd) hpair) hnodup
  have hne : r' ≠ r := by
    rintro rfl
    simp at hdistinct
  rw [message, modifyMessage, Heap.cell_modify_of_ne hne, ← message]

/-- Whether every dead-letter exchange has one binding at most. --/
def oneBinding (s : AmqpServer) : Bool :=
  s.queues.entries.all fun e => e.2.dlxExchange = [] || ((s.exchanges.lookup e.2.dlxExchange).all fun ex => ex.bindings.length ≤ 1)

theorem eraseSeen_sublist (seen l : List Bytes) : (eraseSeen seen l).Sublist l := by
  induction l generalizing seen with
  | nil => exact .slnil
  | cons n l ih =>
    rw [eraseSeen]
    split
    · exact (ih seen).cons n
    · exact (ih (n :: seen)).cons_cons n

theorem narrow_of_oneBinding (h : s.oneBinding = true) : Narrow s := by
  intro name q hq hdlx hfn rk headers hrk
  have hone := List.all_eq_true.mp h _ (Assoc.mem_entries.mpr hq)
  rw [routeMessage]
  cases hex : s.exchanges.lookup q.dlxExchange with
  | none => exact Nat.zero_le _
  | some ex =>
    have hlength : ex.bindings.length ≤ 1 := by simpa [hdlx, hex] using hone
    calc _ ≤ (eraseSeen [] (ex.route rk headers)).length := List.length_filter_le _ _
      _ ≤ (ex.route rk headers).length := (eraseSeen_sublist _ _).length_le
      _ ≤ ex.bindings.length := by
        rw [Exchange.route, List.length_map]
        exact List.length_filter_le _ _
      _ ≤ 1 := hlength

/-- A message goes to a queue, is got from it and is rejected. The dead-letter exchange of the queue has the bound ones. --/
def letterRun (bound : List String) : List Event :=
  Client.connect 1 ++ [Client.openChannel 1 1,
    Client.assertQueue 1 1 (ascii "q") false false false false [(ascii "x-dead-letter-exchange", .longString (ascii "amq.fanout"))],
    Client.assertQueue 1 1 (ascii "a") false false false false [], Client.assertQueue 1 1 (ascii "b") false false false false []] ++
  bound.map (fun name => Client.bindQueue 1 1 (ascii name) (ascii "amq.fanout") [] []) ++
  Client.sendToQueue 1 1 (ascii "q") (ascii "m") {} ++ [Client.get 1 1 (ascii "q") false, Client.reject 1 1 1 false]

/-- A dead letter in one queue. --/
theorem unshared_letterRun :
    (freshServer.run (letterRun ["a"])).references.Nodup ∧
    ∀ p r p' r', {(p, r), (p', r')} ≤ (freshServer.run (letterRun ["a"])).contents → ∀ f,
      ((freshServer.run (letterRun ["a"])).modifyMessage r f).message r' = (freshServer.run (letterRun ["a"])).message r' := by
  refine unshared (some {}) {} (fun _ => 0) 0 (letterRun ["a"]) fun before e after heq => narrow_of_oneBinding ?_
  have hall : ∀ n ≤ (letterRun ["a"]).length, (freshServer.run ((letterRun ["a"]).take n)).oneBinding = true := by
    decide +kernel
  have hbefore := hall before.length (by rw [heq, List.length_append]; omega)
  rwa [heq, List.take_left] at hbefore

/-- A dead letter in two queues is one object. It is got from the first queue and put back there: the second queue has it as
    redelivered, too. --/
theorem shared_letterRun :
    let s := freshServer.run (letterRun ["a", "b"])
    let s' := s.run [Client.get 1 1 (ascii "a") false, Client.reject 1 1 2 true]
    ¬s.references.Nodup ∧
      (s.queue (ascii "a")).map MessageQueue.messages = some [0] ∧ (s.queue (ascii "b")).map MessageQueue.messages = some [0] ∧
      (s'.queue (ascii "b")).map MessageQueue.messages = some [0] ∧
      (s.message 0).redelivered = false ∧ (s'.message 0).redelivered = true := by
  decide +kernel

end AmqpServer
end Broko.Broker
