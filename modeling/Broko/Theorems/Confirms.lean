import Mathlib.Data.List.Infix
import Broko.Broker.Client
import Broko.Theorems.Runs
import Broko.Theorems.Sends

/-! Publisher confirms. Only a complete publish and `confirm.select` touch the counter of a channel, and only a complete
    publish writes an ack. -/

namespace Broko.Broker
open Amqp Storage MessageStore

/-- What numbers the acks of a channel, and the object that it is. --/
def Channel.confirms (ch : Channel) : Ref × Bool × Nat := (ch.ref, ch.confirmMode, ch.nextConfirmSeqNo)

namespace AmqpServer

variable {c c' : Nat} {num num' : UInt16} {s s' : AmqpServer}

/-! ### Acks -/

/-- A method of the given class and method on the channel. --/
def isMethod (num : UInt16) (ids : UInt16 × UInt16) : Outgoing → Bool
  | .frame f => f.channel = num ∧ methodIds f = some ids
  | .protocolHeader => false

/-- The methods of one sort that were written on a channel. --/
def methodsOn (num : UInt16) (ids : UInt16 × UInt16) (outs : List Outgoing) : List Outgoing := outs.filter (isMethod num ids)

/-- The ack of a publish. --/
def ackFrame (num : UInt16) (seqNo : Nat) : Outgoing :=
  .frame (methodFrame num class_id.BASIC basic_method.ACK (writeUint64 (UInt64.ofNat seqNo) ++ writeUint8 0))

/-- The counter of the channel, and the acks that its client was sent. --/
def confirmView (c : Nat) (num : UInt16) (s : AmqpServer) : Option (Option (Ref × Bool × Nat) × List Outgoing) :=
  (s.connection c).map fun conn =>
    ((conn.channels.lookup num).map Channel.confirms, methodsOn num (class_id.BASIC, basic_method.ACK) conn.sent)

theorem kind_of_ack {out : Outgoing} (h : isMethod num (class_id.BASIC, basic_method.ACK) out = true) :
    outgoingKind out = .confirm := by
  cases out with
  | protocolHeader => cases h
  | frame f =>
    have hids := (of_decide_eq_true h).2
    rw [outgoingKind, hids]
    rfl

theorem methodsOn_concat_of_not {ids : UInt16 × UInt16} {out : Outgoing} (h : isMethod num ids out = false)
    (outs : List Outgoing) : methodsOn num ids (outs ++ [out]) = methodsOn num ids outs := by
  rw [methodsOn, List.filter_append, List.filter_singleton, h, methodsOn]
  exact List.append_nil _

/-! ### What leaves the counter alone -/

theorem confirmView_congr (h : s'.connections = s.connections) : s'.confirmView c num = s.confirmView c num := by
  rw [confirmView, confirmView, connection, h, connection]

theorem confirmView_of_own (h : s'.own c = s.own c) : s'.confirmView c num = s.confirmView c num := by
  have hmap : ∀ s : AmqpServer, s.confirmView c num = (s.own c).map fun conn =>
      ((conn.channels.lookup num).map Channel.confirms, methodsOn num (class_id.BASIC, basic_method.ACK) conn.sent) := by
    intro s
    rw [confirmView, own, Option.map_map]
    rfl
  rw [hmap, hmap, h]

theorem confirmView_modifyConnection (c' : Nat) {f : Connection → Connection}
    (hchannels : ∀ conn, ((f conn).channels.lookup num).map Channel.confirms = (conn.channels.lookup num).map Channel.confirms)
    (hsent : ∀ conn, methodsOn num (class_id.BASIC, basic_method.ACK) (f conn).sent =
      methodsOn num (class_id.BASIC, basic_method.ACK) conn.sent) :
    (s.modifyConnection c' f).confirmView c num = s.confirmView c num := by
  rw [confirmView, confirmView, connection, AmqpServer.modifyConnection, Assoc.lookup_modify, connection]
  split
  · rename_i h
    rw [h, Option.map_map]
    refine congrArg (fun g => Option.map g (s.connections.lookup c')) (funext fun conn => ?_)
    exact Prod.ext (hchannels conn) (hsent conn)
  · rfl

theorem confirmView_modifyChannel (c' : Nat) (num' : UInt16) {f : Channel → Channel}
    (hf : num' = num → ∀ ch, (f ch).confirms = ch.confirms) :
    (s.modifyChannel c' num' f).confirmView c num = s.confirmView c num := by
  refine confirmView_modifyConnection c' (fun conn => ?_) fun _ => rfl
  dsimp only
  rw [Assoc.lookup_modify]
  split
  · rename_i h
    rw [h]
    cases conn.channels.lookup num' with
    | none => rfl
    | some ch => exact congrArg some (hf h.symm ch)
  · rfl

theorem confirmView_send (c' : Nat) {out : Outgoing} (h : isMethod num (class_id.BASIC, basic_method.ACK) out = false) :
    (s.send c' out).confirmView c num = s.confirmView c num :=
  confirmView_modifyConnection c' (fun _ => rfl) fun conn => methodsOn_concat_of_not h conn.sent

theorem confirmView_move {k : Kind} (hm : Move c' k s s') (hk : k ∉ [Kind.confirm, .openChannel, .closeChannel, .server]) :
    s'.confirmView c num = s.confirmView c num := by
  cases hm with
  | handOver idx => exact confirmView_of_own (own_handOver _ _ _ _)
  | purge name =>
    rw [AmqpServer.purge]
    split <;> exact confirmView_congr rfl
  | store m => exact confirmView_congr (connections_storeMessage ..)
  | oversize m => exact confirmView_congr (connections_storeMessage ..)
  | send out =>
    refine confirmView_send c' (Bool.eq_false_iff.mpr fun h => hk ?_)
    rw [kind_of_ack h]
    decide
  | note num' f hf hn =>
    rcases hn with rfl | ⟨-, hn⟩
    · exact absurd (by decide) hk
    · refine confirmView_modifyChannel c' num' fun _ ch => ?_
      have hframe : (f ch).frame.ref = ch.frame.ref := by rw [hf]
      exact Prod.ext hframe (Prod.ext (hn ch).1 (hn ch).2)
  | pending num' p => exact confirmView_modifyChannel _ _ fun _ _ => rfl
  | handshake f hf =>
    exact confirmView_modifyConnection c' (fun conn => by rw [(hf conn).channels]) fun conn => by rw [(hf conn).sent]
  | hold num' u =>
    have heq : (s.hold c' num' u).takeTag c' num' = s.modifyChannel c' num' _ := modifyChannel_modifyChannel ..
    rw [heq]
    exact confirmView_modifyChannel _ _ fun _ _ => rfl
  | takeTag num' => exact confirmView_modifyChannel _ _ fun _ _ => rfl
  | releaseCredit u => exact confirmView_congr (connections_releaseCredit u)
  | eraseUnacked num' tag => exact confirmView_modifyChannel _ _ fun _ _ => rfl
  | clearUnacked num' => exact confirmView_modifyChannel _ _ fun _ _ => rfl
  | settle u => exact confirmView_congr (connections_persistAck u)
  | mapConsumer num' tag k counter => exact confirmView_modifyChannel _ _ fun _ _ => rfl
  | removeConsumer name tag => exact confirmView_congr (connections_removeConsumer name tag)
  | unmapConsumer num' tag => exact confirmView_modifyChannel _ _ fun _ _ => rfl
  | unmapConsumers num' => exact confirmView_modifyChannel _ _ fun _ _ => rfl
  | removeConsumersByConnection name => exact confirmView_congr (connections_removeConsumersByConnection name c')
  | popTask hc hs => exact confirmView_modifyConnection _ (fun _ => rfl) fun _ => rfl
  | openChannel num => exact absurd (by decide) hk
  | setClosed num => exact absurd (by decide) hk
  | dropChannel num => exact absurd (by decide) hk
  | shut => exact absurd (by decide) hk
  | dropChannels => exact absurd (by decide) hk
  | accept => exact absurd (by decide) hk
  | reorderChannels order => exact absurd (by decide) hk
  | reorderConsumers num order => exact absurd (by decide) hk
  | reorderUnacked num order => exact absurd (by decide) hk
  | _ => exact confirmView_congr rfl

theorem confirmView_does {K : List Kind} (hv : Valid s) (h : Does c' K s s')
    (hK : ∀ k ∈ K, k ∉ [Kind.confirm, .openChannel, .closeChannel, .server]) : s'.confirmView c num = s.confirmView c num := by
  refine (h.moves hv).keeps (P := fun s' => s'.confirmView c num = s.confirmView c num) ?_ rfl
  intro k hk s₁ s₂ hm hs
  exact (confirmView_move hm (hK k hk)).trans hs

/-! ### Methods -/

theorem isMethod_methodFrame (num' classId methodId : UInt16) (args : Bytes) (ids : UInt16 × UInt16) :
    isMethod num ids (.frame (methodFrame num' classId methodId args)) = decide (num' = num ∧ (classId, methodId) = ids) := by
  rw [isMethod, methodIds_methodFrame]
  exact decide_eq_decide.mpr (and_congr Iff.rfl Option.some_inj)

theorem confirmView_sendMethodFrame (num' classId methodId : UInt16) (args : Bytes)
    (h : num' = num → (classId, methodId) ≠ (class_id.BASIC, basic_method.ACK)) :
    (s.sendMethodFrame c' num' classId methodId args).confirmView c num = s.confirmView c num := by
  refine confirmView_send c' ?_
  rw [isMethod_methodFrame]
  exact decide_eq_false fun ⟨hnum, hids⟩ => h hnum hids

theorem confirmView_handleConfirmSelect_of_ne (hne : num' ≠ num) (buf : Buffer) :
    (outcome (s.handleConfirmSelect c' num' buf)).confirmView c num = s.confirmView c num := by
  have hmode : (s.modifyChannel c' num' fun ch => { ch with confirmMode := true, nextConfirmSeqNo := 1 }).confirmView c num =
      s.confirmView c num := confirmView_modifyChannel c' num' fun h => absurd h hne
  refine outcome_withArgs (P := fun s' => s'.confirmView c num = s.confirmView c num) rfl fun bits => ?_
  dsimp only
  split
  · exact hmode
  · exact (confirmView_sendMethodFrame _ _ _ _ fun h => absurd h hne).trans hmode

/-- Every method of a channel but `confirm.select`. --/
theorem confirmView_handleMethod (hv : Valid s) {classId methodId : UInt16}
    (h : (classId, methodId) ≠ (class_id.CONFIRM, confirm_method.SELECT)) (buf : Buffer) :
    (outcome (s.handleMethod c' num' classId methodId buf)).confirmView c num = s.confirmView c num := by
  have hdoes : ∀ {K : List Kind} {s' : AmqpServer} {P : Prop}, Does c' K s s' →
      (∀ k ∈ K, k ∉ [Kind.confirm, .openChannel, .closeChannel, .server]) →
      P ∨ s'.confirmView c num = s.confirmView c num :=
    fun hd hK => .inr (confirmView_does hv hd hK)
  have hall : Handlers (fun classId methodId s' => (classId, methodId) = (class_id.CONFIRM, confirm_method.SELECT) ∨
      s'.confirmView c num = s.confirmView c num) c' num' s := by
    constructor
    case confirmSelect => exact fun buf => .inl rfl
    case exchangeDeclare => exact fun buf => hdoes (does_handleExchangeDeclare buf) (by decide)
    case exchangeDelete => exact fun buf => hdoes (does_handleExchangeDelete buf) (by decide)
    case queueDeclare => exact fun buf => hdoes (does_handleQueueDeclare buf) (by decide)
    case queueBind => exact fun buf => hdoes (does_handleQueueBind buf) (by decide)
    case queueUnbind => exact fun buf => hdoes (does_handleQueueUnbind buf) (by decide)
    case queuePurge => exact fun buf => hdoes (does_handleQueuePurge buf) (by decide)
    case queueDelete => exact fun buf => hdoes (does_handleQueueDelete buf) (by decide)
    case basicQos => exact fun buf => hdoes (does_handleBasicQos buf) (by decide)
    case basicConsume => exact fun buf => hdoes (does_handleBasicConsume buf) (by decide)
    case basicCancel => exact fun buf => hdoes (does_handleBasicCancel buf) (by decide)
    case basicPublish => exact fun buf => hdoes (does_handleBasicPublish buf) (by decide)
    case basicGet => exact fun buf => hdoes (does_handleBasicGet buf) (by decide)
    case basicAck => exact fun buf => hdoes (does_handleBasicAck buf) (by decide)
    case basicReject => exact fun buf => hdoes (does_handleBasicReject buf) (by decide)
    case basicRecover => exact fun buf => hdoes (does_handleBasicRecover buf) (by decide)
    case basicRecoverAsync => exact fun buf => hdoes (does_handleBasicRecover buf) (by decide)
    case basicNack => exact fun buf => hdoes (does_handleBasicNack buf) (by decide)
    case tx => exact fun _ okId => hdoes (does_handleTx okId) (by decide)
    case notImplemented => exact fun _ _ => hdoes (does_sendChannelClose ..) (by decide)
  exact (hall.handleMethod classId methodId buf).resolve_left h

/-! ### Channels and connections -/

/-- The object that the channel is. --/
def refAt (s : AmqpServer) (c : Nat) (num : UInt16) : Option Ref := (s.channel c num).map Channel.ref

theorem refAt_eq : s.refAt c num = (s.confirmView c num).bind fun x => x.1.map Prod.fst := by
  rw [refAt, channel, confirmView]
  cases s.connection c with
  | none => rfl
  | some conn =>
    rw [Option.map_some, Option.bind_some, Option.bind_some, Option.map_map]
    rfl

/-- The counter and the acks are as before, or the channel `r` is not there any more. --/
def SameCount (c : Nat) (num : UInt16) (r : Ref) (s s' : AmqpServer) : Prop :=
  s'.confirmView c num = s.confirmView c num ∨ s'.refAt c num ≠ some r

namespace SameCount
variable {r : Ref}

theorem view {s₁ : AmqpServer} (h : SameCount c num r s s₁) (hview : s'.confirmView c num = s₁.confirmView c num) :
    SameCount c num r s s' := by
  rw [SameCount, hview, refAt_eq, hview, ← refAt_eq]
  exact h

theorem refl : SameCount c num r s s := .inl rfl

theorem sendConnectionClose (hv : Valid s) (replyCode : UInt16) (replyText : Bytes) (classId methodId : UInt16) :
    SameCount c num r s (s.sendConnectionClose c' replyCode replyText classId methodId) :=
  .inl (confirmView_does hv (does_sendConnectionClose ..) (by decide))

theorem stopReading {s₁ : AmqpServer} (h : SameCount c num r s s₁) (hv : Valid s₁) (replyText : Bytes) :
    SameCount c num r s (s₁.stopReading c' replyText) :=
  h.view (confirmView_does hv (does_stopReading _) (by decide))

theorem openChannel (hv : Valid s) (hr : s.refAt c num = some r) (num' : UInt16) : SameCount c num r s (s.openChannel c num') := by
  obtain ⟨ch, hch, rfl⟩ := Option.map_eq_some_iff.mp hr
  have hlookup : (s.openChannel c num').connection c = (s.connection c).map fun conn =>
      { conn with channels := conn.channels.insert num' { ref := s.nextChannel, frameMax := conn.frameMax, isOpen := true } } :=
    Assoc.lookup_modify_self ..
  by_cases hnum : num' = num
  · -- The new channel is another object.
    subst hnum
    right
    rw [refAt, channel, hlookup]
    obtain ⟨conn, hconn, -⟩ := Option.bind_eq_some_iff.mp hch
    rw [hconn, Option.map_some, Option.bind_some, Assoc.lookup_insert_self, Option.map_some]
    intro heq
    have hlt := (hv.channel hch).ref
    exact Nat.ne_of_gt hlt (Option.some.inj heq)
  · left
    rw [confirmView, hlookup, Option.map_map, confirmView]
    refine congrArg (fun g => Option.map g (s.connection c)) (funext fun conn => ?_)
    exact Prod.ext (congrArg (Option.map Channel.confirms) (Assoc.lookup_insert_of_ne (Ne.symm hnum))) rfl

end SameCount

theorem confirmView_closeChannel (hv : Valid s) (num' : UInt16) :
    (s.closeChannel c' num').confirmView c num = s.confirmView c num := by
  have hset : Valid (s.modifyChannel c' num' fun ch => { ch with isOpen := false }) := hv.move (c := c') (.setClosed num')
  rw [closeChannel, confirmView_does hset does_removeAllConsumers (by decide)]
  exact confirmView_modifyChannel c' num' fun _ _ => rfl

theorem refAt_cleanupAllChannels : (s.cleanupAllChannels c).refAt c num = none := by
  rw [cleanupAllChannels, refAt]
  split
  · rename_i hnone
    rw [channel, hnone]
    rfl
  · rw [channel, connection, modifyConnection, Assoc.lookup_modify_self]
    cases (List.foldl (closeChannel c) s _).connections.lookup c <;> rfl

namespace SameCount
variable {r : Ref}

theorem cleanupChannel (hv : Valid s) (num' : UInt16) : SameCount c num r s (s.cleanupChannel c num') := by
  rw [AmqpServer.cleanupChannel]
  split
  · exact refl
  · have hclosed : (s.closeChannel c num').confirmView c num = s.confirmView c num := confirmView_closeChannel hv num'
    by_cases hnum : num' = num
    · subst hnum
      right
      rw [refAt, channel, connection, modifyConnection, Assoc.lookup_modify_self]
      cases (s.closeChannel c num').connections.lookup c with
      | none => exact (Option.some_ne_none r).symm
      | some conn =>
        rw [Option.map_some, Option.bind_some, Assoc.lookup_erase_self]
        exact (Option.some_ne_none r).symm
    · left
      rw [← hclosed]
      refine confirmView_modifyConnection c (fun conn => ?_) fun _ => rfl
      exact congrArg (Option.map Channel.confirms) (Assoc.lookup_erase_of_ne (Ne.symm hnum))

theorem shutdown (hv : Valid s) : SameCount c num r s (s.shutdown c) := by
  rw [AmqpServer.shutdown]
  split
  · exact refl
  · split
    · exact refl
    · have hshut : Valid (s.modifyConnection c fun conn => { conn with state := .CLOSED, reading := false }) :=
        hv.move (c := c) .shut
      have hclean := ((does_cleanupAllChannels (c := c)).moves hshut).valid hshut
      right
      rw [refAt_eq, confirmView_does hclean does_removeConnectionQueues (by decide), ← refAt_eq, refAt_cleanupAllChannels]
      exact (Option.some_ne_none r).symm

end SameCount

/-! ### Publishes and `confirm.select` -/

/-- The event has the server process a `confirm.select` on the channel. --/
def Selects (c : Nat) (num : UInt16) (s : AmqpServer) : Event → Prop
  | .frame c' frame frameEnd =>
    c' = c ∧ frame.channel = num ∧ Served c s frame frameEnd ∧ (s.connection c).map Connection.state ≠ some .CLOSING ∧
      (s.openChannelAt c num).isSome = true ∧ frame.type = FRAME_METHOD ∧
      ∃ args bits rest, readMethodIds (Buffer.ofBytes frame.payload) = .ok ((class_id.CONFIRM, confirm_method.SELECT), args) ∧
        readUint8 args = .ok (bits, rest)
  | _ => False

/-- The publish that the event completes on the channel. --/
def published (c : Nat) (num : UInt16) (s : AmqpServer) : Event → Option PendingPublish
  | .frame c' frame frameEnd =>
    if c' = c ∧ frame.channel = num ∧ Served c s frame frameEnd ∧ (s.openChannelAt c num).isSome = true then
      s.completed c frame
    else none
  | _ => none

theorem published_of_selects {e : Event} (h : Selects c num s e) : published c num s e = none := by
  cases e with
  | frame c' frame frameEnd =>
    obtain ⟨-, -, -, -, -, htype, -⟩ := h
    rw [published]
    split
    · exact completed_of_ne (by rw [htype]; decide) (by rw [htype]; decide)
    · rfl
  | _ => rfl

theorem sound_of_published {e : Event} {p : PendingPublish} (hv : Valid s) (h : published c num s e = some p) : p.Sound := by
  cases e with
  | frame c' frame frameEnd =>
    rw [published] at h
    split at h
    · exact sound_completed hv h
    · cases h
  | _ => cases h

theorem confirmView_setPending (p : Option PendingPublish) :
    (s.setPending c' num' p).confirmView c num = s.confirmView c num :=
  confirmView_modifyChannel c' num' fun _ _ => rfl

theorem confirmView_distribute (hv : Valid s) {p : PendingPublish} (hp : p.Sound) :
    (s.distribute c' num' p).confirmView c num = s.confirmView c num :=
  confirmView_does hv (does_distribute (K := .oversize :: publishKinds) num' (fun _ => List.mem_cons_of_mem _) hp
    (.inl List.mem_cons_self)) (by decide)

theorem confirmView_sendConfirm_of_ne (hne : num' ≠ num) : (s.sendConfirm c' num').confirmView c num = s.confirmView c num := by
  rw [sendConfirm]
  split
  · rfl
  · split
    · rw [confirmView_sendMethodFrame _ _ _ _ fun h => absurd h hne]
      exact confirmView_modifyChannel c' num' fun h => absurd h hne
    · rfl

theorem confirmView_publish_of_ne (hv : Valid s) {p : PendingPublish} (hp : p.Sound) (hne : num' ≠ num) :
    (s.publish c' num' p).confirmView c num = s.confirmView c num := by
  rw [publish_eq, confirmView_setPending, confirmView_sendConfirm_of_ne hne, confirmView_distribute hv hp]

/-- A piece of a body, unless it completes a publish on the channel. --/
theorem confirmView_handleContentBody (hv : Valid s) (data : Bytes)
    (h : num' = num → ((s.channel c' num').bind Channel.pendingPublish).bind (completedBy · data) = none) :
    (s.handleContentBody c' num' data).confirmView c num = s.confirmView c num := by
  cases hp : (s.channel c' num').bind Channel.pendingPublish with
  | none => rw [handleContentBody, hp]
  | some p =>
    rw [hp, Option.bind_some] at h
    cases hc : completedBy p data with
    | some p' =>
      have hne : num' ≠ num := fun heq => by rw [h heq] at hc; cases hc
      have hsound := sound_completedBy (hv.pending hp) hc
      have hset : Valid (s.setPending c' num' (some p')) := ((does_setPending (c := c') hsound).moves hv).valid hv
      rw [handleContentBody_of_completed hp hc, confirmView_publish_of_ne hset hsound hne, confirmView_setPending]
    | none =>
      rw [completedBy] at hc
      rw [handleContentBody, hp]
      dsimp only at hc ⊢
      split
      · rename_i hdone
        rw [if_pos hdone] at hc
        cases hc
      · exact confirmView_setPending _

/-- A content header, unless it completes a publish on the channel. --/
theorem confirmView_handleContentHeader (hv : Valid s) (buf : Buffer)
    (h : num' = num → ((s.channel c' num').bind Channel.pendingPublish).bind (completedByHeader · buf) = none) :
    (outcome (s.handleContentHeader c' num' buf)).confirmView c num = s.confirmView c num := by
  cases hp : (s.channel c' num').bind Channel.pendingPublish with
  | none => rw [handleContentHeader, hp, outcome]
  | some p =>
    rw [hp, Option.bind_some, completedByHeader] at h
    rw [handleContentHeader, hp]
    dsimp only
    cases hread : readContentHeader buf with
    | error e => rfl
    | ok x =>
      obtain ⟨bodySize, buf'⟩ := x
      rw [hread] at h
      dsimp only at h ⊢
      split
      · dsimp only [outcome]
        have hnone : Valid (s.setPending c' num' none) := ((does_clearPending (c := c')).moves hv).valid hv
        rw [confirmView_does hnone (does_sendChannelClose ..) (by decide), confirmView_setPending]
      · cases hdec : BasicProperties.decode buf' with
        | error e => exact confirmView_setPending _
        | ok x =>
          obtain ⟨properties, buf''⟩ := x
          rw [hdec] at h
          dsimp only [outcome] at h ⊢
          split
          · rename_i hzero
            obtain ⟨-, -, -, hwell, -⟩ := BasicProperties.accepts_properties _ _ _ hdec
            have hsound : PendingPublish.Sound { p with bodySize, properties } :=
              ⟨(hv.pending hp).exchange, (hv.pending hp).routing_key, hwell⟩
            have hset : Valid (s.setPending c' num' (some { p with bodySize, properties })) :=
              ((does_setPending (c := c') hsound).moves hv).valid hv
            rw [confirmView_handleContentBody hset, confirmView_setPending]
            intro heq
            have hnone := h heq
            rw [pending_setPending hp, Option.bind_some]
            rwa [if_pos hzero] at hnone
          · exact confirmView_setPending _

/-! ### One event -/

namespace SameCount
variable {r : Ref}

theorem handleConnectionMethod (hv : Valid s) (methodId : UInt16) (buf : Buffer) :
    SameCount c num r s (outcome (s.handleConnectionMethod c methodId buf)) := by
  have hdoes : ∀ {s' : AmqpServer}, Does c [.handshake, .output] s s' → SameCount c num r s s' :=
    fun h => .inl (confirmView_does hv h (by decide))
  have hsent : Does c [.output] s (s.sendMethodFrame c 0 class_id.CONNECTION connection_method.CLOSE_OK []) :=
    does_sendMethodFrame _ _ _ rfl
  have hclose : SameCount c num r s (outcome (s.handleConnectionClose c buf)) := by
    refine outcome_withArgs refl fun _ => ?_
    have hshut : SameCount c num r _ _ := shutdown ((hsent.moves hv).valid hv)
    rw [SameCount, confirmView_does hv hsent (by decide)] at hshut
    exact hshut
  rw [AmqpServer.handleConnectionMethod]
  exact outcome_ite (hdoes (does_handleStartOk buf)) (outcome_ite (hdoes (does_handleTuneOk buf))
    (outcome_ite (hdoes (does_handleConnectionOpen buf)) (outcome_ite hclose
      (outcome_ite (shutdown hv) (sendConnectionClose hv ..)))))

/-- A method frame that is not the `confirm.select` of the channel. --/
theorem handleMethodFrame (hv : Valid s) (hr : s.refAt c num = some r) {frame : Frame}
    (hselect : ∀ args bits rest, frame.channel = num → (s.openChannelAt c num).isSome = true →
      readMethodIds (Buffer.ofBytes frame.payload) = .ok ((class_id.CONFIRM, confirm_method.SELECT), args) →
      readUint8 args ≠ .ok (bits, rest)) :
    SameCount c num r s (outcome (s.handleMethodFrame c frame.channel (Buffer.ofBytes frame.payload))) := by
  have hreply : ∀ {s₁ : AmqpServer} (methodId : UInt16) (args : Bytes), SameCount c num r s s₁ →
      SameCount c num r s (s₁.sendMethodFrame c frame.channel class_id.CHANNEL methodId args) := fun methodId args h =>
    h.view (confirmView_sendMethodFrame _ _ _ _ fun _ heq => absurd (Prod.mk.inj heq).1 (by decide))
  rw [AmqpServer.handleMethodFrame]
  split
  · exact refl
  · rename_i classId methodId buf hids
    refine outcome_ite (outcome_ite (sendConnectionClose hv ..) (handleConnectionMethod hv ..)) (outcome_ite ?opens
      (outcome_ite ?close (outcome_ite (cleanupChannel hv _) (outcome_ite ?flow ?method))))
    case opens =>
      refine outcome_withArgs refl fun _ => ?_
      split
      · exact refl
      · split
        · exact sendConnectionClose hv ..
        · exact hreply _ _ (openChannel hv hr _)
    case close => exact outcome_withArgs refl fun _ => hreply _ _ (cleanupChannel hv _)
    case flow => exact outcome_withArgs refl fun _ => hreply _ _ refl
    case method =>
      rw [handleOnChannel]
      split
      · exact sendConnectionClose hv ..
      · rename_i ch hopen
        left
        by_cases hm : (classId, methodId) = (class_id.CONFIRM, confirm_method.SELECT)
        · obtain ⟨rfl, rfl⟩ := Prod.mk.inj hm
          by_cases hnum : frame.channel = num
          · -- The argument cannot be read.
            have hthrow : s.handleMethod c frame.channel class_id.CONFIRM confirm_method.SELECT buf =
                s.handleConfirmSelect c frame.channel buf := rfl
            rw [hthrow, handleConfirmSelect, withArgs]
            split
            · rfl
            · rename_i bits rest hread
              exact absurd hread (hselect buf bits rest hnum (by rw [← hnum, hopen]; rfl) hids)
          · exact confirmView_handleConfirmSelect_of_ne hnum buf
        · exact confirmView_handleMethod hv hm buf

end SameCount

/-- A frame that is neither a `confirm.select` on the channel nor the end of a publish on it. --/
theorem sameCount_handleFrame {r : Ref} (hv : Valid s) (hr : s.refAt c num = some r) {frame : Frame} {frameEnd : UInt8}
    (hserved : Served c s frame frameEnd) (hselect : ¬Selects c num s (.frame c frame frameEnd))
    (hpub : published c num s (.frame c frame frameEnd) = none) : SameCount c num r s (outcome (s.handleFrame c frame)) := by
  have hnone : frame.channel = num → (s.openChannelAt c num).isSome = true → s.completed c frame = none := by
    intro hnum hopen
    rwa [published, if_pos ⟨rfl, hnum, hserved, hopen⟩] at hpub
  rw [handleFrame]
  split
  · rw [handleClosing]
    split
    · exact .refl
    · dsimp only [outcome]
      split
      · exact .shutdown hv
      · exact .refl
  · rename_i hclosing
    by_cases hmethod : frame.type = FRAME_METHOD
    · rw [if_pos hmethod]
      refine .handleMethodFrame hv hr fun args bits rest hnum hopen hids hread => hselect ?_
      exact ⟨rfl, hnum, hserved, fun h => hclosing ⟨h, hmethod⟩, hopen, hmethod, args, bits, rest, hids, hread⟩
    · rw [if_neg hmethod]
      by_cases hheader : frame.type = FRAME_HEADER
      · rw [if_pos hheader]
        split
        · exact .refl
        · rename_i ch hopen
          refine .inl (confirmView_handleContentHeader hv _ fun hnum => ?_)
          have hcomp := hnone hnum (by rw [← hnum, hopen]; rfl)
          simpa only [completed, if_pos hheader] using hcomp
      · rw [if_neg hheader]
        by_cases hbody : frame.type = FRAME_BODY
        · rw [if_pos hbody]
          split
          · exact .refl
          · rename_i ch hopen
            refine .inl (confirmView_handleContentBody hv _ fun hnum => ?_)
            have hcomp := hnone hnum (by rw [← hnum, hopen]; rfl)
            simpa only [completed, if_neg hheader, if_pos hbody] using hcomp
        · rw [if_neg hbody]
          exact outcome_ite .refl (.sendConnectionClose hv ..)

theorem confirmView_start {store : Option MessageStore} {userStore : UserStore} {clock : Nat → Int} {readings : Nat} :
    (start store userStore clock readings).confirmView c num = none := by
  cases store with
  | none => rfl
  | some st =>
    refine ((does_recoverFromStore (c := 0) rfl).moves valid_blank).keeps (P := fun s => s.confirmView c num = none) ?_ rfl
    intro k hk s₁ s₂ hm hs
    have hquiet : ∀ k ∈ recoveryKinds, k ∉ [Kind.confirm, .openChannel, .closeChannel, .server] := by decide
    exact (confirmView_move hm (hquiet k hk)).trans hs

/-- An event that is neither. --/
theorem sameCount_handle {r : Ref} (hv : Valid s) (hr : s.refAt c num = some r) {e : Event} (hselect : ¬Selects c num s e)
    (hpub : published c num s e = none) : SameCount c num r s (s.handle e) := by
  by_cases he : e = .restart
  · subst he
    right
    rw [handle, restart, refAt_eq, confirmView_start]
    exact (Option.some_ne_none r).symm
  by_cases hc : e.connection? = some c
  · cases e with
    | frame c' frame frameEnd =>
      obtain rfl := Option.some.inj hc
      have hdoes : Does c' (.oversize :: requestKinds) s (outcome (s.handleFrame c' frame)) :=
        does_handleFrame (fun _ => List.mem_cons_of_mem _) (.inl List.mem_cons_self)
      have hvalid := (hdoes.moves hv).valid hv
      rcases handle_frame_cases c' s frame frameEnd with ⟨-, heq | ⟨text, heq⟩⟩ | ⟨hserved, hframe⟩
      · rw [heq]
        exact .refl
      · rw [heq]
        exact SameCount.refl.stopReading hv text
      · have hkept := sameCount_handleFrame hv hr hserved hselect hpub
        rcases hframe with hok | ⟨s', text, herror, heq⟩
        · rwa [hok] at hkept
        · rw [herror] at hkept hvalid
          rw [heq]
          exact hkept.stopReading hvalid text
    | protocolHeader c' header =>
      obtain rfl := Option.some.inj hc
      rw [handle]
      split
      · exact .refl
      · split
        · rw [receiveProtocolHeader]
          split
          · have hstart : (s.modifyConnection c' fun conn => { conn with state := .AWAITING_START_OK }).confirmView c' num =
                s.confirmView c' num := confirmView_modifyConnection c' (fun _ => rfl) fun _ => rfl
            refine .inl (Eq.trans ?_ hstart)
            exact confirmView_sendMethodFrame _ _ _ _ fun _ heq => absurd (Prod.mk.inj heq).1 (by decide)
          · have hsend : Valid (s.send c' .protocolHeader) := hv.move (c := c') (.send _)
            have hshut : SameCount c' num r _ _ := SameCount.shutdown hsend
            rwa [SameCount, confirmView_send c' rfl] at hshut
        · exact .refl
    | runTask c' =>
      obtain rfl := Option.some.inj hc
      exact .inl (confirmView_does hv does_runTask (by decide))
    | disconnect c' =>
      obtain rfl := Option.some.inj hc
      exact .shutdown hv
    | reorderChannels c' order =>
      obtain rfl := Option.some.inj hc
      refine .inl (confirmView_modifyConnection c' (fun conn => ?_) fun _ => rfl)
      exact congrArg (Option.map Channel.confirms) (Assoc.lookup_reorder ..)
    | reorderConsumers c' num' order =>
      obtain rfl := Option.some.inj hc
      exact .inl (confirmView_modifyChannel c' num' fun _ _ => rfl)
    | reorderUnacked c' num' order =>
      obtain rfl := Option.some.inj hc
      exact .inl (confirmView_modifyChannel c' num' fun _ _ => rfl)
    | _ => cases hc
  · obtain ⟨ch, hch, -⟩ := Option.map_eq_some_iff.mp hr
    obtain ⟨conn, hconn, -⟩ := Option.bind_eq_some_iff.mp hch
    exact .inl (confirmView_of_own (own_handle_of_ne hv hconn he hc))

/-- The event of a publish runs it. --/
theorem handle_of_published {e : Event} {p : PendingPublish} (h : published c num s e = some p) :
    s.handle e = (s.setPending c num (some p)).publish c num p := by
  cases e with
  | frame c' frame frameEnd =>
    rw [published] at h
    split at h
    · rename_i hcond
      obtain ⟨rfl, rfl, hserved, hopen⟩ := hcond
      obtain ⟨ch, hopen⟩ := Option.isSome_iff_exists.mp hopen
      have hok : s.handleFrame c' frame = .ok ((s.setPending c' frame.channel (some p)).publish c' frame.channel p) := by
        have hmethod : frame.type ≠ FRAME_METHOD := by
          intro htype
          rw [completed_of_ne (by rw [htype]; decide) (by rw [htype]; decide)] at h
          cases h
        rw [completed] at h
        obtain ⟨q, hq, h⟩ := Option.bind_eq_some_iff.mp h
        rw [handleFrame, if_neg fun hm => hmethod hm.2, if_neg hmethod, hopen]
        split at h
        · rename_i hheader
          rw [if_pos hheader]
          exact handleContentHeader_of_completed hq h
        · rename_i hheader
          rw [if_neg hheader]
          split at h
          · rename_i hbody
            rw [if_pos hbody]
            exact congrArg Except.ok (handleContentBody_of_completed hq h)
          · cases h
      rcases handle_frame_cases c' s frame frameEnd with ⟨hn, -⟩ | ⟨-, hframe | ⟨s', text, herror, -⟩⟩
      · exact absurd hserved hn
      · exact Except.ok.inj (hframe.symm.trans hok)
      · rw [hok] at herror
        cases herror
    · cases h
  | _ => cases h

theorem confirmView_sendConfirm {r : Ref} {mode : Bool} {n : Nat} {acks : List Outgoing}
    (h : s.confirmView c num = some (some (r, mode, n), acks)) :
    (s.sendConfirm c num).confirmView c num =
      some (some (r, mode, if mode then n + 1 else n), acks ++ if mode then [ackFrame num n] else []) := by
  obtain ⟨conn, hconn, hx⟩ := Option.map_eq_some_iff.mp h
  obtain ⟨hmap, rfl⟩ := Prod.mk.inj hx
  obtain ⟨ch, hch, hconf⟩ := Option.map_eq_some_iff.mp hmap
  obtain ⟨rfl, hmodes⟩ := Prod.mk.inj hconf
  obtain ⟨rfl, rfl⟩ := Prod.mk.inj hmodes
  have hchannel : s.channel c num = some ch := by rw [channel, hconn, Option.bind_some, hch]
  rw [sendConfirm, hchannel]
  dsimp only
  split
  · rename_i hmode
    have hself : ∀ (s : AmqpServer) (f : Connection → Connection), (s.modifyConnection c f).connection c = (s.connection c).map f :=
      fun _ _ => Assoc.lookup_modify_self ..
    have hack : isMethod num (class_id.BASIC, basic_method.ACK) (ackFrame num ch.nextConfirmSeqNo) = true := by
      rw [ackFrame, isMethod_methodFrame]
      exact decide_eq_true ⟨rfl, rfl⟩
    rw [confirmView, sendMethodFrame, sendFrame, send, modifyChannel, hself, hself, hconn, Option.map_some, Option.map_some,
      Option.map_some, hmode]
    refine congrArg some (Prod.ext ?_ ?_)
    · dsimp only
      rw [Assoc.lookup_modify_self, hch, Option.map_some, Option.map_some, Channel.confirms, hmode]
    · dsimp only
      rw [methodsOn, List.filter_append]
      exact congrArg (methodsOn num (class_id.BASIC, basic_method.ACK) conn.sent ++ ·) (List.filter_cons_of_pos hack)
  · rename_i hmode
    rw [Bool.not_eq_true] at hmode
    rw [h, hmode]
    simp

/-- A publish counts, and is acked, if the channel is in confirm mode. --/
theorem confirmView_published {r : Ref} {mode : Bool} {n : Nat} {acks : List Outgoing} {e : Event} {p : PendingPublish}
    (hv : Valid s) (h : s.confirmView c num = some (some (r, mode, n), acks)) (hpub : published c num s e = some p) :
    (s.handle e).confirmView c num =
      some (some (r, mode, if mode then n + 1 else n), acks ++ if mode then [ackFrame num n] else []) := by
  have hsound := sound_of_published hv hpub
  have hset : Valid (s.setPending c num (some p)) := ((does_setPending (c := c) hsound).moves hv).valid hv
  rw [handle_of_published hpub, publish_eq, confirmView_setPending]
  refine confirmView_sendConfirm ?_
  rw [confirmView_distribute hset hsound, confirmView_setPending, h]

/-- A `confirm.select` starts the count anew. --/
theorem confirmView_selects {r : Ref} {mode : Bool} {n : Nat} {acks : List Outgoing} {e : Event}
    (h : s.confirmView c num = some (some (r, mode, n), acks)) (hselect : Selects c num s e) :
    (s.handle e).confirmView c num = some (some (r, true, 1), acks) := by
  have hmode : (s.modifyChannel c num fun ch => { ch with confirmMode := true, nextConfirmSeqNo := 1 }).confirmView c num =
      some (some (r, true, 1), acks) := by
    obtain ⟨conn, hconn, hx⟩ := Option.map_eq_some_iff.mp h
    obtain ⟨hmap, rfl⟩ := Prod.mk.inj hx
    obtain ⟨ch, hch, hconf⟩ := Option.map_eq_some_iff.mp hmap
    obtain ⟨rfl, -⟩ := Prod.mk.inj hconf
    have hself : (s.modifyChannel c num fun ch => { ch with confirmMode := true, nextConfirmSeqNo := 1 }).connection c =
        (s.connection c).map _ := Assoc.lookup_modify_self ..
    rw [confirmView, hself, hconn, Option.map_some, Option.map_some]
    refine congrArg some (Prod.ext ?_ rfl)
    dsimp only
    rw [Assoc.lookup_modify_self, hch]
    rfl
  cases e with
  | frame c' frame frameEnd =>
    obtain ⟨rfl, rfl, hserved, hclosing, hopen, htype, args, bits, rest, hids, hread⟩ := hselect
    obtain ⟨ch, hopen⟩ := Option.isSome_iff_exists.mp hopen
    have hok : s.handleFrame c' frame = s.handleConfirmSelect c' frame.channel args := by
      rw [handleFrame, if_neg fun hc => hclosing hc.1, if_pos htype, handleMethodFrame, hids]
      dsimp only
      rw [if_neg (by decide), if_neg (by decide), if_neg (by decide), if_neg (by decide), if_neg (by decide), handleOnChannel,
        hopen]
      rfl
    rw [handleConfirmSelect, withArgs, hread] at hok
    rcases handle_frame_cases c' s frame frameEnd with ⟨hn, -⟩ | ⟨-, hframe | ⟨s', text, herror, -⟩⟩
    · exact absurd hserved hn
    · rw [Except.ok.inj (hframe.symm.trans hok)]
      split
      · exact hmode
      · rw [confirmView_sendMethodFrame _ _ _ _ fun _ heq => absurd (Prod.mk.inj heq).1 (by decide)]
        exact hmode
    · rw [hok] at herror
      cases herror
  | _ => cases hselect

/-! ### The log -/

/-- From `s` to `s₁` the log grows, and gets a record of the publish for every durable queue that it is routed to. --/
def Written (c : Nat) (p : PendingPublish) (queues : List Bytes) (s s₁ : AmqpServer) : Prop :=
  ∀ st, s.store = some st → ∃ (st₁ : MessageStore) (entries : List Entry), s₁.store = some st₁ ∧
    st₁.wal = st.wal ++ (entries.map Entry.write).flatten ∧
      ∀ qname ∈ queues, ∀ q, s.queue qname = some q → q.durable = true → (messageOf c p).isPersistent = true →
        ∃ id, Entry.message (recordOf id qname (messageOf c p)) ∈ entries

namespace Written
variable {p : PendingPublish} {queues : List Bytes}

/-- The state before a publish is put on the channel will do. --/
theorem of_setPending {x : Option PendingPublish} (h : Written c p queues (s.setPending c num x) s') : Written c p queues s s' := h

theorem nil (h : s'.store = s.store) : Written c p [] s s' := by
  intro st hst
  exact ⟨st, [], h.trans hst, by simp, nofun⟩

/-- One more queue. --/
theorem cons {s₁ : AmqpServer} {qname : Bytes} (h₁ : Written c p [qname] s s₁) (h₂ : Written c p queues s₁ s')
    (hqueues : ∀ name q, s.queue name = some q → ∃ q', s₁.queue name = some q' ∧ q'.frame = q.frame) :
    Written c p (qname :: queues) s s' := by
  intro st hst
  obtain ⟨st₁, entries₁, hst₁, hwal₁, hrec₁⟩ := h₁ st hst
  obtain ⟨st₂, entries₂, hst₂, hwal₂, hrec₂⟩ := h₂ st₁ hst₁
  refine ⟨st₂, entries₁ ++ entries₂, hst₂, ?_, ?_⟩
  · rw [hwal₂, hwal₁, List.map_append, List.flatten_append, List.append_assoc]
  · intro name hname q hq hd hp
    rcases List.mem_cons.mp hname with rfl | hname
    · obtain ⟨id, hmem⟩ := hrec₁ name (List.mem_singleton_self _) q hq hd hp
      exact ⟨id, List.mem_append_left _ hmem⟩
    · obtain ⟨q', hq', hframe⟩ := hqueues name q hq
      have hdur : q'.frame.durable = q.frame.durable := by rw [hframe]
      obtain ⟨id, hmem⟩ := hrec₂ name hname q' hq' (hdur.trans hd) hp
      exact ⟨id, List.mem_append_right _ hmem⟩

/-- The turn of one queue. --/
theorem admitted (qname : Bytes) :
    Written c p [qname] s ((s.admitted (messageOf c p) qname).deliverToQueue qname s.heap.size) := by
  intro st hst
  have hstore : ((s.admitted (messageOf c p) qname).deliverToQueue qname s.heap.size).store =
      (s.admitted (messageOf c p) qname).store := store_of_skeleton (skeleton_deliverToQueue ..)
  have hmessage : (s.newMessage (messageOf c p)).message s.heap.size = messageOf c p := by
    rw [message, newMessage, Heap.cell_alloc_self]
  rw [hstore, AmqpServer.admitted]
  cases hq : s.queue qname with
  | none =>
    refine ⟨st, [], hst, by simp, fun name hname q hq' => ?_⟩
    rw [List.mem_singleton.mp hname, hq] at hq'
    cases hq'
  | some q =>
    dsimp only
    split
    · refine ⟨(st.storeMessage qname (messageOf c p)).2, [.message (recordOf st.nextMsgId qname (messageOf c p))], ?_, ?_, ?_⟩
      · have hsome : (s.newMessage (messageOf c p)).store = some st := hst
        rw [storeMessage, hsome, hmessage]
        rfl
      · rw [MessageStore.storeMessage]
        simp [MessageStore.append]
      · intro name hname _ _ _ _
        rw [List.mem_singleton.mp hname]
        exact ⟨_, List.mem_singleton_self _⟩
    · rename_i hneither
      refine ⟨st, [], hst, by simp, fun name hname q' hq' hd hp => ?_⟩
      rw [List.mem_singleton.mp hname, hq] at hq'
      obtain rfl := Option.some.inj hq'
      rw [hp, hd] at hneither
      exact absurd rfl hneither

theorem publishAll {msg : Ref} (queues : List Bytes) (ha : Apart msg (messageOf c p) s) :
    Written c p queues s (queues.foldl (publishTo true msg) s) := by
  induction queues generalizing s with
  | nil => exact nil rfl
  | cons qname queues ih =>
    rw [List.foldl_cons, publishTo_several, ha.message]
    refine cons (admitted qname) (ih ((ha.admitted _ qname).enqueueLoop (Nat.ne_of_gt ha.lt) _ _)) fun name q hq => ?_
    refine queue_of_skeleton (skeleton_deliverToQueue (s := s.admitted (messageOf c p) qname) qname s.heap.size) ?_
    rw [queue, queues_admitted]
    exact hq

/-- When a publish has been given to its queues, its records are written. --/
theorem distribute (hv : Valid s) :
    Written c p (s.routeMessage p.exchange p.routing_key p.properties.headers) s (s.distribute c num p) := by
  rw [AmqpServer.distribute]
  split
  · rename_i hreturn
    rw [hreturn.1]
    exact nil (store_of_skeleton (skeleton_sendReturn ..))
  · generalize s.routeMessage p.exchange p.routing_key p.properties.headers = queues
    rcases queues with _ | ⟨qname, _ | ⟨qname', rest⟩⟩
    · exact nil rfl
    · have hone : Written c p [qname] s _ := admitted qname
      rw [← publishTo_one] at hone
      exact hone
    · have hseveral : decide (1 < (qname :: qname' :: rest).length) = true :=
        decide_eq_true (Nat.succ_lt_succ (Nat.succ_pos _))
      rw [hseveral]
      exact publishAll (qname :: qname' :: rest) (.newMessage hv (messageOf c p))

end Written

/-! ### Runs -/

/-- The publishes that were completed on the channel in a run. --/
def publishes (c : Nat) (num : UInt16) (s : AmqpServer) (events : List Event) : List PendingPublish :=
  Prefix.trace handle (fun s e => (published c num s e).toList) s events

theorem publishes_concat (events : List Event) (e : Event) :
    publishes c num s (events ++ [e]) = publishes c num s events ++ (published c num (s.run events) e).toList :=
  Prefix.trace_concat ..

/-- The acks that the client was sent on the channel. --/
def acksSent (c : Nat) (num : UInt16) (s : AmqpServer) : List Outgoing := ((s.confirmView c num).map Prod.snd).getD []

/-- No `confirm.select` is processed once a publish was completed. --/
def Steady (c : Nat) (num : UInt16) (s : AmqpServer) (events : List Event) : Prop :=
  ∀ before e after, events = before ++ e :: after → Selects c num (s.run before) e → publishes c num s before = []

theorem Steady.of_concat {events : List Event} {e : Event} (h : Steady c num s (events ++ [e])) : Steady c num s events := by
  rintro before x after rfl
  exact h before x (after ++ [e]) (by rw [List.append_assoc, List.cons_append])

section Run
variable {s₀ : AmqpServer} {r : Ref} {acks : List Outgoing} {events : List Event}

/-- The counter of the channel object `r`, which was in confirm mode at the start of the run. --/
theorem confirmView_run (hv : Valid s₀) (h₀ : s₀.confirmView c num = some (some (r, true, 1), acks)) (events : List Event)
    (hobject : ∀ before after, events = before ++ after → (s₀.run before).refAt c num = some r) :
    ∃ n acks', (s₀.run events).confirmView c num = some (some (r, true, n), acks') ∧
      (Steady c num s₀ events → n = (publishes c num s₀ events).length + 1) := by
  induction events using List.reverseRecOn with
  | nil => exact ⟨1, acks, h₀, fun _ => rfl⟩
  | append_singleton events e ih =>
    obtain ⟨n, acks', hview, hcount⟩ := ih fun before after heq => hobject before (after ++ [e]) (by rw [heq, List.append_assoc])
    have hvalid := valid_run hv events
    rw [run_concat, publishes_concat, List.length_append]
    by_cases hselect : Selects c num (s₀.run events) e
    · refine ⟨1, acks', confirmView_selects hview hselect, fun hsteady => ?_⟩
      have hnone : published c num (s₀.run events) e = none := published_of_selects hselect
      rw [hsteady events e [] rfl hselect, hnone]
      rfl
    · cases hpub : published c num (s₀.run events) e with
      | some p =>
        refine ⟨n + 1, _, confirmView_published hvalid hview hpub, fun hsteady => ?_⟩
        rw [hcount hsteady.of_concat]
        rfl
      | none =>
        have hr : (s₀.run events).refAt c num = some r := hobject events [e] rfl
        rcases sameCount_handle hvalid hr hselect hpub with hkept | hgone
        · exact ⟨n, acks', hkept.trans hview, fun hsteady => hcount hsteady.of_concat⟩
        · rw [← run_concat] at hgone
          exact absurd (hobject (events ++ [e]) [] (List.append_nil _).symm) hgone

end Run

theorem exists_view_of_selects {e : Event} (h : Selects c num s e) :
    ∃ r mode n acks, s.confirmView c num = some (some (r, mode, n), acks) := by
  cases e with
  | frame c' frame frameEnd =>
    obtain ⟨-, -, -, -, hopen, -⟩ := h
    obtain ⟨ch, hopen⟩ := Option.isSome_iff_exists.mp hopen
    obtain ⟨hch, -⟩ := Option.filter_eq_some_iff.mp hopen
    obtain ⟨conn, hconn, hch⟩ := Option.bind_eq_some_iff.mp hch
    refine ⟨ch.ref, ch.confirmMode, ch.nextConfirmSeqNo, methodsOn num (class_id.BASIC, basic_method.ACK) conn.sent, ?_⟩
    rw [confirmView, hconn, Option.map_some, hch]
    rfl
  | _ => cases h

/-- In every run of a channel after a `confirm.select`, the publishes that are completed are acked once each and in their
    order, and after their records are written, if no publish is completed after a `confirm.select` that came after a
    completed publish. --/
theorem confirms_numbered {store : Option MessageStore} {userStore : UserStore} {clock : Nat → Int} {readings : Nat}
    {pre events : List Event} {e₀ : Event} {r : Ref} {s₀ : AmqpServer}
    (hselect : Selects c num ((start store userStore clock readings).run pre) e₀)
    (hs₀ : s₀ = (start store userStore clock readings).run (pre ++ [e₀]))
    (hobject : ∀ before after, events = before ++ after → (s₀.run before).refAt c num = some r)
    (hsteady : ∀ before e after, events = before ++ e :: after → (published c num (s₀.run before) e).isSome = true →
      Steady c num s₀ before) :
    ∀ before e after, events = before ++ e :: after →
      acksSent c num (s₀.run (before ++ [e])) = acksSent c num (s₀.run before) ++
        (published c num (s₀.run before) e).toList.map (fun _ => ackFrame num ((publishes c num s₀ before).length + 1)) ∧
      ∀ p, published c num (s₀.run before) e = some p → ∃ s₁,
        s₀.run (before ++ [e]) = (s₁.sendConfirm c num).setPending c num none ∧
        acksSent c num s₁ = acksSent c num (s₀.run before) ∧
        Written c p ((s₀.run before).routeMessage p.exchange p.routing_key p.properties.headers) (s₀.run before) s₁ := by
  intro before e after heq
  rw [run_concat] at hs₀
  have hv : Valid s₀ := hs₀ ▸ valid_handle (valid_run valid_start pre) e₀
  obtain ⟨r', mode, n₀, acks, hstart⟩ := exists_view_of_selects hselect
  have h₀ : s₀.confirmView c num = some (some (r', true, 1), acks) := hs₀ ▸ confirmView_selects hstart hselect
  obtain rfl : r' = r := by
    have hr := hobject [] events rfl
    rw [run, List.foldl_nil, refAt_eq, h₀] at hr
    exact Option.some.inj hr
  have hbefore : ∀ b a, before = b ++ a → (s₀.run b).refAt c num = some r' := fun b a hb =>
    hobject b (a ++ e :: after) (by rw [heq, hb, List.append_assoc])
  have hvalid := valid_run hv before
  obtain ⟨n, acks', hview, hcount⟩ := confirmView_run hv h₀ before hbefore
  have hacks : acksSent c num (s₀.run before) = acks' := by rw [acksSent, hview, Option.map_some, Option.getD_some]
  rw [run_concat]
  cases hpub : published c num (s₀.run before) e with
  | some p =>
    have hn := hcount (hsteady before e after heq (by rw [hpub]; rfl))
    have hsound := sound_of_published hvalid hpub
    have hset : Valid ((s₀.run before).setPending c num (some p)) := ((does_setPending (c := c) hsound).moves hvalid).valid hvalid
    constructor
    · rw [acksSent, confirmView_published hvalid hview hpub, hacks, Option.map_some, Option.getD_some, hn]
      rfl
    · intro p' hp'
      obtain rfl := Option.some.inj hp'
      refine ⟨_, (handle_of_published hpub).trans (publish_eq p), ?_, (Written.distribute hset).of_setPending⟩
      rw [acksSent, acksSent, confirmView_distribute hset hsound, confirmView_setPending]
  | none =>
    have hr : (s₀.run before).refAt c num = some r' := hbefore before [] (List.append_nil _).symm
    rw [Option.toList_none, List.map_nil, List.append_nil]
    refine ⟨?_, fun p hp => absurd hp.symm (Option.some_ne_none p)⟩
    by_cases hsel : Selects c num (s₀.run before) e
    · rw [acksSent, confirmView_selects hview hsel, hacks, Option.map_some, Option.getD_some]
    · rcases sameCount_handle hvalid hr hsel hpub with hkept | hgone
      · rw [acksSent, hkept, acksSent]
      · have hlive := hobject (before ++ [e]) after (by rw [heq, List.append_assoc, List.singleton_append])
        rw [run_concat] at hlive
        exact absurd hlive hgone

/-- A `confirm.select` of the client library on an open channel. --/
theorem selects_confirmSelect (hserved : Served c s (methodFrame num class_id.CONFIRM confirm_method.SELECT (writeUint8 0)) FRAME_END)
    (hstate : (s.connection c).map Connection.state ≠ some .CLOSING) (hopen : (s.openChannelAt c num).isSome = true) :
    Selects c num s (Client.confirmSelect c num) :=
  ⟨rfl, rfl, hserved, hstate, hopen, rfl, _, 0, _,
    ((reads_uint16 class_id.CONFIRM).bind (reads_uint16 confirm_method.SELECT).map) 0 (writeUint8 0), rfl⟩

theorem not_selects_of_methodIds {frame : Frame} {frameEnd : UInt8}
    (h : methodIds frame ≠ some (class_id.CONFIRM, confirm_method.SELECT)) : ¬Selects c num s (.frame c' frame frameEnd) := by
  rintro ⟨-, -, -, -, -, htype, args, -, -, hids, -⟩
  rw [methodIds, if_pos htype, hids] at h
  exact h rfl

/-- A channel of a client in confirm mode, and a durable queue. --/
def confirmChannel : List Event :=
  Client.connect 1 ++
    [Client.openChannel 1 1, Client.assertQueue 1 1 (ascii "q") false true false false [], Client.confirmSelect 1 1]

/-- A persistent message for the queue, and one that no queue gets. --/
def confirmedRun : List Event :=
  Client.sendToQueue 1 1 (ascii "q") (ascii "abc") { delivery_mode := some 2 } ++ Client.sendToQueue 1 1 (ascii "none") [] {}

/-- Both publishes are acked, and the first one after its record is written. --/
theorem confirms_numbered_confirmedRun :
    acksSent 1 1 ((freshServer.run confirmChannel).run confirmedRun) = [ackFrame 1 1, ackFrame 1 2] ∧
      ∃ p s₁, published 1 1 ((freshServer.run confirmChannel).run (confirmedRun.take 2))
          (.frame 1 { type := FRAME_BODY, channel := 1, payload := ascii "abc" } FRAME_END) = some p ∧
        acksSent 1 1 s₁ = [] ∧ Written 1 p [ascii "q"] ((freshServer.run confirmChannel).run (confirmedRun.take 2)) s₁ := by
  have hselect : Selects 1 1 (freshServer.run (Client.connect 1 ++ [Client.openChannel 1 1,
      Client.assertQueue 1 1 (ascii "q") false true false false []])) (Client.confirmSelect 1 1) :=
    selects_confirmSelect (by decide +kernel) (by decide +kernel) (by decide +kernel)
  have hquiet : ∀ x ∈ confirmedRun, ∀ s, ¬Selects 1 1 s x := by
    have hframe : ∀ {frame frameEnd}, methodIds frame ≠ some (class_id.CONFIRM, confirm_method.SELECT) →
        ∀ s, ¬Selects 1 1 s (.frame 1 frame frameEnd) := fun h _ => not_selects_of_methodIds h
    refine List.forall_mem_cons.mpr ⟨hframe (by decide +kernel), List.forall_mem_cons.mpr ⟨hframe (by decide +kernel),
      List.forall_mem_cons.mpr ⟨hframe (by decide +kernel), List.forall_mem_cons.mpr ⟨hframe (by decide +kernel),
        List.forall_mem_singleton.mpr (hframe (by decide +kernel))⟩⟩⟩⟩
  have hobject : ∀ before after, confirmedRun = before ++ after → ((freshServer.run confirmChannel).run before).refAt 1 1 = some 0 := by
    have hinits : ∀ before ∈ confirmedRun.inits, ((freshServer.run confirmChannel).run before).refAt 1 1 = some 0 := by
      decide +kernel
    exact fun before after heq => hinits before ((List.mem_inits _ _).mpr ⟨after, heq.symm⟩)
  have hsteady : ∀ before e after, confirmedRun = before ++ e :: after →
      (published 1 1 ((freshServer.run confirmChannel).run before) e).isSome = true →
      Steady 1 1 (freshServer.run confirmChannel) before := by
    rintro before e after heq - b x a rfl hx
    refine absurd hx (hquiet x ?_ _)
    rw [heq]
    simp
  constructor
  · have hsplit : confirmedRun = confirmedRun.dropLast ++ confirmedRun.getLast (by decide) :: [] := by
      rw [List.dropLast_append_getLast]
    have hnumbered := confirms_numbered hselect rfl hobject hsteady _ _ _ hsplit
    rw [← hsplit] at hnumbered
    refine hnumbered.1.trans ?_
    decide +kernel
  · have hsplit : confirmedRun = confirmedRun.take 2 ++
        .frame 1 { type := FRAME_BODY, channel := 1, payload := ascii "abc" } FRAME_END :: confirmedRun.drop 3 := rfl
    have hroutes : (published 1 1 ((freshServer.run confirmChannel).run (confirmedRun.take 2))
        (.frame 1 { type := FRAME_BODY, channel := 1, payload := ascii "abc" } FRAME_END)).map (fun p =>
          ((freshServer.run confirmChannel).run (confirmedRun.take 2)).routeMessage p.exchange p.routing_key p.properties.headers) =
        some [ascii "q"] := by
      decide +kernel
    obtain ⟨p, hp, hroute⟩ := Option.map_eq_some_iff.mp hroutes
    obtain ⟨s₁, -, hacks, hwritten⟩ := (confirms_numbered hselect rfl hobject hsteady _ _ _ hsplit).2 p hp
    exact ⟨p, s₁, hp, hacks.trans (by decide +kernel), hroute ▸ hwritten⟩

/-- A second `confirm.select` between two publishes: both are acked with the same tag. --/
theorem confirms_repeated :
    (publishes 1 1 (freshServer.run confirmChannel) (Client.sendToQueue 1 1 (ascii "q") [] {} ++ [Client.confirmSelect 1 1] ++
        Client.sendToQueue 1 1 (ascii "q") [] {})).length = 2 ∧
      acksSent 1 1 (freshServer.run (confirmChannel ++ Client.sendToQueue 1 1 (ascii "q") [] {} ++ [Client.confirmSelect 1 1] ++
        Client.sendToQueue 1 1 (ascii "q") [] {})) = [ackFrame 1 1, ackFrame 1 1] := by
  decide +kernel

end AmqpServer
end Broko.Broker
