import Broko.Theorems.Effects
import Broko.Theorems.Multiple

/-! Runs of the server as operations of its virtual host, settlements, and traffic that settles nothing. Every event is
    carried out by such steps, and the settlements among them are those that its frame asks for. -/

namespace Broko.Broker
open Amqp Storage MessageStore

namespace AmqpServer

/-- The kinds of traffic that settles nothing. --/
def unsettledKinds : List Kind := trafficKinds.filter fun k => k ≠ .settle

/-- A step of a process: an operation of the virtual host, a settlement that meets a condition, or other traffic. --/
inductive BrokerStep (Settles : AmqpServer → UnackedMessage → Prop) : AmqpServer → AmqpServer → Prop
  | op {s : AmqpServer} {op : VHostOp} (hshort : op.Short) (hrestart : op ≠ .restart) : BrokerStep Settles s (s.perform op)
  | settle {s : AmqpServer} {u : UnackedMessage} (hu : u.message < s.heap.size) (hok : Settles s u) :
      BrokerStep Settles s (s.persistAck u)
  | traffic {s s' : AmqpServer} {c : Nat} {k : Kind} (hk : k ∈ unsettledKinds) (hm : Move c k s s') : BrokerStep Settles s s'

/-- A run of a process in which settlements meet the condition. --/
def BrokerRun (Settles : AmqpServer → UnackedMessage → Prop) : AmqpServer → AmqpServer → Prop :=
  Relation.ReflTransGen (BrokerStep Settles)

variable {c : Nat} {num : UInt16} {s s' s₁ s₂ : AmqpServer} {op : VHostOp} {u u' : UnackedMessage} {e : Event}
  {Settles : AmqpServer → UnackedMessage → Prop}

theorem traffic_of_unsettled {k : Kind} (hk : k ∈ unsettledKinds) : k ∈ trafficKinds := (List.mem_filter.mp hk).1

/-! ### Operations -/

theorem does_orElse {K : List Kind} {answer : Except Refusal AmqpServer} (ha : ∀ s', answer = .ok s' → Does c K s s') :
    Does c K s (s.orElse answer) := by
  cases answer with
  | ok s' => exact ha s' rfl
  | error e => exact .refl

/-- The operations of the virtual host, on behalf of some connection. --/
theorem exists_does_perform (hshort : op.Short) (hrestart : op ≠ .restart) :
    ∃ c, Does c [.unregister, .topology] s (s.perform op) := by
  cases op with
  | declareExchange name type =>
    exact ⟨0, (does_orElse fun _ ha => does_declareExchange hshort.1 hshort.2 ha).mono (by decide)⟩
  | deleteExchange name => exact ⟨0, (does_orElse fun _ ha => does_deleteExchange hshort ha).mono (by decide)⟩
  | declareQueue name passive durable exclusive autoDelete args connectionId =>
    exact ⟨connectionId, (does_declareQueue hshort passive durable exclusive autoDelete args).mono (by decide)⟩
  | deleteQueue name ifUnused ifEmpty =>
    have hdoes : Does 0 [.topology] s (s.perform (.deleteQueue name ifUnused ifEmpty)) := by
      refine does_orElse fun s' ha => ?_
      cases hdel : s.deleteQueue name ifUnused ifEmpty with
      | error e =>
        rw [hdel] at ha
        cases ha
      | ok answer =>
        rw [hdel] at ha
        obtain rfl := Except.ok.inj ha
        exact does_deleteQueue hshort hdel
    exact ⟨0, hdoes.mono (by decide)⟩
  | bindQueue queue exchange routingKey args =>
    exact ⟨0, (does_orElse fun _ ha => does_bindQueue hshort.1 hshort.2.1 hshort.2.2 ha).mono (by decide)⟩
  | unbindQueue queue exchange routingKey =>
    exact ⟨0, (does_orElse fun _ ha => does_unbindQueue hshort.1 hshort.2.1 hshort.2.2 ha).mono (by decide)⟩
  | removeConnectionQueues c => exact ⟨c, does_removeConnectionQueues⟩
  | restart => exact absurd rfl hrestart

/-! ### Regular states -/

/-- No reference dangles and the log is whole. --/
structure Regular (s : AmqpServer) : Prop where
  valid : Valid s
  tidy : Tidy s

namespace Regular

theorem start {userStore : UserStore} {clock : Nat → Int} {readings : Nat} :
    Regular (start (some {}) userStore clock readings) := ⟨valid_start, .start⟩

theorem move (h : Regular s) {k : Kind} (hk : k ∈ trafficKinds) (hm : Move c k s s') : Regular s' :=
  ⟨h.valid.move hm, (h.tidy.move hk hm).1⟩

theorem step (h : Regular s) (hstep : BrokerStep Settles s s') : Regular s' := by
  cases hstep with
  | op hshort hrestart =>
    obtain ⟨c, hdoes⟩ := exists_does_perform (s := s) hshort hrestart
    exact ⟨(hdoes.moves h.valid).valid h.valid, h.tidy.perform hshort⟩
  | settle hu hok => exact h.move (by decide) (Move.settle (c := 0) _ hu)
  | traffic hk hm => exact h.move (traffic_of_unsettled hk) hm

/-- What every move keeps, a step keeps. --/
theorem keeps_step {P : AmqpServer → Prop} (h : Regular s) (hstep : BrokerStep Settles s s')
    (hP : ∀ {c : Nat} {k : Kind} {s s' : AmqpServer}, Valid s → Move c k s s' → P s → P s') (hs : P s) : P s' := by
  cases hstep with
  | op hshort hrestart =>
    obtain ⟨c, hdoes⟩ := exists_does_perform (s := s) hshort hrestart
    have hmoves := hdoes.moves h.valid
    exact (hmoves.keeps (P := fun s => Valid s ∧ P s) (fun _ _ _ _ hm h => ⟨h.1.move hm, hP h.1 hm h.2⟩) ⟨h.valid, hs⟩).2
  | settle hu hok => exact hP h.valid (Move.settle (c := 0) _ hu) hs
  | traffic hk hm => exact hP h.valid hm hs

theorem run (h : Regular s) (hrun : BrokerRun Settles s s') : Regular s' := by
  induction hrun with
  | refl => exact h
  | tail _ hstep ih => exact ih.step hstep

theorem keeps_run {P : AmqpServer → Prop} (h : Regular s) (hrun : BrokerRun Settles s s')
    (hP : ∀ {c : Nat} {k : Kind} {s s' : AmqpServer}, Valid s → Move c k s s' → P s → P s') (hs : P s) : P s' := by
  induction hrun with
  | refl => exact hs
  | tail hbefore hstep ih => exact (h.run hbefore).keeps_step hstep hP ih

theorem restart (h : Regular s) : Regular s.restart := by
  have htidy : Tidy (s.perform .restart) := h.tidy.perform trivial
  exact ⟨valid_start, htidy⟩

end Regular

/-! ### Steps of a handler -/

/-- From a regular state, steps carry one state to the other. --/
structure Enacts (Settles : AmqpServer → UnackedMessage → Prop) (s s' : AmqpServer) : Prop where
  run : Regular s → BrokerRun Settles s s'

namespace Enacts

theorem refl : Enacts Settles s s := ⟨fun _ => .refl⟩

theorem trans (h₁ : Enacts Settles s s₁) (h₂ : Enacts Settles s₁ s₂) : Enacts Settles s s₂ :=
  ⟨fun hs => (h₁.run hs).trans (h₂.run (hs.run (h₁.run hs)))⟩

/-- What is known of a regular state may be used. --/
theorem ofRegular (h : Regular s → Enacts Settles s s') : Enacts Settles s s' := ⟨fun hs => (h hs).run hs⟩

theorem of_does {K : List Kind} (h : Does c K s s') (hK : ∀ k ∈ K, k ∈ unsettledKinds) : Enacts Settles s s' := by
  refine ⟨fun hs => Relation.ReflTransGen.mono (fun s₁ s₂ => ?_) _ _ (h.moves hs.valid)⟩
  rintro ⟨k, hk, hm⟩
  exact .traffic (hK k hk) hm

theorem perform (op : VHostOp) (hshort : op.Short) (hrestart : op ≠ .restart) : Enacts Settles s (s.perform op) :=
  ⟨fun _ => .single (.op hshort hrestart)⟩

end Enacts

/-! ### Requests to the virtual host -/

theorem does_reply_orElse {classId methodId okId : UInt16} {noWait : Bool} {answer : Except Refusal AmqpServer}
    (hok : methodKind classId okId = .output) :
    Does c [.output] (s.orElse answer) (s.reply c num classId methodId okId noWait answer) := by
  cases answer with
  | error e => exact does_sendChannelClose ..
  | ok s' =>
    unfold reply orElse
    dsimp only
    split
    · exact .refl
    · have hsend : Does c [methodKind classId okId] s' (s'.sendMethodFrame c num classId okId []) :=
        does_sendMethodFrame classId okId [] rfl
      rwa [hok] at hsend

theorem enacts_reply {classId methodId okId : UInt16} {noWait : Bool} {answer : Except Refusal AmqpServer} (op : VHostOp)
    (hshort : op.Short) (hrestart : op ≠ .restart) (hperform : s.perform op = s.orElse answer)
    (hok : methodKind classId okId = .output) :
    Enacts Settles s (s.reply c num classId methodId okId noWait answer) :=
  (Enacts.perform op hshort hrestart).trans (.of_does (hperform ▸ does_reply_orElse hok) (by decide))

theorem enacts_handleExchangeDeclare (buf : Buffer) : Enacts Settles s (outcome (s.handleExchangeDeclare c num buf)) := by
  refine outcome_withArgs_of (Q := fun args => args.1.length ≤ 255 ∧ args.2.1.length ≤ 255) ?_ .refl ?_
  · exact .bind (.any _) fun _ _ => .bind yields_shortString fun _ hname => .bind yields_shortString fun _ htype =>
      .bind (.any _) fun _ _ => .bind (.any _) fun _ _ => .pure ⟨hname, htype⟩
  · rintro ⟨exchange, type, bits, args⟩ ⟨hname, htype⟩
    dsimp only
    have htype' : (if type = [] ∧ hasBit bits 0x01 = false then ascii "direct" else type).length ≤ 255 := by
      split
      · decide
      · exact htype
    exact enacts_reply (.declareExchange ..) ⟨hname, htype'⟩ nofun rfl rfl

theorem enacts_handleExchangeDelete (buf : Buffer) : Enacts Settles s (outcome (s.handleExchangeDelete c num buf)) := by
  refine outcome_withArgs_of (Q := fun args => args.1.length ≤ 255) ?_ .refl fun args hname => ?_
  · exact .bind (.any _) fun _ _ => .bind yields_shortString fun _ hname => .bind (.any _) fun _ _ => .pure hname
  · exact enacts_reply (.deleteExchange _) hname nofun rfl rfl

theorem enacts_handleQueueBind (buf : Buffer) : Enacts Settles s (outcome (s.handleQueueBind c num buf)) := by
  refine outcome_withArgs_of (Q := fun args => args.1.length ≤ 255 ∧ args.2.1.length ≤ 255 ∧ args.2.2.1.length ≤ 255)
    ?_ .refl fun args h => ?_
  · exact .bind yields_bindArgs fun _ h => .bind (.any _) fun _ _ => .bind (.any _) fun _ _ => .pure h
  · exact enacts_reply (.bindQueue ..) h nofun rfl rfl

theorem enacts_handleQueueUnbind (buf : Buffer) : Enacts Settles s (outcome (s.handleQueueUnbind c num buf)) := by
  refine outcome_withArgs_of (Q := fun args => args.1.length ≤ 255 ∧ args.2.1.length ≤ 255 ∧ args.2.2.length ≤ 255)
    ?_ .refl fun args h => ?_
  · exact .bind yields_bindArgs fun _ h => .bind (.any _) fun _ _ => .pure h
  · exact enacts_reply (.unbindQueue ..) h nofun rfl rfl

theorem enacts_handleQueueDeclare (buf : Buffer) : Enacts Settles s (outcome (s.handleQueueDeclare c num buf)) := by
  refine outcome_withArgs_of (Q := fun args => args.1.length ≤ 255) ?_ .refl ?_
  · exact .bind (.any _) fun _ _ => .bind yields_shortString fun _ hname => .bind (.any _) fun _ _ =>
      .bind (.any _) fun _ _ => .pure hname
  · rintro ⟨queue, bits, args⟩ hname
    have hdeclare : Enacts Settles s (s.declareQueue queue (hasBit bits 0x01) (hasBit bits 0x02) (hasBit bits 0x04)
        (hasBit bits 0x08) args c).2 :=
      Enacts.perform (.declareQueue queue (hasBit bits 0x01) (hasBit bits 0x02) (hasBit bits 0x04) (hasBit bits 0x08)
        args c) hname nofun
    dsimp only
    split
    · rename_i heq
      rw [heq] at hdeclare
      exact hdeclare.trans (.of_does (does_sendChannelClose ..) (by decide))
    · rename_i heq
      rw [heq] at hdeclare
      split
      · exact hdeclare
      · exact hdeclare.trans (.of_does (does_sendMethodFrame _ _ _ rfl) (by decide))

theorem enacts_handleQueueDelete (buf : Buffer) : Enacts Settles s (outcome (s.handleQueueDelete c num buf)) := by
  refine outcome_withArgs_of yields_queueArgs .refl ?_
  rintro ⟨queue, bits⟩ hname
  have hdelete : Enacts Settles s (s.orElse ((s.deleteQueue queue (hasBit bits 0x01) (hasBit bits 0x02)).map Prod.snd)) :=
    Enacts.perform (.deleteQueue queue (hasBit bits 0x01) (hasBit bits 0x02)) hname nofun
  dsimp only
  split
  · exact .of_does (does_sendChannelClose ..) (by decide)
  · rename_i heq
    rw [heq] at hdelete
    split
    · exact hdelete
    · exact hdelete.trans (.of_does (does_sendMethodFrame _ _ _ rfl) (by decide))

/-! ### Settlements -/

/-- What settling another message leaves alone. --/
def Stable (Settles : AmqpServer → UnackedMessage → Prop) : Prop :=
  ∀ (c : Nat) (num : UInt16) (s : AmqpServer) (u u' : UnackedMessage) (x : Settlement) (tag : Nat), Regular s →
    u.message < s.heap.size → u'.message < s.heap.size → Settles s u' → Settles ((x.one s u).eraseUnacked c num tag) u'

theorem enacts_afterAck (x : Settlement) (hu : u.message < s.heap.size) : Enacts Settles (s.persistAck u) (x.one s u) := by
  cases x with
  | ack => exact .refl
  | nack =>
    rw [Settlement.one, rejectUnacked_false]
    refine .of_does (c := 0) (does_rejectIfThere false ?_) (by decide)
    rwa [heap_persistAck]

theorem enacts_one (x : Settlement) (hu : u.message < s.heap.size) (hok : Settles s u) : Enacts Settles s (x.one s u) :=
  Enacts.trans ⟨fun _ => .single (.settle hu hok)⟩ (enacts_afterAck x hu)

/-- Settling tags one after the other, where the entries under them meet the condition from the start. --/
theorem enacts_settleAll (hstable : Stable Settles) (x : Settlement) (tags : List Nat)
    (hset : ∀ u ∈ tags.filterMap (s.unackedAt c num), Settles s u) :
    Enacts Settles s (tags.foldl (settle c num x.one) s) := by
  induction tags generalizing s with
  | nil => exact .refl
  | cons tag tags ih =>
    rw [List.foldl_cons]
    refine .ofRegular fun hs => ?_
    cases hat : s.unackedAt c num tag with
    | none =>
      rw [settle_of_none hat]
      refine ih fun u hu => hset u ?_
      rwa [List.filterMap_cons, hat]
    | some u =>
      have hu : u.message < s.heap.size := lt_of_unackedAt hs.valid hat
      have hok : Settles s u := hset u (by rw [List.filterMap_cons, hat]; exact List.mem_cons_self)
      rw [settle_of_some hat]
      have hone := (enacts_one x hu hok).trans (.of_does (.of (.eraseUnacked (c := c) num tag)) (by decide))
      refine hone.trans (ih fun u' hu' => ?_)
      obtain ⟨tag', htag', hat'⟩ := List.mem_filterMap.mp hu'
      rw [← settle_of_some (f := x.one) hat, unackedAt_settle] at hat'
      split at hat'
      · cases hat'
      · refine hstable c num s u u' x tag hs hu (lt_of_unackedAt hs.valid hat') (hset u' ?_)
        exact List.mem_filterMap.mpr ⟨tag', List.mem_cons_of_mem _ htag', hat'⟩

/-- The tags that a method of the basic class settles. --/
def settledBy (c : Nat) (num : UInt16) (s : AmqpServer) (methodId : UInt16) (buf : Buffer) : List Nat :=
  match readSettleArgs buf with
  | .error _ => []
  | .ok ((deliveryTag, bits), _) =>
    if methodId = basic_method.ACK then s.settledTags c num deliveryTag (hasBit bits 0x01)
    else if methodId = basic_method.REJECT then if hasBit bits 0x01 then [] else [deliveryTag.toNat]
    else if methodId = basic_method.NACK then
      if hasBit bits 0x02 then [] else s.settledTags c num deliveryTag (hasBit bits 0x01)
    else []

/-- The entries of the unacked table that an event settles. --/
def settlements (s : AmqpServer) : Event → List UnackedMessage
  | .frame c frame frameEnd =>
    if Served c s frame frameEnd ∧ (s.connection c).map Connection.state ≠ some .CLOSING ∧ frame.type = FRAME_METHOD ∧
        (s.openChannelAt c frame.channel).isSome then
      match readMethodIds (Buffer.ofBytes frame.payload) with
      | .error _ => []
      | .ok ((classId, methodId), buf) =>
        if classId = class_id.BASIC then
          (settledBy c frame.channel s methodId buf).filterMap (s.unackedAt c frame.channel)
        else []
    else []
  | _ => []

theorem does_rejectUnacked_true (s : AmqpServer) (u : UnackedMessage) (hu : u.message < s.heap.size) :
    Does c [.queue, .requeue] s (rejectUnacked true s u) := by
  rw [rejectUnacked, if_pos rfl]
  exact does_rejectIfThere true hu

theorem enacts_handleBasicAck (hstable : Stable Settles) {buf : Buffer}
    (hset : ∀ u ∈ (settledBy c num s basic_method.ACK buf).filterMap (s.unackedAt c num), Settles s u) :
    Enacts Settles s (outcome (s.handleBasicAck c num buf)) := by
  rw [handleBasicAck, withArgs]
  rw [settledBy] at hset
  split
  · exact .refl
  · rename_i args rest hread
    rw [hread] at hset
    exact enacts_settleAll hstable .ack _ hset

theorem enacts_handleBasicReject (hstable : Stable Settles) {buf : Buffer}
    (hset : ∀ u ∈ (settledBy c num s basic_method.REJECT buf).filterMap (s.unackedAt c num), Settles s u) :
    Enacts Settles s (outcome (s.handleBasicReject c num buf)) := by
  rw [handleBasicReject, withArgs]
  rw [settledBy] at hset
  split
  · exact .refl
  · rename_i args rest hread
    obtain ⟨deliveryTag, bits⟩ := args
    rw [hread] at hset
    dsimp only [outcome]
    cases hbit : hasBit bits 0x01 with
    | true => exact .of_does (does_settle does_rejectUnacked_true _ _) (by decide)
    | false =>
      dsimp only at hset
      rw [hbit] at hset
      exact enacts_settleAll hstable .nack [deliveryTag.toNat] hset

theorem enacts_handleBasicNack (hstable : Stable Settles) {buf : Buffer}
    (hset : ∀ u ∈ (settledBy c num s basic_method.NACK buf).filterMap (s.unackedAt c num), Settles s u) :
    Enacts Settles s (outcome (s.handleBasicNack c num buf)) := by
  rw [handleBasicNack, withArgs]
  rw [settledBy] at hset
  split
  · exact .refl
  · rename_i args rest hread
    obtain ⟨deliveryTag, bits⟩ := args
    rw [hread] at hset
    dsimp only [outcome]
    cases hbit : hasBit bits 0x02 with
    | true => exact .of_does (Does.foldl (does_settle does_rejectUnacked_true) _ _) (by decide)
    | false =>
      dsimp only at hset
      rw [hbit] at hset
      exact enacts_settleAll hstable .nack _ hset

/-! ### Handlers -/

/-- The methods that do not settle. --/
theorem enacts_handleMethod_of_ne {classId methodId : UInt16}
    (hne : classId = class_id.BASIC → methodId ∉ [basic_method.ACK, basic_method.REJECT, basic_method.NACK]) (buf : Buffer) :
    Enacts Settles s (outcome (s.handleMethod c num classId methodId buf)) := by
  refine Handlers.handleMethod (P := fun classId methodId s' =>
    (classId = class_id.BASIC → methodId ∉ [basic_method.ACK, basic_method.REJECT, basic_method.NACK]) →
      Enacts Settles s s') ?_ classId methodId buf hne
  constructor
  case exchangeDeclare => exact fun buf _ => enacts_handleExchangeDeclare buf
  case exchangeDelete => exact fun buf _ => enacts_handleExchangeDelete buf
  case queueDeclare => exact fun buf _ => enacts_handleQueueDeclare buf
  case queueBind => exact fun buf _ => enacts_handleQueueBind buf
  case queueUnbind => exact fun buf _ => enacts_handleQueueUnbind buf
  case queuePurge => exact fun buf _ => .of_does (does_handleQueuePurge buf) (by decide)
  case queueDelete => exact fun buf _ => enacts_handleQueueDelete buf
  case basicQos => exact fun buf _ => .of_does (does_handleBasicQos buf) (by decide)
  case basicConsume => exact fun buf _ => .of_does (does_handleBasicConsume buf) (by decide)
  case basicCancel => exact fun buf _ => .of_does (does_handleBasicCancel buf) (by decide)
  case basicPublish => exact fun buf _ => .of_does (does_handleBasicPublish buf) (by decide)
  case basicGet => exact fun buf _ => .of_does (does_handleBasicGet buf) (by decide)
  case basicAck => exact fun buf hne => absurd (by decide) (hne rfl)
  case basicReject => exact fun buf hne => absurd (by decide) (hne rfl)
  case basicRecover => exact fun buf _ => .of_does (does_handleBasicRecover buf) (by decide)
  case basicRecoverAsync => exact fun buf _ => .of_does (does_handleBasicRecover buf) (by decide)
  case basicNack => exact fun buf hne => absurd (by decide) (hne rfl)
  case confirmSelect => exact fun buf _ => .of_does (does_handleConfirmSelect buf) (by decide)
  case tx => exact fun _ okId _ => .of_does (does_handleTx okId) (by decide)
  case notImplemented => exact fun _ _ _ => .of_does (does_sendChannelClose ..) (by decide)

theorem enacts_handleMethod (hstable : Stable Settles) {classId methodId : UInt16} {buf : Buffer}
    (hset : classId = class_id.BASIC → ∀ u ∈ (settledBy c num s methodId buf).filterMap (s.unackedAt c num), Settles s u) :
    Enacts Settles s (outcome (s.handleMethod c num classId methodId buf)) := by
  by_cases hclass : classId = class_id.BASIC
  · subst hclass
    by_cases hack : methodId = basic_method.ACK
    · subst hack
      exact enacts_handleBasicAck hstable (hset rfl)
    · by_cases hreject : methodId = basic_method.REJECT
      · subst hreject
        exact enacts_handleBasicReject hstable (hset rfl)
      · by_cases hnack : methodId = basic_method.NACK
        · subst hnack
          exact enacts_handleBasicNack hstable (hset rfl)
        · exact enacts_handleMethod_of_ne (fun _ => by simp [hack, hreject, hnack]) buf
  · exact enacts_handleMethod_of_ne (fun h => absurd h hclass) buf

theorem enacts_shutdown : Enacts Settles s (s.shutdown c) := by
  rw [shutdown]
  split
  · exact .refl
  · split
    · exact .refl
    · exact (Enacts.of_does ((Does.of .shut).trans does_cleanupAllChannels) (by decide)).trans
        (.perform (.removeConnectionQueues c) trivial VHostOp.noConfusion)

theorem enacts_handleConnectionMethod (methodId : UInt16) (buf : Buffer) :
    Enacts Settles s (outcome (s.handleConnectionMethod c methodId buf)) := by
  have hclose : Enacts Settles s (outcome (s.handleConnectionClose c buf)) :=
    outcome_withArgs .refl fun _ => (Enacts.of_does (does_sendMethodFrame _ _ _ rfl) (by decide)).trans enacts_shutdown
  rw [handleConnectionMethod]
  refine outcome_ite (.of_does (does_handleStartOk buf) (by decide))
    (outcome_ite (.of_does (does_handleTuneOk buf) (by decide))
      (outcome_ite (.of_does (does_handleConnectionOpen buf) (by decide)) (outcome_ite hclose
        (outcome_ite enacts_shutdown ?_))))
  exact .of_does (does_sendConnectionClose ..) (by decide)

theorem enacts_handleMethodFrame (hstable : Stable Settles) {buf : Buffer}
    (hset : ∀ classId methodId rest, readMethodIds buf = .ok ((classId, methodId), rest) → classId = class_id.BASIC →
      (s.openChannelAt c num).isSome →
      ∀ u ∈ (settledBy c num s methodId rest).filterMap (s.unackedAt c num), Settles s u) :
    Enacts Settles s (outcome (s.handleMethodFrame c num buf)) := by
  rw [handleMethodFrame]
  split
  · exact .refl
  · rename_i classId methodId rest hread
    refine outcome_ite (outcome_ite ?_ ?_) (outcome_ite ?_ (outcome_ite ?_ (outcome_ite ?_ (outcome_ite ?_ ?_))))
    · exact .of_does (does_sendConnectionClose ..) (by decide)
    · exact enacts_handleConnectionMethod ..
    · exact .of_does (does_handleChannelOpen _) (by decide)
    · exact .of_does (does_handleChannelClose _) (by decide)
    · exact .of_does does_cleanupChannel (by decide)
    · exact .of_does (does_handleChannelFlow _) (by decide)
    · rw [handleOnChannel]
      split
      · exact .of_does (does_sendConnectionClose ..) (by decide)
      · rename_i hopen
        exact enacts_handleMethod hstable fun hclass => hset classId methodId rest hread hclass (by rw [hopen]; rfl)

theorem enacts_handleClosing (buf : Buffer) : Enacts Settles s (outcome (s.handleClosing c buf)) := by
  rw [handleClosing]
  split
  · exact .refl
  · dsimp only [outcome]
    split
    · exact enacts_shutdown
    · exact .refl

/-! ### Events -/

/-- The records of a publish that the event completes fit into an entry. --/
def RecordsFit (s : AmqpServer) : Event → Prop
  | .frame c frame _ => ∀ p ∈ s.completed c frame, s.PublishFits c p
  | _ => True

theorem enacts_handleFrame (hstable : Stable Settles) {frame : Frame} {frameEnd : UInt8} (hserved : Served c s frame frameEnd)
    (hfit : s.RecordsFit (.frame c frame frameEnd)) (hset : ∀ u ∈ s.settlements (.frame c frame frameEnd), Settles s u) :
    Enacts Settles s (outcome (s.handleFrame c frame)) := by
  have hcontent : ∀ k ∈ contentKinds, k ∈ unsettledKinds := by decide
  rw [handleFrame]
  refine outcome_ite_of (fun _ => enacts_handleClosing _) fun hclosing => ?_
  by_cases hmethod : frame.type = FRAME_METHOD
  · rw [if_pos hmethod]
    refine enacts_handleMethodFrame hstable fun classId methodId rest hread hclass hopen u hu => hset u ?_
    have hstate : (s.connection c).map Connection.state ≠ some .CLOSING := fun h => hclosing ⟨h, hmethod⟩
    rw [settlements, if_pos ⟨hserved, hstate, hmethod, hopen⟩, hread]
    dsimp only
    rw [if_pos hclass]
    exact hu
  · rw [if_neg hmethod]
    by_cases hheader : frame.type = FRAME_HEADER
    · rw [if_pos hheader]
      split
      · exact .refl
      · refine .of_does (does_handleContentHeader hcontent (.inr fun p p' hp hc => hfit p' ?_)) fun _ => id
        rw [completed, hp, Option.bind_some, if_pos hheader]
        exact hc
    · rw [if_neg hheader]
      by_cases hbody : frame.type = FRAME_BODY
      · rw [if_pos hbody]
        split
        · exact .refl
        · refine .of_does (does_handleContentBody hcontent (.inr fun p p' hp hc => hfit p' ?_)) fun _ => id
          rw [completed, hp, Option.bind_some, if_neg hheader, if_pos hbody]
          exact hc
      · rw [if_neg hbody]
        exact outcome_ite .refl (.of_does (does_sendConnectionClose ..) (by decide))

/-- The steps of an event. --/
theorem enacts_handle (hstable : Stable Settles) (hfit : s.RecordsFit e) (hset : ∀ u ∈ s.settlements e, Settles s u)
    (hrestart : e ≠ .restart) : Enacts Settles s (s.handle e) := by
  cases e with
  | accept => exact .of_does (.of (.accept (c := 0))) (by decide)
  | protocolHeader c header =>
    rw [handle]
    split
    · exact .refl
    · rename_i conn hconn
      split
      · rename_i h
        rw [receiveProtocolHeader]
        split
        · exact .of_does ((does_awaitStartOk hconn h.2).trans (does_sendMethodFrame _ _ _ rfl)) (by decide)
        · exact (Enacts.of_does (.of (.send .protocolHeader)) (by decide)).trans enacts_shutdown
      · exact .refl
  | frame c frame frameEnd =>
    have hstop : ∀ (s₁ : AmqpServer) text, Enacts Settles s₁ (s₁.stopReading c text) :=
      fun _ _ => .of_does (does_stopReading _) (by decide)
    rcases handle_frame_cases c s frame frameEnd with ⟨-, heq | ⟨text, heq⟩⟩ | ⟨hserved, hok⟩
    · rw [heq]
      exact .refl
    · rw [heq]
      exact hstop s text
    · have hframe := enacts_handleFrame hstable hserved hfit hset
      rcases hok with hok | ⟨s₁, text, herror, heq⟩
      · rwa [hok] at hframe
      · rw [herror] at hframe
        rw [heq]
        exact hframe.trans (hstop s₁ text)
  | runTask c => exact .of_does (c := c) does_runTask (by decide)
  | disconnect c => exact enacts_shutdown
  | tick => exact .of_does (c := 0) does_tick (by decide)
  | compact => exact .of_does (.of (.compact (c := 0))) (by decide)
  | restart => exact absurd rfl hrestart
  | reorderQueues order => exact .of_does (.of (.reorderQueues (c := 0) order)) (by decide)
  | reorderExchanges order => exact .of_does (.of (.reorderExchanges (c := 0) order)) (by decide)
  | reorderChannels c order => exact .of_does (.of (.reorderChannels (c := c) order)) (by decide)
  | reorderConsumers c num order => exact .of_does (.of (.reorderConsumers (c := c) num order)) (by decide)
  | reorderUnacked c num order => exact .of_does (.of (.reorderUnacked (c := c) num order)) (by decide)

/-- The events happen one after the other, each of them in a state in which it meets the condition. --/
def EventsOk (Ok : AmqpServer → Event → Prop) : AmqpServer → List Event → Prop
  | _, [] => True
  | s, e :: events => Ok s e ∧ EventsOk Ok (s.handle e) events

instance (Ok : AmqpServer → Event → Prop) [∀ s e, Decidable (Ok s e)] :
    (s : AmqpServer) → (events : List Event) → Decidable (EventsOk Ok s events)
  | _, [] => inferInstanceAs (Decidable True)
  | s, e :: events =>
    have : Decidable (EventsOk Ok (s.handle e) events) := instDecidableEventsOk Ok (s.handle e) events
    inferInstanceAs (Decidable (Ok s e ∧ EventsOk Ok (s.handle e) events))

/-- The invariant rule. --/
theorem EventsOk.keeps {Ok : AmqpServer → Event → Prop} {P : AmqpServer → Prop} {events : List Event}
    (h : EventsOk Ok s events) (hP : ∀ s e, Ok s e → P s → P (s.handle e)) (hs : P s) : P (s.run events) := by
  induction events generalizing s with
  | nil => exact hs
  | cons e events ih => exact ih h.2 (hP s e h.1 hs)

theorem stable_true : Stable fun _ _ => True := fun _ _ _ _ _ _ _ _ _ _ _ => trivial

/-- A run of events whose records fit is a run of a virtual host. --/
theorem vhostRun_of_run {events : List Event} (hs : Regular s) (hok : EventsOk RecordsFit s events) :
    VHostRun (fun _ _ => True) s (s.run events) := by
  have hmove : ∀ {c : Nat} {k : Kind} {s s' : AmqpServer}, k ∈ trafficKinds → Move c k s s' →
      VHostStep (fun _ _ => True) s s' :=
    fun hk hm => .traffic (.mono (.of hm) fun _ hk' => List.mem_singleton.mp hk' ▸ hk)
  have hstep : ∀ s₁ s₂, BrokerStep (fun _ _ => True) s₁ s₂ → VHostStep (fun _ _ => True) s₁ s₂ := by
    intro s₁ s₂ hstep
    cases hstep with
    | op hshort hrestart => exact .op hshort trivial
    | settle hu hok => exact hmove (by decide) (Move.settle (c := 0) _ hu)
    | traffic hk hm => exact hmove (traffic_of_unsettled hk) hm
  refine (hok.keeps (P := fun s' => Regular s' ∧ VHostRun (fun _ _ => True) s s') ?_ ⟨hs, .refl⟩).2
  rintro s₁ e hfit ⟨hs₁, hrun⟩
  by_cases hrestart : e = .restart
  · subst hrestart
    have hstart : VHostStep (fun _ _ => True) s₁ (s₁.perform .restart) := .op trivial trivial
    exact ⟨hs₁.restart, hrun.tail hstart⟩
  · have henacts := (enacts_handle stable_true hfit (fun _ _ => trivial) hrestart).run hs₁
    exact ⟨hs₁.run henacts, hrun.trans (Relation.ReflTransGen.mono hstep _ _ henacts)⟩

end AmqpServer
end Broko.Broker
