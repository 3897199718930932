import Broko.Broker.Client
import Broko.Theorems.Requests
import Broko.Theorems.Sends
import Broko.Theorems.VHostSteps

/-! Exclusive queues. `declareQueue` compares the id of the owner of an exclusive queue with that of the connection that
    asks; no other operation that takes the name of a queue does. -/

namespace Broko.Broker
open Amqp Storage

/-- The queue that a method is about; a declaration without a name asks for a new one. --/
def Method.names : Method → Option Bytes
  | .queueDeclare queue _ _ => if queue = [] then none else some queue
  | .queueBind queue .. => some queue
  | .queueUnbind queue .. => some queue
  | .queuePurge queue _ => some queue
  | .queueDelete queue _ => some queue
  | .basicConsume queue .. => some queue
  | .basicCancel .. => none
  | .basicGet queue _ => some queue

namespace AmqpServer

variable {c : Nat} {num : UInt16} {s s' : AmqpServer}

/-! ### Refusals -/

/-- The frame closes the channel with the code `RESOURCE_LOCKED`. --/
def isLocked (num : UInt16) : Outgoing → Bool
  | .frame f => f.type = FRAME_METHOD ∧ f.channel = num ∧
    f.payload.take 6 = writeUint16 class_id.CHANNEL ++ writeUint16 channel_method.CLOSE ++
      writeUint16 reply_code.RESOURCE_LOCKED
  | .protocolHeader => false

/-- The request is refused as locked, and the queue is as it was. --/
structure Refused (s s' : AmqpServer) (c : Nat) (num : UInt16) (name : Bytes) : Prop where
  locked : ∃ out, isLocked num out ∧ Sends c s s' [out]
  queue : s'.queue name = s.queue name
  bindings : ∀ exchange, (s'.bindingsOf exchange).filter (fun b => b.queue_name = name) =
    (s.bindingsOf exchange).filter fun b => b.queue_name = name
  messages : ∀ r, s'.message r = s.message r
  consumers : ∀ k, s'.consumer k = s.consumer k

theorem not_refused {conn : Connection} (hconn : s.connection c = some conn) {outs : List Outgoing} (h : Sends c s s' outs)
    (hout : ∀ out ∈ outs.head?, isLocked num out = false) {name : Bytes} : ¬Refused s s' c num name := by
  rintro ⟨⟨out, hlocked, hsends⟩, -⟩
  obtain rfl := h.unique hconn hsends
  rw [hout out rfl] at hlocked
  cases hlocked

theorem take_method {classId methodId : UInt16} {args : Bytes} {bs₁ bs₂ bs₃ : Bytes} (h₁ : bs₁.length = 2)
    (h₂ : bs₂.length = 2)
    (h : (writeUint16 classId ++ writeUint16 methodId ++ args).take 6 = bs₁ ++ bs₂ ++ bs₃) :
    writeUint16 classId = bs₁ ∧ args.take 2 = bs₃ := by
  have htake : (writeUint16 classId ++ writeUint16 methodId ++ args).take 6 =
      writeUint16 classId ++ writeUint16 methodId ++ args.take 2 := by
    rw [List.take_append, List.take_of_length_le (by simp)]
    simp
  rw [htake] at h
  obtain ⟨hhead, hargs⟩ := List.append_inj h (by simp [h₁, h₂])
  exact ⟨(List.append_inj hhead (by simp [h₁])).1, hargs⟩

/-- A method of another class than that of channels is no refusal. --/
theorem not_locked_of_class {classId methodId : UInt16} {args : Bytes}
    (h : writeUint16 classId ≠ writeUint16 class_id.CHANNEL) :
    isLocked num (.frame (methodFrame num classId methodId args)) = false := by
  rw [isLocked, decide_eq_false_iff_not]
  exact fun hall => h (take_method (BigEndian.length_encode ..) (BigEndian.length_encode ..) hall.2.2).1

/-- A close with another reply code is no refusal. --/
theorem not_locked_of_code {code : UInt16} {args : Bytes}
    (h : writeUint16 code ≠ writeUint16 reply_code.RESOURCE_LOCKED) :
    isLocked num (.frame (methodFrame num class_id.CHANNEL channel_method.CLOSE (writeUint16 code ++ args))) = false := by
  rw [isLocked, decide_eq_false_iff_not]
  intro hall
  have hcode := (take_method (BigEndian.length_encode ..) (BigEndian.length_encode ..) hall.2.2).2
  rw [List.take_append, length_writeUint16, List.take_of_length_le (length_writeUint16 code).le] at hcode
  exact h (by simpa using hcode)

/-! ### The methods -/

theorem notFound_ne (what : String) (name : Bytes) :
    writeUint16 (notFound what name).replyCode ≠ writeUint16 reply_code.RESOURCE_LOCKED := by
  change writeUint16 404 ≠ writeUint16 reply_code.RESOURCE_LOCKED
  decide

theorem queue_ne : writeUint16 class_id.QUEUE ≠ writeUint16 class_id.CHANNEL := by decide

theorem basic_ne : writeUint16 class_id.BASIC ≠ writeUint16 class_id.CHANNEL := by decide

/-- Which frames a method sends, up to the first of them. --/
structure Answers (s s' : AmqpServer) (c : Nat) (num : UInt16) : Prop where
  outs : ∃ outs, Sends c s s' outs ∧ ∀ out ∈ outs.head?, isLocked num out = false

theorem Answers.silent (h : Sends c s s' []) : Answers s s' c num := ⟨[], h, nofun⟩

/-- After nothing was sent, an answer of another class. --/
theorem Answers.ok {s₁ : AmqpServer} (h : Sends c s s₁ []) {classId methodId : UInt16} {args : Bytes}
    (hclass : writeUint16 classId ≠ writeUint16 class_id.CHANNEL) :
    Answers s (s₁.sendMethodFrame c num classId methodId args) c num :=
  ⟨_, h.after (Sends.sendMethodFrame num classId methodId args), fun out hout => by
    obtain rfl := Option.some.inj hout
    exact not_locked_of_class hclass⟩

theorem Answers.close {code : UInt16} {text : Bytes} {classId methodId : UInt16}
    (hcode : writeUint16 code ≠ writeUint16 reply_code.RESOURCE_LOCKED) :
    Answers s (s.sendChannelClose c num code text classId methodId) c num := by
  refine ⟨_, Sends.sendMethodFrame _ _ _ _, fun out hout => ?_⟩
  obtain rfl := Option.some.inj hout
  rw [List.append_assoc, List.append_assoc]
  exact not_locked_of_code hcode

theorem answers_consume (ch : Channel) (queue tag : Bytes) (bits : UInt8) :
    Answers s (s.consume c num ch queue tag bits) c num := by
  rw [consume]
  generalize (if tag = [] then ch.consumerTagCounter + 1 else ch.consumerTagCounter) = counter
  generalize consumerTag c num ch tag = tag'
  have hmapped : Sends c s (({ s with consumerHeap := s.consumerHeap.alloc (newConsumer c num ch queue tag' bits) } :
      AmqpServer).modifyChannel c num fun ch =>
        { ch with consumerTagCounter := counter, consumers := ch.consumers.insert tag' s.consumerHeap.size }) [] :=
    .modifyConnection (s := { s with consumerHeap := _ }) fun _ => rfl
  have hadd : ∀ (s₁ : AmqpServer) (k : Ref), Sends c s₁ (s₁.addConsumer queue k) [] := by
    intro s₁ k
    refine Sends.after ?_ (Sends.dispatchLocked queue)
    exact .of_connections rfl
  split
  · exact .silent (hmapped.after (hadd _ _))
  · refine ⟨_, (hmapped.after (Sends.sendMethodFrame num class_id.BASIC basic_method.CONSUME_OK _)).trans (hadd _ _),
      fun out hout => ?_⟩
    obtain rfl := Option.some.inj hout
    exact not_locked_of_class basic_ne

theorem answers_handGet {s₁ : AmqpServer} (h : Sends c s s₁ []) (ch : Channel) (queue : Bytes) (noAck : Bool) (r : Ref) :
    Answers s (s₁.handGet c num ch queue noAck r) c num := by
  have hheld : ∀ s₂ : AmqpServer, Sends c s s₂ [] → Answers s
      ((s₂.takeTag c num).sendGetOk c num queue ch.nextDeliveryTag (s₁.message r)) c num := by
    intro s₂ h₂
    obtain ⟨outs, hcontent⟩ := Sends.exists_sendContentFrames (c := c) (s := (s₂.takeTag c num).sendMethodFrame c num class_id.BASIC
      basic_method.GET_OK _) num class_id.BASIC (s₁.message r).properties (s₁.message r).body
    refine ⟨_, ((h₂.after (.modifyChannel _ _)).after
      (Sends.sendMethodFrame num class_id.BASIC basic_method.GET_OK _)).trans hcontent, fun out hout => ?_⟩
    obtain rfl := Option.some.inj hout
    exact not_locked_of_class basic_ne
  rw [handGet]
  split
  · exact hheld _ (h.after (.of_connections rfl))
  · exact hheld _ (h.after (.modifyChannel _ _))

/-- Every method on a queue that exists, but for a declaration that is not passive under another id. --/
theorem answers_act (hv : Valid s) {m : Method} {name : Bytes} {q : MessageQueue} {ch : Channel} (hname : m.names = some name)
    (hq : s.queue name = some q) (hch : s.channel c num = some ch)
    (hm : ∀ bits args, m = .queueDeclare name bits args → hasBit bits 0x01 = false → idOf q.owner_connection = idOf c) :
    Answers s (s.act c num m) c num := by
  cases m with
  | queueDeclare queue bits args =>
    rw [Method.names] at hname
    split at hname
    · cases hname
    · rename_i hne
      obtain rfl := Option.some.inj hname
      have hdeclared : s.declareQueue queue (hasBit bits 0x01) (hasBit bits 0x02) (hasBit bits 0x04) (hasBit bits 0x08)
          args c = (.ok queue, s) := by
        rw [declareQueue, if_neg hne, if_neg hne, hq]
        dsimp only
        split
        · rfl
        · rename_i hactive
          rw [if_neg fun h => h.2 (hm bits args rfl (Bool.not_eq_true _ ▸ hactive))]
      rw [act, hdeclared]
      dsimp only
      split
      · exact .silent .refl
      · exact .ok .refl queue_ne
  | queueBind queue exchange routingKey bits args =>
    obtain rfl := Option.some.inj hname
    rw [act, bindQueue, hq]
    cases s.exchanges.lookup exchange with
    | none => exact .close (notFound_ne _ _)
    | some ex =>
      dsimp only [reply]
      split
      · exact .silent (.of_connections rfl)
      · refine .ok ?_ queue_ne
        exact .of_connections rfl
  | queueUnbind queue exchange routingKey =>
    rw [act, unbindQueue]
    cases s.exchanges.lookup exchange with
    | none => exact .close (notFound_ne _ _)
    | some ex =>
      dsimp only [reply]
      refine .ok ?_ queue_ne
      exact .of_connections rfl
  | queuePurge queue bits =>
    obtain rfl := Option.some.inj hname
    have hpurge : Sends c s (s.purge queue) [] := by
      rw [purge, hq]
      exact .of_connections rfl
    rw [act, hq]
    dsimp only
    split
    · exact .silent hpurge
    · exact .ok hpurge queue_ne
  | queueDelete queue bits =>
    obtain rfl := Option.some.inj hname
    rw [act, deleteQueue, hq]
    dsimp only
    split
    · rename_i e heq
      split at heq
      · obtain rfl := Except.error.inj heq
        exact .close (by decide)
      · split at heq
        · obtain rfl := Except.error.inj heq
          exact .close (by decide)
        · cases heq
    · rename_i n s₁ heq
      have hs₁ : s₁.connections = s.connections := by
        split at heq
        · cases heq
        · split at heq
          · cases heq
          · obtain ⟨-, rfl⟩ := Prod.mk.inj (Except.ok.inj heq)
            rfl
      split
      · exact .silent (.of_connections hs₁)
      · exact .ok (.of_connections hs₁) queue_ne
  | basicConsume queue tag bits =>
    obtain rfl := Option.some.inj hname
    rw [act, hq, hch]
    exact answers_consume ..
  | basicCancel tag bits => cases hname
  | basicGet queue bits =>
    obtain rfl := Option.some.inj hname
    have hget : Sends c s (s.get queue).2 [] := .does hv (does_get (c := c) queue) (by decide)
    rw [act, hq, hch]
    dsimp only
    split
    · rename_i heq
      rw [heq] at hget
      exact .ok hget basic_ne
    · rename_i r s₁ heq
      rw [heq] at hget
      exact answers_handGet hget ..

/-- A close with the code for locked resources is a refusal. --/
theorem locked_of_code (args : Bytes) : isLocked num (.frame (methodFrame num class_id.CHANNEL channel_method.CLOSE
    (writeUint16 reply_code.RESOURCE_LOCKED ++ args))) = true := by
  rw [isLocked, decide_eq_true_iff]
  refine ⟨rfl, rfl, ?_⟩
  change List.take 6 (_ ++ _ ++ (_ ++ args)) = _
  rw [← List.append_assoc]
  exact List.take_left' (by simp)

/-- A declaration that is not passive. --/
theorem refused_declare {name : Bytes} {bits : UInt8} {args : FieldTable} {q : MessageQueue} (hne : name ≠ [])
    (hq : s.queue name = some q) (hexclusive : q.exclusive = true) (howner : idOf q.owner_connection ≠ idOf c)
    (hbits : hasBit bits 0x01 = false) : Refused s (s.act c num (.queueDeclare name bits args)) c num name := by
  have hact : s.act c num (.queueDeclare name bits args) = s.sendChannelClose c num 405
      (ascii "RESOURCE_LOCKED - queue '" ++ name ++ ascii "' is exclusive") class_id.QUEUE queue_method.DECLARE := by
    rw [act, declareQueue, if_neg hne, if_neg hne, hq, hbits]
    dsimp only
    rw [if_neg Bool.false_ne_true, if_pos ⟨hexclusive, howner⟩]
  rw [hact]
  refine ⟨⟨_, ?_, Sends.sendMethodFrame _ _ _ _⟩, rfl, fun _ => rfl, fun _ => rfl, fun _ => rfl⟩
  rw [List.append_assoc, List.append_assoc]
  exact locked_of_code _

section
variable {store : Option MessageStore} {userStore : UserStore} {clock : Nat → Int} {readings : Nat}

/-- A method that names an exclusive queue is refused if, and only if, it declares the queue, is not passive and comes
    from a connection with another id than the owner's. --/
theorem exclusive_private_iff {events : List Event} {e : Event} {m : Method} {name : Bytes} {q : MessageQueue}
    (hrun : s = (start store userStore clock readings).run events) (hrequest : s.request e = .method c num m)
    (hname : m.names = some name) (hq : s.queue name = some q) (hexclusive : q.exclusive = true) :
    Refused s (s.handle e) c num name ↔
      (∃ bits args, m = .queueDeclare name bits args ∧ hasBit bits 0x01 = false) ∧ idOf q.owner_connection ≠ idOf c := by
  have hv : Valid s := hrun ▸ valid_run valid_start events
  obtain ⟨conn, ch, hconn, hch, hhandle⟩ := handle_of_method hrequest
  rw [hhandle]
  constructor
  · intro hrefused
    by_contra hno
    have hanswers : Answers s (s.act c num m) c num := answers_act hv hname hq hch fun bits args hm hbits =>
      of_not_not fun hne => hno ⟨⟨bits, args, hm, hbits⟩, hne⟩
    obtain ⟨outs, hsends, hout⟩ := hanswers.outs
    exact not_refused hconn hsends hout hrefused
  · rintro ⟨⟨bits, args, rfl, hbits⟩, howner⟩
    rw [Method.names] at hname
    split at hname
    · cases hname
    · rename_i hne
      exact refused_declare hne hq hexclusive howner hbits

/-- Connection 1 declares the exclusive queue "q" and publishes to it, and connection 2 opens a channel. --/
def privateRun : List Event :=
  Client.connect 1 ++ Client.connect 2 ++
    [Client.openChannel 1 1, Client.openChannel 2 1, Client.assertQueue 1 1 (ascii "q") false false true false []] ++
    Client.sendToQueue 1 1 (ascii "q") (ascii "body") {}

theorem privateRun_queue : ∃ q, (freshServer.run privateRun).queue (ascii "q") = some q ∧ q.exclusive = true ∧
    q.owner_connection = 1 ∧ q.messages.length = 1 := by
  have h : ((freshServer.run privateRun).queue (ascii "q")).any
      fun q => q.exclusive && decide (q.owner_connection = 1 ∧ q.messages.length = 1) := by decide +kernel
  obtain ⟨q, hq, hall⟩ := (Option.any_eq_true _ _).mp h
  exact ⟨q, hq, by simpa using hall⟩

/-- The declaration of connection 2 is refused. --/
theorem exclusive_declare_refused :
    Refused (freshServer.run privateRun)
      ((freshServer.run privateRun).handle (Client.assertQueue 2 1 (ascii "q") false false false false [])) 2 1
      (ascii "q") := by
  obtain ⟨q, hq, hexclusive, howner, -⟩ := privateRun_queue
  have hrequest : ((freshServer.run privateRun).request
      (Client.assertQueue 2 1 (ascii "q") false false false false [])).isMethod 2 1
        (fun | .queueDeclare name bits _ => name = ascii "q" && !hasBit bits 0x01 | _ => false) = true := by decide +kernel
  obtain ⟨m, hm, hp⟩ := eq_method_of_isMethod hrequest
  cases m with
  | queueDeclare name bits args =>
    obtain ⟨rfl, hbits⟩ : name = ascii "q" ∧ hasBit bits 0x01 = false := by simpa using hp
    exact (exclusive_private_iff rfl hm rfl hq hexclusive).mpr ⟨⟨bits, args, rfl, hbits⟩, by rw [howner]; decide⟩
  | _ => cases hp

/-- Connection 2 purges the exclusive queue of connection 1, which has a message. --/
theorem exclusive_queue_purged :
    let s := freshServer.run privateRun
    let e := Client.purgeQueue 2 1 (ascii "q")
    (s.request e).isMethod 2 1 (fun m => m.names = some (ascii "q")) = true ∧
      (∃ q, s.queue (ascii "q") = some q ∧ q.exclusive = true ∧ q.owner_connection = 1 ∧ q.messages.length = 1) ∧
      ((s.handle e).queue (ascii "q")).any (fun q => q.messages.isEmpty) = true ∧
      ¬Refused s (s.handle e) 2 1 (ascii "q") := by
  intro s e
  have hpurged : ((s.handle e).queue (ascii "q")).any (fun q => q.messages.isEmpty) = true := by decide +kernel
  refine ⟨by decide +kernel, privateRun_queue, hpurged, fun hrefused => ?_⟩
  obtain ⟨q, hq, -, -, hlength⟩ := privateRun_queue
  rw [hrefused.queue, hq] at hpurged
  obtain hempty : q.messages = [] := by simpa using hpurged
  rw [hempty] at hlength
  cases hlength

end

end AmqpServer
end Broko.Broker
