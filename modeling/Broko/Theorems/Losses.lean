import Broko.Theorems.Flow

/-! Every event that a broker handles lets messages go through the hands of its handler, and it says which deliveries can
    get lost in it. A consumer is registered by a consume and by nothing else. -/

namespace Broko.Broker
open Amqp Storage MessageStore

namespace AmqpServer

/-- The deliveries that a method of a channel puts back or drops without giving their credit back: a reject or nack with
    requeue, and a recover. --/
inductive MethodLoses (c : Nat) (num : UInt16) (s : AmqpServer) : UInt16 → UInt16 → Buffer → UnackedMessage → Prop
  | reject {buf rest : Buffer} {deliveryTag : UInt64} {bits : UInt8} {u : UnackedMessage}
      (hargs : readSettleArgs buf = .ok ((deliveryTag, bits), rest)) (hrequeue : hasBit bits 0x01 = true)
      (hu : (num, deliveryTag.toNat, u) ∈ s.holdings c num) :
      MethodLoses c num s class_id.BASIC basic_method.REJECT buf u
  | nack {buf rest : Buffer} {deliveryTag : UInt64} {bits : UInt8} {tag : Nat} {u : UnackedMessage}
      (hargs : readSettleArgs buf = .ok ((deliveryTag, bits), rest)) (hrequeue : hasBit bits 0x02 = true)
      (htag : tag ∈ s.settledTags c num deliveryTag (hasBit bits 0x01)) (hu : (num, tag, u) ∈ s.holdings c num) :
      MethodLoses c num s class_id.BASIC basic_method.NACK buf u
  | recover {buf rest : Buffer} {methodId : UInt16} {bits : UInt8} {tag : Nat} {u : UnackedMessage}
      (hid : methodId = basic_method.RECOVER ∨ methodId = basic_method.RECOVER_ASYNC)
      (hargs : readUint8 buf = .ok (bits, rest)) (hu : (num, tag, u) ∈ s.holdings c num) :
      MethodLoses c num s class_id.BASIC methodId buf u

/-- The deliveries that an event loses: those of such a method, those that a channel holds over which another one is
    opened, and a posted one whose channel is not there any more, is closed, or does not have its consumer. --/
inductive Loses (s : AmqpServer) : Event → Loss → Prop
  | method {c : Nat} {frame : Frame} {frameEnd : UInt8} {classId methodId : UInt16} {buf : Buffer} {ch : Channel}
      {u : UnackedMessage} (hserved : Served c s frame frameEnd)
      (hstate : (s.connection c).map Connection.state ≠ some .CLOSING) (htype : frame.type = FRAME_METHOD)
      (hids : readMethodIds (Buffer.ofBytes frame.payload) = .ok ((classId, methodId), buf))
      (hch : s.openChannelAt c frame.channel = some ch) (h : MethodLoses c frame.channel s classId methodId buf u) :
      Loses s (.frame c frame frameEnd) (.held u)
  | openChannel {c : Nat} {frame : Frame} {frameEnd : UInt8} {buf rest : Buffer} {reserved : Bytes} {conn : Connection}
      {tag : Nat} {u : UnackedMessage} (hserved : Served c s frame frameEnd)
      (hstate : (s.connection c).map Connection.state ≠ some .CLOSING) (htype : frame.type = FRAME_METHOD)
      (hids : readMethodIds (Buffer.ofBytes frame.payload) = .ok ((class_id.CHANNEL, channel_method.OPEN), buf))
      (hargs : readShortString buf = .ok (reserved, rest)) (hconn : s.connection c = some conn)
      (hnum : ¬(frame.channel = 0 ∨ conn.channelMax < frame.channel))
      (hu : (frame.channel, tag, u) ∈ s.holdings c frame.channel) : Loses s (.frame c frame frameEnd) (.held u)
  | posted {c : Nat} {conn : Connection} {t : DeliverTask} {rest : List DeliverTask} (hconn : s.connection c = some conn)
      (hstrand : conn.strand = t :: rest)
      (hgone : ∀ ch, s.lockChannel c t = some ch → ch.isOpen = true → ch.consumers.lookup t.tag = none) :
      Loses s (.runTask c) (.posted t)

/-- How an event is handled: a consumer is registered, or messages go through the hands of the handler. --/
inductive Turn (c : Nat) (L : Loss → Prop) (s : AmqpServer) : Outcome → Prop
  | consume {num : UInt16} {ch : Channel} {queue tag : Bytes} {bits : UInt8} (hch : s.channel c num = some ch) :
      Turn c L s (.ok (s.consume c num ch queue tag bits))
  | passes {o : Outcome} (h : Passes c L {} s {} (outcome o)) : Turn c L s o

variable {c : Nat} {num : UInt16} {s s' : AmqpServer} {L : Loss → Prop}

/-! ### Methods -/

/-- The methods that register a consumer or put messages back. --/
def restless : List UInt16 :=
  [basic_method.CONSUME, basic_method.REJECT, basic_method.NACK, basic_method.RECOVER, basic_method.RECOVER_ASYNC]

theorem passes_handleBasicAck (buf : Buffer) : Passes c L {} s {} (outcome (s.handleBasicAck c num buf)) :=
  outcome_withArgs .refl fun _ => passes_settleAll (A := fun _ => True) (fun _ u => channel_persistAck u) _ _
    (fun _ _ => trivial) fun _ _ _ _ hu _ => passes_persistAck hu

/-- Every other method. --/
theorem passes_handleMethod {classId methodId : UInt16} (h : ¬(classId = class_id.BASIC ∧ methodId ∈ restless))
    (buf : Buffer) : Passes c L {} s {} (outcome (s.handleMethod c num classId methodId buf)) := by
  refine Handlers.handleMethod (P := fun classId methodId s' =>
    ¬(classId = class_id.BASIC ∧ methodId ∈ restless) → Passes c L {} s {} s') ?_ classId methodId buf h
  constructor
  case exchangeDeclare => exact fun buf _ => .does (does_handleExchangeDeclare buf) (by decide)
  case exchangeDelete => exact fun buf _ => .does (does_handleExchangeDelete buf) (by decide)
  case queueDeclare => exact fun buf _ => .does (does_handleQueueDeclare buf) (by decide)
  case queueBind => exact fun buf _ => .does (does_handleQueueBind buf) (by decide)
  case queueUnbind => exact fun buf _ => .does (does_handleQueueUnbind buf) (by decide)
  case queuePurge => exact fun buf _ => .does (does_handleQueuePurge buf) (by decide)
  case queueDelete => exact fun buf _ => .does (does_handleQueueDelete buf) (by decide)
  case basicQos => exact fun buf _ => .does (does_handleBasicQos buf) (by decide)
  case basicConsume => exact fun buf h => absurd (by decide) h
  case basicCancel => exact fun buf _ => .does (does_handleBasicCancel buf) (by decide)
  case basicPublish => exact fun buf _ => .does (does_handleBasicPublish buf) (by decide)
  case basicGet => exact fun buf _ => passes_handleBasicGet buf
  case basicAck => exact fun buf _ => passes_handleBasicAck buf
  case basicReject => exact fun buf h => absurd (by decide) h
  case basicRecover => exact fun buf h => absurd (by decide) h
  case basicRecoverAsync => exact fun buf h => absurd (by decide) h
  case basicNack => exact fun buf h => absurd (by decide) h
  case confirmSelect => exact fun buf _ => .does (does_handleConfirmSelect buf) (by decide)
  case tx => exact fun _ okId _ => .does (does_handleTx okId) (by decide)
  case notImplemented => exact fun classId methodId _ => .does (does_sendChannelClose ..) (by decide)

theorem turn_handleBasicConsume (buf : Buffer) : Turn c L s (s.handleBasicConsume c num buf) := by
  rw [handleBasicConsume, withArgs]
  split
  · exact .passes .refl
  · rename_i args _ _
    obtain ⟨queue, tag, bits⟩ := args
    dsimp only
    split
    · exact .passes (.does (does_sendChannelClose ..) (by decide))
    · exact .passes .refl
    · rename_i hch
      exact .consume hch

theorem passes_handleBasicReject {buf : Buffer}
    (hL : ∀ u, MethodLoses c num s class_id.BASIC basic_method.REJECT buf u → L (.held u)) :
    Passes c L {} s {} (outcome (s.handleBasicReject c num buf)) := by
  rw [handleBasicReject, withArgs]
  split
  · exact .refl
  · rename_i args _ hargs
    exact passes_settle (channel_rejectUnacked _) fun u hu =>
      passes_rejectUnacked hu fun hrequeue => hL u (.reject hargs hrequeue hu)

theorem passes_handleBasicNack {buf : Buffer}
    (hL : ∀ u, MethodLoses c num s class_id.BASIC basic_method.NACK buf u → L (.held u)) :
    Passes c L {} s {} (outcome (s.handleBasicNack c num buf)) := by
  rw [handleBasicNack, withArgs]
  split
  · exact .refl
  · rename_i args _ hargs
    refine passes_settleAll (A := fun e => e ∈ s.holdings c num) (channel_rejectUnacked _) _ _ (fun _ he => he)
      fun s₁ tag htag u hu hfirst => passes_rejectUnacked hu fun hrequeue => ?_
    exact hL u (.nack hargs hrequeue htag hfirst)

theorem passes_handleBasicRecover {buf : Buffer} {methodId : UInt16}
    (hid : methodId = basic_method.RECOVER ∨ methodId = basic_method.RECOVER_ASYNC)
    (hL : ∀ u, MethodLoses c num s class_id.BASIC methodId buf u → L (.held u)) :
    Passes c L {} s {} (outcome (s.handleBasicRecover c num buf)) := by
  rw [handleBasicRecover, withArgs]
  split
  · exact .refl
  · rename_i bits _ hargs
    have hheld : ∀ e ∈ s.holdings c num, L (.held e.2.2) := by
      intro e he
      obtain ⟨num', tag, u⟩ := e
      obtain rfl : num' = num := num_of_holdings he
      exact hL u (.recover hid hargs he)
    obtain ⟨stale, hperm, hpass, hch⟩ := passes_forget (hasBit bits 0x01) hheld
    dsimp only [outcome]
    refine hpass.trans ((Passes.of (.clear num ?_)).trans (.does (does_sendMethodFrame (k := .output) _ _ _ rfl) (by decide)))
    rw [holdings_congr hch]
    exact hperm

theorem turn_handleMethod {classId methodId : UInt16} {buf : Buffer}
    (hL : ∀ u, MethodLoses c num s classId methodId buf u → L (.held u)) :
    Turn c L s (s.handleMethod c num classId methodId buf) := by
  by_cases h : classId = class_id.BASIC ∧ methodId ∈ restless
  · obtain ⟨rfl, hmem⟩ := h
    simp only [restless, List.mem_cons, List.not_mem_nil, or_false] at hmem
    rcases hmem with rfl | rfl | rfl | rfl | rfl
    · exact turn_handleBasicConsume buf
    · exact .passes (passes_handleBasicReject hL)
    · exact .passes (passes_handleBasicNack hL)
    · exact .passes (passes_handleBasicRecover (.inl rfl) hL)
    · exact .passes (passes_handleBasicRecover (.inr rfl) hL)
  · exact .passes (passes_handleMethod h buf)

/-! ### Frames -/

theorem passes_handleChannelOpen {buf : Buffer} (hL : ∀ reserved rest conn, readShortString buf = .ok (reserved, rest) →
      s.connection c = some conn → ¬(num = 0 ∨ conn.channelMax < num) → ∀ e ∈ s.holdings c num, L (.held e.2.2)) :
    Passes c L {} s {} (outcome (s.handleChannelOpen c num buf)) := by
  rw [handleChannelOpen, withArgs]
  split
  · exact .refl
  · rename_i reserved rest hargs
    dsimp only [outcome]
    cases hconn : s.connection c with
    | none => exact .refl
    | some conn =>
      dsimp only
      split
      · exact .does (does_sendConnectionClose ..) (by decide)
      · rename_i hnum
        obtain ⟨stale, hperm, hpass, -⟩ := passes_forget false (hL reserved rest conn hargs hconn hnum)
        rw [if_neg Bool.false_ne_true] at hpass
        exact hpass.trans ((Passes.of (.openChannel num (not_or.mp hnum).1 hperm)).trans
          (.does (does_sendMethodFrame (k := .output) _ _ _ rfl) (by decide)))

theorem passes_handleConnectionMethod (methodId : UInt16) (buf : Buffer) :
    Passes c L {} s {} (outcome (s.handleConnectionMethod c methodId buf)) := by
  have hclose : Passes c L {} s {} (outcome (s.handleConnectionClose c buf)) :=
    outcome_withArgs .refl fun _ => (Passes.does (does_sendMethodFrame (k := .output) _ _ _ rfl) (by decide)).trans passes_shutdown
  rw [handleConnectionMethod]
  refine outcome_ite (.does (does_handleStartOk buf) (by decide)) (outcome_ite (.does (does_handleTuneOk buf) (by decide))
    (outcome_ite (.does (does_handleConnectionOpen buf) (by decide)) (outcome_ite hclose (outcome_ite passes_shutdown ?_))))
  exact .does (does_sendConnectionClose ..) (by decide)

theorem turn_handleOnChannel {classId methodId : UInt16} {buf : Buffer}
    (hL : ∀ ch u, s.openChannelAt c num = some ch → MethodLoses c num s classId methodId buf u → L (.held u)) :
    Turn c L s (s.handleOnChannel c num classId methodId buf) := by
  rw [handleOnChannel]
  cases hch : s.openChannelAt c num with
  | none => exact .passes (.does (does_sendConnectionClose ..) (by decide))
  | some ch => exact turn_handleMethod fun u => hL ch u hch

theorem turn_handleMethodFrame {frame : Frame} {frameEnd : UInt8} (hserved : Served c s frame frameEnd)
    (hstate : (s.connection c).map Connection.state ≠ some .CLOSING) (htype : frame.type = FRAME_METHOD) :
    Turn c (Loses s (.frame c frame frameEnd)) s
      (s.handleMethodFrame c frame.channel (Buffer.ofBytes frame.payload)) := by
  rw [handleMethodFrame]
  split
  · exact .passes .refl
  · rename_i classId methodId buf hids
    split
    · split
      · exact .passes (.does (does_sendConnectionClose ..) (by decide))
      · exact .passes (passes_handleConnectionMethod ..)
    · split
      · rename_i hopen
        obtain ⟨rfl, rfl⟩ := hopen
        refine .passes (passes_handleChannelOpen fun reserved rest conn hargs hconn hnum e he => ?_)
        obtain ⟨num, tag, u⟩ := e
        obtain rfl : num = frame.channel := num_of_holdings he
        exact .openChannel hserved hstate htype hids hargs hconn hnum he
      · split
        · refine .passes (outcome_withArgs .refl fun _ => ?_)
          exact passes_cleanupChannel.trans (.does (does_sendMethodFrame (k := .output) _ _ _ rfl) (by decide))
        · split
          · exact .passes passes_cleanupChannel
          · split
            · exact .passes (.does (does_handleChannelFlow buf) (by decide))
            · exact turn_handleOnChannel fun ch u hch hu => .method hserved hstate htype hids hch hu

theorem turn_handleFrame {frame : Frame} {frameEnd : UInt8} (hserved : Served c s frame frameEnd) :
    Turn c (Loses s (.frame c frame frameEnd)) s (s.handleFrame c frame) := by
  rw [handleFrame]
  split
  · refine .passes ?_
    rw [handleClosing]
    split
    · exact .refl
    · dsimp only [outcome]
      split
      · exact passes_shutdown
      · exact .refl
  · rename_i hclosing
    split
    · rename_i htype
      exact turn_handleMethodFrame hserved (fun hstate => hclosing ⟨hstate, htype⟩) htype
    · refine .passes (outcome_ite ?_ (outcome_ite ?_ (outcome_ite .refl (.does (does_sendConnectionClose ..) (by decide)))))
      · split
        · exact .refl
        · exact .does (does_handleContentHeader (K := .oversize :: contentKinds) (by decide) (.inl List.mem_cons_self)) (by decide)
      · split
        · exact .refl
        · exact .does (does_handleContentBody (K := .oversize :: contentKinds) (by decide) (.inl List.mem_cons_self)) (by decide)

/-! ### Events -/

theorem passes_receiveProtocolHeader {conn : Connection} (hconn : s.connection c = some conn)
    (hstate : conn.state = .AWAITING_PROTOCOL_HEADER) (header : Bytes) :
    Passes c L {} s {} (s.receiveProtocolHeader c header) := by
  rw [receiveProtocolHeader]
  split
  · exact .does ((does_awaitStartOk hconn hstate).trans (does_sendMethodFrame (k := .output) _ _ _ rfl)) (by decide)
  · exact (Passes.does (K := [.output]) (.of (.send .protocolHeader)) (by decide)).trans passes_shutdown

/-- Every event but a restart. --/
theorem turn_handle {e : Event} (he : e ≠ .restart) : ∃ c, Turn c (Loses s e) s (.ok (s.handle e)) := by
  cases e with
  | accept => exact ⟨0, .passes (.does (.of .accept) (by decide))⟩
  | protocolHeader c header =>
    refine ⟨c, .passes ?_⟩
    dsimp only [outcome]
    rw [handle]
    split
    · exact .refl
    · rename_i hconn
      split
      · rename_i h
        exact passes_receiveProtocolHeader hconn h.2 header
      · exact .refl
  | frame c frame frameEnd =>
    refine ⟨c, ?_⟩
    have hstop : ∀ (s₁ : AmqpServer) text, Passes c (Loses s (.frame c frame frameEnd)) {} s₁ {} (s₁.stopReading c text) :=
      fun _ _ => .does (does_stopReading _) (by decide)
    rcases handle_frame_cases c s frame frameEnd with ⟨-, heq | ⟨text, heq⟩⟩ | ⟨hserved, heq | ⟨s₁, text, herror, heq⟩⟩
    · rw [heq]
      exact .passes .refl
    · rw [heq]
      exact .passes (hstop ..)
    · rw [← heq]
      exact turn_handleFrame hserved
    · have hturn := turn_handleFrame hserved
      rw [herror] at hturn
      rw [heq]
      cases hturn with
      | passes h => exact .passes (h.trans (hstop ..))
  | runTask c =>
    exact ⟨c, .passes (passes_runTask fun conn t rest hconn hstrand hgone => .posted hconn hstrand hgone)⟩
  | disconnect c => exact ⟨c, .passes passes_shutdown⟩
  | tick => exact ⟨0, .passes (.does does_tick (by decide))⟩
  | compact => exact ⟨0, .passes (.does (.of .compact) (by decide))⟩
  | restart => exact absurd rfl he
  | reorderQueues order => exact ⟨0, .passes (.does (.of (.reorderQueues order)) (by decide))⟩
  | reorderExchanges order => exact ⟨0, .passes (.does (.of (.reorderExchanges order)) (by decide))⟩
  | reorderChannels c order => exact ⟨c, .passes (.does (.of (.reorderChannels order)) (by decide))⟩
  | reorderConsumers c num order => exact ⟨c, .passes (.does (.of (.reorderConsumers num order)) (by decide))⟩
  | reorderUnacked c num order => exact ⟨c, .passes (.does (.of (.reorderUnacked num order)) (by decide))⟩

end AmqpServer
end Broko.Broker
