import Broko.Lib.Transcript
import Broko.Theorems.Handshake

/-! Requests and their answers. Each frame of a client is answered at once: with one method that answers its own, with none
    where the client wants none, or with a close of the channel. What the server sends of its own accord, a delivery, a return
    or the ack of a publish, is no answer. -/

namespace Broko.Broker
open Amqp Storage

/-! ### The protocol -/

/-- What answers a method of the client. --/
structure Rpc where
  /-- The methods of its class that may answer it; none if it gets no answer. --/
  answers : List UInt16
  /-- Where the arguments say that no answer is wanted: the bits, and which of them. --/
  noWait : Option (Read UInt8 × UInt8) := none
  /-- The channel may be closed instead. --/
  refusable : Bool := true

namespace Rpc

/-- The bits after a queue, in front of which a short is reserved. --/
def queueBits : Read UInt8 := do
  let _reserved ← readUint16
  let _queue ← readShortString
  readUint8

/-- The bits after two names. --/
def namesBits : Read UInt8 := do
  let _reserved ← readUint16
  let _name ← readShortString
  let _name ← readShortString
  readUint8

/-- The bits after a queue, an exchange and a routing key. --/
def bindBits : Read UInt8 := do
  let _args ← AmqpServer.readBindArgs
  readUint8

/-- The bits after a consumer tag. --/
def tagBits : Read UInt8 := do
  let _tag ← readShortString
  readUint8

/-- The methods that a client may send while its connection stays open. --/
def table : List ((UInt16 × UInt16) × Rpc) :=
  [((class_id.CONNECTION, connection_method.START_OK), { answers := [connection_method.TUNE], refusable := false }),
    ((class_id.CONNECTION, connection_method.TUNE_OK), { answers := [], refusable := false }),
    ((class_id.CONNECTION, connection_method.OPEN), { answers := [connection_method.OPEN_OK], refusable := false }),
    ((class_id.CHANNEL, channel_method.OPEN), { answers := [channel_method.OPEN_OK], refusable := false }),
    ((class_id.CHANNEL, channel_method.FLOW), { answers := [channel_method.FLOW_OK], refusable := false }),
    ((class_id.CHANNEL, channel_method.CLOSE), { answers := [channel_method.CLOSE_OK], refusable := false }),
    ((class_id.CHANNEL, channel_method.CLOSE_OK), { answers := [], refusable := false }),
    ((class_id.EXCHANGE, exchange_method.DECLARE),
      { answers := [exchange_method.DECLARE_OK], noWait := some (namesBits, 0x10) }),
    ((class_id.EXCHANGE, exchange_method.DELETE),
      { answers := [exchange_method.DELETE_OK], noWait := some (queueBits, 0x02) }),
    ((class_id.QUEUE, queue_method.DECLARE), { answers := [queue_method.DECLARE_OK], noWait := some (queueBits, 0x10) }),
    ((class_id.QUEUE, queue_method.BIND), { answers := [queue_method.BIND_OK], noWait := some (bindBits, 0x01) }),
    ((class_id.QUEUE, queue_method.UNBIND), { answers := [queue_method.UNBIND_OK] }),
    ((class_id.QUEUE, queue_method.PURGE), { answers := [queue_method.PURGE_OK], noWait := some (queueBits, 0x01) }),
    ((class_id.QUEUE, queue_method.DELETE), { answers := [queue_method.DELETE_OK], noWait := some (queueBits, 0x04) }),
    ((class_id.BASIC, basic_method.QOS), { answers := [basic_method.QOS_OK], refusable := false }),
    ((class_id.BASIC, basic_method.CONSUME), { answers := [basic_method.CONSUME_OK], noWait := some (namesBits, 0x08) }),
    ((class_id.BASIC, basic_method.CANCEL),
      { answers := [basic_method.CANCEL_OK], noWait := some (tagBits, 0x01), refusable := false }),
    ((class_id.BASIC, basic_method.PUBLISH), { answers := [] }),
    ((class_id.BASIC, basic_method.GET), { answers := [basic_method.GET_OK, basic_method.GET_EMPTY] }),
    ((class_id.BASIC, basic_method.ACK), { answers := [], refusable := false }),
    ((class_id.BASIC, basic_method.REJECT), { answers := [], refusable := false }),
    ((class_id.BASIC, basic_method.RECOVER_ASYNC), { answers := [basic_method.RECOVER_OK], refusable := false }),
    ((class_id.BASIC, basic_method.RECOVER), { answers := [basic_method.RECOVER_OK], refusable := false }),
    ((class_id.BASIC, basic_method.NACK), { answers := [], refusable := false }),
    ((class_id.CONFIRM, confirm_method.SELECT),
      { answers := [confirm_method.SELECT_OK], noWait := some (readUint8, 0x01), refusable := false }),
    ((class_id.TX, tx_method.SELECT), { answers := [tx_method.SELECT_OK], refusable := false }),
    ((class_id.TX, tx_method.COMMIT), { answers := [tx_method.COMMIT_OK], refusable := false }),
    ((class_id.TX, tx_method.ROLLBACK), { answers := [tx_method.ROLLBACK_OK], refusable := false })]

def of (classId methodId : UInt16) : Option Rpc := table.lookup (classId, methodId)

/-- The client wants no answer. --/
def waits (r : Rpc) (args : Buffer) : Bool :=
  match r.noWait with
  | none => true
  | some (read, mask) =>
    match read args with
    | .ok (bits, _) => !hasBit bits mask
    | .error _ => true

end Rpc

namespace AmqpServer

/-- The frame of a channel close that names the method that it refuses. --/
def closeFrame (num replyCode : UInt16) (replyText : Bytes) (classId methodId : UInt16) : Frame :=
  methodFrame num class_id.CHANNEL channel_method.CLOSE
    (writeUint16 replyCode ++ writeShortString replyText ++ writeUint16 classId ++ writeUint16 methodId)

/-- What a client may be sent for a method. --/
inductive Answer (num classId methodId : UInt16) (args : Buffer) : List Frame → Prop
  | ok {r : Rpc} {okId : UInt16} (bytes : Bytes) (hr : Rpc.of classId methodId = some r) (hok : okId ∈ r.answers)
      (hwaits : r.waits args = true) : Answer num classId methodId args [methodFrame num classId okId bytes]
  | nothing {r : Rpc} (hr : Rpc.of classId methodId = some r) (h : r.answers = [] ∨ r.waits args = false) :
      Answer num classId methodId args []
  | refuse (replyCode : UInt16) (replyText : Bytes) (h : (Rpc.of classId methodId).all Rpc.refusable = true) :
      Answer num classId methodId args [closeFrame num replyCode replyText classId methodId]

/-- A frame of the client, and whether its channel has got a publish that waits for content. --/
structure Asked where
  frame : Frame
  publishing : Bool

/-- The frame announces more content than a publish may have. --/
def Asked.tooLarge (a : Asked) : Bool :=
  a.publishing && a.frame.type = FRAME_HEADER &&
    match readContentHeader (Buffer.ofBytes a.frame.payload) with
    | .ok (bodySize, _) => MAX_BODY_SIZE < bodySize.toNat
    | .error _ => false

/-- What a client may be sent for a frame. --/
inductive FrameAnswer (a : Asked) : List Frame → Prop
  | method {classId methodId : UInt16} {args : Buffer} {answer : List Frame} (htype : a.frame.type = FRAME_METHOD)
      (hids : readMethodIds (Buffer.ofBytes a.frame.payload) = .ok ((classId, methodId), args))
      (h : Answer a.frame.channel classId methodId args answer) : FrameAnswer a answer
  | content (htype : a.frame.type ≠ FRAME_METHOD) (h : a.tooLarge = false) : FrameAnswer a []
  | tooLarge (h : a.tooLarge = true) :
      FrameAnswer a [closeFrame a.frame.channel reply_code.CONTENT_TOO_LARGE (ascii "Message body exceeds maximum size")
        class_id.BASIC basic_method.PUBLISH]

/-! ### What was answered -/

/-- The methods that the server sends of its own accord. --/
def unasked : List (UInt16 × UInt16) :=
  [(class_id.CONNECTION, connection_method.START), (class_id.BASIC, basic_method.RETURN),
    (class_id.BASIC, basic_method.DELIVER), (class_id.BASIC, basic_method.ACK)]

/-- A method that answers one of the client. --/
def replyFrame : Outgoing → Option Frame
  | .frame f => if (methodIds f).any (!unasked.contains ·) then some f else none
  | .protocolHeader => none

/-- The answers that were written to a connection. --/
def replied (c : Nat) (s : AmqpServer) : Option (List Frame) :=
  (s.connection c).map fun conn => conn.sent.filterMap replyFrame

/-- The client is sent these answers. --/
def Responds (c : Nat) (s s' : AmqpServer) (l : List Frame) : Prop :=
  ∀ before, s.replied c = some before → s'.replied c = some (before ++ l)

variable {c c' : Nat} {num : UInt16} {s s' : AmqpServer}

theorem replied_congr (h : s'.connections = s.connections) : s'.replied c = s.replied c := by
  rw [replied, connection, h, replied, connection]

theorem replied_of_own (h : s'.own c = s.own c) : s'.replied c = s.replied c := by
  have hmap : ∀ s : AmqpServer, s.replied c = (s.own c).map fun conn => conn.sent.filterMap replyFrame := by
    intro s
    rw [replied, own, Option.map_map]
    rfl
  rw [hmap, hmap, h]

theorem replied_modifyConnection (c' : Nat) {f : Connection → Connection} (hf : ∀ conn, (f conn).sent = conn.sent) :
    (s.modifyConnection c' f).replied c = s.replied c := by
  rw [replied, replied, connection, AmqpServer.modifyConnection, Assoc.lookup_modify, connection]
  split
  · rename_i h
    rw [h, Option.map_map]
    refine congrArg (fun g => Option.map g (s.connections.lookup c')) (funext fun conn => ?_)
    exact congrArg (List.filterMap replyFrame) (hf conn)
  · rfl

theorem replied_send (out : Outgoing) :
    (s.send c out).replied c = (s.replied c).map (· ++ (replyFrame out).toList) := by
  rw [replied, connection, AmqpServer.send, AmqpServer.modifyConnection, Assoc.lookup_modify_self, replied, connection,
    Option.map_map, Option.map_map]
  refine congrArg (fun g => Option.map g (s.connections.lookup c)) (funext fun conn => ?_)
  show (conn.sent ++ [out]).filterMap replyFrame = conn.sent.filterMap replyFrame ++ _
  rw [List.filterMap_append]
  cases h : replyFrame out <;> simp [h]

theorem replyFrame_methodFrame {classId methodId : UInt16} (h : (classId, methodId) ∉ unasked) (bytes : Bytes) :
    replyFrame (.frame (methodFrame num classId methodId bytes)) = some (methodFrame num classId methodId bytes) := by
  rw [replyFrame, methodIds_methodFrame]
  exact if_pos (by simpa using h)

theorem replyFrame_unasked {f : Frame} (h : ∀ ids, methodIds f = some ids → ids ∈ unasked) : replyFrame (.frame f) = none := by
  rw [replyFrame]
  cases hids : methodIds f with
  | none => rfl
  | some ids => exact if_neg (by simpa using h ids hids)

/-- Only frames of the kind `output` are answers. --/
theorem replyFrame_of_kind {out : Outgoing} (h : outgoingKind out ≠ .output) : replyFrame out = none := by
  cases out with
  | protocolHeader => rfl
  | frame f =>
    refine replyFrame_unasked fun ids hids => ?_
    rw [outgoingKind, hids, Option.map_some, Option.getD_some, methodKind] at h
    split at h
    · rename_i hack
      rw [← Prod.eta ids, hack.1, hack.2]
      decide
    · split at h
      · rename_i hdeliver
        rw [← Prod.eta ids, hdeliver.1, hdeliver.2]
        decide
      · exact absurd rfl h

theorem replied_move (hv : Valid s) {before : List Frame} (hs : s.replied c = some before) {k : Kind} (hm : Move c' k s s')
    (hk : k ≠ .output) : s'.replied c = some before := by
  obtain ⟨conn, hconn, -⟩ := Option.map_eq_some_iff.mp hs
  rw [← hs]
  cases hm with
  | handOver idx => exact replied_of_own (own_handOver _ _ _ _)
  | purge name =>
    rw [AmqpServer.purge]
    split <;> exact replied_congr rfl
  | store m => exact replied_congr (connections_storeMessage ..)
  | oversize m => exact replied_congr (connections_storeMessage ..)
  | send out =>
    by_cases hc : c = c'
    · subst hc
      rw [replied_send, replyFrame_of_kind hk, hs]
      exact congrArg some (List.append_nil before)
    · exact replied_of_own (own_modifyConnection_of_ne hc _)
  | handshake f hf => exact replied_modifyConnection c' fun conn => (hf conn).sent
  | hold num' u =>
    have heq : (s.hold c' num' u).takeTag c' num' = s.modifyChannel c' num' _ := modifyChannel_modifyChannel ..
    rw [heq]
    exact replied_modifyConnection c' fun _ => rfl
  | releaseCredit u => exact replied_congr (connections_releaseCredit u)
  | settle u => exact replied_congr (connections_persistAck u)
  | removeConsumer name tag => exact replied_congr (connections_removeConsumer name tag)
  | removeConsumersByConnection name => exact replied_congr (connections_removeConsumersByConnection name c')
  | openChannel num =>
    have hnext : AmqpServer.replied c { s with nextChannel := s.nextChannel + 1 } = s.replied c := replied_congr rfl
    rw [← hnext]
    exact replied_modifyConnection c' fun _ => rfl
  | accept =>
    -- The new connection gets an id that no connection has.
    have hc : c ≠ s.nextConnectionId := Nat.ne_of_lt (hv.connections c conn hconn).1
    rw [replied, connection, AmqpServer.accept, Assoc.lookup_insert_of_ne hc]
    rfl
  | _ => first | exact replied_congr rfl | exact replied_modifyConnection c' fun _ => rfl

namespace Responds
variable {s₁ : AmqpServer} {l l₁ l₂ : List Frame}

theorem of_eq (h : s'.replied c = s.replied c) : Responds c s s' [] := fun before hs => by
  rw [h, hs, List.append_nil]

theorem refl : Responds c s s [] := of_eq rfl

theorem of_connections (h : s'.connections = s.connections) : Responds c s s' [] := of_eq (replied_congr h)

theorem modifyChannel (num : UInt16) (f : Channel → Channel) : Responds c s (s.modifyChannel c' num f) [] :=
  of_eq (replied_modifyConnection c' fun _ => rfl)

theorem trans (h₁ : Responds c s s₁ l₁) (h₂ : Responds c s₁ s' l₂) : Responds c s s' (l₁ ++ l₂) := fun before hs => by
  rw [h₂ _ (h₁ before hs), List.append_assoc]

theorem after (h₁ : Responds c s s₁ []) (h₂ : Responds c s₁ s' l) : Responds c s s' l := h₁.trans h₂

theorem does {K : List Kind} (hv : Valid s) (h : Does c' K s s') (hK : .output ∉ K) : Responds c s s' [] := by
  intro before hs
  have hkeep := (h.moves hv).keeps (P := fun s' => Valid s' ∧ s'.replied c = some before) ?_ ⟨hv, hs⟩
  · rw [hkeep.2, List.append_nil]
  · intro k hk s₁ s₂ hm hs₁
    exact ⟨hs₁.1.move hm, replied_move hs₁.1 hs₁.2 hm fun heq => hK (heq ▸ hk)⟩

theorem sendMethodFrame {classId methodId : UInt16} (h : (classId, methodId) ∉ unasked) (bytes : Bytes) :
    Responds c s (s.sendMethodFrame c num classId methodId bytes) [methodFrame num classId methodId bytes] := fun before hs => by
  rw [AmqpServer.sendMethodFrame, sendFrame, replied_send, hs, replyFrame_methodFrame h]
  rfl

theorem send_of_none {out : Outgoing} (h : replyFrame out = none) : Responds c s (s.send c out) [] := fun before hs => by
  rw [replied_send, hs, h]
  rfl

theorem sendMethodFrame_unasked {classId methodId : UInt16} (h : (classId, methodId) ∈ unasked) (bytes : Bytes) :
    Responds c s (s.sendMethodFrame c num classId methodId bytes) [] := by
  refine send_of_none (replyFrame_unasked fun ids hids => ?_)
  rw [methodIds_methodFrame] at hids
  exact Option.some.inj hids ▸ h

theorem foldl {α : Type} {f : AmqpServer → α → AmqpServer} {l : List α} (hf : ∀ s, ∀ a ∈ l, Responds c s (f s a) [])
    (s : AmqpServer) : Responds c s (l.foldl f s) [] := by
  induction l generalizing s with
  | nil => exact refl
  | cons a l ih =>
    exact (hf s a List.mem_cons_self).after (ih (fun s b hb => hf s b (List.mem_cons_of_mem _ hb)) _)

/-- Content is sent in frames that are not methods. --/
theorem sendContentFrames (classId : UInt16) (props : BasicProperties) (body : Bytes) :
    Responds c s (s.sendContentFrames c num classId props body) [] := by
  rw [AmqpServer.sendContentFrames]
  split
  · exact refl
  · refine foldl (fun s f hf => send_of_none (replyFrame_unasked fun ids hids => ?_)) s
    rw [methodIds, if_neg (type_contentFrames hf)] at hids
    cases hids

end Responds

/-! ### Live connections -/

/-- The connection is there, and neither side has closed it. --/
def Live (c : Nat) (s : AmqpServer) : Prop := ∃ x, s.session c = some x ∧ x.state ≠ .CLOSING ∧ x.state ≠ .CLOSED

theorem not_live_of_closing (h : s'.session c = (s.session c).map Session.closing) : ¬Live c s' := by
  rintro ⟨x, hx, hlive⟩
  rw [h] at hx
  obtain ⟨y, -, rfl⟩ := Option.map_eq_some_iff.mp hx
  rw [Session.closing] at hlive
  split at hlive
  · rename_i hdone
    exact hdone.elim hlive.1 hlive.2
  · exact hlive.1 rfl

theorem not_live_sendConnectionClose (replyCode : UInt16) (replyText : Bytes) (classId methodId : UInt16) :
    ¬Live c (s.sendConnectionClose c replyCode replyText classId methodId) :=
  not_live_of_closing (session_sendConnectionClose ..)

theorem not_live_stopReading (replyText : Bytes) : ¬Live c (s.stopReading c replyText) :=
  not_live_of_closing (session_stopReading replyText)

theorem not_live_shutdown (hv : Valid s) : ¬Live c (s.shutdown c) := by
  rintro ⟨x, hx, -, hclosed⟩
  rw [session_shutdown hv] at hx
  obtain ⟨y, -, rfl⟩ := Option.map_eq_some_iff.mp hx
  exact hclosed rfl

/-- A connection that is alive was alive. --/
theorem Live.back (hv : Valid s) {x : Session} (hx : s.session c = some x) {e : Event} (he : e ≠ .restart)
    (h : Live c (s.handle e)) : Live c s := by
  obtain ⟨y, hy, hstep⟩ := advance_handle hv hx he
  obtain ⟨y', hy', hlive⟩ := h
  obtain rfl := Option.some.inj (hy.symm.trans hy')
  have hrank := hstep.rank_le
  refine ⟨x, hx, fun hclosing => ?_, fun hclosed => ?_⟩
  · rw [hclosing] at hrank
    cases hstate : y.state <;> rw [hstate] at hrank hlive <;> simp [State.rank] at hrank hlive
  · rw [hclosed] at hrank
    cases hstate : y.state <;> rw [hstate] at hrank hlive <;> simp [State.rank] at hrank hlive

/-! ### Handlers -/

/-- If the handler returns and the connection lives on, then the client was sent one answer. --/
def Responsive (c : Nat) (num classId methodId : UInt16) (args : Buffer) (s : AmqpServer) (o : Outcome) : Prop :=
  ∀ s', o = .ok s' → Live c s' → ∃ answer, Answer num classId methodId args answer ∧ Responds c s s' answer

section Handlers
variable {classId methodId okId : UInt16} {args : Buffer} {s₁ : AmqpServer} {r : Rpc}

/-- What throws is not answered. --/
theorem Responsive.error : Responsive c num classId methodId args s (.error s₁) := by
  intro s' heq
  cases heq

theorem Responsive.withArgs {α : Type} {Q : α → Prop} {read : Read α} {k : α → AmqpServer} (hQ : Reader.Yields read Q)
    (h : ∀ a rest, read args = .ok (a, rest) → Q a →
      ∃ answer, Answer num classId methodId args answer ∧ Responds c s (k a) answer) :
    Responsive c num classId methodId args s (withArgs read args s k) := by
  rw [AmqpServer.withArgs]
  split
  · exact .error
  · rename_i a rest hread
    intro s' heq _
    obtain rfl := Except.ok.inj heq
    exact h a rest hread (hQ args a rest hread)

/-- The same for a method that can ask for no answer. --/
theorem Responsive.withBits {α : Type} {Q : α → Prop} {g : α → UInt8} {read : Read α} {bits : Read UInt8} {mask : UInt8}
    {k : α → AmqpServer} (hr : Rpc.of classId methodId = some r) (hwait : r.noWait = some (bits, mask))
    (hg : Reader.Follows read g bits) (hQ : Reader.Yields read Q)
    (h : ∀ a, Q a → Rpc.of classId methodId = some r → r.waits args = !hasBit (g a) mask →
      ∃ answer, Answer num classId methodId args answer ∧ Responds c s (k a) answer) :
    Responsive c num classId methodId args s (AmqpServer.withArgs read args s k) := by
  refine .withArgs hQ fun a rest hread ha => h a ha hr ?_
  obtain ⟨rest', hbits⟩ := hg args a rest hread
  rw [Rpc.waits, hwait]
  dsimp only
  rw [hbits]

/-- The method is answered, unless the client wants no answer. --/
theorem exists_answer (hr : Rpc.of classId methodId = some r) (hok : okId ∈ r.answers) (hids : (classId, okId) ∉ unasked)
    {noWait : Bool} (hwaits : r.waits args = !noWait) (h : Responds c s s₁ []) (bytes : Bytes) :
    ∃ answer, Answer num classId methodId args answer ∧
      Responds c s (if noWait then s₁ else s₁.sendMethodFrame c num classId okId bytes) answer := by
  cases noWait with
  | false => exact ⟨_, .ok bytes hr hok hwaits, h.after (.sendMethodFrame hids bytes)⟩
  | true => exact ⟨_, .nothing hr (.inr hwaits), h⟩

/-- A method that cannot ask for no answer. --/
theorem exists_sure_answer (hr : Rpc.of classId methodId = some r) (hok : okId ∈ r.answers) (hids : (classId, okId) ∉ unasked)
    (hwait : r.noWait = none) (h : Responds c s s₁ []) (bytes : Bytes) :
    ∃ answer, Answer num classId methodId args answer ∧
      Responds c s (s₁.sendMethodFrame c num classId okId bytes) answer := by
  have hwaits : r.waits args = !false := by
    rw [Rpc.waits, hwait]
    rfl
  exact exists_answer hr hok hids hwaits h bytes

theorem exists_nothing (hr : Rpc.of classId methodId = some r) (hnone : r.answers = []) (h : Responds c s s₁ []) :
    ∃ answer, Answer num classId methodId args answer ∧ Responds c s s₁ answer :=
  ⟨[], .nothing hr (.inl hnone), h⟩

/-- The channel is closed instead. --/
theorem exists_refusal (h : (Rpc.of classId methodId).all Rpc.refusable = true) (hs : Responds c s s₁ []) (replyCode : UInt16)
    (replyText : Bytes) :
    ∃ answer, Answer num classId methodId args answer ∧
      Responds c s (s₁.sendChannelClose c num replyCode replyText classId methodId) answer :=
  ⟨_, .refuse replyCode replyText h, hs.after (.sendMethodFrame (by decide) _)⟩

theorem exists_reply {noWait : Bool} {answer : Except Refusal AmqpServer} (hr : Rpc.of classId methodId = some r)
    (hok : okId ∈ r.answers) (href : r.refusable = true) (hids : (classId, okId) ∉ unasked)
    (hwaits : r.waits args = !noWait) (ha : ∀ s₁, answer = .ok s₁ → Responds c s s₁ []) :
    ∃ l, Answer num classId methodId args l ∧ Responds c s (s.reply c num classId methodId okId noWait answer) l := by
  cases answer with
  | error e => exact exists_refusal (by rw [hr]; exact href) .refl _ _
  | ok s₁ => exact exists_answer hr hok hids hwaits (ha s₁ rfl) []

/-! ### Exchanges -/

theorem responsive_handleExchangeDeclare (hv : Valid s) (args : Buffer) :
    Responsive c num class_id.EXCHANGE exchange_method.DECLARE args s (s.handleExchangeDeclare c num args) := by
  refine .withBits (Q := fun a => a.1.length ≤ 255 ∧ a.2.1.length ≤ 255) (g := fun a => a.2.2.1) rfl rfl ?bits ?names ?_
  case bits => exact .bind fun _ => .bind fun _ => .bind fun _ => .done fun _ => .bind (.any _) fun _ _ => .pure rfl
  case names =>
    exact .bind (.any _) fun _ _ => .bind yields_shortString fun _ hname => .bind yields_shortString fun _ htype =>
      .bind (.any _) fun _ _ => .bind (.any _) fun _ _ => .pure ⟨hname, htype⟩
  rintro ⟨exchange, type, bits, table⟩ ⟨hname, htype⟩ hr hwaits
  refine exists_reply hr (List.mem_singleton_self _) rfl (by decide) hwaits fun s₁ ha => ?_
  refine .does hv (does_declareExchange (c := c) hname ?_ ha) (by decide)
  split
  · decide
  · exact htype

theorem responsive_handleExchangeDelete (hv : Valid s) (args : Buffer) :
    Responsive c num class_id.EXCHANGE exchange_method.DELETE args s (s.handleExchangeDelete c num args) := by
  refine .withBits (Q := fun a => a.1.length ≤ 255) (g := fun a => a.2) rfl rfl ?bits ?names ?_
  case bits => exact .bind fun _ => .bind fun _ => .done fun _ => .pure rfl
  case names => exact .bind (.any _) fun _ _ => .bind yields_shortString fun _ hname => .bind (.any _) fun _ _ => .pure hname
  rintro ⟨exchange, bits⟩ hname hr hwaits
  exact exists_reply hr (List.mem_singleton_self _) rfl (by decide) hwaits fun s₁ ha =>
    .does hv (does_deleteExchange (c := c) hname ha) (by decide)

/-! ### Queues -/

theorem responsive_handleQueueDeclare (hv : Valid s) (args : Buffer) :
    Responsive c num class_id.QUEUE queue_method.DECLARE args s (s.handleQueueDeclare c num args) := by
  refine .withBits (Q := fun a => a.1.length ≤ 255) (g := fun a => a.2.1) rfl rfl ?bits ?names ?_
  case bits => exact .bind fun _ => .bind fun _ => .done fun _ => .bind (.any _) fun _ _ => .pure rfl
  case names =>
    exact .bind (.any _) fun _ _ => .bind yields_shortString fun _ hname => .bind (.any _) fun _ _ =>
      .bind (.any _) fun _ _ => .pure hname
  rintro ⟨queue, bits, table⟩ hname hr hwaits
  have hd := does_declareQueue (c := c) (s := s) hname (hasBit bits 0x01) (hasBit bits 0x02) (hasBit bits 0x04)
    (hasBit bits 0x08) table
  dsimp only
  split
  · rename_i heq
    rw [heq] at hd
    exact exists_refusal rfl (.does hv hd (by decide)) _ _
  · rename_i heq
    rw [heq] at hd
    exact exists_answer hr (List.mem_singleton_self _) (by decide) hwaits (.does hv hd (by decide)) _

theorem responsive_handleQueueBind (hv : Valid s) (args : Buffer) :
    Responsive c num class_id.QUEUE queue_method.BIND args s (s.handleQueueBind c num args) := by
  refine .withBits (Q := fun a => a.1.length ≤ 255 ∧ a.2.1.length ≤ 255 ∧ a.2.2.1.length ≤ 255) (g := fun a => a.2.2.2.1)
    rfl rfl ?bits ?names ?_
  case bits =>
    refine .bind ?_
    rintro ⟨queue, exchange, routingKey⟩
    exact .done fun _ => .bind (.any _) fun _ _ => .pure rfl
  case names => exact .bind yields_bindArgs fun _ h => .bind (.any _) fun _ _ => .bind (.any _) fun _ _ => .pure h
  rintro ⟨queue, exchange, routingKey, bits, table⟩ ⟨hq, he, hrk⟩ hr hwaits
  exact exists_reply hr (List.mem_singleton_self _) rfl (by decide) hwaits fun s₁ ha =>
    .does hv (does_bindQueue (c := c) hq he hrk ha) (by decide)

theorem responsive_handleQueueUnbind (hv : Valid s) (args : Buffer) :
    Responsive c num class_id.QUEUE queue_method.UNBIND args s (s.handleQueueUnbind c num args) := by
  refine .withArgs (Q := fun a => a.1.length ≤ 255 ∧ a.2.1.length ≤ 255 ∧ a.2.2.length ≤ 255) ?names ?_
  case names => exact .bind yields_bindArgs fun _ h => .bind (.any _) fun _ _ => .pure h
  rintro ⟨queue, exchange, routingKey⟩ - - ⟨hq, he, hrk⟩
  exact exists_reply (r := { answers := [queue_method.UNBIND_OK] }) rfl (List.mem_singleton_self _) rfl (by decide) rfl
    fun s₁ ha => .does hv (does_unbindQueue (c := c) hq he hrk ha) (by decide)

/-- The queue that purge, delete and get name, and the bits behind it. --/
theorem follows_queueArgs : Reader.Follows readQueueArgs Prod.snd Rpc.queueBits :=
  .bind fun _ => .bind fun _ => .done fun _ => .pure rfl

theorem responsive_handleQueuePurge (hv : Valid s) (args : Buffer) :
    Responsive c num class_id.QUEUE queue_method.PURGE args s (s.handleQueuePurge c num args) := by
  refine .withBits rfl rfl follows_queueArgs (.any _) ?_
  rintro ⟨queue, bits⟩ - hr hwaits
  dsimp only
  split
  · exact exists_refusal rfl .refl _ _
  · exact exists_answer hr (List.mem_singleton_self _) (by decide) hwaits
      (.does hv (Does.of (c := c) (.purge queue)) (by decide)) _

theorem responsive_handleQueueDelete (hv : Valid s) (args : Buffer) :
    Responsive c num class_id.QUEUE queue_method.DELETE args s (s.handleQueueDelete c num args) := by
  refine .withBits rfl rfl follows_queueArgs yields_queueArgs ?_
  rintro ⟨queue, bits⟩ hname hr hwaits
  dsimp only
  split
  · exact exists_refusal rfl .refl _ _
  · rename_i ha
    exact exists_answer hr (List.mem_singleton_self _) (by decide) hwaits
      (.does hv (does_deleteQueue (c := c) hname ha) (by decide)) _

/-! ### Consumers -/

theorem responsive_handleBasicQos (args : Buffer) :
    Responsive c num class_id.BASIC basic_method.QOS args s (s.handleBasicQos c num args) := by
  rw [handleBasicQos]
  split
  · exact .error
  · rename_i size rest _
    dsimp only
    split
    · exact .error
    · rename_i count rest' _
      rw [withArgs]
      split
      · exact .error
      · intro s' heq _
        obtain rfl := Except.ok.inj heq
        refine exists_sure_answer (r := { answers := [basic_method.QOS_OK], refusable := false }) rfl
          (List.mem_singleton_self _) (by decide) rfl ?_ []
        exact (Responds.modifyChannel num _).after (.modifyChannel num _)

theorem exists_answer_consume {queue tag : Bytes} {bits : UInt8} (ch : Channel)
    (hr : Rpc.of class_id.BASIC basic_method.CONSUME = some r) (hok : basic_method.CONSUME_OK ∈ r.answers)
    (hwaits : r.waits args = !hasBit bits 0x08) :
    ∃ answer, Answer num class_id.BASIC basic_method.CONSUME args answer ∧
      Responds c s (s.consume c num ch queue tag bits) answer := by
  rw [consume]
  generalize (if tag = [] then ch.consumerTagCounter + 1 else ch.consumerTagCounter) = counter
  generalize consumerTag c num ch tag = tag'
  have hmade : Responds c s { s with consumerHeap := s.consumerHeap.alloc (newConsumer c num ch queue tag' bits) } [] :=
    .of_connections rfl
  have hmapped : Responds c s (({ s with consumerHeap := s.consumerHeap.alloc (newConsumer c num ch queue tag' bits) } :
      AmqpServer).modifyChannel c num fun ch =>
        { ch with consumerTagCounter := counter, consumers := ch.consumers.insert tag' s.consumerHeap.size }) [] :=
    hmade.after (.modifyChannel num _)
  have hadd : ∀ (s₁ : AmqpServer) (k : Ref), Responds c s₁ (s₁.addConsumer queue k) [] := fun s₁ k =>
    Responds.after (.of_connections rfl) (.of_eq (replied_of_own (own_dispatchLocked queue)))
  have hids : (class_id.BASIC, basic_method.CONSUME_OK) ∉ unasked := by decide
  obtain ⟨answer, hanswer, hresponds⟩ := exists_answer hr hok hids hwaits hmapped (writeShortString tag')
  have hall := hresponds.trans (hadd _ s.consumerHeap.size)
  rw [List.append_nil] at hall
  exact ⟨answer, hanswer, hall⟩

theorem responsive_handleBasicConsume {ch : Channel} (hch : s.channel c num = some ch) (args : Buffer) :
    Responsive c num class_id.BASIC basic_method.CONSUME args s (s.handleBasicConsume c num args) := by
  refine .withBits (g := fun a => a.2.2) rfl rfl ?bits (.any _) ?_
  case bits => exact .bind fun _ => .bind fun _ => .bind fun _ => .done fun _ => .bind (.any _) fun _ _ => .pure rfl
  rintro ⟨queue, tag, bits⟩ - hr hwaits
  dsimp only
  rw [hch]
  split
  · exact exists_refusal rfl .refl _ _
  · rename_i heq
    cases heq
  · exact exists_answer_consume _ hr (List.mem_singleton_self _) hwaits

theorem responsive_handleBasicCancel (hv : Valid s) (args : Buffer) :
    Responsive c num class_id.BASIC basic_method.CANCEL args s (s.handleBasicCancel c num args) := by
  refine .withBits (g := fun a => a.2) rfl rfl ?bits (.any _) ?_
  case bits => exact .bind fun _ => .done fun _ => .pure rfl
  rintro ⟨tag, bits⟩ - hr hwaits
  exact exists_answer hr (List.mem_singleton_self _) (by decide) hwaits (.does hv (does_cancel (c := c) tag) (by decide)) _

theorem responsive_handleBasicGet (hv : Valid s) {ch : Channel} (hch : s.channel c num = some ch) (args : Buffer) :
    Responsive c num class_id.BASIC basic_method.GET args s (s.handleBasicGet c num args) := by
  have hr : Rpc.of class_id.BASIC basic_method.GET =
      some { answers := [basic_method.GET_OK, basic_method.GET_EMPTY] } := rfl
  refine .withArgs (.any _) ?_
  rintro ⟨queue, bits⟩ - - -
  have hget : Responds c s (s.get queue).2 [] := .does hv (does_get (c := c) queue) (by decide)
  dsimp only
  rw [hch]
  split
  · exact exists_refusal rfl .refl _ _
  · rename_i heq
    cases heq
  · split
    · rename_i s₁ heq
      rw [heq] at hget
      have hempty : basic_method.GET_EMPTY ∈ [basic_method.GET_OK, basic_method.GET_EMPTY] := by decide
      exact exists_sure_answer hr hempty (by decide) rfl hget _
    · rename_i m s₁ heq
      rw [heq] at hget
      have hok : basic_method.GET_OK ∈ [basic_method.GET_OK, basic_method.GET_EMPTY] := by decide
      have hsent : ∀ (s₂ : AmqpServer) (tag : Nat) (msg : Message), Responds c s s₂ [] →
          ∃ answer, Answer num class_id.BASIC basic_method.GET args answer ∧
            Responds c s (s₂.sendGetOk c num queue tag msg) answer := fun s₂ tag msg h₂ =>
        ⟨_, .ok _ hr hok rfl, (h₂.after (.sendMethodFrame (by decide) _)).trans (.sendContentFrames _ _ _)⟩
      -- The message is held or gone, and the tag is used up, before anything is sent.
      rw [handGet]
      refine hsent _ _ _ (Responds.after ?_ (.modifyChannel num _))
      split
      · exact hget.after (.of_connections rfl)
      · exact hget.after (.modifyChannel num _)

theorem responsive_handleBasicPublish (args : Buffer) :
    Responsive c num class_id.BASIC basic_method.PUBLISH args s (s.handleBasicPublish c num args) := by
  refine .withArgs (.any _) ?_
  rintro ⟨exchange, routingKey, bits⟩ - - -
  dsimp only
  split
  · exact exists_refusal rfl .refl _ _
  · exact exists_nothing (r := { answers := [] }) rfl rfl (.modifyChannel num _)

/-! ### Settlement and modes -/

theorem responsive_handleBasicAck (hv : Valid s) (args : Buffer) :
    Responsive c num class_id.BASIC basic_method.ACK args s (s.handleBasicAck c num args) := by
  have hack : ∀ s u, u.message < s.heap.size → Does c [.settle] s (s.persistAck u) := fun s u hu => .of (.settle u hu)
  refine .withArgs (.any _) fun _ _ _ _ => ?_
  exact exists_nothing (r := { answers := [], refusable := false }) rfl rfl
    (.does hv (Does.foldl (does_settle hack) _ _) (by decide))

theorem responsive_handleBasicReject (hv : Valid s) (args : Buffer) :
    Responsive c num class_id.BASIC basic_method.REJECT args s (s.handleBasicReject c num args) := by
  refine .withArgs (.any _) fun _ _ _ _ => ?_
  exact exists_nothing (r := { answers := [], refusable := false }) rfl rfl
    (.does hv (does_settle (c := c) (does_rejectUnacked _) _ _) (by decide))

theorem responsive_handleBasicNack (hv : Valid s) (args : Buffer) :
    Responsive c num class_id.BASIC basic_method.NACK args s (s.handleBasicNack c num args) := by
  refine .withArgs (.any _) fun _ _ _ _ => ?_
  exact exists_nothing (r := { answers := [], refusable := false }) rfl rfl
    (.does hv (Does.foldl (does_settle (c := c) (does_rejectUnacked _)) _ _) (by decide))

/-- Both methods are answered alike. --/
theorem responsive_handleBasicRecover (hv : Valid s) {methodId : UInt16}
    (hr : Rpc.of class_id.BASIC methodId = some { answers := [basic_method.RECOVER_OK], refusable := false }) (args : Buffer) :
    Responsive c num class_id.BASIC methodId args s (s.handleBasicRecover c num args) := by
  have hput : ∀ (s : AmqpServer) (u : UnackedMessage), u.message < s.heap.size →
      Does c [.queue, .requeue] s (s.rejectIfThere true u) := fun s u hu => does_rejectIfThere true hu
  have hback : Responds c s ((s.unacked c num).foldl (rejectIfThere · true ·) s) [] :=
    .does hv (Does.foldl_refs hput _ _ fun u hu => lt_of_mem_unacked hv hu) (by decide)
  refine .withArgs (.any _) fun bits _ _ _ => exists_sure_answer hr (List.mem_singleton_self _) (by decide) rfl ?_ []
  split
  · exact hback.after (.modifyChannel num _)
  · exact .modifyChannel num _

theorem responsive_handleConfirmSelect (args : Buffer) :
    Responsive c num class_id.CONFIRM confirm_method.SELECT args s (s.handleConfirmSelect c num args) := by
  refine .withBits (g := id) rfl rfl (fun _ _ rest h => ⟨rest, h⟩) (.any _) fun bits _ hr hwaits => ?_
  exact exists_answer hr (List.mem_singleton_self _) (by decide) hwaits (.modifyChannel num _) []

theorem responsive_handleTx {methodId okId : UInt16}
    (hr : Rpc.of class_id.TX methodId = some { answers := [okId], refusable := false })
    (hids : (class_id.TX, okId) ∉ unasked) (args : Buffer) :
    Responsive c num class_id.TX methodId args s (s.handleTx c num okId) := by
  intro s' heq _
  obtain rfl := Except.ok.inj heq
  exact exists_sure_answer hr (List.mem_singleton_self _) hids rfl .refl []

/-! ### The dispatch -/

theorem Responsive.ite {p : Prop} [Decidable p] {a b : Outcome} (ha : p → Responsive c num classId methodId args s a)
    (hb : ¬p → Responsive c num classId methodId args s b) :
    Responsive c num classId methodId args s (if p then a else b) := by
  split
  · rename_i h
    exact ha h
  · rename_i h
    exact hb h

/-- A branch at its method. --/
theorem Responsive.method {id : UInt16} {a b : Outcome} (ha : Responsive c num classId id args s a)
    (hb : methodId ≠ id → Responsive c num classId methodId args s b) :
    Responsive c num classId methodId args s (if methodId = id then a else b) :=
  .ite (fun h => h ▸ ha) hb

/-- The methods of which no channel is closed. --/
def granted : List (UInt16 × UInt16) := (Rpc.table.filter fun x => !x.2.refusable).map Prod.fst

theorem refusable_of_not_granted (h : (classId, methodId) ∉ granted) : (Rpc.of classId methodId).all Rpc.refusable = true := by
  rw [Rpc.of]
  cases hr : Rpc.table.lookup (classId, methodId) with
  | none => rfl
  | some r =>
    obtain ⟨before, after, htable, -⟩ := List.lookup_eq_some_iff.mp hr
    have hmem : ((classId, methodId), r) ∈ Rpc.table := htable ▸ List.mem_append_right _ List.mem_cons_self
    by_contra hnot
    refine h (List.mem_map.mpr ⟨_, List.mem_filter.mpr ⟨hmem, ?_⟩, rfl⟩)
    rw [Option.all_some, Bool.not_eq_true] at hnot
    rw [hnot]
    rfl

/-- The methods of a class of which no channel is closed. --/
def grantedMethods (classId : UInt16) : List UInt16 := (granted.filter fun x => x.1 = classId).map Prod.snd

theorem mem_grantedMethods (h : (classId, methodId) ∈ granted) : methodId ∈ grantedMethods classId :=
  List.mem_map.mpr ⟨_, List.mem_filter.mpr ⟨h, decide_eq_true rfl⟩, rfl⟩

theorem class_of_granted (h : (classId, methodId) ∈ granted) :
    classId ∈ [class_id.CONNECTION, class_id.CHANNEL, class_id.BASIC, class_id.CONFIRM, class_id.TX] := by
  have hall : (granted.all fun x => x.1 ∈ [class_id.CONNECTION, class_id.CHANNEL, class_id.BASIC, class_id.CONFIRM,
    class_id.TX]) = true := rfl
  exact of_decide_eq_true (List.all_eq_true.mp hall _ h)

theorem responsive_notImplemented (h : (classId, methodId) ∉ granted) :
    Responsive c num classId methodId args s (.ok (s.notImplemented c num classId methodId)) := by
  intro s' heq _
  obtain rfl := Except.ok.inj heq
  exact exists_refusal (refusable_of_not_granted h) .refl _ _

theorem responsive_handleMethod (hv : Valid s) {ch : Channel} (hch : s.channel c num = some ch) (classId methodId : UInt16)
    (hconnection : classId ≠ class_id.CONNECTION)
    (hchannel : classId = class_id.CHANNEL →
      methodId ∉ [channel_method.OPEN, channel_method.CLOSE, channel_method.CLOSE_OK, channel_method.FLOW]) (args : Buffer) :
    Responsive c num classId methodId args s (s.handleMethod c num classId methodId args) := by
  unfold handleMethod
  refine .ite ?exchange fun hexchange => .ite ?queue fun hqueue => .ite ?basic fun hbasic => .ite ?confirm fun hconfirm =>
    .ite ?tx fun htx => responsive_notImplemented ?_
  case exchange =>
    rintro rfl
    refine .method (responsive_handleExchangeDeclare hv args) fun _ => .method (responsive_handleExchangeDelete hv args) fun _ =>
      responsive_notImplemented fun hmem => ?_
    have hids : methodId ∈ [] := mem_grantedMethods hmem
    cases hids
  case queue =>
    rintro rfl
    refine .method (responsive_handleQueueDeclare hv args) fun _ => .method (responsive_handleQueueBind hv args) fun _ =>
      .method (responsive_handleQueueUnbind hv args) fun _ => .method (responsive_handleQueuePurge hv args) fun _ =>
      .method (responsive_handleQueueDelete hv args) fun _ => responsive_notImplemented fun hmem => ?_
    have hids : methodId ∈ [] := mem_grantedMethods hmem
    cases hids
  case basic =>
    rintro rfl
    refine .method (responsive_handleBasicQos args) fun hqos => .method (responsive_handleBasicConsume hch args) fun _ =>
      .method (responsive_handleBasicCancel hv args) fun hcancel => .method (responsive_handleBasicPublish args) fun _ =>
      .method (responsive_handleBasicGet hv hch args) fun _ => .method (responsive_handleBasicAck hv args) fun hack =>
      .method (responsive_handleBasicReject hv args) fun hreject =>
      .method (responsive_handleBasicRecover hv rfl args) fun hrecover =>
      .method (responsive_handleBasicRecover hv rfl args) fun hasync =>
      .method (responsive_handleBasicNack hv args) fun hnack => responsive_notImplemented fun hmem => ?_
    have hids : methodId ∈ [basic_method.QOS, basic_method.CANCEL, basic_method.ACK, basic_method.REJECT,
        basic_method.RECOVER_ASYNC, basic_method.RECOVER, basic_method.NACK] := mem_grantedMethods hmem
    simp only [List.mem_cons, List.not_mem_nil, or_false] at hids
    tauto
  case confirm =>
    rintro rfl
    refine .method (responsive_handleConfirmSelect args) fun hselect => responsive_notImplemented fun hmem => ?_
    have hids : methodId ∈ [confirm_method.SELECT] := mem_grantedMethods hmem
    exact hselect (List.mem_singleton.mp hids)
  case tx =>
    rintro rfl
    refine .method (responsive_handleTx rfl (by decide) args) fun hselect =>
      .method (responsive_handleTx rfl (by decide) args) fun hcommit =>
      .method (responsive_handleTx rfl (by decide) args) fun hrollback => responsive_notImplemented fun hmem => ?_
    have hids : methodId ∈ [tx_method.SELECT, tx_method.COMMIT, tx_method.ROLLBACK] := mem_grantedMethods hmem
    simp only [List.mem_cons, List.not_mem_nil, or_false] at hids
    tauto
  intro hmem
  -- What is left are the classes that the connection handles itself.
  have hclass := class_of_granted hmem
  simp only [List.mem_cons, List.not_mem_nil, or_false] at hclass
  rcases hclass with hclass | hclass | hclass | hclass | hclass
  · exact hconnection hclass
  · subst hclass
    have hids : methodId ∈ [channel_method.OPEN, channel_method.FLOW, channel_method.CLOSE, channel_method.CLOSE_OK] :=
      mem_grantedMethods hmem
    refine hchannel rfl ?_
    simp only [List.mem_cons, List.not_mem_nil, or_false] at hids ⊢
    tauto
  · exact hbasic hclass
  · exact hconfirm hclass
  · exact htx hclass

/-! ### Connections and channels -/

/-- A connection that is closed instead is not alive. --/
theorem Responsive.sendConnectionClose {replyCode classId' methodId' : UInt16} {replyText : Bytes} :
    Responsive c num classId methodId args s (.ok (s.sendConnectionClose c replyCode replyText classId' methodId')) := by
  intro s' heq hlive
  obtain rfl := Except.ok.inj heq
  exact absurd hlive (not_live_sendConnectionClose _ _ _ _)

theorem Responsive.shutdown (hv : Valid s₁) : Responsive c num classId methodId args s (.ok (s₁.shutdown c)) := by
  intro s' heq hlive
  obtain rfl := Except.ok.inj heq
  exact absurd hlive (not_live_shutdown hv)

theorem responsive_handleStartOk (args : Buffer) :
    Responsive c 0 class_id.CONNECTION connection_method.START_OK args s (s.handleStartOk c args) := by
  rw [handleStartOk]
  refine .ite (fun _ => .sendConnectionClose) fun hstate => ?_
  rw [withArgs]
  split
  · exact .error
  · rename_i answer rest hread
    cases answer with
    | error mechanism => exact .sendConnectionClose
    | ok user =>
      dsimp only
      split
      · intro s' heq _
        obtain rfl := Except.ok.inj heq
        rw [not_not] at hstate
        obtain ⟨conn, hconn, -⟩ := Option.map_eq_some_iff.mp hstate
        rw [sendConnectionTune]
        split
        · rename_i hnone
          rw [connection, modifyConnection, Assoc.lookup_modify_self, ← connection, hconn] at hnone
          cases hnone
        · have hr : Rpc.of class_id.CONNECTION connection_method.START_OK =
              some { answers := [connection_method.TUNE], refusable := false } := rfl
          refine exists_sure_answer hr (List.mem_singleton_self _) (by decide) rfl ?_ _
          exact .of_eq (replied_modifyConnection c fun _ => rfl)
      · exact .sendConnectionClose

theorem responsive_handleTuneOk (args : Buffer) :
    Responsive c 0 class_id.CONNECTION connection_method.TUNE_OK args s (s.handleTuneOk c args) := by
  rw [handleTuneOk]
  refine .ite (fun _ => .sendConnectionClose) fun _ => .withArgs (.any _) fun _ _ _ _ => ?_
  exact exists_nothing (r := { answers := [], refusable := false }) rfl rfl (.of_eq (replied_modifyConnection c fun _ => rfl))

theorem responsive_handleConnectionOpen (args : Buffer) :
    Responsive c 0 class_id.CONNECTION connection_method.OPEN args s (s.handleConnectionOpen c args) := by
  rw [handleConnectionOpen]
  refine .ite (fun _ => .sendConnectionClose) fun _ => ?_
  rw [withArgs]
  split
  · exact .error
  · split
    · exact .sendConnectionClose
    · intro s' heq _
      obtain rfl := Except.ok.inj heq
      have hr : Rpc.of class_id.CONNECTION connection_method.OPEN =
          some { answers := [connection_method.OPEN_OK], refusable := false } := rfl
      refine exists_sure_answer hr (List.mem_singleton_self _) (by decide) rfl ?_ _
      exact .of_eq (replied_modifyConnection c fun _ => rfl)

theorem responsive_handleConnectionMethod (hv : Valid s) (args : Buffer) :
    Responsive c 0 class_id.CONNECTION methodId args s (s.handleConnectionMethod c methodId args) := by
  rw [handleConnectionMethod]
  refine .method (responsive_handleStartOk args) fun _ => .method (responsive_handleTuneOk args) fun _ =>
    .method (responsive_handleConnectionOpen args) fun _ => .method ?close fun _ => .method (.shutdown hv) fun _ =>
    .sendConnectionClose
  rw [handleConnectionClose, withArgs]
  split
  · exact .error
  · have hsent : Does c [.output] s (s.sendMethodFrame c 0 class_id.CONNECTION connection_method.CLOSE_OK []) :=
      does_sendMethodFrame _ _ _ rfl
    exact .shutdown ((hsent.moves hv).valid hv)

theorem responsive_handleChannelOpen {conn : Connection} (hconn : s.connection c = some conn) (num : UInt16) (args : Buffer) :
    Responsive c num class_id.CHANNEL channel_method.OPEN args s (s.handleChannelOpen c num args) := by
  rw [handleChannelOpen, withArgs]
  split
  · exact .error
  · rw [hconn]
    dsimp only
    split
    · exact .sendConnectionClose
    · intro s' heq _
      obtain rfl := Except.ok.inj heq
      have hr : Rpc.of class_id.CHANNEL channel_method.OPEN =
          some { answers := [channel_method.OPEN_OK], refusable := false } := rfl
      have hcounted : Responds c s { s with nextChannel := s.nextChannel + 1 } [] := .of_connections rfl
      refine exists_sure_answer hr (List.mem_singleton_self _) (by decide) rfl ?_ _
      exact hcounted.after (.of_eq (replied_modifyConnection c fun _ => rfl))

theorem responds_cleanupChannel (hv : Valid s) (num : UInt16) : Responds c s (s.cleanupChannel c num) [] :=
  .does hv (does_cleanupChannel (c := c)) (by decide)

theorem responsive_handleChannelClose (hv : Valid s) (num : UInt16) (args : Buffer) :
    Responsive c num class_id.CHANNEL channel_method.CLOSE args s (s.handleChannelClose c num args) :=
  .withArgs (.any _) fun _ _ _ _ => exists_sure_answer (r := { answers := [channel_method.CLOSE_OK], refusable := false }) rfl
    (List.mem_singleton_self _) (by decide) rfl (responds_cleanupChannel hv num) []

theorem responsive_handleChannelFlow (num : UInt16) (args : Buffer) :
    Responsive c num class_id.CHANNEL channel_method.FLOW args s (s.handleChannelFlow c num args) :=
  .withArgs (.any _) fun _ _ _ _ => exists_sure_answer (r := { answers := [channel_method.FLOW_OK], refusable := false }) rfl
    (List.mem_singleton_self _) (by decide) rfl .refl _

end Handlers

/-! ### Content -/

theorem own_publishTo (several : Bool) (msg : Ref) (s : AmqpServer) (qname : Bytes) :
    (publishTo several msg s qname).own c = s.own c := by
  obtain ⟨s₁, copy, hcopy, hpublish⟩ := publishTo_cases several msg s qname
  have hsame : s₁.connections = s.connections := by
    rcases hcopy with ⟨-, rfl, -⟩ | ⟨-, rfl, -⟩ <;> rfl
  rcases hpublish with heq | heq <;> rw [heq, deliverToQueue, own_enqueueLoop]
  · exact own_congr hsame
  · exact own_congr ((connections_storeMessage ..).trans hsame)

/-- A publish is not answered: neither a return nor an ack is an answer. --/
theorem responds_publish (p : PendingPublish) : Responds c s (s.publish c num p) [] := by
  have hnew : Responds c s (s.newMessage (messageOf c p)) [] := .of_connections rfl
  have hdistribute : Responds c s (s.distribute c num p) [] := by
    rw [distribute]
    split
    · exact (hnew.after (.sendMethodFrame_unasked (by decide) _)).after (.sendContentFrames _ _ _)
    · exact hnew.after (.foldl (fun s qname _ => .of_eq (replied_of_own (own_publishTo ..))) _)
  rw [publish_eq]
  refine (hdistribute.after ?_).after (.modifyChannel num _)
  rw [sendConfirm]
  split
  · exact .refl
  · split
    · exact (Responds.modifyChannel num _).after (.sendMethodFrame_unasked (by decide) _)
    · exact .refl

theorem responds_handleContentBody (data : Bytes) : Responds c s (s.handleContentBody c num data) [] := by
  rw [handleContentBody]
  split
  · exact .refl
  · dsimp only
    split
    · exact (Responds.modifyChannel num _).after (responds_publish _)
    · exact .modifyChannel num _

/-! ### Frames -/

/-- The channel is open and waits for the content of a publish. --/
def awaitsContent (c : Nat) (num : UInt16) (s : AmqpServer) : Bool :=
  ((s.openChannelAt c num).bind Channel.pendingPublish).isSome

/-- If the frame is handled and the connection lives on, then the client was sent one answer. --/
def Settles (c : Nat) (frame : Frame) (s : AmqpServer) (o : Outcome) : Prop :=
  ∀ s', o = .ok s' → Live c s' → ∃ answer, FrameAnswer ⟨frame, awaitsContent c frame.channel s⟩ answer ∧ Responds c s s' answer

variable {frame : Frame}

theorem Settles.error : Settles c frame s (.error s₁) := by
  intro s' heq
  cases heq

theorem Responsive.settles {classId methodId : UInt16} {args : Buffer} {o : Outcome} (htype : frame.type = FRAME_METHOD)
    (hids : readMethodIds (Buffer.ofBytes frame.payload) = .ok ((classId, methodId), args))
    (h : Responsive c frame.channel classId methodId args s o) : Settles c frame s o := by
  intro s' heq hlive
  obtain ⟨answer, hanswer, hresponds⟩ := h s' heq hlive
  exact ⟨answer, .method htype hids hanswer, hresponds⟩

theorem settles_handleMethodFrame (hv : Valid s) {conn : Connection} (hconn : s.connection c = some conn)
    (htype : frame.type = FRAME_METHOD) :
    Settles c frame s (s.handleMethodFrame c frame.channel (Buffer.ofBytes frame.payload)) := by
  rw [handleMethodFrame]
  split
  · exact .error
  · rename_i classId methodId args hids
    refine Responsive.settles htype hids (.ite ?connection fun hconnection => .ite ?opens fun hopen => .ite ?closes fun hclose =>
      .ite ?closed fun hclosed => .ite ?flow fun hflow => ?_)
    case connection =>
      rintro rfl
      refine .ite (fun _ => .sendConnectionClose) fun hzero => ?_
      rw [not_not] at hzero
      rw [hzero]
      exact responsive_handleConnectionMethod hv args
    case opens =>
      rintro ⟨rfl, rfl⟩
      exact responsive_handleChannelOpen hconn frame.channel args
    case closes =>
      rintro ⟨rfl, rfl⟩
      exact responsive_handleChannelClose hv frame.channel args
    case closed =>
      rintro ⟨rfl, rfl⟩ s' heq -
      obtain rfl := Except.ok.inj heq
      exact exists_nothing (r := { answers := [], refusable := false }) rfl rfl (responds_cleanupChannel hv frame.channel)
    case flow =>
      rintro ⟨rfl, rfl⟩
      exact responsive_handleChannelFlow frame.channel args
    rw [handleOnChannel]
    split
    · exact .sendConnectionClose
    · rename_i ch hopen'
      have hch : s.channel c frame.channel = some ch := (Option.filter_eq_some_iff.mp hopen').1
      refine responsive_handleMethod hv hch classId methodId hconnection (fun hchannel hmem => ?_) args
      simp only [List.mem_cons, List.not_mem_nil, or_false] at hmem
      tauto

theorem tooLarge_of_ne {b : Bool} (h : frame.type ≠ FRAME_HEADER) : (Asked.mk frame b).tooLarge = false := by
  rw [Asked.tooLarge, decide_eq_false h, Bool.and_false, Bool.false_and]

theorem settles_handleContentHeader {ch : Channel} (hch : s.openChannelAt c frame.channel = some ch)
    (htype : frame.type = FRAME_HEADER) :
    Settles c frame s (s.handleContentHeader c frame.channel (Buffer.ofBytes frame.payload)) := by
  have hcontent : frame.type ≠ FRAME_METHOD := by
    rw [htype]
    decide
  have hpending : (s.channel c frame.channel).bind Channel.pendingPublish = ch.pendingPublish := by
    rw [(Option.filter_eq_some_iff.mp hch).1, Option.bind_some]
  have hlarge : (Asked.mk frame (awaitsContent c frame.channel s)).tooLarge = (ch.pendingPublish.isSome &&
      match readContentHeader (Buffer.ofBytes frame.payload) with
      | .ok (bodySize, _) => MAX_BODY_SIZE < bodySize.toNat
      | .error _ => false) := by
    rw [Asked.tooLarge, awaitsContent, hch, Option.bind_some, decide_eq_true htype, Bool.and_true]
  rw [handleContentHeader, hpending]
  split
  · rename_i hnone
    rw [hnone, Option.isSome_none, Bool.false_and] at hlarge
    intro s' heq _
    obtain rfl := Except.ok.inj heq
    exact ⟨[], .content hcontent hlarge, .refl⟩
  · rename_i p hsome
    rw [hsome, Option.isSome_some, Bool.true_and] at hlarge
    split
    · exact .error
    · rename_i bodySize rest hread
      rw [hread] at hlarge
      dsimp only at hlarge ⊢
      split
      · rename_i hsize
        intro s' heq _
        obtain rfl := Except.ok.inj heq
        exact ⟨_, .tooLarge (hlarge.trans (decide_eq_true hsize)),
          (Responds.modifyChannel _ _).after (.sendMethodFrame (by decide) _)⟩
      · rename_i hsize
        split
        · exact .error
        · intro s' heq _
          obtain rfl := Except.ok.inj heq
          refine ⟨[], .content hcontent (hlarge.trans (decide_eq_false hsize)), ?_⟩
          split
          · exact (Responds.modifyChannel _ _).after (responds_handleContentBody _)
          · exact .modifyChannel _ _

/-- Every frame on a connection that lives on is answered once. --/
theorem settles_handleFrame (hv : Valid s) (hlive : Live c s) : Settles c frame s (s.handleFrame c frame) := by
  obtain ⟨x, hx, hclosing, -⟩ := hlive
  obtain ⟨conn, hconn, rfl⟩ := Option.map_eq_some_iff.mp hx
  have hstay : ∀ {s₁ : AmqpServer}, frame.type ≠ FRAME_METHOD →
      (Asked.mk frame (awaitsContent c frame.channel s)).tooLarge = false → Responds c s s₁ [] → Settles c frame s (.ok s₁) := by
    intro s₁ htype hfits h s' heq _
    obtain rfl := Except.ok.inj heq
    exact ⟨[], .content htype hfits, h⟩
  rw [handleFrame, if_neg]
  · by_cases hmethod : frame.type = FRAME_METHOD
    · rw [if_pos hmethod]
      exact settles_handleMethodFrame hv hconn hmethod
    · rw [if_neg hmethod]
      split
      · rename_i hheader
        split
        · rename_i hnone
          refine hstay hmethod ?_ .refl
          rw [Asked.tooLarge, awaitsContent, hnone, Option.bind_none, Option.isSome_none, Bool.false_and, Bool.false_and]
        · rename_i ch hch
          exact settles_handleContentHeader hch hheader
      · rename_i hheader
        have hfits := tooLarge_of_ne (b := awaitsContent c frame.channel s) hheader
        split
        · split
          · exact hstay hmethod hfits .refl
          · exact hstay hmethod hfits (responds_handleContentBody _)
        · split
          · exact hstay hmethod hfits .refl
          · intro s' heq hlive'
            obtain rfl := Except.ok.inj heq
            exact absurd hlive' (not_live_sendConnectionClose _ _ _ _)
  · rw [hconn, Option.map_some, Option.some.injEq]
    exact fun h => hclosing h.1

/-! ### Runs -/

/-- The frame of the client that the event has the server handle. --/
def asked (c : Nat) (s : AmqpServer) : Event → List Asked
  | .frame c' frame frameEnd =>
    if c' = c ∧ Served c s frame frameEnd then [⟨frame, awaitsContent c frame.channel s⟩] else []
  | _ => []

/-- The frames that the client was answered with. --/
def replies (c : Nat) (s : AmqpServer) : List Frame := (s.replied c).getD []

/-- A state of a process that knows the connection. --/
structure Connected (c : Nat) (s : AmqpServer) : Prop where
  valid : Valid s
  session : ∃ x, s.session c = some x

theorem Connected.handle (h : Connected c s) {e : Event} (he : e ≠ .restart) : Connected c (s.handle e) := by
  obtain ⟨x, hx⟩ := h.session
  obtain ⟨y, hy, -⟩ := advance_handle h.valid hx he
  exact ⟨valid_handle h.valid e, y, hy⟩

theorem Connected.answered {asked : List Asked} (h : Connected c s)
    (hanswers : ∃ answers, List.Forall₂ FrameAnswer asked answers ∧ Responds c s s' answers.flatten) :
    Transcript.Answered FrameAnswer (replies c) asked s s' := by
  obtain ⟨x, hx⟩ := h.session
  obtain ⟨conn, hconn, -⟩ := Option.map_eq_some_iff.mp hx
  obtain ⟨answers, hall, hresponds⟩ := hanswers
  have hbefore : s.replied c = some (conn.sent.filterMap replyFrame) := by rw [replied, hconn, Option.map_some]
  refine ⟨answers, hall, ?_⟩
  rw [replies, hresponds _ hbefore, replies, hbefore]
  rfl

/-- A delivery is no answer. --/
theorem responds_runTask : Responds c s (s.runTask c) [] := by
  rw [runTask]
  split
  · exact .refl
  · exact .refl
  · rename_i t rest hstrand
    have hpop : Responds c s (s.modifyConnection c fun conn => { conn with strand := rest }) [] :=
      .of_eq (replied_modifyConnection c fun _ => rfl)
    dsimp only
    split
    · exact hpop
    · rename_i ch _
      have hsent : ∀ (s₁ : AmqpServer) (bytes : Bytes), Responds c s s₁ [] → Responds c s
          ((s₁.sendMethodFrame c t.channel_id class_id.BASIC basic_method.DELIVER bytes).sendContentFrames c t.channel_id
            class_id.BASIC t.props t.body) [] := fun s₁ bytes h₁ =>
        (h₁.after (.sendMethodFrame_unasked (by decide) bytes)).after (.sendContentFrames _ _ _)
      rw [deliverMessage]
      refine hsent _ _ (Responds.after ?_ (.modifyChannel t.channel_id _))
      split
      · exact hpop
      · split
        · exact hpop.after (.of_connections rfl)
        · exact hpop.after (.modifyChannel t.channel_id _)

/-- What is not a frame of the client is not answered. --/
theorem responds_handle (h : Connected c s) {e : Event} (he : e ≠ .restart) (hasked : ∀ frame frameEnd, e ≠ .frame c frame frameEnd)
    (hlive : Live c (s.handle e)) : Responds c s (s.handle e) [] := by
  obtain ⟨x, hx⟩ := h.session
  obtain ⟨conn, hconn, rfl⟩ := Option.map_eq_some_iff.mp hx
  by_cases hc : e.connection? = some c
  · cases e with
    | frame c' frame frameEnd =>
      obtain rfl := Option.some.inj hc
      exact absurd rfl (hasked frame frameEnd)
    | protocolHeader c' header =>
      obtain rfl := Option.some.inj hc
      rw [AmqpServer.handle, hconn] at hlive ⊢
      dsimp only at hlive ⊢
      split
      · rename_i hstate
        rw [if_pos hstate, receiveProtocolHeader] at hlive
        rw [receiveProtocolHeader]
        split
        · have hstart : (class_id.CONNECTION, connection_method.START) ∈ unasked := by decide
          refine Responds.after ?_ (.sendMethodFrame_unasked hstart _)
          exact .of_eq (replied_modifyConnection c' fun _ => rfl)
        · rename_i hheader
          rw [if_neg hheader] at hlive
          exact absurd hlive (not_live_shutdown (h.valid.move (c := c') (.send _)))
      · exact .refl
    | runTask c' =>
      obtain rfl := Option.some.inj hc
      exact responds_runTask
    | disconnect c' =>
      obtain rfl := Option.some.inj hc
      exact absurd hlive (not_live_shutdown h.valid)
    | reorderChannels c' order => exact .of_eq (replied_modifyConnection c' fun _ => rfl)
    | reorderConsumers c' num order => exact .modifyChannel num _
    | reorderUnacked c' num order => exact .modifyChannel num _
    | _ => cases hc
  · exact .of_eq (replied_of_own (own_handle_of_ne h.valid hconn he hc))

theorem answered_handle (h : Connected c s) {e : Event} (he : e ≠ .restart) (hlive : Live c s) (hlive' : Live c (s.handle e)) :
    Transcript.Answered FrameAnswer (replies c) (asked c s e) s (s.handle e) := by
  refine h.answered ?_
  by_cases hframe : ∃ frame frameEnd, e = .frame c frame frameEnd
  · obtain ⟨frame, frameEnd, rfl⟩ := hframe
    rcases handle_frame_cases c s frame frameEnd with ⟨hserved, heq | ⟨text, heq⟩⟩ | ⟨hserved, hok | ⟨s', text, -, heq⟩⟩
    · rw [asked, if_neg fun h => hserved h.2, heq]
      exact ⟨[], .nil, .refl⟩
    · rw [heq] at hlive'
      exact absurd hlive' (not_live_stopReading text)
    · obtain ⟨answer, hanswer, hresponds⟩ := settles_handleFrame h.valid hlive _ hok hlive'
      rw [asked, if_pos ⟨rfl, hserved⟩]
      refine ⟨[answer], .cons hanswer .nil, ?_⟩
      rwa [List.flatten_cons, List.flatten_nil, List.append_nil]
    · rw [heq] at hlive'
      exact absurd hlive' (not_live_stopReading text)
  · have hnone : asked c s e = [] := by
      cases e with
      | frame c' frame frameEnd =>
        refine if_neg ?_
        rintro ⟨rfl, -⟩
        exact hframe ⟨frame, frameEnd, rfl⟩
      | _ => rfl
    rw [hnone]
    exact ⟨[], .nil, responds_handle h he (fun frame frameEnd heq => hframe ⟨frame, frameEnd, heq⟩) hlive'⟩

section Runs
variable {store : Option MessageStore} {userStore : UserStore} {clock : Nat → Int} {readings : Nat}

/-- In every run of a process, whatever other clients do and queues deliver meanwhile: as long as neither side closes a
    connection, the server has sent one answer to each frame that came on it, in their order, and no other answers. --/
theorem requests_answered {pre events : List Event} (hrestart : .restart ∉ events)
    (hconn : (((start store userStore clock readings).run pre).connection c).isSome = true)
    (hlive : Live c (((start store userStore clock readings).run pre).run events)) :
    let s := (start store userStore clock readings).run pre
    ∃ answers, List.Forall₂ FrameAnswer (Prefix.trace handle (asked c) s events) answers ∧
      replies c (s.run events) = replies c s ++ answers.flatten := by
  intro s
  obtain ⟨conn, hconn⟩ := Option.isSome_iff_exists.mp hconn
  have hconnected : Connected c s := ⟨valid_run valid_start pre, conn.session, by rw [session, hconn, Option.map_some]⟩
  have hne : ∀ e ∈ events, e ≠ .restart := fun e he heq => hrestart (heq ▸ he)
  have hkeep : ∀ s, ∀ e ∈ events, Connected c s → Connected c (s.handle e) := fun s e he h => h.handle (hne e he)
  have hback : ∀ s, ∀ e ∈ events, Connected c s → Live c (s.handle e) → Live c s := fun s e he h =>
    Live.back h.valid h.session.choose_spec (hne e he)
  exact (Transcript.answered_run hkeep hback (fun s e he h => answered_handle h (hne e he)) hconnected hlive).2

/-- A client opens a channel, names a queue that is not there, publishes a message that comes back, and selects confirms. --/
def talk : List Event :=
  [Client.openChannel 1 1, Client.purgeQueue 1 1 (ascii "q")] ++ Client.publish 1 1 [] (ascii "q") [1] true false {} ++
    [Client.confirmSelect 1 1]

/-- A return is no answer, and the frames of a publish get none. --/
theorem talk_answered :
    ((replies 1 ((freshServer.run (Client.connect 1)).run talk)).map methodIds =
      [some (class_id.CONNECTION, connection_method.TUNE), some (class_id.CONNECTION, connection_method.OPEN_OK),
        some (class_id.CHANNEL, channel_method.OPEN_OK), some (class_id.CHANNEL, channel_method.CLOSE),
        some (class_id.CONFIRM, confirm_method.SELECT_OK)]) ∧
      ∃ answers, List.Forall₂ FrameAnswer (Prefix.trace handle (asked 1) (freshServer.run (Client.connect 1)) talk) answers ∧
        replies 1 ((freshServer.run (Client.connect 1)).run talk) =
          replies 1 (freshServer.run (Client.connect 1)) ++ answers.flatten := by
  have hconn : ((freshServer.run (Client.connect 1)).connection 1).isSome = true := by decide +kernel
  have hsession : (((freshServer.run (Client.connect 1)).run talk).session 1).map Session.state = some .OPEN := by
    decide +kernel
  have hlive : Live 1 ((freshServer.run (Client.connect 1)).run talk) := by
    obtain ⟨x, hx, hstate⟩ := Option.map_eq_some_iff.mp hsession
    exact ⟨x, hx, by rw [hstate]; decide, by rw [hstate]; decide⟩
  have hrestart : Event.restart ∉ talk := by
    simp [talk, Client.openChannel, Client.purgeQueue, Client.publish, Client.confirmSelect, Client.sendMethod]
  exact ⟨by decide +kernel, requests_answered hrestart hconn hlive⟩

end Runs

end AmqpServer
end Broko.Broker
