import Broko.Theorems.Closing
import Broko.Theorems.Confirms
import Broko.Theorems.Handshake

/-! A channel that the broker has closed. `sendChannelClose` writes the method and nothing else, so the channel goes on
    until the client answers: what the client has sent in the meantime is processed, and deliveries are sent. -/

namespace Broko.Broker
open Amqp Storage MessageStore

namespace AmqpServer

variable {c c' : Nat} {num num' : UInt16} {s s' : AmqpServer}

/-! ### Channel zero -/

/-- No connection has a channel with number zero. --/
structure NoZero (s : AmqpServer) : Prop where
  channel : ∀ c, s.channel c 0 = none

namespace NoZero

theorem congr (h : NoZero s) (hs : s'.connections = s.connections) : NoZero s' := by
  refine ⟨fun c => ?_⟩
  rw [AmqpServer.channel, connection, hs]
  exact h.channel c

theorem modifyConnection (h : NoZero s) (c : Nat) {f : Connection → Connection}
    (hf : ∀ conn, conn.channels.lookup 0 = none → (f conn).channels.lookup 0 = none) : NoZero (s.modifyConnection c f) := by
  refine ⟨fun c' => ?_⟩
  have h' := h.channel c'
  rw [AmqpServer.channel, connection] at h'
  rw [AmqpServer.channel, connection, AmqpServer.modifyConnection, Assoc.lookup_modify]
  split
  · rename_i heq
    subst heq
    cases hconn : s.connections.lookup c' with
    | none => rfl
    | some conn =>
      rw [hconn, Option.bind_some] at h'
      rw [Option.map_some, Option.bind_some]
      exact hf conn h'
  · exact h'

theorem modifyChannel (h : NoZero s) (c : Nat) (num : UInt16) (f : Channel → Channel) : NoZero (s.modifyChannel c num f) := by
  refine h.modifyConnection c fun conn hnone => ?_
  dsimp only
  rw [Assoc.lookup_modify]
  split
  · rename_i heq
    rw [← heq, hnone]
    rfl
  · exact hnone

theorem of_own (h : NoZero s) (hown : ∀ c, s'.own c = s.own c) : NoZero s' := by
  have hmap : ∀ (s : AmqpServer) c, s.channel c 0 = (s.own c).bind fun conn => conn.channels.lookup 0 := by
    intro s c
    rw [AmqpServer.channel, own]
    cases s.connection c <;> rfl
  refine ⟨fun c => ?_⟩
  rw [hmap, hown, ← hmap]
  exact h.channel c

theorem move {k : Kind} (h : NoZero s) (hm : Move c k s s') : NoZero s' := by
  cases hm with
  | handOver idx => exact h.of_own fun _ => own_handOver _ _ _ _
  | purge name =>
    rw [AmqpServer.purge]
    split <;> exact h.congr rfl
  | store m => exact h.congr (connections_storeMessage ..)
  | oversize m => exact h.congr (connections_storeMessage ..)
  | send out => exact h.modifyConnection c fun _ hnone => hnone
  | note num f => exact h.modifyChannel ..
  | pending num p => exact h.modifyChannel ..
  | handshake f hf => exact h.modifyConnection c fun conn hnone => by rw [(hf conn).channels, hnone]
  | hold num u => exact (h.modifyChannel ..).modifyChannel ..
  | takeTag num => exact h.modifyChannel ..
  | releaseCredit u => exact h.congr (connections_releaseCredit u)
  | eraseUnacked num tag => exact h.modifyChannel ..
  | clearUnacked num => exact h.modifyChannel ..
  | settle u => exact h.congr (connections_persistAck u)
  | mapConsumer num => exact h.modifyChannel ..
  | removeConsumer name tag => exact h.congr (connections_removeConsumer name tag)
  | unmapConsumer num => exact h.modifyChannel ..
  | unmapConsumers num => exact h.modifyChannel ..
  | removeConsumersByConnection name => exact h.congr (connections_removeConsumersByConnection name c)
  | openChannel num hnum =>
    have hnext : NoZero { s with nextChannel := s.nextChannel + 1 } := h.congr rfl
    refine hnext.modifyConnection c fun conn hnone => ?_
    exact (Assoc.lookup_insert_of_ne (Ne.symm hnum)).trans hnone
  | setClosed num => exact h.modifyChannel ..
  | dropChannel num =>
    refine h.modifyConnection c fun conn hnone => ?_
    by_cases heq : 0 = num
    · subst heq
      exact Assoc.lookup_erase_self ..
    · exact (Assoc.lookup_erase_of_ne heq).trans hnone
  | shut => exact h.modifyConnection c fun _ hnone => hnone
  | dropChannels => exact h.modifyConnection c fun _ _ => rfl
  | popTask => exact h.modifyConnection c fun _ hnone => hnone
  | accept =>
    refine ⟨fun c' => ?_⟩
    rw [AmqpServer.channel, connection, accept]
    dsimp only
    by_cases heq : c' = s.nextConnectionId
    · rw [heq, Assoc.lookup_insert_self]
      rfl
    · rw [Assoc.lookup_insert_of_ne heq]
      exact h.channel c'
  | reorderChannels order =>
    exact h.modifyConnection c fun conn hnone => (Assoc.lookup_reorder ..).trans hnone
  | reorderConsumers num order => exact h.modifyChannel ..
  | reorderUnacked num order => exact h.modifyChannel ..
  | _ => exact h.congr rfl

theorem start (store : Option MessageStore) (userStore : UserStore) (clock : Nat → Int) (readings : Nat) :
    NoZero (start store userStore clock readings) := by
  refine ⟨fun c => ?_⟩
  have hnone : (AmqpServer.start store userStore clock readings).confirmView c 0 = none := confirmView_start
  rw [confirmView, Option.map_eq_none_iff] at hnone
  rw [AmqpServer.channel, hnone]
  rfl

theorem handle (h : NoZero s) (hv : Valid s) (e : Event) : NoZero (s.handle e) := by
  by_cases he : e = .restart
  · subst he
    exact start ..
  · obtain ⟨c, hactor, -⟩ := exists_actor e 0
    have hdoes : Does c (.oversize :: allKinds) s (s.handle e) :=
      does_handle hactor he (fun _ => List.mem_cons_of_mem _) (.inl List.mem_cons_self)
    exact (hdoes.moves hv).keeps (fun _ _ _ _ hm hs => hs.move hm) h

theorem run (h : NoZero s) (hv : Valid s) (events : List Event) : NoZero (s.run events) := by
  induction events generalizing s with
  | nil => exact h
  | cons e events ih => exact ih (h.handle hv e) (valid_handle hv e)

end NoZero

/-! ### Deliveries -/

/-- The methods of one sort that the client was sent on the channel. --/
def methodsSent (c : Nat) (num : UInt16) (ids : UInt16 × UInt16) (s : AmqpServer) : List Outgoing :=
  ((s.connection c).map fun conn => methodsOn num ids conn.sent).getD []

/-- What was written to a client. --/
def sentTo (s : AmqpServer) (c : Nat) : Option (List Outgoing) := (s.connection c).map Connection.sent

theorem methodsSent_eq (ids : UInt16 × UInt16) : methodsSent c num ids s = ((s.sentTo c).map (methodsOn num ids)).getD [] := by
  rw [methodsSent, sentTo, Option.map_map]
  rfl

theorem sentTo_congr (h : s'.connections = s.connections) : s'.sentTo c = s.sentTo c := by
  rw [sentTo, sentTo, connection, h, connection]

theorem sentTo_of_own (h : s'.own c = s.own c) : s'.sentTo c = s.sentTo c := by
  have hmap : ∀ s : AmqpServer, s.sentTo c = (s.own c).map Connection.sent := by
    intro s
    rw [sentTo, own, Option.map_map]
    rfl
  rw [hmap, hmap, h]

theorem sentTo_modifyConnection (c' : Nat) {f : Connection → Connection} (hf : ∀ conn, (f conn).sent = conn.sent) :
    (s.modifyConnection c' f).sentTo c = s.sentTo c := by
  rw [sentTo, sentTo, connection, AmqpServer.modifyConnection, Assoc.lookup_modify, connection]
  split
  · rename_i h
    rw [h, Option.map_map]
    exact congrArg (fun g => Option.map g (s.connections.lookup c')) (funext hf)
  · rfl

theorem sentTo_modifyChannel (c' : Nat) (num : UInt16) (f : Channel → Channel) : (s.modifyChannel c' num f).sentTo c = s.sentTo c :=
  sentTo_modifyConnection c' fun _ => rfl

theorem methodsSent_send {ids : UInt16 × UInt16} {out : Outgoing} (h : isMethod num ids out = false) :
    methodsSent c num ids (s.send c' out) = methodsSent c num ids s := by
  rw [methodsSent, methodsSent, connection, send, modifyConnection, Assoc.lookup_modify, connection]
  split
  · rename_i heq
    rw [heq, Option.map_map]
    refine congrArg (fun g => (Option.map g (s.connections.lookup c')).getD []) (funext fun conn => ?_)
    exact methodsOn_concat_of_not h conn.sent
  · rfl

/-- A move writes nothing, or it is the one that writes. --/
theorem sentTo_move {k : Kind} (hm : Move c' k s s') (hk : k ≠ .server) :
    (∃ out, s' = s.send c' out ∧ outgoingKind out = k) ∨ s'.sentTo c = s.sentTo c := by
  cases hm with
  | send out => exact .inl ⟨out, rfl, rfl⟩
  | handOver idx => exact .inr (sentTo_of_own (own_handOver _ _ _ _))
  | purge name =>
    right
    rw [AmqpServer.purge]
    split <;> exact sentTo_congr rfl
  | store m => exact .inr (sentTo_congr (connections_storeMessage ..))
  | oversize m => exact .inr (sentTo_congr (connections_storeMessage ..))
  | note num f => exact .inr (sentTo_modifyChannel ..)
  | pending num p => exact .inr (sentTo_modifyChannel ..)
  | handshake f hf => exact .inr (sentTo_modifyConnection c' fun conn => (hf conn).sent)
  | hold num u => exact .inr ((sentTo_modifyChannel ..).trans (sentTo_modifyChannel ..))
  | takeTag num => exact .inr (sentTo_modifyChannel ..)
  | releaseCredit u => exact .inr (sentTo_congr (connections_releaseCredit u))
  | eraseUnacked num tag => exact .inr (sentTo_modifyChannel ..)
  | clearUnacked num => exact .inr (sentTo_modifyChannel ..)
  | settle u => exact .inr (sentTo_congr (connections_persistAck u))
  | mapConsumer num => exact .inr (sentTo_modifyChannel ..)
  | removeConsumer name tag => exact .inr (sentTo_congr (connections_removeConsumer name tag))
  | unmapConsumer num => exact .inr (sentTo_modifyChannel ..)
  | unmapConsumers num => exact .inr (sentTo_modifyChannel ..)
  | removeConsumersByConnection name => exact .inr (sentTo_congr (connections_removeConsumersByConnection name c'))
  | openChannel num => exact .inr (sentTo_modifyConnection c' fun _ => rfl)
  | setClosed num => exact .inr (sentTo_modifyChannel ..)
  | dropChannel num => exact .inr (sentTo_modifyConnection c' fun _ => rfl)
  | shut => exact .inr (sentTo_modifyConnection c' fun _ => rfl)
  | dropChannels => exact .inr (sentTo_modifyConnection c' fun _ => rfl)
  | popTask => exact .inr (sentTo_modifyConnection c' fun _ => rfl)
  | accept => exact absurd rfl hk
  | reorderChannels order => exact absurd rfl hk
  | reorderConsumers num order => exact absurd rfl hk
  | reorderUnacked num order => exact absurd rfl hk
  | _ => exact .inr (sentTo_congr rfl)

theorem kind_of_deliver {out : Outgoing} (h : isMethod num (class_id.BASIC, basic_method.DELIVER) out = true) :
    outgoingKind out = .deliver := by
  cases out with
  | protocolHeader => cases h
  | frame f =>
    have hids := (of_decide_eq_true h).2
    rw [outgoingKind, hids]
    rfl

/-- The deliveries that the client was sent on the channel. --/
def deliveriesSent (c : Nat) (num : UInt16) (s : AmqpServer) : List Outgoing :=
  methodsSent c num (class_id.BASIC, basic_method.DELIVER) s

theorem deliveriesSent_does {K : List Kind} (hv : Valid s) (h : Does c' K s s') (hK : ∀ k ∈ K, k ≠ .server ∧ k ≠ .deliver) :
    deliveriesSent c num s' = deliveriesSent c num s := by
  refine (h.moves hv).keeps (P := fun s' => deliveriesSent c num s' = deliveriesSent c num s) ?_ rfl
  intro k hk s₁ s₂ hm hs
  rw [← hs]
  rcases sentTo_move hm (hK k hk).1 with ⟨out, rfl, hout⟩ | hsent
  · refine methodsSent_send (Bool.eq_false_iff.mpr fun hdel => (hK k hk).2 ?_)
    rw [← hout, kind_of_deliver hdel]
  · rw [deliveriesSent, methodsSent_eq, hsent, ← methodsSent_eq, deliveriesSent]

/-- The oldest task of the strand is a delivery that goes out on the channel. --/
def Delivers (c : Nat) (num : UInt16) (s : AmqpServer) : Prop :=
  ∃ t rest, (s.connection c).map Connection.strand = some (t :: rest) ∧ t.channel_id = num ∧
    ((s.lockChannel c t).filter Channel.isOpen).isSome = true

/-- A delivery on another channel. --/
theorem deliveriesSent_deliverMessage (ch : Channel) (t : DeliverTask) (hne : num' ≠ num) :
    deliveriesSent c num (s.deliverMessage c num' ch t) = deliveriesSent c num s := by
  have hcontent : ∀ (s₁ : AmqpServer) (props : BasicProperties) (body : Bytes),
      deliveriesSent c num (s₁.sendContentFrames c num' class_id.BASIC props body) = deliveriesSent c num s₁ := by
    intro s₁ props body
    rw [sendContentFrames]
    split
    · rfl
    · refine List.foldlRecOn (motive := fun s' : AmqpServer => deliveriesSent c num s' = deliveriesSent c num s₁) _ _ rfl ?_
      intro s₂ hs₂ f hf
      rw [← hs₂]
      refine methodsSent_send (Bool.eq_false_iff.mpr fun hdel => ?_)
      have hids := (of_decide_eq_true hdel).2
      rw [methodIds, if_neg (type_contentFrames hf)] at hids
      cases hids
  have hheld : ∀ (s₁ : AmqpServer), deliveriesSent c num (s₁.takeTag c num') = deliveriesSent c num s₁ := by
    intro s₁
    rw [deliveriesSent, methodsSent_eq, takeTag, sentTo_modifyChannel, ← methodsSent_eq, deliveriesSent]
  rw [deliverMessage, hcontent, sendMethodFrame, sendFrame, deliveriesSent, methodsSent_send, ← deliveriesSent, hheld]
  · split
    · rfl
    · split
      · rfl
      · rw [deliveriesSent, methodsSent_eq, hold, sentTo_modifyChannel, ← methodsSent_eq, deliveriesSent]
  · rw [isMethod_methodFrame]
    exact decide_eq_false fun h => hne h.1

theorem deliveriesSent_runTask (h : ¬Delivers c num s) : deliveriesSent c num (s.runTask c) = deliveriesSent c num s := by
  rw [runTask]
  split
  · rfl
  · rfl
  · rename_i t rest hstrand
    have hpop : deliveriesSent c num (s.modifyConnection c fun conn => { conn with strand := rest }) = deliveriesSent c num s := by
      rw [deliveriesSent, methodsSent_eq, sentTo_modifyConnection, ← methodsSent_eq, deliveriesSent]
      exact fun _ => rfl
    have hlock : (s.modifyConnection c fun conn => { conn with strand := rest }).lockChannel c t = s.lockChannel c t := by
      rw [lockChannel, lockChannel, channel, channel, connection, modifyConnection, Assoc.lookup_modify_self, connection]
      cases s.connections.lookup c <;> rfl
    dsimp only
    rw [hlock]
    split
    · exact hpop
    · rename_i ch hch
      refine (deliveriesSent_deliverMessage ch t fun hnum => h ?_).trans hpop
      exact ⟨t, rest, hstrand, hnum, by rw [hch]; rfl⟩

/-- Only a task of the strand sends deliveries. --/
theorem deliveriesSent_handle (hv : Valid s) {conn : Connection} (hconn : s.connection c = some conn) {e : Event}
    (he : e ≠ .restart) (hd : e = .runTask c → ¬Delivers c num s) :
    deliveriesSent c num (s.handle e) = deliveriesSent c num s := by
  have hsame : ∀ {s' : AmqpServer}, s'.sentTo c = s.sentTo c → deliveriesSent c num s' = deliveriesSent c num s := by
    intro s' h
    rw [deliveriesSent, methodsSent_eq, h, ← methodsSent_eq, deliveriesSent]
  by_cases hc : e.connection? = some c
  · cases e with
    | frame c' frame frameEnd =>
      obtain rfl := Option.some.inj hc
      rw [handle, hconn]
      dsimp only
      split
      · exact deliveriesSent_does hv (does_receiveFrame (K := .oversize :: requestKinds) conn frameEnd
          (fun _ => List.mem_cons_of_mem _) (.inl List.mem_cons_self)) (by decide)
      · rfl
    | protocolHeader c' header =>
      obtain rfl := Option.some.inj hc
      rw [handle, hconn]
      dsimp only
      split
      · rename_i hstate
        exact deliveriesSent_does hv (does_receiveProtocolHeader hconn hstate.2 header) (by decide)
      · rfl
    | runTask c' =>
      obtain rfl := Option.some.inj hc
      exact deliveriesSent_runTask (hd rfl)
    | disconnect c' =>
      obtain rfl := Option.some.inj hc
      exact deliveriesSent_does hv does_shutdown (by decide)
    | reorderChannels c' order => exact hsame (sentTo_modifyConnection c' fun _ => rfl)
    | reorderConsumers c' num' order => exact hsame (sentTo_modifyChannel ..)
    | reorderUnacked c' num' order => exact hsame (sentTo_modifyChannel ..)
    | _ => cases hc
  · exact hsame (sentTo_of_own (own_handle_of_ne hv hconn he hc))

/-! ### Frames on the channel -/

/-- The methods of a channel that can change the virtual host or take messages out of the table of the unacked ones. --/
def acting : List (UInt16 × UInt16) :=
  [(class_id.EXCHANGE, exchange_method.DECLARE), (class_id.EXCHANGE, exchange_method.DELETE),
    (class_id.QUEUE, queue_method.DECLARE), (class_id.QUEUE, queue_method.BIND), (class_id.QUEUE, queue_method.UNBIND),
    (class_id.QUEUE, queue_method.PURGE), (class_id.QUEUE, queue_method.DELETE),
    (class_id.BASIC, basic_method.CONSUME), (class_id.BASIC, basic_method.CANCEL), (class_id.BASIC, basic_method.GET),
    (class_id.BASIC, basic_method.ACK), (class_id.BASIC, basic_method.REJECT), (class_id.BASIC, basic_method.RECOVER),
    (class_id.BASIC, basic_method.RECOVER_ASYNC), (class_id.BASIC, basic_method.NACK)]

/-- The other methods only write, and set the modes and the pending publish of the channel. --/
theorem inert_handleMethod {classId methodId : UInt16} (h : (classId, methodId) ∉ acting) (buf : Buffer) :
    Inert s (outcome (s.handleMethod c num classId methodId buf)) := by
  have hsend : ∀ (s₁ : AmqpServer) (classId methodId : UInt16) (args : Bytes),
      Inert s₁ (s₁.sendMethodFrame c num classId methodId args) := fun _ _ _ _ => .modifyConnection fun _ _ => rfl
  have hnote : ∀ (s₁ : AmqpServer) (f : Channel → Channel), (∀ ch, (f ch).unackedMessages = ch.unackedMessages) →
      Inert s₁ (s₁.modifyChannel c num f) := fun _ _ hf => .modifyChannel hf
  have hall : Handlers (fun classId methodId s' => (classId, methodId) ∈ acting ∨ Inert s s') c num s := by
    constructor
    case basicQos =>
      intro buf
      right
      have hsize : ∀ n : UInt32, Inert s (s.modifyChannel c num fun ch => { ch with prefetchSize := n }) :=
        fun _ => hnote _ _ fun _ => rfl
      have hcount : ∀ (n : UInt32) (m : UInt16), Inert s ((s.modifyChannel c num fun ch =>
          { ch with prefetchSize := n }).modifyChannel c num fun ch => { ch with prefetchCount := m }) :=
        fun n _ => (hsize n).trans (hnote _ _ fun _ => rfl)
      rw [handleBasicQos]
      split
      · exact .refl
      · dsimp only
        split
        · exact hsize _
        · exact outcome_withArgs (hcount _ _) fun _ => (hcount _ _).trans (hsend ..)
    case basicPublish =>
      intro buf
      right
      refine outcome_withArgs .refl fun args => ?_
      dsimp only
      split
      · exact hsend ..
      · exact .setPending _
    case confirmSelect =>
      intro buf
      right
      refine outcome_withArgs .refl fun bits => ?_
      have hmode : Inert s (s.modifyChannel c num fun ch => { ch with confirmMode := true, nextConfirmSeqNo := 1 }) :=
        hnote _ _ fun _ => rfl
      dsimp only
      split
      · exact hmode
      · exact hmode.trans (hsend ..)
    case tx => exact fun _ _ => .inr (hsend ..)
    case notImplemented => exact fun _ _ => .inr (hsend ..)
    all_goals exact fun _ => .inl (by decide)
  exact (hall.handleMethod classId methodId buf).resolve_left h

/-- Channel.Close-Ok or Channel.Open for the channel is received. --/
def CloseAnswered (c : Nat) (num : UInt16) (s : AmqpServer) : Event → Prop
  | .frame c' frame frameEnd =>
    c' = c ∧ frame.channel = num ∧ Served c s frame frameEnd ∧
      (methodIds frame = some (class_id.CHANNEL, channel_method.CLOSE_OK) ∨
        methodIds frame = some (class_id.CHANNEL, channel_method.OPEN))
  | _ => False

/-- A frame on the channel gets to a handler that acts: a method of the channel that can change something or its
    Channel.Close, the last frame of a publish, or a Connection.Close-Ok that ends the connection. Or a delivery goes out. --/
def Acts (c : Nat) (num : UInt16) (s : AmqpServer) : Event → Prop
  | .frame c' frame frameEnd =>
    c' = c ∧ frame.channel = num ∧
      (Completes c s frame frameEnd ∨
        Served c s frame frameEnd ∧
          (Closing c s ∧ methodIds frame = some (class_id.CONNECTION, connection_method.CLOSE_OK) ∨
            ¬Closing c s ∧ (s.channel c num).isSome = true ∧
              ∃ ids ∈ (class_id.CHANNEL, channel_method.CLOSE) :: acting, methodIds frame = some ids))
  | .runTask c' => c' = c ∧ Delivers c num s
  | _ => False

/-- A frame on the channel that neither acts nor answers. --/
theorem inert_handleFrame (hv : Valid s) (hnum : num ≠ 0) {frame : Frame} {frameEnd : UInt8} (hframe : frame.channel = num)
    (hserved : Served c s frame frameEnd) (hacts : ¬Acts c num s (.frame c frame frameEnd))
    (hanswered : ¬CloseAnswered c num s (.frame c frame frameEnd)) : Inert s (outcome (s.handleFrame c frame)) := by
  have hincomplete : (s.openChannelAt c frame.channel).isSome = true → s.completed c frame = none := by
    intro hopen
    rw [← Option.not_isSome_iff_eq_none]
    exact fun hcomp => hacts ⟨rfl, hframe, .inl ⟨hserved, hopen, hcomp⟩⟩
  have hids : ∀ {ids : UInt16 × UInt16}, ¬Closing c s → methodIds frame = some ids →
      ids ∈ (class_id.CHANNEL, channel_method.CLOSE) :: acting → s.channel c num = none := by
    intro ids hc hm hmem
    rw [← Option.not_isSome_iff_eq_none]
    exact fun hsome => hacts ⟨rfl, hframe, .inr ⟨hserved, .inr ⟨hc, hsome, ids, hmem, hm⟩⟩⟩
  have hsend : ∀ (s₁ : AmqpServer) (classId methodId : UInt16) (args : Bytes),
      Inert s₁ (s₁.sendMethodFrame c frame.channel classId methodId args) := fun _ _ _ _ => .modifyConnection fun _ _ => rfl
  by_cases hmethod : frame.type = FRAME_METHOD
  · by_cases hc : Closing c s
    · rw [handleFrame, if_pos ⟨hc, hmethod⟩, handleClosing]
      split
      · exact .refl
      · rename_i classId methodId buf hread
        rw [if_neg]
        · exact .refl
        · rintro ⟨rfl, rfl⟩
          refine hacts ⟨rfl, hframe, .inr ⟨hserved, .inl ⟨hc, ?_⟩⟩⟩
          rw [methodIds, if_pos hmethod, hread]
    · rw [handleFrame, if_neg fun h => hc h.1, if_pos hmethod, handleMethodFrame]
      split
      · exact .refl
      · rename_i classId methodId buf hread
        have hm : methodIds frame = some (classId, methodId) := by rw [methodIds, if_pos hmethod, hread]
        refine outcome_ite_of (fun _ => ?connection) fun _ => outcome_ite_of ?opens fun _ => outcome_ite_of ?close fun _ =>
          outcome_ite_of ?closeOk fun _ => outcome_ite_of (fun _ => outcome_withArgs .refl fun _ => hsend ..) fun _ => ?method
        case connection =>
          rw [if_pos (by rw [hframe]; exact hnum)]
          exact .sendConnectionClose ..
        case opens =>
          rintro ⟨rfl, rfl⟩
          exact absurd ⟨rfl, hframe, hserved, .inr hm⟩ hanswered
        case close =>
          rintro ⟨rfl, rfl⟩
          have hnone := hids hc hm List.mem_cons_self
          refine outcome_withArgs .refl fun _ => ?_
          rw [cleanupChannel, hframe, hnone]
          exact hframe ▸ hsend ..
        case closeOk =>
          rintro ⟨rfl, rfl⟩
          exact absurd ⟨rfl, hframe, hserved, .inl hm⟩ hanswered
        case method =>
          rw [handleOnChannel]
          split
          · exact .sendConnectionClose ..
          · rename_i ch hopen
            refine inert_handleMethod (fun hmem => ?_) buf
            have hnone := hids hc hm (List.mem_cons_of_mem _ hmem)
            rw [openChannelAt, hframe, hnone] at hopen
            cases hopen
  · rw [handleFrame, if_neg fun h => hmethod h.2, if_neg hmethod]
    by_cases hheader : frame.type = FRAME_HEADER
    · rw [if_pos hheader]
      split
      · exact .refl
      · rename_i ch hopen
        rw [inert_handleContentHeader_iff hv]
        have hnone := hincomplete (by rw [hopen]; rfl)
        simpa only [completed, if_pos hheader] using hnone
    · rw [if_neg hheader]
      by_cases hbody : frame.type = FRAME_BODY
      · rw [if_pos hbody]
        split
        · exact .refl
        · rename_i ch hopen
          dsimp only [outcome]
          rw [inert_handleContentBody_iff hv]
          have hnone := hincomplete (by rw [hopen]; rfl)
          simpa only [completed, if_neg hheader, if_pos hbody] using hnone
      · rw [if_neg hbody]
        exact outcome_ite .refl (.sendConnectionClose ..)

theorem inert_handle (hv : Valid s) (hnum : num ≠ 0) {frame : Frame} {frameEnd : UInt8} (hframe : frame.channel = num)
    (hacts : ¬Acts c num s (.frame c frame frameEnd)) (hanswered : ¬CloseAnswered c num s (.frame c frame frameEnd)) :
    Inert s (s.handle (.frame c frame frameEnd)) := by
  rcases handle_frame_cases c s frame frameEnd with ⟨-, heq | ⟨text, heq⟩⟩ | ⟨hserved, hhandled⟩
  · rw [heq]
    exact .refl
  · rw [heq]
    exact .stopReading text
  · have hinert := inert_handleFrame hv hnum hframe hserved hacts hanswered
    rcases hhandled with hok | ⟨s', text, herror, heq⟩
    · rwa [hok] at hinert
    · rw [herror] at hinert
      rw [heq]
      exact hinert.trans (.stopReading text)

/-! ### Runs -/

theorem run_append (events events' : List Event) : s.run (events ++ events') = (s.run events).run events' :=
  List.foldl_append ..

/-- A connection is there until the process ends. --/
theorem exists_connection_run (hv : Valid s) {conn : Connection} (hconn : s.connection c = some conn) (events : List Event)
    (hrestart : .restart ∉ events) : ∃ conn', (s.run events).connection c = some conn' := by
  induction events generalizing s conn with
  | nil => exact ⟨conn, hconn⟩
  | cons e events ih =>
    rw [List.mem_cons, not_or] at hrestart
    have hx : s.session c = some conn.session := by rw [session, hconn, Option.map_some]
    obtain ⟨y, hy, -⟩ := advance_handle hv hx (Ne.symm hrestart.1)
    obtain ⟨conn', hconn', -⟩ := Option.map_eq_some_iff.mp hy
    exact ih (valid_handle hv e) hconn' hrestart.2

end AmqpServer
end Broko.Broker
