import Broko.Theorems.Runs

/-! What a channel admits. The frames of a connection are bounded, so is what a channel has received of a publish,
    and so is every message that a publish makes. -/

namespace Broko.Broker
open Amqp Storage

/-- A publish that is not complete yet. --/
structure PendingPublish.Bounded (p : PendingPublish) : Prop where
  bodySize : p.bodySize.toNat ≤ MAX_BODY_SIZE
  received : p.bodyReceived = p.body.length
  body : p.body.length ≤ MAX_BODY_SIZE
  encoded : p.properties.encode.length ≤ HARD_FRAME_MAX

/-- A publish that a channel admits. The last body frame may go beyond the declared size. --/
structure PendingPublish.Admitted (p : PendingPublish) : Prop extends p.Sound where
  bodySize : p.bodySize.toNat ≤ MAX_BODY_SIZE
  body : p.body.length ≤ MAX_BODY_SIZE + HARD_FRAME_MAX
  encoded : p.properties.encode.length ≤ HARD_FRAME_MAX

namespace AmqpServer

/-- The bounds, with channels excepted whose publish is just being made. --/
structure Bounded (except : Nat → UInt16 → Prop) (s : AmqpServer) : Prop where
  connections : s.connections.All fun c conn => conn.frameMax.toNat ≤ HARD_FRAME_MAX ∧
    conn.channels.All fun num ch => except c num ∨ ∀ p, ch.pendingPublish = some p → p.Bounded

variable {c : Nat} {num : UInt16} {s s' : AmqpServer} {except : Nat → UInt16 → Prop}

namespace Bounded

theorem ofEq (h : Bounded except s) (hs : s'.connections = s.connections) : Bounded except s' := ⟨hs ▸ h.connections⟩

theorem modifyConnection (h : Bounded except s) {f : Connection → Connection}
    (hmax : ∀ conn, (f conn).frameMax.toNat ≤ conn.frameMax.toNat)
    (hch : ∀ conn, conn.channels.All (fun num ch => except c num ∨ ∀ p, ch.pendingPublish = some p → p.Bounded) →
      (f conn).channels.All fun num ch => except c num ∨ ∀ p, ch.pendingPublish = some p → p.Bounded) :
    Bounded except (s.modifyConnection c f) :=
  ⟨h.connections.modify fun conn _ hok => ⟨(hmax conn).trans hok.1, hch conn hok.2⟩⟩

theorem modifyChannel (h : Bounded except s) {f : Channel → Channel}
    (hf : ∀ ch, (f ch).pendingPublish = ch.pendingPublish) : Bounded except (s.modifyChannel c num f) := by
  refine h.modifyConnection (fun _ => le_rfl) fun conn hok => hok.modify fun ch _ hch => ?_
  rw [hf]
  exact hch

theorem openChannel (h : Bounded except s) (num : UInt16) : Bounded except (s.openChannel c num) := by
  have hnext : Bounded except { s with nextChannel := s.nextChannel + 1 } := h.ofEq rfl
  refine hnext.modifyConnection (fun _ => le_rfl) fun conn hok => hok.insert (.inr fun p hp => ?_)
  cases hp

/-- Only the moves of a publish change what a channel has received. --/
theorem move {k : Kind} (h : Bounded except s) (hk : k ≠ .pending) (hm : Move c k s s') : Bounded except s' := by
  cases hm with
  | handOver idx =>
    have hdeliver : ∀ (s : AmqpServer) k taken, Bounded except s → Bounded except (s.onDeliver k taken) := by
      intro s k taken hs
      rw [onDeliver]
      split
      · exact hs
      · have hnew : ∀ m, Bounded except (s.newDelivery taken m) := fun _ => hs.ofEq rfl
        exact (hnew _).modifyConnection (fun _ => le_rfl) fun _ hok => hok
    rw [handOver]
    refine hdeliver _ _ _ ?_
    split <;> exact h.ofEq rfl
  | purge name =>
    rw [purge]
    split
    · exact h
    · exact h.ofEq rfl
  | store m => exact h.ofEq ((connections_storeMessage ..).trans rfl)
  | oversize m => exact h.ofEq ((connections_storeMessage ..).trans rfl)
  | send out => exact h.modifyConnection (fun _ => le_rfl) fun _ hok => hok
  | note num f hf =>
    refine h.modifyChannel fun ch => ?_
    have hp : (f ch).frame.pendingPublish = ch.frame.pendingPublish := by rw [hf]
    exact hp
  | pending num p => exact absurd rfl hk
  | handshake f hf =>
    exact h.modifyConnection (fun conn => (hf conn).frameMax) fun conn hok => (hf conn).channels ▸ hok
  | hold num u =>
    have hheld : Bounded except (s.hold c num u) := h.modifyChannel fun _ => rfl
    exact hheld.modifyChannel fun _ => rfl
  | takeTag num => exact h.modifyChannel fun _ => rfl
  | releaseCredit u => exact h.ofEq (connections_releaseCredit u)
  | eraseUnacked num tag => exact h.modifyChannel fun _ => rfl
  | clearUnacked num => exact h.modifyChannel fun _ => rfl
  | settle u => exact h.ofEq (connections_persistAck u)
  | mapConsumer num => exact h.modifyChannel fun _ => rfl
  | removeConsumer name tag => exact h.ofEq (connections_removeConsumer name tag)
  | unmapConsumer num => exact h.modifyChannel fun _ => rfl
  | unmapConsumers num => exact h.modifyChannel fun _ => rfl
  | removeConsumersByConnection name => exact h.ofEq (connections_removeConsumersByConnection name c)
  | openChannel num => exact h.openChannel num
  | setClosed num => exact h.modifyChannel fun _ => rfl
  | dropChannel num => exact h.modifyConnection (fun _ => le_rfl) fun _ hok => hok.erase num
  | shut => exact h.modifyConnection (fun _ => le_rfl) fun _ hok => hok
  | dropChannels => exact h.modifyConnection (fun _ => le_rfl) fun _ _ => Assoc.All.empty
  | popTask => exact h.modifyConnection (fun _ => le_rfl) fun _ hok => hok
  | accept => exact ⟨h.connections.insert ⟨by decide, Assoc.All.empty⟩⟩
  | reorderChannels order => exact h.modifyConnection (fun _ => le_rfl) fun _ hok => hok.reorder order
  | reorderConsumers num order => exact h.modifyChannel fun _ => rfl
  | reorderUnacked num order => exact h.modifyChannel fun _ => rfl
  | _ => exact h.ofEq rfl

theorem does {K : List Kind} (h : Bounded except s) (hd : Does c K s s') (hv : Valid s) (hK : Kind.pending ∉ K) :
    Bounded except s' :=
  (hd.moves hv).keeps (fun _ hk _ _ hm hs => hs.move (fun heq => hK (heq ▸ hk)) hm) h

theorem setPending (h : Bounded (fun c' num' => c' = c ∧ num' = num) s) {p : Option PendingPublish}
    (hp : ∀ x, p = some x → x.Bounded) : Bounded (fun _ _ => False) (s.setPending c num p) := by
  refine ⟨h.connections.modify_of (fun c' conn hne hok => ⟨hok.1, ?_⟩) fun conn _ hok => ⟨hok.1, ?_⟩⟩
  · exact hok.2.mono fun num' ch hch => .inr (hch.resolve_left fun heq => hne heq.1)
  · refine hok.2.modify_of (fun num' ch hne hch => .inr (hch.resolve_left fun heq => hne heq.2)) fun ch _ _ => ?_
    exact .inr hp

theorem weaken (h : Bounded (fun _ _ => False) s) : Bounded except s :=
  ⟨h.connections.mono fun _ _ hok => ⟨hok.1, hok.2.mono fun _ _ hch => .inr (hch.resolve_left id)⟩⟩

theorem setPending_of_except (h : Bounded except s) (he : except c num) (p : Option PendingPublish) :
    Bounded except (s.setPending c num p) :=
  h.modifyConnection (fun _ => le_rfl) fun _ hok => hok.modify fun _ _ _ => .inl he

theorem pending (h : Bounded (fun _ _ => False) s) {p : PendingPublish}
    (hp : (s.channel c num).bind Channel.pendingPublish = some p) : p.Bounded := by
  obtain ⟨ch, hch, hp⟩ := Option.bind_eq_some_iff.mp hp
  obtain ⟨conn, hconn, hch⟩ := Option.bind_eq_some_iff.mp hch
  exact ((h.connections c conn hconn).2 num ch hch).resolve_left id p hp

end Bounded

/-! ### Content frames -/

theorem admitted_completedBy {p p' : PendingPublish} {data : Bytes} (hp : p.Bounded) (hsound : p.Sound)
    (hdata : data.length ≤ HARD_FRAME_MAX) (h : completedBy p data = some p') : p'.Admitted := by
  rw [completedBy] at h
  dsimp only at h
  split at h
  · obtain rfl := Option.some.inj h
    refine ⟨⟨hsound.exchange, hsound.routing_key, hsound.properties⟩, hp.bodySize, ?_, hp.encoded⟩
    have := hp.body
    rw [List.length_append]
    omega
  · cases h

theorem bounded_handleContentBody {data : Bytes} (h : Bounded (fun _ _ => False) s) (hv : Valid s) :
    Bounded (fun _ _ => False) (s.handleContentBody c num data) := by
  rw [handleContentBody]
  split
  · exact h
  · rename_i p hp
    have hbound := h.pending hp
    have hsound : ({ p with body := p.body ++ data, bodyReceived := p.bodyReceived + data.length } : PendingPublish).Sound :=
      ⟨(hv.pending hp).exchange, (hv.pending hp).routing_key, (hv.pending hp).properties⟩
    have hexcept : ∀ p', Bounded (fun c' num' => c' = c ∧ num' = num) (s.setPending c num p') :=
      fun p' => h.weaken.setPending_of_except ⟨rfl, rfl⟩ p'
    dsimp only
    split
    · -- The complete publish may be larger; it is gone at the end.
      obtain ⟨s₁, heq, hdoes⟩ := does_publish (c := c) (K := .oversize :: (publishKinds ++ [.confirm]))
        (s := s.setPending c num (some _)) num (fun k hk => List.mem_cons_of_mem _ hk) hsound (.inl List.mem_cons_self)
      rw [heq]
      have hset : Does c [.pending] s (s.setPending c num (some _)) := does_setPending hsound
      have hvalid := (hset.moves hv).valid hv
      exact ((hexcept _).does hdoes hvalid (by decide)).setPending fun x hx => (by cases hx)
    · rename_i hmore
      refine h.weaken.setPending fun x hx => ?_
      obtain rfl := Option.some.inj hx
      refine ⟨hbound.bodySize, ?_, ?_, hbound.encoded⟩
      · rw [List.length_append, hbound.received]
      · have hsize := hbound.bodySize
        have hrec := hbound.received
        rw [List.length_append]
        omega

/-- What a content header can say. --/
theorem encoded_of_header {buf buf' buf'' : Buffer} {bodySize : UInt64} {properties : BasicProperties}
    (hread : readContentHeader buf = .ok (bodySize, buf')) (hdec : BasicProperties.decode buf' = .ok (properties, buf'')) :
    properties.encode.length ≤ buf.unread.length := by
  have haccepts : Reader.Accepts readContentHeader fun _ _ => True :=
    accepts_uint16.bind fun _ _ _ => accepts_uint16.bind fun _ _ _ => accepts_uint64.mono fun _ _ _ => trivial
  obtain ⟨used, hused, -, -⟩ := haccepts _ _ _ hread
  obtain ⟨used', hused', -, -, hlen⟩ := BasicProperties.accepts_properties _ _ _ hdec
  rw [hused, hused', List.length_append, List.length_append]
  omega

theorem bounded_handleContentHeader {buf : Buffer} (h : Bounded (fun _ _ => False) s) (hv : Valid s)
    (hbuf : buf.unread.length ≤ HARD_FRAME_MAX) :
    Bounded (fun _ _ => False) (outcome (s.handleContentHeader c num buf)) := by
  rw [handleContentHeader]
  split
  · exact h
  · rename_i p hp
    have hbound := h.pending hp
    have hsound := hv.pending hp
    split
    · exact h
    · rename_i bodySize buf' hread
      dsimp only
      split
      · have hcleared : Bounded (fun _ _ => False) (s.setPending c num none) :=
          h.weaken.setPending fun x hx => (by cases hx)
        exact hcleared.does (does_sendChannelClose ..) ((does_clearPending.moves hv).valid hv) (by decide)
      · rename_i hsize
        rw [not_lt] at hsize
        split
        · refine h.weaken.setPending fun x hx => ?_
          obtain rfl := Option.some.inj hx
          exact ⟨hsize, hbound.received, hbound.body, hbound.encoded⟩
        · rename_i properties _ hdec
          obtain ⟨-, -, -, hwell, -⟩ := BasicProperties.accepts_properties _ _ _ hdec
          have hset : Bounded (fun _ _ => False) (s.setPending c num (some { p with bodySize, properties })) := by
            refine h.weaken.setPending fun x hx => ?_
            obtain rfl := Option.some.inj hx
            exact ⟨hsize, hbound.received, hbound.body, (encoded_of_header hread hdec).trans hbuf⟩
          have hpsound : ({ p with bodySize, properties } : PendingPublish).Sound :=
            ⟨hsound.exchange, hsound.routing_key, hwell⟩
          dsimp only [outcome]
          split
          · exact bounded_handleContentBody hset (((does_setPending hpsound).moves hv).valid hv)
          · exact hset

/-! ### Frames and events -/

theorem encoded_empty : (BasicProperties.encode {}).length ≤ HARD_FRAME_MAX := by decide

theorem bounded_handleBasicPublish (h : Bounded (fun _ _ => False) s) (hv : Valid s) (buf : Buffer) :
    Bounded (fun _ _ => False) (outcome (s.handleBasicPublish c num buf)) := by
  refine outcome_withArgs h ?_
  rintro ⟨exchange, routingKey, bits⟩
  dsimp only
  split
  · exact h.does (does_sendChannelClose ..) hv (by decide)
  · refine h.weaken.setPending fun x hx => ?_
    obtain rfl := Option.some.inj hx
    exact ⟨Nat.zero_le _, rfl, Nat.zero_le _, encoded_empty⟩

theorem bounded_handleMethod (h : Bounded (fun _ _ => False) s) (hv : Valid s) (classId methodId : UInt16) (buf : Buffer) :
    Bounded (fun _ _ => False) (outcome (s.handleMethod c num classId methodId buf)) := by
  refine Handlers.handleMethod (P := fun _ _ => Bounded (fun _ _ => False)) ?_ classId methodId buf
  constructor
  case exchangeDeclare => exact fun buf => h.does (does_handleExchangeDeclare buf) hv (by decide)
  case exchangeDelete => exact fun buf => h.does (does_handleExchangeDelete buf) hv (by decide)
  case queueDeclare => exact fun buf => h.does (does_handleQueueDeclare buf) hv (by decide)
  case queueBind => exact fun buf => h.does (does_handleQueueBind buf) hv (by decide)
  case queueUnbind => exact fun buf => h.does (does_handleQueueUnbind buf) hv (by decide)
  case queuePurge => exact fun buf => h.does (does_handleQueuePurge buf) hv (by decide)
  case queueDelete => exact fun buf => h.does (does_handleQueueDelete buf) hv (by decide)
  case basicQos => exact fun buf => h.does (does_handleBasicQos buf) hv (by decide)
  case basicConsume => exact fun buf => h.does (does_handleBasicConsume buf) hv (by decide)
  case basicCancel => exact fun buf => h.does (does_handleBasicCancel buf) hv (by decide)
  case basicPublish => exact fun buf => bounded_handleBasicPublish h hv buf
  case basicGet => exact fun buf => h.does (does_handleBasicGet buf) hv (by decide)
  case basicAck => exact fun buf => h.does (does_handleBasicAck buf) hv (by decide)
  case basicReject => exact fun buf => h.does (does_handleBasicReject buf) hv (by decide)
  case basicRecover => exact fun buf => h.does (does_handleBasicRecover buf) hv (by decide)
  case basicRecoverAsync => exact fun buf => h.does (does_handleBasicRecover buf) hv (by decide)
  case basicNack => exact fun buf => h.does (does_handleBasicNack buf) hv (by decide)
  case confirmSelect => exact fun buf => h.does (does_handleConfirmSelect buf) hv (by decide)
  case tx => exact fun _ okId => h.does (does_handleTx okId) hv (by decide)
  case notImplemented => exact fun classId methodId => h.does (does_sendChannelClose ..) hv (by decide)

theorem bounded_handleMethodFrame (h : Bounded (fun _ _ => False) s) (hv : Valid s) (buf : Buffer) :
    Bounded (fun _ _ => False) (outcome (s.handleMethodFrame c num buf)) := by
  rw [handleMethodFrame]
  split
  · exact h
  · refine outcome_ite (outcome_ite ?_ ?_) (outcome_ite ?_ (outcome_ite ?_ (outcome_ite ?_ (outcome_ite ?_ ?_))))
    · exact h.does (does_sendConnectionClose ..) hv (by decide)
    · exact h.does (does_handleConnectionMethod ..) hv (by decide)
    · exact h.does (does_handleChannelOpen _) hv (by decide)
    · exact h.does (does_handleChannelClose _) hv (by decide)
    · exact h.does does_cleanupChannel hv (by decide)
    · exact h.does (does_handleChannelFlow _) hv (by decide)
    · rw [handleOnChannel]
      split
      · exact h.does (does_sendConnectionClose ..) hv (by decide)
      · exact bounded_handleMethod h hv ..

theorem bounded_handleFrame {frame : Frame} (h : Bounded (fun _ _ => False) s) (hv : Valid s)
    (hlen : frame.payload.length ≤ HARD_FRAME_MAX) : Bounded (fun _ _ => False) (outcome (s.handleFrame c frame)) := by
  rw [handleFrame]
  refine outcome_ite (h.does (does_handleClosing _) hv (by decide)) (outcome_ite (bounded_handleMethodFrame h hv _)
    (outcome_ite ?header (outcome_ite ?body (outcome_ite h (h.does (does_sendConnectionClose ..) hv (by decide))))))
  case header =>
    split
    · exact h
    · exact bounded_handleContentHeader h hv hlen
  case body =>
    split
    · exact h
    · exact bounded_handleContentBody h hv

theorem Bounded.effectiveMax (h : Bounded (fun _ _ => False) s) {conn : Connection} (hc : s.connection c = some conn) :
    effectiveMax conn ≤ HARD_FRAME_MAX := by
  rw [Broker.effectiveMax]
  split
  · exact (h.connections c conn hc).1
  · exact le_rfl

theorem bounded_receiveFrame {conn : Connection} {frame : Frame} {frameEnd : UInt8} (h : Bounded (fun _ _ => False) s)
    (hv : Valid s) (hc : s.connection c = some conn) :
    Bounded (fun _ _ => False) (s.receiveFrame c conn frame frameEnd) := by
  have hmax := h.effectiveMax hc
  rw [receiveFrame]
  generalize effectiveMax conn = effectiveMax at hmax
  split
  · exact h.does (does_stopReading _) hv (by decide)
  · rename_i hlen
    split
    · exact h.does (does_stopReading _) hv (by decide)
    · have hframe := bounded_handleFrame (c := c) h hv ((not_lt.mp hlen).trans hmax)
      have hdoes : Does c (.oversize :: requestKinds) s (outcome (s.handleFrame c frame)) :=
        does_handleFrame (fun _ => List.mem_cons_of_mem _) (.inl List.mem_cons_self)
      have hvalid := (hdoes.moves hv).valid hv
      split
      · rename_i heq
        rwa [heq] at hframe
      · rename_i heq
        rw [heq] at hframe hvalid
        exact Bounded.does hframe (does_stopReading _) hvalid (by decide)

theorem bounded_start (store : Option MessageStore) (userStore : UserStore) (clock : Nat → Int) (readings : Nat) :
    Bounded (fun _ _ => False) (start store userStore clock readings) := by
  have hblank : ∀ store, Bounded (fun _ _ => False)
      { store, userStore, clock, readings, exchanges := defaultExchanges } := fun _ => ⟨Assoc.All.empty⟩
  cases store with
  | none => exact hblank none
  | some st =>
    have hrec := does_recoverFromStore (c := 0)
      (s := { store := some st, userStore, clock, readings, exchanges := defaultExchanges }) rfl
    exact (hblank (some st.recover.2)).does hrec valid_blank (by decide)

theorem bounded_handle (h : Bounded (fun _ _ => False) s) (hv : Valid s) (e : Event) :
    Bounded (fun _ _ => False) (s.handle e) := by
  cases e with
  | accept => exact h.does (c := 0) (.of .accept) hv (by decide)
  | protocolHeader c header =>
    rw [handle]
    split
    · exact h
    · rename_i hconn
      split
      · rename_i hheader
        exact h.does (does_receiveProtocolHeader hconn hheader.2 header) hv (by decide)
      · exact h
  | frame c frame frameEnd =>
    rw [handle]
    split
    · exact h
    · rename_i hc
      split
      · exact bounded_receiveFrame h hv hc
      · exact h
  | runTask c => exact h.does does_runTask hv (by decide)
  | disconnect c => exact h.does does_shutdown hv (by decide)
  | tick => exact h.does (c := 0) does_tick hv (by decide)
  | compact => exact h.does (c := 0) (.of .compact) hv (by decide)
  | restart => exact bounded_start ..
  | reorderQueues order => exact h.does (c := 0) (.of (.reorderQueues order)) hv (by decide)
  | reorderExchanges order => exact h.does (c := 0) (.of (.reorderExchanges order)) hv (by decide)
  | reorderChannels c order => exact h.does (.of (.reorderChannels order)) hv (by decide)
  | reorderConsumers c num order => exact h.does (.of (.reorderConsumers num order)) hv (by decide)
  | reorderUnacked c num order => exact h.does (.of (.reorderUnacked num order)) hv (by decide)

theorem bounded_run (h : Bounded (fun _ _ => False) s) (hv : Valid s) (events : List Event) :
    Bounded (fun _ _ => False) (s.run events) := by
  induction events generalizing s with
  | nil => exact h
  | cons e events ih => exact ih (bounded_handle h hv e) (valid_handle hv e)

/-- Whatever a client sends, a publish that a frame completes is within the bounds of a channel. --/
theorem admitted_of_completed {store : Option MessageStore} {userStore : UserStore} {clock : Nat → Int} {readings : Nat}
    {events : List Event} {frame : Frame} {frameEnd : UInt8} {p : PendingPublish}
    (hserved : Served c ((start store userStore clock readings).run events) frame frameEnd)
    (hp : ((start store userStore clock readings).run events).completed c frame = some p) : p.Admitted := by
  have hv : Valid ((start store userStore clock readings).run events) := valid_run valid_start events
  have hb := bounded_run (bounded_start store userStore clock readings) valid_start events
  generalize (start store userStore clock readings).run events = s at hserved hp hv hb
  obtain ⟨conn, hconn, -, -, hlen, -⟩ := hserved
  have hlen : frame.payload.length ≤ HARD_FRAME_MAX := hlen.trans (hb.effectiveMax hconn)
  rw [completed] at hp
  obtain ⟨q, hq, hp⟩ := Option.bind_eq_some_iff.mp hp
  have hbound := hb.pending hq
  have hsound := hv.pending hq
  split at hp
  · rw [completedByHeader] at hp
    split at hp
    · cases hp
    · rename_i bodySize buf' hread
      split at hp
      · cases hp
      · rename_i properties _ hdec
        split at hp
        · obtain ⟨-, -, -, hwell, -⟩ := BasicProperties.accepts_properties _ _ _ hdec
          have henc : properties.encode.length ≤ frame.payload.length := encoded_of_header hread hdec
          rename_i hzero
          have hsize : bodySize.toNat ≤ MAX_BODY_SIZE := by
            rw [hzero]
            exact Nat.zero_le _
          have hq' : ({ q with bodySize, properties } : PendingPublish).Bounded :=
            ⟨hsize, hbound.received, hbound.body, henc.trans hlen⟩
          exact admitted_completedBy hq' ⟨hsound.exchange, hsound.routing_key, hwell⟩ (Nat.zero_le _) hp
        · cases hp
  · split at hp
    · exact admitted_completedBy hbound hsound hlen hp
    · cases hp

end AmqpServer
end Broko.Broker
