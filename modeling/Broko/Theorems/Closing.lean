import Broko.Broker.Client
import Broko.Theorems.Gate

/-! A connection that is closing. Methods are dropped until Close-Ok comes; content frames are not, and the last frame
    of a publish that was begun before still publishes it. -/

namespace Broko.Broker
open Amqp Storage MessageStore

namespace AmqpServer

variable {c : Nat} {num : UInt16} {s s' : AmqpServer}

/-! ### Inert steps -/

/-- The virtual host, its queues, the log and the unacked messages are as before, and no message was made. --/
structure Inert (s s' : AmqpServer) : Prop where
  exchanges : s'.exchanges = s.exchanges
  queues : s'.queues = s.queues
  store : s'.store = s.store
  heap : s'.heap = s.heap
  unacked : ∀ c num, (s'.channel c num).map Channel.unackedMessages = (s.channel c num).map Channel.unackedMessages

namespace Inert

theorem symm (h : Inert s s') : Inert s' s :=
  ⟨h.exchanges.symm, h.queues.symm, h.store.symm, h.heap.symm, fun c num => (h.unacked c num).symm⟩

theorem refl : Inert s s := ⟨rfl, rfl, rfl, rfl, fun _ _ => rfl⟩

theorem trans {s₁ : AmqpServer} (h₁ : Inert s s₁) (h₂ : Inert s₁ s') : Inert s s' :=
  ⟨h₂.exchanges.trans h₁.exchanges, h₂.queues.trans h₁.queues, h₂.store.trans h₁.store, h₂.heap.trans h₁.heap,
    fun c num => (h₂.unacked c num).trans (h₁.unacked c num)⟩

theorem modifyConnection {f : Connection → Connection} (hf : ∀ conn num,
    ((f conn).channels.lookup num).map Channel.unackedMessages = (conn.channels.lookup num).map Channel.unackedMessages) :
    Inert s (s.modifyConnection c f) := by
  refine ⟨rfl, rfl, rfl, rfl, fun c' num => ?_⟩
  rw [channel, channel, connection, AmqpServer.modifyConnection, Assoc.lookup_modify, connection]
  split
  · rename_i h
    rw [h]
    cases s.connections.lookup c with
    | none => rfl
    | some conn => exact hf conn num
  · rfl

theorem modifyChannel {f : Channel → Channel} (hf : ∀ ch, (f ch).unackedMessages = ch.unackedMessages) :
    Inert s (s.modifyChannel c num f) := by
  refine modifyConnection fun conn num' => ?_
  rw [Assoc.lookup_modify]
  split
  · rename_i h
    rw [h]
    cases conn.channels.lookup num with
    | none => rfl
    | some ch => exact congrArg some (hf ch)
  · rfl

theorem setPending (p : Option PendingPublish) : Inert s (s.setPending c num p) := modifyChannel fun _ => rfl

theorem sendChannelClose (replyCode : UInt16) (replyText : Bytes) (classId methodId : UInt16) :
    Inert s (s.sendChannelClose c num replyCode replyText classId methodId) :=
  modifyConnection fun _ _ => rfl

end Inert

/-! ### Content frames -/

/-- The frame is the last one of a publish. --/
def Completes (c : Nat) (s : AmqpServer) (frame : Frame) (frameEnd : UInt8) : Prop :=
  Served c s frame frameEnd ∧ (s.openChannelAt c frame.channel).isSome = true ∧ (s.completed c frame).isSome = true

theorem heap_sendFrames (l : List Frame) (s : AmqpServer) : (l.foldl (fun s f => s.sendFrame c f) s).heap = s.heap :=
  List.foldlRecOn (motive := fun s' : AmqpServer => s'.heap = s.heap) l _ rfl fun _ h _ _ => h

theorem heap_of_sendReturn (m : Message) : (s.sendReturn c num m).heap = s.heap := by
  rw [sendReturn, sendContentFrames]
  split
  · rfl
  · exact heap_sendFrames _ _

/-- A publish makes a message. --/
theorem heap_publish (hv : Valid s) {p : PendingPublish} (hp : p.Sound) : s.heap.size < (s.publish c num p).heap.size := by
  have hK : ∀ k ∈ publishKinds, k ∈ Kind.oversize :: publishKinds := fun k => List.mem_cons_of_mem _
  have hover : Kind.oversize ∈ Kind.oversize :: publishKinds := List.mem_cons_self
  have hw : (messageOf c p).properties.WellFormed := hp.properties
  have hnew : Valid (s.newMessage (messageOf c p)) := hv.newMessage hw
  have hconfirm : ∀ s₁ : AmqpServer, ((s₁.sendConfirm c num).setPending c num none).heap = s₁.heap := by
    intro s₁
    rw [setPending]
    change (s₁.sendConfirm c num).heap = s₁.heap
    rw [sendConfirm]
    split
    · rfl
    · split <;> rfl
  rw [publish, hconfirm]
  split
  · rw [heap_of_sendReturn]
    exact Nat.lt_succ_self _
  · generalize (s.newMessage (messageOf c p)).routeMessage (messageOf c p).exchange (messageOf c p).routing_key
      (messageOf c p).properties.headers = queues
    rcases queues with _ | ⟨qname, _ | ⟨qname', rest⟩⟩
    · exact Nat.lt_succ_self _
    · have hadm : Valid (s.admitted (messageOf c p) qname) :=
        ((does_admitted (c := c) hK hw (pristine_messageOf c p) (.inl hover)).moves hv).valid hv
      have hle := ((does_deliverToQueue (c := c) qname (by rw [heap_admitted]; exact Nat.lt_succ_self _)).moves hadm).heap_le
      rw [heap_admitted] at hle
      change _ < (publishTo false s.heap.size (s.newMessage (messageOf c p)) qname).heap.size
      rw [publishTo_one]
      exact hle
    · have hdoes := does_publishAll (c := c) hK hw (pristine_messageOf c p) (qname :: qname' :: rest) _ (.newMessage hv (messageOf c p))
        (.inl hover)
      exact (hdoes.moves hnew).heap_le

/-- A piece of a body is inert unless it is the last one. --/
theorem inert_handleContentBody_iff (hv : Valid s) (data : Bytes) :
    Inert s (s.handleContentBody c num data) ↔
      ((s.channel c num).bind Channel.pendingPublish).bind (completedBy · data) = none := by
  rw [handleContentBody]
  cases hp : (s.channel c num).bind Channel.pendingPublish with
  | none => exact iff_of_true .refl rfl
  | some p =>
    have hsound := hv.pending hp
    have hpiece : PendingPublish.Sound { p with body := p.body ++ data, bodyReceived := p.bodyReceived + data.length } :=
      ⟨hsound.exchange, hsound.routing_key, hsound.properties⟩
    rw [Option.bind_some, completedBy]
    dsimp only
    split
    · refine iff_of_false (fun h => ?_) (fun h => by cases h)
      have hset := ((@does_setPending c num _ _ hpiece).moves hv).valid hv
      have hlt := @heap_publish c num _ hset _ hpiece
      rw [h.heap] at hlt
      exact Nat.lt_irrefl _ hlt
    · exact iff_of_true (.setPending _) rfl

/-- A content header is inert unless there is no body to wait for. --/
theorem inert_handleContentHeader_iff (hv : Valid s) (buf : Buffer) :
    Inert s (outcome (s.handleContentHeader c num buf)) ↔
      ((s.channel c num).bind Channel.pendingPublish).bind (completedByHeader · buf) = none := by
  rw [handleContentHeader]
  cases hp : (s.channel c num).bind Channel.pendingPublish with
  | none => exact iff_of_true .refl rfl
  | some p =>
    have hsound := hv.pending hp
    rw [Option.bind_some, completedByHeader]
    dsimp only
    cases hread : readContentHeader buf with
    | error e => exact iff_of_true .refl rfl
    | ok r =>
      obtain ⟨bodySize, buf'⟩ := r
      dsimp only
      split
      · rename_i hbig
        refine iff_of_true ((Inert.setPending none).trans (.sendChannelClose ..)) ?_
        cases BasicProperties.decode buf' with
        | error e => rfl
        | ok r =>
          have hne : bodySize ≠ 0 := by
            rintro rfl
            exact Nat.not_lt_zero _ hbig
          exact if_neg hne
      · cases hdec : BasicProperties.decode buf' with
        | error e => exact iff_of_true (.setPending _) rfl
        | ok r =>
          obtain ⟨properties, buf''⟩ := r
          obtain ⟨-, -, -, hwell, -⟩ := BasicProperties.accepts_properties _ _ _ hdec
          have hheader : PendingPublish.Sound { p with bodySize, properties } :=
            ⟨hsound.exchange, hsound.routing_key, hwell⟩
          have hset : Inert s (s.setPending c num (some { p with bodySize, properties })) := .setPending _
          dsimp only [outcome]
          split
          · have hvalid := ((@does_setPending c num _ _ hheader).moves hv).valid hv
            have hbody := @inert_handleContentBody_iff c num _ hvalid []
            rw [pending_setPending hp, Option.bind_some] at hbody
            rw [← hbody]
            exact ⟨fun h => hset.symm.trans h, fun h => hset.trans h⟩
          · exact iff_of_true hset rfl

/-! ### The closing connection -/

/-- `Connection.Close` was sent, and nothing has moved the connection to `CLOSED` yet. --/
def Closing (c : Nat) (s : AmqpServer) : Prop := (s.connection c).map Connection.state = some .CLOSING

theorem Inert.sendConnectionClose (replyCode : UInt16) (replyText : Bytes) (classId methodId : UInt16) :
    Inert s (s.sendConnectionClose c replyCode replyText classId methodId) := by
  rw [AmqpServer.sendConnectionClose]
  split
  · exact .refl
  · split
    · exact .refl
    · refine @Inert.trans _ _ (s.modifyConnection c fun conn => { conn with state := .CLOSING }) ?_ ?_
      · exact modifyConnection fun _ _ => rfl
      · exact modifyConnection fun _ _ => rfl

theorem Inert.stopReading (replyText : Bytes) : Inert s (s.stopReading c replyText) := by
  refine Inert.trans (.sendConnectionClose (c := c) reply_code.FRAME_ERROR replyText 0 0) ?_
  exact modifyConnection fun _ _ => rfl

/-- A frame that gets to `handleFrame` of a connection that is closing. --/
theorem inert_handleFrame_iff (hv : Valid s) (hc : Closing c s) {frame : Frame}
    (hok : methodIds frame ≠ some (class_id.CONNECTION, connection_method.CLOSE_OK)) :
    Inert s (outcome (s.handleFrame c frame)) ↔
      ¬((s.openChannelAt c frame.channel).isSome = true ∧ (s.completed c frame).isSome = true) := by
  have hquiet : s.completed c frame = none →
      ¬((s.openChannelAt c frame.channel).isSome = true ∧ (s.completed c frame).isSome = true) := by
    rintro hnone ⟨-, h⟩
    rw [hnone] at h
    cases h
  have hclosed : s.openChannelAt c frame.channel = none →
      ¬((s.openChannelAt c frame.channel).isSome = true ∧ (s.completed c frame).isSome = true) := by
    rintro hnone ⟨h, -⟩
    rw [hnone] at h
    cases h
  by_cases hmethod : frame.type = FRAME_METHOD
  · have hnone : s.completed c frame = none := completed_of_ne (by rw [hmethod]; decide) (by rw [hmethod]; decide)
    refine iff_of_true ?_ (hquiet hnone)
    rw [handleFrame, if_pos ⟨hc, hmethod⟩, handleClosing]
    split
    · exact .refl
    · rename_i classId methodId buf hids
      rw [methodIds, if_pos hmethod, hids] at hok
      rw [if_neg]
      · exact .refl
      · rintro ⟨rfl, rfl⟩
        exact hok rfl
  · rw [handleFrame, if_neg fun h => hmethod h.2, if_neg hmethod]
    by_cases hheader : frame.type = FRAME_HEADER
    · rw [if_pos hheader]
      split
      · rename_i hopen
        exact iff_of_true .refl (hclosed hopen)
      · rename_i ch hopen
        rw [inert_handleContentHeader_iff hv, hopen, completed]
        simp [if_pos hheader]
    · rw [if_neg hheader]
      by_cases hbody : frame.type = FRAME_BODY
      · rw [if_pos hbody]
        split
        · rename_i hopen
          exact iff_of_true .refl (hclosed hopen)
        · rename_i ch hopen
          dsimp only [outcome]
          rw [inert_handleContentBody_iff hv, hopen, completed]
          simp [if_neg hheader, if_pos hbody]
      · rw [if_neg hbody]
        refine iff_of_true ?_ (hquiet (completed_of_ne hheader hbody))
        split
        · exact .refl
        · exact .sendConnectionClose ..

/-- A frame of a connection that is closing is inert unless it is the last one of a publish. --/
theorem inert_handle_iff (hv : Valid s) (hc : Closing c s) {frame : Frame} {frameEnd : UInt8}
    (hok : methodIds frame ≠ some (class_id.CONNECTION, connection_method.CLOSE_OK)) :
    Inert s (s.handle (.frame c frame frameEnd)) ↔ ¬Completes c s frame frameEnd := by
  rcases handle_frame_cases c s frame frameEnd with ⟨hserved, heq | ⟨text, heq⟩⟩ | ⟨hserved, hframe⟩
  · rw [heq]
    exact iff_of_true .refl fun h => hserved h.1
  · rw [heq]
    exact iff_of_true (.stopReading text) fun h => hserved h.1
  · rw [Completes, and_iff_right hserved, ← inert_handleFrame_iff hv hc hok]
    rcases hframe with hok | ⟨s', text, herror, heq⟩
    · rw [hok]
      exact Iff.rfl
    · rw [herror, heq]
      exact ⟨fun h => h.trans (Inert.stopReading _).symm, fun h => h.trans (.stopReading _)⟩

theorem not_closeOk_of_completes {frame : Frame} {frameEnd : UInt8} (h : Completes c s frame frameEnd) :
    methodIds frame ≠ some (class_id.CONNECTION, connection_method.CLOSE_OK) := by
  intro hids
  have htype : frame.type = FRAME_METHOD := by
    by_contra hne
    rw [methodIds, if_neg hne] at hids
    cases hids
  have hsome := h.2.2
  rw [completed_of_ne (by rw [htype]; decide) (by rw [htype]; decide)] at hsome
  cases hsome

/-! ### Runs -/

/-- In a run, what a closing connection receives before its Close-Ok is inert exactly if none of it is the last frame of
    a publish. --/
theorem closing_inert_iff {store : Option MessageStore} {userStore : UserStore} {clock : Nat → Int} {readings : Nat}
    {events : List Event} :
    (∀ before frame frameEnd after, events = before ++ .frame c frame frameEnd :: after →
      Closing c ((start store userStore clock readings).run before) →
      methodIds frame ≠ some (class_id.CONNECTION, connection_method.CLOSE_OK) →
      Inert ((start store userStore clock readings).run before)
        ((start store userStore clock readings).run (before ++ [.frame c frame frameEnd]))) ↔
    ∀ before frame frameEnd after, events = before ++ .frame c frame frameEnd :: after →
      Closing c ((start store userStore clock readings).run before) →
      ¬Completes c ((start store userStore clock readings).run before) frame frameEnd := by
  constructor
  · intro h before frame frameEnd after heq hc hcomp
    have hok := not_closeOk_of_completes hcomp
    have hinert := h before frame frameEnd after heq hc hok
    rw [run_concat] at hinert
    exact (inert_handle_iff (valid_run valid_start before) hc hok).mp hinert hcomp
  · intro h before frame frameEnd after heq hc hok
    rw [run_concat]
    exact (inert_handle_iff (valid_run valid_start before) hc hok).mpr (h before frame frameEnd after heq hc)

/-- A publish of three bytes of which the body is not there yet, and a method on a channel that is not open. --/
def closedInPublish : List Event :=
  Client.connect 1 ++ [Client.openChannel 1 1, Client.assertQueue 1 1 (ascii "q") false true false false []] ++
    (Client.sendToQueue 1 1 (ascii "q") (ascii "abc") {}).dropLast ++ [Client.purgeQueue 1 2 (ascii "q")]

/-- The body comes, and the message is put into the queue. --/
theorem closing_publishes :
    Closing 1 (freshServer.run closedInPublish) ∧
      ¬Inert (freshServer.run closedInPublish) (freshServer.run (closedInPublish ++
        [.frame 1 { type := FRAME_BODY, channel := 1, payload := ascii "abc" } FRAME_END])) := by
  refine ⟨by unfold Closing; decide +kernel, fun h => ?_⟩
  have hqueue := congrArg (fun m => (m.lookup (ascii "q")).map MessageQueue.messages) h.queues
  revert hqueue
  decide +kernel

end AmqpServer
end Broko.Broker
