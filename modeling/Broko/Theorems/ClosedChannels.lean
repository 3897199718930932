import Broko.Theorems.Bodies
import Broko.Theorems.ChannelClose
import Broko.Theorems.PrefetchRuns
import Broko.Theorems.Strands

/-! A closed channel over runs. When the broker closes a channel it leaves in place what the channel has: its consumers, the
    deliveries that are posted to it and the publish that is pending. The channel is inert from then on if there is none of
    these, and the client sends nothing that acts. -/

namespace Broko.Broker
open Amqp Storage MessageStore

namespace AmqpServer

variable {c c' : Nat} {num num' : UInt16} {s s' : AmqpServer}

/-! ### Detached channels -/

/-- The callback posts to the channel object that has the number. --/
def Reaches (c : Nat) (num : UInt16) (s : AmqpServer) (f : OnDeliver) : Prop :=
  f.connection = c ∧ f.channel_id = num ∧ s.refAt c num = some f.channel

instance (c : Nat) (num : UInt16) (s : AmqpServer) (f : OnDeliver) : Decidable (Reaches c num s f) :=
  inferInstanceAs (Decidable (_ ∧ _ ∧ _))

/-- No delivery is posted to the channel, and no consumer in a queue would post one. --/
structure Detached (c : Nat) (num : UInt16) (s : AmqpServer) : Prop where
  posted : ∀ conn, s.connection c = some conn → ∀ t ∈ conn.strand, t.channel_id = num → s.refAt c num ≠ some t.channel
  consumers : ∀ name q, s.queue name = some q → ∀ k ∈ q.consumers, ∀ f, (s.consumer k).on_deliver = some f → ¬Reaches c num s f

instance (c : Nat) (num : UInt16) (s : AmqpServer) : Decidable (Detached c num s) :=
  decidable_of_iff
    ((∀ conn ∈ (s.connection c).toList, ∀ t ∈ conn.strand, t.channel_id = num → s.refAt c num ≠ some t.channel) ∧
      ∀ x ∈ s.queues.entries, ∀ k ∈ x.2.consumers, ∀ f ∈ (s.consumer k).on_deliver.toList, ¬Reaches c num s f)
    ⟨fun h => ⟨fun conn hconn => h.1 conn (Option.mem_toList.mpr hconn),
        fun name q hq k hk f hf => h.2 (name, q) (Assoc.mem_entries.mpr hq) k hk f (Option.mem_toList.mpr hf)⟩,
      fun h => ⟨fun conn hconn => h.posted conn (Option.mem_toList.mp hconn),
        fun x hx k hk f hf => h.consumers x.1 x.2 (Assoc.mem_entries.mp hx) k hk f (Option.mem_toList.mp hf)⟩⟩

namespace Detached

theorem subsides (h : Detached c num s) (hs : Subsides c num s s') (hr : Remain s s') : Detached c num s' := by
  constructor
  · intro conn' hconn' t ht hnum href
    obtain ⟨conn, hconn, ht⟩ := hs.strand conn' hconn' t ht
    exact h.posted conn hconn t ht hnum (hs.refAt _ href)
  · intro name q' hq' k hk f hf hreach
    obtain ⟨⟨q, hq, hk⟩, heq⟩ := hr name q' hq' k hk
    exact h.consumers name q hq k hk f (heq ▸ hf) ⟨hreach.1, hreach.2.1, hs.refAt _ hreach.2.2⟩

theorem handOver (h : Detached c num s) {name : Bytes} {q : MessageQueue} (hq : s.queue name = some q) {k : Ref}
    (hk : k ∈ q.consumers) (head : Ref) (idx : Nat) : Detached c num (s.handOver name k head idx) := by
  have href : (s.handOver name k head idx).refAt c num = s.refAt c num := by
    rw [refAt, refAt, channel_of_own (own_handOver _ _ _ _)]
  constructor
  · intro conn' hconn' t ht hnum hreach
    rw [href] at hreach
    obtain ⟨conn, hconn, ht⟩ | hposts := strand_handOver hconn' ht
    · exact h.posted conn hconn t ht hnum hreach
    · obtain ⟨f, hf, hc, hid, hch⟩ := hposts.callback
      exact h.consumers name q hq k hk f hf ⟨hc, hid.symm.trans hnum, hch ▸ hreach⟩
  · intro name' q' hq' k' hk' f hf hreach
    obtain ⟨⟨q, hq, hk⟩, heq⟩ := (Remain.of_skeleton (skeleton_handOver ..)) name' q' hq' k' hk'
    exact h.consumers name' q hq k' hk f (heq ▸ hf) ⟨hreach.1, hreach.2.1, href ▸ hreach.2.2⟩

/-- Every move but the registration of a consumer and the opening of a channel. --/
theorem move {k : Kind} (h : Detached c num s) (hs : Placed s) (hm : Move c' k s s') (hk : k ∉ [Kind.register, .openChannel]) :
    Detached c num s' := by
  have hregister : k ≠ .register := fun heq => hk (heq ▸ List.mem_cons_self)
  have hopen : k ≠ .openChannel := fun heq => hk (heq ▸ List.mem_cons_of_mem _ List.mem_cons_self)
  have hcases : _ ∨ Subsides c num s s' := Subsides.move hm hopen
  rcases hcases with ⟨name, k', head, idx, q, hq, hk', -, rfl⟩ | hsub
  · exact h.handOver hq hk' head idx
  · exact h.subsides hsub (Remain.move hs hm hregister)

theorem openChannel (h : Detached c num s) (hne : ¬(c' = c ∧ num' = num)) : Detached c num (s.openChannel c' num') :=
  h.subsides (.openChannel hne) (.congr rfl rfl)

/-- A consumer of another channel is made. --/
theorem register (h : Detached c num s) (hv : Valid s) (k : Consumer) (counter : Nat) :
    Detached c num (s.register c' num' k counter) := by
  have hnew : Detached c num { s with consumerHeap := s.consumerHeap.alloc k } := by
    refine ⟨h.posted, fun name q hq k' hk' f hf => h.consumers name q hq k' hk' f ?_⟩
    rwa [consumer, Heap.cell_alloc_of_ne (Nat.ne_of_lt ((hv.queue hq).consumers k' hk'))] at hf
  exact hnew.subsides (.modifyChannel c' num' fun _ => rfl) (.congr rfl rfl)

/-- A queue gets a consumer of another channel. --/
theorem attach (h : Detached c num s) {k : Ref} (hk : ∀ f, (s.consumer k).on_deliver = some f → ¬Reaches c num s f) (name : Bytes) :
    Detached c num (s.attach name k) := by
  refine ⟨h.posted, fun name' q' hq' k' hk' f hf => ?_⟩
  rw [queue, AmqpServer.attach, modifyQueue, Assoc.lookup_modify] at hq'
  split at hq'
  · rename_i heq
    obtain ⟨q, hq, rfl⟩ := Option.map_eq_some_iff.mp hq'
    rcases List.mem_append.mp hk' with hk' | hk'
    · exact h.consumers name q hq k' hk' f hf
    · obtain rfl := List.mem_singleton.mp hk'
      exact hk f hf
  · exact h.consumers name' q' hq' k' hk' f hf

end Detached

/-! ### What keeps a channel detached -/

/-- A detached channel of a state that can be reached. --/
structure Muted (c : Nat) (num : UInt16) (s : AmqpServer) : Prop where
  valid : Valid s
  registered : Registered s
  detached : Detached c num s

namespace Muted

theorem does {K : List Kind} (h : Muted c num s) (hd : Does c' K s s') (hK : ∀ k ∈ K, k ∉ [Kind.register, .openChannel]) :
    Muted c num s' :=
  (hd.moves h.valid).keeps (fun k hk _ _ hm h =>
    ⟨h.valid.move hm, h.registered.move hm, h.detached.move h.registered.isPlaced hm (hK k hk)⟩) h

theorem openChannel (h : Muted c num s) (hne : ¬(c' = c ∧ num' = num)) (hnum : num' ≠ 0) :
    Muted c num (s.openChannel c' num') :=
  ⟨h.valid.move (.openChannel num' hnum), h.registered.move (.openChannel num' hnum), h.detached.openChannel hne⟩

theorem consume (h : Muted c num s) (hne : ¬(c' = c ∧ num' = num)) (ch : Channel) (queue tag : Bytes) (bits : UInt8) :
    Muted c num (s.consume c' num' ch queue tag bits) := by
  rw [consume_eq]
  generalize (if tag = [] then ch.consumerTagCounter + 1 else ch.consumerTagCounter) = counter
  generalize consumerTag c' num' ch tag = tag'
  have hcell : (s.consumerHeap.alloc (newConsumer c' num' ch queue tag' bits)).cell s.consumerHeap.size =
      newConsumer c' num' ch queue tag' bits := Heap.cell_alloc_self ..
  have hregistered : Muted c num (s.register c' num' (newConsumer c' num' ch queue tag' bits) counter) := by
    have hmade : Registered { s with consumerHeap := s.consumerHeap.alloc (newConsumer c' num' ch queue tag' bits) } :=
      h.registered.move (c := c') (.newConsumer _ rfl)
    refine ⟨valid_register h.valid counter, hmade.move (c := c') (.mapConsumer num' tag' s.consumerHeap.size counter
      (Nat.lt_succ_self _) ?_), h.detached.register h.valid _ counter⟩
    rw [consumer, hcell]
    exact ⟨rfl, rfl, rfl⟩
  have hadd : ∀ s₁ : AmqpServer, Muted c num s₁ → s₁.queues = s.queues →
      s₁.consumerHeap = s.consumerHeap.alloc (newConsumer c' num' ch queue tag' bits) →
      Muted c num (s₁.addConsumer queue s.consumerHeap.size) := by
    intro s₁ h₁ hqueues hheap
    have hmove : Move c' .register s₁ (s₁.attach queue s.consumerHeap.size) := by
      refine .addConsumer queue s.consumerHeap.size ?_ ?_ ?_ ?_
      · rw [hheap]
        exact Nat.lt_succ_self _
      · rw [consumer, hheap, hcell]
        rfl
      · rw [consumer, hheap, hcell]
        rfl
      · intro name' q hq hmem
        rw [AmqpServer.queue, hqueues] at hq
        exact Nat.lt_irrefl _ ((h.valid.queue hq).consumers _ hmem)
    have hattached : Muted c num (s₁.attach queue s.consumerHeap.size) := by
      refine ⟨h₁.valid.move hmove, h₁.registered.move hmove, h₁.detached.attach (fun f hf hreach => hne ?_) queue⟩
      rw [consumer, hheap, hcell] at hf
      obtain rfl := Option.some.inj hf
      exact ⟨hreach.1, hreach.2.1⟩
    exact hattached.does (does_dispatchLocked (c := c') queue) (by decide)
  split
  · exact hadd _ hregistered rfl rfl
  · exact hadd _ (hregistered.does (does_sendMethodFrame (k := .output) _ _ _ rfl) (by decide)) rfl rfl

theorem handleBasicConsume (h : Muted c num s) (hne : ¬(c' = c ∧ num' = num)) (buf : Buffer) :
    Muted c num (outcome (s.handleBasicConsume c' num' buf)) := by
  refine outcome_withArgs h fun args => ?_
  obtain ⟨queue, tag, bits⟩ := args
  dsimp only
  split
  · exact h.does (does_sendChannelClose ..) (by decide)
  · exact h
  · exact h.consume hne ..

/-- A method, unless it is a `basic.consume` on the channel. --/
theorem handleMethod (h : Muted c num s) {classId methodId : UInt16}
    (hne : c' = c ∧ num' = num → (classId, methodId) ≠ (class_id.BASIC, basic_method.CONSUME)) (buf : Buffer) :
    Muted c num (outcome (s.handleMethod c' num' classId methodId buf)) := by
  have hdoes : ∀ {K : List Kind} {s' : AmqpServer} {P : Prop}, Does c' K s s' →
      (∀ k ∈ K, k ∉ [Kind.register, .openChannel]) → P ∨ Muted c num s' := fun hd hK => .inr (h.does hd hK)
  have hall : Handlers (fun classId methodId s' =>
      ((c' = c ∧ num' = num) ∧ (classId, methodId) = (class_id.BASIC, basic_method.CONSUME)) ∨ Muted c num s') c' num' s := by
    constructor
    case basicConsume =>
      intro buf
      by_cases hsame : c' = c ∧ num' = num
      · exact .inl ⟨hsame, rfl⟩
      · exact .inr (h.handleBasicConsume hsame buf)
    case exchangeDeclare => exact fun buf => hdoes (does_handleExchangeDeclare buf) (by decide)
    case exchangeDelete => exact fun buf => hdoes (does_handleExchangeDelete buf) (by decide)
    case queueDeclare => exact fun buf => hdoes (does_handleQueueDeclare buf) (by decide)
    case queueBind => exact fun buf => hdoes (does_handleQueueBind buf) (by decide)
    case queueUnbind => exact fun buf => hdoes (does_handleQueueUnbind buf) (by decide)
    case queuePurge => exact fun buf => hdoes (does_handleQueuePurge buf) (by decide)
    case queueDelete => exact fun buf => hdoes (does_handleQueueDelete buf) (by decide)
    case basicQos => exact fun buf => hdoes (does_handleBasicQos buf) (by decide)
    case basicCancel => exact fun buf => hdoes (does_handleBasicCancel buf) (by decide)
    case basicPublish => exact fun buf => hdoes (does_handleBasicPublish buf) (by decide)
    case basicGet => exact fun buf => hdoes (does_handleBasicGet buf) (by decide)
    case basicAck => exact fun buf => hdoes (does_handleBasicAck buf) (by decide)
    case basicReject => exact fun buf => hdoes (does_handleBasicReject buf) (by decide)
    case basicRecover => exact fun buf => hdoes (does_handleBasicRecover buf) (by decide)
    case basicRecoverAsync => exact fun buf => hdoes (does_handleBasicRecover buf) (by decide)
    case basicNack => exact fun buf => hdoes (does_handleBasicNack buf) (by decide)
    case confirmSelect => exact fun buf => hdoes (does_handleConfirmSelect buf) (by decide)
    case tx => exact fun _ okId => hdoes (does_handleTx okId) (by decide)
    case notImplemented => exact fun _ _ => hdoes (does_sendChannelClose ..) (by decide)
  exact (hall.handleMethod classId methodId buf).resolve_left fun hboth => hne hboth.1 hboth.2

theorem handleChannelOpen (h : Muted c num s) (hne : ¬(c' = c ∧ num' = num)) (buf : Buffer) :
    Muted c num (outcome (s.handleChannelOpen c' num' buf)) := by
  refine outcome_withArgs h fun _ => ?_
  split
  · exact h
  · split
    · exact h.does (does_sendConnectionClose ..) (by decide)
    · rename_i hnum
      exact (h.openChannel hne (not_or.mp hnum).1).does (does_sendMethodFrame (k := .output) _ _ _ rfl) (by decide)

/-- A method frame, unless it consumes on the channel or opens it. --/
theorem handleMethodFrame (h : Muted c num s) {buf : Buffer}
    (hne : c' = c ∧ num' = num → ∀ rest, readMethodIds buf ≠ .ok ((class_id.BASIC, basic_method.CONSUME), rest) ∧
      readMethodIds buf ≠ .ok ((class_id.CHANNEL, channel_method.OPEN), rest)) :
    Muted c num (outcome (s.handleMethodFrame c' num' buf)) := by
  rw [AmqpServer.handleMethodFrame]
  split
  · exact h
  · rename_i classId methodId rest hids
    refine outcome_ite (outcome_ite ?_ ?_) (outcome_ite_of ?_ fun _ => outcome_ite ?_ (outcome_ite ?_ (outcome_ite ?_ ?_)))
    · exact h.does (does_sendConnectionClose ..) (by decide)
    · exact h.does (does_handleConnectionMethod ..) (by decide)
    · rintro ⟨rfl, rfl⟩
      exact h.handleChannelOpen (fun hsame => (hne hsame rest).2 hids) _
    · exact h.does (does_handleChannelClose _) (by decide)
    · exact h.does does_cleanupChannel (by decide)
    · exact h.does (does_handleChannelFlow _) (by decide)
    · rw [handleOnChannel]
      split
      · exact h.does (does_sendConnectionClose ..) (by decide)
      · exact h.handleMethod (fun hsame hids' => (hne hsame rest).1 (hids' ▸ hids)) rest

/-- A frame that is served, unless it is such a method. --/
theorem handleFrame (h : Muted c num s) {frame : Frame}
    (hne : c' = c ∧ frame.channel = num → ¬Closing c' s →
      methodIds frame ≠ some (class_id.BASIC, basic_method.CONSUME) ∧
        methodIds frame ≠ some (class_id.CHANNEL, channel_method.OPEN)) :
    Muted c num (outcome (s.handleFrame c' frame)) := by
  by_cases hmethod : frame.type = FRAME_METHOD
  · by_cases hclosing : Closing c' s
    · rw [AmqpServer.handleFrame, if_pos ⟨hclosing, hmethod⟩]
      exact h.does (does_handleClosing _) (by decide)
    · rw [AmqpServer.handleFrame, if_neg fun hall => hclosing hall.1, if_pos hmethod]
      refine h.handleMethodFrame fun hsame rest => ?_
      have hids : ∀ {ids : UInt16 × UInt16}, readMethodIds (Buffer.ofBytes frame.payload) = .ok (ids, rest) →
          methodIds frame = some ids := fun hread => by rw [methodIds, if_pos hmethod, hread]
      exact ⟨fun hread => (hne hsame hclosing).1 (hids hread), fun hread => (hne hsame hclosing).2 (hids hread)⟩
  · have hcontent : ∀ k ∈ contentKinds, k ∈ Kind.oversize :: contentKinds := fun _ => List.mem_cons_of_mem _
    rw [AmqpServer.handleFrame, if_neg fun hall => hmethod hall.2, if_neg hmethod]
    refine outcome_ite ?_ (outcome_ite ?_ (outcome_ite h (h.does (does_sendConnectionClose ..) (by decide))))
    · split
      · exact h
      · exact h.does (does_handleContentHeader hcontent (.inl List.mem_cons_self)) (by decide)
    · split
      · exact h
      · exact h.does (does_handleContentBody hcontent (.inl List.mem_cons_self)) (by decide)

/-- An event of the process, unless the client consumes on the channel or opens it. --/
theorem handle (h : Muted c num s) {e : Event} (he : e ≠ .restart)
    (hne : ∀ frame frameEnd, e = .frame c frame frameEnd → frame.channel = num → Served c s frame frameEnd → ¬Closing c s →
      methodIds frame ≠ some (class_id.BASIC, basic_method.CONSUME) ∧
        methodIds frame ≠ some (class_id.CHANNEL, channel_method.OPEN)) : Muted c num (s.handle e) := by
  cases e with
  | accept => exact h.does (Does.of (c := 0) .accept) (by decide)
  | protocolHeader c' header =>
    rw [AmqpServer.handle]
    split
    · exact h
    · rename_i hconn
      split
      · rename_i hheader
        exact h.does (does_receiveProtocolHeader hconn hheader.2 header) (by decide)
      · exact h
  | frame c' frame frameEnd =>
    have hframe : Served c' s frame frameEnd → Muted c num (outcome (s.handleFrame c' frame)) := by
      refine fun hserved => h.handleFrame fun hsame hclosing => ?_
      obtain ⟨rfl, hnum⟩ := hsame
      exact hne frame frameEnd rfl hnum hserved hclosing
    rcases handle_frame_cases c' s frame frameEnd with ⟨-, heq | ⟨text, heq⟩⟩ | ⟨hserved, hok | ⟨s', text, herror, heq⟩⟩
    · rwa [heq]
    · rw [heq]
      exact h.does (does_stopReading _) (by decide)
    · have hafter := hframe hserved
      rwa [hok] at hafter
    · have hafter := hframe hserved
      rw [herror] at hafter
      rw [heq]
      exact hafter.does (does_stopReading (c := c') _) (by decide)
  | runTask c' => exact h.does does_runTask (by decide)
  | disconnect c' => exact h.does does_shutdown (by decide)
  | tick => exact h.does (does_tick (c := 0)) (by decide)
  | compact => exact h.does (Does.of (c := 0) .compact) (by decide)
  | restart => exact absurd rfl he
  | reorderQueues order => exact h.does (Does.of (c := 0) (.reorderQueues order)) (by decide)
  | reorderExchanges order => exact h.does (Does.of (c := 0) (.reorderExchanges order)) (by decide)
  | reorderChannels c' order => exact h.does (.of (.reorderChannels order)) (by decide)
  | reorderConsumers c' num' order => exact h.does (.of (.reorderConsumers num' order)) (by decide)
  | reorderUnacked c' num' order => exact h.does (.of (.reorderUnacked num' order)) (by decide)

end Muted

/-! ### What the client sends -/

instance (c : Nat) (s : AmqpServer) : Decidable (Closing c s) :=
  inferInstanceAs (Decidable ((s.connection c).map Connection.state = some .CLOSING))

/-- The methods that can change something: those that act and the client's own Channel.Close, and on a connection that is
    closing its Close-Ok. --/
def provoking (c : Nat) (s : AmqpServer) : List (UInt16 × UInt16) :=
  if Closing c s then [(class_id.CONNECTION, connection_method.CLOSE_OK)]
  else (class_id.CHANNEL, channel_method.CLOSE) :: acting

/-- A frame on the channel can change something. A content frame can, once a publish is `begun`. --/
def Provokes (c : Nat) (num : UInt16) (begun : Bool) (s : AmqpServer) : Event → Prop
  | .frame c' frame frameEnd =>
    c' = c ∧ frame.channel = num ∧ Served c s frame frameEnd ∧
      (begun = true ∧ (frame.type = FRAME_HEADER ∨ frame.type = FRAME_BODY) ∨
        (methodIds frame).any (provoking c s).contains = true)
  | _ => False

instance (c : Nat) (num : UInt16) (begun : Bool) (s : AmqpServer) : DecidablePred (Provokes c num begun s)
  | .frame c' frame frameEnd =>
    inferInstanceAs (Decidable (c' = c ∧ frame.channel = num ∧ Served c s frame frameEnd ∧
      (begun = true ∧ (frame.type = FRAME_HEADER ∨ frame.type = FRAME_BODY) ∨
        (methodIds frame).any (provoking c s).contains = true)))
  | .accept | .protocolHeader .. | .runTask _ | .disconnect _ | .tick | .compact | .restart | .reorderQueues _
  | .reorderExchanges _ | .reorderChannels .. | .reorderConsumers .. | .reorderUnacked .. => inferInstanceAs (Decidable False)

/-- Nothing that the client sends on the channel can change anything, from a state on in which a publish is `begun` or not.
    A `basic.publish` begins one. --/
def Tame (c : Nat) (num : UInt16) : Bool → AmqpServer → List Event → Prop
  | _, _, [] => True
  | begun, s, e :: events =>
    ¬Provokes c num begun s e ∧ Tame c num (begun || decide (receives c num s e = some .publish)) (s.handle e) events

instance decidableTame : ∀ begun s events, Decidable (Tame c num begun s events)
  | _, _, [] => inferInstanceAs (Decidable True)
  | begun, s, e :: events =>
    have := decidableTame (begun || decide (receives c num s e = some .publish)) (s.handle e) events
    inferInstanceAs (Decidable (¬Provokes c num begun s e ∧
      Tame c num (begun || decide (receives c num s e = some .publish)) (s.handle e) events))

/-- Then nothing acts on the channel. --/
theorem Detached.not_acts (h : Detached c num s) {begun : Bool}
    (hpending : begun = false → (s.channel c num).bind Channel.pendingPublish = none) {e : Event}
    (htame : ¬Provokes c num begun s e) : ¬Acts c num s e := by
  cases e with
  | frame c' frame frameEnd =>
    rintro ⟨rfl, rfl, ⟨hserved, -, hcomp⟩ | ⟨hserved, hids⟩⟩
    · have hcontent : frame.type = FRAME_HEADER ∨ frame.type = FRAME_BODY := by
        by_contra hne
        rw [not_or] at hne
        rw [completed_of_ne hne.1 hne.2] at hcomp
        cases hcomp
      cases begun with
      | true => exact htame ⟨rfl, rfl, hserved, .inl ⟨rfl, hcontent⟩⟩
      | false =>
        rw [completed, hpending rfl] at hcomp
        cases hcomp
    · refine htame ⟨rfl, rfl, hserved, .inr ?_⟩
      rcases hids with ⟨hclosing, hm⟩ | ⟨hclosing, -, ids, hmem, hm⟩
      · rw [provoking, if_pos hclosing, hm]
        rfl
      · rw [provoking, if_neg hclosing, hm]
        exact List.contains_iff_mem.mpr hmem
  | runTask c' =>
    rintro ⟨rfl, t, rest, hstrand, hnum, hlock⟩
    obtain ⟨conn, hconn, hs⟩ := Option.map_eq_some_iff.mp hstrand
    obtain ⟨ch, hch⟩ := Option.isSome_iff_exists.mp hlock
    obtain ⟨hch, href⟩ := Option.filter_eq_some_iff.mp (Option.filter_eq_some_iff.mp hch).1
    refine h.posted conn hconn t (hs ▸ List.mem_cons_self) hnum ?_
    rw [refAt, ← hnum, hch, Option.map_some, of_decide_eq_true href]
  | _ => exact id

/-- Content frames are dropped while no publish is pending. --/
theorem handleFrame_of_none {frame : Frame} (hnone : (s.channel c frame.channel).bind Channel.pendingPublish = none)
    (hcontent : frame.type = FRAME_HEADER ∨ frame.type = FRAME_BODY) : s.handleFrame c frame = .ok s := by
  have hmethod : frame.type ≠ FRAME_METHOD := by
    rcases hcontent with h | h <;> rw [h] <;> decide
  rw [handleFrame, if_neg fun h => hmethod h.2, if_neg hmethod]
  by_cases hheader : frame.type = FRAME_HEADER
  · rw [if_pos hheader]
    split
    · rfl
    · rw [handleContentHeader, hnone]
  · rw [if_neg hheader, if_pos (hcontent.resolve_left hheader)]
    split
    · rfl
    · rw [handleContentBody, hnone]

/-- No publish is pending until one is begun. --/
theorem pending_handle (hv : Valid s) (hnone : (s.channel c num).bind Channel.pendingPublish = none) {e : Event}
    (he : e ≠ .restart) (hpub : receives c num s e ≠ some .publish) :
    ((s.handle e).channel c num).bind Channel.pendingPublish = none := by
  cases hpart : receives c num s e with
  | none =>
    refine Option.eq_none_iff_forall_ne_some.mpr fun p hp => ?_
    rw [keepsPending_handle hv he hpart p hp] at hnone
    cases hnone
  | some part =>
    cases e with
    | frame c' frame frameEnd =>
      rw [receives] at hpart hpub
      split at hpart
      case isFalse => cases hpart
      rename_i hall
      rw [if_pos hall, hpart] at hpub
      obtain ⟨rfl, rfl, hserved, -⟩ := hall
      have hcontent : frame.type = FRAME_HEADER ∨ frame.type = FRAME_BODY := by
        by_contra hne
        rw [not_or] at hne
        rw [partOf] at hpart
        grind
      rcases handle_frame_cases c' s frame frameEnd with ⟨hnot, -⟩ | ⟨-, hok | ⟨s', text, herror, -⟩⟩
      · exact absurd hserved hnot
      · rw [handleFrame_of_none hnone hcontent] at hok
        injection hok with hsame
        rwa [← hsame]
      · rw [handleFrame_of_none hnone hcontent] at herror
        cases herror
    | _ => cases hpart
/-! ### Runs -/

instance (c : Nat) (num : UInt16) (s : AmqpServer) : DecidablePred (CloseAnswered c num s)
  | .frame c' frame frameEnd =>
    inferInstanceAs (Decidable (c' = c ∧ frame.channel = num ∧ Served c s frame frameEnd ∧
      (methodIds frame = some (class_id.CHANNEL, channel_method.CLOSE_OK) ∨
        methodIds frame = some (class_id.CHANNEL, channel_method.OPEN))))
  | .accept | .protocolHeader .. | .runTask _ | .disconnect _ | .tick | .compact | .restart | .reorderQueues _
  | .reorderExchanges _ | .reorderChannels .. | .reorderConsumers .. | .reorderUnacked .. => inferInstanceAs (Decidable False)

/-- The process runs on, and nothing that answers a Channel.Close on the channel is received. --/
def Unanswered (c : Nat) (num : UInt16) : AmqpServer → List Event → Prop
  | _, [] => True
  | s, e :: events => e ≠ .restart ∧ ¬CloseAnswered c num s e ∧ Unanswered c num (s.handle e) events

/-- The broker sends Channel.Close on the channel. --/
def BrokerCloses (c : Nat) (num : UInt16) (s : AmqpServer) (e : Event) : Prop :=
  e ≠ .restart ∧ (s.channel c num).isSome = true ∧
    methodsSent c num (class_id.CHANNEL, channel_method.CLOSE) (s.handle e) ≠
      methodsSent c num (class_id.CHANNEL, channel_method.CLOSE) s

/-- The frame changes nothing that the virtual host, its queues, the log or a channel's unacked messages hold, and no event
    sends a delivery on the channel. --/
def StaysInert (c : Nat) (num : UInt16) (s : AmqpServer) (e : Event) : Prop :=
  (∀ frame frameEnd, e = .frame c frame frameEnd → frame.channel = num → Inert s (s.handle e)) ∧
    deliveriesSent c num (s.handle e) = deliveriesSent c num s

/-- From a detached channel on, as long as the client provokes nothing. --/
theorem Muted.run (h : Muted c num s) (hnum : num ≠ 0) (hconn : (s.connection c).isSome = true) {begun : Bool}
    (hpending : begun = false → (s.channel c num).bind Channel.pendingPublish = none) {events : List Event}
    (hopen : Unanswered c num s events) (htame : Tame c num begun s events) {a b : List Event} {x : Event}
    (heq : events = a ++ x :: b) : StaysInert c num (s.run a) x := by
  induction a generalizing s begun events with
  | nil =>
    subst heq
    obtain ⟨hrestart, hanswered, -⟩ := hopen
    have hacts := h.detached.not_acts hpending htame.1
    obtain ⟨conn, hconn⟩ := Option.isSome_iff_exists.mp hconn
    constructor
    · rintro frame frameEnd rfl hframe
      exact inert_handle h.valid hnum hframe hacts hanswered
    · refine deliveriesSent_handle h.valid hconn hrestart ?_
      rintro rfl hdelivers
      exact hacts ⟨rfl, hdelivers⟩
  | cons e a ih =>
    subst heq
    obtain ⟨hrestart, hanswered, hopen⟩ := hopen
    obtain ⟨hnot, htame⟩ := htame
    obtain ⟨conn, hconn⟩ := Option.isSome_iff_exists.mp hconn
    obtain ⟨conn', hconn'⟩ := exists_connection_run h.valid hconn [e] fun hmem => hrestart (List.mem_singleton.mp hmem).symm
    refine ih (h.handle hrestart ?_) (Option.isSome_iff_exists.mpr ⟨conn', hconn'⟩) ?_ hopen htame rfl
    · rintro frame frameEnd rfl hframe hserved hclosing
      refine ⟨fun hm => hnot ⟨rfl, hframe, hserved, .inr ?_⟩, fun hm => hanswered ⟨rfl, hframe, hserved, .inr hm⟩⟩
      rw [provoking, if_neg hclosing, hm]
      rfl
    · intro hbegun
      obtain ⟨rfl, hpub⟩ := Bool.or_eq_false_iff.mp hbegun
      exact pending_handle h.valid (hpending rfl) hrestart (of_decide_eq_false hpub)

/-- From when the broker has closed a channel that is detached, until the client answers, the channel is inert as long as
    the client provokes nothing on it. --/
theorem closed_channel_inert {store : Option MessageStore} {userStore : UserStore} {clock : Nat → Int} {readings : Nat}
    {before after : List Event} {e : Event}
    (hclosed : BrokerCloses c num ((start store userStore clock readings).run before) e)
    (hopen : Unanswered c num ((start store userStore clock readings).run (before ++ [e])) after)
    (hdetached : Detached c num ((start store userStore clock readings).run (before ++ [e])))
    (htame : Tame c num ((((start store userStore clock readings).run (before ++ [e])).channel c num).bind
      Channel.pendingPublish).isSome ((start store userStore clock readings).run (before ++ [e])) after) :
    ∀ a x b, after = a ++ x :: b → StaysInert c num ((start store userStore clock readings).run (before ++ e :: a)) x := by
  intro a x b heq
  obtain ⟨he, hch, -⟩ := hclosed
  obtain ⟨ch, hch⟩ := Option.isSome_iff_exists.mp hch
  obtain ⟨conn, hconn, -⟩ := Option.bind_eq_some_iff.mp hch
  have hnum : num ≠ 0 := by
    rintro rfl
    rw [((NoZero.start store userStore clock readings).run valid_start before).channel c] at hch
    cases hch
  have hlive : (((start store userStore clock readings).run (before ++ [e])).connection c).isSome = true := by
    rw [run_append]
    obtain ⟨conn', hconn'⟩ := exists_connection_run (valid_run valid_start before) hconn [e]
      fun hmem => he (List.mem_singleton.mp hmem).symm
    exact Option.isSome_iff_exists.mpr ⟨conn', hconn'⟩
  have hmuted : Muted c num ((start store userStore clock readings).run (before ++ [e])) :=
    ⟨valid_run valid_start _, registered_run _, hdetached⟩
  rw [List.append_cons, run_append]
  exact hmuted.run hnum hlive (fun hnone => Option.isNone_iff_eq_none.mp (by simpa using hnone)) hopen htame heq

/-- Two channels of a connection, the second one with a consumer. --/
def twoChannels : List Event :=
  Client.connect 1 ++ [Client.openChannel 1 1, Client.openChannel 1 2,
    Client.assertQueue 1 2 (ascii "q") false true false false [], Client.consume 1 2 (ascii "q") [] false false false]

/-- A queue that is not there. --/
def failingPurge : Event := Client.purgeQueue 1 1 (ascii "missing")

/-- The first channel is closed. A `confirm.select`, a part of a body and a delivery to the other channel come. --/
theorem closed_channel_inert_purge :
    StaysInert 1 1 (freshServer.run (twoChannels ++ failingPurge :: [Client.confirmSelect 1 1])) (contentBody (ascii "x")) ∧
      StaysInert 1 1 (freshServer.run (twoChannels ++ failingPurge :: ([Client.confirmSelect 1 1, contentBody (ascii "x")] ++
        Client.sendToQueue 1 2 (ascii "q") (ascii "hi") {}))) (.runTask 1) ∧
      (deliveriesSent 1 2 (freshServer.run (twoChannels ++ failingPurge :: ([Client.confirmSelect 1 1, contentBody (ascii "x")] ++
        Client.sendToQueue 1 2 (ascii "q") (ascii "hi") {} ++ [.runTask 1])))).length = 1 := by
  have hinert := @closed_channel_inert 1 1 (some {}) {} (fun _ => 0) 0 twoChannels
    ([Client.confirmSelect 1 1, contentBody (ascii "x")] ++ Client.sendToQueue 1 2 (ascii "q") (ascii "hi") {} ++ [.runTask 1])
    failingPurge ⟨Event.noConfusion, by decide +kernel, by decide +kernel⟩ ?_ (by decide +kernel) (by decide +kernel)
  · refine ⟨hinert [Client.confirmSelect 1 1] _ _ rfl, ?_, by decide +kernel⟩
    exact hinert ([Client.confirmSelect 1 1, contentBody (ascii "x")] ++ Client.sendToQueue 1 2 (ascii "q") (ascii "hi") {})
      _ [] rfl
  · refine ⟨Event.noConfusion, by decide +kernel, Event.noConfusion, by decide +kernel, Event.noConfusion, by decide +kernel, ?_⟩
    exact ⟨Event.noConfusion, by decide +kernel, Event.noConfusion, by decide +kernel, Event.noConfusion, by decide +kernel, trivial⟩

/-- After the Channel.Close a queue is declared on the channel, and it is there; a channel with a consumer is sent a
    delivery. --/
theorem closed_channel_acts :
    (BrokerCloses 1 1 (freshServer.run twoChannels) failingPurge ∧
      ¬StaysInert 1 1 (freshServer.run (twoChannels ++ [failingPurge])) (Client.assertQueue 1 1 (ascii "r") false true false false [])) ∧
    (BrokerCloses 1 2 (freshServer.run twoChannels) (Client.purgeQueue 1 2 (ascii "missing")) ∧
      Unanswered 1 2 (freshServer.run (twoChannels ++ [Client.purgeQueue 1 2 (ascii "missing")]))
        (Client.sendToQueue 1 1 (ascii "q") (ascii "hi") {}) ∧
      ¬StaysInert 1 2 (freshServer.run (twoChannels ++ [Client.purgeQueue 1 2 (ascii "missing")] ++
        Client.sendToQueue 1 1 (ascii "q") (ascii "hi") {})) (.runTask 1)) := by
  refine ⟨⟨⟨Event.noConfusion, by decide +kernel, by decide +kernel⟩, fun h => ?_⟩,
    ⟨Event.noConfusion, by decide +kernel, by decide +kernel⟩, ?_, fun h => ?_⟩
  · have hkeys := congrArg Assoc.keys (h.1 _ _ rfl rfl).queues
    revert hkeys
    decide +kernel
  · exact ⟨Event.noConfusion, by decide +kernel, Event.noConfusion, by decide +kernel, Event.noConfusion, by decide +kernel, trivial⟩
  · have hsent := congrArg List.length h.2
    revert hsent
    decide +kernel

end AmqpServer
end Broko.Broker
