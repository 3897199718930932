import Broko.Theorems.QueueSteps

/-! The moves of a publish. The message object that a publish makes is not in any queue while copies of it go to
    the queues of the route, so each copy is the message that was published. -/

namespace Broko.Broker
open Amqp Storage MessageStore

namespace AmqpServer

variable {c : Nat} {num : UInt16} {K : List Kind} {s s₁ : AmqpServer}

/-! ### A message object apart from the queues -/

/-- The object `r` holds the message `m` and is in no queue. --/
structure Apart (r : Ref) (m : Message) (s : AmqpServer) : Prop where
  lt : r < s.heap.size
  message : s.message r = m
  queues : s.queues.All fun _ q => r ∉ q.messages

namespace Apart
variable {r r' : Ref} {m : Message}

theorem ofEq (h : Apart r m s) (hq : s₁.queues = s.queues) (hh : s₁.heap = s.heap) : Apart r m s₁ :=
  ⟨hh ▸ h.lt, by rw [AmqpServer.message, hh]; exact h.message, hq ▸ h.queues⟩

theorem record (h : Apart r m s) (facts : List Fact) : Apart r m (s.record facts) := h.ofEq rfl rfl

theorem modifyQueue (h : Apart r m s) {name : Bytes} {f : MessageQueue → MessageQueue}
    (hf : ∀ q, r ∉ q.messages → r ∉ (f q).messages) : Apart r m (s.modifyQueue name f) :=
  ⟨h.lt, h.message, h.queues.modify fun q _ => hf q⟩

theorem modifyMessage (h : Apart r m s) (hne : r' ≠ r) (f : Message → Message) : Apart r m (s.modifyMessage r' f) := by
  refine ⟨h.lt, ?_, h.queues⟩
  rw [AmqpServer.message, AmqpServer.modifyMessage, Heap.cell_modify_of_ne hne.symm]
  exact h.message

theorem alloc (h : Apart r m s) (x : Cell) : Apart r m { s with heap := s.heap.alloc x } := by
  refine ⟨Nat.lt_succ_of_lt h.lt, ?_, h.queues⟩
  rw [AmqpServer.message, Heap.cell_alloc_of_ne (Nat.ne_of_lt h.lt)]
  exact h.message

theorem foldl {α : Type} {f : AmqpServer → α → AmqpServer} {l : List α} (hf : ∀ s, ∀ a ∈ l, Apart r m s → Apart r m (f s a))
    (h : Apart r m s) : Apart r m (l.foldl f s) := by
  induction l generalizing s with
  | nil => exact h
  | cons a l ih =>
    exact ih (fun s b hb => hf s b (List.mem_cons_of_mem _ hb)) (hf s a List.mem_cons_self h)

theorem pushBack (h : Apart r m s) (hne : r' ≠ r) (name : Bytes) : Apart r m (s.pushBack name r') := by
  have hclock : Apart r m s.readClock := h.ofEq rfl rfl
  refine modifyQueue (hclock.modifyMessage hne _) fun q hq hmem => ?_
  have hmem := (sortMessages_perm _ q _).mem_iff.mp hmem
  rcases List.mem_append.mp hmem with hmem | hmem
  · exact hq hmem
  · exact hne (List.mem_singleton.mp hmem).symm

theorem collectExpired (h : Apart r m s) (name : Bytes) : Apart r m (s.collectExpired name).2 := by
  rw [AmqpServer.collectExpired]
  split
  · exact h
  · split
    · exact h
    · have hclock : Apart r m s.readClock := h.ofEq rfl rfl
      have hdrop : ∀ n, Apart r m (s.readClock.modifyQueue name fun q => { q with messages := q.messages.drop n }) :=
        fun n => hclock.modifyQueue fun q hq hmem => hq (List.mem_of_mem_drop hmem)
      exact (hdrop _).record _

theorem handOver (h : Apart r m s) (name : Bytes) (k head : Ref) (idx : Nat) :
    Apart r m (s.handOver name k head idx) := by
  have htail : Apart r m (s.modifyQueue name fun q => { q with messages := q.messages.tail, roundRobinIdx := idx }) :=
    h.modifyQueue fun q hq hmem => hq (List.mem_of_mem_tail hmem)
  have hdeliver : ∀ s₁ : AmqpServer, Apart r m s₁ → Apart r m (s₁.onDeliver k head) := by
    intro s₁ h₁
    rw [onDeliver]
    split
    · exact h₁
    · exact (h₁.alloc _).ofEq rfl rfl
  rw [AmqpServer.handOver]
  refine hdeliver _ ?_
  split
  · exact htail
  · exact htail.ofEq rfl rfl

theorem dispatchLoop (h : Apart r m s) (name : Bytes) (turns : Nat) : Apart r m (dispatchLoop name turns s) := by
  induction turns generalizing s with
  | zero => exact h
  | succ turns ih =>
    rw [AmqpServer.dispatchLoop]
    split
    · exact h
    · split
      · exact h
      · split
        · exact h.modifyQueue fun _ hq => hq
        · exact ih (h.handOver ..)

theorem dispatchLocked (h : Apart r m s) (name : Bytes) : Apart r m (s.dispatchLocked name) := by
  rw [AmqpServer.dispatchLocked]
  split
  · exact h
  · split
    · exact h
    · exact h.dispatchLoop ..

theorem deadLetterWith {enqueue : AmqpServer → Bytes → Ref → AmqpServer} (h : Apart r m s) (hne : r' ≠ r)
    (henq : ∀ s name, Apart r m s → Apart r m (enqueue s name r')) (name reason : Bytes) :
    Apart r m (deadLetterWith enqueue name reason s r') := by
  rw [AmqpServer.deadLetterWith]
  split
  · exact h
  · split
    · exact h
    · dsimp only
      split
      · exact h.modifyMessage hne _
      · exact foldl (fun s name _ hs => henq s name hs) ((h.modifyMessage hne _).modifyMessage hne _)

theorem enqueueLoop (h : Apart r m s) (hne : r' ≠ r) (fuel : Nat) (name : Bytes) :
    Apart r m (enqueueLoop fuel s name r') := by
  induction fuel generalizing s r' name with
  | zero => exact h
  | succ fuel ih =>
    rw [AmqpServer.enqueueLoop]
    split
    · exact h
    · have hpush := h.pushBack hne name
      refine foldl (fun s x hx hs => ?_) ((hpush.collectExpired name).dispatchLocked name)
      -- What has expired was in the queue.
      obtain ⟨q, hq, hmem⟩ := mem_collectExpired hx
      have hx : x ≠ r := fun heq => hpush.queues name q hq (heq ▸ hmem)
      exact hs.deadLetterWith hx (fun s name hs => ih hs hx name) ..

theorem storeMessage (h : Apart r m s) (hne : r' ≠ r) (name : Bytes) : Apart r m (s.storeMessage name r') := by
  rw [AmqpServer.storeMessage]
  split
  · exact h
  · rename_i st _
    have hst : ∀ st', Apart r m { s with store := some st' } := fun _ => h.ofEq rfl rfl
    dsimp only
    exact ((hst _).modifyMessage hne _).record _

/-- A new object is in no queue. --/
theorem newMessage (hv : Valid s) (m : Message) : Apart s.heap.size m (s.newMessage m) := by
  refine ⟨Nat.lt_succ_self _, ?_, fun name q hq hmem => ?_⟩
  · rw [AmqpServer.message, AmqpServer.newMessage, Heap.cell_alloc_self]
  · exact Nat.lt_irrefl _ ((hv.queue hq).messages _ hmem)

end Apart

/-! ### Publishing -/

/-- A new object for a message that goes to a queue, with its record if the queue asks for one. --/
def admitted (s : AmqpServer) (m : Message) (qname : Bytes) : AmqpServer :=
  match s.queue qname with
  | none => s.newMessage m
  | some q => if m.isPersistent && q.durable then (s.newMessage m).storeMessage qname s.heap.size else s.newMessage m

/-- The record of the message fits into an entry, if the queue asks for one. --/
def RecordFits (s : AmqpServer) (m : Message) (qname : Bytes) : Prop :=
  ∀ q, s.queue qname = some q → q.durable = true → m.isPersistent = true → (Entry.message (recordOf 0 qname m)).Fits

/-- The records of a complete publish fit. --/
def PublishFits (s : AmqpServer) (c : Nat) (p : PendingPublish) : Prop :=
  ∀ qname ∈ s.routeMessage p.exchange p.routing_key p.properties.headers, s.RecordFits (messageOf c p) qname

/-- The message goes to the queue as it is, or a new object for it does; its record may be written before. --/
theorem publishTo_cases (several : Bool) (msg : Ref) (s : AmqpServer) (qname : Bytes) :
    ∃ s₁ r, (several = true ∧ s₁ = s.newMessage (s.message msg) ∧ r = s.heap.size ∨ several = false ∧ s₁ = s ∧ r = msg) ∧
      (publishTo several msg s qname = s₁.deliverToQueue qname r ∨
        publishTo several msg s qname = (s₁.storeMessage qname r).deliverToQueue qname r) := by
  rw [publishTo]
  cases several with
  | true =>
    refine ⟨s.newMessage (s.message msg), s.heap.size, .inl ⟨rfl, rfl, rfl⟩, ?_⟩
    simp only [if_true]
    split
    · exact .inl rfl
    · split
      · exact .inr rfl
      · exact .inl rfl
  | false =>
    refine ⟨s, msg, .inr ⟨rfl, rfl, rfl⟩, ?_⟩
    simp only [Bool.false_eq_true, if_false]
    split
    · exact .inl rfl
    · split
      · exact .inr rfl
      · exact .inl rfl

theorem publishTo_several (msg : Ref) (qname : Bytes) :
    publishTo true msg s qname = (s.admitted (s.message msg) qname).deliverToQueue qname s.heap.size := by
  have hm : (s.newMessage (s.message msg)).message s.heap.size = s.message msg := by
    rw [message, newMessage, Heap.cell_alloc_self]
  rw [publishTo, admitted]
  simp only [if_true, hm]
  rfl

theorem publishTo_one (m : Message) (qname : Bytes) :
    publishTo false s.heap.size (s.newMessage m) qname = (s.admitted m qname).deliverToQueue qname s.heap.size := by
  have hm : (s.newMessage m).message s.heap.size = m := by rw [message, newMessage, Heap.cell_alloc_self]
  rw [publishTo, admitted]
  simp only [Bool.false_eq_true, if_false, hm]
  rfl

theorem heap_storeMessage (name : Bytes) (r : Ref) : (s.storeMessage name r).heap.size = s.heap.size := by
  rw [storeMessage]
  split <;> rfl

theorem queues_storeMessage (name : Bytes) (r : Ref) : (s.storeMessage name r).queues = s.queues := by
  rw [storeMessage]
  split <;> rfl

theorem heap_admitted (m : Message) (qname : Bytes) : (s.admitted m qname).heap.size = s.heap.size + 1 := by
  rw [admitted]
  split
  · rfl
  · split
    · exact heap_storeMessage ..
    · rfl

theorem queues_admitted (m : Message) (qname : Bytes) : (s.admitted m qname).queues = s.queues := by
  rw [admitted]
  split
  · rfl
  · split
    · exact queues_storeMessage ..
    · rfl

theorem Apart.admitted {r : Ref} {m : Message} (h : Apart r m s) (m' : Message) (qname : Bytes) :
    Apart r m (s.admitted m' qname) := by
  have hnew : Apart r m (s.newMessage m') := h.alloc _
  rw [AmqpServer.admitted]
  split
  · exact hnew
  · split
    · exact hnew.storeMessage (Nat.ne_of_gt h.lt) qname
    · exact hnew

/-- The kinds of a publish whose records fit. --/
def publishKinds : List Kind := [.create, .store, .enqueue, .queue, .output]

theorem does_admitted {m : Message} {qname : Bytes} (hK : ∀ k ∈ publishKinds, k ∈ K) (hw : m.properties.WellFormed)
    (hid : m.Pristine) (hfit : .oversize ∈ K ∨ s.RecordFits m qname) : Does c K s (s.admitted m qname) := by
  have hcreate : Does c K s (s.newMessage m) :=
    (Does.of (.create m hw hid)).mono fun k hk => hK k (List.mem_singleton.mp hk ▸ List.mem_cons_self)
  rw [admitted]
  split
  · exact hcreate
  · rename_i q hq
    split
    · rename_i h
      rw [Bool.and_eq_true] at h
      by_cases hrec : (Entry.message (recordOf 0 qname m)).Fits
      · refine (Does.of (.store m hw hid hq h.2 h.1 hrec)).mono fun k hk => hK k ?_
        rw [List.mem_singleton.mp hk]
        decide
      · rcases hfit with hover | hfit
        · exact (Does.of (.oversize m hw hid hq h.2 h.1 hrec)).mono fun k hk => List.mem_singleton.mp hk ▸ hover
        · exact absurd (hfit q hq h.2 h.1) hrec
    · exact hcreate

/-- One copy goes to one queue. --/
theorem does_publishOne {m : Message} {qname : Bytes} (hK : ∀ k ∈ publishKinds, k ∈ K) (hw : m.properties.WellFormed)
    (hid : m.Pristine) (hfit : .oversize ∈ K ∨ s.RecordFits m qname) :
    Does c K s ((s.admitted m qname).deliverToQueue qname s.heap.size) := by
  refine (does_admitted hK hw hid hfit).andThen ((does_deliverToQueue qname ?_).mono fun k hk => hK k ?_)
  · rw [heap_admitted]
    exact Nat.lt_succ_self _
  · revert k
    decide

theorem RecordFits.mono {m : Message} {qname : Bytes} (h : s.RecordFits m qname)
    (hs : ∀ q', s₁.queue qname = some q' → ∃ q, s.queue qname = some q ∧ q.frame = q'.frame) : s₁.RecordFits m qname := by
  intro q' hq' hd hp
  obtain ⟨q, hq, hframe⟩ := hs q' hq'
  have hdur : q.frame.durable = q'.frame.durable := by rw [hframe]
  exact h q hq (hdur.trans hd) hp

/-- Copies of an object that is apart go to several queues. --/
theorem does_publishAll {msg : Ref} {m : Message} (hK : ∀ k ∈ publishKinds, k ∈ K) (hw : m.properties.WellFormed)
    (hid : m.Pristine) (l : List Bytes) (s : AmqpServer) (ha : Apart msg m s)
    (hfit : .oversize ∈ K ∨ ∀ qname ∈ l, s.RecordFits m qname) : Does c K s (l.foldl (publishTo true msg) s) := by
  induction l generalizing s with
  | nil => exact .refl
  | cons qname l ih =>
    have hone : Does c K s ((s.admitted m qname).deliverToQueue qname s.heap.size) :=
      does_publishOne hK hw hid (hfit.imp_right fun h => h qname List.mem_cons_self)
    rw [List.foldl_cons, publishTo_several, ha.message]
    refine hone.andThen (ih _ ((ha.admitted m qname).enqueueLoop (Nat.ne_of_gt ha.lt) _ _) ?_)
    refine hfit.imp_right fun h name hname => (h name (List.mem_cons_of_mem _ hname)).mono fun q' hq' => ?_
    -- The queues are the same but for their messages.
    obtain ⟨q, hq, hframe⟩ := queue_of_skeleton (skeleton_deliverToQueue (s := s.admitted m qname) qname s.heap.size).symm hq'
    rw [queue, queues_admitted] at hq
    exact ⟨q, hq, hframe⟩

theorem pristine_messageOf (c : Nat) (p : PendingPublish) : (messageOf c p).Pristine := ⟨rfl, rfl⟩

/-- A publish up to its ack. --/
def distribute (s : AmqpServer) (c : Nat) (num : UInt16) (p : PendingPublish) : AmqpServer :=
  let queues := s.routeMessage p.exchange p.routing_key p.properties.headers
  if queues = [] ∧ p.mandatory then (s.newMessage (messageOf c p)).sendReturn c num (messageOf c p)
  else queues.foldl (publishTo (decide (1 < queues.length)) s.heap.size) (s.newMessage (messageOf c p))

theorem publish_eq (p : PendingPublish) :
    s.publish c num p = ((s.distribute c num p).sendConfirm c num).setPending c num none :=
  rfl

theorem does_distribute {p : PendingPublish} (num : UInt16) (hK : ∀ k ∈ publishKinds, k ∈ K) (hp : p.Sound)
    (hfit : .oversize ∈ K ∨ s.PublishFits c p) : Does c K s (s.distribute c num p) := by
  have hw : (messageOf c p).properties.WellFormed := hp.properties
  have hnew : Does c K s (s.newMessage (messageOf c p)) :=
    (Does.of (.create _ hw (pristine_messageOf c p))).mono fun k hk => hK k (List.mem_singleton.mp hk ▸ List.mem_cons_self)
  have hout : ∀ k ∈ [Kind.output], k ∈ K := fun k hk => hK k (by revert k; decide)
  refine Does.ofValid fun hv => ?_
  rw [distribute]
  split
  · exact hnew.andThen (((does_sendMethodFrame (k := .output) _ _ _ rfl).andThen (does_sendContentFrames ..)).mono hout)
  · rw [PublishFits] at hfit
    generalize s.routeMessage p.exchange p.routing_key p.properties.headers = queues at hfit
    rcases queues with _ | ⟨qname, _ | ⟨qname', rest⟩⟩
    · exact hnew
    · have hone := does_publishOne (c := c) hK hw (pristine_messageOf c p) (hfit.imp_right fun h => h qname List.mem_cons_self)
      rw [← publishTo_one] at hone
      exact hone
    · exact hnew.andThen (does_publishAll hK hw (pristine_messageOf c p) _ _ (.newMessage hv (messageOf c p)) hfit)

/-- A publish up to its end, where the channel is made ready for the next one. --/
theorem does_publish {p : PendingPublish} (num : UInt16) (hK : ∀ k ∈ publishKinds ++ [.confirm], k ∈ K) (hp : p.Sound)
    (hfit : .oversize ∈ K ∨ s.PublishFits c p) :
    ∃ s₁, s.publish c num p = s₁.setPending c num none ∧ Does c K s s₁ := by
  have hdist := does_distribute (c := c) num (fun k hk => hK k (List.mem_append_left _ hk)) hp hfit
  exact ⟨_, publish_eq p, hdist.andThen (does_sendConfirm.mono fun k hk => hK k (List.mem_append_right _ hk))⟩

/-! ### Content frames -/

/-- The pending publish with one more piece of the body, if that completes it. --/
def completedBy (p : PendingPublish) (data : Bytes) : Option PendingPublish :=
  let p := { p with body := p.body ++ data, bodyReceived := p.bodyReceived + data.length }
  if p.bodySize.toNat ≤ p.bodyReceived then some p else none

/-- The pending publish after a content header without a body. --/
def completedByHeader (p : PendingPublish) (buf : Buffer) : Option PendingPublish :=
  match readContentHeader buf with
  | .error _ => none
  | .ok (bodySize, buf) =>
    match BasicProperties.decode buf with
    | .error _ => none
    | .ok (properties, _) => if bodySize = 0 then completedBy { p with bodySize, properties } [] else none

/-- The publish that a content frame completes. --/
def completed (s : AmqpServer) (c : Nat) (frame : Frame) : Option PendingPublish :=
  ((s.channel c frame.channel).bind Channel.pendingPublish).bind fun p =>
    if frame.type = FRAME_HEADER then completedByHeader p (Buffer.ofBytes frame.payload)
    else if frame.type = FRAME_BODY then completedBy p frame.payload
    else none

theorem completed_of_ne {frame : Frame} (hheader : frame.type ≠ FRAME_HEADER) (hbody : frame.type ≠ FRAME_BODY) :
    s.completed c frame = none := by
  simp only [completed, if_neg hheader, if_neg hbody]
  cases (s.channel c frame.channel).bind Channel.pendingPublish <;> rfl

theorem setPending_setPending (p p' : Option PendingPublish) :
    (s.setPending c num p).setPending c num p' = s.setPending c num p' :=
  modifyChannel_modifyChannel ..

theorem pending_setPending {p : PendingPublish} (hp : (s.channel c num).bind Channel.pendingPublish = some p)
    (p' : Option PendingPublish) : ((s.setPending c num p').channel c num).bind Channel.pendingPublish = p' := by
  obtain ⟨ch, hch, -⟩ := Option.bind_eq_some_iff.mp hp
  rw [setPending, channel_modifyChannel_self, hch]
  rfl

/-- The last piece of a body. --/
theorem handleContentBody_of_completed {data : Bytes} {p p' : PendingPublish}
    (hp : (s.channel c num).bind Channel.pendingPublish = some p) (hc : completedBy p data = some p') :
    s.handleContentBody c num data = (s.setPending c num (some p')).publish c num p' := by
  rw [completedBy] at hc
  dsimp only at hc
  split at hc
  · rename_i hdone
    obtain rfl := Option.some.inj hc
    rw [handleContentBody, hp]
    exact if_pos hdone
  · cases hc

/-- The header of a publish without a body. --/
theorem handleContentHeader_of_completed {buf : Buffer} {p p' : PendingPublish}
    (hp : (s.channel c num).bind Channel.pendingPublish = some p) (hc : completedByHeader p buf = some p') :
    s.handleContentHeader c num buf = .ok ((s.setPending c num (some p')).publish c num p') := by
  rw [completedByHeader] at hc
  split at hc
  · cases hc
  · rename_i bodySize buf' hread
    split at hc
    · cases hc
    · rename_i properties buf'' hdec
      split at hc
      · rename_i hzero
        have hsmall : ¬MAX_BODY_SIZE < bodySize.toNat := by
          rw [hzero]
          exact Nat.not_lt_zero _
        rw [handleContentHeader, hp]
        dsimp only
        rw [hread]
        dsimp only
        rw [if_neg hsmall, hdec]
        dsimp only
        rw [if_pos hzero, handleContentBody_of_completed (pending_setPending hp _) hc, setPending_setPending]
      · cases hc

theorem Valid.pending (hv : Valid s) {p : PendingPublish}
    (hp : (s.channel c num).bind Channel.pendingPublish = some p) : p.Sound := by
  obtain ⟨ch, hch, hp⟩ := Option.bind_eq_some_iff.mp hp
  exact (hv.channel hch).pending p hp

theorem sound_completedBy {p p' : PendingPublish} {data : Bytes} (hp : p.Sound) (h : completedBy p data = some p') :
    p'.Sound := by
  rw [completedBy] at h
  dsimp only at h
  split at h
  · obtain rfl := Option.some.inj h
    exact ⟨hp.exchange, hp.routing_key, hp.properties⟩
  · cases h

theorem sound_completed (hv : Valid s) {frame : Frame} {p : PendingPublish} (h : s.completed c frame = some p) : p.Sound := by
  rw [completed] at h
  obtain ⟨q, hq, h⟩ := Option.bind_eq_some_iff.mp h
  have hsound := hv.pending hq
  split at h
  · rw [completedByHeader] at h
    split at h
    · cases h
    · rename_i bodySize buf _
      split at h
      · cases h
      · rename_i properties _ hdec
        obtain ⟨-, -, -, hwell, -⟩ := BasicProperties.accepts_properties _ _ _ hdec
        have hheader : PendingPublish.Sound { q with bodySize, properties } := ⟨hsound.exchange, hsound.routing_key, hwell⟩
        split at h
        · exact sound_completedBy hheader h
        · cases h
  · split at h
    · exact sound_completedBy hsound h
    · cases h

/-- The kinds of a content frame whose publish, if there is one, has records that fit. --/
def contentKinds : List Kind := publishKinds ++ [.confirm, .pending]

theorem does_handleContentBody {data : Bytes} (hK : ∀ k ∈ contentKinds, k ∈ K)
    (hfit : .oversize ∈ K ∨ ∀ p p', (s.channel c num).bind Channel.pendingPublish = some p →
      completedBy p data = some p' → s.PublishFits c p') : Does c K s (s.handleContentBody c num data) := by
  have hpend : ∀ k ∈ [Kind.pending], k ∈ K := fun k hk => hK k (by revert k; decide)
  refine Does.ofValid fun hv => ?_
  rw [handleContentBody]
  split
  · exact .refl
  · rename_i p hp
    have hsound : ({ p with body := p.body ++ data, bodyReceived := p.bodyReceived + data.length } : PendingPublish).Sound :=
      ⟨(hv.pending hp).exchange, (hv.pending hp).routing_key, (hv.pending hp).properties⟩
    have hset : Does c K s (s.setPending c num (some _)) := (does_setPending hsound).mono hpend
    dsimp only
    split
    · rename_i hdone
      obtain ⟨s₁, heq, hdoes⟩ := does_publish (c := c) (s := s.setPending c num (some _)) num
        (fun k hk => hK k (by revert k; decide)) hsound (hfit.imp_right fun h => h p _ hp (if_pos hdone))
      rw [heq]
      exact hset.andThen (hdoes.andThen (does_clearPending.mono hpend))
    · exact hset

theorem does_handleContentHeader {buf : Buffer} (hK : ∀ k ∈ contentKinds, k ∈ K)
    (hfit : .oversize ∈ K ∨ ∀ p p', (s.channel c num).bind Channel.pendingPublish = some p →
      completedByHeader p buf = some p' → s.PublishFits c p') :
    Does c K s (outcome (s.handleContentHeader c num buf)) := by
  have hout : ∀ k ∈ [Kind.pending, Kind.output], k ∈ K := fun k hk => hK k (by revert k; decide)
  have hset : ∀ {p : PendingPublish}, p.Sound → Does c K s (s.setPending c num (some p)) :=
    fun hp => (does_setPending hp).mono fun k hk => hout k (List.mem_singleton.mp hk ▸ List.mem_cons_self)
  refine Does.ofValid fun hv => ?_
  rw [handleContentHeader]
  split
  · exact .refl
  · rename_i p hp
    have hpend := hv.pending hp
    split
    · exact .refl
    · rename_i bodySize buf' hread
      dsimp only
      split
      · exact (does_clearPending.trans (does_sendChannelClose ..)).mono hout
      · split
        · have hsound : ({ p with bodySize } : PendingPublish).Sound :=
            ⟨hpend.exchange, hpend.routing_key, hpend.properties⟩
          exact hset hsound
        · rename_i properties _ hdec
          obtain ⟨-, -, -, hwell, -⟩ := BasicProperties.accepts_properties _ _ _ hdec
          have hsound : ({ p with bodySize, properties } : PendingPublish).Sound :=
            ⟨hpend.exchange, hpend.routing_key, hwell⟩
          dsimp only [outcome]
          split
          · rename_i hzero
            refine (hset hsound).andThen (does_handleContentBody hK (hfit.imp_right fun h p₁ p' hp₁ hc => h p p' hp ?_))
            have heq : p₁ = { p with bodySize, properties } := by
              rw [setPending, channel_modifyChannel_self] at hp₁
              obtain ⟨_, hch, hp₁⟩ := Option.bind_eq_some_iff.mp hp₁
              obtain ⟨ch, -, rfl⟩ := Option.map_eq_some_iff.mp hch
              exact (Option.some.inj hp₁).symm
            rw [completedByHeader, hread]
            dsimp only
            rw [hdec]
            dsimp only
            rw [if_pos hzero, ← heq, hc]
          · exact hset hsound

end AmqpServer
end Broko.Broker
