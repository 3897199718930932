import Broko.Broker.Client
import Broko.Lib.FirstMatch
import Broko.Theorems.Registry
import Broko.Theorems.Requests
import Broko.Theorems.VHostSteps

/-! The end of consumers: a cancel, the close of a channel, the end of a connection. A channel has its consumers by tag,
    and `removeConsumer` looks for the first consumer of the queue with that tag, whosever it is. -/

namespace Broko.Broker
open Amqp Storage MessageStore FirstMatch

namespace AmqpServer

/-! ### What is asked for -/

def tagOf (s : AmqpServer) (k : Ref) : Bytes := (s.consumer k).tag

/-- Queue and tag of each consumer of a channel. --/
def held (s : AmqpServer) (ch : Channel) : List (Bytes × Bytes) :=
  ch.consumers.entries.map fun e => ((s.consumer e.2).queue_name, e.1)

/-- Queue and tag of each consumer that a request takes out. --/
def removals (s : AmqpServer) : Request → List (Bytes × Bytes)
  | .method c num (.basicCancel tag _) =>
    match (s.channel c num).bind fun ch => ch.consumers.lookup tag with
    | none => []
    | some k => [((s.consumer k).queue_name, tag)]
  | .closeChannel c num =>
    match s.channel c num with
    | none => []
    | some ch => s.held ch
  | .shutdown c =>
    match s.connection c with
    | none => []
    | some conn => if conn.state = .CLOSED then [] else conn.channels.entries.flatMap fun e => s.held e.2
  | _ => []

/-- The tags under which consumers are taken out of the queue. --/
def tagsAt (rs : List (Bytes × Bytes)) (name : Bytes) : List Bytes := (rs.filter fun r => r.1 = name).map Prod.snd

/-- How often a consumer with the tag is taken out of the queue. --/
def timesTaken (rs : List (Bytes × Bytes)) (name tag : Bytes) : Nat := (tagsAt rs name).countP fun t => t = tag

/-- The request ends a connection that owns the queue. --/
def dropsQueue (s : AmqpServer) (q : MessageQueue) : Request → Bool
  | .shutdown c => (s.connection c).any fun conn => conn.state ≠ .CLOSED && ownedBy c q
  | _ => false

/-- The request ends a connection whose id is the one that the consumer carries. --/
def dropsConsumer (s : AmqpServer) (k : Ref) : Request → Bool
  | .shutdown c => (s.connection c).any fun conn => conn.state ≠ .CLOSED && idOf (s.consumer k).connection_id = idOf c
  | _ => false

end AmqpServer

/-- The request is a cancel, the close of a channel or the end of a connection. --/
def Request.ends : Request → Bool
  | .method _ _ (.basicCancel ..) => true
  | .closeChannel .. => true
  | .shutdown _ => true
  | _ => false

/-- The channel is the one that the request is about, or one of its connection where it ends that. --/
def Request.concerns (c' : Nat) (num' : UInt16) : Request → Bool
  | .method c num _ => c' = c && num' = num
  | .closeChannel c num => c' = c && num' = num
  | .shutdown c => c' = c
  | _ => false

namespace AmqpServer

variable {c : Nat} {num : UInt16} {s s' : AmqpServer}

/-- The consumer is in the queue, with the callback that it had. --/
def Stays (s s' : AmqpServer) (name : Bytes) (k : Ref) : Prop :=
  ∃ q, s'.queue name = some q ∧ k ∈ q.consumers ∧ (s'.consumer k).on_deliver = (s.consumer k).on_deliver

/-! ### Removals -/

/-- No consumer is twice in a queue or in two queues. --/
def Placed (s : AmqpServer) : Prop :=
  ∀ name q, s.queue name = some q → q.consumers.Nodup ∧ ∀ k ∈ q.consumers, (s.consumer k).queue_name = name

theorem Registered.isPlaced (h : Registered s) : Placed s := fun _ _ hq =>
  ⟨(h.queue hq).nodup, fun k hk => ((h.queue hq).placed k hk).2⟩

/-- From one state to the other, consumers are taken out of queues by tag. --/
structure Removes (rs : List (Bytes × Bytes)) (s s' : AmqpServer) : Prop where
  queue : ∀ name, (s'.queue name).map MessageQueue.frame = (s.queue name).map fun q =>
    { q.frame with consumers := eraseKeys s.tagOf q.consumers (tagsAt rs name) }
  fixed : ∀ k, (s'.consumer k).fixed = (s.consumer k).fixed
  kept : Placed s → ∀ name q, s'.queue name = some q → ∀ k ∈ q.consumers,
    (s'.consumer k).on_deliver = (s.consumer k).on_deliver

namespace Removes

variable {rs rs₁ rs₂ : List (Bytes × Bytes)} {s₁ s₂ : AmqpServer}

theorem tagOf (h : Removes rs s s') : s'.tagOf = s.tagOf := by
  funext k
  have hfixed : (s'.consumer k).fixed.tag = (s.consumer k).fixed.tag := by rw [h.fixed]
  exact hfixed

theorem queue_name (h : Removes rs s s') (k : Ref) : (s'.consumer k).queue_name = (s.consumer k).queue_name := by
  have hfixed : (s'.consumer k).fixed.queue_name = (s.consumer k).fixed.queue_name := by rw [h.fixed]
  exact hfixed

theorem connection_id (h : Removes rs s s') (k : Ref) : (s'.consumer k).connection_id = (s.consumer k).connection_id := by
  have hfixed : (s'.consumer k).fixed.connection_id = (s.consumer k).fixed.connection_id := by rw [h.fixed]
  exact hfixed

/-- A queue afterwards, and the one that it comes from. --/
theorem queue_eq (h : Removes rs s s') {name : Bytes} {q' : MessageQueue} (hq' : s'.queue name = some q') :
    ∃ q, s.queue name = some q ∧ q'.frame = { q.frame with consumers := eraseKeys s.tagOf q.consumers (tagsAt rs name) } := by
  have hqueue := h.queue name
  rw [hq', Option.map_some, eq_comm, Option.map_eq_some_iff] at hqueue
  obtain ⟨q, hq, heq⟩ := hqueue
  exact ⟨q, hq, heq.symm⟩

theorem consumers_eq {q q' : MessageQueue} {l : List Ref} (h : q'.frame = { q.frame with consumers := l }) :
    q'.consumers = l := by
  have hframe : q'.frame.consumers = l := by rw [h]
  exact hframe

theorem ownedBy_eq {q q' : MessageQueue} {l : List Ref} (h : q'.frame = { q.frame with consumers := l }) :
    ownedBy c q' = ownedBy c q := by
  have hexclusive : q'.frame.exclusive = q.frame.exclusive := by rw [h]
  have howner : q'.frame.owner_connection = q.frame.owner_connection := by rw [h]
  rw [ownedBy, ownedBy]
  exact congrArg₂ (fun a b => a && decide (idOf b = idOf c)) hexclusive howner

theorem isSome_queue (h : Removes rs s s') (name : Bytes) : (s'.queue name).isSome = (s.queue name).isSome := by
  have hqueue := congrArg Option.isSome (h.queue name)
  rwa [Option.isSome_map, Option.isSome_map] at hqueue

theorem placed (h : Removes rs s s') (hs : Placed s) : Placed s' := by
  intro name q' hq'
  obtain ⟨q, hq, heq⟩ := h.queue_eq hq'
  rw [consumers_eq heq]
  obtain ⟨hnodup, hplaced⟩ := hs name q hq
  refine ⟨hnodup.sublist eraseKeys_sublist, fun k hk => ?_⟩
  rw [h.queue_name]
  exact hplaced k (eraseKeys_sublist.subset hk)

theorem trans (h₁ : Removes rs₁ s s₁) (h₂ : Removes rs₂ s₁ s₂) : Removes (rs₁ ++ rs₂) s s₂ := by
  refine ⟨fun name => ?_, fun k => (h₂.fixed k).trans (h₁.fixed k), fun hs name q₂ hq₂ k hk => ?_⟩
  · rw [h₂.queue, h₁.tagOf]
    cases hq : s.queue name with
    | none =>
      have h := h₁.queue name
      rw [hq, Option.map_none, Option.map_eq_none_iff] at h
      rw [h]
      rfl
    | some q =>
      have h := h₁.queue name
      rw [hq, Option.map_some, Option.map_eq_some_iff] at h
      obtain ⟨q₁, hq₁, heq⟩ := h
      rw [hq₁, Option.map_some, Option.map_some, heq, consumers_eq heq]
      simp only [eraseKeys, tagsAt, List.filter_append, List.map_append, List.foldl_append]
  · obtain ⟨q₁, hq₁, heq⟩ := h₂.queue_eq hq₂
    have hk₁ : k ∈ q₁.consumers := by
      rw [consumers_eq heq] at hk
      exact eraseKeys_sublist.subset hk
    exact (h₂.kept (h₁.placed hs) name q₂ hq₂ k hk).trans (h₁.kept hs name q₁ hq₁ k hk₁)

/-- Nothing that concerns consumers is changed. --/
theorem of_frame (hq : ∀ name, (s'.queue name).map MessageQueue.frame = (s.queue name).map MessageQueue.frame)
    (hk : ∀ k, (s'.consumer k).frame = (s.consumer k).frame) : Removes [] s s' := by
  refine ⟨fun name => (hq name).trans rfl, fun k => ?_, fun _ _ _ _ k _ => ?_⟩
  · have hfixed : (s'.consumer k).frame.fixed = (s.consumer k).frame.fixed := by rw [hk]
    exact hfixed
  · have hframe : (s'.consumer k).frame.on_deliver = (s.consumer k).frame.on_deliver := by rw [hk]
    exact hframe

theorem of_skeleton (h : s'.skeleton = s.skeleton) : Removes [] s s' := by
  refine of_frame (fun name => ?_) fun k => ?_
  · rw [← queue_skeleton, h, queue_skeleton]
  · have hcell : s'.skeleton.consumerHeap.cell k = s.skeleton.consumerHeap.cell k := by rw [h]
    exact hcell

theorem of_eq (hq : s'.queues = s.queues) (hk : s'.consumerHeap = s.consumerHeap) : Removes [] s s' :=
  of_frame (fun name => by rw [AmqpServer.queue, hq, ← AmqpServer.queue]) fun k => by rw [consumer, hk, ← consumer]

theorem refl : Removes [] s s := of_eq rfl rfl

theorem modifyConnection (c : Nat) (f : Connection → Connection) : Removes [] s (s.modifyConnection c f) := of_eq rfl rfl

theorem modifyChannel (c : Nat) (num : UInt16) (f : Channel → Channel) : Removes [] s (s.modifyChannel c num f) :=
  of_eq rfl rfl

theorem after (h₁ : Removes [] s s₁) (h₂ : Removes rs s₁ s₂) : Removes rs s s₂ := h₁.trans h₂

theorem andThen (h₁ : Removes rs s s₁) (h₂ : Removes [] s₁ s₂) : Removes rs s s₂ := by
  have h := h₁.trans h₂
  rwa [List.append_nil] at h

end Removes

theorem consumer_onDeliver (k' taken k : Ref) : (s.onDeliver k' taken).consumer k = s.consumer k := by
  rw [onDeliver]
  split <;> rfl

theorem consumer_modifyConsumer_of_ne {k k' : Ref} (h : k' ≠ k) (f : Consumer → Consumer) :
    (s.modifyConsumer k f).consumer k' = s.consumer k' :=
  Heap.cell_modify_of_ne h

theorem removes_removeConsumer (name tag : Bytes) : Removes [(name, tag)] s (s.removeConsumer name tag) := by
  have htags : ∀ name', tagsAt [(name, tag)] name' = if name = name' then [tag] else [] := by
    intro name'
    by_cases h : name = name' <;> simp [tagsAt, h]
  have hsame : ∀ {q : MessageQueue}, s.queue name = some q → (q.consumers.find? fun k => (s.consumer k).tag = tag) = none →
      q.consumers.eraseP (fun k => s.tagOf k = tag) = q.consumers := by
    intro q _ hnone
    refine List.eraseP_of_forall_not fun k hk => ?_
    exact List.find?_eq_none.mp hnone k hk
  rw [removeConsumer]
  split
  · rename_i hq
    refine ⟨fun name' => ?_, fun _ => rfl, fun _ _ _ _ _ _ => rfl⟩
    rw [htags]
    split
    · rename_i h
      rw [← h, hq]
      rfl
    · rfl
  · rename_i q hq
    split
    · rename_i hnone
      refine ⟨fun name' => ?_, fun _ => rfl, fun _ _ _ _ _ _ => rfl⟩
      rw [htags]
      split
      · rename_i h
        rw [← h, hq, Option.map_some, Option.map_some]
        simp only [eraseKeys, List.foldl_cons, List.foldl_nil, hsame hq hnone]
        rfl
      · rfl
    · rename_i k hk
      have hfixed : ∀ k', ((s.modifyConsumer k fun c => { c with on_deliver := none }).consumer k').fixed =
          (s.consumer k').fixed :=
        Heap.cell_modify_congr (f := fun c : Consumer => { c with on_deliver := none }) Consumer.fixed fun _ => rfl
      refine ⟨fun name' => ?_, hfixed, fun hs name' q' hq' k' hk' => ?_⟩
      · rw [AmqpServer.queue, AmqpServer.modifyQueue, Assoc.lookup_modify, htags]
        by_cases h : name' = name
        · rw [if_pos h, if_pos h.symm, h]
          change ((s.queue name).map _).map _ = _
          rw [hq]
          rfl
        · rw [if_neg h, if_neg (Ne.symm h)]
          rfl
      · -- The consumer that lost its callback is in no queue.
        have hne : k' ≠ k := by
          rintro rfl
          rw [AmqpServer.queue, AmqpServer.modifyQueue, Assoc.lookup_modify] at hq'
          have hname := (hs name q hq).2 k' (List.mem_of_find?_eq_some hk)
          split at hq'
          · change (s.queue name).map _ = _ at hq'
            rw [hq] at hq'
            obtain rfl := Option.some.inj hq'
            exact ((mem_eraseP_of_find? (hs name q hq).1 hk).mp hk').2 rfl
          · rename_i h
            exact h (((hs name' q' hq').2 k' hk').symm.trans hname)
        have hcell := consumer_modifyConsumer_of_ne (s := s) hne fun c => { c with on_deliver := none }
        exact congrArg Consumer.on_deliver hcell

/-! ### Channels -/

theorem channel_modifyChannel_of_ne {num' : UInt16} (h : num ≠ num') (f : Channel → Channel) :
    (s.modifyChannel c num' f).channel c num = s.channel c num := by
  rw [channel, connection, modifyChannel, modifyConnection, Assoc.lookup_modify_self, channel, connection]
  cases s.connections.lookup c with
  | none => rfl
  | some conn => exact Assoc.lookup_modify_of_ne h

/-- The messages go back to their queues. --/
theorem skeleton_requeueAll (us : List UnackedMessage) (s : AmqpServer) :
    (us.foldl (fun s u => (s.releaseCredit u).rejectIfThere true u) s).skeleton = s.skeleton :=
  skeleton_foldl (fun _ u => (skeleton_rejectIfThere true u).trans (skeleton_releaseCredit u)) us s

theorem connections_foldl_removeConsumer (l : List (Bytes × Ref)) (s : AmqpServer) :
    (l.foldl (fun s (e : Bytes × Ref) => s.removeConsumer (s.consumer e.2).queue_name e.1) s).connections = s.connections := by
  induction l generalizing s with
  | nil => rfl
  | cons e l ih => exact (ih _).trans (connections_removeConsumer ..)

/-- The channels other than the one that is closed. --/
theorem channel_closeChannel {num' : UInt16} (h : num ≠ num') : (s.closeChannel c num').channel c num = s.channel c num := by
  have hclosed : (s.modifyChannel c num' fun ch => { ch with isOpen := false }).channel c num = s.channel c num :=
    channel_modifyChannel_of_ne h _
  rw [closeChannel, removeAllConsumers]
  split
  · exact hclosed
  · rename_i ch _
    dsimp only
    rw [requeueUnackedMessages, clearUnacked, channel_modifyChannel_of_ne h, channel_of_skeleton (skeleton_requeueAll ..),
      channel_modifyChannel_of_ne h, channel, connection, connections_foldl_removeConsumer]
    exact hclosed

theorem removes_requeueUnackedMessages : Removes [] s (s.requeueUnackedMessages c num) :=
  (Removes.of_skeleton (skeleton_requeueAll ..)).after (.modifyChannel ..)

theorem removes_foldl (l : List (Bytes × Ref)) (s : AmqpServer) :
    Removes (l.map fun e => ((s.consumer e.2).queue_name, e.1)) s
      (l.foldl (fun s (e : Bytes × Ref) => s.removeConsumer (s.consumer e.2).queue_name e.1) s) := by
  induction l generalizing s with
  | nil => exact .refl
  | cons e l ih =>
    have hfirst := removes_removeConsumer (s := s) (s.consumer e.2).queue_name e.1
    have hrest := ih (s.removeConsumer (s.consumer e.2).queue_name e.1)
    simp only [hfirst.queue_name] at hrest
    exact hfirst.trans hrest

theorem removes_closeChannel {ch : Channel} (hch : s.channel c num = some ch) :
    Removes (s.held ch) s (s.closeChannel c num) := by
  have hclosed : (s.modifyChannel c num fun ch => { ch with isOpen := false }).channel c num =
      some { ch with isOpen := false } := by
    rw [channel_modifyChannel_self, hch]
    rfl
  rw [closeChannel, removeAllConsumers, hclosed]
  dsimp only
  have hmark : Removes [] s (s.modifyChannel c num fun ch => { ch with isOpen := false }) := .modifyChannel ..
  have hall := removes_foldl ch.consumers.entries (s.modifyChannel c num fun ch => { ch with isOpen := false })
  exact (hmark.after hall).andThen ((Removes.modifyChannel ..).after removes_requeueUnackedMessages)

theorem removes_cleanupChannel :
    Removes (s.removals (.closeChannel c num)) s (s.cleanupChannel c num) := by
  rw [cleanupChannel, removals]
  cases hch : s.channel c num with
  | none => exact .refl
  | some ch => exact (removes_closeChannel hch).andThen (.modifyConnection ..)

theorem held_congr {rs : List (Bytes × Bytes)} (h : Removes rs s s') (ch : Channel) : s'.held ch = s.held ch := by
  simp only [held, h.queue_name]

theorem removes_closeChannels (l : List (UInt16 × Channel)) (hl : (l.map Prod.fst).Nodup) (s : AmqpServer)
    (hch : ∀ e ∈ l, s.channel c e.1 = some e.2) :
    Removes (l.flatMap fun e => s.held e.2) s ((l.map Prod.fst).foldl (closeChannel c) s) := by
  induction l generalizing s with
  | nil => exact .refl
  | cons e l ih =>
    obtain ⟨he, hl⟩ := List.nodup_cons.mp hl
    have hfirst := removes_closeChannel (hch e List.mem_cons_self)
    have hrest := ih hl (s.closeChannel c e.1) fun e' he' => by
      have hne : e'.1 ≠ e.1 := fun heq => he (List.mem_map.mpr ⟨e', he', heq⟩)
      rw [channel_closeChannel hne]
      exact hch e' (List.mem_cons_of_mem _ he')
    simp only [held_congr hfirst] at hrest
    exact hfirst.trans hrest

theorem removes_cleanupAllChannels {conn : Connection} (hconn : s.connection c = some conn) :
    Removes (conn.channels.entries.flatMap fun e => s.held e.2) s (s.cleanupAllChannels c) := by
  rw [cleanupAllChannels, hconn]
  refine (removes_closeChannels _ conn.channels.nodup s fun e he => ?_).andThen (.modifyConnection ..)
  rw [channel, hconn]
  exact Assoc.mem_entries.mp he

theorem removes_cancel (tag : Bytes) (bits : UInt8) :
    Removes (s.removals (.method c num (.basicCancel tag bits))) s (s.cancel c num tag) := by
  rw [cancel, removals]
  cases (s.channel c num).bind fun ch => ch.consumers.lookup tag with
  | none => exact .refl
  | some k => exact (removes_removeConsumer ..).andThen (.modifyChannel ..)

/-! ### The end of a connection -/

/-- Other consumers than those of the list keep their callbacks. --/
theorem consumer_foldl_clear {k : Ref} {l : List Ref} (hk : k ∉ l) (s : AmqpServer) :
    (l.foldl (fun s k => s.modifyConsumer k fun c => { c with on_deliver := none }) s).consumer k = s.consumer k := by
  induction l generalizing s with
  | nil => rfl
  | cons k' l ih =>
    obtain ⟨hne, hnot⟩ := not_or.mp (List.mem_cons.not.mp hk)
    exact (ih hnot _).trans (consumer_modifyConsumer_of_ne hne _)

/-- `removeConnectionQueues` takes callbacks only from consumers that carry the id of the connection. --/
theorem consumer_removeConnectionQueues {k : Ref} (hk : idOf (s.consumer k).connection_id ≠ idOf c) :
    (s.removeConnectionQueues c).consumer k = s.consumer k := by
  have hone : ∀ (s : AmqpServer) name, idOf (s.consumer k).connection_id ≠ idOf c →
      (s.removeConsumersByConnection name c).consumer k = s.consumer k := by
    intro s name hk
    rw [removeConsumersByConnection]
    split
    · rfl
    · refine consumer_foldl_clear (fun hmem => hk ?_) s
      exact of_decide_eq_true (List.mem_filter.mp hmem).2
  refine removeConnectionQueues_keeps (P := fun s' => s'.consumer k = s.consumer k) rfl (fun s' name h => ?_) fun _ _ _ h => h
  exact (hone s' name (h ▸ hk)).trans h

/-- What the consumers see of `removeConnectionQueues`. --/
theorem stays_removeConnectionQueues (name : Bytes) (k : Ref) :
    (∃ q', (s.removeConnectionQueues c).queue name = some q' ∧ k ∈ q'.consumers) ↔
      idOf (s.consumer k).connection_id ≠ idOf c ∧ ∃ q, s.queue name = some q ∧ k ∈ q.consumers ∧ ownedBy c q = false := by
  obtain ⟨-, hqueue, -, -⟩ := removeConnectionQueues_spec (s := s) c
  rw [hqueue]
  constructor
  · rintro ⟨q', hq', hmem⟩
    obtain ⟨q, hq, hif⟩ := Option.bind_eq_some_iff.mp hq'
    split at hif
    · cases hif
    · rename_i hgoes
      obtain rfl := Option.some.inj hif
      rw [goesWith, Bool.or_eq_true, not_or, Bool.not_eq_true] at hgoes
      exact ⟨of_decide_eq_true (List.mem_filter.mp hmem).2, q, hq, (List.mem_filter.mp hmem).1, hgoes.1⟩
  · rintro ⟨hk, q, hq, hmem, howned⟩
    have hstill : k ∈ (s.without c q).consumers := List.mem_filter.mpr ⟨hmem, decide_eq_true hk⟩
    have hgoes : s.goesWith c q = false := by
      rw [goesWith, howned, Bool.false_or, abandoned, Bool.and_eq_false_iff]
      exact .inr (by rw [List.isEmpty_eq_false_iff]; exact List.ne_nil_of_mem hstill)
    exact ⟨s.without c q, by rw [hq, Option.bind_some, hgoes]; rfl, hstill⟩

/-! ### Which consumers stay -/

/-- Removals by tag leave a consumer in its place if there are enough others before it. --/
theorem Removes.stays_iff {rs : List (Bytes × Bytes)} (h : Removes rs s s') (hs : Placed s) {name : Bytes} {q : MessageQueue}
    (hq : s.queue name = some q) {k : Ref} (hk : k ∈ q.consumers) :
    Stays s s' name k ↔ timesTaken rs name (s.tagOf k) ≤ rank s.tagOf k q.consumers := by
  have hmem : k ∈ eraseKeys s.tagOf q.consumers (tagsAt rs name) ↔
      k ∈ q.consumers ∧ timesTaken rs name (s.tagOf k) ≤ rank s.tagOf k q.consumers :=
    mem_eraseKeys (hs name q hq).1
  constructor
  · rintro ⟨q', hq', hk', -⟩
    obtain ⟨q₀, hq₀, heq⟩ := h.queue_eq hq'
    obtain rfl := Option.some.inj (hq.symm.trans hq₀)
    rw [consumers_eq heq] at hk'
    exact (hmem.mp hk').2
  · intro hle
    have hqueue := h.queue name
    rw [hq, Option.map_some, Option.map_eq_some_iff] at hqueue
    obtain ⟨q', hq', heq⟩ := hqueue
    have hk' : k ∈ q'.consumers := by
      rw [consumers_eq heq]
      exact hmem.mpr ⟨hk, hle⟩
    exact ⟨q', hq', hk', h.kept hs name q' hq' k hk'⟩

/-- The state of `shutdown` before `removeConnectionQueues`. --/
def afterChannels (s : AmqpServer) (c : Nat) : AmqpServer :=
  (s.modifyConnection c fun conn => { conn with state := .CLOSED, reading := false }).cleanupAllChannels c

theorem shutdown_of_live {conn : Connection} (hconn : s.connection c = some conn) (hopen : conn.state ≠ .CLOSED) :
    s.shutdown c = (s.afterChannels c).removeConnectionQueues c := by
  rw [shutdown, hconn]
  exact if_neg hopen

theorem shutdown_of_not_live (h : ∀ conn, s.connection c = some conn → conn.state = .CLOSED) : s.shutdown c = s := by
  rw [shutdown]
  split
  · rfl
  · rename_i conn hconn
    exact if_pos (h conn hconn)

theorem connection_shut {conn : Connection} (hconn : s.connection c = some conn) :
    (s.modifyConnection c fun conn => { conn with state := .CLOSED, reading := false }).connection c =
      some { conn with state := .CLOSED, reading := false } := by
  rw [connection, modifyConnection, Assoc.lookup_modify_self, ← connection, hconn]
  rfl

theorem removals_of_live {conn : Connection} (hconn : s.connection c = some conn) (hopen : conn.state ≠ .CLOSED) :
    s.removals (.shutdown c) = conn.channels.entries.flatMap fun e => s.held e.2 := by
  rw [removals, hconn]
  exact if_neg hopen

theorem removes_afterChannels {conn : Connection} (hconn : s.connection c = some conn) (hopen : conn.state ≠ .CLOSED) :
    Removes (s.removals (.shutdown c)) s (s.afterChannels c) := by
  rw [removals_of_live hconn hopen]
  exact (Removes.modifyConnection ..).after (removes_cleanupAllChannels (connection_shut hconn))

theorem stays_shutdown_iff (hs : Placed s) {name : Bytes} {q : MessageQueue} (hq : s.queue name = some q) {k : Ref}
    (hk : k ∈ q.consumers) :
    Stays s (s.shutdown c) name k ↔ timesTaken (s.removals (.shutdown c)) name (s.tagOf k) ≤
      rank s.tagOf k q.consumers ∧ s.dropsQueue q (.shutdown c) = false ∧ s.dropsConsumer k (.shutdown c) = false := by
  by_cases hlive : ∀ conn, s.connection c = some conn → conn.state = .CLOSED
  · have hnone : s.removals (.shutdown c) = [] ∧ s.dropsQueue q (.shutdown c) = false ∧
        s.dropsConsumer k (.shutdown c) = false := by
      rw [removals, dropsQueue, dropsConsumer]
      cases hconn : s.connection c with
      | none => exact ⟨rfl, rfl, rfl⟩
      | some conn => simp [hlive conn hconn]
    rw [shutdown_of_not_live hlive, hnone.1, hnone.2.1, hnone.2.2]
    simpa using Removes.refl.stays_iff hs hq hk
  · push Not at hlive
    obtain ⟨conn, hconn, hopen⟩ := hlive
    have hclean := removes_afterChannels hconn hopen
    rw [shutdown_of_live hconn hopen]
    generalize s.afterChannels c = s₁ at hclean ⊢
    have hstays : Stays s (s₁.removeConnectionQueues c) name k ↔
        Stays s s₁ name k ∧ ownedBy c q = false ∧ idOf (s.consumer k).connection_id ≠ idOf c := by
      have hqueue := stays_removeConnectionQueues (s := s₁) (c := c) name k
      rw [hclean.connection_id] at hqueue
      have hdeliver : idOf (s.consumer k).connection_id ≠ idOf c →
          ((s₁.removeConnectionQueues c).consumer k).on_deliver = (s₁.consumer k).on_deliver := fun hid => by
        rw [consumer_removeConnectionQueues (by rwa [hclean.connection_id])]
      have hsame : ∀ q₁, s₁.queue name = some q₁ → ownedBy c q₁ = ownedBy c q := by
        intro q₁ hq₁
        obtain ⟨q₀, hq₀, heq⟩ := hclean.queue_eq hq₁
        obtain rfl := Option.some.inj (hq.symm.trans hq₀)
        exact Removes.ownedBy_eq heq
      constructor
      · rintro ⟨q', hq', hmem, hkept⟩
        obtain ⟨hid, q₁, hq₁, hmem₁, howned⟩ := hqueue.mp ⟨q', hq', hmem⟩
        exact ⟨⟨q₁, hq₁, hmem₁, (hdeliver hid).symm.trans hkept⟩, (hsame q₁ hq₁).symm.trans howned, hid⟩
      · rintro ⟨⟨q₁, hq₁, hmem₁, hkept⟩, howned, hid⟩
        obtain ⟨q', hq', hmem⟩ := hqueue.mpr ⟨hid, q₁, hq₁, hmem₁, (hsame q₁ hq₁).trans howned⟩
        exact ⟨q', hq', hmem, (hdeliver hid).trans hkept⟩
    rw [hstays, hclean.stays_iff hs hq hk]
    refine and_congr Iff.rfl ?_
    simp [dropsQueue, dropsConsumer, hconn, hopen]

theorem connection_send (out : Outgoing) :
    (s.send c out).connection c = (s.connection c).map fun conn => { conn with sent := conn.sent ++ [out] } := by
  rw [connection, send, modifyConnection, Assoc.lookup_modify_self, connection]

theorem removals_send (out : Outgoing) : (s.send c out).removals (.shutdown c) = s.removals (.shutdown c) := by
  rw [removals, removals, connection_send]
  cases s.connection c <;> rfl

/-- A frame that is sent before the end changes nothing about it. --/
theorem stays_send_shutdown_iff (hs : Placed s) (out : Outgoing) {name : Bytes} {q : MessageQueue}
    (hq : s.queue name = some q) {k : Ref} (hk : k ∈ q.consumers) :
    Stays s ((s.send c out).shutdown c) name k ↔ timesTaken (s.removals (.shutdown c)) name (s.tagOf k) ≤
      rank s.tagOf k q.consumers ∧ s.dropsQueue q (.shutdown c) = false ∧ s.dropsConsumer k (.shutdown c) = false := by
  have hdrops : (s.send c out).dropsQueue q (.shutdown c) = s.dropsQueue q (.shutdown c) := by
    rw [dropsQueue, dropsQueue, connection_send]
    cases s.connection c <;> rfl
  have hconsumer : (s.send c out).dropsConsumer k (.shutdown c) = s.dropsConsumer k (.shutdown c) := by
    rw [dropsConsumer, dropsConsumer, connection_send]
    cases s.connection c <;> rfl
  have h := stays_shutdown_iff (c := c) (s := s.send c out) hs hq hk
  rw [removals_send, hdrops, hconsumer] at h
  exact h

section
variable {store : Option MessageStore} {userStore : UserStore} {clock : Nat → Int} {readings : Nat}

/-- Whether a consumer stays in its queue, by what is taken out of that queue under its tag, and by the id of the
    connection that ends. --/
theorem cancel_local_iff {events : List Event} {e : Event} {name : Bytes} {q : MessageQueue} {k : Ref}
    (hrun : s = (start store userStore clock readings).run events) (hends : (s.request e).ends = true)
    (hq : s.queue name = some q) (hk : k ∈ q.consumers) :
    Stays s (s.handle e) name k ↔ timesTaken (s.removals (s.request e)) name (s.tagOf k) ≤ rank s.tagOf k q.consumers ∧
      s.dropsQueue q (s.request e) = false ∧ s.dropsConsumer k (s.request e) = false := by
  have hs : Placed s := (hrun ▸ registered_run events : Registered s).isPlaced
  have hhandles := handles_request s e
  generalize s.request e = r at *
  have hdone : ∀ s', Removes (s.removals r) s s' → s.dropsQueue q r = false → s.dropsConsumer k r = false →
      (Stays s s' name k ↔ timesTaken (s.removals r) name (s.tagOf k) ≤ rank s.tagOf k q.consumers ∧
        s.dropsQueue q r = false ∧ s.dropsConsumer k r = false) := fun s' hremoves hdrops hconsumer => by
    rw [hremoves.stays_iff hs hq hk, hdrops, hconsumer]
    simp
  cases hhandles with
  | @method c num m conn ch hconn hreading hch h =>
    cases m with
    | basicCancel tag bits =>
      rw [h, act]
      refine hdone _ ?_ rfl rfl
      split
      · exact removes_cancel tag bits
      · exact (removes_cancel tag bits).andThen (.of_skeleton (skeleton_sendMethodFrame ..))
    | _ => cases hends
  | closeChannel hconn hreading h =>
    refine hdone _ ?_ rfl rfl
    rcases h with h | h
    · rw [h]
      exact removes_cleanupChannel
    · rw [h]
      exact removes_cleanupChannel.andThen (.of_skeleton (skeleton_sendMethodFrame ..))
  | @shutdown c h =>
    rcases h with h | ⟨out, h⟩
    · rw [h]
      exact stays_shutdown_iff hs hq hk
    · rw [h]
      exact stays_send_shutdown_iff hs out hq hk
  | openChannel hconn hreading h => cases hends
  | restart h => cases hends
  | other => cases hends

/-- Connections 1 and 2 consume from "q" under the same tag, in this order. --/
def sameTagRun : List Event :=
  Client.connect 1 ++ Client.connect 2 ++
    [Client.openChannel 1 1, Client.openChannel 2 1, Client.assertQueue 1 1 (ascii "q") false false false false [],
      Client.consume 1 1 (ascii "q") (ascii "t") false false false,
      Client.consume 2 1 (ascii "q") (ascii "t") false false false]

theorem sameTagRun_queue : ∃ q, (freshServer.run sameTagRun).queue (ascii "q") = some q ∧ q.consumers = [0, 1] := by
  have h : ((freshServer.run sameTagRun).queue (ascii "q")).any fun q => q.consumers = [0, 1] := by decide +kernel
  obtain ⟨q, hq, hall⟩ := (Option.any_eq_true _ _).mp h
  exact ⟨q, hq, by simpa using hall⟩

/-- A cancel of connection 1 takes its own consumer, and that of connection 2 stays. --/
theorem cancel_of_first_consumer :
    Stays (freshServer.run sameTagRun) ((freshServer.run sameTagRun).handle (Client.cancel 1 1 (ascii "t"))) (ascii "q") 1 := by
  obtain ⟨q, hq, hconsumers⟩ := sameTagRun_queue
  have hrequest : ((freshServer.run sameTagRun).request (Client.cancel 1 1 (ascii "t"))).isMethod 1 1 (fun _ => true) = true := by
    decide +kernel
  obtain ⟨m, hm, -⟩ := eq_method_of_isMethod hrequest
  refine (cancel_local_iff rfl ?_ hq (hconsumers ▸ by decide)).mpr ⟨?_, ?_, ?_⟩
  · decide +kernel
  · rw [hconsumers]
    decide +kernel
  · exact congrArg (dropsQueue _ q) hm
  · exact congrArg (dropsConsumer _ 1) hm

/-- A cancel of connection 2 takes the consumer of connection 1. --/
theorem cancel_takes_first_consumer :
    let s := freshServer.run sameTagRun
    let e := Client.cancel 2 1 (ascii "t")
    (s.request e).ends = true ∧ (∃ q, s.queue (ascii "q") = some q ∧ q.consumers = [0, 1]) ∧
      (s.request e).concerns (s.consumer 0).connection_id (s.consumer 0).channel_id = false ∧
      ¬Stays s (s.handle e) (ascii "q") 0 := by
  intro s e
  refine ⟨by decide +kernel, sameTagRun_queue, by decide +kernel, ?_⟩
  rintro ⟨q, hq, hmem, -⟩
  have h : ((s.handle e).queue (ascii "q")).any (fun q => q.consumers = [1]) = true := by decide +kernel
  rw [hq, Option.any_some, decide_eq_true_iff] at h
  rw [h] at hmem
  cases List.mem_singleton.mp hmem

end

end AmqpServer
end Broko.Broker
