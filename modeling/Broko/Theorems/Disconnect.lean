import Broko.Theorems.Cancel

/-! The end of a connection, seen from a queue that the connection neither owns nor consumes from nor holds messages of.
    The queue can still lose a consumer to a stale tag of the connection, it can go because nobody consumes from it, a
    message object that it shares with another queue can get marked, and it can be that of a connection with the same id. -/

namespace Broko.Broker
open Amqp Storage MessageStore FirstMatch

namespace AmqpServer

/-- The connection is there and was not shut down. --/
def isLive (s : AmqpServer) (c : Nat) : Bool := (s.connection c).any fun conn => conn.state ≠ .CLOSED

/-- The message objects of a channel that go back to a queue when it is closed. --/
def requeues (s : AmqpServer) (ch : Channel) : List Ref :=
  (ch.unackedMessages.entries.filter fun e => (s.queue e.2.queue_name).isSome).map fun e => e.2.message

/-- Those of all channels of a connection. --/
def requeuedBy (s : AmqpServer) (c : Nat) : List Ref :=
  match s.connection c with
  | none => []
  | some conn => conn.channels.entries.flatMap fun e => s.requeues e.2

/-- The queue is as it was, with its bindings, messages and consumers. --/
structure Unchanged (s s' : AmqpServer) (name : Bytes) (q : MessageQueue) : Prop where
  queue : s'.queue name = some q
  bindings : ∀ exchange, (s'.bindingsOf exchange).filter (fun b => b.queue_name = name) =
    (s.bindingsOf exchange).filter fun b => b.queue_name = name
  messages : ∀ r ∈ q.messages, s'.message r = s.message r
  consumers : ∀ k ∈ q.consumers, s'.consumer k = s.consumer k

variable {c : Nat} {num : UInt16} {s s' : AmqpServer} {name : Bytes} {q : MessageQueue}

/-! ### Operations on other queues -/

/-- The message, marked if it is one of these. --/
def marked (rs : List Ref) (r : Ref) (m : Message) : Message := if r ∈ rs then { m with redelivered := true } else m

/-- The queue stays as it is, and of the messages there are only these get marked. --/
structure Spares (name : Bytes) (q : MessageQueue) (rs : List Ref) (s s' : AmqpServer) : Prop where
  queue : s'.queue name = some q
  size : s.heap.size ≤ s'.heap.size
  messages : ∀ r, r < s.heap.size → s'.message r = marked rs r (s.message r)
  consumers : ∀ k ∈ q.consumers, s'.consumer k = s.consumer k
  exchanges : s'.exchanges = s.exchanges

namespace Spares

variable {rs rs₁ rs₂ : List Ref} {s₁ s₂ : AmqpServer}

theorem trans (h₁ : Spares name q rs₁ s s₁) (h₂ : Spares name q rs₂ s₁ s₂) : Spares name q (rs₁ ++ rs₂) s s₂ := by
  refine ⟨h₂.queue, h₁.size.trans h₂.size, fun r hr => ?_, fun k hk => (h₂.consumers k hk).trans (h₁.consumers k hk),
    h₂.exchanges.trans h₁.exchanges⟩
  rw [h₂.messages r (hr.trans_le h₁.size), h₁.messages r hr]
  by_cases hr₁ : r ∈ rs₁ <;> by_cases hr₂ : r ∈ rs₂ <;> simp [marked, hr₁, hr₂]

theorem of_eq (hq : s.queue name = some q) (hqueues : s'.queues = s.queues) (hheap : s'.heap = s.heap)
    (hconsumers : s'.consumerHeap = s.consumerHeap) (hexchanges : s'.exchanges = s.exchanges) : Spares name q [] s s' := by
  refine ⟨?_, hheap ▸ le_rfl, fun r _ => ?_, fun k _ => ?_, hexchanges⟩
  · rw [AmqpServer.queue, hqueues]
    exact hq
  · rw [message, hheap]
    rfl
  · rw [consumer, hconsumers]
    rfl

theorem refl (hq : s.queue name = some q) : Spares name q [] s s := of_eq hq rfl rfl rfl rfl

theorem andThen (h₁ : Spares name q rs s s₁) (h₂ : Spares name q [] s₁ s₂) : Spares name q rs s s₂ := by
  have h := h₁.trans h₂
  rwa [List.append_nil] at h

theorem modifyQueue (hq : s.queue name = some q) {name' : Bytes} (hne : name ≠ name') (f : MessageQueue → MessageQueue) :
    Spares name q [] s (s.modifyQueue name' f) := by
  refine ⟨?_, le_rfl, fun _ _ => rfl, fun _ _ => rfl, rfl⟩
  rw [AmqpServer.queue, AmqpServer.modifyQueue, Assoc.lookup_modify_of_ne hne]
  exact hq

theorem modifyConsumer (hq : s.queue name = some q) {k : Ref} (hk : k ∉ q.consumers) (f : Consumer → Consumer) :
    Spares name q [] s (s.modifyConsumer k f) := by
  refine ⟨hq, le_rfl, fun _ _ => rfl, fun k' hk' => consumer_modifyConsumer_of_ne ?_ f, rfl⟩
  rintro rfl
  exact hk hk'

theorem modifyConnection (hq : s.queue name = some q) (c : Nat) (f : Connection → Connection) :
    Spares name q [] s (s.modifyConnection c f) :=
  of_eq hq rfl rfl rfl rfl

theorem modifyChannel (hq : s.queue name = some q) (c : Nat) (num : UInt16) (f : Channel → Channel) :
    Spares name q [] s (s.modifyChannel c num f) :=
  of_eq hq rfl rfl rfl rfl

theorem onDeliver (hq : s.queue name = some q) (k taken : Ref) : Spares name q [] s (s.onDeliver k taken) := by
  rw [AmqpServer.onDeliver]
  split
  · exact refl hq
  · refine ⟨hq, Nat.le_succ _, fun r hr => ?_, fun _ _ => rfl, rfl⟩
    exact congrArg Cell.msg (Heap.cell_alloc_of_ne (Nat.ne_of_lt hr))

theorem handOver (hq : s.queue name = some q) {name' : Bytes} (hne : name ≠ name') {k : Ref} (hk : k ∉ q.consumers)
    (head : Ref) (idx : Nat) : Spares name q [] s (s.handOver name' k head idx) := by
  rw [AmqpServer.handOver]
  have htaken := modifyQueue hq hne fun q => { q with messages := q.messages.tail, roundRobinIdx := idx }
  split
  · exact htaken.trans (onDeliver htaken.queue _ _)
  · have hcredit := modifyConsumer htaken.queue hk fun c => { c with in_flight := c.in_flight + 1 }
    exact (htaken.trans hcredit).trans (onDeliver hcredit.queue _ _)

end Spares

theorem Placed.notMem (hs : Placed s) (hq : s.queue name = some q) {name' : Bytes} {q' : MessageQueue}
    (hq' : s.queue name' = some q') (hne : name ≠ name') {k : Ref} (hk : k ∈ q'.consumers) : k ∉ q.consumers :=
  fun hmem => hne (((hs name q hq).2 k hmem).symm.trans ((hs name' q' hq').2 k hk))

theorem Placed.of_skeleton (hs : Placed s) (h : s'.skeleton = s.skeleton) : Placed s' := (Removes.of_skeleton h).placed hs

namespace Spares

theorem dispatchLoop {name' : Bytes} (hne : name ≠ name') (turns : Nat) (s : AmqpServer) (hs : Placed s)
    (hq : s.queue name = some q) : Spares name q [] s (dispatchLoop name' turns s) := by
  induction turns generalizing s with
  | zero => exact refl hq
  | succ turns ih =>
    rw [AmqpServer.dispatchLoop]
    split
    · exact refl hq
    · rename_i q' hq'
      split
      · exact refl hq
      · split
        · exact modifyQueue hq hne _
        · rename_i k idx hpick
          have hk : k ∉ q.consumers := hs.notMem hq hq' hne (pickConsumer_eq_some hpick).1
          have hover := fun head => handOver hq hne hk head idx
          exact (hover _).trans (ih _ (hs.of_skeleton (skeleton_handOver ..)) (hover _).queue)

theorem dispatchLocked {name' : Bytes} (hne : name ≠ name') (hs : Placed s) (hq : s.queue name = some q) :
    Spares name q [] s (s.dispatchLocked name') := by
  rw [AmqpServer.dispatchLocked]
  split
  · exact refl hq
  · split
    · exact refl hq
    · exact dispatchLoop hne _ s hs hq

theorem modifyMessage (hq : s.queue name = some q) (r : Ref) :
    Spares name q [r] s (s.modifyMessage r fun m => { m with redelivered := true }) := by
  refine ⟨hq, le_rfl, fun r' _ => ?_, fun _ _ => rfl, rfl⟩
  rw [marked, message, AmqpServer.modifyMessage]
  split
  · rename_i h
    rw [List.mem_singleton.mp h, Heap.cell_modify_self]
    rfl
  · rename_i h
    rw [Heap.cell_modify_of_ne (fun heq => h (List.mem_singleton.mpr heq))]
    rfl

/-- A message goes back to another queue. --/
theorem requeue {name' : Bytes} (hne : name ≠ name') (hs : Placed s) (hq : s.queue name = some q) (r : Ref) :
    Spares name q [r] s (s.reject name' true r) := by
  rw [reject, if_pos rfl]
  have hmark := modifyMessage hq r
  have hfront := modifyQueue hmark.queue hne fun q => { q with messages := r :: q.messages }
  refine (hmark.andThen hfront).andThen (dispatchLocked hne ?_ hfront.queue)
  refine hs.of_skeleton (Eq.trans (skeleton_modifyQueue ?_) (skeleton_modifyMessage ..))
  exact fun _ => rfl

theorem releaseCredit (hq : s.queue name = some q) {u : UnackedMessage} (hu : ∀ k, u.consumer = some k → k ∉ q.consumers) :
    Spares name q [] s (s.releaseCredit u) := by
  rw [AmqpServer.releaseCredit]
  split
  · exact refl hq
  · rename_i k hk
    exact modifyConsumer hq (hu k hk) _

theorem removeConsumer (hs : Placed s) (hq : s.queue name = some q) {name' tag : Bytes}
    (htag : name' = name → ∀ k ∈ q.consumers, s.tagOf k ≠ tag) : Spares name q [] s (s.removeConsumer name' tag) := by
  rw [AmqpServer.removeConsumer]
  split
  · exact refl hq
  · rename_i q' hq'
    split
    · exact refl hq
    · rename_i k hk
      have hmem : k ∈ q'.consumers := List.mem_of_find?_eq_some hk
      have hne : name ≠ name' := by
        rintro rfl
        obtain rfl := Option.some.inj (hq.symm.trans hq')
        have hfound := List.find?_some hk
        exact htag rfl k hmem (of_decide_eq_true hfound)
      have hclear := modifyConsumer hq (hs.notMem hq hq' hne hmem) fun c => { c with on_deliver := none }
      exact hclear.trans (modifyQueue hclear.queue hne _)

end Spares

/-! ### The channels of the connection -/

/-- No consumer of the queue carries the id of the connection. --/
def Elsewhere (s : AmqpServer) (c : Nat) (q : MessageQueue) : Prop :=
  ∀ k ∈ q.consumers, idOf (s.consumer k).connection_id ≠ idOf c

theorem spares_requeueAll (us : List UnackedMessage) (s : AmqpServer) (hs : Placed s) (hq : s.queue name = some q)
    (hus : ∀ u ∈ us, u.queue_name ≠ name ∧ ∀ k, u.consumer = some k → k ∉ q.consumers) :
    Spares name q ((us.filter fun u => (s.queue u.queue_name).isSome).map UnackedMessage.message) s
      (us.foldl (fun s u => (s.releaseCredit u).rejectIfThere true u) s) := by
  induction us generalizing s with
  | nil => exact .refl hq
  | cons u us ih =>
    obtain ⟨hne, hcredit⟩ := hus u List.mem_cons_self
    have hskeleton : ((s.releaseCredit u).rejectIfThere true u).skeleton = s.skeleton :=
      (skeleton_rejectIfThere true u).trans (skeleton_releaseCredit u)
    have hthere := (Removes.of_skeleton hskeleton).isSome_queue
    have hfirst : Spares name q (([u].filter fun u => (s.queue u.queue_name).isSome).map UnackedMessage.message) s
        ((s.releaseCredit u).rejectIfThere true u) := by
      have hrelease := Spares.releaseCredit hq hcredit
      have hqueue : (s.releaseCredit u).queue u.queue_name = s.queue u.queue_name := by
        rw [releaseCredit]
        split <;> rfl
      rw [rejectIfThere, hqueue]
      cases hthere : s.queue u.queue_name with
      | none => simpa [hthere] using hrelease
      | some q' =>
        have hback := Spares.requeue (Ne.symm hne) (hs.of_skeleton (skeleton_releaseCredit u)) hrelease.queue u.message
        simpa [hthere] using hrelease.trans hback
    have hrest := ih _ (hs.of_skeleton hskeleton) hfirst.queue fun u' hu' => hus u' (List.mem_cons_of_mem _ hu')
    simp only [hthere] at hrest
    have h := hfirst.trans hrest
    rw [← List.map_append, ← List.filter_append] at h
    exact h

theorem spares_removeConsumers (l : List (Bytes × Ref)) (s : AmqpServer) (hs : Placed s) (hq : s.queue name = some q)
    (hl : ∀ e ∈ l, (s.consumer e.2).queue_name = name → ∀ k ∈ q.consumers, s.tagOf k ≠ e.1) :
    Spares name q [] s (l.foldl (fun s (e : Bytes × Ref) => s.removeConsumer (s.consumer e.2).queue_name e.1) s) := by
  induction l generalizing s with
  | nil => exact .refl hq
  | cons e l ih =>
    have hremoves := removes_removeConsumer (s := s) (s.consumer e.2).queue_name e.1
    have hfirst := Spares.removeConsumer hs hq (hl e List.mem_cons_self)
    refine hfirst.trans (ih _ (hremoves.placed hs) hfirst.queue fun e' he' hname k hk => ?_)
    rw [hremoves.queue_name] at hname
    rw [hremoves.tagOf]
    exact hl e' (List.mem_cons_of_mem _ he') hname k hk

/-- The channel has nothing to do with the queue. --/
structure Aloof (s : AmqpServer) (name : Bytes) (q : MessageQueue) (ch : Channel) : Prop where
  tags : ∀ k ∈ q.consumers, s.tagOf k ∉ tagsAt (s.held ch) name
  unacked : ∀ e ∈ ch.unackedMessages.entries, e.2.queue_name ≠ name ∧ ∀ k, e.2.consumer = some k → k ∉ q.consumers

theorem mem_tagsAt {rs : List (Bytes × Bytes)} {tag : Bytes} : tag ∈ tagsAt rs name ↔ (name, tag) ∈ rs := by
  simp only [tagsAt, List.mem_map, List.mem_filter, decide_eq_true_eq, Prod.exists]
  constructor
  · rintro ⟨_, _, ⟨hmem, rfl⟩, rfl⟩
    exact hmem
  · exact fun hmem => ⟨name, tag, ⟨hmem, rfl⟩, rfl⟩

theorem spares_closeChannel (hs : Placed s) (hq : s.queue name = some q) {ch : Channel} (hch : s.channel c num = some ch)
    (haloof : Aloof s name q ch) : Spares name q (s.requeues ch) s (s.closeChannel c num) := by
  have hclosed : (s.modifyChannel c num fun ch => { ch with isOpen := false }).channel c num =
      some { ch with isOpen := false } := by
    rw [channel_modifyChannel_self, hch]
    rfl
  rw [closeChannel, removeAllConsumers, hclosed]
  dsimp only
  have hmark := Spares.modifyChannel hq c num fun ch => { ch with isOpen := false }
  generalize hs₁ : (s.modifyChannel c num fun ch => { ch with isOpen := false }) = s₁ at *
  have hplaced₁ : Placed s₁ := hs₁ ▸ hs
  have hgone := spares_removeConsumers ch.consumers.entries s₁ hplaced₁ hmark.queue fun e he hname k hk htag => by
    refine haloof.tags k hk (mem_tagsAt.mpr (List.mem_map.mpr ⟨e, he, ?_⟩))
    subst hs₁
    exact Prod.ext hname htag.symm
  have hremoves := removes_foldl ch.consumers.entries s₁
  have hconnections := connections_foldl_removeConsumer ch.consumers.entries s₁
  generalize ch.consumers.entries.foldl (fun s (e : Bytes × Ref) => s.removeConsumer (s.consumer e.2).queue_name e.1) s₁ =
    s₂ at *
  have hempty := Spares.modifyChannel hgone.queue c num fun ch => { ch with consumers := ∅ }
  have hunacked : (s₂.modifyChannel c num fun ch => { ch with consumers := ∅ }).unacked c num =
      ch.unackedMessages.entries.map Prod.snd := by
    have hsame : s₂.channel c num = some { ch with isOpen := false } := by
      rw [channel, connection, hconnections]
      exact hclosed
    rw [unacked, channel_modifyChannel_self, hsame]
    rfl
  have hthere : ∀ name', (s₂.queue name').isSome = (s.queue name').isSome := by
    subst hs₁
    exact hremoves.isSome_queue
  have hback := spares_requeueAll (ch.unackedMessages.entries.map Prod.snd)
    (s₂.modifyChannel c num fun ch => { ch with consumers := ∅ }) (hremoves.placed hplaced₁) hempty.queue fun u hu => by
      obtain ⟨e, he, rfl⟩ := List.mem_map.mp hu
      exact haloof.unacked e he
  rw [List.filter_map, List.map_map] at hback
  have hlist : ((ch.unackedMessages.entries.filter ((fun u : UnackedMessage =>
      ((s₂.modifyChannel c num fun ch => { ch with consumers := ∅ }).queue u.queue_name).isSome) ∘ Prod.snd)).map
        (UnackedMessage.message ∘ Prod.snd)) = s.requeues ch := by
    rw [requeues]
    exact congrArg (List.map _) (List.filter_congr fun e _ => hthere e.2.queue_name)
  rw [hlist] at hback
  rw [requeueUnackedMessages, hunacked, clearUnacked]
  exact ((((hmark.trans hgone).trans hempty).trans hback)).andThen (.modifyChannel hback.queue c num _)

theorem Aloof.congr {rs : List (Bytes × Bytes)} {ch : Channel} (h : Aloof s name q ch) (hr : Removes rs s s') :
    Aloof s' name q ch :=
  ⟨by rw [hr.tagOf, held_congr hr]; exact h.tags, h.unacked⟩

theorem requeues_congr {rs : List (Bytes × Bytes)} (hr : Removes rs s s') (ch : Channel) : s'.requeues ch = s.requeues ch := by
  simp only [requeues, hr.isSome_queue]

theorem spares_closeChannels (l : List (UInt16 × Channel)) (hl : (l.map Prod.fst).Nodup) (s : AmqpServer) (hs : Placed s)
    (hq : s.queue name = some q) (hch : ∀ e ∈ l, s.channel c e.1 = some e.2) (haloof : ∀ e ∈ l, Aloof s name q e.2) :
    Spares name q (l.flatMap fun e => s.requeues e.2) s ((l.map Prod.fst).foldl (closeChannel c) s) := by
  induction l generalizing s with
  | nil => exact .refl hq
  | cons e l ih =>
    obtain ⟨he, hl⟩ := List.nodup_cons.mp hl
    have hfirst := spares_closeChannel hs hq (hch e List.mem_cons_self) (haloof e List.mem_cons_self)
    have hremoves := removes_closeChannel (hch e List.mem_cons_self)
    have hrest := ih hl (s.closeChannel c e.1) (hremoves.placed hs) hfirst.queue
      (fun e' he' => by
        have hne : e'.1 ≠ e.1 := fun heq => he (List.mem_map.mpr ⟨e', he', heq⟩)
        rw [channel_closeChannel hne]
        exact hch e' (List.mem_cons_of_mem _ he'))
      fun e' he' => (haloof e' (List.mem_cons_of_mem _ he')).congr hremoves
    simp only [requeues_congr hremoves] at hrest
    exact hfirst.trans hrest

theorem spares_cleanupAllChannels {conn : Connection} (hs : Placed s) (hq : s.queue name = some q)
    (hconn : s.connection c = some conn) (haloof : ∀ e ∈ conn.channels.entries, Aloof s name q e.2) :
    Spares name q (s.requeuedBy c) s (s.cleanupAllChannels c) := by
  have hclose := spares_closeChannels (c := c) conn.channels.entries conn.channels.nodup s hs hq
    (fun e he => by
      rw [channel, hconn]
      exact Assoc.mem_entries.mp he) haloof
  rw [cleanupAllChannels, requeuedBy, hconn]
  exact hclose.andThen (.modifyConnection hclose.queue c _)

/-! ### The end of the connection -/

/-- What it takes for the queue to stay as it is. --/
structure LeftAlone (s : AmqpServer) (c : Nat) (name : Bytes) (q : MessageQueue) : Prop where
  /-- It is not an auto-delete queue without consumers. -/
  consumed : abandoned q = false
  /-- It is not the exclusive queue of a connection with the same id. -/
  owner : ownedBy c q = false
  /-- Nor does it have consumers of such a connection. -/
  ids : Elsewhere s c q
  /-- No consumer of the connection that is no longer in the queue has the tag of one that is. -/
  tags : ∀ k ∈ q.consumers, s.tagOf k ∉ tagsAt (s.removals (.shutdown c)) name
  /-- The message objects that go back to other queues are marked already. -/
  marks : ∀ r ∈ q.messages, r ∈ s.requeuedBy c → (s.message r).redelivered = true

theorem heap_removeConnectionQueues : (s.removeConnectionQueues c).heap = s.heap :=
  removeConnectionQueues_keeps (P := fun s' => s'.heap = s.heap) rfl
    (fun _ _ h => (heap_removeConsumersByConnection ..).trans h) fun _ _ _ h => h

theorem marked_eq_iff {rs : List Ref} {r : Ref} {m : Message} : marked rs r m = m ↔ (r ∈ rs → m.redelivered = true) := by
  rw [marked]
  split
  · rename_i h
    constructor
    · intro heq _
      rw [← heq]
    · intro hm
      have hr := hm h
      cases m
      simp only at hr
      rw [hr]
  · rename_i h
    exact ⟨fun _ hr => absurd hr h, fun _ => rfl⟩

theorem without_eq_self (h : Elsewhere s c q) : s.without c q = q := by
  have hfilter : (q.consumers.filter fun k => idOf (s.consumer k).connection_id ≠ idOf c) = q.consumers :=
    List.filter_eq_self.mpr fun k hk => decide_eq_true (h k hk)
  rw [without, hfilter]

/-- What the queue gets to see of the end of a connection whose channels leave it alone. --/
theorem unchanged_removeConnectionQueues {rs : List Ref} {s₁ : AmqpServer} (hv : QueueOk s.heap.size s.consumerHeap.size q)
    (h : Spares name q rs s s₁) (howned : ownedBy c q = false) (helse : Elsewhere s c q) (hconsumed : abandoned q = false) :
    Unchanged s (s₁.removeConnectionQueues c) name q ↔ ∀ r ∈ q.messages, r ∈ rs → (s.message r).redelivered = true := by
  have helse₁ : Elsewhere s₁ c q := fun k hk => by
    rw [h.consumers k hk]
    exact helse k hk
  have hmessage : ∀ r ∈ q.messages, (s₁.removeConnectionQueues c).message r = marked rs r (s.message r) := by
    intro r hr
    rw [message, heap_removeConnectionQueues]
    exact h.messages r (hv.messages r hr)
  obtain ⟨-, hqueue, hbindings, -⟩ := removeConnectionQueues_spec (s := s₁) c
  constructor
  · intro hunchanged r hr
    exact marked_eq_iff.mp ((hmessage r hr).symm.trans (hunchanged.messages r hr))
  · intro hmarks
    refine ⟨?_, fun exchange => ?_, fun r hr => (hmessage r hr).trans (marked_eq_iff.mpr (hmarks r hr)), fun k hk => ?_⟩
    · rw [hqueue, h.queue, Option.bind_some, without_eq_self helse₁, goesWith, howned, without_eq_self helse₁, hconsumed]
      rfl
    · rw [hbindings, List.filter_filter, bindingsOf_congr h.exchanges]
      refine List.filter_congr fun b _ => ?_
      by_cases hb : b.queue_name = name
      · simp [hb, ownsQueue, h.queue, howned]
      · simp [hb]
    · rw [consumer_removeConnectionQueues (helse₁ k hk)]
      exact h.consumers k hk

theorem unchanged_shutdown_iff (hv : Valid s) (hr : Registered s) (hq : s.queue name = some q)
    (hconsumes : ∀ k ∈ q.consumers, (s.consumer k).connection_id ≠ c)
    (hholds : ∀ num ch tag u, s.channel c num = some ch → ch.unackedMessages.lookup tag = some u → u.queue_name ≠ name) :
    Unchanged s (s.shutdown c) name q ↔ (s.isLive c = true → LeftAlone s c name q) := by
  have hsame : Unchanged s s name q := ⟨hq, fun _ => rfl, fun _ _ => rfl, fun _ _ => rfl⟩
  by_cases hlive : ∀ conn, s.connection c = some conn → conn.state = .CLOSED
  · have hnot : s.isLive c = false := by
      rw [isLive]
      cases hconn : s.connection c with
      | none => rfl
      | some conn => simp [hlive conn hconn]
    rw [shutdown_of_not_live hlive, hnot]
    exact ⟨fun _ h => (by cases h), fun _ => hsame⟩
  · push Not at hlive
    obtain ⟨conn, hconn, hopen⟩ := hlive
    have hyes : s.isLive c = true := by
      rw [isLive, hconn]
      simpa using hopen
    rw [shutdown_of_live hconn hopen]
    have hclean := removes_afterChannels hconn hopen
    -- Once no tag of the connection is one of the queue, its channels leave the queue alone.
    have hspares : (∀ k ∈ q.consumers, s.tagOf k ∉ tagsAt (s.removals (.shutdown c)) name) →
        Spares name q (s.requeuedBy c) s (s.afterChannels c) := by
      intro htags
      have hshut := Spares.modifyConnection hq c fun conn => { conn with state := .CLOSED, reading := false }
      have hcleanup := spares_cleanupAllChannels (s := s.modifyConnection c fun conn =>
        { conn with state := .CLOSED, reading := false }) hr.isPlaced hshut.queue (connection_shut hconn) fun e he => ?_
      · have hrequeued : (s.modifyConnection c fun conn => { conn with state := .CLOSED, reading := false }).requeuedBy c =
            s.requeuedBy c := by
          rw [requeuedBy, requeuedBy, connection_shut hconn, hconn]
          rfl
        rw [hrequeued] at hcleanup
        exact hshut.trans hcleanup
      · have hch : s.channel c e.1 = some e.2 := by
          rw [channel, hconn]
          exact Assoc.mem_entries.mp he
        refine ⟨fun k hk hmem => htags k hk ?_, fun u hu => ⟨?_, fun k hk hmem => ?_⟩⟩
        · rw [mem_tagsAt] at hmem ⊢
          rw [removals_of_live hconn hopen]
          exact List.mem_flatMap.mpr ⟨e, he, hmem⟩
        · exact hholds e.1 e.2 u.1 u.2 hch (Assoc.mem_entries.mp hu)
        · exact hconsumes k hmem ((hr.channel hch).unacked u.1 u.2 (Assoc.mem_entries.mp hu) k hk).2
    constructor
    · intro hunchanged _
      obtain ⟨-, hqueue, -, -⟩ := removeConnectionQueues_spec (s := s.afterChannels c) c
      have hstill := hunchanged.queue
      rw [hqueue] at hstill
      obtain ⟨q₁, hq₁, hif⟩ := Option.bind_eq_some_iff.mp hstill
      split at hif
      · cases hif
      · rename_i hgoes
        have hwithout : (s.afterChannels c).without c q₁ = q := Option.some.inj hif
        rw [goesWith, hwithout, Bool.or_eq_true, not_or, Bool.not_eq_true, Bool.not_eq_true] at hgoes
        obtain ⟨q₀, hq₀, heq⟩ := hclean.queue_eq hq₁
        obtain rfl := Option.some.inj (hq.symm.trans hq₀)
        have hconsumers : q.consumers.Sublist (eraseKeys s.tagOf q.consumers (tagsAt (s.removals (.shutdown c)) name)) := by
          have hfilter : q.consumers.Sublist q₁.consumers := by
            conv_lhs => rw [← hwithout]
            exact List.filter_sublist
          rwa [Removes.consumers_eq heq] at hfilter
        have htags : ∀ k ∈ q.consumers, s.tagOf k ∉ tagsAt (s.removals (.shutdown c)) name := fun k hk hmem =>
          ne_of_eraseKeys_eq (eraseKeys_sublist.antisymm hconsumers) hmem hk rfl
        have howned : ownedBy c q = false := (Removes.ownedBy_eq heq).symm.trans hgoes.1
        have helse : Elsewhere s c q := fun k hk => by
          have hmem : k ∈ ((s.afterChannels c).without c q₁).consumers := by rwa [hwithout]
          rw [← hclean.connection_id]
          exact of_decide_eq_true (List.mem_filter.mp hmem).2
        refine ⟨hgoes.2, howned, helse, htags, ?_⟩
        exact (unchanged_removeConnectionQueues (hv.queue hq) (hspares htags) howned helse hgoes.2).mp hunchanged
    · intro halone
      obtain ⟨hconsumed, howned, helse, htags, hmarks⟩ := halone hyes
      exact (unchanged_removeConnectionQueues (hv.queue hq) (hspares htags) howned helse hconsumed).mpr hmarks

theorem leftAlone_send (out : Outgoing) : ((s.send c out).isLive c = true → LeftAlone (s.send c out) c name q) ↔
    (s.isLive c = true → LeftAlone s c name q) := by
  have hlive : (s.send c out).isLive c = s.isLive c := by
    rw [isLive, isLive, connection_send]
    cases s.connection c <;> rfl
  have hrequeued : (s.send c out).requeuedBy c = s.requeuedBy c := by
    rw [requeuedBy, requeuedBy, connection_send]
    cases s.connection c <;> rfl
  have halone : LeftAlone (s.send c out) c name q ↔ LeftAlone s c name q := by
    constructor
    · rintro ⟨hconsumed, howned, hids, htags, hmarks⟩
      rw [removals_send] at htags
      rw [hrequeued] at hmarks
      exact ⟨hconsumed, howned, hids, htags, hmarks⟩
    · rintro ⟨hconsumed, howned, hids, htags, hmarks⟩
      rw [← removals_send out] at htags
      rw [← hrequeued] at hmarks
      exact ⟨hconsumed, howned, hids, htags, hmarks⟩
  rw [hlive, halone]

section
variable {store : Option MessageStore} {userStore : UserStore} {clock : Nat → Int} {readings : Nat}

/-- Whether the end of a connection leaves a queue as it is that the connection has nothing to do with. --/
theorem disconnect_local_iff {events : List Event} {e : Event}
    (hrun : s = (start store userStore clock readings).run events) (hrequest : s.request e = .shutdown c)
    (hq : s.queue name = some q)
    (hconsumes : ∀ k ∈ q.consumers, (s.consumer k).connection_id ≠ c)
    (hholds : ∀ num ch tag u, s.channel c num = some ch → ch.unackedMessages.lookup tag = some u → u.queue_name ≠ name) :
    Unchanged s (s.handle e) name q ↔ (s.isLive c = true → LeftAlone s c name q) := by
  have hv : Valid s := hrun ▸ valid_run valid_start events
  have hr : Registered s := hrun ▸ registered_run events
  have hhandles := handles_request s e
  rw [hrequest] at hhandles
  cases hhandles with
  | shutdown h =>
    rcases h with h | ⟨out, h⟩
    · rw [h]
      exact unchanged_shutdown_iff hv hr hq hconsumes hholds
    · have hmove : Move c (outgoingKind out) s (s.send c out) := .send out
      have hsent := unchanged_shutdown_iff (hv.move hmove) (hr.move hmove) hq hconsumes
        fun num ch tag u hch hu => hholds num ch tag u (by rwa [channel_of_skeleton (skeleton_send c out)] at hch) hu
      rw [h, ← leftAlone_send out]
      refine Iff.trans ⟨fun h => ?_, fun h => ?_⟩ hsent
      · exact ⟨h.queue, h.bindings, h.messages, h.consumers⟩
      · exact ⟨h.queue, h.bindings, h.messages, h.consumers⟩

/-- Connection 1 declares "q" and the auto-delete queue "a" and consumes from "q"; connection 2 connects. --/
def twoQueuesRun : List Event :=
  Client.connect 1 ++ Client.connect 2 ++
    [Client.openChannel 1 1, Client.openChannel 2 1, Client.assertQueue 1 1 (ascii "q") false false false false [],
      Client.assertQueue 1 1 (ascii "a") false false false true [],
      Client.consume 1 1 (ascii "q") (ascii "t") false false false]

theorem twoQueuesRun_held (num : UInt16) (ch : Channel) (tag : Nat) (u : UnackedMessage)
    (hch : (freshServer.run twoQueuesRun).channel 2 num = some ch) (hu : ch.unackedMessages.lookup tag = some u) : False := by
  have h : ((freshServer.run twoQueuesRun).connection 2).all
      (fun conn => conn.channels.entries.all fun e => e.2.unackedMessages.entries.isEmpty) = true := by decide +kernel
  obtain ⟨conn, hconn, hnum⟩ := Option.bind_eq_some_iff.mp hch
  rw [hconn, Option.all_some, List.all_eq_true] at h
  have hempty := h (num, ch) (Assoc.mem_entries.mpr hnum)
  rw [List.isEmpty_iff] at hempty
  have hmem := Assoc.mem_entries.mpr hu
  rw [hempty] at hmem
  cases hmem

/-- The end of connection 2 leaves the queue that connection 1 consumes from alone. --/
theorem disconnect_leaves_queue :
    ∃ q, (freshServer.run twoQueuesRun).queue (ascii "q") = some q ∧
      Unchanged (freshServer.run twoQueuesRun) ((freshServer.run twoQueuesRun).handle (.disconnect 2)) (ascii "q") q := by
  have h : ((freshServer.run twoQueuesRun).queue (ascii "q")).any (fun q => !ownedBy 2 q && !abandoned q &&
      decide (q.consumers = [0]) && decide (q.messages = [])) = true := by decide +kernel
  obtain ⟨q, hq, hall⟩ := (Option.any_eq_true _ _).mp h
  obtain ⟨⟨⟨howned, hconsumed⟩, hconsumers⟩, hmessages⟩ :
      ((ownedBy 2 q = false ∧ abandoned q = false) ∧ q.consumers = [0]) ∧ q.messages = [] := by simpa using hall
  refine ⟨q, hq, (disconnect_local_iff rfl rfl hq ?_ ?_).mpr fun _ => ⟨hconsumed, howned, ?_, ?_, ?_⟩⟩
  · intro k hk
    obtain rfl := List.mem_singleton.mp (hconsumers ▸ hk)
    decide +kernel
  · exact fun num ch tag u hch hu => (twoQueuesRun_held num ch tag u hch hu).elim
  · intro k hk
    obtain rfl := List.mem_singleton.mp (hconsumers ▸ hk)
    decide +kernel
  · intro k _
    have hnone : tagsAt ((freshServer.run twoQueuesRun).removals (.shutdown 2)) (ascii "q") = [] := by decide +kernel
    exact hnone ▸ List.not_mem_nil
  · rw [hmessages]
    exact nofun

/-- The end of connection 2 takes the auto-delete queue of connection 1 away, which had no consumer yet. --/
theorem disconnect_takes_queue :
    ∃ q, (freshServer.run twoQueuesRun).queue (ascii "a") = some q ∧ q.consumers = [] ∧ ownedBy 2 q = false ∧
      (∀ num ch tag u, (freshServer.run twoQueuesRun).channel 2 num = some ch → ch.unackedMessages.lookup tag = some u →
        u.queue_name ≠ ascii "a") ∧
      ¬Unchanged (freshServer.run twoQueuesRun) ((freshServer.run twoQueuesRun).handle (.disconnect 2)) (ascii "a") q := by
  have h : ((freshServer.run twoQueuesRun).queue (ascii "a")).any (fun q => decide (q.consumers = []) && !ownedBy 2 q) =
      true := by decide +kernel
  obtain ⟨q, hq, hall⟩ := (Option.any_eq_true _ _).mp h
  obtain ⟨hconsumers, howned⟩ : q.consumers = [] ∧ ownedBy 2 q = false := by simpa using hall
  refine ⟨q, hq, hconsumers, howned, fun num ch tag u hch hu => (twoQueuesRun_held num ch tag u hch hu).elim,
    fun hunchanged => ?_⟩
  have hgone : (((freshServer.run twoQueuesRun).handle (.disconnect 2)).queue (ascii "a")).isNone = true := by decide +kernel
  rw [hunchanged.queue] at hgone
  cases hgone

end

end AmqpServer
end Broko.Broker
