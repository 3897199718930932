import Broko.Theorems.Requeue

/-! The order in which the messages of a channel go back. Each of them is put in front of the queue, so that the one that
    the iteration over the unordered table comes to last is the first one of the queue. -/

namespace Broko.Broker
open Amqp Storage MessageStore FirstMatch

namespace AmqpServer

variable {c : Nat} {num : UInt16} {s s' s₁ s₂ : AmqpServer} {name : Bytes} {q : MessageQueue} {r k : Ref}
  {release closes : Bool} {us : List UnackedMessage} {u : UnackedMessage}

/-! ### One message -/

theorem eligible_congr (hk : s'.consumer k = s.consumer k)
    (hr : (s'.message r).source_connection_id = (s.message r).source_connection_id) : s'.eligible r k = s.eligible r k := by
  rw [eligible, eligible, hk, hr]

theorem source_modifyMessage (r' : Ref) :
    ((s.modifyMessage r fun m => { m with redelivered := true }).message r').source_connection_id =
      (s.message r').source_connection_id :=
  message_modifyMessage (f := fun m => { m with redelivered := true }) Message.source_connection_id (fun _ => rfl) r r'

/-- The state of a requeue before it dispatches. --/
def putBack (s : AmqpServer) (name : Bytes) (r : Ref) : AmqpServer :=
  (s.modifyMessage r fun m => { m with redelivered := true }).modifyQueue name fun q => { q with messages := r :: q.messages }

theorem queue_putBack (hq : s.queue name = some q) (r : Ref) :
    (s.putBack name r).queue name = some { q with messages := r :: q.messages } :=
  queue_modifyQueue (s := s.modifyMessage r fun m => { m with redelivered := true }) hq _

theorem eligible_putBack (r' : Ref) : (s.putBack name r').eligible r k = s.eligible r k :=
  eligible_congr rfl (source_modifyMessage r)

/-- Nobody takes the message: it is the first one of the queue. --/
theorem requeue_idle (hq : s.queue name = some q) (hidle : ∀ k ∈ q.consumers, s.eligible r k = false) :
    (∃ idx, (s.reject name true r).queue name = some { q with messages := r :: q.messages, roundRobinIdx := idx }) ∧
      (s.reject name true r).consumerHeap = s.consumerHeap ∧ (s.reject name true r).heap = (s.putBack name r).heap := by
  change (∃ idx, ((s.putBack name r).dispatchLocked name).queue name = _) ∧
    ((s.putBack name r).dispatchLocked name).consumerHeap = _ ∧ ((s.putBack name r).dispatchLocked name).heap = _
  have hfront := queue_putBack hq r
  rw [dispatchLocked, hfront]
  dsimp only
  split
  · exact ⟨⟨q.roundRobinIdx, hfront⟩, rfl, rfl⟩
  · rw [List.length_cons, dispatchLoop, hfront]
    dsimp only
    cases hpick : pickConsumer ((s.putBack name r).eligible r) q.consumers q.consumers.length q.roundRobinIdx with
    | mk receiver idx =>
      cases receiver with
      | none => exact ⟨⟨idx, queue_modifyQueue hfront _⟩, rfl, rfl⟩
      | some k =>
        obtain ⟨hk, hfit⟩ := pickConsumer_eq_some hpick
        rw [eligible_putBack, hidle k hk] at hfit
        cases hfit

/-- However the message goes back, the queue gets at most one longer. --/
theorem requeue_le (hq : s.queue name = some q) (r : Ref) :
    ∃ q', (s.reject name true r).queue name = some q' ∧ q'.messages.length ≤ q.messages.length + 1 := by
  obtain ⟨rest, hrest, hsplit⟩ := deque_locked hq (.requeue r)
  obtain ⟨q', hq', heq⟩ := Option.map_eq_some_iff.mp hrest
  obtain ⟨rfl, -⟩ := Prod.mk.inj heq
  have hlen := congrArg List.length hsplit
  rw [List.length_append, arranged, List.length_cons] at hlen
  exact ⟨q', hq', by omega⟩

/-- If somebody can take it, a message is handed out at once. --/
theorem requeue_lt (hq : s.queue name = some q) (hk : k ∈ q.consumers) (hfit : s.eligible r k = true) :
    ∃ q', (s.reject name true r).queue name = some q' ∧ q'.messages.length ≤ q.messages.length := by
  obtain ⟨rest, hrest, hsplit⟩ := deque_locked hq (.requeue r)
  obtain ⟨q', hq', heq⟩ := Option.map_eq_some_iff.mp hrest
  obtain ⟨rfl, -⟩ := Prod.mk.inj heq
  have hout : 0 < ((s.putBack name r).handed name).length := by
    rw [handed, List.length_map, handovers, queue_putBack hq r]
    dsimp only
    rw [if_neg (List.ne_nil_of_mem hk), List.length_cons, handoversLoop, queue_putBack hq r]
    dsimp only
    cases hpick : pickConsumer ((s.putBack name r).eligible r) q.consumers q.consumers.length q.roundRobinIdx with
    | mk receiver idx =>
      cases receiver with
      | none =>
        have hnone := pickConsumer_round hpick k hk
        rw [eligible_putBack, hfit] at hnone
        cases hnone
      | some k => exact Nat.succ_pos _
  have hlen := congrArg List.length hsplit
  change ([] ++ (s.putBack name r).handed name ++ q'.messages).length = (r :: q.messages).length at hlen
  rw [List.nil_append, List.length_append, List.length_cons] at hlen
  exact ⟨q', hq', by omega⟩

/-! ### The messages of a channel -/

/-- The messages that came from the queue, in order. --/
def ofQueue (name : Bytes) (us : List UnackedMessage) : List Ref :=
  (us.filter fun u => u.queue_name = name).map UnackedMessage.message

theorem ofQueue_append (us us' : List UnackedMessage) : ofQueue name (us ++ us') = ofQueue name us ++ ofQueue name us' := by
  rw [ofQueue, List.filter_append, List.map_append, ofQueue, ofQueue]

theorem ofQueue_singleton (h : u.queue_name = name) : ofQueue name [u] = [u.message] := by
  rw [ofQueue, List.filter_singleton, decide_eq_true h]
  rfl

theorem ofQueue_singleton_of_ne (h : u.queue_name ≠ name) : ofQueue name [u] = [] := by
  rw [ofQueue, List.filter_singleton, decide_eq_false h]
  rfl

/-- The credit for an entry is given back where the channel is closed. --/
def released (release : Bool) (s : AmqpServer) (u : UnackedMessage) : AmqpServer :=
  if release then s.releaseCredit u else s

/-- One message of a table goes back. --/
def giveBack (release : Bool) (s : AmqpServer) (u : UnackedMessage) : AmqpServer :=
  (s.released release u).rejectIfThere true u

/-- The credit for these entries is given back. --/
def credited (release : Bool) (s : AmqpServer) (us : List UnackedMessage) : AmqpServer := us.foldl (released release) s

/-- None of the consumers can take one of the messages of the queue, with the credit of the entries up to it. --/
def StaysIdle (release : Bool) (name : Bytes) (ks : List Ref) (s : AmqpServer) (us : List UnackedMessage) : Prop :=
  ∀ before u after, us = before ++ u :: after → u.queue_name = name → ∀ k ∈ ks,
    (credited release s (before ++ [u])).eligible u.message k = false

/-- The messages of a table go back one by one, and nothing else happens to queues, consumers and messages. --/
inductive GoesBack (release : Bool) (s : AmqpServer) : List UnackedMessage → AmqpServer → Prop
  | nil : GoesBack release s [] s
  | quiet {us : List UnackedMessage} {s₁ s₂ : AmqpServer} (run : GoesBack release s us s₁) (hqueues : s₂.queues = s₁.queues)
    (hconsumers : s₂.consumerHeap = s₁.consumerHeap) (hheap : s₂.heap = s₁.heap) : GoesBack release s us s₂
  | give {us : List UnackedMessage} {s₁ : AmqpServer} (run : GoesBack release s us s₁) (u : UnackedMessage) :
    GoesBack release s (us ++ [u]) (s₁.giveBack release u)

theorem releaseCredit_congr (h : s'.consumer k = s.consumer k) (u : UnackedMessage) :
    (s'.releaseCredit u).consumer k = (s.releaseCredit u).consumer k := by
  rw [releaseCredit, releaseCredit]
  split
  · exact h
  · rename_i k' _
    by_cases hk : k = k'
    · subst hk
      have hcell : s'.consumerHeap.cell k = s.consumerHeap.cell k := h
      rw [consumer, consumer, modifyConsumer, modifyConsumer, Heap.cell_modify_self, Heap.cell_modify_self, hcell]
    · rw [consumer_modifyConsumer_of_ne hk, consumer_modifyConsumer_of_ne hk, h]

theorem released_congr (h : s'.consumer k = s.consumer k) (u : UnackedMessage) :
    (s'.released release u).consumer k = (s.released release u).consumer k := by
  rw [released, released]
  split
  · exact releaseCredit_congr h u
  · exact h

theorem credited_congr (h : s'.consumer k = s.consumer k) (us : List UnackedMessage) :
    (credited release s' us).consumer k = (credited release s us).consumer k := by
  induction us generalizing s s' with
  | nil => exact h
  | cons u us ih => exact ih (released_congr h u)

theorem credited_append (us : List UnackedMessage) (u : UnackedMessage) :
    credited release s (us ++ [u]) = (credited release s us).released release u := List.foldl_concat ..

theorem queue_released (release : Bool) (u : UnackedMessage) (name : Bytes) :
    (s.released release u).queue name = s.queue name := by
  rw [released]
  split
  · rw [releaseCredit]
    split <;> rfl
  · rfl

theorem heap_released (release : Bool) (u : UnackedMessage) : (s.released release u).heap = s.heap := by
  rw [released]
  split
  · exact heap_releaseCredit u
  · rfl

theorem skeleton_released (release : Bool) (u : UnackedMessage) : (s.released release u).skeleton = s.skeleton := by
  rw [released]
  split
  · exact skeleton_releaseCredit u
  · rfl

theorem heap_credited (us : List UnackedMessage) : (credited release s us).heap = s.heap :=
  List.foldlRecOn (motive := fun s' : AmqpServer => s'.heap = s.heap) us _ rfl
    fun _ h u _ => (heap_released release u).trans h

/-! ### All of them -/

/-- What holds of the queue however the messages went back. --/
structure Reached (name : Bytes) (q : MessageQueue) (s s' : AmqpServer) : Prop where
  placed : Placed s'
  size : s.heap.size ≤ s'.heap.size
  queue : ∃ q', s'.queue name = some q' ∧ q'.consumers = q.consumers

/-- The messages are in the queue again, the last one first, and its consumers have what credit was given back. --/
structure Restored (release : Bool) (name : Bytes) (q : MessageQueue) (us : List UnackedMessage) (s s' : AmqpServer) :
    Prop where
  queue : ∃ q', s'.queue name = some q' ∧ q'.consumers = q.consumers ∧ q'.messages = (ofQueue name us).reverse ++ q.messages
  consumers : ∀ k ∈ q.consumers, s'.consumer k = (credited release s us).consumer k
  sources : ∀ r < s.heap.size, (s'.message r).source_connection_id = (s.message r).source_connection_id

/-- Some message has left the queue. --/
def Short (name : Bytes) (q : MessageQueue) (us : List UnackedMessage) (s' : AmqpServer) : Prop :=
  ∃ q', s'.queue name = some q' ∧ q'.messages.length < (ofQueue name us).length + q.messages.length

theorem StaysIdle.of_append {ks : List Ref} {us' : List UnackedMessage} (h : StaysIdle release name ks s (us ++ us')) :
    StaysIdle release name ks s us := fun before u after hus hname k hk =>
  h before u (after ++ us') (by rw [hus, List.append_assoc, List.cons_append]) hname k hk

theorem StaysIdle.append {ks : List Ref} (h : StaysIdle release name ks s us)
    (hu : u.queue_name = name → ∀ k ∈ ks, (credited release s (us ++ [u])).eligible u.message k = false) :
    StaysIdle release name ks s (us ++ [u]) := by
  intro before u' after hus hname k hk
  rcases List.eq_nil_or_concat after with rfl | ⟨after, z, rfl⟩
  · obtain ⟨rfl, hu'⟩ := List.append_inj' hus rfl
    obtain rfl := List.singleton_inj.mp hu'
    exact hu hname k hk
  · rw [List.concat_eq_append, ← List.cons_append, ← List.append_assoc] at hus
    exact h before u' after (List.append_inj' hus rfl).1 hname k hk

theorem skeleton_giveBack (release : Bool) (u : UnackedMessage) : (s.giveBack release u).skeleton = s.skeleton := by
  rw [giveBack, skeleton_rejectIfThere, skeleton_released]

theorem size_giveBack (release : Bool) (u : UnackedMessage) : s.heap.size ≤ (s.giveBack release u).heap.size := by
  have hlocked : ∀ s₁ : AmqpServer, s₁.heap.size ≤ (s₁.reject u.queue_name true u.message).heap.size :=
    fun s₁ => (SamePriorities.locked (.requeue u.message) : SamePriorities s₁ (s₁.locked u.queue_name _)).size
  rw [giveBack, rejectIfThere, ← heap_released (s := s) release u]
  split
  · exact le_rfl
  · exact hlocked _

theorem Reached.giveBack (h : Reached name q s s') (u : UnackedMessage) : Reached name q s (s'.giveBack release u) := by
  obtain ⟨q', hq', hconsumers⟩ := h.queue
  obtain ⟨q₁, hq₁, hframe⟩ := queue_of_skeleton (skeleton_giveBack release u) hq'
  have hsame : q₁.frame.consumers = q'.frame.consumers := by rw [hframe]
  exact ⟨h.placed.of_skeleton (skeleton_giveBack release u), h.size.trans (size_giveBack release u), q₁, hq₁,
    hsame.trans hconsumers⟩

/-- A message of the queue goes back to it. --/
theorem giveBack_own (hq : s.queue name = some q) (hname : u.queue_name = name) :
    s.giveBack release u = (s.released release u).reject name true u.message := by
  rw [giveBack, rejectIfThere, hname, queue_released, hq]

/-- A message of another queue goes back to that. --/
theorem spares_giveBack (hs : Placed s) (hq : s.queue name = some q) (hname : u.queue_name ≠ name) :
    Spares name q [u.message] (s.released release u) (s.giveBack release u) ∨
      s.giveBack release u = s.released release u := by
  have hq' : (s.released release u).queue name = some q := (queue_released release u name).trans hq
  have hs' : Placed (s.released release u) := hs.of_skeleton (skeleton_released release u)
  rw [giveBack, rejectIfThere]
  split
  · exact .inr rfl
  · exact .inl (.requeue (Ne.symm hname) hs' hq' u.message)

theorem Short.giveBack (h : Short name q us s') (u : UnackedMessage) : Short name q (us ++ [u]) (s'.giveBack release u) := by
  obtain ⟨q', hq', hlt⟩ := h
  by_cases hname : u.queue_name = name
  · rw [giveBack_own hq' hname, Short, ofQueue_append, ofQueue_singleton hname, List.length_append, List.length_singleton]
    obtain ⟨q₁, hq₁, hle⟩ := requeue_le ((queue_released release u name).trans hq') u.message
    exact ⟨q₁, hq₁, by omega⟩
  · rw [Short, ofQueue_append, ofQueue_singleton_of_ne hname, List.append_nil]
    refine ⟨q', ?_, hlt⟩
    rw [AmqpServer.giveBack, rejectIfThere]
    split
    · exact (queue_released release u name).trans hq'
    · exact (queue_requeue_of_ne (Ne.symm hname) _).trans ((queue_released release u name).trans hq')

namespace Restored

theorem source_released (h : Restored release name q us s s') (hr : r < s.heap.size) :
    ((s'.released release u).message r).source_connection_id = (s.message r).source_connection_id := by
  rw [message, heap_released, ← message, h.sources r hr]

theorem eligible_released (h : Restored release name q us s s') (hk : k ∈ q.consumers) (hu : u.message < s.heap.size) :
    (s'.released release u).eligible u.message k = (credited release s (us ++ [u])).eligible u.message k := by
  refine eligible_congr ?_ ?_
  · rw [credited_append]
    exact released_congr (h.consumers k hk) u
  · rw [h.source_released hu, message, message, heap_credited]

/-- One more message is put in front, and nobody can take it. --/
theorem own (h : Restored release name q us s s') (hname : u.queue_name = name) (hu : u.message < s.heap.size)
    (hidle : ∀ k ∈ q.consumers, (credited release s (us ++ [u])).eligible u.message k = false) :
    Restored release name q (us ++ [u]) s (s'.giveBack release u) := by
  obtain ⟨q', hq', hconsumers, hmessages⟩ := h.queue
  rw [giveBack_own hq' hname]
  obtain ⟨⟨idx, hqueue⟩, hheap, hmarked⟩ := requeue_idle ((queue_released release u name).trans hq') fun k hk => by
    rw [hconsumers] at hk
    rw [h.eligible_released hk hu, hidle k hk]
  refine ⟨⟨_, hqueue, hconsumers, ?_⟩, fun k hk => ?_, fun r hr => ?_⟩
  · rw [ofQueue_append, ofQueue_singleton hname, List.reverse_append, List.reverse_singleton, List.singleton_append,
      List.cons_append, ← hmessages]
  · rw [consumer, hheap, ← consumer, credited_append]
    exact released_congr (h.consumers k hk) u
  · rw [message, hmarked, ← message, putBack]
    exact (source_modifyMessage r).trans (h.source_released hr)

/-- Somebody can take it. --/
theorem short (h : Restored release name q us s s') (hname : u.queue_name = name) (hu : u.message < s.heap.size)
    (hk : k ∈ q.consumers) (hfit : (credited release s (us ++ [u])).eligible u.message k = true) :
    Short name q (us ++ [u]) (s'.giveBack release u) := by
  obtain ⟨q', hq', hconsumers, hmessages⟩ := h.queue
  rw [giveBack_own hq' hname, Short, ofQueue_append, ofQueue_singleton hname, List.length_append, List.length_singleton]
  rw [← h.eligible_released hk hu] at hfit
  obtain ⟨q₁, hq₁, hle⟩ := requeue_lt ((queue_released release u name).trans hq') (hconsumers ▸ hk) hfit
  rw [hmessages, List.length_append, List.length_reverse] at hle
  exact ⟨q₁, hq₁, by omega⟩

/-- A message goes back to another queue. --/
theorem other (h : Restored release name q us s s') (hs : Reached name q s s') (hname : u.queue_name ≠ name) :
    Restored release name q (us ++ [u]) s (s'.giveBack release u) := by
  obtain ⟨q', hq', hconsumers, hmessages⟩ := h.queue
  have hmark : ∀ rs r m, (marked rs r m).source_connection_id = m.source_connection_id := by
    intro rs r m
    rw [marked]
    split <;> rfl
  have hspares : Spares name q' [u.message] (s'.released release u) (s'.giveBack release u) ∨
      s'.giveBack release u = s'.released release u := spares_giveBack hs.placed hq' hname
  have hqueue : (s'.giveBack release u).queue name = some q' := by
    rcases hspares with hspares | heq
    · exact hspares.queue
    · rw [heq, queue_released, hq']
  have hcells : ∀ k ∈ q.consumers, (s'.giveBack release u).consumer k = (s'.released release u).consumer k := by
    intro k hk
    rcases hspares with hspares | heq
    · exact hspares.consumers k (hconsumers ▸ hk)
    · rw [heq]
  have hsource : ∀ r < s.heap.size, ((s'.giveBack release u).message r).source_connection_id =
      (s'.message r).source_connection_id := by
    intro r hr
    rcases hspares with hspares | heq
    · rw [hspares.messages r (by rw [heap_released]; exact hr.trans_le hs.size), hmark, message, heap_released, ← message]
    · rw [heq, message, heap_released, ← message]
  refine ⟨⟨q', hqueue, hconsumers, ?_⟩, fun k hk => ?_, fun r hr => (hsource r hr).trans (h.sources r hr)⟩
  · rw [ofQueue_append, ofQueue_singleton_of_ne hname, List.append_nil, hmessages]
  · rw [hcells k hk, credited_append]
    exact released_congr (h.consumers k hk) u

end Restored

/-- Either nobody could take any of the messages, and they are all in front; or somebody could, and one is missing. --/
theorem GoesBack.cases (hrun : GoesBack release s us s') (hs : Placed s) (hq : s.queue name = some q)
    (hus : ∀ u ∈ us, u.message < s.heap.size) :
    Reached name q s s' ∧ (StaysIdle release name q.consumers s us ∧ Restored release name q us s s' ∨
      ¬StaysIdle release name q.consumers s us ∧ Short name q us s') := by
  induction hrun with
  | nil =>
    refine ⟨⟨hs, le_rfl, q, hq, rfl⟩, .inl ⟨fun before u after hus => ?_, ⟨q, hq, rfl, rfl⟩, fun _ _ => rfl, fun _ _ => rfl⟩⟩
    cases List.append_ne_nil_of_right_ne_nil before (List.cons_ne_nil u after) hus.symm
  | @quiet us s₁ s₂ run hqueues hconsumers hheap ih =>
    obtain ⟨hreached, hcases⟩ := ih hus
    have hqueue : s₂.queue name = s₁.queue name := by rw [queue, queue, hqueues]
    have hplaced : Placed s₂ := (Removes.of_eq hqueues hconsumers).placed hreached.placed
    refine ⟨⟨hplaced, hheap ▸ hreached.size, hqueue ▸ hreached.queue⟩, ?_⟩
    rcases hcases with ⟨hidle, hrestored⟩ | ⟨hbusy, hshort⟩
    · refine .inl ⟨hidle, hqueue ▸ hrestored.queue, fun k hk => ?_, fun r hr => ?_⟩
      · rw [consumer, hconsumers]
        exact hrestored.consumers k hk
      · rw [message, hheap]
        exact hrestored.sources r hr
    · exact .inr ⟨hbusy, by rw [Short, hqueue]; exact hshort⟩
  | @give us s₁ run u ih =>
    obtain ⟨hreached, hcases⟩ := ih fun u' hu' => hus u' (List.mem_append_left _ hu')
    refine ⟨hreached.giveBack u, ?_⟩
    rcases hcases with ⟨hidle, hrestored⟩ | ⟨hbusy, hshort⟩
    · by_cases hname : u.queue_name = name
      · by_cases hnow : ∀ k ∈ q.consumers, (credited release s (us ++ [u])).eligible u.message k = false
        · exact .inl ⟨hidle.append fun _ => hnow,
            hrestored.own hname (hus u (List.mem_append_right _ List.mem_cons_self)) hnow⟩
        · refine .inr ⟨fun h => hnow (h us u [] rfl hname), ?_⟩
          push Not at hnow
          obtain ⟨k, hk, hfit⟩ := hnow
          exact hrestored.short hname (hus u (List.mem_append_right _ List.mem_cons_self)) hk (Bool.eq_true_of_not_eq_false hfit)
      · exact .inl ⟨hidle.append fun h => absurd h hname, hrestored.other hreached hname⟩
    · exact .inr ⟨fun h => hbusy h.of_append, hshort.giveBack u⟩

/-- The messages are in front in an order of their own exactly if nobody could take any of them and the order is that of
    the table turned round. --/
theorem GoesBack.restores_iff (hrun : GoesBack release s us s') (hs : Placed s) (hq : s.queue name = some q)
    (hus : ∀ u ∈ us, u.message < s.heap.size) {ms : List Ref} (hms : ms.length = (ofQueue name us).length) :
    (∃ q', s'.queue name = some q' ∧ q'.messages = ms ++ q.messages) ↔
      (ofQueue name us).reverse = ms ∧ StaysIdle release name q.consumers s us := by
  obtain ⟨-, ⟨hidle, hrestored⟩ | ⟨hbusy, hshort⟩⟩ := hrun.cases hs hq hus
  · obtain ⟨q', hq', -, hmessages⟩ := hrestored.queue
    constructor
    · rintro ⟨q₁, hq₁, hm⟩
      obtain rfl := Option.some.inj (hq'.symm.trans hq₁)
      exact ⟨List.append_cancel_right (hmessages.symm.trans hm), hidle⟩
    · rintro ⟨rfl, -⟩
      exact ⟨q', hq', hmessages⟩
  · obtain ⟨q', hq', hlt⟩ := hshort
    constructor
    · rintro ⟨q₁, hq₁, hm⟩
      obtain rfl := Option.some.inj (hq'.symm.trans hq₁)
      rw [hm, List.length_append, hms] at hlt
      exact absurd hlt (Nat.lt_irrefl _)
    · exact fun h => absurd h.2 hbusy

/-! ### The ways back -/

theorem GoesBack.foldl (hrun : GoesBack release s us s₁) (us' : List UnackedMessage) :
    GoesBack release s (us ++ us') (us'.foldl (giveBack release) s₁) := by
  induction us' generalizing us s₁ with
  | nil => rwa [List.append_nil]
  | cons u us' ih =>
    have h := ih (hrun.give u)
    rwa [List.append_assoc, List.singleton_append] at h

theorem returns_handleBasicRecover {buf rest : Buffer} {bits : UInt8} (hread : readUint8 buf = .ok (bits, rest))
    (hrequeue : hasBit bits 0x01 = true) :
    GoesBack false s (s.unacked c num) (outcome (s.handleBasicRecover c num buf)) := by
  rw [handleBasicRecover_eq hread, if_pos hrequeue]
  exact (GoesBack.nil.foldl (s.unacked c num)).quiet rfl rfl rfl

theorem returns_settle (l : List (Nat × UnackedMessage)) (hl : (l.map Prod.fst).Nodup) (hrun : GoesBack false s us s₁)
    (hlook : ∀ e ∈ l, ((s₁.channel c num).bind fun ch => ch.unackedMessages.lookup e.1) = some e.2) :
    GoesBack false s (us ++ l.map Prod.snd) ((l.map Prod.fst).foldl (settle c num (rejectUnacked true)) s₁) := by
  induction l generalizing us s₁ with
  | nil =>
    rw [List.map_nil, List.append_nil]
    exact hrun
  | cons e l ih =>
    obtain ⟨he, hl⟩ := List.nodup_cons.mp hl
    have hsettle : settle c num (rejectUnacked true) s₁ e.1 = (s₁.giveBack false e.2).eraseUnacked c num e.1 := by
      rw [settle, hlook e List.mem_cons_self]
      rfl
    have hnext : GoesBack false s (us ++ [e.2]) (settle c num (rejectUnacked true) s₁ e.1) := by
      rw [hsettle]
      exact (hrun.give e.2).quiet rfl rfl rfl
    have h := ih hl hnext fun e' he' => by
      have hne : e'.1 ≠ e.1 := fun heq => he (List.mem_map.mpr ⟨e', he', heq⟩)
      rw [hsettle, eraseUnacked, channel_modifyChannel_self, channel_of_skeleton (skeleton_giveBack false e.2),
        ← hlook e' (List.mem_cons_of_mem _ he')]
      cases s₁.channel c num with
      | none => rfl
      | some ch => exact Assoc.lookup_erase_of_ne hne
    rw [List.append_assoc] at h
    exact h

theorem unacked_of_channel {ch : Channel} (hch : s.channel c num = some ch) :
    s.unacked c num = ch.unackedMessages.entries.map Prod.snd := by
  rw [unacked, hch]

theorem returns_handleBasicNack {buf rest : Buffer} {deliveryTag : UInt64} {bits : UInt8} {ch : Channel}
    (hch : s.channel c num = some ch) (hread : readSettleArgs buf = .ok ((deliveryTag, bits), rest))
    (hmultiple : hasBit bits 0x01 = true) (hrequeue : hasBit bits 0x02 = true)
    (hall : ∀ e ∈ ch.unackedMessages.entries, e.1 ≤ deliveryTag.toNat) :
    GoesBack false s (s.unacked c num) (outcome (s.handleBasicNack c num buf)) := by
  have htags : s.settledTags c num deliveryTag (hasBit bits 0x01) = ch.unackedMessages.entries.map Prod.fst := by
    rw [settledTags, if_pos hmultiple, hch]
    refine List.filter_eq_self.mpr fun tag htag => ?_
    obtain ⟨e, he, rfl⟩ := List.mem_map.mp htag
    exact decide_eq_true (hall e he)
  rw [handleBasicNack, withArgs_ok hread, unacked_of_channel hch, outcome]
  dsimp only
  rw [htags, hrequeue]
  refine returns_settle ch.unackedMessages.entries ch.unackedMessages.nodup .nil fun e he => ?_
  rw [hch]
  exact Assoc.mem_entries.mp he

/-! ### The close of a channel -/

/-- What taking a consumer out of a queue leaves alone. --/
structure Leaves (s s' : AmqpServer) : Prop where
  heap : s'.heap = s.heap
  messages : ∀ name, (s'.queue name).map MessageQueue.messages = (s.queue name).map MessageQueue.messages
  in_flight : ∀ k, (s'.consumer k).in_flight = (s.consumer k).in_flight

theorem leaves_removeConsumer (name tag : Bytes) : Leaves s (s.removeConsumer name tag) := by
  rw [removeConsumer]
  split
  · exact ⟨rfl, fun _ => rfl, fun _ => rfl⟩
  · split
    · exact ⟨rfl, fun _ => rfl, fun _ => rfl⟩
    · rename_i k _
      refine ⟨rfl, fun name' => ?_, Heap.cell_modify_congr (f := fun c : Consumer => { c with on_deliver := none })
        Consumer.in_flight fun _ => rfl⟩
      rw [queue, modifyQueue, Assoc.lookup_modify]
      split
      · rename_i h
        rw [h, Option.map_map]
        rfl
      · rfl

theorem leaves_removeConsumers (l : List (Bytes × Ref)) (s : AmqpServer) :
    Leaves s (l.foldl (fun s (e : Bytes × Ref) => s.removeConsumer (s.consumer e.2).queue_name e.1) s) := by
  induction l generalizing s with
  | nil => exact ⟨rfl, fun _ => rfl, fun _ => rfl⟩
  | cons e l ih =>
    have hfirst : Leaves s (s.removeConsumer (s.consumer e.2).queue_name e.1) := leaves_removeConsumer ..
    have hrest := ih (s.removeConsumer (s.consumer e.2).queue_name e.1)
    exact ⟨hrest.heap.trans hfirst.heap, fun name => (hrest.messages name).trans (hfirst.messages name),
      fun k => (hrest.in_flight k).trans (hfirst.in_flight k)⟩

theorem eq_of_fixed {x y : Consumer} (h : x.fixed = y.fixed) (hcredit : x.in_flight = y.in_flight)
    (hcall : x.on_deliver = y.on_deliver) : x = y := by
  cases x
  cases y
  cases hcredit
  cases hcall
  cases h
  rfl

/-- The state in which the messages of a closing channel go back: its consumers are out of their queues. --/
theorem exists_returns_closeChannel {ch : Channel} (hs : Placed s) (hch : s.channel c num = some ch)
    (hq : s.queue name = some q) :
    ∃ t qt, GoesBack true t (s.unacked c num) (s.closeChannel c num) ∧ Placed t ∧ t.heap = s.heap ∧
      t.queue name = some qt ∧ qt.messages = q.messages ∧
      qt.consumers = eraseKeys s.tagOf q.consumers (tagsAt (s.held ch) name) ∧
      ∀ k ∈ qt.consumers, t.consumer k = s.consumer k := by
  have hclosed : (s.modifyChannel c num fun ch => { ch with isOpen := false }).channel c num =
      some { ch with isOpen := false } := by
    rw [channel_modifyChannel_self, hch]
    rfl
  have hmark : Removes [] s (s.modifyChannel c num fun ch => { ch with isOpen := false }) := .modifyChannel ..
  have hall := removes_foldl ch.consumers.entries (s.modifyChannel c num fun ch => { ch with isOpen := false })
  have hleaves := leaves_removeConsumers ch.consumers.entries (s.modifyChannel c num fun ch => { ch with isOpen := false })
  have hconnections := connections_foldl_removeConsumer ch.consumers.entries
    (s.modifyChannel c num fun ch => { ch with isOpen := false })
  rw [closeChannel, removeAllConsumers, hclosed]
  dsimp only
  generalize ch.consumers.entries.foldl (fun s (e : Bytes × Ref) => s.removeConsumer (s.consumer e.2).queue_name e.1)
    (s.modifyChannel c num fun ch => { ch with isOpen := false }) = t at *
  have hremoves : Removes (s.held ch) s t := hmark.after hall
  have hplaced : Placed t := hremoves.placed hs
  obtain ⟨qt, hqt, hmessages⟩ : ∃ qt, t.queue name = some qt ∧ qt.messages = q.messages := by
    have h := hleaves.messages name
    change _ = (s.queue name).map _ at h
    rwa [hq, Option.map_some, Option.map_eq_some_iff] at h
  obtain ⟨q₁, hq₁, hframe⟩ := hremoves.queue_eq hqt
  obtain rfl := Option.some.inj (hq.symm.trans hq₁)
  have hunacked : (t.modifyChannel c num fun ch => { ch with consumers := ∅ }).unacked c num = s.unacked c num := by
    have hsame : t.channel c num = some { ch with isOpen := false } := by
      rw [channel, connection, hconnections, ← connection, ← channel, hclosed]
    rw [unacked_of_channel hch, unacked, channel_modifyChannel_self, hsame]
    rfl
  have hgone : GoesBack true (t.modifyChannel c num fun ch => { ch with consumers := ∅ }) (s.unacked c num)
      ((t.modifyChannel c num fun ch => { ch with consumers := ∅ }).requeueUnackedMessages c num) := by
    rw [← hunacked]
    exact (GoesBack.nil.foldl _).quiet rfl rfl rfl
  refine ⟨_, qt, hgone, (Removes.modifyChannel ..).placed hplaced, hleaves.heap, hqt, hmessages,
    Removes.consumers_eq hframe, fun k hk => ?_⟩
  exact eq_of_fixed (hremoves.fixed k) (hleaves.in_flight k) (hremoves.kept hs name qt hqt k hk)

/-! ### The order -/

/-- All messages of the channel go back at once; the flag says that the channel is closed for it. --/
inductive RequeuesAll (c : Nat) (num : UInt16) (s : AmqpServer) : Bool → AmqpServer → Prop
  | nack {buf rest : Buffer} {deliveryTag : UInt64} {bits : UInt8} {ch : Channel} (hch : s.channel c num = some ch)
    (hread : readSettleArgs buf = .ok ((deliveryTag, bits), rest)) (hmultiple : hasBit bits 0x01 = true)
    (hrequeue : hasBit bits 0x02 = true) (hall : ∀ e ∈ ch.unackedMessages.entries, e.1 ≤ deliveryTag.toNat) :
    RequeuesAll c num s false (outcome (s.handleBasicNack c num buf))
  | recover {buf rest : Buffer} {bits : UInt8} (hread : readUint8 buf = .ok (bits, rest))
    (hrequeue : hasBit bits 0x01 = true) : RequeuesAll c num s false (outcome (s.handleBasicRecover c num buf))
  | close : RequeuesAll c num s true (s.closeChannel c num)

/-- The consumers that a queue has when the messages go back: without those of a channel that is closed. --/
def consumersLeft (closes : Bool) (s : AmqpServer) (ch : Channel) (name : Bytes) (q : MessageQueue) : List Ref :=
  if closes then eraseKeys s.tagOf q.consumers (tagsAt (s.held ch) name) else q.consumers

theorem idle_congr {ks : List Ref} (hks : ∀ k ∈ ks, s'.consumer k = s.consumer k) (hheap : s'.heap = s.heap) :
    StaysIdle release name ks s' us ↔ StaysIdle release name ks s us := by
  have heq : ∀ us' r, ∀ k ∈ ks, (credited release s' us').eligible r k = (credited release s us').eligible r k := by
    intro us' r k hk
    refine eligible_congr (credited_congr (hks k hk) us') ?_
    rw [message, message, heap_credited, heap_credited, hheap]
  constructor
  · exact fun h before u after hus hname k hk => (heq _ _ k hk).symm.trans (h before u after hus hname k hk)
  · exact fun h before u after hus hname k hk => (heq _ _ k hk).trans (h before u after hus hname k hk)

theorem RequeuesAll.restores_iff (h : RequeuesAll c num s closes s') (hv : Valid s) (hs : Placed s) {ch : Channel}
    (hch : s.channel c num = some ch) (hq : s.queue name = some q) {ms : List Ref}
    (hms : ms.length = (ofQueue name (s.unacked c num)).length) :
    (∃ q', s'.queue name = some q' ∧ q'.messages = ms ++ q.messages) ↔
      (ofQueue name (s.unacked c num)).reverse = ms ∧
        StaysIdle closes name (consumersLeft closes s ch name q) s (s.unacked c num) := by
  have hlt : ∀ u ∈ s.unacked c num, u.message < s.heap.size := fun u hu => lt_of_mem_unacked hv hu
  cases h with
  | nack hch' hread hmultiple hrequeue hall =>
    exact (returns_handleBasicNack hch' hread hmultiple hrequeue hall).restores_iff hs hq hlt hms
  | recover hread hrequeue => exact (returns_handleBasicRecover hread hrequeue).restores_iff hs hq hlt hms
  | close =>
    obtain ⟨t, qt, hrun, hplaced, hheap, hqt, hmessages, hleft, hcells⟩ := exists_returns_closeChannel hs hch hq
    rw [← hmessages, hrun.restores_iff hplaced hqt (hheap ▸ hlt) hms, idle_congr hcells hheap, hleft]
    rfl

/-- The entries of a table in the order in which they were taken. --/
def Taken (ch : Channel) (taken : List (Nat × UnackedMessage)) : Prop :=
  taken.Perm ch.unackedMessages.entries ∧ taken.Pairwise fun a b => a.1 < b.1

/-- Messages that nobody can take come back in the order in which they were taken from a queue, exactly if the iteration
    over the table goes from the last one to the first one and, where the channel is closed, none of the consumers that the
    queue has left gets credit for one of them. --/
theorem requeue_restores_iff {store : Option MessageStore} {userStore : UserStore} {clock : Nat → Int} {readings : Nat}
    {events : List Event} {ch : Channel} {taken : List (Nat × UnackedMessage)}
    (hrun : s = (start store userStore clock readings).run events) (hch : s.channel c num = some ch)
    (hq : s.queue name = some q) (htaken : Taken ch taken)
    (hidle : ∀ u ∈ s.unacked c num, u.queue_name = name → ∀ k ∈ q.consumers, s.eligible u.message k = false)
    (h : RequeuesAll c num s closes s') :
    (∃ q', s'.queue name = some q' ∧ q'.messages = ofQueue name (taken.map Prod.snd) ++ q.messages) ↔
      (ofQueue name (s.unacked c num)).reverse = ofQueue name (taken.map Prod.snd) ∧
        (closes = true → StaysIdle true name (consumersLeft true s ch name q) s (s.unacked c num)) := by
  have hv : Valid s := hrun ▸ valid_run valid_start events
  have hs : Placed s := (hrun ▸ registered_run events : Registered s).isPlaced
  have hlen : (ofQueue name (taken.map Prod.snd)).length = (ofQueue name (s.unacked c num)).length := by
    rw [unacked_of_channel hch]
    exact (((htaken.1.map Prod.snd).filter _).map _).length_eq
  rw [h.restores_iff hv hs hch hq hlen]
  refine and_congr_right fun _ => ?_
  cases closes with
  | true => exact ⟨fun h _ => h, fun h => h rfl⟩
  | false =>
    have hsame : ∀ us : List UnackedMessage, credited false s us = s := fun us =>
      List.foldlRecOn (motive := fun s' : AmqpServer => s' = s) us _ rfl fun _ h _ _ => h
    refine iff_of_true (fun before u after hus hname k hk => ?_) nofun
    rw [hsame]
    exact hidle u (hus ▸ List.mem_append_right _ List.mem_cons_self) hname k hk

/-- A client holds two messages of a queue without consumers. --/
def twoHeldRun : List Event :=
  Client.connect 1 ++ [Client.openChannel 1 1, Client.assertQueue 1 1 (ascii "q") false false false false []] ++
    Client.sendToQueue 1 1 (ascii "q") (ascii "a") {} ++ Client.sendToQueue 1 1 (ascii "q") (ascii "b") {} ++
    [Client.get 1 1 (ascii "q") false, Client.get 1 1 (ascii "q") false]

/-- The same, with a table that is iterated from the second message to the first one. --/
def twoHeldBack : List Event := twoHeldRun ++ [.reorderUnacked 1 1 [2, 1]]

theorem twoHeldBack_channel : ∃ ch, (freshServer.run twoHeldBack).channel 1 1 = some ch ∧
    Taken ch ch.unackedMessages.entries.reverse := by
  have htags : ((freshServer.run twoHeldBack).channel 1 1).map (fun ch => ch.unackedMessages.entries.map Prod.fst) =
      some [2, 1] := by decide +kernel
  obtain ⟨ch, hch, htags⟩ := Option.map_eq_some_iff.mp htags
  refine ⟨ch, hch, List.reverse_perm _, ?_⟩
  rw [← List.pairwise_map (f := Prod.fst) (R := fun a b => a < b), List.map_reverse, htags]
  decide

theorem requeue_restores_twoHeld : ∃ ch q, (freshServer.run twoHeldBack).channel 1 1 = some ch ∧
    (freshServer.run twoHeldBack).queue (ascii "q") = some q ∧
    ((∃ q', ((freshServer.run twoHeldBack).closeChannel 1 1).queue (ascii "q") = some q' ∧
        q'.messages = ofQueue (ascii "q") (ch.unackedMessages.entries.reverse.map Prod.snd) ++ q.messages) ↔
      (ofQueue (ascii "q") ((freshServer.run twoHeldBack).unacked 1 1)).reverse =
          ofQueue (ascii "q") (ch.unackedMessages.entries.reverse.map Prod.snd) ∧
        (true = true → StaysIdle true (ascii "q") (consumersLeft true (freshServer.run twoHeldBack) ch (ascii "q") q)
          (freshServer.run twoHeldBack) ((freshServer.run twoHeldBack).unacked 1 1))) := by
  obtain ⟨ch, hch, htaken⟩ := twoHeldBack_channel
  have hqueue : ((freshServer.run twoHeldBack).queue (ascii "q")).map MessageQueue.consumers = some [] := by decide +kernel
  obtain ⟨q, hq, hnone⟩ := Option.map_eq_some_iff.mp hqueue
  refine ⟨ch, q, hch, hq, requeue_restores_iff rfl hch hq htaken (fun _ _ _ k hk => ?_) .close⟩
  rw [hnone] at hk
  cases hk

/-- A table that is iterated from the first message to the second one: they come back the other way round. --/
theorem requeue_reverses : ∃ ch, (freshServer.run twoHeldRun).channel 1 1 = some ch ∧
    Taken ch ch.unackedMessages.entries ∧
    ((freshServer.run twoHeldRun).queue (ascii "q")).map (fun q => (q.messages, q.consumers, q.maxPriority)) =
      some ([], [], 0) ∧
    ofQueue (ascii "q") (ch.unackedMessages.entries.map Prod.snd) = [0, 1] ∧
    RequeuesAll 1 1 (freshServer.run twoHeldRun) false
      (outcome ((freshServer.run twoHeldRun).handleBasicRecover 1 1 (Buffer.ofBytes [1]))) ∧
    ((outcome ((freshServer.run twoHeldRun).handleBasicRecover 1 1 (Buffer.ofBytes [1]))).queue (ascii "q")).map
      MessageQueue.messages = some [1, 0] := by
  have htags : ((freshServer.run twoHeldRun).channel 1 1).map (fun ch => (ch.unackedMessages.entries.map Prod.fst,
      ofQueue (ascii "q") (ch.unackedMessages.entries.map Prod.snd))) = some ([1, 2], [0, 1]) := by decide +kernel
  obtain ⟨ch, hch, heq⟩ := Option.map_eq_some_iff.mp htags
  obtain ⟨htags, hmessages⟩ := Prod.mk.inj heq
  have hread : readUint8 (Buffer.ofBytes [1]) = .ok (1, ⟨1, []⟩) := rfl
  refine ⟨ch, hch, ⟨.refl _, ?_⟩, by decide +kernel, hmessages, .recover hread rfl, by decide +kernel⟩
  rw [← List.pairwise_map (f := Prod.fst) (R := fun a b => a < b), htags]
  decide

end AmqpServer
end Broko.Broker
