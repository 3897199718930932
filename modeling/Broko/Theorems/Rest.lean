import Broko.Theorems.Consistency
import Broko.Theorems.Deliveries
import Broko.Theorems.Multiple
import Broko.Theorems.Requeue

/-! Queues at rest. A queue is at rest if no consumer can take its first message. Every operation that dispatches a queue
    leaves it at rest, and none of them disturbs another queue: it only uses credit up. So after a round of the timer every
    queue is at rest, and each of them stays so until credit is given back or a first message is taken away. -/

namespace Broko.Broker
open Amqp Storage MessageStore

/-- The consumer is as it was, or without its callback. --/
def Consumer.Loses (new old : Consumer) : Prop := new = old ∨ new.on_deliver = none

namespace AmqpServer

variable {c : Nat} {num : UInt16} {s s₁ s' : AmqpServer} {name name' : Bytes} {r k : Ref} {idx : Nat}
  {store : Option MessageStore} {userStore : UserStore} {clock : Nat → Int} {readings : Nat}

/-- No consumer of the queue can take its first message. --/
def AtRest (name : Bytes) (s : AmqpServer) : Prop :=
  ∀ q head rest, s.queue name = some q → q.messages = head :: rest → ∀ k ∈ q.consumers, s.eligible head k = false

/-! ### Credit is used up -/

/-- What a consumer can take afterwards it could take before. --/
def Tightens (s s' : AmqpServer) : Prop :=
  ∀ head k, head < s.heap.size → s'.eligible head k = true → s.eligible head k = true

theorem Tightens.of (hmessage : ∀ r < s.heap.size, (s'.message r).source_connection_id = (s.message r).source_connection_id)
    (hconsumer : ∀ k, (s'.consumer k).Loses (s.consumer k)) : Tightens s s' := by
  intro head k hhead h
  rw [eligible, hmessage head hhead] at h
  rw [eligible]
  rcases hconsumer k with heq | hnone
  · rwa [heq] at h
  · rw [hnone] at h
    cases h

/-- A message keeps its source. --/
theorem source_move {k : Kind} (hm : Move c k s s') {r : Ref} (hr : r < s.heap.size) :
    (s'.message r).source_connection_id = (s.message r).source_connection_id := by
  rcases message_of_move hm hr with heq | ⟨-, ⟨f, hf, rfl⟩ | ⟨q, name, reason, -, -, rfl⟩⟩
  · rw [heq]
  · refine message_modifyMessage Message.source_connection_id (fun m => ?_) r r
    have hframe : (f m).frame.source_connection_id = m.frame.source_connection_id := by rw [hf]
    exact hframe
  · exact message_modifyMessage Message.source_connection_id
      (fun m => show (deathHeaders name reason m).source_connection_id = m.source_connection_id from rfl) r r

theorem loses_modifyConsumer (k' k : Ref) :
    ((s.modifyConsumer k' fun c => { c with on_deliver := none }).consumer k).Loses (s.consumer k) := by
  by_cases h : k = k'
  · subst h
    rw [consumer_modifyConsumer_self]
    exact .inr rfl
  · exact .inl (consumer_modifyConsumer_of_ne h _)

theorem loses_foldl (l : List Ref) (s : AmqpServer) (k : Ref) :
    ((l.foldl (fun s k => s.modifyConsumer k fun c => { c with on_deliver := none }) s).consumer k).Loses (s.consumer k) := by
  induction l generalizing s with
  | nil => exact .inl rfl
  | cons k' l ih =>
    rcases ih (s.modifyConsumer k' fun c => { c with on_deliver := none }) with heq | hnone
    · rw [List.foldl_cons, heq]
      exact loses_modifyConsumer k' k
    · exact .inr hnone

theorem tightens_handOver {taken : Ref} (he : s.eligible taken k = true) (hsource : ∀ r < s.heap.size,
      ((s.handOver name k taken idx).message r).source_connection_id = (s.message r).source_connection_id) :
    Tightens s (s.handOver name k taken idx) := by
  intro head k' hhead h
  rw [eligible, hsource head hhead] at h
  rw [eligible]
  by_cases hk : k' = k
  · subst hk
    -- The consumer had credit for the message that it took; nothing else that counts is changed.
    have hsame : (s.handOver name k' taken idx).consumer k' = { s.consumer k' with
        in_flight := ((s.handOver name k' taken idx).consumer k').in_flight } := by
      rw [handOver, consumer_onDeliver]
      split
      · rfl
      · rw [consumer_modifyConsumer_self]
        rfl
    rw [hsame] at h
    rw [eligible] at he
    simp only [Bool.and_eq_true] at h he ⊢
    exact ⟨⟨h.1.1, he.1.2⟩, h.2⟩
  · rwa [consumer_handOver_of_ne hk] at h

/-- The kinds of moves that neither give credit back nor make consumers. --/
def tighteningKinds : List Kind :=
  [.queue, .enqueue, .requeue, .take, .purge, .create, .store, .oversize, .output, .confirm, .deliver, .pending, .handshake,
    .hold, .remove, .unregister, .openChannel, .closeChannel, .topology, .task, .server]

theorem tightens_move {k : Kind} (hk : k ∈ tighteningKinds) (hm : Move c k s s') : Tightens s s' := by
  have hsame : ∀ {s' : AmqpServer}, s'.consumerHeap = s.consumerHeap → ∀ k, (s'.consumer k).Loses (s.consumer k) :=
    fun h k => .inl (by rw [consumer, h, consumer])
  have hof : (∀ k, (s'.consumer k).Loses (s.consumer k)) → Tightens s s' := .of fun r hr => source_move hm hr
  have hsource : ∀ r < s.heap.size, (s'.message r).source_connection_id = (s.message r).source_connection_id :=
    fun r hr => source_move hm hr
  cases hm with
  | handOver idx hq hhead hmem he => exact tightens_handOver he hsource
  | purge name =>
    refine hof (hsame ?_)
    rw [AmqpServer.purge]
    split <;> rfl
  | store m hw hid hq hd hp hfit =>
    refine hof (hsame ?_)
    rw [storeMessage]
    split <;> rfl
  | oversize m hw hid hq hd hp hfit =>
    refine hof (hsame ?_)
    rw [storeMessage]
    split <;> rfl
  | removeConsumer name tag =>
    refine hof fun k => ?_
    rw [AmqpServer.removeConsumer]
    split
    · exact .inl rfl
    · split
      · exact .inl rfl
      · exact loses_modifyConsumer _ k
  | removeConsumersByConnection name =>
    refine hof fun k => ?_
    rw [AmqpServer.removeConsumersByConnection]
    split
    · exact .inl rfl
    · exact loses_foldl _ s k
  | send out => exact hof (hsame rfl)
  | note num f hf hn => exact hof (hsame rfl)
  | releaseCredit u => exact absurd hk (by decide)
  | eraseUnacked num tag => exact absurd hk (by decide)
  | clearUnacked num => exact absurd hk (by decide)
  | settle u hu => exact absurd hk (by decide)
  | newConsumer k hid => exact absurd hk (by decide)
  | mapConsumer num tag k counter => exact absurd hk (by decide)
  | addConsumer name k => exact absurd hk (by decide)
  | _ => exact hof (hsame rfl)

theorem Tightens.refl : Tightens s s := fun _ _ _ h => h

theorem Tightens.trans (h : Tightens s s₁) (hle : s.heap.size ≤ s₁.heap.size) (h' : Tightens s₁ s') : Tightens s s' :=
  fun head k hhead hfit => h head k hhead (h' head k (hhead.trans_le hle) hfit)

theorem tightens_does {K : List Kind} (hv : Valid s) (h : Does c K s s') (hK : ∀ k ∈ K, k ∈ tighteningKinds) :
    Tightens s s' := by
  have hkeep := (h.moves hv).keeps (P := fun s' => s.heap.size ≤ s'.heap.size ∧ Tightens s s') ?_ ⟨le_rfl, .refl⟩
  · exact hkeep.2
  · intro k hk s₁ s₂ hm hs₁
    exact ⟨hs₁.1.trans (heap_le_of_move hm), hs₁.2.trans hs₁.1 (tightens_move (hK k hk) hm)⟩

/-! ### Keeping queues at rest -/

/-- What a queue that has changed has in common with what it was: it has no messages, or the same ones for some of the same
    consumers. --/
def Shrinks (name : Bytes) (s s' : AmqpServer) : Prop :=
  ∀ q', s'.queue name = some q' → q'.messages = [] ∨
    ∃ q, s.queue name = some q ∧ q'.messages = q.messages ∧ ∀ k ∈ q'.consumers, k ∈ q.consumers

theorem Shrinks.of_queue (h : s'.queue name = s.queue name) : Shrinks name s s' := fun q' hq' =>
  .inr ⟨q', h ▸ hq', rfl, fun _ h => h⟩

theorem Shrinks.of_queues (h : s₁.queues = s.queues) (h' : Shrinks name s₁ s') : Shrinks name s s' := by
  have hqueue : s₁.queue name = s.queue name := by rw [queue, h, queue]
  intro q' hq'
  rw [← hqueue]
  exact h' q' hq'

theorem AtRest.mono (h : AtRest name s) (hv : Valid s) (ht : Tightens s s') (hq : Shrinks name s s') : AtRest name s' := by
  intro q' head rest hq' hm k hk
  rcases hq q' hq' with hnil | ⟨q, hq, hmessages, hconsumers⟩
  · rw [hnil] at hm
    cases hm
  · rw [hmessages] at hm
    have hhead : head < s.heap.size := (hv.queue hq).messages head (hm ▸ List.mem_cons_self)
    have hwas := h q head rest hq hm k (hconsumers k hk)
    by_contra hfit
    rw [ht head k hhead (Bool.eq_true_of_not_eq_false hfit)] at hwas
    cases hwas

/-- Queues at rest stay so. --/
structure Rests (s s' : AmqpServer) : Prop where
  valid : Valid s'
  heap_le : s.heap.size ≤ s'.heap.size
  rest : ∀ name, AtRest name s → AtRest name s'

namespace Rests

theorem refl (hv : Valid s) : Rests s s := ⟨hv, le_rfl, fun _ h => h⟩

theorem trans (h : Rests s s₁) (h' : Rests s₁ s') : Rests s s' :=
  ⟨h'.valid, h.heap_le.trans h'.heap_le, fun name hname => h'.rest name (h.rest name hname)⟩

theorem of_move {k : Kind} (hv : Valid s) (hm : Move c k s s') (hk : k ∈ tighteningKinds) (hq : ∀ name, Shrinks name s s') :
    Rests s s' :=
  ⟨hv.move hm, heap_le_of_move hm, fun name hrest => hrest.mono hv (tightens_move hk hm) (hq name)⟩

theorem foldl {α : Type} {f : AmqpServer → α → AmqpServer} (hf : ∀ s, Valid s → ∀ a, Rests s (f s a)) (hv : Valid s)
    (l : List α) : Rests s (l.foldl f s) := by
  induction l generalizing s with
  | nil => exact refl hv
  | cons a l ih => exact (hf s hv a).trans (ih (hf s hv a).valid)

/-- A fold over message objects. --/
theorem foldl_refs {α : Type} {f : AmqpServer → α → AmqpServer} (ref : α → Ref) {l : List α}
    (hf : ∀ s, Valid s → ∀ a ∈ l, ref a < s.heap.size → Rests s (f s a)) (hv : Valid s) (hl : ∀ a ∈ l, ref a < s.heap.size) :
    Rests s (l.foldl f s) := by
  induction l generalizing s with
  | nil => exact refl hv
  | cons a l ih =>
    have hone := hf s hv a List.mem_cons_self (hl a List.mem_cons_self)
    refine hone.trans (ih (fun s hv b hb => hf s hv b (List.mem_cons_of_mem _ hb)) hone.valid fun b hb => ?_)
    exact (hl b (List.mem_cons_of_mem _ hb)).trans_le hone.heap_le

/-- The kinds of moves that touch no queue but for purging, removing or making it. --/
def calmKinds : List Kind :=
  [.purge, .create, .store, .oversize, .output, .confirm, .deliver, .pending, .handshake, .hold, .remove, .unregister,
    .openChannel, .closeChannel, .topology, .task, .server]

theorem shrinks_modifyQueue (name name' : Bytes) {f : MessageQueue → MessageQueue}
    (hf : ∀ q, (f q).messages = [] ∨ (f q).messages = q.messages ∧ ∀ k ∈ (f q).consumers, k ∈ q.consumers) :
    Shrinks name s (s.modifyQueue name' f) := by
  intro q' hq'
  by_cases h : name = name'
  · subst h
    rw [queue, AmqpServer.modifyQueue, Assoc.lookup_modify_self] at hq'
    obtain ⟨q, hq, rfl⟩ := Option.map_eq_some_iff.mp hq'
    exact (hf q).imp_right fun hsame => ⟨q, hq, hsame⟩
  · rw [queue_modifyQueue_of_ne h] at hq'
    exact .inr ⟨q', hq', rfl, fun _ h => h⟩

theorem shrinks_move {k : Kind} (hk : k ∈ calmKinds) (hm : Move c k s s') (name : Bytes) : Shrinks name s s' := by
  have hsame : ∀ {s₁ s₂ : AmqpServer}, s₂.queues = s₁.queues → Shrinks name s₁ s₂ := fun h => .of_queue (by rw [queue, h, queue])
  have hstored : ∀ (m : Message) (qname : Bytes),
      ((s.newMessage m).storeMessage qname s.heap.size).queues = s.queues := by
    intro m qname
    rw [storeMessage]
    split <;> rfl
  cases hm with
  | purge name' =>
    rw [AmqpServer.purge]
    split
    · exact hsame rfl
    · exact shrinks_modifyQueue name name' fun _ => .inl rfl
  | store m => exact hsame (hstored m _)
  | oversize m => exact hsame (hstored m _)
  | send out => exact hsame rfl
  | note num f hf hn => exact hsame rfl
  | removeConsumer name' tag =>
    rw [AmqpServer.removeConsumer]
    split
    · exact hsame rfl
    · split
      · exact hsame rfl
      · exact shrinks_modifyQueue name name' fun q => .inr ⟨rfl, fun k hk => List.mem_of_mem_eraseP hk⟩
  | removeConsumersByConnection name' =>
    have hfold : ∀ (l : List Ref) (s : AmqpServer),
        (l.foldl (fun s k => s.modifyConsumer k fun c => { c with on_deliver := none }) s).queues = s.queues := by
      intro l
      induction l with
      | nil => exact fun _ => rfl
      | cons k l ih => exact fun s => (ih _).trans rfl
    rw [AmqpServer.removeConsumersByConnection]
    split
    · exact hsame rfl
    · refine .of_queues (hfold _ s) (shrinks_modifyQueue name name' fun q => .inr ⟨rfl, fun k hk => ?_⟩)
      exact (List.mem_filter.mp hk).1
  | @insertQueue _ q name' hname hnew hm hk he ho =>
    intro q' hq'
    by_cases h : name = name'
    · subst h
      obtain rfl : q = q' := Option.some.inj ((Assoc.lookup_insert_self ..).symm.trans hq')
      exact .inl hm
    · exact .inr ⟨q', (Assoc.lookup_insert_of_ne h).symm.trans hq', rfl, fun _ h => h⟩
  | eraseQueue name' =>
    intro q' hq'
    by_cases h : name = name'
    · subst h
      rw [queue, Assoc.lookup_erase_self] at hq'
      cases hq'
    · exact .inr ⟨q', (Assoc.lookup_erase_of_ne h).symm.trans hq', rfl, fun _ h => h⟩
  | reorderQueues order => exact .of_queue (Assoc.lookup_reorder ..)
  | clock => exact absurd hk (by decide)
  | touch r f hf => exact absurd hk (by decide)
  | mark reason r hq hdlx => exact absurd hk (by decide)
  | letter r => exact absurd hk (by decide)
  | expire hq hm => exact absurd hk (by decide)
  | rotate name' idx => exact absurd hk (by decide)
  | handOver idx => exact absurd hk (by decide)
  | enqueue r => exact absurd hk (by decide)
  | requeue name' r => exact absurd hk (by decide)
  | take name' => exact absurd hk (by decide)
  | recoverQueue hname => exact absurd hk (by decide)
  | addConsumer name' k => exact absurd hk (by decide)
  | settle u hu => exact absurd hk (by decide)
  | releaseCredit u => exact absurd hk (by decide)
  | _ => exact hsame rfl

theorem does {K : List Kind} (hv : Valid s) (h : Does c K s s') (hK : ∀ k ∈ K, k ∈ calmKinds) : Rests s s' := by
  refine (h.moves hv).keeps (P := fun s' => Rests s s') ?_ (refl hv)
  intro k hk s₁ s₂ hm hs
  have htight : ∀ k ∈ calmKinds, k ∈ tighteningKinds := by decide
  exact hs.trans (.of_move hs.valid hm (htight k (hK k hk)) (shrinks_move (hK k hk) hm))

end Rests

/-! ### Sections of a queue -/

theorem atRest_dispatchLocked (name : Bytes) (s : AmqpServer) : AtRest name (s.dispatchLocked name) := by
  intro q' head rest hq' hm k hk
  rw [dispatchLocked] at hq' ⊢
  split at hq'
  · rename_i hnone
    rw [hnone] at hq'
    cases hq'
  · rename_i q hq
    split at hq'
    · rename_i hnil
      obtain rfl := Option.some.inj (hq.symm.trans hq')
      rw [hnil] at hk
      cases hk
    · rename_i hne
      rw [if_neg hne]
      obtain ⟨q₁, hq₁, -, hend⟩ := conserving_dispatchLoop hq le_rfl
      obtain rfl := Option.some.inj (hq₁.symm.trans hq')
      rcases hend with hnil | ⟨head', rest', hm', hall⟩
      · rw [hnil] at hm
        cases hm
      · obtain ⟨rfl, -⟩ := List.cons.inj (hm'.symm.trans hm)
        exact hall k hk

/-- A section that touches one queue, and dispatches it in the end. --/
theorem rests_section (hv : Valid s) (hv₁ : Valid s₁) (hle : s.heap.size ≤ s₁.heap.size) (ht : Tightens s s₁)
    (hother : ∀ name', name' ≠ name → s₁.queue name' = s.queue name') : Rests s (s₁.dispatchLocked name) := by
  have hdispatch := does_dispatchLocked (c := 0) (s := s₁) name
  have hmoves := hdispatch.moves hv₁
  refine ⟨hmoves.valid hv₁, hle.trans hmoves.heap_le, fun name' hrest => ?_⟩
  by_cases hname : name' = name
  · subst hname
    exact atRest_dispatchLocked name' s₁
  · refine hrest.mono hv (ht.trans hle (tightens_does hv₁ hdispatch (by decide))) (.of_queue ?_)
    exact (queue_dispatchLocked_of_ne hname).trans (hother name' hname)

theorem rests_section_of_does {K : List Kind} (hv : Valid s) (h : Does c K s s₁) (hK : ∀ k ∈ K, k ∈ tighteningKinds)
    (hother : ∀ name', name' ≠ name → s₁.queue name' = s.queue name') : Rests s (s₁.dispatchLocked name) :=
  rests_section hv ((h.moves hv).valid hv) (h.moves hv).heap_le (tightens_does hv h hK) hother

theorem queue_collectExpired_of_ne (h : name ≠ name') : (s.collectExpired name').2.queue name = s.queue name := by
  rw [collectExpired]
  split
  · rfl
  · split
    · rfl
    · exact queue_modifyQueue_of_ne h _

theorem rests_deadLetterWith {enqueue : AmqpServer → Bytes → Ref → AmqpServer}
    (henqueue : ∀ s, Valid s → ∀ name, r < s.heap.size → Rests s (enqueue s name r)) (hv : Valid s) (name reason : Bytes)
    (hr : r < s.heap.size) : Rests s (deadLetterWith enqueue name reason s r) := by
  rw [deadLetterWith]
  split
  · exact .refl hv
  · rename_i q hq
    split
    · exact .refl hv
    · rename_i hdlx
      rw [not_or] at hdlx
      have hhop : Rests s (s.modifyMessage r fun m => { m with dlx_hops := m.dlx_hops + 1 }) :=
        .of_move (c := 0) hv (.touch r _ fun _ => rfl) (by decide) fun _ => .of_queue rfl
      dsimp only
      split
      · exact hhop
      · have hmark := Rests.of_move (c := 0) hhop.valid (.mark reason r hq hdlx.1) (by decide) fun _ => .of_queue rfl
        refine (hhop.trans hmark).trans (.foldl_refs (fun _ => r) (fun s hv name _ hr => henqueue s hv name hr) hmark.valid ?_)
        exact fun _ _ => hr

/-- What has expired in the section is a dead letter after it. --/
theorem rests_expired {f : AmqpServer → Ref → AmqpServer} (hf : ∀ s, Valid s → ∀ r, r < s.heap.size → Rests s (f s r))
    (hv : Valid s₁) (h : Rests s ((s₁.collectExpired name).2.dispatchLocked name)) :
    Rests s ((s₁.collectExpired name).1.foldl f ((s₁.collectExpired name).2.dispatchLocked name)) := by
  refine h.trans (.foldl_refs id (fun s hv r _ hr => hf s hv r hr) h.valid fun r hr => ?_)
  obtain ⟨q, hq, hmem⟩ := mem_collectExpired hr
  have hlt := (hv.queue hq).messages r hmem
  have hle := (((does_collectExpired (c := 0) (s := s₁) name).trans (does_dispatchLocked name)).moves hv).heap_le
  exact hlt.trans_le hle

theorem rests_enqueueLoop (fuel : Nat) (hv : Valid s) (name : Bytes) (hr : r < s.heap.size) :
    Rests s (enqueueLoop fuel s name r) := by
  induction fuel generalizing s name r with
  | zero => exact .refl hv
  | succ fuel ih =>
    rw [enqueueLoop]
    split
    · exact .refl hv
    · rename_i q hq
      have hpush : Does 0 [.queue, .enqueue] s (s.pushBack name r) :=
        ((does_stamp r s.now).trans (.of (.enqueue r hr hq))).mono (by decide)
      refine rests_expired (fun s hv r hr => ?_) ((hpush.moves hv).valid hv) ?_
      · exact rests_deadLetterWith (fun s hv name hr => ih hv name hr) hv name _ hr
      · refine rests_section_of_does hv (hpush.trans (does_collectExpired name)) (by decide) fun name' hne => ?_
        exact (queue_collectExpired_of_ne hne).trans (queue_modifyQueue_of_ne hne _)

theorem rests_deadLetter (name reason : Bytes) (hv : Valid s) (hr : r < s.heap.size) :
    Rests s (deadLetter name reason s r) :=
  rests_deadLetterWith (fun _ hv name hr => rests_enqueueLoop _ hv name hr) hv name reason hr

theorem rests_flush (hv : Valid s) (name : Bytes) : Rests s (s.flush name) :=
  rests_expired (fun _ hv _ hr => rests_deadLetter name _ hv hr) hv
    (rests_section_of_does hv (does_collectExpired (c := 0) name) (by decide) fun _ hne => queue_collectExpired_of_ne hne)

/-- The queue that is flushed is at rest. --/
theorem atRest_flush (hv : Valid s) (name : Bytes) : AtRest name (s.flush name) := by
  have hdispatched := atRest_dispatchLocked name (s.collectExpired name).2
  have hsection := ((does_collectExpired (c := 0) (s := s) name).trans (does_dispatchLocked name)).moves hv
  refine (Rests.foldl_refs id (fun s hv r _ hr => rests_deadLetter name _ hv hr) (hsection.valid hv) ?_).rest name hdispatched
  intro r hr
  obtain ⟨q, hq, hmem⟩ := mem_collectExpired hr
  exact ((hv.queue hq).messages r hmem).trans_le hsection.heap_le

theorem atRest_foldl_flush {l : List Bytes} (hv : Valid s) {name : Bytes} (hname : name ∈ l) : AtRest name (l.foldl flush s) := by
  induction l generalizing s with
  | nil => cases hname
  | cons name' l ih =>
    have hflush := rests_flush hv name'
    rcases List.mem_cons.mp hname with rfl | hname
    · exact (Rests.foldl (fun _ hv name => rests_flush hv name) hflush.valid l).rest name (atRest_flush hv name)
    · exact ih hflush.valid hname

/-- After a round of the timer every queue is at rest. --/
theorem atRest_tick (hv : Valid s) (name : Bytes) : AtRest name s.tick := by
  intro q head rest hq
  obtain ⟨q₀, hq₀, -⟩ := queue_of_skeleton (skeleton_tick (s := s)).symm hq
  exact atRest_foldl_flush hv (Assoc.mem_keys.mpr ⟨q₀, hq₀⟩) q head rest hq

/-- Consumers that no queue has yet make no difference. --/
theorem AtRest.newConsumers (h : AtRest name s) (hv : Valid s) (hqueues : s'.queues = s.queues) (hheap : s'.heap = s.heap)
    (hconsumer : ∀ k < s.consumerHeap.size, s'.consumer k = s.consumer k) : AtRest name s' := by
  intro q head rest hq hm k hk
  rw [queue, hqueues] at hq
  have hsame : s'.consumer k = s.consumer k := hconsumer k ((hv.queue hq).consumers k hk)
  rw [eligible, hsame, message, hheap]
  exact h q head rest hq hm k hk

theorem rests_addConsumer {k : Ref} (hv : Valid s)
    (hadded : Valid (s.modifyQueue name fun q => { q with consumers := q.consumers ++ [k] })) : Rests s (s.addConsumer name k) :=
  rests_section hv hadded le_rfl (.of (fun _ _ => rfl) fun _ => .inl rfl) fun _ hne => queue_modifyQueue_of_ne hne _

theorem rests_consume (hv : Valid s) (ch : Channel) (queue tag : Bytes) (bits : UInt8) :
    Rests s (s.consume c num ch queue tag bits) := by
  rw [consume]
  generalize (if tag = [] then ch.consumerTagCounter + 1 else ch.consumerTagCounter) = counter
  generalize consumerTag c num ch tag = tag'
  have hcell : (s.consumerHeap.alloc (newConsumer c num ch queue tag' bits)).cell s.consumerHeap.size =
      newConsumer c num ch queue tag' bits := Heap.cell_alloc_self ..
  have hnew := (Does.of (c := c) (s := s) (.newConsumer (newConsumer c num ch queue tag' bits) rfl)).andThen
    (.of (.mapConsumer num tag' s.consumerHeap.size counter (Nat.lt_succ_self _) (by
      rw [consumer, hcell]
      exact ⟨rfl, rfl, rfl⟩)))
  have hmade : Rests s (({ s with consumerHeap := s.consumerHeap.alloc (newConsumer c num ch queue tag' bits) }).modifyChannel
      c num fun ch => { ch with consumerTagCounter := counter, consumers := ch.consumers.insert tag' s.consumerHeap.size }) := by
    refine ⟨(hnew.moves hv).valid hv, le_rfl, fun name hrest => hrest.newConsumers hv rfl rfl fun k hk => ?_⟩
    exact Heap.cell_alloc_of_ne (Nat.ne_of_lt hk)
  have hadd : ∀ s₁ : AmqpServer, Rests s s₁ → s₁.queues = s.queues →
      s₁.consumerHeap = s.consumerHeap.alloc (newConsumer c num ch queue tag' bits) →
      Rests s (s₁.addConsumer queue s.consumerHeap.size) := by
    intro s₁ hs₁ hqueues heap
    refine hs₁.trans (rests_addConsumer hs₁.valid (hs₁.valid.move (c := c) (.addConsumer queue _ ?_ ?_ ?_ ?_)))
    · rw [heap]
      exact Nat.lt_succ_self _
    · rw [consumer, heap, hcell]
      rfl
    · rw [consumer, heap, hcell]
      rfl
    · intro name' q hq hmem
      rw [AmqpServer.queue, hqueues] at hq
      exact Nat.lt_irrefl _ ((hv.queue hq).consumers _ hmem)
  split
  · exact hadd _ hmade rfl rfl
  · refine hadd _ (hmade.trans (.does (c := c) hmade.valid (does_sendMethodFrame (k := .output) _ _ _ rfl) ?_)) rfl rfl
    decide

/-! ### Publishing -/

theorem rests_admitted {m : Message} (hv : Valid s) (hw : m.properties.WellFormed) (hid : m.Pristine) (qname : Bytes) :
    Rests s (s.admitted m qname) := by
  have hcreate : Rests s (s.newMessage m) := .does (c := 0) hv (.of (.create m hw hid)) (by decide)
  rw [admitted]
  split
  · exact hcreate
  · rename_i q hq
    split
    · rename_i h
      rw [Bool.and_eq_true] at h
      by_cases hfit : (Entry.message (recordOf 0 qname m)).Fits
      · exact .does (c := 0) hv (.of (.store m hw hid hq h.2 h.1 hfit)) (by decide)
      · exact .does (c := 0) hv (.of (.oversize m hw hid hq h.2 h.1 hfit)) (by decide)
    · exact hcreate

/-- One copy goes to one queue. --/
theorem rests_publishOne {m : Message} (hv : Valid s) (hw : m.properties.WellFormed) (hid : m.Pristine) (qname : Bytes) :
    Rests s ((s.admitted m qname).deliverToQueue qname s.heap.size) := by
  have hadmitted := rests_admitted hv hw hid qname
  refine hadmitted.trans (rests_enqueueLoop _ hadmitted.valid qname ?_)
  rw [heap_admitted]
  exact Nat.lt_succ_self _

/-- Copies of an object that is apart go to several queues. --/
theorem rests_publishAll {msg : Ref} {m : Message} (hw : m.properties.WellFormed) (hid : m.Pristine) (l : List Bytes)
    (hv : Valid s) (ha : Apart msg m s) : Rests s (l.foldl (publishTo true msg) s) := by
  induction l generalizing s with
  | nil => exact .refl hv
  | cons qname l ih =>
    have hone := rests_publishOne hv hw hid qname
    rw [List.foldl_cons, publishTo_several, ha.message]
    exact hone.trans (ih hone.valid ((ha.admitted m qname).enqueueLoop (Nat.ne_of_gt ha.lt) _ _))

theorem rests_distribute {p : PendingPublish} (hv : Valid s) (hp : p.Sound) : Rests s (s.distribute c num p) := by
  have hw : (messageOf c p).properties.WellFormed := hp.properties
  have hnew : Rests s (s.newMessage (messageOf c p)) := .does (c := c) hv (.of (.create _ hw (pristine_messageOf c p))) (by decide)
  rw [distribute]
  split
  · have hreturn : Does c [.output] (s.newMessage (messageOf c p)) ((s.newMessage (messageOf c p)).sendReturn c num (messageOf c p)) :=
      (does_sendMethodFrame (k := .output) _ _ _ rfl).andThen (does_sendContentFrames ..)
    exact hnew.trans (.does hnew.valid hreturn (by decide))
  · generalize s.routeMessage p.exchange p.routing_key p.properties.headers = queues
    rcases queues with _ | ⟨qname, _ | ⟨qname', rest⟩⟩
    · exact hnew
    · have hone := rests_publishOne hv hw (pristine_messageOf c p) qname
      rw [← publishTo_one] at hone
      exact hone
    · exact hnew.trans (rests_publishAll hw (pristine_messageOf c p) _ hnew.valid (.newMessage hv (messageOf c p)))

theorem rests_setPending {p : PendingPublish} (hv : Valid s) (hp : p.Sound) : Rests s (s.setPending c num (some p)) :=
  .does hv (does_setPending hp) (by decide)

theorem rests_publish {p : PendingPublish} (hv : Valid s) (hp : p.Sound) : Rests s (s.publish c num p) := by
  have hdistribute : Rests s (s.distribute c num p) := rests_distribute hv hp
  have hend : Does c ([.confirm] ++ [.pending]) (s.distribute c num p)
      (((s.distribute c num p).sendConfirm c num).setPending c num none) := does_sendConfirm.trans does_clearPending
  rw [publish_eq]
  exact hdistribute.trans (.does hdistribute.valid hend (by decide))

theorem rests_handleContentBody (hv : Valid s) (data : Bytes) : Rests s (s.handleContentBody c num data) := by
  rw [handleContentBody]
  split
  · exact .refl hv
  · rename_i p hp
    have hpend := hv.pending hp
    have hsound : ({ p with body := p.body ++ data, bodyReceived := p.bodyReceived + data.length } : PendingPublish).Sound :=
      ⟨hpend.exchange, hpend.routing_key, hpend.properties⟩
    have hset : Rests s (s.setPending c num (some _)) := rests_setPending hv hsound
    dsimp only
    split
    · exact hset.trans (rests_publish hset.valid hsound)
    · exact hset

theorem rests_handleContentHeader (hv : Valid s) (buf : Buffer) :
    Rests s (outcome (s.handleContentHeader c num buf)) := by
  rw [handleContentHeader]
  split
  · exact .refl hv
  · rename_i p hp
    have hpend := hv.pending hp
    split
    · exact .refl hv
    · rename_i bodySize buf' hread
      dsimp only
      split
      · exact .does hv (does_clearPending.trans (does_sendChannelClose (c := c) ..)) (by decide)
      · split
        · exact rests_setPending hv ⟨hpend.exchange, hpend.routing_key, hpend.properties⟩
        · rename_i properties _ hdec
          obtain ⟨-, -, -, hwell, -⟩ := BasicProperties.accepts_properties _ _ _ hdec
          have hset : Rests s (s.setPending c num (some { p with bodySize, properties })) :=
            rests_setPending hv ⟨hpend.exchange, hpend.routing_key, hwell⟩
          dsimp only [outcome]
          split
          · exact hset.trans (rests_handleContentBody hset.valid _)
          · exact hset

/-! ### Methods -/

/-- The methods that give credit back, take a first message away or end a channel. --/
def freeing : List (UInt16 × UInt16) :=
  [(class_id.BASIC, basic_method.GET), (class_id.BASIC, basic_method.ACK), (class_id.BASIC, basic_method.REJECT),
    (class_id.BASIC, basic_method.RECOVER), (class_id.BASIC, basic_method.RECOVER_ASYNC), (class_id.BASIC, basic_method.NACK),
    (class_id.CHANNEL, channel_method.CLOSE), (class_id.CHANNEL, channel_method.CLOSE_OK),
    (class_id.CONNECTION, connection_method.CLOSE), (class_id.CONNECTION, connection_method.CLOSE_OK)]

theorem rests_handleMethod (hv : Valid s) {classId methodId : UInt16} (h : (classId, methodId) ∉ freeing) (buf : Buffer) :
    Rests s (outcome (s.handleMethod c num classId methodId buf)) := by
  have hdoes : ∀ {K : List Kind} {s' : AmqpServer} {P : Prop}, Does c K s s' → (∀ k ∈ K, k ∈ Rests.calmKinds) →
      P ∨ Rests s s' := fun hd hK => .inr (.does hv hd hK)
  have hall : Handlers (fun classId methodId s' => (classId, methodId) ∈ freeing ∨ Rests s s') c num s := by
    constructor
    case exchangeDeclare => exact fun buf => hdoes (does_handleExchangeDeclare buf) (by decide)
    case exchangeDelete => exact fun buf => hdoes (does_handleExchangeDelete buf) (by decide)
    case queueDeclare => exact fun buf => hdoes (does_handleQueueDeclare buf) (by decide)
    case queueBind => exact fun buf => hdoes (does_handleQueueBind buf) (by decide)
    case queueUnbind => exact fun buf => hdoes (does_handleQueueUnbind buf) (by decide)
    case queuePurge => exact fun buf => hdoes (does_handleQueuePurge buf) (by decide)
    case queueDelete => exact fun buf => hdoes (does_handleQueueDelete buf) (by decide)
    case basicQos => exact fun buf => hdoes (does_handleBasicQos buf) (by decide)
    case basicConsume =>
      refine fun buf => .inr (outcome_withArgs (.refl hv) ?_)
      rintro ⟨queue, tag, bits⟩
      dsimp only
      split
      · exact .does hv (does_sendChannelClose (c := c) ..) (by decide)
      · exact .refl hv
      · exact rests_consume hv ..
    case basicCancel => exact fun buf => hdoes (does_handleBasicCancel buf) (by decide)
    case basicPublish => exact fun buf => hdoes (does_handleBasicPublish buf) (by decide)
    case basicGet => exact fun _ => .inl (by decide)
    case basicAck => exact fun _ => .inl (by decide)
    case basicReject => exact fun _ => .inl (by decide)
    case basicRecover => exact fun _ => .inl (by decide)
    case basicRecoverAsync => exact fun _ => .inl (by decide)
    case basicNack => exact fun _ => .inl (by decide)
    case confirmSelect => exact fun buf => hdoes (does_handleConfirmSelect buf) (by decide)
    case tx => exact fun _ okId => hdoes (does_handleTx okId) (by decide)
    case notImplemented => exact fun _ _ => hdoes (does_sendChannelClose ..) (by decide)
  exact (hall.handleMethod classId methodId buf).resolve_left h

theorem rests_handleConnectionMethod (hv : Valid s) {methodId : UInt16} (h : (class_id.CONNECTION, methodId) ∉ freeing)
    (buf : Buffer) : Rests s (outcome (s.handleConnectionMethod c methodId buf)) := by
  rw [handleConnectionMethod]
  split
  · exact .does hv (does_handleStartOk (c := c) buf) (by decide)
  · split
    · exact .does hv (does_handleTuneOk (c := c) buf) (by decide)
    · split
      · exact .does hv (does_handleConnectionOpen (c := c) buf) (by decide)
      · split
        · rename_i hclose
          exact absurd (hclose ▸ by decide) h
        · split
          · rename_i hcloseOk
            exact absurd (hcloseOk ▸ by decide) h
          · exact .does hv (does_sendConnectionClose (c := c) ..) (by decide)

theorem rests_handleMethodFrame (hv : Valid s) {buf : Buffer} (h : ∀ ids rest, readMethodIds buf = .ok (ids, rest) → ids ∉ freeing) :
    Rests s (outcome (s.handleMethodFrame c num buf)) := by
  rw [handleMethodFrame]
  split
  · exact .refl hv
  · rename_i classId methodId buf' hread
    have hfree := h _ _ hread
    split
    · rename_i hclass
      split
      · exact .does hv (does_sendConnectionClose (c := c) ..) (by decide)
      · exact rests_handleConnectionMethod hv (hclass ▸ hfree) buf'
    · split
      · exact .does hv (does_handleChannelOpen (c := c) buf') (by decide)
      · split
        · rename_i hclose
          exact absurd (hclose.1 ▸ hclose.2 ▸ by decide) hfree
        · split
          · rename_i hcloseOk
            exact absurd (hcloseOk.1 ▸ hcloseOk.2 ▸ by decide) hfree
          · split
            · exact .does hv (does_handleChannelFlow (c := c) buf') (by decide)
            · rw [handleOnChannel]
              split
              · exact .does hv (does_sendConnectionClose (c := c) ..) (by decide)
              · exact rests_handleMethod hv hfree buf'

theorem rests_handleFrame (hv : Valid s) {frame : Frame} (h : ∀ ids ∈ methodIds frame, ids ∉ freeing) :
    Rests s (outcome (s.handleFrame c frame)) := by
  have hids : frame.type = FRAME_METHOD → ∀ ids rest, readMethodIds (Buffer.ofBytes frame.payload) = .ok (ids, rest) →
      ids ∉ freeing := by
    intro htype ids rest hread
    refine h ids ?_
    rw [methodIds, if_pos htype, hread]
    rfl
  rw [handleFrame]
  split
  · rename_i hmethod
    rw [handleClosing]
    split
    · exact .refl hv
    · rename_i classId methodId _ hread
      dsimp only [outcome]
      split
      · rename_i hcloseOk
        exact absurd (hcloseOk.1 ▸ hcloseOk.2 ▸ by decide) (hids hmethod.2 _ _ hread)
      · exact .refl hv
  · split
    · rename_i hmethod
      exact rests_handleMethodFrame hv (hids hmethod)
    · split
      · split
        · exact .refl hv
        · exact rests_handleContentHeader hv _
      · split
        · split
          · exact .refl hv
          · exact rests_handleContentBody hv _
        · split
          · exact .refl hv
          · exact .does hv (does_sendConnectionClose (c := c) ..) (by decide)

/-! ### Runs -/

/-- The event can leave a consumer with credit for a message that waits: it gives credit back, takes a first message away or
    ends a channel. --/
def frees : Event → Bool
  | .protocolHeader _ header => header ≠ PROTOCOL_HEADER
  | .frame _ frame _ => (methodIds frame).any freeing.contains
  | .disconnect _ => true
  | _ => false

theorem rests_frame (hv : Valid s) {frame : Frame} {frameEnd : UInt8} (h : frees (.frame c frame frameEnd) = false) :
    Rests s (s.handle (.frame c frame frameEnd)) := by
  have hstop : ∀ {s₁} (_ : Valid s₁) text, Rests s₁ (s₁.stopReading c text) :=
    fun hv text => .does (c := c) hv (does_stopReading text) (by decide)
  have hframe : Rests s (outcome (s.handleFrame c frame)) := by
    refine rests_handleFrame hv fun ids hids => ?_
    rw [frees, Option.mem_def.mp hids, Option.any_some] at h
    simpa using h
  rcases handle_frame_cases c s frame frameEnd with ⟨-, heq | ⟨text, heq⟩⟩ | ⟨-, hok | ⟨s', text, herror, heq⟩⟩
  · rw [heq]
    exact .refl hv
  · rw [heq]
    exact hstop hv text
  · rwa [hok] at hframe
  · rw [herror] at hframe
    rw [heq]
    exact hframe.trans (hstop hframe.valid text)

theorem atRest_start : AtRest name (start store userStore clock readings) := by
  intro q head rest hq hm k hk
  rw [idle_start.queues name q hq] at hk
  cases hk

theorem atRest_handle (hv : Valid s) {e : Event} (he : frees e = false) (h : AtRest name s) : AtRest name (s.handle e) := by
  have hdoes : ∀ {K : List Kind} {s' : AmqpServer} {c : Nat}, Does c K s s' → (∀ k ∈ K, k ∈ Rests.calmKinds) → AtRest name s' :=
    fun hd hK => (Rests.does hv hd hK).rest name h
  cases e with
  | accept => exact hdoes (c := 0) (.of .accept) (by decide)
  | protocolHeader c header =>
    have hheader : header = PROTOCOL_HEADER := of_not_not (of_decide_eq_false he)
    rw [handle]
    split
    · exact h
    · rename_i hconn
      split
      · rename_i hawaiting
        rw [receiveProtocolHeader, if_pos hheader]
        exact hdoes ((does_awaitStartOk hconn hawaiting.2).trans (does_sendMethodFrame (k := .output) _ _ _ rfl)) (by decide)
      · exact h
  | frame c frame frameEnd => exact (rests_frame hv he).rest name h
  | runTask c => exact hdoes (does_runTask (c := c)) (by decide)
  | disconnect c => cases he
  | tick => exact atRest_tick hv name
  | compact => exact hdoes (c := 0) (.of .compact) (by decide)
  | restart => exact atRest_start
  | reorderQueues order => exact hdoes (c := 0) (.of (.reorderQueues order)) (by decide)
  | reorderExchanges order => exact hdoes (c := 0) (.of (.reorderExchanges order)) (by decide)
  | reorderChannels c order => exact hdoes (c := c) (.of (.reorderChannels order)) (by decide)
  | reorderConsumers c num order => exact hdoes (c := c) (.of (.reorderConsumers num order)) (by decide)
  | reorderUnacked c num order => exact hdoes (c := c) (.of (.reorderUnacked num order)) (by decide)

theorem atRest_run {events : List Event} (hv : Valid s) (hevents : ∀ e ∈ events, frees e = false) (h : AtRest name s) :
    AtRest name (s.run events) := by
  induction events generalizing s with
  | nil => exact h
  | cons e events ih =>
    exact ih (valid_handle hv e) (fun e he => hevents e (List.mem_cons_of_mem _ he))
      (atRest_handle hv (hevents e List.mem_cons_self) h)

/-- If no event since the start or since a round of the timer gives credit back, takes a first message away or ends a channel,
    then no queue has a message that one of its consumers could take. --/
theorem at_rest (before : List Event) {after : List Event} (hafter : ∀ e ∈ after, frees e = false) (name : Bytes) :
    AtRest name ((start store userStore clock readings).run after) ∧
      AtRest name ((start store userStore clock readings).run (before ++ .tick :: after)) := by
  refine ⟨atRest_run valid_start hafter atRest_start, ?_⟩
  have hvalid : Valid ((start store userStore clock readings).run before) := valid_run valid_start before
  rw [run, List.foldl_append, List.foldl_cons]
  exact atRest_run (valid_handle hvalid .tick) hafter (atRest_tick hvalid name)

/-- A consumer that takes one message at a time has one. --/
def busyConsumer : List Event :=
  Client.connect 1 ++ [Client.openChannel 1 1,
    Client.prefetch 1 1 1 false,
    Client.assertQueue 1 1 (ascii "q") false false false false [],
    Client.consume 1 1 (ascii "q") (ascii "a") false false false] ++ Client.sendToQueue 1 1 (ascii "q") [] {}

/-- The next message waits at rest. With an ack of the first one the queue is not at rest any more. --/
theorem at_rest_busy :
    let s := freshServer.run (busyConsumer ++ .tick :: Client.sendToQueue 1 1 (ascii "q") [] {})
    AtRest (ascii "q") s ∧ (∃ q head, s.queue (ascii "q") = some q ∧ q.messages = [head] ∧ q.consumers = [0]) ∧
      ¬AtRest (ascii "q") ((s.handle (.runTask 1)).handle (Client.ack 1 1 1 false)) := by
  intro s
  have hafter : ∀ e ∈ Client.sendToQueue 1 1 (ascii "q") [] {}, frees e = false := by decide +kernel
  have hwaits : (s.queue (ascii "q")).any (fun q => q.messages = [2] ∧ q.consumers = [0]) = true := by decide +kernel
  have hacked : (((s.handle (.runTask 1)).handle (Client.ack 1 1 1 false)).queue (ascii "q")).any
      (fun q => q.messages = [2] ∧ q.consumers = [0]) = true := by decide +kernel
  have hfit : ((s.handle (.runTask 1)).handle (Client.ack 1 1 1 false)).eligible 2 0 = true := by decide +kernel
  obtain ⟨q, hq, hqueue⟩ := (Option.any_eq_true _ _).mp hwaits
  obtain ⟨q', hq', hqueue'⟩ := (Option.any_eq_true _ _).mp hacked
  have hsame := of_decide_eq_true hqueue
  have hsame' := of_decide_eq_true hqueue'
  refine ⟨(at_rest busyConsumer hafter (ascii "q")).2, ⟨q, 2, hq, hsame⟩, fun hrest => ?_⟩
  have hwas := hrest q' 2 [] hq' hsame'.1 0 (hsame'.2 ▸ List.mem_cons_self)
  rw [hfit] at hwas
  cases hwas

end AmqpServer
end Broko.Broker
