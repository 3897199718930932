import Broko.Broker.Client
import Broko.Broker.QueueOp
import Broko.Theorems.Runs

/-! The order in which a queue gives its messages out. An operation puts a message in its place (`arranged`) and then
    takes messages from the front: what it takes, followed by what is left, is what was there. -/

namespace Broko.Broker
open Amqp Storage

namespace AmqpServer

variable {name : Bytes} {s s' s₁ : AmqpServer} {q : MessageQueue}

/-! ### Taking from the front -/

theorem queue_modifyQueue (hq : s.queue name = some q) (f : MessageQueue → MessageQueue) :
    (s.modifyQueue name f).queue name = some (f q) := by
  rw [queue, modifyQueue, Assoc.lookup_modify_self]
  exact congrArg (Option.map f) hq

theorem deque_of_queue (hq : s.queue name = some q) : s.deque name = some (q.messages, q.maxPriority) := by
  rw [deque, hq]
  rfl

theorem deque_modifyQueue (hq : s.queue name = some q) {f : MessageQueue → MessageQueue}
    (hf : (f q).maxPriority = q.maxPriority) : (s.modifyQueue name f).deque name = some ((f q).messages, q.maxPriority) := by
  rw [deque_of_queue (queue_modifyQueue hq f), hf]

/-- The queue's messages are `out` followed by what is left of them. --/
def TakesFront (name : Bytes) (out : List Ref) (s s' : AmqpServer) : Prop :=
  ∀ ms p, s.deque name = some (ms, p) → ∃ rest, s'.deque name = some (rest, p) ∧ out ++ rest = ms

theorem TakesFront.refl : TakesFront name [] s s := fun ms _ h => ⟨ms, h, rfl⟩

theorem TakesFront.trans {out out' : List Ref} (h : TakesFront name out s s₁) (h' : TakesFront name out' s₁ s') :
    TakesFront name (out ++ out') s s' := by
  intro ms p hms
  obtain ⟨rest, hrest, rfl⟩ := h ms p hms
  obtain ⟨rest', hrest', rfl⟩ := h' rest p hrest
  exact ⟨rest', hrest', List.append_assoc ..⟩

/-- A step that is said by what it does to the queue. --/
theorem TakesFront.of_queue {out : List Ref}
    (h : ∀ q, s.queue name = some q → ∃ q', s'.queue name = some q' ∧ q'.maxPriority = q.maxPriority ∧
      out ++ q'.messages = q.messages) : TakesFront name out s s' := by
  intro ms p hms
  obtain ⟨q, hq, heq⟩ := Option.map_eq_some_iff.mp hms
  obtain ⟨rfl, rfl⟩ := Prod.mk.inj heq
  obtain ⟨q', hq', hp, hout⟩ := h q hq
  exact ⟨q'.messages, by rw [deque_of_queue hq', hp], hout⟩

theorem takesFront_collectExpired : TakesFront name (s.collectExpired name).1 s (s.collectExpired name).2 := by
  refine .of_queue fun q hq => ?_
  rw [collectExpired, hq]
  dsimp only
  split
  · exact ⟨q, hq, rfl, rfl⟩
  · have hdrop := List.prefix_iff_eq_append.mp (List.takeWhile_prefix (s.isExpired q s.now) (l := q.messages))
    exact ⟨_, queue_modifyQueue (s := s.readClock) hq _, rfl, hdrop⟩

theorem queue_onDeliver (k taken : Ref) : (s.onDeliver k taken).queue name = s.queue name := by
  rw [onDeliver]
  split <;> rfl

theorem queue_handOver (hq : s.queue name = some q) (k head : Ref) (idx : Nat) :
    (s.handOver name k head idx).queue name = some { q with messages := q.messages.tail, roundRobinIdx := idx } := by
  rw [handOver, queue_onDeliver]
  split
  · exact queue_modifyQueue hq _
  · exact queue_modifyQueue hq _

theorem takesFront_dispatchLoop (turns : Nat) (s : AmqpServer) :
    TakesFront name ((handoversLoop name turns s).map Handover.message) s (dispatchLoop name turns s) := by
  induction turns generalizing s with
  | zero => exact .refl
  | succ turns ih =>
    rw [handoversLoop, dispatchLoop]
    cases hq : s.queue name with
    | none => exact .refl
    | some q =>
      dsimp only
      cases hm : q.messages with
      | nil => exact .refl
      | cons head rest =>
        dsimp only
        rcases pickConsumer (s.eligible head) q.consumers q.consumers.length q.roundRobinIdx with ⟨_ | k, idx⟩
        · exact .of_queue fun q hq => ⟨_, queue_modifyQueue hq _, rfl, rfl⟩
        · have hover : TakesFront name [head] s (s.handOver name k head idx) := by
            refine .of_queue fun q' hq' => ⟨_, queue_handOver hq' k head idx, rfl, ?_⟩
            obtain rfl := Option.some.inj (hq'.symm.trans hq)
            rw [hm]
            rfl
          exact hover.trans (ih _)

theorem takesFront_dispatchLocked : TakesFront name (s.handed name) s (s.dispatchLocked name) := by
  rw [handed, handovers, dispatchLocked]
  cases s.queue name with
  | none => exact .refl
  | some q =>
    dsimp only
    split
    · exact .refl
    · exact takesFront_dispatchLoop _ _

theorem takesFront_pop : TakesFront name ((s.queue name).bind fun q => q.messages.head?).toList s
    (s.modifyQueue name fun q => { q with messages := q.messages.tail }) := by
  refine .of_queue fun q hq => ⟨_, queue_modifyQueue hq _, rfl, ?_⟩
  rw [hq]
  cases hm : q.messages with
  | nil => simp [hm]
  | cons head rest => simp [hm]

/-! ### Priorities -/

/-- What a change of a message keeps, it keeps of all messages. --/
theorem message_modifyMessage {β : Type} (g : Message → β) {f : Message → Message} (hf : ∀ m, g (f m) = g m) (r r' : Ref) :
    g ((s.modifyMessage r f).message r') = g (s.message r') :=
  @Heap.cell_modify_congr Cell _ (fun x => g x.msg) s.heap r (fun x => { x with msg := f x.msg }) (fun x => hf x.msg) r'

namespace SamePriorities

theorem refl : SamePriorities s s := ⟨le_rfl, fun _ _ => rfl⟩

theorem trans (h₁ : SamePriorities s s₁) (h₂ : SamePriorities s₁ s') : SamePriorities s s' :=
  ⟨h₁.size.trans h₂.size, fun r hr => (h₂.priority r (hr.trans_le h₁.size)).trans (h₁.priority r hr)⟩

theorem of_heap (h : s'.heap = s.heap) : SamePriorities s s' :=
  ⟨by rw [h], fun r _ => by rw [message, message, h]⟩

theorem modifyMessage (r : Ref) {f : Message → Message} (hf : ∀ m, (f m).effectivePriority = m.effectivePriority) :
    SamePriorities s (s.modifyMessage r f) :=
  ⟨le_rfl, fun r' _ => message_modifyMessage Message.effectivePriority hf r r'⟩

theorem onDeliver (k taken : Ref) : SamePriorities s (s.onDeliver k taken) := by
  rw [AmqpServer.onDeliver]
  split
  · exact refl
  · exact ⟨Nat.le_succ _, fun r hr => congrArg (fun x : Cell => x.msg.effectivePriority)
      (Heap.cell_alloc_of_ne (Nat.ne_of_lt hr))⟩

theorem handOver (k head : Ref) (idx : Nat) : SamePriorities s (s.handOver name k head idx) := by
  rw [AmqpServer.handOver]
  refine trans ?_ (onDeliver k head)
  split
  · exact of_heap rfl
  · exact of_heap rfl

theorem dispatchLoop (turns : Nat) (s : AmqpServer) : SamePriorities s (dispatchLoop name turns s) := by
  induction turns generalizing s with
  | zero => exact refl
  | succ turns ih =>
    rw [AmqpServer.dispatchLoop]
    split
    · exact refl
    · split
      · exact refl
      · split
        · exact of_heap rfl
        · exact (handOver ..).trans (ih _)

theorem dispatchLocked : SamePriorities s (s.dispatchLocked name) := by
  rw [AmqpServer.dispatchLocked]
  split
  · exact refl
  · split
    · exact refl
    · exact dispatchLoop ..

theorem pushBack (r : Ref) : SamePriorities s (s.pushBack name r) := by
  have hstamp : SamePriorities s (s.modifyMessage r fun m => { m with enqueued_at := s.now }) := modifyMessage r fun _ => rfl
  exact hstamp.trans (of_heap rfl)

theorem locked (op : QueueOp) : SamePriorities s (s.locked name op) := by
  cases op with
  | enqueue r => exact (pushBack r).trans ((of_heap (heap_collectExpired name)).trans dispatchLocked)
  | addConsumer k =>
    refine trans ?_ dispatchLocked
    exact of_heap rfl
  | removeConsumer tag =>
    rw [AmqpServer.locked, removeConsumer]
    split
    · exact refl
    · split <;> exact of_heap rfl
  | removeConsumersByConnection connId =>
    exact of_heap (heap_removeConsumersByConnection name connId)
  | get => exact (of_heap (heap_collectExpired name)).trans (of_heap rfl)
  | purge =>
    rw [AmqpServer.locked, purge]
    split
    · exact refl
    · exact of_heap rfl
  | requeue r =>
    have hmark : SamePriorities s (s.modifyMessage r fun m => { m with redelivered := true }) := modifyMessage r fun _ => rfl
    refine hmark.trans (trans ?_ dispatchLocked)
    exact of_heap rfl
  | flush => exact (of_heap (heap_collectExpired name)).trans dispatchLocked

end SamePriorities

/-! ### The operations -/

/-- The queue's messages once an operation has put its message in its place. --/
def arranged (s : AmqpServer) (q : MessageQueue) : QueueOp → List Ref
  | .enqueue r => s.sortMessages q (q.messages ++ [r])
  | .requeue r => r :: q.messages
  | _ => q.messages

theorem deque_pushBack (hq : s.queue name = some q) (r : Ref) :
    (s.pushBack name r).deque name = some (s.sortMessages q (q.messages ++ [r]), q.maxPriority) := by
  have hsort : (s.readClock.modifyMessage r fun m => { m with enqueued_at := s.now }).sortMessages q (q.messages ++ [r]) =
      s.sortMessages q (q.messages ++ [r]) := by
    have hstamp := message_modifyMessage (s := s.readClock) Message.effectivePriority
      (f := fun m => { m with enqueued_at := s.now }) (fun _ => rfl) r
    simp only [sortMessages, hstamp]
    rfl
  rw [← hsort]
  exact deque_modifyQueue (s := s.readClock.modifyMessage r _) hq rfl

theorem deque_removeConsumersByConnection (connId : Nat) :
    (s.removeConsumersByConnection name connId).deque name = s.deque name := by
  have hfold : ∀ (l : List Ref) (s : AmqpServer),
      (l.foldl (fun s k => s.modifyConsumer k fun c => { c with on_deliver := none }) s).queue name = s.queue name :=
    fun l s => List.foldlRecOn (motive := fun s' : AmqpServer => s'.queue name = s.queue name) l _ rfl
      fun _ h _ _ => h
  rw [removeConsumersByConnection]
  split
  · rfl
  · rename_i q hq
    exact (deque_modifyQueue ((hfold _ s).trans hq) rfl).trans (deque_of_queue hq).symm

/-- An operation takes from the front of what it has arranged. --/
theorem deque_locked (hq : s.queue name = some q) (op : QueueOp) :
    ∃ rest, (s.locked name op).deque name = some (rest, q.maxPriority) ∧
      s.taken name op ++ rest = s.arranged q op := by
  cases op with
  | enqueue r =>
    exact (takesFront_collectExpired.trans takesFront_dispatchLocked) _ _ (deque_pushBack hq r)
  | addConsumer k => exact takesFront_dispatchLocked _ _ (deque_modifyQueue hq rfl)
  | removeConsumer tag =>
    refine ⟨q.messages, ?_, rfl⟩
    rw [locked, removeConsumer, hq]
    dsimp only
    split
    · exact deque_of_queue hq
    · exact deque_modifyQueue (s := s.modifyConsumer _ _) hq rfl
  | removeConsumersByConnection connId =>
    exact ⟨q.messages, (deque_removeConsumersByConnection connId).trans (deque_of_queue hq), rfl⟩
  | get => exact (takesFront_collectExpired.trans takesFront_pop) _ _ (deque_of_queue hq)
  | purge =>
    refine ⟨[], ?_, ?_⟩
    · rw [locked, purge, hq]
      exact deque_modifyQueue hq rfl
    · rw [taken, hq, List.append_nil]
      rfl
  | requeue r => exact takesFront_dispatchLocked _ _ (deque_modifyQueue (s := s.modifyMessage r _) hq rfl)
  | flush => exact (takesFront_collectExpired.trans takesFront_dispatchLocked) _ _ (deque_of_queue hq)

/-! ### Runs -/

theorem QueueRun.opsFrom {log : List (AmqpServer × QueueOp)} (hrun : QueueRun name s log s') (ops : List QueueOp)
    (h : ∀ x ∈ AmqpServer.opsFrom name s' ops, ∀ r ∈ x.2.message?, r < x.1.heap.size) :
    QueueRun name s (log ++ AmqpServer.opsFrom name s' ops) (ops.foldl (locked name) s') := by
  induction ops generalizing log s' with
  | nil => rwa [AmqpServer.opsFrom, List.append_nil]
  | cons op ops ih =>
    have hstep := ih (hrun.op op (h _ List.mem_cons_self)) fun x hx => h x (List.mem_cons_of_mem _ hx)
    rwa [List.append_assoc] at hstep

/-! ### First in, first out -/

/-- In a run of a queue without priorities in which nothing is put back, what was taken out so far, followed by what is
    left, is what was enqueued. --/
theorem fifo {log : List (AmqpServer × QueueOp)} (hrun : QueueRun name s log s') (hstart : s.deque name = some ([], 0))
    (hlog : ∀ x ∈ log, x.2.isRequeue = false) :
    ∃ messages, s'.deque name = some (messages, 0) ∧ takenIn name log ++ messages = enqueuedIn log := by
  induction hrun with
  | nil => exact ⟨[], hstart, rfl⟩
  | between run h ih =>
    obtain ⟨messages, hdeque, heq⟩ := ih hlog
    exact ⟨messages, h.deque.trans hdeque, heq⟩
  | @op log s₁ run o h ih =>
    obtain ⟨messages, hdeque, heq⟩ := ih fun x hx => hlog x (List.mem_append_left _ hx)
    obtain ⟨q, hq, hmp⟩ := Option.map_eq_some_iff.mp hdeque
    obtain ⟨rfl, hprio⟩ := Prod.mk.inj hmp
    have hput := hlog (s₁, o) (List.mem_append_right _ List.mem_cons_self)
    obtain ⟨rest, hrest, hsplit⟩ := deque_locked hq o
    have harranged : s₁.arranged q o = q.messages ++ o.enqueued?.toList := by
      cases o with
      | enqueue r => rw [arranged, sortMessages, hprio]; rfl
      | requeue r => cases hput
      | _ => exact (List.append_nil _).symm
    refine ⟨rest, by rw [hrest, hprio], ?_⟩
    rw [takenIn, List.flatMap_append, ← takenIn, List.flatMap_singleton, List.append_assoc, hsplit, harranged,
      ← List.append_assoc, heq, enqueuedIn, enqueuedIn, List.filterMap_append]
    rfl

/-- A queue, and two messages that are not in it yet. --/
def queueServer : AmqpServer :=
  ((freshServer.run (Client.connect 1 ++ [Client.openChannel 1 1, Client.assertQueue 1 1 (ascii "q") false false false
    false []])).newMessage {}).newMessage {}

theorem fifo_ops :
    ∃ messages, ([.enqueue 1, .enqueue 0, .get].foldl (locked (ascii "q")) queueServer).deque (ascii "q") =
        some (messages, 0) ∧
      takenIn (ascii "q") (opsFrom (ascii "q") queueServer [.enqueue 1, .enqueue 0, .get]) ++ messages =
        enqueuedIn (opsFrom (ascii "q") queueServer [.enqueue 1, .enqueue 0, .get]) := by
  have hrun : QueueRun (ascii "q") queueServer (opsFrom (ascii "q") queueServer [.enqueue 1, .enqueue 0, .get])
      ([.enqueue 1, .enqueue 0, .get].foldl (locked (ascii "q")) queueServer) :=
    QueueRun.nil.opsFrom [.enqueue 1, .enqueue 0, .get] (by decide +kernel)
  exact fifo hrun (by decide +kernel) (by decide +kernel)

end AmqpServer
end Broko.Broker
