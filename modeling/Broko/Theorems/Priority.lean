import Broko.Lib.Lanes
import Broko.Theorems.QueueOrder

/-! A queue with priorities. `enqueue` sorts the messages, `reject` puts a message back at the front, wherever it belongs:
    the order is by priority as long as a message that comes back has no ready message above it. -/

namespace Broko.Broker
open Amqp Storage Lanes

namespace AmqpServer

variable {name : Bytes} {s s' : AmqpServer} {q : MessageQueue} {m : UInt8}

def priority (s : AmqpServer) (r : Ref) : UInt8 := (s.message r).effectivePriority

/-- The lanes with the message of an operation: a new one at the end of its lane, one that comes back at the front. --/
def lanesPut (s : AmqpServer) (lane : UInt8 → List Ref) : QueueOp → UInt8 → List Ref
  | .enqueue r => append s.priority lane r
  | .requeue r => push s.priority lane r
  | _ => lane

/-- The lanes after a run, for each priority the messages that wait in the order of their turns. --/
def lanesOf (name : Bytes) (log : List (AmqpServer × QueueOp)) : UInt8 → List Ref :=
  log.foldl (fun lane x => drop x.1.priority (x.1.lanesPut lane x.2) (x.1.taken name x.2)) fun _ => []

/-- No ready message has a higher priority than the one that the operation puts back. --/
def Outranks (name : Bytes) (s : AmqpServer) : QueueOp → Prop
  | .requeue r => ∀ q ∈ s.queue name, ∀ r' ∈ q.messages, s.priority r' ≤ s.priority r
  | _ => True

instance (name : Bytes) (s : AmqpServer) : (op : QueueOp) → Decidable (Outranks name s op)
  | .requeue r => inferInstanceAs (Decidable (∀ q ∈ s.queue name, ∀ r' ∈ q.messages, s.priority r' ≤ s.priority r))
  | .enqueue _ | .addConsumer _ | .removeConsumer _ | .removeConsumersByConnection _ | .get | .purge | .flush =>
    .isTrue trivial

/-- The messages are in their lanes, and all of them are objects. --/
structure Sorted (name : Bytes) (m : UInt8) (lane : UInt8 → List Ref) (messages : List Ref) (s : AmqpServer) : Prop where
  deque : s.deque name = some (messages, m)
  lanes : InLanes s.priority lane messages
  lt : ∀ r ∈ messages, r < s.heap.size

theorem mem_arranged {op : QueueOp} {r : Ref} (h : r ∈ s.arranged q op) : r ∈ q.messages ∨ r ∈ op.message? := by
  cases op with
  | enqueue r' =>
    rw [arranged, sortMessages] at h
    split at h
    · rw [List.mem_insertionSort, List.mem_append, List.mem_singleton] at h
      exact h.imp_right fun heq => congrArg some heq.symm
    · rw [List.mem_append, List.mem_singleton] at h
      exact h.imp_right fun heq => congrArg some heq.symm
  | requeue r' => exact (List.mem_cons.mp h).symm.imp_right fun heq => congrArg some heq.symm
  | _ => exact .inl h

/-- What an operation takes and what it leaves are together in the lanes with its message. --/
theorem inLanes_arranged {lane : UInt8 → List Ref} (hm : 0 < q.maxPriority) (hq : s.queue name = some q)
    (h : InLanes s.priority lane q.messages) {op : QueueOp} (hop : Outranks name s op) :
    InLanes s.priority (s.lanesPut lane op) (s.arranged q op) := by
  cases op with
  | enqueue r =>
    rw [arranged, sortMessages, if_pos hm]
    exact h.sort r
  | requeue r => exact h.push (hop q hq)
  | _ => exact h

/-- One operation. --/
theorem Sorted.locked {lane : UInt8 → List Ref} {messages : List Ref} (h : Sorted name m lane messages s) (hm : 0 < m)
    {op : QueueOp} (hop : Outranks name s op) (hr : ∀ r ∈ op.message?, r < s.heap.size) :
    ∃ rest, InLanes s.priority (s.lanesPut lane op) (s.taken name op ++ rest) ∧
      Sorted name m (drop s.priority (s.lanesPut lane op) (s.taken name op)) rest (s.locked name op) := by
  obtain ⟨q, hq, hpair⟩ := Option.map_eq_some_iff.mp h.deque
  obtain ⟨rfl, rfl⟩ := Prod.mk.inj hpair
  obtain ⟨rest, hrest, hsplit⟩ := deque_locked hq op
  have hlanes : InLanes s.priority (s.lanesPut lane op) (s.taken name op ++ rest) :=
    hsplit ▸ inLanes_arranged hm hq h.lanes hop
  have hlt : ∀ r ∈ rest, r < s.heap.size := by
    intro r hmem
    rcases mem_arranged (hsplit ▸ List.mem_append_right _ hmem) with hin | hput
    · exact h.lt r hin
    · exact hr r hput
  have hsame : SamePriorities s (s.locked name op) := .locked op
  exact ⟨rest, hlanes, hrest, hlanes.drop.congr fun r hmem => hsame.priority r (hlt r hmem),
    fun r hmem => (hlt r hmem).trans_le hsame.size⟩

theorem lanesOf_concat (log : List (AmqpServer × QueueOp)) (op : QueueOp) :
    lanesOf name (log ++ [(s, op)]) = drop s.priority (s.lanesPut (lanesOf name log) op) (s.taken name op) := by
  rw [lanesOf, List.foldl_append]
  rfl

theorem sorted_run {log : List (AmqpServer × QueueOp)} (hrun : QueueRun name s log s') (hm : 0 < m)
    (hstart : s.deque name = some ([], m)) (hlog : ∀ x ∈ log, Outranks name x.1 x.2) :
    ∃ messages, Sorted name m (lanesOf name log) messages s' := by
  induction hrun with
  | nil => exact ⟨[], hstart, .nil, nofun⟩
  | between run h ih =>
    obtain ⟨messages, hsorted⟩ := ih hlog
    exact ⟨messages, h.deque.trans hsorted.deque,
      hsorted.lanes.congr fun r hr => h.priorities.priority r (hsorted.lt r hr),
      fun r hr => (hsorted.lt r hr).trans_le h.priorities.size⟩
  | @op log s₁ run o h ih =>
    obtain ⟨messages, hsorted⟩ := ih fun x hx => hlog x (List.mem_append_left _ hx)
    have hop := hlog (s₁, o) (List.mem_append_right _ List.mem_cons_self)
    obtain ⟨rest, -, hrest⟩ := hsorted.locked hm hop h
    rw [lanesOf_concat]
    exact ⟨rest, hrest⟩

/-- In a run of a queue with priorities in which no message is put back below a ready one, the next operation hands the
    messages out by falling priority, and those of one priority in the order of their turns. --/
theorem handed_by_priority {log : List (AmqpServer × QueueOp)} (hrun : QueueRun name s log s') (hm : 0 < m)
    (hstart : s.deque name = some ([], m)) (hlog : ∀ x ∈ log, Outranks name x.1 x.2) {op : QueueOp}
    (hop : Outranks name s' op) (hr : ∀ r ∈ op.message?, r < s'.heap.size) :
    ∃ rest, (s'.locked name op).deque name = some (rest, m) ∧
      InLanes s'.priority (s'.lanesPut (lanesOf name log) op) (s'.taken name op ++ rest) := by
  obtain ⟨messages, hsorted⟩ := sorted_run hrun hm hstart hlog
  obtain ⟨rest, hlanes, hrest⟩ := hsorted.locked hm hop hr
  exact ⟨rest, hrest.deque, hlanes⟩

/-- A queue with ten priorities, and two messages that are not in it yet. --/
def priorityServer : AmqpServer :=
  ((freshServer.run (Client.connect 1 ++ [Client.openChannel 1 1, Client.assertQueue 1 1 (ascii "q") false false false
    false [(ascii "x-max-priority", .longInt 10)]])).newMessage { properties := { priority := some 1 } }).newMessage
    { properties := { priority := some 5 } }

def queueOps (ops : List QueueOp) : List (AmqpServer × QueueOp) := opsFrom (ascii "q") priorityServer ops

def queueAfter (ops : List QueueOp) : AmqpServer := ops.foldl (locked (ascii "q")) priorityServer

theorem queueRun_ops (ops : List QueueOp) (h : ∀ x ∈ queueOps ops, ∀ r ∈ x.2.message?, r < x.1.heap.size) :
    QueueRun (ascii "q") priorityServer (queueOps ops) (queueAfter ops) :=
  QueueRun.nil.opsFrom ops h

/-- The message of priority 5 is taken and comes back while the other one is ready. --/
theorem handed_by_priority_ops :
    ∃ rest, ((queueAfter [.enqueue 1, .get, .enqueue 0, .requeue 1]).locked (ascii "q") .get).deque (ascii "q") =
        some (rest, 10) ∧
      InLanes (queueAfter [.enqueue 1, .get, .enqueue 0, .requeue 1]).priority
        (lanesOf (ascii "q") (queueOps [.enqueue 1, .get, .enqueue 0, .requeue 1]))
        ((queueAfter [.enqueue 1, .get, .enqueue 0, .requeue 1]).taken (ascii "q") .get ++ rest) :=
  handed_by_priority (queueRun_ops _ (by decide +kernel)) (by decide) (by decide +kernel)
    (by decide +kernel) trivial nofun

/-- The message of priority 1 is taken, the other one is enqueued, and the first one comes back before it. --/
theorem requeued_before_higher :
    QueueRun (ascii "q") priorityServer (queueOps [.enqueue 0, .get, .enqueue 1, .requeue 0])
        (queueAfter [.enqueue 0, .get, .enqueue 1, .requeue 0]) ∧
      priorityServer.deque (ascii "q") = some ([], 10) ∧
      ((queueAfter [.enqueue 0, .get, .enqueue 1, .requeue 0]).locked (ascii "q") .get).deque (ascii "q") =
        some ([1], 10) ∧
      ¬InLanes (queueAfter [.enqueue 0, .get, .enqueue 1, .requeue 0]).priority
        (lanesOf (ascii "q") (queueOps [.enqueue 0, .get, .enqueue 1, .requeue 0]))
        ((queueAfter [.enqueue 0, .get, .enqueue 1, .requeue 0]).taken (ascii "q") .get ++ [1]) := by
  refine ⟨queueRun_ops _ (by decide +kernel), by decide +kernel, by decide +kernel, fun h => ?_⟩
  have hsorted := h.sorted
  revert hsorted
  decide +kernel

end AmqpServer
end Broko.Broker
