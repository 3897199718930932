import Broko.Theorems.DeadLetters
import Broko.Theorems.Mandatory
import Broko.Theorems.Requeue

/-! Queues as their consumers see them. Where every consumer takes any message and nothing expires, who is handed how many
    messages depends on how many there are and not on which ones. -/

namespace Broko.Broker
open Amqp Storage

/-- The message but for the time of its enqueue. --/
def Message.unstamped (m : Message) : Message := { m with enqueued_at := 0 }

/-- How many messages wait in a queue, its consumers, and where the round robin is. --/
structure Load where
  waiting : Nat
  consumers : List (Ref × Consumer)
  next : Nat

namespace Load

/-- The checks of `dispatchLocked` that are not about the message. --/
def free (c : Consumer) : Bool :=
  c.on_deliver.isSome && !(0 < c.prefetch_count && c.prefetch_count.toNat ≤ c.in_flight.toNat)

def isFree (l : Load) (k : Ref) : Bool := (l.consumers.lookup k).any free

/-- A consumer that was handed a message. --/
def charge (c : Consumer) : Consumer := if c.no_ack then c else { c with in_flight := c.in_flight + 1 }

def hand (k : Ref) (idx : Nat) (l : Load) : Load :=
  { waiting := l.waiting - 1, consumers := l.consumers.map fun e => (e.1, if e.1 = k then charge e.2 else e.2), next := idx }

def dispatchLoop : Nat → Load → Load
  | 0, l => l
  | turns + 1, l =>
    if l.waiting = 0 then l
    else
      match AmqpServer.pickConsumer l.isFree (l.consumers.map Prod.fst) l.consumers.length l.next with
      | (none, idx) => { l with next := idx }
      | (some k, idx) => dispatchLoop turns (l.hand k idx)

/-- One message more, and a dispatch. --/
def enter (l : Load) : Load := dispatchLoop (l.waiting + 1) { l with waiting := l.waiting + 1 }

end Load

namespace AmqpServer

variable {n : Nat} {s s' : AmqpServer} {name name' : Bytes} {q : MessageQueue} {k r : Ref}

def loadOf (s : AmqpServer) (q : MessageQueue) : Load :=
  { waiting := q.messages.length, consumers := q.consumers.map fun k => (k, s.consumer k), next := q.roundRobinIdx }

def load (s : AmqpServer) (name : Bytes) : Option Load := (s.queue name).map s.loadOf

/-- No consumer of the queue is choosy about messages. --/
def Evenhanded (s : AmqpServer) (q : MessageQueue) : Prop := ∀ k ∈ q.consumers, (s.consumer k).no_local = false

/-! ### A dispatch -/

theorem consumer_handOver_self (head : Ref) (idx : Nat) :
    (s.handOver name k head idx).consumer k = Load.charge (s.consumer k) := by
  rw [handOver, consumer_onDeliver, Load.charge]
  split
  · rename_i hack
    exact (if_pos hack).symm
  · rename_i hack
    rw [consumer, modifyConsumer, Heap.cell_modify_self]
    exact (if_neg hack).symm

theorem consumer_handOver_of_ne {k' : Ref} (hne : k ≠ k') (head : Ref) (idx : Nat) :
    (s.handOver name k' head idx).consumer k = s.consumer k := by
  rw [handOver, consumer_onDeliver]
  split
  · rfl
  · exact consumer_modifyConsumer_of_ne hne _

theorem Evenhanded.handOver (h : s.Evenhanded q) (k head : Ref) (idx : Nat) :
    (s.handOver name k head idx).Evenhanded { q with messages := q.messages.tail, roundRobinIdx := idx } := by
  intro k' hk'
  by_cases hk : k' = k
  · subst hk
    rw [consumer_handOver_self, Load.charge]
    split
    · exact h k' hk'
    · exact h k' hk'
  · rw [consumer_handOver_of_ne hk]
    exact h k' hk'

/-- `deliverToQueue` of a queue in which nothing expires. --/
def enterQueue (r : Ref) (s : AmqpServer) (name : Bytes) : AmqpServer :=
  match s.queue name with
  | none => s
  | some _ => (s.pushBack name r).dispatchLocked name

/-- In the queue nothing expires, and every consumer takes anything. --/
structure Plain (s : AmqpServer) (q : MessageQueue) : Prop where
  ttl : q.queueTtlMs < 0
  lasting : ∀ r ∈ q.messages, (s.message r).properties.expiration = none
  evenhanded : s.Evenhanded q

theorem queue_pushBack (hq : s.queue name = some q) (r : Ref) : ∃ q', (s.pushBack name r).queue name = some q' ∧
    q'.frame = q.frame ∧ q'.messages.Perm (q.messages ++ [r]) ∧ q'.roundRobinIdx = q.roundRobinIdx := by
  have hpush := queue_modifyQueue (s := s.readClock.modifyMessage r fun m => { m with enqueued_at := s.now }) hq
  refine ⟨_, hpush _, rfl, ?_, rfl⟩
  exact sortMessages_perm ..

theorem skeleton_enterQueue (r : Ref) (name : Bytes) : (s.enterQueue r name).skeleton = s.skeleton := by
  rw [enterQueue]
  split
  · rfl
  · rw [skeleton_dispatchLocked, skeleton_pushBack]

theorem keeps_enterQueue (name : Bytes) (hn : n ≤ s.heap.size) (hr : r < n) : KeepsMessages n s (s.enterQueue r name) := by
  rw [enterQueue]
  split
  · exact .refl
  · have hpush := KeepsMessages.pushBack (n := n) (s := s) name hr
    exact hpush.trans (.dispatchLocked name (hn.trans hpush.size))

theorem everIn_pushBack (r : Ref) (h : name' ≠ name) : Config.everIn (s.pushBack name r) name' = Config.everIn s name' :=
  congrArg (Option.map MessageQueue.enqueued) (queue_modifyQueue_of_ne h _)

/-- The queue does not have the consumer. --/
def Lacks (s : AmqpServer) (name : Bytes) (k : Ref) : Prop := ∀ q, s.queue name = some q → k ∉ q.consumers

theorem Lacks.of_skeleton (h : s'.skeleton = s.skeleton) (hl : s.Lacks name k) : s'.Lacks name k := by
  intro q hq
  obtain ⟨q₀, hq₀, hframe⟩ := queue_of_skeleton h.symm hq
  have hconsumers : q₀.frame.consumers = q.frame.consumers := by rw [hframe]
  have hsame : q₀.consumers = q.consumers := hconsumers
  exact hsame ▸ hl q₀ hq₀

theorem queue_enterQueue {q' : MessageQueue} (hq' : (s.enterQueue r name).queue name' = some q') :
    ∃ q, s.queue name' = some q ∧ q'.frame = q.frame ∧ ∀ r' ∈ q'.messages, r' ∈ q.messages ∨ r' = r := by
  obtain ⟨q, hq, hframe⟩ := queue_of_skeleton (skeleton_enterQueue r name).symm hq'
  refine ⟨q, hq, hframe.symm, fun r' hr' => ?_⟩
  rw [enterQueue] at hq'
  split at hq'
  · rw [hq] at hq'
    exact .inl (Option.some.inj hq' ▸ hr')
  · by_cases hname : name' = name
    · subst hname
      obtain ⟨q₁, hq₁, -, hperm, -⟩ := queue_pushBack hq r
      obtain ⟨rest, hrest, hsplit⟩ := takesFront_dispatchLocked _ _ (deque_of_queue hq₁)
      rw [deque_of_queue hq'] at hrest
      have hmem : r' ∈ q₁.messages := by
        rw [← hsplit]
        exact List.mem_append_right _ ((Prod.mk.inj (Option.some.inj hrest)).1 ▸ hr')
      exact (List.mem_append.mp (hperm.mem_iff.mp hmem)).imp_right List.mem_singleton.mp
    · rw [queue_dispatchLocked_of_ne hname, pushBack, queue_modifyQueue_of_ne hname] at hq'
      exact .inl (Option.some.inj (hq.symm.trans hq') ▸ hr')

/-! ### Several queues -/

/-- The queues of `names` are plain, and what is in a queue is among the first `n` messages. --/
structure Calm (n : Nat) (names : List Bytes) (s : AmqpServer) : Prop where
  placed : Placed s
  size : n ≤ s.heap.size
  held : Held n s
  plain : ∀ name ∈ names, ∀ q, s.queue name = some q → s.Plain q

theorem Plain.congr {q' : MessageQueue} (h : s.Plain q) (hskel : s'.skeleton = s.skeleton) (hframe : q'.frame = q.frame)
    (hlasting : ∀ r ∈ q'.messages, (s'.message r).properties.expiration = none) : s'.Plain q' := by
  have hsettings : q'.frame.queueTtlMs = q.frame.queueTtlMs ∧ q'.frame.consumers = q.frame.consumers := by
    rw [hframe]
    exact ⟨rfl, rfl⟩
  obtain ⟨httl, hconsumers⟩ : q'.queueTtlMs = q.queueTtlMs ∧ q'.consumers = q.consumers := hsettings
  refine ⟨httl ▸ h.ttl, hlasting, fun k hk => ?_⟩
  have hsame : (s'.skeleton.consumer k).no_local = (s.skeleton.consumer k).no_local := by rw [hskel]
  exact hsame.trans (h.evenhanded k (hconsumers ▸ hk))

theorem KeepsMessages.expiration (h : KeepsMessages n s s') (hr : r < n) :
    (s'.message r).properties.expiration = (s.message r).properties.expiration := by
  obtain ⟨now, heq⟩ := h.messages r hr
  rw [heq]

theorem Calm.enterQueue {names : List Bytes} (h : Calm n names s) (hr : r < n)
    (hlasting : (s.message r).properties.expiration = none) (name : Bytes) : Calm n names (s.enterQueue r name) := by
  have hkeeps := keeps_enterQueue name h.size hr
  have hskel := skeleton_enterQueue (s := s) r name
  refine ⟨h.placed.of_skeleton hskel, h.size.trans hkeeps.size, hkeeps.held h.held, fun name' hname' q' hq' => ?_⟩
  obtain ⟨q, hq, hframe, hmem⟩ := queue_enterQueue hq'
  have hplain := h.plain name' hname' q hq
  refine hplain.congr hskel hframe fun r' hr' => ?_
  rcases hmem r' hr' with hold | rfl
  · rw [hkeeps.expiration (h.held name' q hq r' hold)]
    exact hplain.lasting r' hold
  · rw [hkeeps.expiration hr]
    exact hlasting

/-- What becomes of a rejected message, and where it is sent. --/
def deadMail (q : Option MessageQueue) (name reason : Bytes) (m : Message) : Message × Option (Bytes × Bytes) :=
  match q with
  | none => (m, none)
  | some q =>
    if q.dlxExchange = [] ∨ q.deadLetterFn = false then (m, none)
    else if MAX_DLX_HOPS < m.dlx_hops + 1 then ({ m with dlx_hops := m.dlx_hops + 1 }, none)
    else (m.deathMarked name reason, some (deathAddress q m))

theorem modifyMessage_congr {f g : Message → Message} (h : f (s.message r) = g (s.message r)) :
    s.modifyMessage r f = s.modifyMessage r g := by
  have hcell : ({ s.heap.cell r with msg := f (s.heap.cell r).msg } : Cell) =
      { s.heap.cell r with msg := g (s.heap.cell r).msg } :=
    congrArg (fun m => ({ s.heap.cell r with msg := m } : Cell)) h
  rw [modifyMessage, modifyMessage, Heap.modify, Heap.modify, hcell]

theorem modifyMessage_id {f : Message → Message} (h : f (s.message r) = s.message r) : s.modifyMessage r f = s := by
  have hcell : (fun r' => if r' = r then ({ s.heap.cell r with msg := f (s.heap.cell r).msg } : Cell) else s.heap.cell r') =
      s.heap.cell := by
    funext r'
    split
    · rename_i heq
      rw [heq]
      exact congrArg (fun m => ({ s.heap.cell r with msg := m } : Cell)) h
    · rfl
  rw [modifyMessage, Heap.modify, hcell]

theorem letter_eq (name reason : Bytes) (s : AmqpServer) (r : Ref) : letter name reason s r =
    (s.modifyMessage r fun m => (deadMail (s.queue name) name reason m).1,
      (deadMail (s.queue name) name reason (s.message r)).2) := by
  rw [letter]
  cases hq : s.queue name with
  | none => exact congrArg₂ Prod.mk (modifyMessage_id rfl).symm rfl
  | some q =>
    dsimp only
    by_cases hoff : q.dlxExchange = [] ∨ q.deadLetterFn = false
    · rw [if_pos hoff]
      refine congrArg₂ Prod.mk (modifyMessage_id ?_).symm ?_
      · rw [deadMail, if_pos hoff]
      · rw [deadMail, if_pos hoff]
    · rw [if_neg hoff, message_modifyMessage_self, modifyMessage_modifyMessage, message_modifyMessage_self]
      by_cases hhops : MAX_DLX_HOPS < (s.message r).dlx_hops + 1
      · rw [if_pos hhops]
        refine congrArg₂ Prod.mk (modifyMessage_congr ?_) ?_
        · rw [deadMail, if_neg hoff, if_pos hhops]
        · rw [deadMail, if_neg hoff, if_pos hhops]
      · rw [if_neg hhops]
        refine congrArg₂ Prod.mk (modifyMessage_congr ?_) ?_
        · rw [deadMail, if_neg hoff, if_neg hhops]
          rfl
        · rw [deadMail, if_neg hoff, if_neg hhops]
          rfl

theorem deadMail_frame (o : Option MessageQueue) (name reason : Bytes) (m : Message) :
    deadMail (o.map MessageQueue.frame) name reason m = deadMail o name reason m := by
  cases o <;> rfl

theorem deathMarked_stamp (name reason : Bytes) (m : Message) (now : Int) :
    Message.deathMarked name reason { m with enqueued_at := now } =
      { m.deathMarked name reason with enqueued_at := now } := by
  simp only [Message.deathMarked, setHeader]

theorem deadMail_stamp (o : Option MessageQueue) (name reason : Bytes) (m : Message) (now : Int) :
    deadMail o name reason { m with enqueued_at := now } =
      ({ (deadMail o name reason m).1 with enqueued_at := now }, (deadMail o name reason m).2) := by
  cases o with
  | none => rfl
  | some q =>
    rw [deadMail, deadMail]
    dsimp only
    split
    · rfl
    · split
      · rfl
      · exact congrArg₂ Prod.mk (deathMarked_stamp name reason m now) rfl

/-- The queues that the message goes to when it is rejected. --/
def letterTo (s : AmqpServer) (u : UnackedMessage) : List Bytes :=
  match letter u.queue_name (ascii "rejected") s u.message with
  | (_, none) => []
  | (s₁, some addr) => s₁.letterQueues u.message addr

/-- The message when it goes there. --/
def lettered (s : AmqpServer) (u : UnackedMessage) : Message :=
  (letter u.queue_name (ascii "rejected") s u.message).1.message u.message

/-- `deadMail` of an entry. --/
def mailOf (s : AmqpServer) (u : UnackedMessage) : Message × Option (Bytes × Bytes) :=
  deadMail (s.queue u.queue_name) u.queue_name (ascii "rejected") (s.message u.message)

theorem lettered_eq (s : AmqpServer) (u : UnackedMessage) : s.lettered u = (s.mailOf u).1 := by
  rw [lettered, letter_eq]
  exact message_modifyMessage_self ..

theorem letterTo_eq (s : AmqpServer) (u : UnackedMessage) : s.letterTo u =
    ((s.mailOf u).2.map fun addr => s.routeMessage addr.1 addr.2 (s.mailOf u).1.properties.headers).getD [] := by
  have hmail : s.mailOf u = deadMail (s.queue u.queue_name) u.queue_name (ascii "rejected") (s.message u.message) := rfl
  rw [letterTo, letter_eq, ← hmail]
  cases h : (s.mailOf u).2 with
  | none => rfl
  | some addr =>
    dsimp only
    rw [letterQueues, message_modifyMessage_self, ← hmail]
    rfl

theorem mail_congr {u : UnackedMessage}
    (hqueue : (s'.queue u.queue_name).map MessageQueue.frame = (s.queue u.queue_name).map MessageQueue.frame)
    (hexchanges : s'.exchanges = s.exchanges) (hm : (s'.message u.message).unstamped = (s.message u.message).unstamped) :
    s'.letterTo u = s.letterTo u ∧ (s'.lettered u).unstamped = (s.lettered u).unstamped := by
  have hstamp : s'.message u.message = { s.message u.message with enqueued_at := (s'.message u.message).enqueued_at } :=
    congrArg (fun m : Message => { m with enqueued_at := (s'.message u.message).enqueued_at }) hm
  have hmail : s'.mailOf u =
      ({ (s.mailOf u).1 with enqueued_at := (s'.message u.message).enqueued_at }, (s.mailOf u).2) := by
    rw [mailOf, mailOf, ← deadMail_frame, hqueue, deadMail_frame, hstamp, deadMail_stamp]
  rw [letterTo_eq, letterTo_eq, lettered_eq, lettered_eq, hmail]
  refine ⟨?_, rfl⟩
  simp only [routeMessage, hexchanges]

theorem KeepsMessages.unstamped (h : KeepsMessages n s s') (hr : r < n) :
    (s'.message r).unstamped = (s.message r).unstamped := by
  obtain ⟨now, heq⟩ := h.messages r hr
  rw [heq]
  rfl

end AmqpServer
end Broko.Broker
