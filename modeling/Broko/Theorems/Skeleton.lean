import Broko.Broker.Server

/-! What the operations of queues leave alone. Enqueueing, expiry, dispatch and dead-lettering move messages
    and post tasks; the rest of the state, the `skeleton`, is the same before and after. -/

namespace Broko.Broker
open Amqp Storage

/-- A queue without its messages. --/
def MessageQueue.frame (q : MessageQueue) : MessageQueue :=
  { q with messages := [], roundRobinIdx := 0, enqueued := [] }

/-- A connection without what is on its way to the client. --/
def Connection.frame (conn : Connection) : Connection := { conn with strand := [], sent := [] }

def Consumer.frame (k : Consumer) : Consumer := { k with in_flight := 0 }

namespace AmqpServer

/-- The state without messages, credit, tasks and output. --/
def skeleton (s : AmqpServer) : AmqpServer :=
  { s with
    queues := s.queues.map MessageQueue.frame
    connections := s.connections.map Connection.frame
    heap := Heap.empty
    consumerHeap := ⟨s.consumerHeap.size, fun k => (s.consumerHeap.cell k).frame⟩
    readings := 0
    ledger := [] }

variable {s : AmqpServer}

/-! ### What the skeleton shows -/

theorem queue_skeleton (name : Bytes) : s.skeleton.queue name = (s.queue name).map MessageQueue.frame :=
  Assoc.lookup_map _ _ _

theorem connection_skeleton (c : Nat) : s.skeleton.connection c = (s.connection c).map Connection.frame :=
  Assoc.lookup_map _ _ _

theorem queue_of_skeleton {s' : AmqpServer} (h : s'.skeleton = s.skeleton) {name : Bytes} {q : MessageQueue}
    (hq : s.queue name = some q) : ∃ q', s'.queue name = some q' ∧ q'.frame = q.frame := by
  have hmap := queue_skeleton (s := s') name
  rw [h, queue_skeleton, hq, Option.map_some, eq_comm, Option.map_eq_some_iff] at hmap
  exact hmap

theorem exchanges_of_skeleton {s' : AmqpServer} (h : s'.skeleton = s.skeleton) : s'.exchanges = s.exchanges := by
  have hex : s'.skeleton.exchanges = s.skeleton.exchanges := by rw [h]
  exact hex

theorem store_of_skeleton {s' : AmqpServer} (h : s'.skeleton = s.skeleton) : s'.store = s.store := by
  have hst : s'.skeleton.store = s.skeleton.store := by rw [h]
  exact hst

theorem routeMessage_of_skeleton {s' : AmqpServer} (h : s'.skeleton = s.skeleton) (exchange rk : Bytes)
    (headers : Option FieldTable) : s'.routeMessage exchange rk headers = s.routeMessage exchange rk headers := by
  rw [routeMessage, exchanges_of_skeleton h, ← routeMessage]

theorem channel_of_skeleton {s' : AmqpServer} (h : s'.skeleton = s.skeleton) (c : Nat) (num : UInt16) :
    s'.channel c num = s.channel c num := by
  have hconn : (s'.connection c).map Connection.frame = (s.connection c).map Connection.frame := by
    rw [← connection_skeleton, h, connection_skeleton]
  have hbind : ∀ x : Option Connection, (x.bind fun conn => conn.channels.lookup num) =
      (x.map Connection.frame).bind fun conn => conn.channels.lookup num := by
    intro x
    cases x <;> rfl
  rw [channel, channel, hbind, hconn, ← hbind]

/-! ### Updates -/

@[simp] theorem skeleton_modifyMessage (r : Ref) (f : Message → Message) :
    (s.modifyMessage r f).skeleton = s.skeleton := rfl

@[simp] theorem skeleton_newMessage (m : Message) : (s.newMessage m).skeleton = s.skeleton := rfl

@[simp] theorem skeleton_newDelivery (r : Ref) (m : Message) : (s.newDelivery r m).skeleton = s.skeleton := rfl

@[simp] theorem skeleton_readClock : s.readClock.skeleton = s.skeleton := rfl

@[simp] theorem skeleton_record (facts : List Fact) : (s.record facts).skeleton = s.skeleton := rfl

theorem skeleton_modifyQueue {name : Bytes} {f : MessageQueue → MessageQueue} (h : ∀ q, (f q).frame = q.frame) :
    (s.modifyQueue name f).skeleton = s.skeleton := by
  simp only [skeleton, modifyQueue, Assoc.map_modify_of_eq h]

theorem skeleton_modifyConnection {c : Nat} {f : Connection → Connection} (h : ∀ conn, (f conn).frame = conn.frame) :
    (s.modifyConnection c f).skeleton = s.skeleton := by
  simp only [skeleton, modifyConnection, Assoc.map_modify_of_eq h]

theorem skeleton_modifyConsumer {k : Ref} {f : Consumer → Consumer} (h : ∀ x, (f x).frame = x.frame) :
    (s.modifyConsumer k f).skeleton = s.skeleton := by
  have hcells : (fun r => ((s.modifyConsumer k f).consumerHeap.cell r).frame) =
      fun r => (s.consumerHeap.cell r).frame :=
    funext (Heap.cell_modify_congr Consumer.frame h)
  simp only [skeleton, hcells]
  rfl

@[simp] theorem skeleton_send (c : Nat) (out : Outgoing) : (s.send c out).skeleton = s.skeleton :=
  skeleton_modifyConnection fun _ => rfl

@[simp] theorem skeleton_sendFrame (c : Nat) (f : Frame) : (s.sendFrame c f).skeleton = s.skeleton :=
  skeleton_send c _

@[simp] theorem skeleton_sendMethodFrame (c : Nat) (num classId methodId : UInt16) (args : Bytes) :
    (s.sendMethodFrame c num classId methodId args).skeleton = s.skeleton :=
  skeleton_sendFrame c _

/-- A fold over operations that keep the skeleton keeps it. --/
theorem skeleton_foldl {α : Type} {f : AmqpServer → α → AmqpServer} (h : ∀ s a, (f s a).skeleton = s.skeleton)
    (l : List α) (s : AmqpServer) : (l.foldl f s).skeleton = s.skeleton := by
  induction l generalizing s with
  | nil => rfl
  | cons a l ih => rw [List.foldl_cons, ih, h]

@[simp] theorem skeleton_sendContentFrames (c : Nat) (num classId : UInt16) (props : BasicProperties) (body : Bytes) :
    (s.sendContentFrames c num classId props body).skeleton = s.skeleton := by
  rw [sendContentFrames]
  split
  · rfl
  · exact skeleton_foldl (fun s f => skeleton_sendFrame c f) _ _

@[simp] theorem skeleton_sendReturn (c : Nat) (num : UInt16) (m : Message) : (s.sendReturn c num m).skeleton = s.skeleton := by
  rw [sendReturn, skeleton_sendContentFrames, skeleton_sendMethodFrame]

@[simp] theorem skeleton_sendChannelClose (c : Nat) (num code classId methodId : UInt16) (text : Bytes) :
    (s.sendChannelClose c num code text classId methodId).skeleton = s.skeleton :=
  skeleton_sendMethodFrame ..

/-! ### Queues -/

@[simp] theorem skeleton_collectExpired (name : Bytes) : (s.collectExpired name).2.skeleton = s.skeleton := by
  rw [collectExpired]
  split
  · rfl
  · split
    · rfl
    · rw [skeleton_record, skeleton_modifyQueue, skeleton_readClock]
      exact fun _ => rfl

@[simp] theorem skeleton_onDeliver (k taken : Ref) : (s.onDeliver k taken).skeleton = s.skeleton := by
  rw [onDeliver]
  split
  · rfl
  · dsimp only
    rw [skeleton_modifyConnection, skeleton_newDelivery]
    exact fun _ => rfl

@[simp] theorem skeleton_handOver (name : Bytes) (k head : Ref) (idx : Nat) :
    (s.handOver name k head idx).skeleton = s.skeleton := by
  rw [handOver, skeleton_onDeliver]
  split
  · exact skeleton_modifyQueue fun _ => rfl
  · rw [skeleton_modifyConsumer]
    · exact skeleton_modifyQueue fun _ => rfl
    · exact fun _ => rfl

theorem skeleton_dispatchLoop (name : Bytes) (turns : Nat) (s : AmqpServer) :
    (dispatchLoop name turns s).skeleton = s.skeleton := by
  induction turns generalizing s with
  | zero => rfl
  | succ turns ih =>
    rw [dispatchLoop]
    split
    · rfl
    · split
      · rfl
      · split
        · exact skeleton_modifyQueue fun _ => rfl
        · rw [ih, skeleton_handOver]

@[simp] theorem skeleton_dispatchLocked (name : Bytes) : (s.dispatchLocked name).skeleton = s.skeleton := by
  rw [dispatchLocked]
  split
  · rfl
  · split
    · rfl
    · exact skeleton_dispatchLoop ..

/-- The sort of a queue with priorities moves messages, and no more. --/
theorem sortMessages_perm (s : AmqpServer) (q : MessageQueue) (messages : List Ref) :
    (s.sortMessages q messages).Perm messages := by
  rw [sortMessages]
  split
  · exact List.perm_insertionSort ..
  · exact .refl _

@[simp] theorem skeleton_pushBack (name : Bytes) (r : Ref) : (s.pushBack name r).skeleton = s.skeleton := by
  rw [pushBack, skeleton_modifyQueue, skeleton_modifyMessage, skeleton_readClock]
  exact fun _ => rfl

theorem skeleton_deadLetterWith {enqueue : AmqpServer → Bytes → Ref → AmqpServer}
    (h : ∀ s name r, (enqueue s name r).skeleton = s.skeleton) (name reason : Bytes) (s : AmqpServer) (r : Ref) :
    (deadLetterWith enqueue name reason s r).skeleton = s.skeleton := by
  rw [deadLetterWith]
  split
  · rfl
  · split
    · rfl
    · dsimp only
      split
      · exact skeleton_modifyMessage ..
      · rw [skeleton_foldl fun s name => h s name r, skeleton_modifyMessage, skeleton_modifyMessage]

theorem skeleton_enqueueLoop (fuel : Nat) (s : AmqpServer) (name : Bytes) (r : Ref) :
    (enqueueLoop fuel s name r).skeleton = s.skeleton := by
  induction fuel generalizing s name r with
  | zero => rfl
  | succ fuel ih =>
    rw [enqueueLoop]
    split
    · rfl
    · dsimp only
      rw [skeleton_foldl fun s r => skeleton_deadLetterWith ih _ _ s r, skeleton_dispatchLocked,
        skeleton_collectExpired, skeleton_pushBack]

@[simp] theorem skeleton_deliverToQueue (name : Bytes) (r : Ref) : (s.deliverToQueue name r).skeleton = s.skeleton :=
  skeleton_enqueueLoop ..

@[simp] theorem skeleton_deadLetter (name reason : Bytes) (r : Ref) :
    (deadLetter name reason s r).skeleton = s.skeleton :=
  skeleton_deadLetterWith (skeleton_enqueueLoop _) ..

@[simp] theorem skeleton_get (name : Bytes) : (s.get name).2.skeleton = s.skeleton := by
  rw [get]
  dsimp only
  rw [skeleton_foldl fun s r => skeleton_deadLetter _ _ r, skeleton_modifyQueue, skeleton_collectExpired]
  exact fun _ => rfl

@[simp] theorem skeleton_purge (name : Bytes) : (s.purge name).skeleton = s.skeleton := by
  rw [purge]
  split
  · rfl
  · rw [skeleton_record, skeleton_modifyQueue]
    exact fun _ => rfl

@[simp] theorem skeleton_reject (name : Bytes) (requeue : Bool) (r : Ref) :
    (s.reject name requeue r).skeleton = s.skeleton := by
  rw [reject]
  split
  · rw [skeleton_dispatchLocked, skeleton_modifyQueue, skeleton_modifyMessage]
    exact fun _ => rfl
  · exact skeleton_deadLetter ..

@[simp] theorem skeleton_flush (name : Bytes) : (s.flush name).skeleton = s.skeleton := by
  rw [flush]
  dsimp only
  rw [skeleton_foldl fun s r => skeleton_deadLetter _ _ r, skeleton_dispatchLocked, skeleton_collectExpired]

@[simp] theorem skeleton_tick : s.tick.skeleton = s.skeleton := skeleton_foldl (fun _ name => skeleton_flush name) _ _

/-! ### Settlement -/

theorem skeleton_releaseCredit (u : UnackedMessage) : (s.releaseCredit u).skeleton = s.skeleton := by
  rw [releaseCredit]
  split
  · rfl
  · exact skeleton_modifyConsumer fun _ => rfl

theorem skeleton_rejectIfThere (requeue : Bool) (u : UnackedMessage) : (s.rejectIfThere requeue u).skeleton = s.skeleton := by
  rw [rejectIfThere]
  split
  · rfl
  · exact skeleton_reject ..

end AmqpServer
end Broko.Broker
