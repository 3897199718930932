import Broko.Theorems.QueueOrder

/-! Messages that have expired. `collectExpired` takes them from the head of the queue only, and `addConsumer` and
    `reject` dispatch without it: `get` never returns an expired message, but a dispatch hands one out that stands behind
    a message that has not expired, or that expired since the last operation. -/

namespace Broko.Broker
open Amqp Storage

namespace AmqpServer

variable {name : Bytes} {s s' : AmqpServer} {q : MessageQueue}

/-! ### Expired messages -/

/-- The time at which an operation hands messages out: `enqueue` has read the clock once before. --/
def handingTime (name : Bytes) (s : AmqpServer) : QueueOp → Int
  | .enqueue r => (s.pushBack name r).now
  | _ => s.now

/-- The age of the message has reached its TTL at time `now`. --/
def ExpiredAt (name : Bytes) (now : Int) (s : AmqpServer) (r : Ref) : Prop :=
  ∃ q, s.queue name = some q ∧ s.isExpired q now r = true

/-- The state in which an operation hands messages out. --/
def handing (name : Bytes) (s : AmqpServer) (op : QueueOp) : AmqpServer :=
  match op with
  | .get => (s.collectExpired name).2
  | op => (s.dispatching name op).getD s

/-- What is expired when an operation dispatches is taken away before: it stands before all that is not, or there is
    none of it where nothing is taken away. --/
def Timely (name : Bytes) (s : AmqpServer) : QueueOp → Prop
  | .enqueue r =>
    let s := s.pushBack name r
    ∀ q ∈ s.queue name, ∀ r' ∈ q.messages.dropWhile (s.isExpired q s.now), s.isExpired q s.now r' = false
  | .flush => ∀ q ∈ s.queue name, ∀ r ∈ q.messages.dropWhile (s.isExpired q s.now), s.isExpired q s.now r = false
  | .addConsumer _ => ∀ q ∈ s.queue name, ∀ r ∈ q.messages, s.isExpired q s.now r = false
  | .requeue r => ∀ q ∈ s.queue name, ∀ r' ∈ r :: q.messages, s.isExpired q s.now r' = false
  | _ => True

instance (name : Bytes) (s : AmqpServer) : (op : QueueOp) → Decidable (Timely name s op)
  | .enqueue r => inferInstanceAs (Decidable (∀ q ∈ (s.pushBack name r).queue name, ∀ r' ∈ _, _ = _))
  | .flush => inferInstanceAs (Decidable (∀ q ∈ s.queue name, ∀ r ∈ _, _ = _))
  | .addConsumer _ => inferInstanceAs (Decidable (∀ q ∈ s.queue name, ∀ r ∈ _, _ = _))
  | .requeue _ => inferInstanceAs (Decidable (∀ q ∈ s.queue name, ∀ r ∈ _, _ = _))
  | .removeConsumer _ | .removeConsumersByConnection _ | .get | .purge => .isTrue trivial

instance (name : Bytes) (now : Int) (s : AmqpServer) (r : Ref) : Decidable (ExpiredAt name now s r) :=
  decidable_of_iff ((s.queue name).any fun q => s.isExpired q now r) (by
    rw [ExpiredAt]
    cases s.queue name with
    | none => simp
    | some q => simp)

/-! ### Collecting -/

/-- Without a TTL of the queue or of a message nothing expires. --/
theorem isExpired_of_no_ttl (hq : q.queueTtlMs < 0) (hm : s.hasPerMessageTtl q = false) {now : Int} {r : Ref}
    (hr : r ∈ q.messages) : s.isExpired q now r = false := by
  have hnone : (s.message r).properties.expiration = none := by
    have := List.any_eq_false.mp hm r hr
    simpa using this
  have httl : effectiveTtl q (s.message r) < 0 := by
    rw [effectiveTtl, hnone]
    simp only [Option.bind_none, Option.getD_none]
    split
    · omega
    · split <;> omega
  rw [isExpired]
  exact decide_eq_false fun h => absurd h.1 (Int.not_le.mpr httl)

/-- What `collectExpired` leaves. --/
theorem queue_collectExpired (hq : s.queue name = some q) :
    (s.collectExpired name).2.queue name = some { q with messages := q.messages.dropWhile (s.isExpired q s.now) } := by
  rw [collectExpired, hq]
  dsimp only
  split
  · rename_i h
    have hself : q.messages.dropWhile (s.isExpired q s.now) = q.messages := by
      cases hm : q.messages with
      | nil => rfl
      | cons head rest =>
        have hhead : s.isExpired q s.now head = false := isExpired_of_no_ttl h.1 h.2 (hm ▸ List.mem_cons_self)
        rw [List.dropWhile_cons, hhead, if_neg Bool.false_ne_true]
    rw [hself]
    exact hq
  · have hdrop : q.messages.drop (q.messages.takeWhile (s.isExpired q s.now)).length =
        q.messages.dropWhile (s.isExpired q s.now) := by
      have hsplit := @List.takeWhile_append_dropWhile _ (s.isExpired q s.now) q.messages
      conv_lhs =>
        arg 2
        rw [← hsplit]
      exact List.drop_left ..
    rw [← hdrop]
    exact queue_modifyQueue (s := s.readClock) hq _

theorem queue_collected {q' : MessageQueue} (h : (s.collectExpired name).2.queue name = some q') :
    ∃ q, s.queue name = some q ∧ q' = { q with messages := q.messages.dropWhile (s.isExpired q s.now) } := by
  cases hq : s.queue name with
  | none =>
    rw [collectExpired, hq] at h
    rw [hq] at h
    cases h
  | some q => exact ⟨q, rfl, Option.some.inj (h.symm.trans (queue_collectExpired hq))⟩

theorem isExpired_congr {q q' : MessageQueue} {r : Ref} (hprops : (s'.message r).properties = (s.message r).properties)
    (htime : (s'.message r).enqueued_at = (s.message r).enqueued_at) (hq : q'.queueTtlMs = q.queueTtlMs) (now : Int) :
    s'.isExpired q' now r = s.isExpired q now r := by
  rw [isExpired, isExpired, effectiveTtl, effectiveTtl, hprops, htime, hq]

theorem isExpired_collected (messages : List Ref) (now : Int) (r : Ref) :
    (s.collectExpired name).2.isExpired { q with messages } now r = s.isExpired q now r := by
  have hmsg : (s.collectExpired name).2.message r = s.message r := by rw [message, message, heap_collectExpired]
  exact isExpired_congr (by rw [hmsg]) (by rw [hmsg]) rfl now

/-! ### Handing out -/

theorem mem_of_handed {r : Ref} (hq : s.queue name = some q) (hr : r ∈ s.handed name) : r ∈ q.messages := by
  obtain ⟨rest, -, heq⟩ := takesFront_dispatchLocked (s := s) _ _ (deque_of_queue hq)
  rw [← heq]
  exact List.mem_append_left _ hr

/-- A dispatch from a state without an expired message. --/
theorem unexpired_handed {now : Int} (h : ∀ q ∈ s.queue name, ∀ r ∈ q.messages, s.isExpired q now r = false) {r : Ref}
    (hr : r ∈ s.handed name) : ¬ExpiredAt name now s r := by
  rintro ⟨q, hq, hexp⟩
  rw [h q hq r (mem_of_handed hq hr)] at hexp
  cases hexp

/-- A dispatch after the expired messages were taken from the head. --/
theorem unexpired_collected
    (h : ∀ q ∈ s.queue name, ∀ r ∈ q.messages.dropWhile (s.isExpired q s.now), s.isExpired q s.now r = false) :
    ∀ q ∈ (s.collectExpired name).2.queue name, ∀ r ∈ q.messages,
      (s.collectExpired name).2.isExpired q s.now r = false := by
  intro q' hq' r hr
  obtain ⟨q, hq, rfl⟩ := queue_collected hq'
  rw [isExpired_collected]
  exact h q hq r hr

/-- The head that `collectExpired` leaves. --/
theorem unexpired_head {r : Ref}
    (hr : ((s.collectExpired name).2.queue name).bind (fun q => q.messages.head?) = some r) :
    ¬ExpiredAt name s.now (s.collectExpired name).2 r := by
  rintro ⟨q', hq', hexp⟩
  rw [hq'] at hr
  obtain ⟨q, hq, rfl⟩ := queue_collected hq'
  have hhead := List.head?_dropWhile_not (s.isExpired q s.now) q.messages
  have hr : (q.messages.dropWhile (s.isExpired q s.now)).head? = some r := hr
  rw [isExpired_collected] at hexp
  rw [hr] at hhead
  cases hexp.symm.trans hhead

/-- One operation. --/
theorem unexpired_handedOut {op : QueueOp} (h : Timely name s op) {r : Ref} (hr : r ∈ s.handedOut name op) :
    ¬ExpiredAt name (s.handingTime name op) (s.handing name op) r := by
  cases op with
  | enqueue msg => exact unexpired_handed (unexpired_collected h) hr
  | addConsumer k =>
    refine unexpired_handed (fun q' hq' r' hr' => ?_) hr
    obtain ⟨q, hq, rfl⟩ := Option.map_eq_some_iff.mp ((Assoc.lookup_modify_self ..).symm.trans hq')
    exact h q hq r' hr'
  | get =>
    have hhead : ((s.collectExpired name).2.queue name).bind (fun q => q.messages.head?) = some r :=
      Option.mem_toList.mp hr
    exact unexpired_head hhead
  | requeue msg =>
    refine unexpired_handed (fun q' hq' r' hr' => ?_) hr
    obtain ⟨q, hq, rfl⟩ := Option.map_eq_some_iff.mp ((Assoc.lookup_modify_self ..).symm.trans hq')
    have hprops := message_modifyMessage (s := s) (f := fun m => { m with redelivered := true }) Message.properties
      (fun _ => rfl) msg r'
    have htime := message_modifyMessage (s := s) (f := fun m => { m with redelivered := true }) Message.enqueued_at
      (fun _ => rfl) msg r'
    rw [← h q hq r' hr']
    exact isExpired_congr hprops htime rfl _
  | flush => exact unexpired_handed (unexpired_collected h) hr
  | _ => cases hr

/-! ### Runs -/

/-- In a run, an operation that dispatches when all that has expired stands at the head, or none has where it is not taken
    away, hands out no message that has expired. --/
theorem no_expired_handed_out {log : List (AmqpServer × QueueOp)} (hrun : QueueRun name s log s')
    (hlog : ∀ x ∈ log, Timely name x.1 x.2) :
    ∀ x ∈ log, ∀ r ∈ x.1.handedOut name x.2, ¬ExpiredAt name (x.1.handingTime name x.2) (x.1.handing name x.2) r := by
  induction hrun with
  | nil => nofun
  | between run h ih => exact ih hlog
  | @op log s₁ run o h ih =>
    intro x hx
    rcases List.mem_append.mp hx with hx | hlast
    · exact ih (fun x hx => hlog x (List.mem_append_left _ hx)) x hx
    · obtain rfl := List.mem_singleton.mp hlast
      exact fun r hr => unexpired_handedOut (hlog _ (List.mem_append_right _ List.mem_cons_self)) hr

/-- A queue, a message without a TTL, one that expires after 150 ms, and a consumer. The clock advances 100 ms with each
    reading. --/
def expiringServer : AmqpServer :=
  let s := ((freshServer.run (Client.connect 1 ++ [Client.openChannel 1 1, Client.assertQueue 1 1 (ascii "q") false false
    false false []])).newMessage {}).newMessage { properties := { expiration := some (ascii "150") } }
  { s with
    clock := fun n => 100000000 * n
    consumerHeap := s.consumerHeap.alloc
      { tag := ascii "t", queue_name := ascii "q", on_deliver := some ⟨1, 1, 0, ascii "q"⟩ } }

/-- The second message has come to the head when it expires: `get` hands out the first one. --/
theorem no_expired_handed_out_ops :
    let s := [.enqueue 0, .enqueue 1].foldl (locked (ascii "q")) expiringServer
    0 ∈ s.handedOut (ascii "q") .get ∧
      ¬ExpiredAt (ascii "q") (s.handingTime (ascii "q") .get) (s.handing (ascii "q") .get) 0 := by
  have hrun : QueueRun (ascii "q") expiringServer
      (opsFrom (ascii "q") expiringServer [.enqueue 0, .enqueue 1, .get, .flush, .addConsumer 0])
      ([.enqueue 0, .enqueue 1, .get, .flush, .addConsumer 0].foldl (locked (ascii "q")) expiringServer) :=
    QueueRun.nil.opsFrom [.enqueue 0, .enqueue 1, .get, .flush, .addConsumer 0] (by decide +kernel)
  have hhead : 0 ∈ ([.enqueue 0, .enqueue 1].foldl (locked (ascii "q")) expiringServer).handedOut (ascii "q") .get := by
    decide +kernel
  refine ⟨hhead, no_expired_handed_out hrun (by decide +kernel) (_, .get) ?_ 0 hhead⟩
  exact List.mem_cons_of_mem _ (List.mem_cons_of_mem _ List.mem_cons_self)

/-- The second message is handed out behind the first one, 200 ms after it was enqueued. --/
theorem expired_handed_out :
    QueueRun (ascii "q") expiringServer (opsFrom (ascii "q") expiringServer [.enqueue 0, .enqueue 1])
        ([.enqueue 0, .enqueue 1].foldl (locked (ascii "q")) expiringServer) ∧
      1 ∈ ([.enqueue 0, .enqueue 1].foldl (locked (ascii "q")) expiringServer).handedOut (ascii "q") (.addConsumer 0) ∧
      ExpiredAt (ascii "q")
        (([.enqueue 0, .enqueue 1].foldl (locked (ascii "q")) expiringServer).handingTime (ascii "q") (.addConsumer 0))
        (([.enqueue 0, .enqueue 1].foldl (locked (ascii "q")) expiringServer).handing (ascii "q") (.addConsumer 0)) 1 := by
  exact ⟨QueueRun.nil.opsFrom [.enqueue 0, .enqueue 1] (by decide +kernel), by decide +kernel, by decide +kernel⟩

end AmqpServer
end Broko.Broker
