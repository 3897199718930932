import Broko.Theorems.Handlers
import Broko.Theorems.Moves

/-! The moves of the operations of a queue, and of what is sent to a client. -/

namespace Broko.Broker
open Amqp Storage MessageStore

namespace AmqpServer

variable {c : Nat} {num : UInt16} {K : List Kind} {s s₁ : AmqpServer}

/-! ### Queues -/

theorem does_collectExpired (name : Bytes) : Does c [.queue] s (s.collectExpired name).2 := by
  rw [collectExpired]
  split
  · exact .refl
  · rename_i q hq
    split
    · exact .refl
    · -- The clock is read first; the expired messages are a prefix.
      have hsplit : q.messages = q.messages.takeWhile (s.isExpired q s.now) ++
          q.messages.dropWhile (s.isExpired q s.now) := List.takeWhile_append_dropWhile.symm
      exact (Does.of .clock).andThen (.of (.expire (s := s.readClock) hq hsplit))

theorem pickConsumer_eq_some {ok : Ref → Bool} {consumers : List Ref} {attempts idx idx' : Nat} {k : Ref}
    (h : pickConsumer ok consumers attempts idx = (some k, idx')) : k ∈ consumers ∧ ok k = true := by
  induction attempts generalizing idx with
  | zero => cases h
  | succ attempts ih =>
    rw [pickConsumer] at h
    split at h
    · cases h
    · rename_i k' hk'
      split at h
      · rename_i hok
        cases h
        exact ⟨List.mem_of_getElem? hk', hok⟩
      · exact ih h

theorem does_dispatchLoop (name : Bytes) (turns : Nat) (s : AmqpServer) :
    Does c [.queue] s (dispatchLoop name turns s) := by
  induction turns generalizing s with
  | zero => exact .refl
  | succ turns ih =>
    rw [dispatchLoop]
    split
    · exact .refl
    · rename_i q hq
      split
      · exact .refl
      · rename_i head rest hm
        split
        · exact .of (.rotate ..)
        · rename_i k idx hpick
          obtain ⟨hk, he⟩ := pickConsumer_eq_some hpick
          exact (Does.of (.handOver idx hq hm hk he)).andThen (ih _)

theorem does_dispatchLocked (name : Bytes) : Does c [.queue] s (s.dispatchLocked name) := by
  rw [dispatchLocked]
  split
  · exact .refl
  · split
    · exact .refl
    · exact does_dispatchLoop ..

/-- The time is stamped on a message before it is pushed. --/
theorem does_stamp (r : Ref) (at_ : Int) :
    Does c [.queue] s (s.readClock.modifyMessage r fun m => { m with enqueued_at := at_ }) :=
  (Does.of .clock).andThen (.of (.touch r _ fun _ => rfl))

theorem mem_collectExpired {name : Bytes} {r : Ref} (h : r ∈ (s.collectExpired name).1) :
    ∃ q, s.queue name = some q ∧ r ∈ q.messages := by
  rw [collectExpired] at h
  split at h
  · cases h
  · rename_i q hq
    split at h
    · cases h
    · exact ⟨q, hq, List.takeWhile_subset _ h⟩

/-- The messages that have expired go on to `f`, one after the other. --/
theorem does_expired {f : AmqpServer → Ref → AmqpServer} (hf : ∀ s r, r < s.heap.size → Does c K s (f s r))
    {name : Bytes} (h : Does c K (s.collectExpired name).2 s₁) (hK : Kind.queue ∈ K) :
    Does c K s ((s.collectExpired name).1.foldl f s₁) := by
  refine Does.ofValid fun hv => ?_
  have hexp : Does c K s (s.collectExpired name).2 := (does_collectExpired name).mono (by simpa using hK)
  refine (hexp.andThen h).andThen_of_le fun hle => Does.foldl_refs hf _ _ fun r hr => ?_
  obtain ⟨q, hq, hr⟩ := mem_collectExpired hr
  exact ((hv.queue hq).messages r hr).trans_le hle

/-- Dead-lettering, where the queues that a letter is routed to take it by moves of the same kind. --/
theorem does_deadLetterWith {enqueue : AmqpServer → Bytes → Ref → AmqpServer}
    (hskel : ∀ s name r, (enqueue s name r).skeleton = s.skeleton)
    (henq : ∀ {s : AmqpServer} {q : MessageQueue} {name name' rk : Bytes} {headers : Option FieldTable} {r : Ref},
      r < s.heap.size → s.queue name = some q → q.dlxExchange ≠ [] →
      name' ∈ s.routeMessage q.dlxExchange rk headers → Does c [.queue] s (enqueue s name' r))
    (name reason : Bytes) (s : AmqpServer) (r : Ref) (hr : r < s.heap.size) :
    Does c [.queue] s (deadLetterWith enqueue name reason s r) := by
  -- The queue and the exchange of the letter stay what they are while it goes to one queue after the other.
  have hfold : ∀ (l : List Bytes) (s : AmqpServer) (q : MessageQueue) (rk : Bytes) (headers : Option FieldTable),
      r < s.heap.size → s.queue name = some q → q.dlxExchange ≠ [] →
      (∀ name' ∈ l, name' ∈ s.routeMessage q.dlxExchange rk headers) →
      Does c [.queue] s (l.foldl (fun s name' => enqueue s name' r) s) := by
    intro l
    induction l with
    | nil => exact fun _ _ _ _ _ _ _ _ => .refl
    | cons name' l ih =>
      intro s q rk headers hr hq hdlx hroute
      have hs := hskel s name' r
      obtain ⟨q', hq', hframe⟩ := queue_of_skeleton hs hq
      have hdlx' : q'.frame.dlxExchange = q.frame.dlxExchange := by rw [hframe]
      change q'.dlxExchange = q.dlxExchange at hdlx'
      refine (henq hr hq hdlx (hroute name' List.mem_cons_self)).andThen_of_le fun hle =>
        ih _ q' rk headers (hr.trans_le hle) hq' ?_ ?_
      · rwa [hdlx']
      · intro x hx
        rw [hdlx', routeMessage_of_skeleton hs]
        exact hroute x (List.mem_cons_of_mem _ hx)
  rw [deadLetterWith]
  split
  · exact .refl
  · rename_i q hq
    split
    · exact .refl
    · rename_i hdlx
      rw [not_or] at hdlx
      dsimp only
      have hhop : Does c [.queue] s (s.modifyMessage r fun m => { m with dlx_hops := m.dlx_hops + 1 }) :=
        .of (.touch r _ fun _ => rfl)
      split
      · exact hhop
      · exact (hhop.andThen (.of (.mark reason r hq hdlx.1))).andThen (hfold _ _ q _ _ hr hq hdlx.1 fun _ h => h)

theorem does_enqueueLoop (fuel : Nat) (s : AmqpServer) (name : Bytes) (r : Ref) :
    enqueueLoop fuel s name r = s ∨
      ∃ q, s.queue name = some q ∧ Does c [.queue] (s.pushBack name r) (enqueueLoop fuel s name r) := by
  induction fuel generalizing s name r with
  | zero => exact .inl rfl
  | succ fuel ih =>
    rw [enqueueLoop]
    split
    · exact .inl rfl
    · rename_i q hq
      refine .inr ⟨q, hq, does_expired (fun s r hr => ?_) (does_dispatchLocked name) (List.mem_singleton_self _)⟩
      refine does_deadLetterWith (skeleton_enqueueLoop fuel) ?_ name _ s r hr
      intro s q name name' rk headers r hr hq hdlx hroute
      rcases ih s name' r with heq | ⟨q', hq', hdoes⟩
      · rw [heq]
        exact .refl
      · exact ((does_stamp r s.now).andThen (.of (.letter r hr hq hdlx hroute hq'))).andThen hdoes

theorem does_deliverToQueue (name : Bytes) {r : Ref} (hr : r < s.heap.size) :
    Does c [.queue, .enqueue] s (s.deliverToQueue name r) := by
  rcases does_enqueueLoop (c := c) s.dlxFuel s name r with heq | ⟨q, hq, hdoes⟩
  · rw [deliverToQueue, heq]
    exact .refl
  · exact (((does_stamp r s.now).trans (.of (.enqueue r hr hq))).trans hdoes).mono (by decide)

theorem does_deadLetter (name reason : Bytes) (s : AmqpServer) (r : Ref) (hr : r < s.heap.size) :
    Does c [.queue] s (deadLetter name reason s r) := by
  refine does_deadLetterWith (skeleton_enqueueLoop _) ?_ name reason s r hr
  intro s' q name name' rk headers r hr hq hdlx hroute
  rcases does_enqueueLoop (c := c) s.dlxFuel s' name' r with heq | ⟨q', hq', hdoes⟩
  · rw [heq]
    exact .refl
  · exact ((does_stamp r s'.now).andThen (.of (.letter r hr hq hdlx hroute hq'))).andThen hdoes

theorem does_get (name : Bytes) : Does c [.queue, .take] s (s.get name).2 :=
  does_expired (fun s r hr => (does_deadLetter _ _ s r hr).mono (by decide)) ((Does.of (.take name)).mono (by decide))
    (by decide)

theorem heap_collectExpired (name : Bytes) : (s.collectExpired name).2.heap = s.heap := by
  rw [collectExpired]
  split
  · rfl
  · split <;> rfl

/-- What `get` returns is an object. --/
theorem lt_of_get (hv : Valid s) {name : Bytes} {r : Ref} (h : (s.get name).1 = some r) : r < s.heap.size := by
  obtain ⟨q, hq, hhead⟩ := Option.bind_eq_some_iff.mp h
  have hexp := ((does_collectExpired (c := 0) (s := s) name).moves hv).valid hv
  rw [← heap_collectExpired name]
  exact (hexp.queue hq).messages r (List.mem_of_head? hhead)

theorem does_reject (name : Bytes) (requeue : Bool) {r : Ref} (hr : r < s.heap.size) :
    Does c [.queue, .requeue] s (s.reject name requeue r) := by
  rw [reject]
  split
  · have hmark : Does c [.queue] s (s.modifyMessage r fun m => { m with redelivered := true }) :=
      .of (.touch r _ fun _ => rfl)
    exact ((hmark.trans (.of (.requeue name r hr))).trans (does_dispatchLocked name)).mono (by decide)
  · exact (does_deadLetter _ _ s r hr).mono (by decide)

theorem does_flush (name : Bytes) : Does c [.queue] s (s.flush name) :=
  does_expired (does_deadLetter _ _) (does_dispatchLocked name) (List.mem_singleton_self _)

theorem does_tick : Does c [.queue] s s.tick := Does.foldl (fun _ name => does_flush name) _ _

/-! ### Output -/

theorem does_sendMethodFrame {k : Kind} (classId methodId : UInt16) (args : Bytes)
    (hk : methodKind classId methodId = k) :
    Does c [k] s (s.sendMethodFrame c num classId methodId args) := by
  rw [← hk, ← outgoingKind_methodFrame num classId methodId args]
  exact .of (.send _)

theorem type_contentFrames {id classId : UInt16} {frameMax : UInt32} {props : BasicProperties} {body : Bytes} {f : Frame}
    (hf : f ∈ contentFrames id classId frameMax props body) : f.type ≠ FRAME_METHOD := by
  rw [contentFrames, List.mem_cons, List.mem_append, List.mem_map] at hf
  rcases hf with rfl | ⟨chunk, -, rfl⟩ | hf
  · exact nofun
  · exact nofun
  · split at hf
    · rw [List.mem_singleton] at hf
      rw [hf]
      exact nofun
    · cases hf

theorem does_sendContentFrames (classId : UInt16) (props : BasicProperties) (body : Bytes) :
    Does c [.output] s (s.sendContentFrames c num classId props body) := by
  rw [sendContentFrames]
  split
  · exact .refl
  · refine Does.foldl_of (fun s f hf => ?_) s
    have htype : f.type ≠ FRAME_METHOD := type_contentFrames hf
    rw [← outgoingKind_of_ne htype]
    exact .of (.send _)

theorem does_sendChannelClose (replyCode : UInt16) (replyText : Bytes) (classId methodId : UInt16) :
    Does c [.output] s (s.sendChannelClose c num replyCode replyText classId methodId) :=
  does_sendMethodFrame _ _ _ rfl

theorem does_clearPending : Does c [.pending] s (s.setPending c num none) :=
  .of (.pending num none fun p hp => absurd hp (Option.some_ne_none p).symm)

theorem does_setPending {p : PendingPublish} (hp : p.Sound) : Does c [.pending] s (s.setPending c num (some p)) :=
  .of (.pending num (some p) fun _ hx => Option.some.inj hx ▸ hp)

theorem does_sendConfirm : Does c [.confirm] s (s.sendConfirm c num) := by
  rw [sendConfirm]
  split
  · exact .refl
  · split
    · refine (Does.of (.note num _ ?_ (.inl rfl))).andThen (does_sendMethodFrame _ _ _ rfl)
      exact fun _ => rfl
    · exact .refl

end AmqpServer
end Broko.Broker
