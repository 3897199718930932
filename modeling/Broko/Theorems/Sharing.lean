import Broko.Theorems.Places
import Broko.Theorems.VHostRuns

/-! Message objects are not shared. What is published is copied for each queue that it goes to; a dead letter is not. As long
    as no dead letter is routed to two queues, an object is referred to from one place at a time, and what is done to a
    message in one queue is not seen in another. -/

namespace Broko.Broker
open Amqp Storage MessageStore

namespace AmqpServer

/-- The message objects that are referred to, as often as they are. --/
def references (s : AmqpServer) : Multiset Ref := s.contents.map Prod.snd

/-- Whether the object was made between the two states. --/
def fresh (s s' : AmqpServer) (r : Nat) : Nat := if s.heap.size ≤ r ∧ r < s'.heap.size then 1 else 0

/-- From the objects that are referred to or in hand, and from new ones, come those that are afterwards; a new one is used
    once. --/
structure Carries (hand hand' : Multiset Ref) (s s' : AmqpServer) : Prop where
  heap : s.heap.size ≤ s'.heap.size
  count : ∀ r, hand'.count r + s'.references.count r ≤ hand.count r + s.references.count r + fresh s s' r

variable {c : Nat} {num : UInt16} {s s' s₁ s₂ : AmqpServer} {name : Bytes} {h h₁ h₂ : Multiset Ref}

theorem fresh_add (h₁ : s.heap.size ≤ s₁.heap.size) (h₂ : s₁.heap.size ≤ s₂.heap.size) (r : Ref) :
    fresh s s₁ r + fresh s₁ s₂ r = fresh s s₂ r := by
  unfold fresh
  split_ifs <;> omega

namespace Carries

theorem refl : Carries h h s s := ⟨le_rfl, fun _ => Nat.le_add_right _ _⟩

theorem trans (h₁₂ : Carries h h₁ s s₁) (h₂₃ : Carries h₁ h₂ s₁ s₂) : Carries h h₂ s s₂ := by
  refine ⟨h₁₂.heap.trans h₂₃.heap, fun r => ?_⟩
  have h₁ := h₁₂.count r
  have h₂ := h₂₃.count r
  have hfresh := fresh_add h₁₂.heap h₂₃.heap r
  omega

/-- What else is in hand stays there. --/
theorem frame (hc : Carries h h₁ s s₁) (g : Multiset Ref) : Carries (g + h) (g + h₁) s s₁ := by
  refine ⟨hc.heap, fun r => ?_⟩
  have hr := hc.count r
  rw [Multiset.count_add, Multiset.count_add]
  omega

/-- What is in hand all the time does not matter. --/
theorem cancel {g : Multiset Ref} (hc : Carries (g + h) (g + h₁) s s₁) : Carries h h₁ s s₁ := by
  refine ⟨hc.heap, fun r => ?_⟩
  have hr := hc.count r
  rw [Multiset.count_add, Multiset.count_add] at hr
  omega

theorem drop (hle : h₁ ≤ h) : Carries h h₁ s s := by
  refine ⟨le_rfl, fun r => ?_⟩
  have hr := Multiset.count_le_of_le r hle
  omega

/-- Nothing is put anywhere. --/
theorem of_le (hle : s'.contents ≤ s.contents) (hheap : s.heap.size ≤ s'.heap.size) : Carries h h s s' := by
  refine ⟨hheap, fun r => ?_⟩
  have hr := Multiset.count_le_of_le r (Multiset.map_le_map (f := Prod.snd) hle)
  rw [references, references]
  omega

theorem same (hcontents : s'.contents = s.contents) (hheap : s'.heap.size = s.heap.size) : Carries h h s s' :=
  of_le hcontents.le hheap.ge

/-- Objects go from the places into the hand and from the hand to the places. --/
theorem of_add (hcontents : h₁ + s'.references ≤ h + s.references) (hheap : s'.heap.size = s.heap.size) :
    Carries h h₁ s s' := by
  refine ⟨hheap.ge, fun r => ?_⟩
  have hr := Multiset.count_le_of_le r hcontents
  rw [Multiset.count_add, Multiset.count_add] at hr
  omega

theorem move {k : Kind} (hm : Move c k s s') (hk : k ∉ placingKinds) : Carries h h s s' :=
  of_le (contents_le_of_move hm hk) (heap_le_of_move hm)

theorem does {K : List Kind} (hd : Does c K s s') (hv : Valid s) (hK : ∀ k ∈ K, k ∉ placingKinds) : Carries h h s s' :=
  (hd.moves hv).keeps (P := fun s' => Carries h h s s') (fun k hk _ _ hm hc => hc.trans (move hm (hK k hk))) refl

/-- One after the other. --/
theorem foldl {α : Type} {P : AmqpServer → Prop} {f : AmqpServer → α → AmqpServer} {g : α → Multiset Ref}
    (hP : ∀ s a, P s → P (f s a)) (hf : ∀ s a, P s → Carries (g a) 0 s (f s a)) (l : List α) (s : AmqpServer) (hs : P s) :
    Carries (l.map g).sum 0 s (l.foldl f s) := by
  induction l generalizing s with
  | nil => exact refl
  | cons a l ih =>
    have hfirst := (hf s a hs).frame (l.map g).sum
    rw [add_zero, add_comm, ← List.sum_cons, ← List.map_cons] at hfirst
    exact hfirst.trans (ih (f s a) (hP s a hs))

/-- The same where nothing is in hand. --/
theorem foldl_of {α : Type} {P : AmqpServer → Prop} {f : AmqpServer → α → AmqpServer} (hP : ∀ s a, P s → P (f s a))
    (hf : ∀ s a, P s → Carries 0 0 s (f s a)) (l : List α) (s : AmqpServer) (hs : P s) : Carries 0 0 s (l.foldl f s) := by
  induction l generalizing s with
  | nil => exact refl
  | cons a l ih => exact (hf s a hs).trans (ih (f s a) (hP s a hs))

end Carries

/-! ### Queues -/

theorem references_of_queue {q : MessageQueue} (hq : s.queue name = some q) :
    s.references = (q.messages : Multiset Ref) + (s.besidesQueue name).map Prod.snd := by
  rw [references, contents_of_queue hq, Multiset.map_add, MessageQueue.contents, Multiset.map_map]
  congr 1
  exact Multiset.map_id _

theorem references_modifyQueue {q : MessageQueue} (hq : s.queue name = some q) (f : MessageQueue → MessageQueue) :
    (s.modifyQueue name f).references = ((f q).messages : Multiset Ref) + (s.besidesQueue name).map Prod.snd := by
  rw [references, contents_modifyQueue hq, Multiset.map_add, MessageQueue.contents, Multiset.map_map]
  congr 1
  exact Multiset.map_id _

/-- Messages go into a queue and out of it. --/
theorem carries_modifyQueue {f : MessageQueue → MessageQueue}
    (hf : ∀ q, s.queue name = some q → h₁ + ((f q).messages : Multiset Ref) ≤ h + (q.messages : Multiset Ref))
    (hnone : s.queue name = none → h₁ ≤ h) : Carries h h₁ s (s.modifyQueue name f) := by
  cases hq : s.queue name with
  | none =>
    rw [modifyQueue_of_none hq]
    exact .drop (hnone hq)
  | some q =>
    refine .of_add ?_ rfl
    rw [references_of_queue hq, references_modifyQueue hq, ← add_assoc, ← add_assoc]
    exact add_le_add_left (hf q hq) _

theorem carries_pushBack (r : Ref) : Carries {r} 0 s (s.pushBack name r) := by
  have hstamp : Carries {r} {r} s (s.readClock.modifyMessage r fun m => { m with enqueued_at := s.now }) := .same rfl rfl
  refine hstamp.trans (carries_modifyQueue (fun q _ => ?_) fun _ => Multiset.zero_le _)
  dsimp only
  rw [Multiset.coe_eq_coe.mpr (sortMessages_perm _ q (q.messages ++ [r])), zero_add, ← Multiset.coe_add, Multiset.coe_singleton,
    add_comm]

theorem carries_collectExpired (name : Bytes) : Carries 0 ((s.collectExpired name).1 : Multiset Ref) s (s.collectExpired name).2 := by
  rw [collectExpired]
  cases hq : s.queue name with
  | none => exact .refl
  | some q =>
    dsimp only
    split
    · exact .refl
    · generalize hdlq : q.messages.takeWhile (s.isExpired q s.now) = dlq
      have hsplit : dlq ++ q.messages.drop dlq.length = q.messages := by
        obtain ⟨rest, hrest⟩ := List.takeWhile_prefix (s.isExpired q s.now) (l := q.messages)
        rw [hdlq] at hrest
        rw [← hrest, List.drop_left]
      have htake : Carries 0 (dlq : Multiset Ref) s.readClock
          (s.readClock.modifyQueue name fun q => { q with messages := q.messages.drop dlq.length }) := by
        refine carries_modifyQueue (fun q' hq' => ?_) fun hnone => ?_
        · obtain rfl := Option.some.inj (hq.symm.trans hq')
          rw [Multiset.coe_add, hsplit, zero_add]
        · exact absurd (hq.symm.trans hnone) (Option.some_ne_none q)
      have hclock : Carries 0 0 s s.readClock := .same rfl rfl
      have hrecord : ∀ (s₁ : AmqpServer) facts, Carries (dlq : Multiset Ref) dlq s₁ (s₁.record facts) := fun _ _ => .same rfl rfl
      exact hclock.trans (htake.trans (hrecord _ _))

/-- The new object of a delivery is posted once. --/
theorem carries_onDeliver (k taken : Ref) : Carries 0 0 s (s.onDeliver k taken) := by
  rcases contents_onDeliver (s := s) k taken with ⟨hsame, hheap⟩ | ⟨c, hpost, hheap, -⟩
  · exact .of_le hsame.le hheap
  · refine ⟨hheap.ge.trans' (Nat.le_succ _), fun r => ?_⟩
    rw [references, hpost, Multiset.map_cons, Multiset.count_cons, references, fresh, hheap]
    dsimp only
    by_cases hr : r = s.heap.size
    · rw [if_pos hr, if_pos ⟨hr.ge, hr ▸ Nat.lt_succ_self _⟩]
      omega
    · rw [if_neg hr]
      omega

theorem carries_handOver (k head : Ref) (idx : Nat) : Carries 0 0 s (s.handOver name k head idx) := by
  have htake : Carries 0 0 s (s.modifyQueue name fun q => { q with messages := q.messages.tail, roundRobinIdx := idx }) :=
    .of_le (contents_modifyQueue_le fun q => List.tail_sublist _) le_rfl
  have hcredit : ∀ s₁ : AmqpServer, Carries 0 0 s₁ (s₁.modifyConsumer k fun c => { c with in_flight := c.in_flight + 1 }) :=
    fun _ => .same rfl rfl
  rw [handOver]
  split
  · exact htake.trans (carries_onDeliver k head)
  · exact (htake.trans (hcredit _)).trans (carries_onDeliver k head)

theorem carries_dispatchLoop (turns : Nat) (s : AmqpServer) : Carries 0 0 s (dispatchLoop name turns s) := by
  induction turns generalizing s with
  | zero => exact .refl
  | succ turns ih =>
    rw [dispatchLoop]
    split
    · exact .refl
    · split
      · exact .refl
      · split
        · refine .same ?_ rfl
          exact contents_modifyQueue_eq fun _ => rfl
        · exact (carries_handOver ..).trans (ih _)

theorem carries_dispatchLocked (name : Bytes) : Carries 0 0 s (s.dispatchLocked name) := by
  rw [dispatchLocked]
  split
  · exact .refl
  · split
    · exact .refl
    · exact carries_dispatchLoop ..

/-! ### Dead letters -/

/-- No dead letter can be routed to two queues: not from a queue with a routing key for its dead letters by that key, and not
    from another one by any key. --/
def Narrow (s : AmqpServer) : Prop :=
  ∀ name q, s.queue name = some q → q.dlxExchange ≠ [] → q.deadLetterFn = true → ∀ rk headers,
    (q.dlxRoutingKey = [] ∨ rk = q.dlxRoutingKey) →
    ((s.routeMessage q.dlxExchange rk headers).filter fun n => (s.queue n).isSome).length ≤ 1

theorem Narrow.congr (hs : Narrow s) (h : SameTopology s s') : Narrow s' := by
  intro name q' hq' hdlx hfn rk headers hrk
  have hmap := h.queues name
  rw [hq', Option.map_some, eq_comm, Option.map_eq_some_iff] at hmap
  obtain ⟨q, hqueue, hdeclared⟩ := hmap
  simp only [MessageQueue.declared, MessageQueue.mk.injEq] at hdeclared
  obtain ⟨-, -, -, -, -, -, -, -, -, -, -, hexchange, hkey, hdead, -⟩ := hdeclared
  have hone := hs name q hqueue (hexchange ▸ hdlx) (hdead ▸ hfn) rk headers (hkey ▸ hrk)
  rw [routeMessage, h.exchanges, ← routeMessage]
  change (List.filter (fun n => s'.hasQueue n) _).length ≤ 1
  simp only [h.hasQueue]
  rwa [← hexchange]

theorem Narrow.of_skeleton (hs : Narrow s) (h : s'.skeleton = s.skeleton) : Narrow s' := hs.congr (.of_skeleton h)

section
variable {enqueue : AmqpServer → Bytes → Ref → AmqpServer}

/-- A message goes to the queues of a list that are there: at most one of them. --/
theorem carries_letters (hskel : ∀ s name r, (enqueue s name r).skeleton = s.skeleton)
    (hnone : ∀ s name r, s.queue name = none → enqueue s name r = s)
    (henq : ∀ s name r, Narrow s → Carries {r} 0 s (enqueue s name r)) (r : Ref) (names : List Bytes) (s : AmqpServer)
    (hs : Narrow s) (hone : (names.filter fun n => (s.queue n).isSome).length ≤ 1) :
    Carries {r} 0 s (names.foldl (fun s qname => enqueue s qname r) s) := by
  induction names generalizing s with
  | nil => exact .drop (Multiset.zero_le _)
  | cons n names ih =>
    cases hq : s.queue n with
    | none =>
      have hrest : (names.filter fun n => (s.queue n).isSome).length ≤ 1 := by simpa [hq] using hone
      rw [List.foldl_cons, hnone s n r hq]
      exact ih s hs hrest
    | some q =>
      -- All the other names are of no queue.
      have hrest : names.filter (fun n => (s.queue n).isSome) = [] := by
        simpa [List.filter_cons, hq] using hone
      have hgone : ∀ (names : List Bytes) (s₁ : AmqpServer), s₁.skeleton = s.skeleton →
          names.filter (fun n => (s.queue n).isSome) = [] → names.foldl (fun s qname => enqueue s qname r) s₁ = s₁ := by
        intro names
        induction names with
        | nil => exact fun _ _ _ => rfl
        | cons n' names ih =>
          intro s₁ hs₁ hnil
          rw [List.filter_eq_nil_iff] at hnil
          have hnone' : s₁.queue n' = none := by
            have hn' := hnil n' List.mem_cons_self
            rw [Option.isSome_iff_exists, not_exists] at hn'
            cases hq' : s₁.queue n' with
            | none => rfl
            | some q' =>
              obtain ⟨q'', hq'', -⟩ := queue_of_skeleton hs₁.symm hq'
              exact absurd hq'' (hn' q'')
          rw [List.foldl_cons, hnone s₁ n' r hnone']
          exact ih s₁ hs₁ (List.filter_eq_nil_iff.mpr fun x hx => hnil x (List.mem_cons_of_mem _ hx))
      rw [List.foldl_cons, hgone names _ (hskel s n r) hrest]
      exact henq s n r hs

theorem carries_deadLetterWith (hskel : ∀ s name r, (enqueue s name r).skeleton = s.skeleton)
    (hnone : ∀ s name r, s.queue name = none → enqueue s name r = s)
    (henq : ∀ s name r, Narrow s → Carries {r} 0 s (enqueue s name r)) (reason : Bytes) (r : Ref) (hs : Narrow s) :
    Carries {r} 0 s (deadLetterWith enqueue name reason s r) := by
  rw [deadLetterWith]
  split
  · exact .drop (Multiset.zero_le _)
  · rename_i q hq
    split
    · exact .drop (Multiset.zero_le _)
    · rename_i hdlx
      rw [not_or] at hdlx
      dsimp only
      split
      · exact (Carries.drop (Multiset.zero_le _)).trans (.same rfl rfl)
      · have hmark : ∀ f g, Carries {r} {r} s ((s.modifyMessage r f).modifyMessage r g) := fun _ _ => .same rfl rfl
        refine (hmark _ _).trans (carries_letters hskel hnone henq r _ _ ?_ ?_)
        · exact hs.of_skeleton rfl
        · refine hs name q hq hdlx.1 (by simpa using hdlx.2) _ _ ?_
          by_cases hkey : q.dlxRoutingKey = []
          · exact .inl hkey
          · exact .inr (if_neg hkey)

end

theorem enqueueLoop_of_none (fuel : Nat) (s : AmqpServer) (name : Bytes) (r : Ref) (h : s.queue name = none) :
    enqueueLoop fuel s name r = s := by
  cases fuel with
  | zero => rfl
  | succ fuel =>
    rw [enqueueLoop]
    split
    · rfl
    · rename_i hq
      exact absurd (hq.symm.trans h) (Option.some_ne_none _)

theorem sum_map_singleton (l : List Ref) : (l.map fun r => ({r} : Multiset Ref)).sum = (l : Multiset Ref) := by
  induction l with
  | nil => rfl
  | cons r l ih => rw [List.map_cons, List.sum_cons, ih, Multiset.singleton_add, Multiset.cons_coe]

/-- Expired messages are dead-lettered, one after the other. --/
theorem carries_expired {f : AmqpServer → Ref → AmqpServer} (hskel : ∀ s r, (f s r).skeleton = s.skeleton)
    (hf : ∀ s r, Narrow s → Carries {r} 0 s (f s r)) {l : List Ref} (hs : Narrow s) :
    Carries (l : Multiset Ref) 0 s (l.foldl f s) := by
  rw [← sum_map_singleton]
  exact Carries.foldl (P := Narrow) (fun s r hs => hs.of_skeleton (hskel s r)) hf l s hs

theorem carries_enqueueLoop (fuel : Nat) (s : AmqpServer) (name : Bytes) (r : Ref) (hs : Narrow s) :
    Carries {r} 0 s (enqueueLoop fuel s name r) := by
  induction fuel generalizing s name r with
  | zero => exact .drop (Multiset.zero_le _)
  | succ fuel ih =>
    rw [enqueueLoop]
    split
    · exact .drop (Multiset.zero_le _)
    · dsimp only
      have hexpired := carries_collectExpired (s := s.pushBack name r) name
      have hdispatch := (carries_dispatchLocked (s := ((s.pushBack name r).collectExpired name).2) name).frame
        (((s.pushBack name r).collectExpired name).1 : Multiset Ref)
      rw [add_zero] at hdispatch
      refine (carries_pushBack r).trans (hexpired.trans (hdispatch.trans (carries_expired ?_ ?_ ?_)))
      · exact fun s r => skeleton_deadLetterWith (skeleton_enqueueLoop fuel) ..
      · exact fun s r hs => carries_deadLetterWith (skeleton_enqueueLoop fuel) (enqueueLoop_of_none fuel) (fun s name r => ih s name r) _ r hs
      · exact hs.of_skeleton (by rw [skeleton_dispatchLocked, skeleton_collectExpired, skeleton_pushBack])

theorem carries_deliverToQueue (r : Ref) (hs : Narrow s) : Carries {r} 0 s (s.deliverToQueue name r) :=
  carries_enqueueLoop _ s name r hs

theorem carries_deadLetter (reason : Bytes) (s : AmqpServer) (r : Ref) (hs : Narrow s) :
    Carries {r} 0 s (deadLetter name reason s r) :=
  carries_deadLetterWith (skeleton_enqueueLoop _) (enqueueLoop_of_none _) (fun s name r hs => carries_enqueueLoop _ s name r hs)
    reason r hs

theorem carries_flush (s : AmqpServer) (name : Bytes) (hs : Narrow s) : Carries 0 0 s (s.flush name) := by
  have hdispatch := (carries_dispatchLocked (s := (s.collectExpired name).2) name).frame
    ((s.collectExpired name).1 : Multiset Ref)
  rw [add_zero] at hdispatch
  rw [flush]
  refine (carries_collectExpired name).trans (hdispatch.trans (carries_expired ?_ (carries_deadLetter _) ?_))
  · exact fun s r => skeleton_deadLetter ..
  · exact hs.of_skeleton (by rw [skeleton_dispatchLocked, skeleton_collectExpired])

theorem carries_tick (hs : Narrow s) : Carries 0 0 s s.tick :=
  .foldl_of (fun _ name hs => hs.of_skeleton (skeleton_flush name)) carries_flush s.queues.keys s hs

/-- The message that `get` returns is in hand. --/
theorem carries_get (name : Bytes) (hs : Narrow s) : Carries 0 ((s.get name).1.toList : Multiset Ref) s (s.get name).2 := by
  have htake : Carries 0 (((s.collectExpired name).2.queue name).bind fun q => q.messages.head?).toList (s.collectExpired name).2
      ((s.collectExpired name).2.modifyQueue name fun q => { q with messages := q.messages.tail }) := by
    refine carries_modifyQueue (fun q hq => ?_) fun hnone => ?_
    · rw [hq, Option.bind_some]
      cases q.messages with
      | nil => exact le_rfl
      | cons r rest => exact le_of_eq (by simp)
    · rw [hnone]
      exact le_rfl
  have hhand := htake.frame ((s.collectExpired name).1 : Multiset Ref)
  rw [add_zero] at hhand
  rw [get]
  dsimp only
  refine (carries_collectExpired name).trans (hhand.trans ?_)
  generalize (((s.collectExpired name).2.queue name).bind fun q => q.messages.head?).toList = result
  have hdead := (carries_expired (f := deadLetter name (ascii "expired")) (fun s r => skeleton_deadLetter ..)
    (carries_deadLetter (ascii "expired")) (l := (s.collectExpired name).1)
    (s := (s.collectExpired name).2.modifyQueue name fun q => { q with messages := q.messages.tail }) ?_).frame
    (result : Multiset Ref)
  · rw [add_zero] at hdead
    rwa [add_comm]
  · refine hs.of_skeleton ?_
    rw [skeleton_modifyQueue, skeleton_collectExpired]
    exact fun _ => rfl

theorem carries_reject {requeue : Bool} (r : Ref) (hs : requeue = false → Narrow s) :
    Carries {r} 0 s (s.reject name requeue r) := by
  rw [reject]
  split
  · have hmark : Carries {r} {r} s (s.modifyMessage r fun m => { m with redelivered := true }) := .same rfl rfl
    refine hmark.trans (Carries.trans ?_ (carries_dispatchLocked name))
    refine carries_modifyQueue (fun q _ => ?_) fun _ => Multiset.zero_le _
    rw [zero_add, ← Multiset.cons_coe, Multiset.singleton_add]
  · rename_i hrequeue
    exact carries_deadLetter _ s r (hs (Bool.not_eq_true _ ▸ hrequeue))

end AmqpServer
end Broko.Broker
