import Mathlib.Algebra.Order.BigOperators.Group.Finset
import Mathlib.Tactic.Ring
import Broko.Broker.Cascade
import Broko.Broker.Client
import Broko.Theorems.QueueOrder
import Broko.Theorems.Runs

/-! Cascades of dead letters end. A message that `deadLetter` passes on has used up one of its hops, and no part of a cascade
    gives a message new hops; so the hops that the messages have left bound the depth. -/

namespace Broko.Broker
open Amqp Storage

namespace AmqpServer

variable {n : Nat} {name reason : Bytes} {r m : Ref} {s s₁ s' : AmqpServer} {work : CascadeWork}
  {calls : List CascadeCall}

theorem message_modifyMessage_self (r : Ref) (f : Message → Message) : (s.modifyMessage r f).message r = f (s.message r) :=
  congrArg Cell.msg (Heap.cell_modify_self s.heap r fun x => { x with msg := f x.msg })

theorem message_modifyMessage_of_ne (h : m ≠ r) (f : Message → Message) : (s.modifyMessage r f).message m = s.message m := by
  rw [message, modifyMessage, Heap.cell_modify_of_ne h, message]

/-- The messages in queues are among the first `n`. --/
def Held (n : Nat) (s : AmqpServer) : Prop := s.queues.All fun _ q => ∀ r ∈ q.messages, r < n

/-- What a section keeps of the first `n` messages: all but the time of their enqueue, and that no other message is in a
    queue. --/
structure KeepsMessages (n : Nat) (s s' : AmqpServer) : Prop where
  size : s.heap.size ≤ s'.heap.size
  messages : ∀ m < n, ∃ now, s'.message m = { s.message m with enqueued_at := now }
  held : Held n s → Held n s'

namespace KeepsMessages

theorem of_same (size : s.heap.size ≤ s'.heap.size) (messages : ∀ m < n, s'.message m = s.message m)
    (held : Held n s → Held n s') : KeepsMessages n s s' :=
  ⟨size, fun m hm => ⟨(s.message m).enqueued_at, messages m hm⟩, held⟩

theorem refl : KeepsMessages n s s := of_same le_rfl (fun _ _ => rfl) id

theorem trans (h₁ : KeepsMessages n s s₁) (h₂ : KeepsMessages n s₁ s') : KeepsMessages n s s' := by
  refine ⟨h₁.size.trans h₂.size, fun m hm => ?_, fun h => h₂.held (h₁.held h)⟩
  obtain ⟨now₁, hfirst⟩ := h₁.messages m hm
  obtain ⟨now₂, hsecond⟩ := h₂.messages m hm
  exact ⟨now₂, by rw [hsecond, hfirst]⟩

theorem hops (h : KeepsMessages n s s') (hm : m < n) : (s'.message m).dlx_hops = (s.message m).dlx_hops := by
  obtain ⟨now, heq⟩ := h.messages m hm
  rw [heq]

theorem of_eq (hheap : s'.heap = s.heap) (hqueues : s'.queues = s.queues) : KeepsMessages n s s' := by
  refine of_same (le_of_eq (by rw [hheap])) (fun m _ => by rw [message, message, hheap]) fun h => ?_
  rw [Held, hqueues]
  exact h

theorem modifyQueue (name : Bytes) {f : MessageQueue → MessageQueue}
    (hf : ∀ q, (∀ r ∈ q.messages, r < n) → ∀ r ∈ (f q).messages, r < n) : KeepsMessages n s (s.modifyQueue name f) :=
  of_same le_rfl (fun _ _ => rfl) fun h => h.modify fun q _ hq => hf q hq

theorem stamp (r : Ref) (now : Int) : KeepsMessages n s (s.modifyMessage r fun m => { m with enqueued_at := now }) := by
  refine ⟨le_rfl, fun m _ => ?_, id⟩
  by_cases hm : m = r
  · rw [hm, message_modifyMessage_self]
    exact ⟨now, rfl⟩
  · rw [message_modifyMessage_of_ne hm]
    exact ⟨_, rfl⟩

theorem onDeliver (hn : n ≤ s.heap.size) (k taken : Ref) : KeepsMessages n s (s.onDeliver k taken) := by
  rw [AmqpServer.onDeliver]
  split
  · exact refl
  · refine of_same (Nat.le_succ _) (fun m hm => ?_) id
    exact congrArg Cell.msg (Heap.cell_alloc_of_ne (Nat.ne_of_lt (hm.trans_le hn)))

theorem handOver (hn : n ≤ s.heap.size) (name : Bytes) (k head : Ref) (idx : Nat) :
    KeepsMessages n s (s.handOver name k head idx) := by
  have htail : KeepsMessages n s (s.modifyQueue name fun q => { q with messages := q.messages.tail, roundRobinIdx := idx }) :=
    modifyQueue name fun q hq r hr => hq r (List.mem_of_mem_tail hr)
  rw [AmqpServer.handOver]
  split
  · exact htail.trans (onDeliver (s := s.modifyQueue name _) hn k head)
  · have hcredit : ∀ s₁ : AmqpServer, KeepsMessages n s₁ (s₁.modifyConsumer k fun c => { c with in_flight := c.in_flight + 1 }) :=
      fun _ => of_eq rfl rfl
    exact (htail.trans (hcredit _)).trans (onDeliver (s := (s.modifyQueue name _).modifyConsumer k _) hn k head)

theorem dispatchLoop (name : Bytes) (turns : Nat) (s : AmqpServer) (hn : n ≤ s.heap.size) :
    KeepsMessages n s (dispatchLoop name turns s) := by
  induction turns generalizing s with
  | zero => exact refl
  | succ turns ih =>
    rw [AmqpServer.dispatchLoop]
    split
    · exact refl
    · split
      · exact refl
      · split
        · exact modifyQueue name fun q hq => hq
        · rename_i head _ _ _ k idx _
          have hhand := handOver hn name k head idx
          exact hhand.trans (ih _ (hn.trans hhand.size))

theorem dispatchLocked (name : Bytes) (hn : n ≤ s.heap.size) : KeepsMessages n s (s.dispatchLocked name) := by
  rw [AmqpServer.dispatchLocked]
  split
  · exact refl
  · split
    · exact refl
    · exact dispatchLoop name _ s hn

theorem collectExpired (name : Bytes) : KeepsMessages n s (s.collectExpired name).2 := by
  rw [AmqpServer.collectExpired]
  split
  · exact refl
  · split
    · exact refl
    · have hread : KeepsMessages n s s.readClock := of_eq rfl rfl
      have hdrop : ∀ k, KeepsMessages n s.readClock
          (s.readClock.modifyQueue name fun q => { q with messages := q.messages.drop k }) :=
        fun k => modifyQueue name fun q hq r hr => hq r (List.mem_of_mem_drop hr)
      exact (hread.trans (hdrop _)).trans (of_eq rfl rfl)

theorem pushBack (name : Bytes) (hr : r < n) : KeepsMessages n s (s.pushBack name r) := by
  have hread : KeepsMessages n s s.readClock := of_eq rfl rfl
  have hstamp : KeepsMessages n s.readClock (s.readClock.modifyMessage r fun m => { m with enqueued_at := s.now }) :=
    stamp r s.now
  refine (hread.trans hstamp).trans (modifyQueue name fun q hq r' hr' => ?_)
  have hmem : r' ∈ q.messages ++ [r] := by
    rw [sortMessages] at hr'
    split at hr'
    · exact (List.mem_insertionSort _).mp hr'
    · exact hr'
  rcases List.mem_append.mp hmem with hmem | hmem
  · exact hq r' hmem
  · rw [List.mem_singleton.mp hmem]
    exact hr

theorem enqueueLocked (name : Bytes) (hn : n ≤ s.heap.size) (hr : r < n) : KeepsMessages n s (s.enqueueLocked name r).2 := by
  have hpush := pushBack (n := n) (s := s) name hr
  have hcollect := hpush.trans (collectExpired name)
  exact hcollect.trans (dispatchLocked name (hn.trans hcollect.size))

end KeepsMessages

theorem lt_of_collectExpired (h : Held n s) (hm : m ∈ (s.collectExpired name).1) : m < n := by
  obtain ⟨q, hq, hmem⟩ := mem_collectExpired hm
  exact h name q hq m hmem

/-! ### One letter -/

/-- A letter, and what is passed on, against the whole of `deadLetter`. --/
theorem deadLetterWith_letter (enqueue : AmqpServer → Bytes → Ref → AmqpServer) :
    deadLetterWith enqueue name reason s r =
      match letter name reason s r with
      | (s₁, none) => s₁
      | (s₁, some addr) => (s₁.letterQueues r addr).foldl (fun s qname => enqueue s qname r) s₁ := by
  rw [deadLetterWith, letter]
  cases s.queue name with
  | none => rfl
  | some q =>
    dsimp only
    split
    · rfl
    · split <;> rfl

/-- The message has one hop more, and all the others have what they had. --/
structure OneHop (r : Ref) (s s' : AmqpServer) : Prop where
  size : s'.heap.size = s.heap.size
  queues : s'.queues = s.queues
  hop : (s'.message r).dlx_hops = (s.message r).dlx_hops + 1
  others : ∀ m, m ≠ r → (s'.message m).dlx_hops = (s.message m).dlx_hops

theorem OneHop.modifyMessage {f : Message → Message} (hf : ∀ m, (f m).dlx_hops = m.dlx_hops + 1) :
    OneHop r s (s.modifyMessage r f) := by
  refine ⟨rfl, rfl, ?_, fun m hm => ?_⟩
  · rw [message_modifyMessage_self, hf]
  · rw [message_modifyMessage_of_ne hm]

theorem OneHop.mark (h : OneHop r s s₁) {f : Message → Message} (hf : ∀ m, (f m).dlx_hops = m.dlx_hops) :
    OneHop r s (s₁.modifyMessage r f) := by
  have hkeep := message_modifyMessage (s := s₁) Message.dlx_hops hf r
  exact ⟨h.size, h.queues, (hkeep r).trans h.hop, fun m hm => (hkeep m).trans (h.others m hm)⟩

/-- A letter leaves everything as it was, or takes a hop and is dropped, or takes one of those that were left and is
    passed on. --/
theorem letter_cases (name reason : Bytes) (s : AmqpServer) (r : Ref) :
    letter name reason s r = (s, none) ∨
      (∃ s₁, letter name reason s r = (s₁, none) ∧ MAX_DLX_HOPS ≤ (s.message r).dlx_hops ∧ OneHop r s s₁) ∨
      ∃ s₁ addr, letter name reason s r = (s₁, some addr) ∧ (s.message r).dlx_hops < MAX_DLX_HOPS ∧ OneHop r s s₁ := by
  rw [letter]
  cases s.queue name with
  | none => exact .inl rfl
  | some q =>
    dsimp only
    split
    · exact .inl rfl
    · have hhop : OneHop r s (s.modifyMessage r fun m => { m with dlx_hops := m.dlx_hops + 1 }) :=
        .modifyMessage fun _ => rfl
      rw [hhop.hop]
      split
      · rename_i hlimit
        exact .inr (.inl ⟨_, rfl, Nat.lt_succ_iff.mp hlimit, hhop⟩)
      · rename_i hlimit
        exact .inr (.inr ⟨_, _, rfl, Nat.lt_of_succ_le (not_lt.mp hlimit), hhop.mark fun _ => rfl⟩)

/-! ### Hops -/

/-- The messages that the work is about are among the first `n`. --/
def Within (n : Nat) : CascadeWork → Prop
  | .deliver _ r => r < n
  | .letters _ _ dlq => ∀ r ∈ dlq, r < n

/-- What the calls of a part of a cascade cost: every dead letter a hop, and no letter more than one. --/
structure Spends (n : Nat) (calls : List CascadeCall) (s s' : AmqpServer) : Prop where
  size : s.heap.size ≤ s'.heap.size
  held : Held n s'
  hops : ∀ m < n, min MAX_DLX_HOPS (s.message m).dlx_hops + deadLettered m calls ≤ min MAX_DLX_HOPS (s'.message m).dlx_hops
  counter : ∀ m < n, (s'.message m).dlx_hops ≤ (s.message m).dlx_hops + lettersOf m calls
  others : ∀ m, n ≤ m → deadLettered m calls = 0

namespace Spends
variable {calls₁ calls₂ : List CascadeCall}

theorem trans (h₁ : Spends n calls₁ s s₁) (h₂ : Spends n calls₂ s₁ s') : Spends n (calls₁ ++ calls₂) s s' := by
  refine ⟨h₁.size.trans h₂.size, h₂.held, fun m hm => ?_, fun m hm => ?_, fun m hm => ?_⟩
  · have hfirst := h₁.hops m hm
    have hsecond := h₂.hops m hm
    rw [deadLettered] at hfirst hsecond
    rw [deadLettered, List.countP_append]
    omega
  · have hfirst := h₁.counter m hm
    have hsecond := h₂.counter m hm
    rw [lettersOf] at hfirst hsecond
    rw [lettersOf, List.countP_append]
    omega
  · rw [deadLettered, List.countP_append]
    exact (congrArg₂ _ (h₁.others m hm) (h₂.others m hm)).trans rfl

theorem of_keepsMessages (h : KeepsMessages n s s') (hheld : Held n s) : Spends n [] s s' := by
  refine ⟨h.size, h.held hheld, fun m hm => ?_, fun m hm => ?_, fun _ _ => rfl⟩
  · rw [h.hops hm]
    exact le_rfl
  · rw [h.hops hm]
    exact le_rfl

theorem refl (hheld : Held n s) : Spends n [] s s := of_keepsMessages .refl hheld

theorem enqueue (h : Spends n calls s s') (name : Bytes) (r : Ref) : Spends n (.enqueue name r :: calls) s s' := by
  have hcount : ∀ m, deadLettered m (.enqueue name r :: calls) = deadLettered m calls := fun m =>
    List.countP_cons_of_neg (by simp)
  have hletters : ∀ m, lettersOf m (.enqueue name r :: calls) = lettersOf m calls := fun m =>
    List.countP_cons_of_neg (by simp)
  exact ⟨h.size, h.held, fun m hm => hcount m ▸ h.hops m hm, fun m hm => hletters m ▸ h.counter m hm,
    fun m hm => (hcount m).trans (h.others m hm)⟩

theorem held_of_queues (hheld : Held n s) (h : s₁.queues = s.queues) : Held n s₁ := by
  rw [Held, h]
  exact hheld

/-- A letter that is dropped. --/
theorem dropped (hheld : Held n s) (name : Bytes) (h : s₁ = s ∨ MAX_DLX_HOPS ≤ (s.message r).dlx_hops ∧ OneHop r s s₁) :
    Spends n [.deadLetter name r] s s₁ := by
  have hcount : ∀ m, deadLettered m [.deadLetter name r] = 0 := fun m => rfl
  have hletters : ∀ m, lettersOf m [.deadLetter name r] = if m = r then 1 else 0 := by
    intro m
    rw [lettersOf, List.countP_singleton]
    by_cases hm : m = r
    · simp [hm]
    · simp [hm, Ne.symm hm]
  rcases h with rfl | ⟨hlimit, hhop⟩
  · refine ⟨le_rfl, hheld, fun m _ => ?_, fun m _ => ?_, fun m _ => hcount m⟩
    · rw [hcount]
      exact le_rfl
    · exact Nat.le_add_right ..
  · refine ⟨hhop.size.ge, held_of_queues hheld hhop.queues, fun m _ => ?_, fun m _ => ?_, fun m _ => hcount m⟩
    · rw [hcount]
      by_cases hm : m = r
      · rw [hm, hhop.hop]
        omega
      · rw [hhop.others m hm]
        exact le_rfl
    · rw [hletters]
      split
      · rename_i hm
        rw [hm, hhop.hop]
      · rename_i hm
        rw [hhop.others m hm]
        exact le_rfl

/-- A letter that is passed on. --/
theorem passed (hheld : Held n s) (hr : r < n) (name exchange routingKey : Bytes)
    (hleft : (s.message r).dlx_hops < MAX_DLX_HOPS) (hhop : OneHop r s s₁) :
    Spends n [.deadLetter name r, .routeMessage r exchange routingKey] s s₁ := by
  have hcount : ∀ m, deadLettered m [.deadLetter name r, .routeMessage r exchange routingKey] = if m = r then 1 else 0 := by
    intro m
    rw [deadLettered, List.countP_cons_of_neg (by simp), List.countP_singleton]
    by_cases hm : m = r
    · simp [hm]
    · simp [hm, Ne.symm hm]
  have hletters : ∀ m, lettersOf m [.deadLetter name r, .routeMessage r exchange routingKey] = if m = r then 1 else 0 := by
    intro m
    rw [lettersOf, List.countP_cons, List.countP_singleton]
    by_cases hm : m = r
    · simp [hm]
    · simp [hm, Ne.symm hm]
  refine ⟨hhop.size.ge, held_of_queues hheld hhop.queues, fun m _ => ?_, fun m _ => ?_, fun m hm => ?_⟩
  · rw [hcount]
    split
    · rename_i hm
      rw [hm, hhop.hop]
      omega
    · rename_i hm
      rw [hhop.others m hm]
      exact le_rfl
  · rw [hletters]
    split
    · rename_i hm
      rw [hm, hhop.hop]
    · rename_i hm
      rw [hhop.others m hm]
      exact le_rfl
  · rw [hcount, if_neg]
    exact fun heq => absurd hr (not_lt.mpr (heq ▸ hm))

end Spends

/-- Every part of a cascade. --/
theorem Cascade.spends (h : Cascade s work calls s') (hheld : Held n s) (hn : n ≤ s.heap.size) (hw : Within n work) :
    Spends n calls s s' := by
  induction h with
  | delivered => exact .refl hheld
  | missing _ _ ih => exact ih hheld hn hw
  | enqueue _ _ _ ihexpired ihrest =>
    rename_i s name names r q _ _ _ _ _ _ _
    have hlock := KeepsMessages.enqueueLocked (n := n) name hn hw
    have hpush := KeepsMessages.pushBack (s := s) name hw
    have hmem : Within n (.letters name (ascii "expired") (s.enqueueLocked name r).1) :=
      fun m hm => lt_of_collectExpired (hpush.held hheld) hm
    have hexpired := ihexpired (hlock.held hheld) (hn.trans hlock.size) hmem
    have hall := (Spends.of_keepsMessages hlock hheld).trans hexpired
    exact (hall.enqueue name r).trans (ihrest hall.held (hn.trans hall.size) hw)
  | done => exact .refl hheld
  | dropped hl _ ih =>
    rename_i s name reason r dlq s₁ _ _ _
    have hdrop : Spends n [.deadLetter name r] s s₁ := by
      rcases letter_cases name reason s r with heq | ⟨s₂, heq, hlimit, hhop⟩ | ⟨s₂, addr, heq, -, -⟩
      · exact .dropped hheld name (.inl (Prod.mk.inj (hl.symm.trans heq)).1)
      · obtain rfl := (Prod.mk.inj (hl.symm.trans heq)).1
        exact .dropped hheld name (.inr ⟨hlimit, hhop⟩)
      · cases hl.symm.trans heq
    exact hdrop.trans (ih hdrop.held (hn.trans hdrop.size) fun m hm => hw m (List.mem_cons_of_mem _ hm))
  | routed hl _ _ ihqueues ihrest =>
    rename_i s name reason r dlq s₁ addr _ _ _ _ _ _
    have hr : r < n := hw r List.mem_cons_self
    have hpass : Spends n [.deadLetter name r, .routeMessage r addr.1 addr.2] s s₁ := by
      rcases letter_cases name reason s r with heq | ⟨s₂, heq, -, -⟩ | ⟨s₂, addr', heq, hleft, hhop⟩
      · cases hl.symm.trans heq
      · cases hl.symm.trans heq
      · obtain ⟨rfl, -⟩ := Prod.mk.inj (hl.symm.trans heq)
        exact .passed hheld hr name _ _ hleft hhop
    have hqueues := hpass.trans (ihqueues hpass.held (hn.trans hpass.size) hr)
    exact hqueues.trans (ihrest hqueues.held (hn.trans hqueues.size) fun m hm => hw m (List.mem_cons_of_mem _ hm))

/-! ### The depth -/

/-- The hops that the first `n` messages have left. --/
def budget (n : Nat) (s : AmqpServer) : Nat := (Finset.range n).sum fun m => MAX_DLX_HOPS - (s.message m).dlx_hops

theorem Spends.budget (h : Spends n calls s s') : s'.budget n ≤ s.budget n := by
  refine Finset.sum_le_sum fun m hm => ?_
  have hhops := h.hops m (Finset.mem_range.mp hm)
  omega

theorem OneHop.budget (h : OneHop r s s') (hr : r < n) (hleft : (s.message r).dlx_hops < MAX_DLX_HOPS) :
    s'.budget n < s.budget n := by
  refine Finset.sum_lt_sum (fun m _ => ?_) ⟨r, Finset.mem_range.mpr hr, ?_⟩
  · by_cases hm : m = r
    · rw [hm, h.hop]
      omega
    · rw [h.others m hm]
  · rw [h.hop]
    omega

theorem budget_lt_dlxFuel (hn : n ≤ s.heap.size) : s.budget n < s.dlxFuel := by
  have hsum : s.budget n ≤ (Finset.range n).card • MAX_DLX_HOPS := Finset.sum_le_card_nsmul _ _ _ fun m _ => Nat.sub_le ..
  rw [Finset.card_range, nsmul_eq_mul, Nat.cast_id] at hsum
  rw [dlxFuel]
  have hmul : n * MAX_DLX_HOPS ≤ s.heap.size * MAX_DLX_HOPS := Nat.mul_le_mul_right _ hn
  have hcomm : s.heap.size * MAX_DLX_HOPS + s.heap.size = (MAX_DLX_HOPS + 1) * s.heap.size := by ring
  omega

/-- Letters one after the other, where every one that is passed on has a cascade of its own. `enqueue` may depend on the
    state before the letter, as its fuel does. --/
theorem exists_letters (enqueue : AmqpServer → AmqpServer → Bytes → Ref → AmqpServer) (bound : Nat)
    (hdeliver : ∀ s s₁ names r, Held n s₁ → n ≤ s.heap.size → n ≤ s₁.heap.size → r < n → s₁.budget n < s.budget n →
      s.budget n ≤ bound →
      ∃ calls, Cascade s₁ (.deliver names r) calls (names.foldl (fun t qname => enqueue s t qname r) s₁))
    (name reason : Bytes) (dlq : List Ref) (s : AmqpServer) (hheld : Held n s) (hn : n ≤ s.heap.size)
    (hdlq : ∀ r ∈ dlq, r < n) (hbound : s.budget n ≤ bound) :
    ∃ calls, Cascade s (.letters name reason dlq) calls
      (dlq.foldl (fun t r => deadLetterWith (enqueue t) name reason t r) s) := by
  induction dlq generalizing s with
  | nil => exact ⟨_, .done⟩
  | cons r dlq ih =>
    have hr : r < n := hdlq r List.mem_cons_self
    have hrest : ∀ m ∈ dlq, m < n := fun m hm => hdlq m (List.mem_cons_of_mem _ hm)
    have hone : Within n (.letters name reason [r]) := fun m hm => List.mem_singleton.mp hm ▸ hr
    rw [List.foldl_cons, deadLetterWith_letter]
    rcases hl : letter name reason s r with ⟨s₁, addr | addr⟩
    · have hspent := (Cascade.dropped hl .done).spends hheld hn hone
      obtain ⟨calls, hcascade⟩ := ih s₁ hspent.held (hn.trans hspent.size) hrest (hspent.budget.trans hbound)
      exact ⟨_, .dropped hl hcascade⟩
    · obtain ⟨hleft, hhop⟩ : (s.message r).dlx_hops < MAX_DLX_HOPS ∧ OneHop r s s₁ := by
        rcases letter_cases name reason s r with heq | ⟨s₂, heq, -, -⟩ | ⟨s₂, addr', heq, hleft, hhop⟩
        · cases hl.symm.trans heq
        · cases hl.symm.trans heq
        · obtain ⟨rfl, -⟩ := Prod.mk.inj (hl.symm.trans heq)
          exact ⟨hleft, hhop⟩
      obtain ⟨calls₁, hqueues⟩ := hdeliver s s₁ (s₁.letterQueues r addr) r (Spends.held_of_queues hheld hhop.queues) hn
        (hhop.size.symm ▸ hn) hr (hhop.budget hr hleft) hbound
      have hspent := (Cascade.routed hl hqueues .done).spends hheld hn hone
      obtain ⟨calls₂, hcascade⟩ := ih _ hspent.held (hn.trans hspent.size) hrest (hspent.budget.trans hbound)
      exact ⟨_, .routed hl hqueues hcascade⟩

/-- With more fuel than there are hops left, `enqueue` runs to its end. --/
theorem exists_deliver (fuel : Nat) (s : AmqpServer) (names : List Bytes) (r : Ref) (hheld : Held n s)
    (hn : n ≤ s.heap.size) (hr : r < n) (hfuel : s.budget n < fuel) :
    ∃ calls, Cascade s (.deliver names r) calls (names.foldl (fun t qname => enqueueLoop fuel t qname r) s) := by
  induction fuel generalizing s names r with
  | zero => exact absurd hfuel (Nat.not_lt_zero _)
  | succ fuel ihfuel =>
    induction names generalizing s with
    | nil => exact ⟨_, .delivered⟩
    | cons name names ih =>
      rw [List.foldl_cons]
      cases hq : s.queue name with
      | none =>
        have hsame : enqueueLoop (fuel + 1) s name r = s := by
          rw [enqueueLoop, hq]
        rw [hsame]
        obtain ⟨calls, hrest⟩ := ih s hheld hn hfuel
        exact ⟨calls, .missing hq hrest⟩
      | some q =>
        have hlock := KeepsMessages.enqueueLocked (n := n) name hn hr
        have hspent := Spends.of_keepsMessages hlock hheld
        have hletters := exists_letters (n := n) (fun _ => enqueueLoop fuel) fuel
          (fun s₀ s₁ names r hheld₁ _ hn₁ hr hless hle => ihfuel s₁ names r hheld₁ hn₁ hr (hless.trans_le hle))
          name (ascii "expired") (s.enqueueLocked name r).1 _ hspent.held (hn.trans hspent.size)
          (fun m hm => lt_of_collectExpired ((KeepsMessages.pushBack name hr).held hheld) hm)
          (hspent.budget.trans (Nat.lt_succ_iff.mp hfuel))
        have hstep : enqueueLoop (fuel + 1) s name r =
            (s.enqueueLocked name r).1.foldl (fun t r => deadLetterWith (enqueueLoop fuel) name (ascii "expired") t r)
              (s.enqueueLocked name r).2 := by
          rw [enqueueLoop, hq]
          rfl
        rw [hstep]
        obtain ⟨calls₁, hexpired⟩ := hletters
        have hfirst : Cascade s (.deliver [name] r) _ _ := .enqueue hq hexpired .delivered
        have hone := hfirst.spends hheld hn hr
        obtain ⟨calls₂, hrest⟩ := ih _ hone.held (hn.trans hone.size) (hone.budget.trans_lt hfuel)
        exact ⟨_, .enqueue hq hexpired hrest⟩

/-- There is only one way for a cascade to go. --/
theorem Cascade.unique {calls₁ calls₂ : List CascadeCall} {s₁ s₂ : AmqpServer} (h₁ : Cascade s work calls₁ s₁)
    (h₂ : Cascade s work calls₂ s₂) : calls₁ = calls₂ ∧ s₁ = s₂ := by
  induction h₁ generalizing calls₂ s₂ with
  | delivered =>
    cases h₂
    exact ⟨rfl, rfl⟩
  | missing hq _ ih =>
    cases h₂ with
    | missing _ rest => exact ih rest
    | enqueue hq' => cases hq.symm.trans hq'
  | enqueue hq _ _ ihexpired ihrest =>
    cases h₂ with
    | missing hq' => cases hq.symm.trans hq'
    | enqueue _ expired rest =>
      obtain ⟨rfl, rfl⟩ := ihexpired expired
      obtain ⟨rfl, rfl⟩ := ihrest rest
      exact ⟨rfl, rfl⟩
  | done =>
    cases h₂
    exact ⟨rfl, rfl⟩
  | dropped hl _ ih =>
    cases h₂ with
    | dropped hl' rest =>
      obtain ⟨rfl, -⟩ := Prod.mk.inj (hl.symm.trans hl')
      obtain ⟨rfl, rfl⟩ := ih rest
      exact ⟨rfl, rfl⟩
    | routed hl' => cases hl.symm.trans hl'
  | routed hl _ _ ihqueues ihrest =>
    cases h₂ with
    | dropped hl' => cases hl.symm.trans hl'
    | routed hl' queues rest =>
      cases hl.symm.trans hl'
      obtain ⟨rfl, rfl⟩ := ihqueues queues
      obtain ⟨rfl, rfl⟩ := ihrest rest
      exact ⟨rfl, rfl⟩

/-- Letters with the fuel that the source of a cascade gives them. --/
theorem exists_deadLetters (name reason : Bytes) (dlq : List Ref) (s : AmqpServer) (hheld : Held n s)
    (hn : n ≤ s.heap.size) (hdlq : ∀ r ∈ dlq, r < n) :
    ∃ calls, Cascade s (.letters name reason dlq) calls (dlq.foldl (deadLetter name reason) s) :=
  exists_letters (fun t => enqueueLoop t.dlxFuel) _
    (fun _ s₁ names r hheld₁ hn₀ hn₁ hr hless _ =>
      exists_deliver _ s₁ names r hheld₁ hn₁ hr (hless.trans (budget_lt_dlxFuel hn₀)))
    name reason dlq s hheld hn hdlq le_rfl

/-- An operation on a queue sets off a cascade, and is over when the cascade is. --/
theorem exists_cascade (name : Bytes) (op : CascadeOp) (hheld : Held s.heap.size s)
    (hop : ∀ r ∈ op.message?, r < s.heap.size) :
    Held s.heap.size (s.begins name op).1 ∧ s.heap.size ≤ (s.begins name op).1.heap.size ∧
      Within s.heap.size (s.begins name op).2 ∧
      ∃ calls, Cascade (s.begins name op).1 (s.begins name op).2 calls (s.ends name op) := by
  have hcollect : KeepsMessages s.heap.size s (s.collectExpired name).2 := .collectExpired name
  have hexpired : ∀ m ∈ (s.collectExpired name).1, m < s.heap.size := fun m hm => lt_of_collectExpired hheld hm
  cases op with
  | enqueue r =>
    have hr : r < s.heap.size := hop r rfl
    exact ⟨hheld, le_rfl, hr, exists_deliver _ s [name] r hheld le_rfl hr (budget_lt_dlxFuel le_rfl)⟩
  | flush =>
    have hflush : KeepsMessages s.heap.size s (s.flushLocked name).2 := hcollect.trans (.dispatchLocked name hcollect.size)
    exact ⟨hflush.held hheld, hflush.size, hexpired,
      exists_deadLetters name (ascii "expired") _ _ (hflush.held hheld) hflush.size hexpired⟩
  | get =>
    have hpop : KeepsMessages s.heap.size (s.collectExpired name).2 (s.getLocked name).2.2 :=
      .modifyQueue name fun q hq r hr => hq r (List.mem_of_mem_tail hr)
    have hget := hcollect.trans hpop
    exact ⟨hget.held hheld, hget.size, hexpired,
      exists_deadLetters name (ascii "expired") _ _ (hget.held hheld) hget.size hexpired⟩
  | reject r =>
    have hr : ∀ m ∈ [r], m < s.heap.size := fun m hm => List.mem_singleton.mp hm ▸ hop r rfl
    exact ⟨hheld, le_rfl, hr, exists_deadLetters name (ascii "rejected") [r] s hheld le_rfl hr⟩

/-- In any topology and any state, the calls that an enqueue, a flush, a get or a reject sets off come to an end, and none of
    them dead-letters a message more than `MAX_DLX_HOPS` times. --/
theorem cascade_ends (name : Bytes) (op : CascadeOp) (hheld : Held s.heap.size s)
    (hop : ∀ r ∈ op.message?, r < s.heap.size) :
    ∃ calls, Cascade (s.begins name op).1 (s.begins name op).2 calls (s.ends name op) ∧
      (∀ calls' s', Cascade (s.begins name op).1 (s.begins name op).2 calls' s' → calls' = calls ∧ s' = s.ends name op) ∧
      ∀ m, deadLettered m calls ≤ MAX_DLX_HOPS := by
  obtain ⟨hheld', hsize, hwithin, calls, hcascade⟩ := exists_cascade name op hheld hop
  refine ⟨calls, hcascade, fun calls' s' h => h.unique hcascade, fun m => ?_⟩
  have hspent := hcascade.spends hheld' hsize hwithin
  by_cases hm : m < s.heap.size
  · have hhops := hspent.hops m hm
    omega
  · rw [hspent.others m (not_lt.mp hm)]
    exact Nat.zero_le _

theorem Valid.held (hv : Valid s) : Held s.heap.size s := fun name q hq => (hv.queues name q hq).2.messages

/-- A queue without patience whose dead letters come back to it, and a message. --/
def loopServer : AmqpServer :=
  (freshServer.run (Client.connect 1 ++ [Client.openChannel 1 1,
    Client.assertQueue 1 1 (ascii "q") false false false false
      [(ascii "x-message-ttl", .longInt 0), (ascii "x-dead-letter-exchange", .longString (ascii "amq.fanout"))],
    Client.bindQueue 1 1 (ascii "q") (ascii "amq.fanout") [] []])).newMessage { routing_key := ascii "q" }

theorem cascade_ends_loop :
    ∃ calls, Cascade loopServer (.deliver [ascii "q"] 0) calls (loopServer.deliverToQueue (ascii "q") 0) ∧
      (loopServer.message 0).dlx_hops = 0 ∧ ((loopServer.deliverToQueue (ascii "q") 0).message 0).dlx_hops = 21 ∧
      deadLettered 0 calls ≤ MAX_DLX_HOPS := by
  have hvalid : Valid (freshServer.run (Client.connect 1 ++ [Client.openChannel 1 1,
      Client.assertQueue 1 1 (ascii "q") false false false false
        [(ascii "x-message-ttl", .longInt 0), (ascii "x-dead-letter-exchange", .longString (ascii "amq.fanout"))],
      Client.bindQueue 1 1 (ascii "q") (ascii "amq.fanout") [] []])) := valid_run valid_start _
  have hheld : Held loopServer.heap.size loopServer :=
    fun name q hq r hr => Nat.lt_succ_of_lt (hvalid.held name q hq r hr)
  have hop : ∀ r ∈ (CascadeOp.enqueue 0).message?, r < loopServer.heap.size := by
    rintro _ ⟨⟩
    exact Nat.succ_pos _
  obtain ⟨calls, hcascade, -, hcount⟩ := cascade_ends (s := loopServer) (ascii "q") (.enqueue 0) hheld hop
  exact ⟨calls, hcascade, by decide +kernel, by decide +kernel, hcount 0⟩

end AmqpServer
end Broko.Broker
