import Broko.Broker.Journal
import Broko.Theorems.Cascades
import Broko.Theorems.RequeueOrder
import Broko.Theorems.Strands

/-! Redelivery. The object that `on_deliver` makes is what an ack or a requeue is about from then on. It has the content of
    the message that was taken, and nothing else of it. -/

namespace Broko.Broker
open Amqp Storage

namespace Message

/-- The same message, which has been delivered before. --/
structure Redelivers (m m' : Message) : Prop where
  exchange : m'.exchange = m.exchange
  routing_key : m'.routing_key = m.routing_key
  properties : m'.properties = m.properties
  body : m'.body = m.body
  wal_id : m'.wal_id = m.wal_id
  enqueued_at : m'.enqueued_at = m.enqueued_at
  source_connection_id : m'.source_connection_id = m.source_connection_id
  dlx_hops : m'.dlx_hops = m.dlx_hops
  redelivered : m'.redelivered = true

/-- The message has nothing that its copy does not have. --/
structure Plain (m : Message) : Prop where
  wal_id : m.wal_id = 0
  enqueued_at : m.enqueued_at = 0
  source_connection_id : m.source_connection_id = 0
  dlx_hops : m.dlx_hops = 0

theorem redelivers_copied_iff (m : Message) : m.Redelivers { m.copied with redelivered := true } ↔ m.Plain :=
  ⟨fun h => ⟨h.wal_id.symm, h.enqueued_at.symm, h.source_connection_id.symm, h.dlx_hops.symm⟩,
    fun h => ⟨rfl, rfl, rfl, rfl, h.wal_id.symm, h.enqueued_at.symm, h.source_connection_id.symm, h.dlx_hops.symm, rfl⟩⟩

end Message

namespace AmqpServer

variable {c : Nat} {num : UInt16} {s s₁ s' t : AmqpServer} {name reason : Bytes} {r d k : Ref} {m : Message}
  {L L' : List MessageEvent} {e : MessageEvent} {u : UnackedMessage} {K : List Kind}

/-! ### Objects apart -/

/-- If the message is put back, it is found as `m`. --/
def Shows (m : Message) : MessageEvent → Prop
  | .putBack t name r => t.message r = m ∧ (t.queue name).isSome
  | _ => True

/-- The object `d` holds `m` and is in no queue until something happens to it. --/
def Untouched (d : Ref) (m : Message) (s' : AmqpServer) : List MessageEvent → Prop
  | [] => Apart d m s'
  | e :: L => (e.Ends d → Shows m e) ∧ (¬e.Ends d → Untouched d m s' L)

/-- What is made for a delivery is kept. --/
def Made (s' : AmqpServer) : List MessageEvent → Prop
  | [] => True
  | e :: L => (∀ x, e = .handedOver x → Untouched x.state.heap.size (x.state.message x.message).copied s' L) ∧ Made s' L

theorem Untouched.append (hkept : Untouched d m s₁ L) (hnext : Apart d m s₁ → Untouched d m s' L') : Untouched d m s' (L ++ L') := by
  induction L with
  | nil => exact hnext hkept
  | cons e L ih => exact ⟨hkept.1, fun hend => ih (hkept.2 hend)⟩

theorem Made.append (hmade : Made s₁ L) (hnext : ∀ d m, Apart d m s₁ → Untouched d m s' L') (hlater : Made s' L') :
    Made s' (L ++ L') := by
  induction L with
  | nil => exact hlater
  | cons e L ih => exact ⟨fun x hx => (hmade.1 x hx).append (hnext _ _), ih hmade.2⟩

/-- The first that happens to the object is that it is put back. --/
theorem Untouched.shown {mid post : List MessageEvent} (h : Untouched d m s' (mid ++ .putBack t name d :: post))
    (hmid : ∀ e ∈ mid, ¬e.Ends d) : t.message d = m ∧ (t.queue name).isSome := by
  induction mid with
  | nil => exact h.1 rfl
  | cons e mid ih => exact ih (h.2 (hmid e List.mem_cons_self)) fun e' he' => hmid e' (List.mem_cons_of_mem _ he')

theorem Made.kept {pre L : List MessageEvent} {x : Handover} (h : Made s' (pre ++ .handedOver x :: L)) :
    Untouched x.state.heap.size (x.state.message x.message).copied s' L := by
  induction pre with
  | nil => exact h.1 x rfl
  | cons e pre ih => exact ih h.2

/-- How often `deadLetter` is called for the object. --/
def deathsOf (d : Ref) (L : List MessageEvent) : Nat := L.countP fun e => e.deadLetters d

/-- A part of a run with its journal. --/
structure Traced (s : AmqpServer) (L : List MessageEvent) (s' : AmqpServer) : Prop where
  size : s.heap.size ≤ s'.heap.size
  held : Held s'.heap.size s'
  kept : ∀ d m, Apart d m s → Untouched d m s' L
  made : Made s' L
  hops : ∀ d, (s'.message d).dlx_hops ≤ (s.message d).dlx_hops + deathsOf d L

namespace Traced

theorem refl (h : Held s.heap.size s) : Traced s [] s := ⟨le_rfl, h, fun _ _ h => h, trivial, fun _ => le_rfl⟩

theorem trans (h : Traced s L s₁) (h' : Held s₁.heap.size s₁ → Traced s₁ L' s') : Traced s (L ++ L') s' := by
  refine ⟨h.size.trans (h' h.held).size, (h' h.held).held, fun d m ha => (h.kept d m ha).append ((h' h.held).kept d m),
    h.made.append (h' h.held).kept (h' h.held).made, fun d => ?_⟩
  have hfirst := h.hops d
  have hsecond := (h' h.held).hops d
  rw [deathsOf, List.countP_append, ← deathsOf, ← deathsOf]
  omega

/-- Nothing happens to any message in a queue or in hand. --/
theorem calm (size : s.heap.size ≤ s'.heap.size) (held : Held s'.heap.size s')
    (hhops : ∀ d, (s'.message d).dlx_hops ≤ (s.message d).dlx_hops) (h : ∀ d m, Apart d m s → Apart d m s') :
    Traced s [] s' := ⟨size, held, h, trivial, hhops⟩

theorem ofEq (hs : Held s.heap.size s) (hqueues : s'.queues = s.queues) (hheap : s'.heap = s.heap) : Traced s [] s' := by
  refine calm (by rw [hheap]) ?_ (fun d => by rw [message, hheap, ← message]) fun d m ha => ha.ofEq hqueues hheap
  rw [Held, hqueues, hheap]
  exact hs

/-- Something happens to `r` and to no other message. --/
theorem happens (hr : ∀ d, e.Ends d ↔ r = d) (hshows : ∀ d m, r = d → Apart d m s → Shows m e)
    (hhand : ∀ x, e ≠ .handedOver x) (size : s.heap.size ≤ s'.heap.size) (held : Held s'.heap.size s')
    (hhops : ∀ d, (s'.message d).dlx_hops ≤ (s.message d).dlx_hops + deathsOf d [e])
    (hother : ∀ d m, r ≠ d → Apart d m s → Apart d m s') : Traced s [e] s' := by
  refine ⟨size, held, fun d m ha => ⟨fun hend => hshows d m ((hr d).mp hend) ha, fun hend => ?_⟩, ?_, hhops⟩
  · exact hother d m (fun heq => hend ((hr d).mpr heq)) ha
  · exact ⟨fun x hx => absurd hx (hhand x), trivial⟩

/-- One after the other. --/
theorem trace {α : Type} {f : AmqpServer → α → AmqpServer} {journal : AmqpServer → α → List MessageEvent} {l : List α}
    {n : Nat} (hf : ∀ s, ∀ a ∈ l, n ≤ s.heap.size → Held s.heap.size s → Traced s (journal s a) (f s a)) (hn : n ≤ s.heap.size)
    (hs : Held s.heap.size s) : Traced s (Prefix.trace f journal s l) (l.foldl f s) := by
  induction l generalizing s with
  | nil => exact refl hs
  | cons a l ih =>
    have hfirst := hf s a List.mem_cons_self hn hs
    exact hfirst.trans (ih (fun s b hb => hf s b (List.mem_cons_of_mem _ hb)) (hn.trans hfirst.size))

/-! ### Queues -/

theorem handOver (hs : Held s.heap.size s) {f : OnDeliver} (hk : (s.consumer k).on_deliver = some f) (name : Bytes)
    (head : Ref) (idx : Nat) : Traced s [.handedOver ⟨s, head, k⟩] (s.handOver name k head idx) := by
  have hkeeps : KeepsMessages s.heap.size s (s.handOver name k head idx) := .handOver le_rfl name k head idx
  have hnew : Apart s.heap.size (s.message head).copied (s.handOver name k head idx) := by
    have hqueues : ∀ s₁ : AmqpServer, s₁.heap = s.heap → (∃ f, (s₁.consumer k).on_deliver = some f) → Held s.heap.size s₁ →
        Apart s.heap.size (s.message head).copied (s₁.onDeliver k head) := by
      rintro s₁ hheap ⟨f, hf⟩ hheld
      rw [onDeliver, hf]
      have hcopy : Apart s.heap.size (s.message head).copied (s₁.newDelivery head (s₁.message head).copied) := by
        refine ⟨?_, ?_, fun name q hq hmem => Nat.lt_irrefl _ (hheld name q hq _ hmem)⟩
        · rw [← hheap]
          exact Nat.lt_succ_self _
        · rw [message, newDelivery, ← hheap, Heap.cell_alloc_self, message, hheap, message]
      exact hcopy.ofEq rfl rfl
    have htail : Held s.heap.size (s.modifyQueue name fun q => { q with messages := q.messages.tail, roundRobinIdx := idx }) :=
      hs.modify fun q _ hq r hr => hq r (List.mem_of_mem_tail hr)
    rw [AmqpServer.handOver]
    split
    · exact hqueues _ rfl ⟨f, hk⟩ htail
    · refine hqueues _ rfl ⟨f, ?_⟩ htail
      rw [consumer, modifyConsumer, Heap.cell_modify_self]
      exact hk
  refine ⟨hkeeps.size, ?_, fun d m ha => ⟨fun hend => hend.elim, fun _ => ha.handOver name k head idx⟩, ?_, ?hops⟩
  · exact (hkeeps.held hs).mono fun name q hq r hr => (hq r hr).trans_le hkeeps.size
  · refine ⟨fun x hx => ?_, trivial⟩
    obtain rfl := (MessageEvent.handedOver.inj hx).symm
    exact hnew
  case hops =>
    intro d
    rw [message, heap_handOver k head idx hk]
    by_cases hd : d = s.heap.size
    · rw [hd, Heap.cell_alloc_self]
      exact Nat.zero_le _
    · rw [Heap.cell_alloc_of_ne hd]
      exact Nat.le_refl _

theorem dispatchLoop (name : Bytes) (turns : Nat) (s : AmqpServer) (hs : Held s.heap.size s) :
    Traced s ((handoversLoop name turns s).map .handedOver) (dispatchLoop name turns s) := by
  induction turns generalizing s with
  | zero => exact refl hs
  | succ turns ih =>
    rw [AmqpServer.dispatchLoop, handoversLoop]
    cases hq : s.queue name with
    | none => exact refl hs
    | some q =>
      dsimp only
      cases q.messages with
      | nil => exact refl hs
      | cons head rest =>
        dsimp only
        cases hpick : pickConsumer (s.eligible head) q.consumers q.consumers.length q.roundRobinIdx with
        | mk receiver idx =>
          cases receiver with
          | none =>
            refine calm le_rfl ?_ (fun _ => le_rfl) fun d m ha => ha.modifyQueue fun q hq => hq
            exact hs.modify fun q _ hq => hq
          | some k =>
            obtain ⟨-, hfit⟩ := pickConsumer_eq_some hpick
            rw [eligible, Bool.and_eq_true, Bool.and_eq_true, Option.isSome_iff_exists] at hfit
            obtain ⟨⟨⟨f, hf⟩, -⟩, -⟩ := hfit
            have hhand := handOver hs hf name head idx
            exact hhand.trans (ih _)

theorem dispatchLocked (name : Bytes) (hs : Held s.heap.size s) :
    Traced s ((s.handovers name).map .handedOver) (s.dispatchLocked name) := by
  rw [AmqpServer.dispatchLocked, handovers]
  cases s.queue name with
  | none => exact refl hs
  | some q =>
    dsimp only
    split
    · exact refl hs
    · exact dispatchLoop name _ s hs

theorem collectExpired (name : Bytes) (hs : Held s.heap.size s) : Traced s [] (s.collectExpired name).2 := by
  have hkeeps : KeepsMessages s.heap.size s (s.collectExpired name).2 := .collectExpired name
  refine calm hkeeps.size ((hkeeps.held hs).mono fun _ _ hq r hr => (hq r hr).trans_le hkeeps.size) (fun d => ?_)
    fun _ _ ha => ha.collectExpired name
  rw [message, heap_collectExpired, ← message]

theorem pushBack (hr : r < s.heap.size) (name : Bytes) (hs : Held s.heap.size s) :
    Traced s [.enqueued r] (s.pushBack name r) := by
  have hkeeps : KeepsMessages s.heap.size s (s.pushBack name r) := .pushBack name hr
  refine happens (fun _ => Iff.rfl) (fun _ _ _ _ => trivial) nofun hkeeps.size ?_ (fun d => ?_) fun d m hne ha => ha.pushBack hne name
  · exact (hkeeps.held hs).mono fun _ _ hq r hr => (hq r hr).trans_le hkeeps.size
  · exact Nat.le_of_eq (message_modifyMessage (s := s) (f := fun m => { m with enqueued_at := s.now }) Message.dlx_hops
      (fun _ => rfl) r d)

theorem enqueueLocked (hr : r < s.heap.size) (name : Bytes) (hs : Held s.heap.size s) :
    Traced s (.enqueued r :: dispatchJournal name s (.enqueue r)) (s.enqueueLocked name r).2 :=
  (pushBack hr name hs).trans fun hs₁ => (collectExpired name hs₁).trans (dispatchLocked name)

/-! ### Dead letters -/

/-- The letter itself: nothing is in another place, and no other message is changed. --/
theorem letter {addr : Option (Bytes × Bytes)} (hl : letter name reason s r = (s₁, addr)) (hs : Held s.heap.size s) :
    Traced s [.deadLettered r] s₁ := by
  have hsame : s₁.heap.size = s.heap.size ∧ s₁.queues = s.queues ∧ (∀ m, m ≠ r → s₁.message m = s.message m) ∧
      (s₁.message r).dlx_hops ≤ (s.message r).dlx_hops + 1 := by
    rw [AmqpServer.letter] at hl
    split at hl
    · cases hl
      exact ⟨rfl, rfl, fun _ _ => rfl, Nat.le_succ _⟩
    · split at hl
      · cases hl
        exact ⟨rfl, rfl, fun _ _ => rfl, Nat.le_succ _⟩
      · dsimp only at hl
        split at hl
        · cases hl
          refine ⟨rfl, rfl, fun m hm => message_modifyMessage_of_ne hm _, ?_⟩
          rw [message_modifyMessage_self]
        · cases hl
          refine ⟨rfl, rfl, fun m hm => (message_modifyMessage_of_ne hm _).trans (message_modifyMessage_of_ne hm _), ?_⟩
          rw [message_modifyMessage_self, message_modifyMessage_self]
          exact Nat.le_refl _
  obtain ⟨hsize, hqueues, hothers, hhop⟩ := hsame
  refine happens (fun _ => Iff.rfl) (fun _ _ _ _ => trivial) (fun _ => MessageEvent.noConfusion) hsize.ge ?_ (fun d => ?_)
    fun d m hne ha => ?_
  · rw [Held, hqueues, hsize]
    exact hs
  · by_cases hd : d = r
    · have hone : deathsOf r [.deadLettered r] = 1 := by simp [deathsOf, MessageEvent.deadLetters]
      rw [hd, hone]
      exact hhop
    · rw [hothers d hd]
      exact Nat.le_add_right _ _
  · exact ⟨hsize ▸ ha.lt, (hothers d hne.symm).trans ha.message, hqueues ▸ ha.queues⟩

theorem deadLetterWith {enqueue : AmqpServer → Bytes → Ref → AmqpServer}
    {journal : AmqpServer → Bytes → Ref → List MessageEvent}
    (henq : ∀ s name, r < s.heap.size → Held s.heap.size s → Traced s (journal s name r) (enqueue s name r))
    (hr : r < s.heap.size) (name reason : Bytes) (hs : Held s.heap.size s) :
    Traced s (deadLetterWithJournal enqueue journal name reason s r) (deadLetterWith enqueue name reason s r) := by
  rw [deadLetterWith_letter, deadLetterWithJournal]
  rcases hl : AmqpServer.letter name reason s r with ⟨s₁, _ | addr⟩
  · exact letter hl hs
  · have hfirst := letter hl hs
    exact hfirst.trans (trace (n := r + 1) (fun s name _ hr => henq s name hr) (hr.trans_le hfirst.size))

theorem enqueueLoop (fuel : Nat) (s : AmqpServer) (name : Bytes) (hr : r < s.heap.size) (hs : Held s.heap.size s) :
    Traced s (enqueueLoopJournal fuel s name r) (enqueueLoop fuel s name r) := by
  induction fuel generalizing s name r with
  | zero => exact refl hs
  | succ fuel ih =>
    rw [AmqpServer.enqueueLoop, enqueueLoopJournal]
    cases s.queue name with
    | none => exact refl hs
    | some q =>
      have hlock := enqueueLocked hr name hs
      have hdlq : ∀ r' ∈ (s.enqueueLocked name r).1, r' < (s.enqueueLocked name r).2.heap.size := fun r' hr' =>
        (lt_of_collectExpired (pushBack hr name hs).held hr').trans_le hlock.size
      refine hlock.trans (trace (fun s₁ r' hr' hle hs₁ => ?_) le_rfl)
      exact deadLetterWith (fun s₂ name hr₂ hs₂ => ih s₂ name hr₂ hs₂) ((hdlq r' hr').trans_le hle) name _ hs₁

theorem deliverToQueue (name : Bytes) (hr : r < s.heap.size) (hs : Held s.heap.size s) :
    Traced s (s.deliverToQueueJournal name r) (s.deliverToQueue name r) := enqueueLoop _ s name hr hs

theorem deadLetter (name reason : Bytes) (hr : r < s.heap.size) (hs : Held s.heap.size s) :
    Traced s (deadLetterJournal name reason s r) (deadLetter name reason s r) :=
  deadLetterWith (fun s₁ name hr₁ hs₁ => enqueueLoop _ s₁ name hr₁ hs₁) hr name reason hs

theorem expired (name : Bytes) {dlq : List Ref} (hdlq : ∀ r ∈ dlq, r < s.heap.size) (hs : Held s.heap.size s) :
    Traced s (expiredJournal name s dlq) (dlq.foldl (AmqpServer.deadLetter name (ascii "expired")) s) :=
  trace (fun _ r hr hle => deadLetter name _ ((hdlq r hr).trans_le hle)) le_rfl hs

/-! ### Operations of a queue -/

theorem get (name : Bytes) (hs : Held s.heap.size s) : Traced s (s.getJournal name) (s.get name).2 := by
  have hcollect := collectExpired name hs
  have htake : Traced (s.collectExpired name).2 [] (s.getLocked name).2.2 := by
    refine calm le_rfl ?_ (fun _ => le_rfl) fun d m ha => ha.modifyQueue fun q hq hmem => hq (List.mem_of_mem_tail hmem)
    exact hcollect.held.modify fun q _ hq r hr => hq r (List.mem_of_mem_tail hr)
  refine (hcollect.trans fun _ => htake).trans (expired name fun r hr => ?_)
  exact (lt_of_collectExpired hs hr).trans_le (hcollect.size.trans htake.size)

theorem flush (name : Bytes) (hs : Held s.heap.size s) : Traced s (s.flushJournal name) (s.flush name) := by
  have hlock : Traced s (dispatchJournal name s .flush) (s.flushLocked name).2 :=
    (collectExpired name hs).trans (dispatchLocked name)
  exact hlock.trans (expired name fun r hr => (lt_of_collectExpired hs hr).trans_le hlock.size)

theorem tick (hs : Held s.heap.size s) : Traced s s.tickJournal s.tick :=
  trace (fun _ name _ _ => flush name) le_rfl hs

theorem addConsumer (name : Bytes) (k : Ref) (hs : Held s.heap.size s) :
    Traced s (dispatchJournal name s (.addConsumer k)) (s.addConsumer name k) := by
  have hattach : Traced s [] (s.modifyQueue name fun q => { q with consumers := q.consumers ++ [k] }) := by
    refine calm le_rfl ?_ (fun _ => le_rfl) fun d m ha => ha.modifyQueue fun q hq => hq
    exact hs.modify fun q _ hq => hq
  exact hattach.trans (dispatchLocked name)

theorem reject (hr : r < s.heap.size) (hq : (s.queue name).isSome) (requeue : Bool) (hs : Held s.heap.size s) :
    Traced s (s.rejectJournal name requeue r) (s.reject name requeue r) := by
  rw [AmqpServer.reject, rejectJournal]
  cases requeue with
  | false => exact deadLetter name _ hr hs
  | true =>
    have hback : Traced s [.putBack s name r] (s.putBack name r) := by
      refine happens (fun _ => Iff.rfl) (fun d m hd ha => ?_) (fun _ => MessageEvent.noConfusion) le_rfl ?_ (fun d => ?hops)
        fun d m hne ha => ?_
      case hops =>
        exact Nat.le_of_eq (message_modifyMessage (s := s) (f := fun m => { m with redelivered := true }) Message.dlx_hops
          (fun _ => rfl) r d)
      · exact ⟨hd ▸ ha.message, hq⟩
      · refine Assoc.All.modify (m := s.queues) hs fun q _ hmem r' hr' => ?_
        rcases List.mem_cons.mp hr' with rfl | hr'
        · exact hr
        · exact hmem r' hr'
      · refine (ha.modifyMessage hne _).modifyQueue fun q hq hmem => ?_
        rcases List.mem_cons.mp hmem with rfl | hmem
        · exact hne rfl
        · exact hq hmem
    exact hback.trans (dispatchLocked name)

theorem rejectIfThere (requeue : Bool) (hu : u.message < s.heap.size) (hs : Held s.heap.size s) :
    Traced s (s.rejectIfThereJournal requeue u) (s.rejectIfThere requeue u) := by
  rw [AmqpServer.rejectIfThere, rejectIfThereJournal]
  cases hq : s.queue u.queue_name with
  | none => exact refl hs
  | some q => exact reject hu (by rw [hq]; rfl) requeue hs

end Traced

/-! ### Everything else -/

/-- The kinds of moves that change messages or put them into queues. --/
def movingKinds : List Kind := [.queue, .enqueue, .requeue]

theorem Apart.move {kind : Kind} (h : Apart d m s) (hm : Move c kind s s') (hkind : kind ∉ movingKinds) : Apart d m s' := by
  have hinsert : ∀ {name : Bytes} {q : MessageQueue}, q.messages = [] →
      Apart d m { s with queues := s.queues.insert name q } := fun hq =>
    ⟨h.lt, h.message, h.queues.insert (by rw [hq]; exact List.not_mem_nil)⟩
  have hstore : ∀ m' name, Apart d m ((s.newMessage m').storeMessage name s.heap.size) := fun m' name =>
    (h.alloc _).storeMessage (Nat.ne_of_gt h.lt) name
  cases hm with
  | clock | touch | mark | letter | expire | rotate | handOver => exact absurd (by decide) hkind
  | enqueue | requeue => exact absurd (by decide) hkind
  | take name => exact h.modifyQueue fun q hq hmem => hq (List.mem_of_mem_tail hmem)
  | purge name =>
    rw [purge]
    split
    · exact h
    · exact (h.modifyQueue fun q _ => List.not_mem_nil).record _
  | create m' => exact h.alloc _
  | store m' => exact hstore m' _
  | oversize m' => exact hstore m' _
  | recover m' name => exact (h.alloc _).ofEq rfl rfl
  | recoverQueue hname hnew hm => exact hinsert hm
  | insertQueue hname hnew hm => exact hinsert hm
  | eraseQueue name => exact ⟨h.lt, h.message, h.queues.erase name⟩
  | releaseCredit u => exact h.ofEq (by rw [releaseCredit]; split <;> rfl) (heap_releaseCredit u)
  | settle u =>
    refine h.ofEq ?_ (heap_persistAck u)
    have hcredit : (s.releaseCredit u).queues = s.queues := by
      rw [releaseCredit]
      split <;> rfl
    rw [persistAck]
    split
    · exact hcredit
    · split <;> exact hcredit
  | addConsumer name k => exact h.modifyQueue fun q hq => hq
  | removeConsumer name tag =>
    rw [removeConsumer]
    split
    · exact h
    · split
      · exact h
      · have hgone : ∀ k, Apart d m (s.modifyConsumer k fun c => { c with on_deliver := none }) := fun k => h.ofEq rfl rfl
        exact (hgone _).modifyQueue fun q hq => hq
  | removeConsumersByConnection name =>
    rw [removeConsumersByConnection]
    split
    · exact h
    · have hgone : ∀ l : List Ref, Apart d m (l.foldl (fun s k => s.modifyConsumer k fun c => { c with on_deliver := none }) s) :=
        fun l => Apart.foldl (fun _ _ _ h => h.ofEq rfl rfl) h
      exact (hgone _).modifyQueue fun q hq => hq
  | reorderQueues order => exact ⟨h.lt, h.message, h.queues.reorder order⟩
  | _ => exact h.ofEq rfl rfl

theorem hops_newMessage (hm : m.dlx_hops = 0) (d : Ref) : ((s.newMessage m).message d).dlx_hops ≤ (s.message d).dlx_hops := by
  rw [message, newMessage]
  by_cases hd : d = s.heap.size
  · rw [hd, Heap.cell_alloc_self, hm]
    exact Nat.zero_le _
  · rw [Heap.cell_alloc_of_ne hd]
    exact Nat.le_refl _

theorem hops_storeMessage (name : Bytes) (r d : Ref) :
    ((s.storeMessage name r).message d).dlx_hops = (s.message d).dlx_hops := by
  rw [storeMessage]
  split
  · rfl
  · rename_i st _
    exact message_modifyMessage (s := s) (f := fun m => { m with wal_id := (st.storeMessage name (s.message r)).1 })
      Message.dlx_hops (fun _ => rfl) r d

theorem hops_admitted (hm : m.dlx_hops = 0) (name : Bytes) (d : Ref) :
    ((s.admitted m name).message d).dlx_hops ≤ (s.message d).dlx_hops := by
  have hnew : ((s.newMessage m).message d).dlx_hops ≤ (s.message d).dlx_hops := hops_newMessage hm d
  rw [admitted]
  split
  · exact hnew
  · split
    · exact (hops_storeMessage ..).trans_le hnew
    · exact hnew

/-- A new object has no hops, and nothing but a dead letter gives an object hops. --/
theorem hops_move {kind : Kind} (hm : Move c kind s s') (hkind : kind ∉ movingKinds) (d : Ref) :
    (s'.message d).dlx_hops ≤ (s.message d).dlx_hops := by
  have hsame : ∀ {s' : AmqpServer}, s'.heap = s.heap → (s'.message d).dlx_hops ≤ (s.message d).dlx_hops := fun h => by
    rw [message, h, ← message]
  cases hm with
  | clock | touch | mark | letter | expire | rotate | handOver => exact absurd (by decide) hkind
  | enqueue | requeue => exact absurd (by decide) hkind
  | purge name => exact hsame (by rw [purge]; split <;> rfl)
  | create m _ hid => exact hops_newMessage hid.dlx_hops d
  | store m _ hid => exact (hops_storeMessage ..).trans_le (hops_newMessage hid.dlx_hops d)
  | oversize m _ hid => exact (hops_storeMessage ..).trans_le (hops_newMessage hid.dlx_hops d)
  | recover m name _ hhops => exact hops_newMessage hhops d
  | releaseCredit u => exact hsame (heap_releaseCredit u)
  | settle u => exact hsame (heap_persistAck u)
  | removeConsumer name tag =>
    refine hsame ?_
    rw [removeConsumer]
    split
    · rfl
    · split <;> rfl
  | removeConsumersByConnection name => exact hsame (heap_removeConsumersByConnection name c)
  | _ => exact hsame rfl

namespace Traced

theorem does (hd : Does c K s s') (hK : ∀ k ∈ K, k ∉ movingKinds) (hv : Valid s) : Traced s [] s' := by
  have hmoves := hd.moves hv
  refine calm hmoves.heap_le (hmoves.valid hv).held (fun d => ?_) fun d m ha => ?_
  · exact hmoves.keeps (P := fun s' => (s'.message d).dlx_hops ≤ (s.message d).dlx_hops)
      (fun k hk _ _ hm hle => (hops_move hm (hK k hk) d).trans hle) le_rfl
  · exact hmoves.keeps (P := fun s' => Apart d m s') (fun k hk _ _ hm ha => ha.move hm (hK k hk)) ha

theorem move {kind : Kind} (hm : Move c kind s s') (hkind : kind ∉ movingKinds) (hv : Valid s) : Traced s [] s' :=
  does (.of hm) (fun _ hk => List.mem_singleton.mp hk ▸ hkind) hv

/-- The same after something else. --/
theorem thenDoes (h : Traced s L s₁) (hv : Valid s₁) (hd : Does c K s₁ s') (hK : ∀ k ∈ K, k ∉ movingKinds) : Traced s L s' := by
  have hall := h.trans fun _ => does hd hK hv
  rwa [List.append_nil] at hall

/-- Valid states one after the other. --/
theorem traceValid {α : Type} {f : AmqpServer → α → AmqpServer} {journal : AmqpServer → α → List MessageEvent}
    (hf : ∀ s a, Valid s → Traced s (journal s a) (f s a)) (hd : ∀ s a, Does c K s (f s a)) (l : List α) (hv : Valid s) :
    Traced s (Prefix.trace f journal s l) (l.foldl f s) := by
  induction l generalizing s with
  | nil => exact refl hv.held
  | cons a l ih => exact (hf s a hv).trans fun _ => ih (((hd s a).moves hv).valid hv)

/-! ### Settlement -/

theorem settle {f : AmqpServer → UnackedMessage → AmqpServer} {journal : AmqpServer → UnackedMessage → List MessageEvent}
    (hf : ∀ u, u.message < s.heap.size → Held s.heap.size s → Traced s (journal s u) (f s u))
    (hd : ∀ u, u.message < s.heap.size → Does c K s (f s u)) (tag : Nat) (hv : Valid s) :
    Traced s (settleJournal c num journal s tag) (settle c num f s tag) := by
  rw [AmqpServer.settle, settleJournal]
  cases hu : (s.channel c num).bind fun ch => ch.unackedMessages.lookup tag with
  | none => exact refl hv.held
  | some u =>
    obtain ⟨ch, hch, hu⟩ := Option.bind_eq_some_iff.mp hu
    have hlt : u.message < s.heap.size := ((hv.channel hch).unacked tag u hu).2
    exact (hf u hlt hv.held).thenDoes (((hd u hlt).moves hv).valid hv) (.of (.eraseUnacked num tag)) (by decide)

theorem rejectUnacked (requeue : Bool) (hu : u.message < s.heap.size) (hv : Valid s) :
    Traced s (rejectUnackedJournal requeue s u) (rejectUnacked requeue s u) := by
  rw [AmqpServer.rejectUnacked, rejectUnackedJournal]
  cases requeue with
  | true => exact rejectIfThere true hu hv.held
  | false =>
    have hack : Traced s [] (s.persistAck u) := move (c := 0) (.settle u hu) (by decide) hv
    exact hack.trans (rejectIfThere false (hu.trans_le hack.size))

theorem settleReject (requeue : Bool) (tag : Nat) (hv : Valid s) :
    Traced s (settleJournal c num (rejectUnackedJournal requeue) s tag) (AmqpServer.settle c num (AmqpServer.rejectUnacked requeue) s tag) :=
  settle (fun _ hu _ => rejectUnacked requeue hu hv) (does_rejectUnacked (c := c) requeue s) tag hv

theorem requeueUnackedMessages (hv : Valid s) :
    Traced s (s.requeueUnackedMessagesJournal c num) (s.requeueUnackedMessages c num) := by
  have hlt : ∀ u ∈ s.unacked c num, u.message < s.heap.size := fun u hu => lt_of_mem_unacked hv hu
  have hone : ∀ s₁, ∀ u ∈ s.unacked c num, s.heap.size ≤ s₁.heap.size → Held s₁.heap.size s₁ →
      Traced s₁ ((s₁.releaseCredit u).rejectIfThereJournal true u) ((s₁.releaseCredit u).rejectIfThere true u) := by
    intro s₁ u hu hle hs₁
    have hcredit : Traced s₁ [] (s₁.releaseCredit u) :=
      ofEq hs₁ (by rw [releaseCredit]; split <;> rfl) (heap_releaseCredit u)
    exact hcredit.trans (rejectIfThere true ((hlt u hu).trans_le (hle.trans hcredit.size)))
  have hall := trace hone le_rfl hv.held
  have hclear : Traced s (_ ++ []) (s.requeueUnackedMessages c num) := hall.trans fun hs => ofEq hs rfl rfl
  rwa [List.append_nil] at hclear

/-! ### The end of channels and connections -/

theorem removeAllConsumers (hv : Valid s) : Traced s (s.removeAllConsumersJournal c num) (s.removeAllConsumers c num) := by
  rw [AmqpServer.removeAllConsumers, removeAllConsumersJournal]
  cases s.channel c num with
  | none => exact refl hv.held
  | some ch =>
    have hremoved := (Does.foldl (fun s (e : Bytes × Ref) => Does.of (c := c) (.removeConsumer (s.consumer e.2).queue_name e.1))
      ch.consumers.entries s).trans (.of (.unmapConsumers num))
    exact (does hremoved (by decide) hv).trans fun _ => requeueUnackedMessages ((hremoved.moves hv).valid hv)

theorem closeChannel (s : AmqpServer) (num : UInt16) (hv : Valid s) :
    Traced s (s.closeChannelJournal c num) (s.closeChannel c num) := by
  have hclosed : Does c [.closeChannel] s (s.modifyChannel c num fun ch => { ch with isOpen := false }) := .of (.setClosed num)
  exact (does hclosed (by decide) hv).trans fun _ => removeAllConsumers ((hclosed.moves hv).valid hv)

theorem cleanupChannel (hv : Valid s) : Traced s (s.cleanupChannelJournal c num) (s.cleanupChannel c num) := by
  rw [AmqpServer.cleanupChannel, cleanupChannelJournal]
  cases s.channel c num with
  | none => exact refl hv.held
  | some ch => exact (closeChannel s num hv).thenDoes (((does_closeChannel num).moves hv).valid hv) (.of (.dropChannel num)) (by decide)

theorem cleanupAllChannels (hv : Valid s) : Traced s (s.cleanupAllChannelsJournal c) (s.cleanupAllChannels c) := by
  rw [AmqpServer.cleanupAllChannels, cleanupAllChannelsJournal]
  cases s.connection c with
  | none => exact refl hv.held
  | some conn =>
    have hall := traceValid (c := c) closeChannel (fun _ num => does_closeChannel num) conn.channels.keys hv
    have hdone := Does.foldl (c := c) (fun _ num => does_closeChannel num) conn.channels.keys s
    exact hall.thenDoes ((hdone.moves hv).valid hv) (.of .dropChannels) (by decide)

theorem shutdown (hv : Valid s) : Traced s (s.shutdownJournal c) (s.shutdown c) := by
  rw [AmqpServer.shutdown, shutdownJournal]
  cases s.connection c with
  | none => exact refl hv.held
  | some conn =>
    dsimp only
    split
    · exact refl hv.held
    · have hshut : Does c [.closeChannel] s (s.modifyConnection c fun conn => { conn with state := .CLOSED, reading := false }) :=
        .of .shut
      have hv₁ := (hshut.moves hv).valid hv
      have hclean := (does hshut (by decide) hv).trans fun _ => cleanupAllChannels (c := c) hv₁
      exact hclean.thenDoes ((does_cleanupAllChannels.moves hv₁).valid hv₁) does_removeConnectionQueues (by decide)

/-! ### Publishing -/

theorem admitted (hm : m.dlx_hops = 0) (name : Bytes) (hs : Held s.heap.size s) : Traced s [] (s.admitted m name) := by
  refine calm (by rw [heap_admitted]; exact Nat.le_succ _) ?_ (hops_admitted hm name) fun d m' ha => ha.admitted m name
  rw [Held, queues_admitted, heap_admitted]
  exact hs.mono fun _ _ hq r hr => Nat.lt_succ_of_lt (hq r hr)

theorem publishOne (hm : m.dlx_hops = 0) (name : Bytes) (hs : Held s.heap.size s) :
    Traced s ((s.admitted m name).deliverToQueueJournal name s.heap.size) ((s.admitted m name).deliverToQueue name s.heap.size) :=
  (admitted hm name hs).trans (deliverToQueue name (by rw [heap_admitted]; exact Nat.lt_succ_self _))

theorem publishToJournal_several (msg : Ref) (name : Bytes) :
    publishToJournal true msg s name = (s.admitted (s.message msg) name).deliverToQueueJournal name s.heap.size := by
  have hm : (s.newMessage (s.message msg)).message s.heap.size = s.message msg := by
    rw [message, newMessage, Heap.cell_alloc_self]
  rw [publishToJournal, AmqpServer.admitted]
  simp only [if_true, hm]
  rfl

theorem publishToJournal_one (m : Message) (name : Bytes) :
    publishToJournal false s.heap.size (s.newMessage m) name = (s.admitted m name).deliverToQueueJournal name s.heap.size := by
  have hm : (s.newMessage m).message s.heap.size = m := by rw [message, newMessage, Heap.cell_alloc_self]
  rw [publishToJournal, AmqpServer.admitted]
  simp only [Bool.false_eq_true, if_false, hm]
  rfl

theorem newMessage (hm : m.dlx_hops = 0) (hs : Held s.heap.size s) : Traced s [] (s.newMessage m) :=
  calm (Nat.le_succ _) (hs.mono fun _ _ hq r hr => Nat.lt_succ_of_lt (hq r hr)) (hops_newMessage hm) fun _ _ ha => ha.alloc _

/-- The object of the publish is apart while copies of it go to the queues. --/
theorem publishSeveral {msg : Ref} (hm : m.dlx_hops = 0) (queues : List Bytes) (s : AmqpServer) (hs : Held s.heap.size s)
    (ha : Apart msg m s) :
    Traced s (Prefix.trace (publishTo true msg) (publishToJournal true msg) s queues) (queues.foldl (publishTo true msg) s) := by
  induction queues generalizing s with
  | nil => exact refl hs
  | cons name queues ih =>
    have hone := publishOne hm name hs
    rw [Prefix.trace, List.foldl_cons, publishTo_several, publishToJournal_several, ha.message]
    exact hone.trans fun hs₁ => ih _ hs₁ ((ha.admitted m name).enqueueLoop (Nat.ne_of_gt ha.lt) _ _)

theorem publishAll (hm : m.dlx_hops = 0) (queues : List Bytes) (hv : Valid s) :
    Traced s (Prefix.trace (publishTo (decide (1 < queues.length)) s.heap.size)
        (publishToJournal (decide (1 < queues.length)) s.heap.size) (s.newMessage m) queues)
      (queues.foldl (publishTo (decide (1 < queues.length)) s.heap.size) (s.newMessage m)) := by
  rcases queues with _ | ⟨name, _ | ⟨name', rest⟩⟩
  · exact newMessage hm hv.held
  · have hfirst := publishOne hm name hv.held
    rw [← publishTo_one, ← publishToJournal_one] at hfirst
    have hlast := hfirst.trans refl
    exact hlast
  · have hall := publishSeveral hm (name :: name' :: rest) (s.newMessage m) (newMessage hm hv.held).held (.newMessage hv m)
    exact (newMessage hm hv.held).trans fun _ => hall

theorem sent (hd : Does c [.output] s s') (hv : Valid s) : Traced s [] s' := does hd (by decide) hv

theorem publish {p : PendingPublish} (hv : Valid s) (hp : p.Sound) : Traced s (s.publishJournal c p) (s.publish c num p) := by
  have hdist : Traced s (s.publishJournal c p) (s.distribute c num p) := by
    have hjournal : s.publishJournal c p =
        if s.routeMessage p.exchange p.routing_key p.properties.headers = [] ∧ p.mandatory then []
        else
          let queues := s.routeMessage p.exchange p.routing_key p.properties.headers
          Prefix.trace (publishTo (decide (1 < queues.length)) s.heap.size)
            (publishToJournal (decide (1 < queues.length)) s.heap.size) (s.newMessage (messageOf c p)) queues := rfl
    rw [hjournal, distribute]
    split
    · have hnew : Does c [.create] s (s.newMessage (messageOf c p)) := .of (.create _ hp.properties (pristine_messageOf c p))
      have hreturn : ∀ args, Does c [.output] (s.newMessage (messageOf c p))
          ((s.newMessage (messageOf c p)).sendMethodFrame c num class_id.BASIC basic_method.RETURN args) := fun _ =>
        does_sendMethodFrame _ _ _ rfl
      exact does (hnew.trans ((hreturn _).trans (does_sendContentFrames ..))) (by decide) hv
    · exact publishAll rfl _ hv
  have hv₁ : Valid (s.distribute c num p) :=
    ((does_distribute (K := publishKinds ++ [.oversize]) num (by decide) hp (.inl (by decide))).moves hv).valid hv
  rw [publish_eq]
  exact hdist.thenDoes hv₁ (does_sendConfirm.trans does_clearPending) (by decide)

theorem handleContentBody (data : Bytes) (hv : Valid s) :
    Traced s (s.handleContentBodyJournal c num data) (s.handleContentBody c num data) := by
  rw [AmqpServer.handleContentBody, handleContentBodyJournal]
  cases hp : (s.channel c num).bind Channel.pendingPublish with
  | none => exact refl hv.held
  | some p =>
    have hsound : ({ p with body := p.body ++ data, bodyReceived := p.bodyReceived + data.length } : PendingPublish).Sound :=
      ⟨(hv.pending hp).exchange, (hv.pending hp).routing_key, (hv.pending hp).properties⟩
    have hset : Does c [.pending] s (s.setPending c num _) := does_setPending hsound
    have hfirst := does hset (by decide) hv
    dsimp only
    split
    · exact hfirst.trans fun _ => publish ((hset.moves hv).valid hv) hsound
    · exact hfirst

theorem handleContentHeader (buf : Buffer) (hv : Valid s) :
    Traced s (s.handleContentHeaderJournal c num buf) (outcome (s.handleContentHeader c num buf)) := by
  rw [AmqpServer.handleContentHeader, handleContentHeaderJournal]
  cases hp : (s.channel c num).bind Channel.pendingPublish with
  | none => exact refl hv.held
  | some p =>
    have hpend := hv.pending hp
    dsimp only
    cases readContentHeader buf with
    | error e => exact refl hv.held
    | ok x =>
      obtain ⟨bodySize, buf'⟩ := x
      dsimp only
      split
      · exact does (does_clearPending.trans (does_sendChannelClose ..)) (by decide) hv
      · cases hdec : BasicProperties.decode buf' with
        | error e =>
          have hsound : ({ p with bodySize } : PendingPublish).Sound := ⟨hpend.exchange, hpend.routing_key, hpend.properties⟩
          exact does (does_setPending hsound) (by decide) hv
        | ok x =>
          obtain ⟨properties, rest⟩ := x
          obtain ⟨-, -, -, hwell, -⟩ := BasicProperties.accepts_properties _ _ _ hdec
          have hsound : ({ p with bodySize, properties } : PendingPublish).Sound :=
            ⟨hpend.exchange, hpend.routing_key, hwell⟩
          have hset : Does c [.pending] s (s.setPending c num _) := does_setPending hsound
          have hfirst := does hset (by decide) hv
          dsimp only [outcome]
          split
          · exact hfirst.trans fun _ => handleContentBody [] ((hset.moves hv).valid hv)
          · exact hfirst

/-! ### Methods -/

/-- The same test on both sides. --/
theorem ite {p : Prop} [Decidable p] {a b : Outcome} (ha : p → Traced s L (outcome a)) (hb : ¬p → Traced s L' (outcome b)) :
    Traced s (if p then L else L') (outcome (if p then a else b)) := by
  split
  · rename_i h
    exact ha h
  · rename_i h
    exact hb h

/-- The same arguments on both sides. --/
theorem args {α : Type} {read : Read α} {buf : Buffer} {journal : α → List MessageEvent} {f : α → AmqpServer}
    (hs : Held s.heap.size s) (hf : ∀ a, Traced s (journal a) (f a)) :
    Traced s (argsJournal read buf journal) (outcome (withArgs read buf s f)) := by
  rw [argsJournal, withArgs]
  cases read buf with
  | error e => exact refl hs
  | ok x => exact hf x.1

theorem consume (ch : Channel) (queue tag : Bytes) (bits : UInt8) (hs : Held s.heap.size s) :
    Traced s (s.consumeJournal c num ch queue tag bits) (s.consume c num ch queue tag bits) := by
  have hadd : ∀ s₁ : AmqpServer, s₁.queues = s.queues → s₁.heap = s.heap →
      Traced s (dispatchJournal queue s₁ (.addConsumer s.consumerHeap.size)) (s₁.addConsumer queue s.consumerHeap.size) :=
    fun s₁ hqueues hheap => (ofEq hs hqueues hheap).trans (addConsumer queue _)
  rw [AmqpServer.consume, consumeJournal]
  refine hadd _ ?_ ?_
  · split <;> rfl
  · split <;> rfl

theorem handleBasicConsume (buf : Buffer) (hv : Valid s) :
    Traced s (s.handleBasicConsumeJournal c num buf) (outcome (s.handleBasicConsume c num buf)) := by
  refine args hv.held ?_
  rintro ⟨queue, tag, bits⟩
  dsimp only
  cases s.queue queue with
  | none => exact sent (does_sendChannelClose ..) hv
  | some q =>
    cases s.channel c num with
    | none => exact refl hv.held
    | some ch => exact consume ch queue tag bits hv.held

theorem handleBasicGet (buf : Buffer) (hv : Valid s) :
    Traced s (s.handleBasicGetJournal c num buf) (outcome (s.handleBasicGet c num buf)) := by
  refine args hv.held ?_
  rintro ⟨queue, bits⟩
  dsimp only
  cases s.queue queue with
  | none => exact sent (does_sendChannelClose ..) hv
  | some q =>
    cases s.channel c num with
    | none => exact refl hv.held
    | some ch =>
      have hget := get queue hv.held
      have hmoves := (does_get (c := c) (s := s) queue).moves hv
      have hv₁ := hmoves.valid hv
      have hlt : ∀ r, (s.get queue).1 = some r → r < (s.get queue).2.heap.size := fun r hr =>
        (lt_of_get hv hr).trans_le hmoves.heap_le
      dsimp only
      generalize s.get queue = x at hget hv₁ hlt
      obtain ⟨_ | r, s₁⟩ := x
      · have hempty : Does c [.output] s₁ (s₁.sendMethodFrame c num class_id.BASIC basic_method.GET_EMPTY (writeShortString [])) :=
          does_sendMethodFrame _ _ _ rfl
        exact hget.thenDoes hv₁ hempty (by decide)
      · exact hget.thenDoes hv₁ (does_handGet ch queue (hasBit bits 0x01) (hlt r rfl)) (by decide)

theorem handleBasicReject (buf : Buffer) (hv : Valid s) :
    Traced s (s.handleBasicRejectJournal c num buf) (outcome (s.handleBasicReject c num buf)) :=
  args hv.held fun a => settleReject (hasBit a.2 0x01) a.1.toNat hv

theorem handleBasicNack (buf : Buffer) (hv : Valid s) :
    Traced s (s.handleBasicNackJournal c num buf) (outcome (s.handleBasicNack c num buf)) :=
  args hv.held fun _ => traceValid (fun _ => settleReject _) (does_settle (does_rejectUnacked _)) _ hv

theorem handleBasicAck (buf : Buffer) (hv : Valid s) : Traced s [] (outcome (s.handleBasicAck c num buf)) := by
  have hack : ∀ s u, u.message < s.heap.size → Does c [.settle] s (s.persistAck u) := fun s u hu => .of (.settle u hu)
  exact does (outcome_withArgs .refl fun _ => Does.foldl (does_settle hack) _ _) (by decide) hv

theorem handleBasicRecover (buf : Buffer) (hv : Valid s) :
    Traced s (s.handleBasicRecoverJournal c num buf) (outcome (s.handleBasicRecover c num buf)) := by
  have hlt : ∀ u ∈ s.unacked c num, u.message < s.heap.size := fun u hu => lt_of_mem_unacked hv hu
  have hput : ∀ s₁, ∀ u ∈ s.unacked c num, s.heap.size ≤ s₁.heap.size → Held s₁.heap.size s₁ →
      Traced s₁ (s₁.rejectIfThereJournal true u) (s₁.rejectIfThere true u) :=
    fun s₁ u hu hle => rejectIfThere true ((hlt u hu).trans_le hle)
  have hdoes : ∀ (s : AmqpServer) (u : UnackedMessage), u.message < s.heap.size →
      Does c [.queue, .requeue] s (s.rejectIfThere true u) := fun s u hu => does_rejectIfThere true hu
  have hdone : ∀ s₁ : AmqpServer, Does c [.release, .output] s₁
      ((s₁.clearUnacked c num).sendMethodFrame c num class_id.BASIC basic_method.RECOVER_OK []) := fun s₁ =>
    (Does.of (.clearUnacked num)).trans (does_sendMethodFrame _ _ _ rfl)
  refine args hv.held fun bits => ?_
  dsimp only
  split
  · have hmoves := (Does.foldl_refs hdoes (s.unacked c num) s hlt).moves hv
    exact (trace hput le_rfl hv.held).thenDoes (hmoves.valid hv) (hdone _) (by decide)
  · exact does (hdone s) (by decide) hv

theorem handleMethod (classId methodId : UInt16) (buf : Buffer) (hv : Valid s) :
    Traced s (s.handleMethodJournal c num classId methodId buf) (outcome (s.handleMethod c num classId methodId buf)) := by
  have hno : ∀ classId, Traced s [] (s.notImplemented c num classId methodId) := fun _ => sent (does_sendChannelClose ..) hv
  have hnone : ∀ classId, Traced s [] (outcome (.ok (s.notImplemented c num classId methodId))) := hno
  rw [AmqpServer.handleMethod, handleMethodJournal]
  refine ite (fun _ => ?exchange) fun _ => ite (fun _ => ?queue) fun _ => ite (fun _ => ?basic) fun _ => ?rest
  case exchange =>
    exact outcome_ite (does (does_handleExchangeDeclare buf) (by decide) hv)
      (outcome_ite (does (does_handleExchangeDelete buf) (by decide) hv) (hnone _))
  case queue =>
    exact outcome_ite (does (does_handleQueueDeclare buf) (by decide) hv)
      (outcome_ite (does (does_handleQueueBind buf) (by decide) hv)
        (outcome_ite (does (does_handleQueueUnbind buf) (by decide) hv)
          (outcome_ite (does (does_handleQueuePurge buf) (by decide) hv)
            (outcome_ite (does (does_handleQueueDelete buf) (by decide) hv) (hnone _)))))
  case basic =>
    exact ite (fun _ => does (does_handleBasicQos buf) (by decide) hv) fun _ =>
      ite (fun _ => handleBasicConsume buf hv) fun _ =>
      ite (fun _ => does (does_handleBasicCancel buf) (by decide) hv) fun _ =>
      ite (fun _ => does (does_handleBasicPublish buf) (by decide) hv) fun _ =>
      ite (fun _ => handleBasicGet buf hv) fun _ =>
      ite (fun _ => handleBasicAck buf hv) fun _ =>
      ite (fun _ => handleBasicReject buf hv) fun _ =>
      ite (fun _ => handleBasicRecover buf hv) fun _ =>
      ite (fun _ => handleBasicRecover buf hv) fun _ =>
      ite (fun _ => handleBasicNack buf hv) fun _ => hnone _
  case rest =>
    refine outcome_ite (outcome_ite (does (does_handleConfirmSelect buf) (by decide) hv) (hnone _))
      (outcome_ite (outcome_ite ?_ (outcome_ite ?_ (outcome_ite ?_ (hnone _)))) (hnone _))
    · exact does (does_handleTx _) (by decide) hv
    · exact does (does_handleTx _) (by decide) hv
    · exact does (does_handleTx _) (by decide) hv

/-! ### Frames -/

theorem handleConnectionMethod (methodId : UInt16) (buf : Buffer) (hv : Valid s) :
    Traced s (s.handleConnectionMethodJournal c methodId buf) (outcome (s.handleConnectionMethod c methodId buf)) := by
  have hok : ∀ args, Does c [.output] s (s.sendMethodFrame c 0 class_id.CONNECTION connection_method.CLOSE_OK args) :=
    fun _ => does_sendMethodFrame _ _ _ rfl
  have hclose : Traced s (argsJournal readClose buf fun _ =>
      (s.sendMethodFrame c 0 class_id.CONNECTION connection_method.CLOSE_OK []).shutdownJournal c)
      (outcome (s.handleConnectionClose c buf)) :=
    args hv.held fun _ => (sent (hok []) hv).trans fun _ => shutdown (((hok []).moves hv).valid hv)
  rw [AmqpServer.handleConnectionMethod, handleConnectionMethodJournal]
  refine ite (fun _ => does (does_handleStartOk buf) (by decide) hv) fun _ =>
    ite (fun _ => does (does_handleTuneOk buf) (by decide) hv) fun _ =>
    ite (fun _ => does (does_handleConnectionOpen buf) (by decide) hv) fun _ =>
    ite (fun _ => hclose) fun _ => ite (fun _ => shutdown hv) fun _ => ?_
  exact does (does_sendConnectionClose ..) (by decide) hv

theorem handleMethodFrame (buf : Buffer) (hv : Valid s) :
    Traced s (s.handleMethodFrameJournal c num buf) (outcome (s.handleMethodFrame c num buf)) := by
  rw [AmqpServer.handleMethodFrame, handleMethodFrameJournal]
  cases readMethodIds buf with
  | error e => exact refl hv.held
  | ok x =>
    obtain ⟨⟨classId, methodId⟩, buf⟩ := x
    have hclose : Traced s (argsJournal readClose buf fun _ => s.cleanupChannelJournal c num)
        (outcome (s.handleChannelClose c num buf)) :=
      args hv.held fun _ => (cleanupChannel hv).thenDoes (K := [.output]) ((does_cleanupChannel.moves hv).valid hv)
        (does_sendMethodFrame _ _ _ rfl) (by decide)
    refine ite (fun _ => ite (fun _ => ?_) fun _ => handleConnectionMethod methodId buf hv) fun _ =>
      ite (fun _ => does (does_handleChannelOpen buf) (by decide) hv) fun _ => ite (fun _ => hclose) fun _ =>
      ite (fun _ => cleanupChannel hv) fun _ => ite (fun _ => does (does_handleChannelFlow buf) (by decide) hv) fun _ => ?_
    · exact does (does_sendConnectionClose ..) (by decide) hv
    · rw [handleOnChannel, handleOnChannelJournal]
      cases s.openChannelAt c num with
      | none => exact does (does_sendConnectionClose ..) (by decide) hv
      | some ch => exact handleMethod classId methodId buf hv

theorem handleFrame (frame : Frame) (hv : Valid s) :
    Traced s (s.handleFrameJournal c frame) (outcome (s.handleFrame c frame)) := by
  have hclosing : ∀ buf, Traced s (s.handleClosingJournal c buf) (outcome (s.handleClosing c buf)) := by
    intro buf
    rw [handleClosing, handleClosingJournal]
    cases readMethodIds buf with
    | error e => exact refl hv.held
    | ok x =>
      dsimp only [outcome]
      split
      · exact shutdown hv
      · exact refl hv.held
  rw [AmqpServer.handleFrame, handleFrameJournal]
  refine ite (fun _ => hclosing _) fun _ => ite (fun _ => handleMethodFrame _ hv) fun _ => ite (fun _ => ?_) fun _ =>
    ite (fun _ => ?_) fun _ => outcome_ite (refl hv.held) ?_
  · cases s.openChannelAt c frame.channel with
    | none => exact refl hv.held
    | some ch => exact handleContentHeader _ hv
  · cases s.openChannelAt c frame.channel with
    | none => exact refl hv.held
    | some ch => exact handleContentBody _ hv
  · exact does (does_sendConnectionClose ..) (by decide) hv

theorem receiveFrame (conn : Connection) (frame : Frame) (frameEnd : UInt8) (hv : Valid s) :
    Traced s (s.receiveFrameJournal c conn frame frameEnd) (s.receiveFrame c conn frame frameEnd) := by
  have hframe := handleFrame (c := c) frame hv
  have hv₁ : Valid (outcome (s.handleFrame c frame)) :=
    ((does_handleFrame (K := .oversize :: requestKinds) (fun _ => List.mem_cons_of_mem _) (.inl List.mem_cons_self)).moves hv).valid hv
  rw [AmqpServer.receiveFrame, receiveFrameJournal]
  generalize effectiveMax conn = effectiveMax
  split
  · exact does (does_stopReading _) (by decide) hv
  · split
    · exact does (does_stopReading _) (by decide) hv
    · cases hout : s.handleFrame c frame with
      | ok s₁ => rwa [hout] at hframe
      | error s₁ =>
        rw [hout] at hframe hv₁
        exact hframe.thenDoes hv₁ (does_stopReading _) (by decide)

theorem receiveProtocolHeader (header : Bytes) {conn : Connection} (hconn : s.connection c = some conn)
    (hstate : conn.state = .AWAITING_PROTOCOL_HEADER) (hv : Valid s) :
    Traced s (s.receiveProtocolHeaderJournal c header) (s.receiveProtocolHeader c header) := by
  rw [AmqpServer.receiveProtocolHeader, receiveProtocolHeaderJournal]
  split
  · exact does ((does_awaitStartOk hconn hstate).trans (does_sendMethodFrame (k := .output) _ _ _ rfl)) (by decide) hv
  · have hsend : Does c [.output] s (s.send c .protocolHeader) := .of (.send .protocolHeader)
    exact (sent hsend hv).trans fun _ => shutdown ((hsend.moves hv).valid hv)

/-! ### Runs -/

/-- Every event but a restart. --/
theorem handle (e : Event) (he : e ≠ .restart) (hv : Valid s) : Traced s (s.handleJournal e) (s.handle e) := by
  cases e with
  | accept => exact move (c := 0) .accept (by decide) hv
  | protocolHeader c header =>
    rw [AmqpServer.handle, handleJournal]
    cases hconn : s.connection c with
    | none => exact refl hv.held
    | some conn =>
      dsimp only
      split
      · rename_i hread
        exact receiveProtocolHeader header hconn hread.2 hv
      · exact refl hv.held
  | frame c frame frameEnd =>
    rw [AmqpServer.handle, handleJournal]
    cases s.connection c with
    | none => exact refl hv.held
    | some conn =>
      dsimp only
      split
      · exact receiveFrame conn frame frameEnd hv
      · exact refl hv.held
  | runTask c => exact does does_runTask (by decide) hv
  | disconnect c => exact shutdown hv
  | tick => exact tick hv.held
  | compact => exact move (c := 0) .compact (by decide) hv
  | restart => exact absurd rfl he
  | reorderQueues order => exact move (c := 0) (.reorderQueues order) (by decide) hv
  | reorderExchanges order => exact move (c := 0) (.reorderExchanges order) (by decide) hv
  | reorderChannels c order => exact move (c := c) (.reorderChannels order) (by decide) hv
  | reorderConsumers c num order => exact move (c := c) (.reorderConsumers num order) (by decide) hv
  | reorderUnacked c num order => exact move (c := c) (.reorderUnacked num order) (by decide) hv

end Traced

theorem kept_handle (hv : Valid s) (e : Event) :
    (∀ d m, Apart d m s → Untouched d m (s.handle e) (s.handleJournal e)) ∧ Made (s.handle e) (s.handleJournal e) := by
  by_cases he : e = .restart
  · subst he
    exact ⟨fun d m _ => ⟨fun _ => trivial, fun hend => absurd trivial hend⟩, fun x hx => (by cases hx), trivial⟩
  · exact ⟨(Traced.handle e he hv).kept, (Traced.handle e he hv).made⟩

theorem kept_run (hv : Valid s) (events : List Event) :
    (∀ d m, Apart d m s → Untouched d m (s.run events) (s.journal events)) ∧ Made (s.run events) (s.journal events) := by
  induction events generalizing s with
  | nil => exact ⟨fun _ _ ha => ha, trivial⟩
  | cons e events ih =>
    obtain ⟨hkept, hmade⟩ := kept_handle hv e
    obtain ⟨hlater, hlast⟩ := ih (valid_handle hv e)
    exact ⟨fun d m ha => (hkept d m ha).append (hlater d m), hmade.append hlater hlast⟩

theorem journal_cons (e : Event) (events : List Event) :
    s.journal (e :: events) = s.handleJournal e ++ (s.handle e).journal events := rfl

/-- As long as the process lives, a message has at most one hop for each time that it is dead-lettered: the 32 bits of its
    counter are enough for 2 ^ 32 of them, where the limit is `MAX_DLX_HOPS`. --/
theorem hops_run (hv : Valid s) {events : List Event} (hlives : ∀ e ∈ events, e ≠ .restart) (r : Ref) :
    ((s.run events).message r).dlx_hops ≤ (s.message r).dlx_hops + deathsOf r (s.journal events) := by
  induction events generalizing s with
  | nil => exact Nat.le_refl _
  | cons e events ih =>
    have hstep := (Traced.handle e (hlives e List.mem_cons_self) hv).hops r
    have hrest := ih (valid_handle hv e) fun e' he' => hlives e' (List.mem_cons_of_mem _ he')
    rw [journal_cons, deathsOf, List.countP_append, ← deathsOf, ← deathsOf]
    exact hrest.trans (by omega)

/-- The first message of a queue. --/
def front (s : AmqpServer) (name : Bytes) : Option Ref := (s.queue name).bind fun q => q.messages.head?

/-- What is put back is the object that was made for the delivery. --/
theorem front_of_journal {events : List Event} {before between after : List MessageEvent} {x : Handover} (hv : Valid s)
    (hjournal : s.journal events = before ++ .handedOver x :: (between ++ .putBack t name x.state.heap.size :: after))
    (hbetween : ∀ e ∈ between, ¬e.Ends x.state.heap.size) :
    (t.putBack name x.state.heap.size).front name = some x.state.heap.size ∧
      (t.putBack name x.state.heap.size).message x.state.heap.size =
        { (x.state.message x.message).copied with redelivered := true } := by
  obtain ⟨-, hmade⟩ := kept_run hv events
  rw [hjournal] at hmade
  obtain ⟨hmessage, hthere⟩ := hmade.kept.shown hbetween
  obtain ⟨q, hq⟩ := Option.isSome_iff_exists.mp hthere
  have hmark := message_modifyMessage_self (s := t) x.state.heap.size fun m => { m with redelivered := true }
  rw [hmessage] at hmark
  refine ⟨?_, hmark⟩
  rw [front, queue_putBack hq]
  rfl

/-- A message that is taken by `dispatch` and later put back is the message that was taken exactly if that had none of what
    `on_deliver` does not pass on: no WAL id, no time of enqueue, no source connection and no dead-letter hops. --/
theorem redelivers_iff (store : Option MessageStore) (userStore : UserStore) (clock : Nat → Int) (readings : Nat)
    (events : List Event) {before between after : List MessageEvent} {x : Handover} {t : AmqpServer} {name : Bytes}
    (hjournal : (start store userStore clock readings).journal events =
      before ++ .handedOver x :: (between ++ .putBack t name x.state.heap.size :: after))
    (hbetween : ∀ e ∈ between, ¬e.Ends x.state.heap.size) :
    (∃ r, (t.putBack name x.state.heap.size).front name = some r ∧
        (x.state.message x.message).Redelivers ((t.putBack name x.state.heap.size).message r)) ↔
      (x.state.message x.message).Plain := by
  obtain ⟨hfront, hmessage⟩ := front_of_journal valid_start hjournal hbetween
  rw [← Message.redelivers_copied_iff, ← hmessage]
  constructor
  · rintro ⟨r, hr, hsame⟩
    obtain rfl := Option.some.inj (hfront.symm.trans hr)
    exact hsame
  · exact fun hsame => ⟨_, hfront, hsame⟩

/-- A persistent message is delivered, put back, delivered again and put back again. --/
def redeliveryRun : List Event :=
  Client.connect 1 ++ [Client.openChannel 1 1, Client.assertQueue 1 1 (ascii "q") false true false false [],
    Client.consume 1 1 (ascii "q") (ascii "c") false false false] ++
  Client.sendToQueue 1 1 (ascii "q") (ascii "m") { delivery_mode := some 2 } ++
  [.runTask 1, Client.reject 1 1 1 true, .runTask 1, Client.reject 1 1 2 true]

/-- An event as numbers. --/
def outline : MessageEvent → List Nat
  | .handedOver x =>
    let m := x.state.message x.message
    [0, x.state.heap.size, if (x.state.consumer x.consumer).no_ack then 1 else 0, m.wal_id.toNat, m.enqueued_at.natAbs,
      m.source_connection_id, m.dlx_hops]
  | .putBack _ name r => 1 :: r :: name.map UInt8.toNat
  | .enqueued r => [2, r]
  | .deadLettered r => [3, r]
  | .restarted => [4]

theorem outline_handedOver {n id source : Nat} (h : outline e = [0, n, 0, id, 0, source, 0]) :
    ∃ x, e = .handedOver x ∧ x.state.heap.size = n ∧ (x.state.consumer x.consumer).no_ack = false ∧
      (x.state.message x.message).wal_id.toNat = id ∧
      (id = 0 ∧ source = 0 → (x.state.message x.message).Plain) := by
  cases e with
  | handedOver x =>
    simp only [outline, List.cons.injEq, and_true, true_and, ite_eq_right_iff, Nat.one_ne_zero, imp_false,
      Bool.not_eq_true, Int.natAbs_eq_zero] at h
    obtain ⟨hsize, hack, hid, hat, hsource, hhops⟩ := h
    refine ⟨x, rfl, hsize, hack, hid, ?_⟩
    rintro ⟨rfl, rfl⟩
    exact ⟨UInt64.toNat.inj hid, hat, hsource, hhops⟩
  | _ => simp [outline] at h

theorem outline_putBack {r : Nat} (h : outline e = [1, r, 113]) : ∃ t, e = .putBack t (ascii "q") r := by
  cases e with
  | putBack t name r' =>
    simp only [outline, List.cons.injEq, true_and] at h
    obtain ⟨rfl, hname⟩ := h
    have heq : name = ascii "q" := List.map_injective_iff.mpr (fun _ _ => UInt8.toNat.inj) hname
    exact ⟨t, heq ▸ rfl⟩
  | _ => simp [outline] at h

/-- The message comes into the queue and is handed out; twice it is put back and handed out again. --/
theorem journal_redeliveryRun : ∃ (e₀ e₅ : MessageEvent) (x₁ x₂ : Handover) (t₁ t₂ : AmqpServer),
    freshServer.journal redeliveryRun = [e₀, .handedOver x₁, .putBack t₁ (ascii "q") x₁.state.heap.size,
      .handedOver x₂, .putBack t₂ (ascii "q") x₂.state.heap.size, e₅] ∧
    (x₁.state.consumer x₁.consumer).no_ack = false ∧ (x₁.state.message x₁.message).wal_id.toNat = 1 ∧
    (x₂.state.message x₂.message).Plain := by
  have houtline : (freshServer.journal redeliveryRun).map outline = [[2, 0], [0, 1, 0, 1, 0, 1, 0], [1, 1, 113],
      [0, 2, 0, 0, 0, 0, 0], [1, 2, 113], [0, 3, 0, 0, 0, 0, 0]] := by decide +kernel
  obtain ⟨e₀, _, heq, -, houtline⟩ := List.map_eq_cons_iff.mp houtline
  obtain ⟨e₁, _, rfl, h₁, houtline⟩ := List.map_eq_cons_iff.mp houtline
  obtain ⟨e₂, _, rfl, h₂, houtline⟩ := List.map_eq_cons_iff.mp houtline
  obtain ⟨e₃, _, rfl, h₃, houtline⟩ := List.map_eq_cons_iff.mp houtline
  obtain ⟨e₄, _, rfl, h₄, houtline⟩ := List.map_eq_cons_iff.mp houtline
  obtain ⟨e₅, _, rfl, -, houtline⟩ := List.map_eq_cons_iff.mp houtline
  obtain rfl := List.map_eq_nil_iff.mp houtline
  obtain ⟨x₁, rfl, hsize₁, hack, hid, -⟩ := outline_handedOver h₁
  obtain ⟨x₂, rfl, hsize₂, -, -, hplain⟩ := outline_handedOver h₃
  obtain ⟨t₁, rfl⟩ := outline_putBack h₂
  obtain ⟨t₂, rfl⟩ := outline_putBack h₄
  exact ⟨e₀, e₅, x₁, x₂, t₁, t₂, by rw [heq, hsize₁, hsize₂], hack, hid, hplain ⟨rfl, rfl⟩⟩

/-- The second time the message is put back as it was taken. --/
theorem redelivers_again : ∃ (x : Handover) (t : AmqpServer), (x.state.message x.message).Plain ∧
    ((∃ r, (t.putBack (ascii "q") x.state.heap.size).front (ascii "q") = some r ∧
        (x.state.message x.message).Redelivers ((t.putBack (ascii "q") x.state.heap.size).message r)) ↔
      (x.state.message x.message).Plain) := by
  obtain ⟨e₀, e₅, x₁, x₂, t₁, t₂, hjournal, -, -, hplain⟩ := journal_redeliveryRun
  have hsecond : (start (some {}) {} (fun _ => 0) 0).journal redeliveryRun =
      [e₀, .handedOver x₁, .putBack t₁ (ascii "q") x₁.state.heap.size] ++
        .handedOver x₂ :: ([] ++ .putBack t₂ (ascii "q") x₂.state.heap.size :: [e₅]) := hjournal
  exact ⟨x₂, t₂, hplain, redelivers_iff (some {}) {} (fun _ => 0) 0 redeliveryRun hsecond nofun⟩

/-- The first time it has lost its WAL id. --/
theorem redelivery_differs : ∃ (e : MessageEvent) (x : Handover) (t : AmqpServer) (after : List MessageEvent),
    freshServer.journal redeliveryRun =
      [e] ++ .handedOver x :: ([] ++ .putBack t (ascii "q") x.state.heap.size :: after) ∧
    (x.state.consumer x.consumer).no_ack = false ∧
    ¬∃ r, (t.putBack (ascii "q") x.state.heap.size).front (ascii "q") = some r ∧
      (x.state.message x.message).Redelivers ((t.putBack (ascii "q") x.state.heap.size).message r) := by
  obtain ⟨e₀, e₅, x₁, x₂, t₁, t₂, hjournal, hack, hid, -⟩ := journal_redeliveryRun
  have hfirst : freshServer.journal redeliveryRun =
      [e₀] ++ .handedOver x₁ :: ([] ++ .putBack t₁ (ascii "q") x₁.state.heap.size ::
        [.handedOver x₂, .putBack t₂ (ascii "q") x₂.state.heap.size, e₅]) := hjournal
  refine ⟨e₀, x₁, t₁, _, hfirst, hack, ?_⟩
  obtain ⟨hfront, hmessage⟩ := front_of_journal valid_start hfirst nofun
  rintro ⟨r, hr, hsame⟩
  obtain rfl := Option.some.inj (hfront.symm.trans hr)
  rw [hmessage, Message.redelivers_copied_iff] at hsame
  rw [hsame.wal_id] at hid
  cases hid

end AmqpServer
end Broko.Broker
