import Broko.Theorems.DeadLetters
import Broko.Theorems.Mandatory
import Broko.Theorems.Strands

/-! What a message carries from its publish to its consumers. A publish gives each queue of its route an object with the
    message. From then on every object that goes back to this one, and every delivery that is posted for one of them, has
    the same content, up to the headers of a dead letter. -/

namespace Broko.Broker
open Amqp Storage MessageStore

/-- The message that the task delivers. --/
def DeliverTask.message (t : DeliverTask) : Message :=
  { exchange := t.exchange, routing_key := t.routingKey, properties := t.props, body := t.body }

theorem sameContent_of_eq {m m' : Message} (hexchange : m'.exchange = m.exchange) (hkey : m'.routing_key = m.routing_key)
    (hprops : m'.properties = m.properties) (hbody : m'.body = m.body) : m.SameContent m' := by
  refine ⟨hexchange, hkey, hbody, by rw [hprops], fun key _ => ?_, fun key _ hsome => ?_⟩
  · rw [Message.header, hprops, Message.header]
  · rwa [Message.header, hprops]

theorem sameContent_of_frame {m m' : Message} (h : m'.frame = m.frame) : m.SameContent m' := by
  have hframe : m.frame.SameContent m'.frame := h ▸ .refl _
  exact ⟨hframe.exchange, hframe.routing_key, hframe.body, hframe.properties, hframe.headers, hframe.marks⟩

theorem sameContent_of_unlogged {m m' : Message} (h : m'.unlogged = m.unlogged) : m.SameContent m' := by
  have hunlogged : m.unlogged.SameContent m'.unlogged := h ▸ .refl _
  exact ⟨hunlogged.exchange, hunlogged.routing_key, hunlogged.body, hunlogged.properties, hunlogged.headers, hunlogged.marks⟩

theorem sameContent_copied (m : Message) : m.SameContent m.copied := ⟨rfl, rfl, rfl, rfl, fun _ _ => rfl, fun _ _ h => h⟩

namespace AmqpServer

variable {c : Nat} {num : UInt16} {s s' : AmqpServer} {m : Message} {o r : Ref}

/-! ### Objects and tasks -/

/-- Whatever goes back to the object `o` has the content of the message. --/
structure Bears (m : Message) (o : Ref) (s : AmqpServer) : Prop where
  lt : o < s.heap.size
  objects : ∀ r, r < s.heap.size → s.origin r = o → m.SameContent (s.message r)
  tasks : ∀ c conn, s.connection c = some conn → ∀ t ∈ conn.strand, s.origin t.msg = o → m.SameContent t.message

namespace Bears

/-- A move changes of a message only what its content does not say. --/
theorem sameContent_move {k : Kind} (hm : Move c k s s') (hr : r < s.heap.size) :
    (s.message r).SameContent (s'.message r) := by
  rcases message_of_move hm hr with heq | ⟨-, ⟨f, hf, rfl⟩ | ⟨q, name, reason, -, -, rfl⟩⟩
  · rw [heq]
    exact .refl _
  · rw [message_modifyMessage_self]
    exact sameContent_of_frame (hf _)
  · rw [message_modifyMessage_self]
    exact sameContent_deathHeaders name reason _

theorem move (h : Bears m o s) (hv : Valid s) {k : Kind} (hm : Move c k s s') : Bears m o s' := by
  have hqueued : ∀ {name : Bytes} {q : MessageQueue} {r : Ref}, s.queue name = some q → r ∈ q.messages → r < s.heap.size :=
    fun hq hr => (hv.queue hq).messages _ hr
  refine ⟨h.lt.trans_le (heap_le_of_move hm), fun r hr horigin => ?_, fun c conn' hconn' t ht horigin => ?_⟩
  · by_cases hold : r < s.heap.size
    · rw [origin_move hm hold] at horigin
      exact (h.objects r hold horigin).trans (sameContent_move hm hold)
    · -- The object is new, and a copy if it is not its own origin.
      rcases heap_of_move hm with hheap | ⟨r', f, hheap⟩ | ⟨x, hheap, hx⟩ <;> rw [hheap] at hr
      · exact absurd hr hold
      · exact absurd hr hold
      · obtain rfl : r = s.heap.size := by
          have : r < s.heap.size + 1 := hr
          omega
        rw [origin, hheap, Heap.cell_alloc_self] at horigin
        rw [message, hheap, Heap.cell_alloc_self]
        rcases hx with hself | ⟨name, q, head, hq, hhead, rfl⟩
        · exact absurd (hself.symm.trans horigin) (Nat.ne_of_gt h.lt)
        · exact (h.objects head (hqueued hq hhead) horigin).trans (sameContent_copied _)
  · rcases strand_move hm hconn' ht with ⟨conn, hconn, ht⟩ | ⟨name, k', head, idx, q, hq, hhead, rfl, hposts⟩
    · have hmsg : t.msg < s.heap.size := (hv.connections c conn hconn).2.strand t ht
      rw [origin_move hm hmsg] at horigin
      exact h.tasks c conn hconn t ht horigin
    · rw [origin, hposts.cell] at horigin
      have hsame := h.objects head (hqueued hq hhead) horigin
      obtain ⟨hexchange, hkey, hprops, hbody⟩ := hposts.content
      exact hsame.trans (sameContent_of_eq hexchange hkey hprops hbody)

theorem does {K : List Kind} (h : Bears m o s) (hv : Valid s) (hdoes : Does c K s s') : Bears m o s' :=
  ((hdoes.moves hv).keeps (P := fun s => Valid s ∧ Bears m o s)
    (fun _ _ _ _ hm h => ⟨h.1.move hm, h.2.move h.1 hm⟩) ⟨hv, h⟩).2

/-- Whatever happens, as long as the process lives. --/
theorem run (h : Bears m o s) (hv : Valid s) {events : List Event} (hlives : ∀ e ∈ events, e ≠ .restart) :
    Bears m o (s.run events) := by
  induction events generalizing s with
  | nil => exact h
  | cons e events ih =>
    obtain ⟨c, hactor, -⟩ := exists_actor e 0
    have hdoes : Does c (.oversize :: allKinds) s (s.handle e) :=
      does_handle hactor (hlives e List.mem_cons_self) (fun _ => List.mem_cons_of_mem _) (.inl List.mem_cons_self)
    exact ih (h.does hv hdoes) (valid_handle hv e) fun e' he' => hlives e' (List.mem_cons_of_mem _ he')

/-- A new object has the content of its message, and nothing else goes back to it. --/
theorem newMessage (hv : Valid s) (m : Message) : Bears m s.heap.size (s.newMessage m) := by
  have hlt : ∀ {r : Ref}, r < s.heap.size → (s.newMessage m).origin r < s.heap.size := by
    intro r hr
    rw [origin, AmqpServer.newMessage, Heap.cell_alloc_of_ne (Nat.ne_of_lt hr)]
    exact hv.origins r hr
  refine ⟨Nat.lt_succ_self _, fun r hr horigin => ?_, fun c conn hconn t ht horigin => ?_⟩
  · obtain rfl : r = s.heap.size := by
      refine (Nat.lt_succ_iff_lt_or_eq.mp hr).resolve_left fun hold => ?_
      exact Nat.lt_irrefl _ (horigin ▸ hlt hold)
    rw [message, AmqpServer.newMessage, Heap.cell_alloc_self]
    exact .refl m
  · exact absurd (horigin ▸ hlt ((hv.connections c conn hconn).2.strand t ht)) (Nat.lt_irrefl _)

end Bears

/-! ### What was put into the queues -/

/-- What was ever put into a queue, stays on its record. --/
def Accrues (s s' : AmqpServer) : Prop :=
  ∀ name ever, Config.everIn s name = some ever → ∃ more, Config.everIn s' name = some (ever ++ more)

namespace Accrues
variable {s₁ : AmqpServer} {name : Bytes}

theorem of_eq (h : ∀ name, Config.everIn s' name = Config.everIn s name) : Accrues s s' :=
  fun name ever hever => ⟨[], by rw [h, hever, List.append_nil]⟩

theorem of_queues (h : s'.queues = s.queues) : Accrues s s' := of_eq fun name => by rw [Config.everIn, queue, h]; rfl

theorem refl : Accrues s s := of_queues rfl

theorem trans (h₁ : Accrues s s₁) (h₂ : Accrues s₁ s') : Accrues s s' := by
  intro name ever hever
  obtain ⟨more, hmore⟩ := h₁ name ever hever
  obtain ⟨more', hmore'⟩ := h₂ name _ hmore
  exact ⟨more ++ more', by rw [hmore', List.append_assoc]⟩

theorem foldl {α : Type} {f : AmqpServer → α → AmqpServer} (h : Accrues s s₁) (hf : ∀ s a, Accrues s (f s a)) (l : List α) :
    Accrues s (l.foldl f s₁) :=
  List.foldlRecOn (motive := Accrues s) l f h fun s₁ h a _ => h.trans (hf s₁ a)

theorem everIn_pushBack (s : AmqpServer) (name : Bytes) (r : Ref) :
    Config.everIn (s.pushBack name r) name = (Config.everIn s name).map fun ever => ever ++ [s.origin r] := by
  rw [Config.everIn, queue, AmqpServer.pushBack, AmqpServer.modifyQueue, Assoc.lookup_modify_self, Config.everIn, Option.map_map,
    Option.map_map, origin_modifyMessage]
  rfl

theorem pushBack (s : AmqpServer) (name : Bytes) (r : Ref) : Accrues s (s.pushBack name r) := by
  intro name' ever hever
  by_cases hname : name' = name
  · rw [hname] at hever ⊢
    exact ⟨[s.origin r], by rw [everIn_pushBack, hever]; rfl⟩
  · refine ⟨[], ?_⟩
    rw [Config.everIn, queue, AmqpServer.pushBack, AmqpServer.modifyQueue, Assoc.lookup_modify_of_ne hname, List.append_nil]
    exact hever

theorem deadLetterWith {enqueue : AmqpServer → Bytes → Ref → AmqpServer} (henq : ∀ s name r, Accrues s (enqueue s name r))
    (name reason : Bytes) (s : AmqpServer) (r : Ref) : Accrues s (deadLetterWith enqueue name reason s r) := by
  rw [AmqpServer.deadLetterWith]
  split
  · exact refl
  · split
    · exact refl
    · dsimp only
      split
      · exact of_queues rfl
      · refine foldl ?_ (fun s name => henq s name r) _
        exact of_queues rfl

/-- What happens behind the push: what has expired goes to other queues, and the rest to the consumers. --/
theorem enqueueLoop_pushBack {fuel : Nat} (h : ∀ s name r, Accrues s (enqueueLoop fuel s name r)) (s : AmqpServer) (name : Bytes)
    (r : Ref) (hq : (s.queue name).isSome) : Accrues (s.pushBack name r) (enqueueLoop (fuel + 1) s name r) := by
  obtain ⟨q, hq⟩ := Option.isSome_iff_exists.mp hq
  rw [AmqpServer.enqueueLoop, hq]
  exact foldl (of_eq fun name' => Config.everIn_dispatchLocked.trans Config.everIn_collectExpired) (deadLetterWith h name _) _

theorem enqueueLoop (fuel : Nat) (s : AmqpServer) (name : Bytes) (r : Ref) : Accrues s (enqueueLoop fuel s name r) := by
  induction fuel generalizing s name r with
  | zero => exact refl
  | succ fuel ih =>
    by_cases hq : (s.queue name).isSome
    · exact (pushBack s name r).trans (enqueueLoop_pushBack ih s name r hq)
    · rw [AmqpServer.enqueueLoop, Option.not_isSome_iff_eq_none.mp hq]
      exact refl

end Accrues

theorem objects_storeMessage (name : Bytes) (r : Ref) : (s.storeMessage name r).consumerHeap = s.consumerHeap ∧
    ∀ r', r' ≠ r → (s.storeMessage name r).heap.cell r' = s.heap.cell r' := by
  have hmodify : ∀ (f : Message → Message) (r' : Ref), r' ≠ r → (s.modifyMessage r f).heap.cell r' = s.heap.cell r' :=
    fun f _ hr => Heap.cell_modify_of_ne (f := fun x : Cell => { x with msg := f x.msg }) hr
  rw [storeMessage]
  split
  · exact ⟨rfl, fun _ _ => rfl⟩
  · rename_i st _
    exact ⟨rfl, hmodify fun m => { m with wal_id := (st.storeMessage name (s.message r)).1 }⟩

theorem origin_storeMessage (name : Bytes) (r r' : Ref) : (s.storeMessage name r).origin r' = s.origin r' := by
  have hmodify : ∀ f : Message → Message, (s.modifyMessage r f).origin r' = s.origin r' := fun f => origin_modifyMessage r f r'
  rw [storeMessage]
  split
  · rfl
  · rename_i st _
    exact hmodify fun m => { m with wal_id := (st.storeMessage name (s.message r)).1 }

/-- Nothing happens to the queues, to the consumers and to the objects that are there. --/
structure Meanwhile (s s' : AmqpServer) : Prop where
  queues : s'.queues = s.queues
  consumers : s'.consumerHeap = s.consumerHeap
  size : s.heap.size ≤ s'.heap.size
  cells : ∀ r, r < s.heap.size → s'.heap.cell r = s.heap.cell r

namespace Meanwhile
variable {s₁ : AmqpServer}

theorem of_heap (hqueues : s'.queues = s.queues) (hconsumers : s'.consumerHeap = s.consumerHeap) (hheap : s'.heap = s.heap) :
    Meanwhile s s' :=
  ⟨hqueues, hconsumers, Nat.le_of_eq (congrArg Heap.size hheap).symm, fun r _ => by rw [hheap]⟩

theorem refl : Meanwhile s s := of_heap rfl rfl rfl

theorem trans (h₁ : Meanwhile s s₁) (h₂ : Meanwhile s₁ s') : Meanwhile s s' :=
  ⟨h₂.queues.trans h₁.queues, h₂.consumers.trans h₁.consumers, h₁.size.trans h₂.size,
    fun r hr => (h₂.cells r (hr.trans_le h₁.size)).trans (h₁.cells r hr)⟩

theorem modifyConnection (c : Nat) (f : Connection → Connection) : Meanwhile s (s.modifyConnection c f) := of_heap rfl rfl rfl

theorem sendReturn (m : Message) : Meanwhile s (s.sendReturn c num m) := by
  rw [AmqpServer.sendReturn, AmqpServer.sendContentFrames]
  split
  · exact modifyConnection c _
  · exact List.foldlRecOn (motive := Meanwhile s) _ _ (modifyConnection c _) fun _ h _ _ => h.trans (modifyConnection c _)

theorem sendConfirm : Meanwhile s (s.sendConfirm c num) := by
  rw [AmqpServer.sendConfirm]
  split
  · exact refl
  · split
    · exact (modifyConnection c _).trans (modifyConnection c _)
    · exact refl

theorem newMessage (m : Message) : Meanwhile s (s.newMessage m) :=
  ⟨rfl, rfl, Nat.le_succ _, fun _ hr => Heap.cell_alloc_of_ne (Nat.ne_of_lt hr)⟩

theorem admitted (m : Message) (qname : Bytes) : Meanwhile s (s.admitted m qname) := by
  have hnew : Meanwhile s (s.newMessage m) := newMessage m
  rw [AmqpServer.admitted]
  split
  · exact hnew
  · split
    · obtain ⟨hconsumers, hcells⟩ := objects_storeMessage (s := s.newMessage m) qname s.heap.size
      exact ⟨queues_storeMessage .., hconsumers, (heap_storeMessage ..).symm ▸ hnew.size,
        fun r hr => (hcells r (Nat.ne_of_lt hr)).trans (hnew.cells r hr)⟩
    · exact hnew

end Meanwhile

/-- From one state to the other the message goes to the queues, one after the other, each time in an object that is new, and
    nothing else goes to a queue. --/
inductive Routes (m : Message) : AmqpServer → List (Bytes × Ref) → AmqpServer → Prop
  | nil {s s' : AmqpServer} (h : Meanwhile s s') : Routes m s [] s'
  | cons {s s₁ s' : AmqpServer} {name : Bytes} {r : Ref} {rest : List (Bytes × Ref)} (h : Meanwhile s s₁)
      (hnew : s.heap.size ≤ r ∧ r < s₁.heap.size) (horigin : s₁.origin r = r) (hm : (s₁.message r).unlogged = m)
      (hrest : Routes m (s₁.deliverToQueue name r) rest s') : Routes m s ((name, r) :: rest) s'

namespace Routes
variable {s₁ : AmqpServer} {l : List (Bytes × Ref)}

theorem before (h : Meanwhile s s₁) (hroutes : Routes m s₁ l s') : Routes m s l s' := by
  cases hroutes with
  | nil h' => exact .nil (h.trans h')
  | cons h' hnew horigin hm hrest => exact .cons (h.trans h') ⟨h.size.trans hnew.1, hnew.2⟩ horigin hm hrest

theorem after (hroutes : Routes m s l s₁) (h : Meanwhile s₁ s') : Routes m s l s' := by
  induction hroutes with
  | nil h' => exact .nil (h'.trans h)
  | cons h' hnew horigin hm _ ih => exact .cons h' hnew horigin hm (ih h)

end Routes

/-- The message goes to these queues, and each of them that is there has got its object. --/
structure Routed (m : Message) (names : List Bytes) (copies : List Ref) (s s' : AmqpServer) : Prop where
  length : copies.length = names.length
  routes : Routes m s (names.zip copies) s'
  entered : ∀ x ∈ names.zip copies, (s.queue x.1).isSome → ∃ q, s'.queue x.1 = some q ∧ x.2 ∈ q.enqueued

namespace Routed
variable {s₁ : AmqpServer} {names : List Bytes} {copies : List Ref}

theorem before (h : Meanwhile s s₁) (hrouted : Routed m names copies s₁ s') : Routed m names copies s s' :=
  ⟨hrouted.length, hrouted.routes.before h, fun x hx hq => hrouted.entered x hx (by rwa [queue, h.queues])⟩

theorem after (hrouted : Routed m names copies s s₁) (h : Meanwhile s₁ s') : Routed m names copies s s' :=
  ⟨hrouted.length, hrouted.routes.after h, fun x hx hq => by rw [queue, h.queues]; exact hrouted.entered x hx hq⟩

end Routed

namespace Bears

theorem storeMessage (h : Bears m o s) (name : Bytes) (r : Ref) : Bears m o (s.storeMessage name r) := by
  have hsize : (s.storeMessage name r).heap.size = s.heap.size := heap_storeMessage name r
  refine ⟨hsize ▸ h.lt, fun r' hr' horigin => ?_, fun c conn hconn t ht horigin => ?_⟩
  · rw [hsize] at hr'
    rw [origin_storeMessage] at horigin
    exact (h.objects r' hr' horigin).trans (sameContent_of_unlogged (Config.message_storeMessage ..))
  · rw [connection, connections_storeMessage] at hconn
    rw [origin_storeMessage] at horigin
    exact h.tasks c conn hconn t ht horigin

theorem admitted (hv : Valid s) (m : Message) (qname : Bytes) : Bears m s.heap.size (s.admitted m qname) := by
  have hnew := newMessage hv m
  rw [AmqpServer.admitted]
  split
  · exact hnew
  · split
    · exact hnew.storeMessage qname _
    · exact hnew

end Bears

/-- A new object with the message goes to the queue. --/
def turn (m : Message) (s : AmqpServer) (qname : Bytes) : AmqpServer := (s.admitted m qname).deliverToQueue qname s.heap.size

theorem Bears.turn (hv : Valid s) (hw : m.properties.WellFormed) (hid : m.Pristine) (name : Bytes) :
    Bears m s.heap.size (turn m s name) := by
  have hadmitted : Does 0 (.oversize :: publishKinds) s (s.admitted m name) :=
    does_admitted (fun _ => List.mem_cons_of_mem _) hw hid (.inl List.mem_cons_self)
  have hdeliver : Does 0 [.queue, .enqueue] (s.admitted m name) (AmqpServer.turn m s name) :=
    does_deliverToQueue name (by rw [heap_admitted]; exact Nat.lt_succ_self _)
  exact (Bears.admitted hv m name).does ((hadmitted.moves hv).valid hv) hdeliver

end AmqpServer
end Broko.Broker
