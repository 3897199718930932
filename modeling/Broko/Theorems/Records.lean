import Broko.Theorems.BrokerRuns
import Broko.Theorems.Removal

/-! The records of messages. Settling a message writes an ack that names the record by its id, and the object that is
    settled has to carry that id. A message comes back in a new process as long as its record is in the log. -/

namespace Broko.Broker
open Amqp Storage MessageStore

/-- The message that the fact says was stored under this id for the queue. --/
def Fact.stores? (name : Bytes) (id : UInt64) : Fact → Option Ref
  | .stored origin name' id' => if name' = name ∧ id' = id then some origin else none
  | _ => none

/-- The kinds of moves that a fact comes from. --/
def Fact.kinds : Fact → List Kind
  | .stored .. => [.store, .oversize, .recover]
  | .settled .. => [.settle]
  | .removed .. => [.queue, .purge, .remove]

namespace AmqpServer

variable {c : Nat} {s s' : AmqpServer} {o r : Ref} {name : Bytes} {id : UInt64} {op : VHostOp} {u : UnackedMessage}
  {e : Event} {Settles : AmqpServer → UnackedMessage → Prop}

/-! ### The statement -/

/-- The message that a record of the queue with this id is about: the last one that was stored so. --/
def ownerOf (s : AmqpServer) (name : Bytes) (id : UInt64) : Option Ref :=
  (s.ledger.filterMap (Fact.stores? name id)).getLast?

/-- The log has a record of the message for the queue. --/
def HasRecord (s : AmqpServer) (o : Ref) (name : Bytes) : Prop :=
  ∃ m ∈ s.logged.messages, m.queue_name = name ∧ s.ownerOf name m.id = some o

/-- A new process puts the message into the queue, under the id of its record. --/
def PutBack (s : AmqpServer) (o : Ref) (name : Bytes) : Prop :=
  ∃ r ∈ ((s.restart.queue name).map MessageQueue.messages).getD [],
    s.ownerOf name (s.restart.message r).wal_id = some o

instance (s : AmqpServer) (o : Ref) (name : Bytes) : Decidable (HasRecord s o name) :=
  inferInstanceAs (Decidable (∃ m ∈ s.logged.messages, m.queue_name = name ∧ s.ownerOf name m.id = some o))

instance (s : AmqpServer) (o : Ref) (name : Bytes) : Decidable (PutBack s o name) :=
  inferInstanceAs (Decidable (∃ r ∈ ((s.restart.queue name).map MessageQueue.messages).getD [],
    s.ownerOf name (s.restart.message r).wal_id = some o))

/-- `persistAck` writes an ack: the queue is there and durable, and the object is persistent and has an id. --/
def WritesAck (s : AmqpServer) (u : UnackedMessage) : Prop :=
  ∃ q, s.queue u.queue_name = some q ∧ q.durable = true ∧ (s.message u.message).isPersistent = true ∧
    (s.message u.message).wal_id ≠ 0

/-- If the message has a record, its settlement writes an ack. --/
def SettlesRecord (s : AmqpServer) (u : UnackedMessage) : Prop :=
  s.HasRecord (s.origin u.message) u.queue_name → s.WritesAck u

/-! ### What a move adds to the ledger -/

theorem ledger_releaseCredit (u : UnackedMessage) : (s.releaseCredit u).ledger = s.ledger := by
  rw [releaseCredit]
  split <;> rfl

theorem ledger_persistAck (u : UnackedMessage) :
    (s.persistAck u).ledger = s.ledger ++ [.settled (s.origin u.message) u.queue_name] := by
  have hledger : ((s.releaseCredit u).record [.settled (s.origin u.message) u.queue_name]).ledger =
      s.ledger ++ [.settled (s.origin u.message) u.queue_name] := by
    rw [record, ledger_releaseCredit]
  rw [persistAck]
  split
  · exact hledger
  · split <;> exact hledger

theorem ledger_storeMessage (name : Bytes) (r : Ref) :
    ∃ facts, (s.storeMessage name r).ledger = s.ledger ++ facts ∧
      ∀ f ∈ facts, f = .stored (s.origin r) name ((s.storeMessage name r).message r).wal_id := by
  rw [storeMessage]
  split
  · exact ⟨[], (List.append_nil _).symm, List.forall_mem_nil _⟩
  · rename_i st _
    refine ⟨_, rfl, fun f hf => ?_⟩
    rw [List.mem_singleton.mp hf]
    let id := (st.storeMessage name (s.message r)).1
    have hcell := Heap.cell_modify_self s.heap r fun x : Cell => { x with msg := { x.msg with wal_id := id } }
    exact congrArg (Fact.stored (s.origin r) name) (congrArg (fun x : Cell => x.msg.wal_id) hcell).symm

theorem ledger_handOver (name : Bytes) (k head : Ref) (idx : Nat) : (s.handOver name k head idx).ledger = s.ledger := by
  rw [handOver, onDeliver]
  split <;> (split <;> rfl)

theorem ledger_removeConsumersByConnection (name : Bytes) (c : Nat) :
    (s.removeConsumersByConnection name c).ledger = s.ledger := by
  have hfold : ∀ (l : List Ref) (s : AmqpServer),
      (l.foldl (fun s k => s.modifyConsumer k fun c => { c with on_deliver := none }) s).ledger = s.ledger := by
    intro l
    induction l with
    | nil => exact fun _ => rfl
    | cons k l ih => exact fun s => (ih _).trans rfl
  rw [removeConsumersByConnection]
  split
  · rfl
  · exact hfold _ _

/-- A move adds facts, each of a kind that the move may add. --/
theorem ledger_move {k : Kind} (hm : Move c k s s') :
    ∃ facts, s'.ledger = s.ledger ++ facts ∧ ∀ f ∈ facts, k ∈ f.kinds := by
  have hsame : ∀ {s' : AmqpServer}, s'.ledger = s.ledger → ∃ facts, s'.ledger = s.ledger ++ facts ∧ ∀ f ∈ facts, k ∈ f.kinds :=
    fun h => ⟨[], by rw [h, List.append_nil], nofun⟩
  have hstored : ∀ {m : Message} {name : Bytes}, k ∈ (Fact.stored 0 [] 0).kinds →
      ∃ facts, ((s.newMessage m).storeMessage name s.heap.size).ledger = s.ledger ++ facts ∧ ∀ f ∈ facts, k ∈ f.kinds := by
    intro m name hk
    obtain ⟨facts, heq, hf⟩ := ledger_storeMessage (s := s.newMessage m) name s.heap.size
    exact ⟨facts, heq, fun f hmem => hf f hmem ▸ hk⟩
  cases hm with
  | @expire _ q name dlq rest hq =>
    refine ⟨_, rfl, fun f hf => ?_⟩
    obtain ⟨r, -, rfl⟩ := List.mem_map.mp hf
    exact List.mem_cons_self
  | handOver idx => exact hsame (ledger_handOver ..)
  | purge name =>
    rw [purge]
    split
    · exact hsame rfl
    · refine ⟨_, rfl, fun f hf => ?_⟩
      obtain ⟨r, -, rfl⟩ := List.mem_map.mp hf
      exact List.mem_cons_of_mem _ List.mem_cons_self
  | store m => exact hstored (by decide)
  | oversize m => exact hstored (by decide)
  | recover m name =>
    refine ⟨_, rfl, fun f hf => ?_⟩
    obtain rfl := List.mem_singleton.mp hf
    rw [Fact.kinds]
    decide
  | releaseCredit u => exact hsame (ledger_releaseCredit u)
  | settle u =>
    refine ⟨_, ledger_persistAck u, fun f hf => ?_⟩
    obtain rfl := List.mem_singleton.mp hf
    exact List.mem_cons_self
  | remove r name =>
    refine ⟨_, rfl, fun f hf => ?_⟩
    obtain rfl := List.mem_singleton.mp hf
    rw [Fact.kinds]
    decide
  | removeConsumer name tag =>
    refine hsame ?_
    rw [removeConsumer]
    split
    · rfl
    · split <;> rfl
  | removeConsumersByConnection name => exact hsame (ledger_removeConsumersByConnection name c)
  | _ => exact hsame rfl

theorem mem_ledger_of_move {k : Kind} (hm : Move c k s s') {f : Fact} (hf : f ∈ s'.ledger) : f ∈ s.ledger ∨ k ∈ f.kinds := by
  obtain ⟨facts, heq, hkinds⟩ := ledger_move hm
  rw [heq] at hf
  exact (List.mem_append.mp hf).imp_right (hkinds f)

/-- Only what stores a message changes whose a record is. --/
theorem ownerOf_move {k : Kind} (hm : Move c k s s') (hk : k ∉ (Fact.stored 0 [] 0).kinds) (name : Bytes) (id : UInt64) :
    s'.ownerOf name id = s.ownerOf name id := by
  obtain ⟨facts, heq, hkinds⟩ := ledger_move hm
  have hnone : facts.filterMap (Fact.stores? name id) = [] := by
    refine List.filterMap_eq_nil_iff.mpr fun f hf => ?_
    cases f with
    | stored origin name' id' => exact absurd (hkinds _ hf) hk
    | _ => rfl
  rw [ownerOf, ownerOf, heq, List.filterMap_append, hnone, List.append_nil]

/-- The owner of a record was stored. --/
theorem stored_of_ownerOf (h : s.ownerOf name id = some o) : .stored o name id ∈ s.ledger := by
  obtain ⟨f, hf, hstores⟩ := List.mem_filterMap.mp (List.mem_of_getLast? h)
  cases f with
  | stored origin name' id' =>
    rw [Fact.stores?] at hstores
    split at hstores
    · rename_i heq
      rwa [← heq.1, ← heq.2, ← Option.some.inj hstores]
    · cases hstores
  | _ => cases hstores

/-! ### Records over a step -/

/-- The records that are in the log after a message was stored. --/
theorem messages_storeMessage (hs : s.Journaled) {r : Ref} (hw : (s.message r).properties.WellFormed)
    (hfit : (Entry.message (recordOf 0 name (s.message r))).Fits) {m : StoredMessage}
    (hm : m ∈ (s.storeMessage name r).logged.messages) :
    m ∈ s.logged.messages ∨ (m.queue_name = name ∧ (s.storeMessage name r).ownerOf name m.id = some (s.origin r)) := by
  obtain ⟨st, hst, hwhole⟩ := hs
  have hstored : s.storeMessage name r = (({ s with store := some (st.storeMessage name (s.message r)).2 } :
      AmqpServer).modifyMessage r fun m => { m with wal_id := st.nextMsgId }).record
        [.stored (s.origin r) name st.nextMsgId] := by
    rw [storeMessage, hst]
    rfl
  rw [logged_storeMessage hst hwhole hw hfit] at hm
  refine (List.mem_append.mp hm).imp_right fun hnew => ?_
  obtain rfl : m = recordOf st.nextMsgId name (s.message r) := List.mem_singleton.mp (List.mem_filter.mp hnew).1
  refine ⟨rfl, ?_⟩
  have hlast : Fact.stores? name st.nextMsgId (.stored (s.origin r) name st.nextMsgId) = some (s.origin r) :=
    if_pos ⟨rfl, rfl⟩
  rw [ownerOf, hstored]
  change ((s.ledger ++ [Fact.stored (s.origin r) name st.nextMsgId]).filterMap (Fact.stores? name st.nextMsgId)).getLast? = _
  rw [List.filterMap_append, List.filterMap_cons, hlast]
  exact List.getLast?_concat

/-- A move stores no message, or it is this one. --/
theorem store_of_move {k : Kind} (hm : Move c k s s') (hk : k ∈ trafficKinds) :
    k ∉ (Fact.stored 0 [] 0).kinds ∨ ∃ name m, m.properties.WellFormed ∧ (Entry.message (recordOf 0 name m)).Fits ∧
      s' = (s.newMessage m).storeMessage name s.heap.size := by
  by_cases hstores : k ∈ (Fact.stored 0 [] 0).kinds
  · refine .inr ?_
    cases hm with
    | store m hw hid hq hd hp hfit => exact ⟨_, m, hw, hfit, rfl⟩
    | oversize m => exact absurd hk (by decide)
    | recover m name => exact absurd hk (by decide)
    | recoverQueue => exact absurd hk (by decide)
    | send out => exact absurd hstores (fun h => outgoingKind_not_mem (by decide) h)
    | note num f hf hkind =>
      rcases hkind with rfl | ⟨rfl, -⟩
      · exact absurd hstores (by decide)
      · exact absurd hstores (by decide)
    | _ => exact absurd hstores (by decide)
  · exact .inl hstores

/-- Traffic gives no record to a message that is there. --/
theorem Tidy.hasRecord_move (ht : Tidy s) {k : Kind} (hk : k ∈ trafficKinds) (hm : Move c k s s') (ho : o < s.heap.size)
    (h : s'.HasRecord o name) : s.HasRecord o name := by
  obtain ⟨m, hmem, hname, howner⟩ := h
  rcases store_of_move hm hk with hnot | ⟨name', msg, hw, hfit, rfl⟩
  · have hstore : k ≠ .store := fun heq => hnot (heq ▸ List.mem_cons_self)
    refine ⟨m, ht.journaled.messages_move ht.names hm hk hstore hmem, hname, ?_⟩
    rwa [ownerOf_move hm hnot] at howner
  · have hmsg : (s.newMessage msg).message s.heap.size = msg := by rw [message, newMessage, Heap.cell_alloc_self]
    have horigin : (s.newMessage msg).origin s.heap.size = s.heap.size := by rw [origin, newMessage, Heap.cell_alloc_self]
    obtain ⟨facts, heq, hfacts⟩ := ledger_storeMessage (s := s.newMessage msg) name' s.heap.size
    rw [horigin] at hfacts
    have hnew : (s.newMessage msg).Journaled := journaled_of_store rfl ht.journaled
    have hlast : ∀ o', o' ∈ (facts.filterMap (Fact.stores? name m.id)) → o' = s.heap.size := by
      intro o' ho'
      obtain ⟨f, hf, hstores⟩ := List.mem_filterMap.mp ho'
      rw [hfacts f hf, Fact.stores?] at hstores
      split at hstores
      · exact (Option.some.inj hstores).symm
      · cases hstores
    have howner' : s.ownerOf name m.id = some o := by
      rw [ownerOf, heq, List.filterMap_append, List.getLast?_append] at howner
      cases hfilter : (facts.filterMap (Fact.stores? name m.id)).getLast? with
      | none =>
        rw [hfilter] at howner
        exact howner
      | some o' =>
        rw [hfilter] at howner
        have ho' := hlast o' (List.mem_of_getLast? hfilter)
        obtain rfl : o' = o := Option.some.inj howner
        rw [ho'] at ho
        exact absurd ho (lt_irrefl _)
    rcases messages_storeMessage hnew (by rwa [hmsg]) (by rwa [hmsg]) hmem with hold | ⟨hname', howned⟩
    · exact ⟨m, hold, hname, howner'⟩
    · obtain rfl : name' = name := hname'.symm.trans hname
      rw [howner, horigin] at howned
      rw [Option.some.inj howned] at ho
      exact absurd ho (lt_irrefl _)

theorem not_mem_kinds (f : Fact) : ∀ k ∈ [Kind.unregister, .topology], k ∉ f.kinds := by
  cases f <;> (rw [Fact.kinds]; decide)

theorem ledger_perform (hv : Valid s) (hshort : op.Short) (hrestart : op ≠ .restart) : (s.perform op).ledger = s.ledger := by
  obtain ⟨c, hdoes⟩ := exists_does_perform (s := s) hshort hrestart
  refine (hdoes.moves hv).keeps (P := fun s' => s'.ledger = s.ledger) (fun k hk s₁ s₂ hm h => ?_) rfl
  obtain ⟨facts, heq, hkinds⟩ := ledger_move hm
  have hnone : facts = [] := List.eq_nil_iff_forall_not_mem.mpr fun f hf => not_mem_kinds f k hk (hkinds f hf)
  rw [heq, hnone, List.append_nil, h]

theorem Regular.hasRecord_perform (hs : Regular s) (hshort : op.Short) (hrestart : op ≠ .restart)
    (h : (s.perform op).HasRecord o name) : s.HasRecord o name := by
  obtain ⟨m, hmem, hname, howner⟩ := h
  refine ⟨m, hs.tidy.messages_perform hshort hmem, hname, ?_⟩
  rwa [ownerOf, ledger_perform hs.valid hshort hrestart] at howner

theorem Regular.hasRecord_step (hs : Regular s) (hstep : BrokerStep Settles s s') (ho : o < s.heap.size)
    (h : s'.HasRecord o name) : s.HasRecord o name := by
  cases hstep with
  | op hshort hrestart => exact hs.hasRecord_perform hshort hrestart h
  | settle hu hok => exact hs.tidy.hasRecord_move (by decide) (Move.settle (c := 0) _ hu) ho h
  | traffic hk hm => exact hs.tidy.hasRecord_move (traffic_of_unsettled hk) hm ho h

/-- The objects of a process stay, each with its origin. --/
theorem Regular.origin_run (hs : Regular s) (hrun : BrokerRun Settles s s') (hr : r < s.heap.size) :
    r < s'.heap.size ∧ s'.origin r = s.origin r :=
  hs.keeps_run (P := fun s' => r < s'.heap.size ∧ s'.origin r = s.origin r) hrun
    (fun _ hm h => ⟨h.1.trans_le (heap_le_of_move hm), (origin_move hm h.1).trans h.2⟩) ⟨hr, rfl⟩

/-- No run of a process gives a record to a message that is there at its start. --/
theorem Regular.hasRecord_run (hs : Regular s) (hrun : BrokerRun Settles s s') (ho : o < s.heap.size)
    (h : s'.HasRecord o name) : s.HasRecord o name := by
  induction hrun with
  | refl => exact h
  | tail hbefore hstep ih => exact ih ((hs.run hbefore).hasRecord_step hstep (hs.origin_run hbefore ho).1 h)

/-! ### The ids of objects -/

/-- An object with an id carries the one that its message was stored under. --/
def Attributed (s : AmqpServer) : Prop :=
  ∀ r, r < s.heap.size → (s.message r).wal_id ≠ 0 → ∀ name id, .stored (s.origin r) name id ∈ s.ledger →
    id = (s.message r).wal_id

/-- What a move stores is a new object. --/
theorem stored_of_move {k : Kind} (hm : Move c k s s') (h : .stored o name id ∈ s'.ledger) :
    .stored o name id ∈ s.ledger ∨ (o = s.heap.size ∧ id = (s'.message s.heap.size).wal_id) := by
  have hnew : ∀ {m : Message} {name' : Bytes},
      .stored o name id ∈ ((s.newMessage m).storeMessage name' s.heap.size).ledger →
      .stored o name id ∈ s.ledger ∨ (o = s.heap.size ∧
        id = (((s.newMessage m).storeMessage name' s.heap.size).message s.heap.size).wal_id) := by
    intro m name' hmem
    obtain ⟨facts, heq, hfacts⟩ := ledger_storeMessage (s := s.newMessage m) name' s.heap.size
    rw [heq] at hmem
    refine (List.mem_append.mp hmem).imp_right fun hmem => ?_
    obtain ⟨horigin, -, hid⟩ := Fact.stored.inj (hfacts _ hmem)
    refine ⟨horigin.trans ?_, hid⟩
    rw [origin, newMessage, Heap.cell_alloc_self]
  by_cases hk : k ∈ (Fact.stored o name id).kinds
  · cases hm with
    | store m => exact hnew h
    | oversize m => exact hnew h
    | recover m name' =>
      refine (List.mem_append.mp h).imp_right fun hmem => ?_
      obtain ⟨horigin, -, hid⟩ := Fact.stored.inj (List.mem_singleton.mp hmem)
      refine ⟨horigin, hid.trans ?_⟩
      have hcell := Heap.cell_alloc_self s.heap { msg := m, origin := s.heap.size }
      exact congrArg (fun x : Cell => x.msg.wal_id) hcell.symm
    | recoverQueue => exact .inl h
    | send out => exact absurd hk (outgoingKind_not_mem (K := [.store, .oversize, .recover]) (by decide))
    | note num f hf hkind =>
      rcases hkind with rfl | ⟨rfl, -⟩
      · exact absurd hk (by rw [Fact.kinds]; decide)
      · exact absurd hk (by rw [Fact.kinds]; decide)
    | _ => exact absurd hk (by rw [Fact.kinds]; decide)
  · exact .inl ((mem_ledger_of_move hm h).resolve_right hk)

theorem Attributed.move (h : Attributed s) (hv : Valid s) {k : Kind} (hm : Move c k s s') : Attributed s' := by
  intro r hr hid name id hstored
  by_cases hold : r < s.heap.size
  · have hwal : (s'.message r).wal_id = (s.message r).wal_id := congrArg Prod.snd (lasting_move hm hold)
    rw [hwal] at hid ⊢
    rw [origin_move hm hold] at hstored
    rcases stored_of_move hm hstored with hstored | ⟨horigin, -⟩
    · exact h r hold hid name id hstored
    · have hlt := hv.origins r hold
      rw [horigin] at hlt
      exact absurd hlt (lt_irrefl _)
  · -- The object is new, and was stored under its own name.
    have hnew : r = s.heap.size ∧ s'.origin r = s.heap.size := by
      rcases heap_of_move hm with hheap | ⟨r', f, hheap⟩ | ⟨x, hheap, hx⟩ <;> rw [hheap] at hr
      · exact absurd hr hold
      · exact absurd hr hold
      · obtain rfl : r = s.heap.size := by
          have : r < s.heap.size + 1 := hr
          omega
        rw [message, hheap, Heap.cell_alloc_self] at hid
        refine ⟨rfl, ?_⟩
        rw [origin, hheap, Heap.cell_alloc_self]
        refine hx.resolve_right ?_
        rintro ⟨name', q, r', -, -, rfl⟩
        exact hid rfl
    obtain ⟨rfl, horigin⟩ := hnew
    rw [horigin] at hstored
    rcases stored_of_move hm hstored with hstored | ⟨-, hid'⟩
    · exact absurd (hv.ledger _ hstored) (lt_irrefl _)
    · exact hid'

/-- A process that has not read its log has no objects. --/
theorem moves_start (store : Option MessageStore) (userStore : UserStore) (clock : Nat → Int) (readings : Nat) :
    ∃ store', Moves 0 recoveryKinds { store := store', userStore, clock, readings, exchanges := defaultExchanges }
      (start store userStore clock readings) := by
  cases store with
  | none => exact ⟨none, .refl⟩
  | some st =>
    have hdoes := does_recoverFromStore (c := 0)
      (s := { store := some st, userStore, clock, readings, exchanges := defaultExchanges }) rfl
    exact ⟨some st.recover.2, hdoes.moves valid_blank⟩

theorem attributed_start (store : Option MessageStore) (userStore : UserStore) (clock : Nat → Int) (readings : Nat) :
    Attributed (start store userStore clock readings) := by
  obtain ⟨store', hmoves⟩ := moves_start store userStore clock readings
  refine (hmoves.keeps (P := fun s => Valid s ∧ Attributed s) (fun k _ s s' hm h => ?_) ⟨valid_blank, nofun⟩).2
  exact ⟨h.1.move hm, h.2.move h.1 hm⟩

/-- A new process has settled nothing. --/
theorem not_settled_start {store : Option MessageStore} {userStore : UserStore} {clock : Nat → Int} {readings : Nat} :
    .settled o name ∉ (start store userStore clock readings).ledger := by
  obtain ⟨store', hmoves⟩ := moves_start store userStore clock readings
  refine hmoves.keeps (P := fun s => .settled o name ∉ s.ledger) (fun k hk s s' hm h hmem => ?_) nofun
  rcases mem_ledger_of_move hm hmem with hmem | hkind
  · exact h hmem
  · obtain rfl := List.mem_singleton.mp hkind
    exact absurd hk (by decide)

/-! ### What was settled has no record -/

/-- No settled message has a record for its queue. --/
def Forgets (s : AmqpServer) : Prop := ∀ o name, .settled o name ∈ s.ledger → ¬s.HasRecord o name

namespace Forgets

theorem perform (h : Forgets s) (hs : Regular s) (hshort : op.Short) (hrestart : op ≠ .restart) : Forgets (s.perform op) := by
  intro o name hmem hrec
  rw [ledger_perform hs.valid hshort hrestart] at hmem
  exact h o name hmem (hs.hasRecord_perform hshort hrestart hrec)

/-- What was settled before the move stays without a record. --/
theorem move (h : Forgets s) (hs : Regular s) {k : Kind} (hk : k ∈ trafficKinds) (hm : Move c k s s')
    (hnew : ∀ o name, .settled o name ∈ s'.ledger → .settled o name ∈ s.ledger ∨ ¬s'.HasRecord o name) : Forgets s' := by
  intro o name hmem
  rcases hnew o name hmem with hmem | hnot
  · have ho : o < s.heap.size := hs.valid.ledger _ hmem
    exact fun hrec => h o name hmem (hs.tidy.hasRecord_move hk hm ho hrec)
  · exact hnot

end Forgets

/-- A new process puts back only what has a record. --/
theorem hasRecord_of_putBack (h : s.PutBack o name) : s.HasRecord o name := by
  obtain ⟨r, hr, howner⟩ := h
  cases hq : s.restart.queue name with
  | none =>
    rw [hq] at hr
    cases hr
  | some q =>
    rw [hq] at hr
    obtain ⟨-, m, hm, hname, hmsg⟩ := ((recoveredFrom_restart s).messages name q hq).2.2 r hr
    have hid : (s.restart.message r).frame.wal_id = (recoveredMessage m).frame.wal_id := by rw [hmsg]
    have hid : (s.restart.message r).wal_id = m.id := hid
    exact ⟨m, hm, hname, hid ▸ howner⟩

/-! ### Settlements -/

theorem writesAck_iff : s.WritesAck u ↔ (ackOf s u).isSome := by
  rw [ackOf, WritesAck]
  cases s.queue u.queue_name with
  | none => simp
  | some q =>
    rw [Option.bind_some]
    split
    · rename_i h
      simp only [Bool.and_eq_true, bne_iff_ne] at h
      exact ⟨fun _ => rfl, fun _ => ⟨q, rfl, h.1.2, h.1.1, h.2⟩⟩
    · rename_i h
      refine ⟨?_, fun hnone => absurd hnone Bool.false_ne_true⟩
      rintro ⟨q', hq', hdurable, hpersistent, hid⟩
      obtain rfl := Option.some.inj hq'
      simp [hdurable, hpersistent, hid] at h

instance (s : AmqpServer) (u : UnackedMessage) : Decidable (WritesAck s u) := decidable_of_iff _ writesAck_iff.symm

instance (s : AmqpServer) (u : UnackedMessage) : Decidable (SettlesRecord s u) :=
  inferInstanceAs (Decidable (s.HasRecord (s.origin u.message) u.queue_name → s.WritesAck u))

/-- The log after an ack was written. --/
theorem logged_persistAck (hs : Regular s) (hack : s.WritesAck u) :
    (s.persistAck u).logged.contents = s.logged.contents.apply (.ack (s.message u.message).wal_id u.queue_name) := by
  obtain ⟨q, hq, hdurable, hpersistent, hid⟩ := hack
  have hack : ackOf s u = some (u.queue_name, (s.message u.message).wal_id) := by
    rw [ackOf, hq, Option.bind_some, if_pos]
    simp [hdurable, hpersistent, hid]
  have hlen : (Entry.ack (s.message u.message).wal_id u.queue_name).payload.length ≤ 4096 := by
    have hshort : u.queue_name.length ≤ 255 := hs.tidy.names _ (by rw [hasQueue, hq]; rfl)
    rw [Entry.payload, List.length_append, length_writeString, length_writeUint64]
    omega
  have hstore : (s.persistAck u).store =
      (s.modifyStore fun st => st.append (.ack (s.message u.message).wal_id u.queue_name)).store := by
    rw [acksLogged_persistAck u, hack]
    rfl
  rw [logged_of_store hstore]
  exact (logged_append hs.tidy.journaled rfl (storable_of_length rfl hlen)).2

/-- The ack takes the record with its id out of the log, and no other. --/
theorem mem_persistAck (hs : Regular s) (hack : s.WritesAck u) {m : StoredMessage} :
    m ∈ (s.persistAck u).logged.messages ↔
      m ∈ s.logged.messages ∧ ¬(m.queue_name = u.queue_name ∧ m.id = (s.message u.message).wal_id) := by
  have hmessages : (s.persistAck u).logged.messages =
      (s.logged.contents.apply (.ack (s.message u.message).wal_id u.queue_name)).messages :=
    congrArg Contents.messages (logged_persistAck hs hack)
  have hnone : (Entry.ack (s.message u.message).wal_id u.queue_name).message? = none := rfl
  rw [hmessages, Contents.apply, hnone, Option.toList_none, List.append_nil, List.mem_filter]
  refine and_congr_right fun _ => ?_
  simp [Entry.removesMessage, Entry.acks, Entry.deletesQueueOf, imp_iff_not_or]

theorem not_hasRecord_persistAck (hs : Regular s) (ha : Attributed s) (hu : u.message < s.heap.size) (hack : s.WritesAck u) :
    ¬(s.persistAck u).HasRecord (s.origin u.message) u.queue_name := by
  rintro ⟨m, hm, hname, howner⟩
  have hstored := stored_of_ownerOf howner
  rw [ledger_persistAck] at hstored
  have hstored := (List.mem_append.mp hstored).resolve_right (by simp)
  exact ((mem_persistAck hs hack).mp hm).2 ⟨hname, ha _ hu hack.choose_spec.2.2.2 _ _ hstored⟩

theorem Forgets.settle (h : Forgets s) (hs : Regular s) (ha : Attributed s) (hu : u.message < s.heap.size)
    (hok : s.SettlesRecord u) : Forgets (s.persistAck u) := by
  refine h.move hs (by decide) (Move.settle (c := 0) u hu) fun o name hmem => ?_
  rw [ledger_persistAck] at hmem
  refine (List.mem_append.mp hmem).imp_right fun hmem hrec => ?_
  obtain ⟨rfl, rfl⟩ := Fact.settled.inj (List.mem_singleton.mp hmem)
  have hack := hok (hs.tidy.hasRecord_move (by decide) (Move.settle (c := 0) u hu) (hs.valid.origins _ hu) hrec)
  exact not_hasRecord_persistAck hs ha hu hack hrec

theorem store_persistAck_of_not (h : ¬s.WritesAck u) : (s.persistAck u).store = s.store := by
  have hnone : ackOf s u = none := by
    rw [writesAck_iff, Bool.not_eq_true, Option.isSome_eq_false_iff, Option.isNone_iff_eq_none] at h
    exact h
  rw [acksLogged_persistAck u, hnone]
  exact congrFun Option.map_id s.store

/-- Otherwise the record stays. --/
theorem hasRecord_persistAck (h : ¬s.SettlesRecord u) : (s.persistAck u).HasRecord (s.origin u.message) u.queue_name := by
  obtain ⟨⟨m, hm, hname, howner⟩, hack⟩ := Classical.not_imp.mp h
  refine ⟨m, ?_, hname, ?_⟩
  · rwa [logged_of_store (store_persistAck_of_not hack)]
  · rw [ownerOf, ledger_persistAck, List.filterMap_append]
    rw [ownerOf] at howner
    simpa [Fact.stores?] using howner

/-! ### Runs -/

theorem Attributed.run (h : Attributed s) (hs : Regular s) (hrun : BrokerRun Settles s s') : Attributed s' :=
  hs.keeps_run hrun (fun hv hm h => h.move hv hm) h

/-- What holds in every state of a run in which the records of settled messages are acked. --/
structure Reckoned (s : AmqpServer) : Prop where
  regular : Regular s
  attributed : Attributed s
  forgets : Forgets s

namespace Reckoned

theorem start {store : Option MessageStore} {userStore : UserStore} {clock : Nat → Int} {readings : Nat}
    (h : Regular (start store userStore clock readings)) : Reckoned (start store userStore clock readings) :=
  ⟨h, attributed_start _ _ _ _, fun _ _ hmem => absurd hmem not_settled_start⟩

theorem step (h : Reckoned s) (hstep : BrokerStep SettlesRecord s s') : Reckoned s' := by
  refine ⟨h.regular.step hstep, h.attributed.run h.regular (.single hstep), ?_⟩
  cases hstep with
  | op hshort hrestart => exact h.forgets.perform h.regular hshort hrestart
  | settle hu hok => exact h.forgets.settle h.regular h.attributed hu hok
  | @traffic _ c k hk hm =>
    refine h.forgets.move h.regular (traffic_of_unsettled hk) hm fun o name hmem => .inl ?_
    refine (mem_ledger_of_move hm hmem).resolve_right fun hkind => ?_
    obtain rfl := List.mem_singleton.mp hkind
    exact absurd hk (by decide)

theorem run (h : Reckoned s) (hrun : BrokerRun SettlesRecord s s') : Reckoned s' := by
  induction hrun with
  | refl => exact h
  | tail _ hstep ih => exact ih.step hstep

end Reckoned

theorem writesAck_congr (hsame : SameTopology s s') (hlasting : (s'.message u.message).lasting = (s.message u.message).lasting) :
    s'.WritesAck u ↔ s.WritesAck u := by
  have hdurable := congrArg (Option.map MessageQueue.durable) (hsame.queues u.queue_name)
  rw [Option.map_map, Option.map_map] at hdurable
  rw [writesAck_iff, writesAck_iff, ackOf_congr hdurable hlasting]

theorem SettlesRecord.move (h : s.SettlesRecord u) (hs : Regular s) {k : Kind} (hk : k ∈ trafficKinds) (hm : Move c k s s')
    (hu : u.message < s.heap.size) : s'.SettlesRecord u := by
  intro hrec
  rw [origin_move hm hu] at hrec
  rw [writesAck_congr (.of_move hm hk) (lasting_move hm hu)]
  exact h (hs.tidy.hasRecord_move hk hm (hs.valid.origins _ hu) hrec)

/-- What traffic leaves alone, another settlement does. --/
theorem stable_of_move (hmove : ∀ {c : Nat} {k : Kind} {s s' : AmqpServer} {u : UnackedMessage}, Settles s u → Regular s →
    k ∈ trafficKinds → Move c k s s' → u.message < s.heap.size → Settles s' u) : Stable Settles := by
  intro c num s u u' x tag hs hu hu' hok
  have hmoves := ((does_one (c := c) x hu).moves hs.valid).trans (.of (.eraseUnacked num tag))
  refine (hmoves.keeps (P := fun s => Regular s ∧ u'.message < s.heap.size ∧ Settles s u') ?_ ⟨hs, hu', hok⟩).2.2
  rintro k hk s₁ s₂ hm ⟨hs₁, hu₁, hok₁⟩
  have htraffic : k ∈ trafficKinds := (by decide : ∀ k ∈ [Kind.settle, .queue, .requeue] ++ [.release], k ∈ trafficKinds) k hk
  exact ⟨hs₁.move htraffic hm, hu₁.trans_le (heap_le_of_move hm), hmove hok₁ hs₁ htraffic hm hu₁⟩

theorem stable_settlesRecord : Stable SettlesRecord := stable_of_move fun h hs hk hm hu => h.move hs hk hm hu

/-! ### Settled messages -/

/-- The records that the event writes fit, and what it settles that has a record is acked in the log. --/
def AcksRecords (s : AmqpServer) (e : Event) : Prop := s.RecordsFit e ∧ ∀ u ∈ s.settlements e, s.SettlesRecord u

instance (s : AmqpServer) : (e : Event) → Decidable (RecordsFit s e)
  | .frame c frame _ => inferInstanceAs (Decidable (∀ p ∈ s.completed c frame,
      ∀ qname ∈ s.routeMessage p.exchange p.routing_key p.properties.headers, ∀ q ∈ s.queue qname, q.durable = true →
        (messageOf c p).isPersistent = true → (Entry.message (recordOf 0 qname (messageOf c p))).Fits))
  | .accept => inferInstanceAs (Decidable True)
  | .protocolHeader .. => inferInstanceAs (Decidable True)
  | .runTask _ => inferInstanceAs (Decidable True)
  | .disconnect _ => inferInstanceAs (Decidable True)
  | .tick => inferInstanceAs (Decidable True)
  | .compact => inferInstanceAs (Decidable True)
  | .restart => inferInstanceAs (Decidable True)
  | .reorderQueues _ => inferInstanceAs (Decidable True)
  | .reorderExchanges _ => inferInstanceAs (Decidable True)
  | .reorderChannels .. => inferInstanceAs (Decidable True)
  | .reorderConsumers .. => inferInstanceAs (Decidable True)
  | .reorderUnacked .. => inferInstanceAs (Decidable True)

instance (s : AmqpServer) (e : Event) : Decidable (AcksRecords s e) :=
  inferInstanceAs (Decidable (s.RecordsFit e ∧ ∀ u ∈ s.settlements e, s.SettlesRecord u))

/-- In every run whose settlements of messages with a record write their ack: a message that a client has settled is not
    put back into its queue by a new process. A settlement that writes none leaves the record. --/
theorem settled_not_put_back {userStore : UserStore} {clock : Nat → Int} {readings : Nat} {events : List Event}
    (hok : EventsOk AcksRecords (start (some {}) userStore clock readings) events)
    (hs : s = (start (some {}) userStore clock readings).run events) :
    (∀ o name, .settled o name ∈ s.ledger → ¬s.PutBack o name) ∧
      ∀ u, ¬s.SettlesRecord u → (s.persistAck u).HasRecord (s.origin u.message) u.queue_name := by
  have hreckoned : Reckoned s := by
    rw [hs]
    refine hok.keeps (fun s e hok h => ?_) (.start .start)
    by_cases hrestart : e = .restart
    · subst hrestart
      exact .start h.regular.restart
    · exact h.run ((enacts_handle stable_settlesRecord hok.1 hok.2 hrestart).run h.regular)
  exact ⟨fun o name hsettled hback => hreckoned.forgets o name hsettled (hasRecord_of_putBack hback),
    fun u h => hasRecord_persistAck h⟩

/-- A persistent message in a durable queue with these arguments. --/
def storedRun (args : FieldTable) : List Event :=
  Client.connect 1 ++ [Client.openChannel 1 1, Client.assertQueue 1 1 (ascii "q") false true false false args] ++
    Client.sendToQueue 1 1 (ascii "q") (ascii "a") { delivery_mode := some 2 }

/-- It is taken by `basic.get` and acked. --/
def gotRun : List Event := storedRun [] ++ [Client.get 1 1 (ascii "q") false, Client.ack 1 1 1 false]

theorem got_not_put_back : .settled 0 (ascii "q") ∈ (freshServer.run gotRun).ledger ∧
    (∀ o name, .settled o name ∈ (freshServer.run gotRun).ledger → ¬(freshServer.run gotRun).PutBack o name) ∧
    ∀ u, ¬(freshServer.run gotRun).SettlesRecord u →
      ((freshServer.run gotRun).persistAck u).HasRecord ((freshServer.run gotRun).origin u.message) u.queue_name :=
  ⟨by decide +kernel, settled_not_put_back (by decide +kernel) rfl⟩

/-- It is delivered to a consumer and acked. --/
def consumedRun : List Event :=
  storedRun [] ++ [Client.consume 1 1 (ascii "q") (ascii "k") false false false, .runTask 1, Client.ack 1 1 1 false]

/-- A new process puts it back. --/
theorem consumed_put_back : .settled 0 (ascii "q") ∈ (freshServer.run consumedRun).ledger ∧
    (freshServer.run consumedRun).PutBack 0 (ascii "q") := by
  constructor <;> decide +kernel

end AmqpServer
end Broko.Broker
