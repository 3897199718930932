import Mathlib.Data.List.Infix
import Broko.Broker.Client
import Broko.Theorems.Prefetch

/-! Prefetch credit over runs: what is out for a consumer never exceeds its prefetch count, and as long as no delivery of a
    registered consumer is lost, its credit is what is out for it. -/

namespace Broko.Broker
open Amqp Storage MessageStore

namespace AmqpServer

variable {c : Nat} {num : UInt16} {s s' : AmqpServer} {homes : List Home} {home : Home} {k : Ref} {L : Loss → Prop}
  {lost : Nat}

/-! ### Steps without a registration -/

theorem Wired.flow {d d' : Desk} (h : Wired homes s) (hv : Valid s) (hflow : Flow c L d s d' s') : Wired homes s' :=
  hflow.keeps hv (fun hm hkind h => h.move hm hkind) h

theorem Wired.passes (h : Wired homes s) (hv : Valid s) (hpass : Passes c L {} s {} s') : Wired homes s' :=
  hpass.keeps (P := fun _ => Wired homes) hv (fun hflow hv h => h.flow hv hflow) h

theorem Balanced.passes (h : Balanced home k 0 lost s) (hv : Valid s) (hw : Wired homes s) (hnd : homes.Nodup)
    (hhome : homes[k]? = some home) (hpass : Passes c L {} s {} s') :
    ∃ more, Balanced home k 0 (lost + more) s' ∧ ((∀ x, L x → ¬x.Of home k) → more = 0) := by
  have hkeep := hpass.keeps (P := fun d s => Wired homes s ∧
    ∃ more, Balanced home k (d.early k) (lost + more) s ∧ ((∀ x, L x → ¬x.Of home k) → more = 0)) hv ?_ ⟨hw, 0, h, fun _ => rfl⟩
  · exact hkeep.2
  · rintro d s d' s' hflow hv ⟨hw, more, h, hmore⟩
    obtain ⟨more', h', hmore'⟩ := h.flow hv hw hnd hhome hflow
    refine ⟨hw.flow hv hflow, more + more', by rw [← Nat.add_assoc]; exact h', fun hspared => ?_⟩
    rw [hmore hspared, hmore' hspared]

/-! ### Registration -/

section
variable {ch : Channel} {queue tag : Bytes} {bits : UInt8}

theorem ChannelWired.append (h : ChannelWired homes ch) (home : Home) : ChannelWired (homes ++ [home]) ch := by
  have hget : ∀ {k x}, homes[k]? = some x → (homes ++ [home])[k]? = some x := fun h => by
    rw [List.getElem?_append_left (List.getElem?_eq_some_iff.mp h).1]
    exact h
  refine ⟨h.consumers.mono fun _ _ hk => hget hk, h.unacked.mono fun _ u hu k hk => ?_⟩
  obtain ⟨tag, htag⟩ := hu k hk
  exact ⟨tag, hget htag⟩

theorem Wired.register (h : Wired homes s) (hch : s.channel c num = some ch) (counter : Nat) :
    Wired (homes ++ [(some ch.ref, tag)]) (s.register c num (newConsumer c num ch queue tag bits) counter) := by
  have hsome : (s.connection c).isSome = true := by
    obtain ⟨conn, hconn, -⟩ := Option.bind_eq_some_iff.mp hch
    rw [hconn]
    rfl
  have hlast : (homes ++ [(some ch.ref, tag)])[s.consumerHeap.size]? = some (some ch.ref, tag) := by
    rw [← h.length]
    exact List.getElem?_concat_length ..
  have hmade : Wired (homes ++ [(some ch.ref, tag)])
      { s with consumerHeap := s.consumerHeap.alloc (newConsumer c num ch queue tag bits) } := by
    refine ⟨?_, fun k f hf => ?_, h.connections.mono fun _ conn hok => ⟨?_, ?_⟩⟩
    · rw [List.length_append, h.length]
      rfl
    · by_cases hk : k = s.consumerHeap.size
      · have hcell : (s.consumerHeap.alloc (newConsumer c num ch queue tag bits)).cell k =
            newConsumer c num ch queue tag bits := by
          rw [hk]
          exact Heap.cell_alloc_self ..
        rw [consumer, hcell] at hf ⊢
        obtain rfl := Option.some.inj hf
        rw [hk]
        exact ⟨hlast, hsome⟩
      · rw [consumer, Heap.cell_alloc_of_ne hk] at hf ⊢
        obtain ⟨hhome, hconn⟩ := h.made k f hf
        refine ⟨?_, hconn⟩
        rw [List.getElem?_append_left (List.getElem?_eq_some_iff.mp hhome).1]
        exact hhome
    · exact fun t ht => List.mem_append_left _ (hok.strand t ht)
    · exact hok.channels.mono fun _ _ hok => hok.append _
  refine hmade.modifyChannel fun ch' hch' hok => ⟨hok.consumers.insert ?_, hok.unacked⟩
  obtain rfl : ch = ch' := Option.some.inj (hch.symm.trans hch')
  exact hlast

theorem valid_register (hv : Valid s) (counter : Nat) :
    Valid (s.register c num (newConsumer c num ch queue tag bits) counter) := by
  have hcell : (s.consumerHeap.alloc (newConsumer c num ch queue tag bits)).cell s.consumerHeap.size =
      newConsumer c num ch queue tag bits := Heap.cell_alloc_self ..
  refine (hv.move (.newConsumer (newConsumer c num ch queue tag bits) (c := c) rfl)).move
    (.mapConsumer num tag s.consumerHeap.size counter (Nat.lt_succ_self _) ?_)
  rw [consumer, hcell]
  exact ⟨rfl, rfl, rfl⟩

theorem deliveries_register (x : Consumer) (counter : Nat) :
    (s.register c num x counter).deliveries home k = s.deliveries home k :=
  deliveries_channelSame (s := { s with consumerHeap := s.consumerHeap.alloc x }) fun _ _ => rfl

/-- The consumers that there are keep their credit. --/
theorem Balanced.register (h : Balanced home k 0 lost s) (hk : k < s.consumerHeap.size) (x : Consumer) (counter : Nat) :
    Balanced home k 0 lost (s.register c num x counter) := by
  refine h.of_eq ?_ (deliveries_register x counter)
  rw [consumer, AmqpServer.register]
  exact congrArg Consumer.terms (Heap.cell_alloc_of_ne (Nat.ne_of_lt hk))

/-- Nothing is out for a consumer that has just been made. --/
theorem deliveries_new (hw : Wired homes s) (hnew : home ∉ homes) : s.deliveries home s.consumerHeap.size = 0 := by
  refine Assoc.total_eq_zero fun c conn hconn => ?_
  have hok := hw.connections c conn hconn
  have hposted : conn.strand.countP (fun t => decide (t.home = home)) = 0 := by
    rw [List.countP_eq_zero]
    intro t ht heq
    exact hnew (of_decide_eq_true heq ▸ hok.strand t ht)
  have hheld : conn.channels.total (fun _ => Channel.held s.consumerHeap.size) = 0 := by
    refine Assoc.total_eq_zero fun num ch hch => Assoc.total_eq_zero fun tag u hu => if_neg fun hk => ?_
    obtain ⟨tag', htag'⟩ := (hok.channels num ch hch).unacked tag u hu _ hk
    have hlt := (List.getElem?_eq_some_iff.mp htag').1
    rw [hw.length] at hlt
    exact Nat.lt_irrefl _ hlt
  rw [Connection.outstanding, hposted, hheld]

theorem Balanced.new (hw : Wired homes s) (hnew : (some ch.ref, tag) ∉ homes) (counter : Nat) :
    Balanced (some ch.ref, tag) s.consumerHeap.size 0 0 (s.register c num (newConsumer c num ch queue tag bits) counter) := by
  have hcell : (s.register c num (newConsumer c num ch queue tag bits) counter).consumer s.consumerHeap.size =
      newConsumer c num ch queue tag bits := Heap.cell_alloc_self ..
  intro _
  rw [hcell, deliveries_register, deliveries_new hw hnew]
  exact Credit.Books.new _

end

/-! ### Events -/

/-- Where the consumers were registered that were made between two states. --/
def made (s s' : AmqpServer) : List Home :=
  (List.range' s.consumerHeap.size (s'.consumerHeap.size - s.consumerHeap.size)).map fun k => (s'.consumer k).home

theorem made_of_wired (hw : Wired homes s) (hw' : Wired homes s') : made s s' = [] := by
  rw [made, ← hw'.length, ← hw.length, Nat.sub_self]
  rfl

theorem made_consume (s : AmqpServer) (ch : Channel) (queue tag : Bytes) (bits : UInt8) :
    made s (s.consume c num ch queue tag bits) = [(some ch.ref, consumerTag c num ch tag)] := by
  obtain ⟨counter, s₁, -, -, hheap, -, hskeleton⟩ := @passes_consume c num s (fun _ => False) ch queue tag bits
  generalize s.consume c num ch queue tag bits = s' at hskeleton ⊢
  have hheap' : s'.skeleton.consumerHeap = s₁.skeleton.consumerHeap := by
    rw [hskeleton]
    rfl
  have hsize : s'.consumerHeap.size = s.consumerHeap.size + 1 := (congrArg Heap.size hheap').trans (congrArg Heap.size hheap)
  have hframe : (s'.consumer s.consumerHeap.size).frame =
      (newConsumer c num ch queue (consumerTag c num ch tag) bits).frame := by
    refine (congrArg (fun h : Heap Consumer => h.cell s.consumerHeap.size) hheap').trans ?_
    change (s₁.consumerHeap.cell s.consumerHeap.size).frame = _
    rw [hheap, Heap.cell_alloc_self]
  have hhome := congrArg Consumer.home hframe
  rw [made, hsize, Nat.add_sub_cancel_left]
  exact congrArg (fun h => [h]) hhome

theorem valid_attach (hv : Valid s) {name : Bytes} (hk : k < s.consumerHeap.size) : Valid (s.attach name k) := by
  refine hv.modifyQueue fun q _ hq => ⟨hq.messages, fun k' hk' => ?_⟩
  rcases List.mem_append.mp hk' with hk' | hk'
  · exact hq.consumers k' hk'
  · obtain rfl := List.mem_singleton.mp hk'
    exact hk

/-- A consume: what the registration gives and steps without loss keep. --/
theorem keeps_consume {P : AmqpServer → Prop} (hv : Valid s) (ch : Channel) (queue tag : Bytes) (bits : UInt8)
    (hregister : ∀ counter, P (s.register c num (newConsumer c num ch queue (consumerTag c num ch tag) bits) counter))
    (hpasses : ∀ {s s'}, Valid s → Passes c (fun _ => False) {} s {} s' → P s → P s')
    (hattach : ∀ {s'}, s'.consumerHeap = s.consumerHeap.alloc (newConsumer c num ch queue (consumerTag c num ch tag) bits) →
      P s' → P (s'.attach queue s.consumerHeap.size)) : P (s.consume c num ch queue tag bits) := by
  obtain ⟨counter, s₁, hpass₁, -, hheap, hpass₂, -⟩ :=
    @passes_consume c num s (fun _ => False) ch queue tag bits
  have hvalid := @valid_register c num s ch queue (consumerTag c num ch tag) bits hv counter
  have hlt : s.consumerHeap.size < s₁.consumerHeap.size := by
    rw [hheap]
    exact Nat.lt_succ_self _
  exact hpasses (valid_attach (hpass₁.valid hvalid) hlt) hpass₂ (hattach hheap (hpasses hvalid hpass₁ (hregister counter)))

/-- Where the consumers are, after an event. --/
theorem Turn.wired (h : Turn c L s (.ok s')) (hv : Valid s) (hw : Wired homes s) : Wired (homes ++ made s s') s' := by
  cases h with
  | passes hpass =>
    have hw' : Wired homes s' := hw.passes hv hpass
    rw [made_of_wired hw hw', List.append_nil]
    exact hw'
  | @consume num ch queue tag bits hch =>
    rw [made_consume]
    exact keeps_consume hv ch queue tag bits (fun counter => hw.register hch counter) (fun hv hpass h => h.passes hv hpass)
      fun _ h => h.congr rfl rfl

/-- The credit of a consumer, after an event. --/
theorem Turn.books (h : Turn c L s (.ok s')) (hv : Valid s) (hw : Wired homes s) (hnd : (homes ++ made s s').Nodup)
    (hhome : homes[k]? = some home) (hb : Balanced home k 0 lost s) :
    ∃ more, Balanced home k 0 (lost + more) s' ∧ ((∀ x, L x → ¬x.Of home k) → more = 0) := by
  cases h with
  | passes hpass => exact hb.passes hv hw (List.nodup_append.mp hnd).1 hhome hpass
  | @consume num ch queue tag bits hch =>
    rw [made_consume] at hnd
    have hlt := (List.getElem?_eq_some_iff.mp hhome).1
    have hboth := keeps_consume (P := fun s' => Wired (homes ++ [(some ch.ref, consumerTag c num ch tag)]) s' ∧
        Balanced home k 0 lost s') hv ch queue tag bits
      (fun counter => ⟨hw.register hch counter, hb.register (hw.length ▸ hlt) _ counter⟩)
      (fun hv hpass h => ?_) fun _ h => ⟨h.1.congr rfl rfl, h.2.congr rfl rfl⟩
    · exact ⟨0, hboth.2, fun _ => rfl⟩
    · have hhome' : (homes ++ [(some ch.ref, consumerTag c num ch tag)])[k]? = some home := by
        rw [List.getElem?_append_left hlt]
        exact hhome
      obtain ⟨more, hb', hmore⟩ := h.2.passes hv h.1 hnd hhome' hpass
      rw [hmore fun _ hx => hx.elim] at hb'
      exact ⟨h.1.passes hv hpass, hb'⟩

/-- A consumer that an event has made has its credit. --/
theorem Turn.newBooks (h : Turn c L s (.ok s')) (hv : Valid s) (hw : Wired homes s) (hnd : (homes ++ made s s').Nodup)
    (hk : homes.length ≤ k) (hhome : (homes ++ made s s')[k]? = some home) : Balanced home k 0 0 s' := by
  cases h with
  | passes hpass =>
    have hw' : Wired homes s' := hw.passes hv hpass
    rw [made_of_wired hw hw', List.append_nil, List.getElem?_eq_none hk] at hhome
    cases hhome
  | @consume num ch queue tag bits hch =>
    rw [made_consume] at hnd hhome
    have hlt := (List.getElem?_eq_some_iff.mp hhome).1
    obtain rfl : k = s.consumerHeap.size := by
      rw [List.length_append, List.length_singleton] at hlt
      rw [← hw.length]
      exact Nat.le_antisymm (Nat.lt_succ_iff.mp hlt) hk
    obtain rfl : (some ch.ref, consumerTag c num ch tag) = home := by
      rw [← hw.length, List.getElem?_concat_length] at hhome
      exact Option.some.inj hhome
    have hnew : (some ch.ref, consumerTag c num ch tag) ∉ homes := fun hmem =>
      (List.nodup_append.mp hnd).2.2 _ hmem _ (List.mem_singleton_self _) rfl
    have hboth := keeps_consume (P := fun s' => Wired (homes ++ [(some ch.ref, consumerTag c num ch tag)]) s' ∧
        Balanced (some ch.ref, consumerTag c num ch tag) s.consumerHeap.size 0 0 s') hv ch queue tag bits
      (fun counter => ⟨hw.register hch counter, .new hw hnew counter⟩)
      (fun hv hpass h => ?_) fun _ h => ⟨h.1.congr rfl rfl, h.2.congr rfl rfl⟩
    · exact hboth.2
    · obtain ⟨more, hb', hmore⟩ := h.2.passes hv h.1 hnd hhome hpass
      rw [hmore fun _ hx => hx.elim] at hb'
      exact ⟨h.1.passes hv hpass, hb'⟩

/-! ### Registered consumers -/

/-- The consumer is in a queue. --/
def Enlisted (k : Ref) (s : AmqpServer) : Prop := ∃ name q, s.queue name = some q ∧ k ∈ q.consumers

/-- The consumers that are in a queue afterwards were in it before, with the callback that they have. --/
def Remain (s s' : AmqpServer) : Prop :=
  ∀ name q', s'.queue name = some q' → ∀ k ∈ q'.consumers,
    (∃ q, s.queue name = some q ∧ k ∈ q.consumers) ∧ (s'.consumer k).on_deliver = (s.consumer k).on_deliver

namespace Remain

theorem of_queue (hq : ∀ name q', s'.queue name = some q' → ∃ q, s.queue name = some q ∧ q'.consumers ⊆ q.consumers)
    (hk : ∀ k, (s'.consumer k).on_deliver = (s.consumer k).on_deliver) : Remain s s' := by
  intro name q' hq' k hmem
  obtain ⟨q, hq, hsub⟩ := hq name q' hq'
  exact ⟨⟨q, hq, hsub hmem⟩, hk k⟩

theorem congr (hq : s'.queues = s.queues) (hk : s'.consumerHeap = s.consumerHeap) : Remain s s' := by
  refine of_queue (fun name q' hq' => ⟨q', ?_, fun _ h => h⟩) fun k => by rw [consumer, hk, consumer]
  rwa [queue, hq] at hq'

theorem refl : Remain s s := congr rfl rfl

theorem trans {s₁ : AmqpServer} (h₁ : Remain s s₁) (h₂ : Remain s₁ s') : Remain s s' := by
  intro name q' hq' k hk
  obtain ⟨⟨q₁, hq₁, hmem₁⟩, heq⟩ := h₂ name q' hq' k hk
  obtain ⟨hmem, heq'⟩ := h₁ name q₁ hq₁ k hmem₁
  exact ⟨hmem, heq.trans heq'⟩

theorem of_skeleton (h : s'.skeleton = s.skeleton) : Remain s s' := by
  refine of_queue (fun name q' hq' => ?_) fun k => ?_
  · obtain ⟨q, hq, hframe⟩ := queue_of_skeleton h.symm hq'
    have hconsumers : q.frame.consumers = q'.frame.consumers := by rw [hframe]
    exact ⟨q, hq, (show q.consumers = q'.consumers from hconsumers) ▸ fun _ h => h⟩
  · have hcell : s'.skeleton.consumerHeap.cell k = s.skeleton.consumerHeap.cell k := by rw [h]
    have hframe : ((s'.consumer k).frame).on_deliver = ((s.consumer k).frame).on_deliver := congrArg _ hcell
    exact hframe

theorem modifyQueue (name : Bytes) {f : MessageQueue → MessageQueue} (hf : ∀ q, (f q).consumers ⊆ q.consumers) :
    Remain s (s.modifyQueue name f) := by
  refine of_queue (fun name' q' hq' => ?_) fun _ => rfl
  rw [queue, AmqpServer.modifyQueue, Assoc.lookup_modify] at hq'
  split at hq'
  · rename_i heq
    obtain ⟨q, hq, rfl⟩ := Option.map_eq_some_iff.mp hq'
    exact ⟨q, heq ▸ hq, hf q⟩
  · exact ⟨q', hq', fun _ h => h⟩

theorem insertQueue {name : Bytes} {q : MessageQueue} (hq : q.consumers = []) :
    Remain s { s with queues := s.queues.insert name q } := by
  intro name' q' hq' k hk
  rcases Assoc.mem_insert.mp (Assoc.mem_entries.mpr hq') with ⟨-, rfl⟩ | ⟨-, hmem⟩
  · rw [hq] at hk
    cases hk
  · exact ⟨⟨q', Assoc.mem_entries.mp hmem, hk⟩, rfl⟩

theorem storeMessage (name : Bytes) (r : Ref) : Remain s (s.storeMessage name r) := by
  rw [AmqpServer.storeMessage]
  split
  · exact .refl
  · exact congr rfl rfl

theorem persistAck (u : UnackedMessage) : Remain s (s.persistAck u) := by
  have hreleased : Remain s (s.releaseCredit u) := .of_skeleton (skeleton_releaseCredit u)
  rw [AmqpServer.persistAck]
  split
  · exact hreleased.trans (congr rfl rfl)
  · split
    · exact hreleased.trans (congr rfl rfl)
    · exact hreleased.trans (congr rfl rfl)

theorem removeConsumer (hs : Placed s) (name tag : Bytes) : Remain s (s.removeConsumer name tag) := by
  have hremoves := removes_removeConsumer (s := s) name tag
  intro name' q' hq' k hk
  obtain ⟨q, hq, heq⟩ := hremoves.queue_eq hq'
  refine ⟨⟨q, hq, ?_⟩, hremoves.kept hs name' q' hq' k hk⟩
  rw [Removes.consumers_eq heq] at hk
  exact FirstMatch.eraseKeys_sublist.subset hk

/-- A consumer that is left in some queue is none of those that lose their callback. --/
theorem removeConsumersByConnection (hs : Placed s) (name : Bytes) (connId : Nat) :
    Remain s (s.removeConsumersByConnection name connId) := by
  rw [AmqpServer.removeConsumersByConnection]
  cases hq : s.queue name with
  | none => exact .refl
  | some q =>
    intro name' q' hq' k hk
    dsimp only at hq' hk ⊢
    have hqueues : ((q.consumers.filter fun k => idOf (s.consumer k).connection_id = idOf connId).foldl
        (fun s k => s.modifyConsumer k fun c => { c with on_deliver := none }) s).queues = s.queues :=
      List.foldlRecOn (motive := fun s' : AmqpServer => s'.queues = s.queues) _ _ rfl fun _ h _ _ => h
    rw [queue, AmqpServer.modifyQueue, hqueues, Assoc.lookup_modify] at hq'
    have hkeep : k ∉ q.consumers.filter (fun k => idOf (s.consumer k).connection_id = idOf connId) ∧
        ∃ q, s.queue name' = some q ∧ k ∈ q.consumers := by
      split at hq'
      · rename_i heq
        obtain ⟨q₀, hq₀, rfl⟩ := Option.map_eq_some_iff.mp hq'
        obtain ⟨hmem, hne⟩ := List.mem_filter.mp hk
        refine ⟨fun hgone => of_decide_eq_true hne (of_decide_eq_true (List.mem_filter.mp hgone).2), q₀, heq ▸ hq₀, hmem⟩
      · rename_i hne
        refine ⟨fun hgone => hne ?_, q', hq', hk⟩
        exact ((hs name' q' hq').2 k hk).symm.trans ((hs name q hq).2 k (List.mem_filter.mp hgone).1)
    refine ⟨hkeep.2, ?_⟩
    exact congrArg Consumer.on_deliver (consumer_foldl_clear hkeep.1 s)

/-- Every move but the registration of a consumer. --/
theorem move {kind : Kind} (hs : Placed s) (hm : Move c kind s s') (hkind : kind ≠ .register) : Remain s s' := by
  cases hm with
  | clock => exact congr rfl rfl
  | touch r f hf => exact congr rfl rfl
  | mark reason r hq hdlx => exact congr rfl rfl
  | letter r hr hq hdlx hroute hq' => exact modifyQueue _ fun _ _ h => h
  | @expire _ q name dlq rest hq hm =>
    have hdrop : Remain s (s.modifyQueue name fun q => { q with messages := q.messages.drop dlq.length }) :=
      modifyQueue name fun _ _ h => h
    exact hdrop.trans (congr rfl rfl)
  | rotate name idx => exact modifyQueue name fun _ _ h => h
  | handOver idx hq hm hk he => exact of_skeleton (skeleton_handOver ..)
  | enqueue r hr hq => exact modifyQueue _ fun _ _ h => h
  | requeue name r hr => exact modifyQueue name fun _ _ h => h
  | take name => exact modifyQueue name fun _ _ h => h
  | purge name => exact of_skeleton (skeleton_purge name)
  | create m hw hid => exact congr rfl rfl
  | store m hw hid hq hd hp hfit => exact (congr rfl rfl).trans (storeMessage (s := s.newMessage m) _ _)
  | oversize m hw hid hq hd hp hfit => exact (congr rfl rfl).trans (storeMessage (s := s.newMessage m) _ _)
  | recoverQueue hname hnew hm hk he ho => exact insertQueue hk
  | releaseCredit u => exact of_skeleton (skeleton_releaseCredit u)
  | settle u hu => exact persistAck u
  | newConsumer k hk => exact absurd rfl hkind
  | mapConsumer num tag k counter hk hown => exact absurd rfl hkind
  | addConsumer name k hk hid hname hnew => exact absurd rfl hkind
  | removeConsumer name tag => exact removeConsumer hs name tag
  | removeConsumersByConnection name => exact removeConsumersByConnection hs name c
  | insertQueue hname hnew hm hk he ho => exact insertQueue hk
  | eraseQueue name =>
    refine of_queue (fun name' q' hq' => ⟨q', ?_, fun _ h => h⟩) fun _ => rfl
    exact Assoc.mem_entries.mp (Assoc.mem_erase.mp (Assoc.mem_entries.mpr hq')).2
  | reorderQueues order =>
    refine of_queue (fun name' q' hq' => ⟨q', ?_, fun _ h => h⟩) fun _ => rfl
    rwa [queue, Assoc.lookup_reorder] at hq'
  | _ => exact congr rfl rfl

theorem passes (hv : Valid s) (hs : Registered s) (hpass : Passes c L {} s {} s') : Remain s s' := by
  refine (hpass.keeps (P := fun _ s' => Registered s' ∧ Remain s s') hv (fun hflow hv h => ?_) ⟨hs, refl⟩).2
  exact hflow.keeps hv (P := fun s' => Registered s' ∧ Remain s s')
    (fun hm hkind h => ⟨h.1.move hm, h.2.trans (move h.1.isPlaced hm hkind)⟩) h

end Remain

/-- A consumer in a queue was there before the event, or the event has made it. --/
theorem Turn.enlisted (h : Turn c L s (.ok s')) (hv : Valid s) (hs : Registered s) (hk : s'.Enlisted k) :
    s.Enlisted k ∧ (s'.consumer k).on_deliver = (s.consumer k).on_deliver ∨
      k = s.consumerHeap.size ∧ (s'.consumer k).on_deliver.isSome = true := by
  obtain ⟨name, q', hq', hmem⟩ := hk
  cases h with
  | passes hpass =>
    have hremain : Remain s s' := .passes hv hs hpass
    obtain ⟨⟨q, hq, hk⟩, heq⟩ := hremain name q' hq' k hmem
    exact .inl ⟨⟨name, q, hq, hk⟩, heq⟩
  | @consume num ch queue tag bits hch =>
    obtain ⟨counter, s₁, -, hqueues, hheap, -, hskeleton⟩ :=
      @passes_consume c num s L ch queue tag bits
    obtain ⟨⟨q, hq, hk⟩, heq⟩ := Remain.of_skeleton hskeleton name q' hq' k hmem
    have hcell : (s₁.attach queue s.consumerHeap.size).consumer k =
        (s.consumerHeap.alloc (newConsumer c num ch queue (consumerTag c num ch tag) bits)).cell k :=
      congrArg (fun h : Heap Consumer => h.cell k) hheap
    rw [heq, hcell]
    rw [AmqpServer.queue, attach, modifyQueue, hqueues, Assoc.lookup_modify] at hq
    have hold : ∀ q, s.queue name = some q → k ∈ q.consumers →
        s.Enlisted k ∧ ((s.consumerHeap.alloc (newConsumer c num ch queue (consumerTag c num ch tag) bits)).cell k).on_deliver =
          (s.consumer k).on_deliver := by
      intro q hq hk
      refine ⟨⟨name, q, hq, hk⟩, ?_⟩
      rw [Heap.cell_alloc_of_ne (Nat.ne_of_lt ((hv.queue hq).consumers k hk))]
      rfl
    split at hq
    · rename_i heq
      obtain ⟨q₀, hq₀, rfl⟩ := Option.map_eq_some_iff.mp hq
      rcases List.mem_append.mp hk with hk | hk
      · exact .inl (hold q₀ (heq ▸ hq₀) hk)
      · obtain rfl := List.mem_singleton.mp hk
        rw [Heap.cell_alloc_self]
        exact .inr ⟨rfl, rfl⟩
    · exact .inl (hold q hq hk)

/-! ### Runs -/

/-- The consumers are where they were registered, those in a queue have their callbacks, and the credit of every consumer
    is accounted for. --/
structure Audited (homes : List Home) (s : AmqpServer) : Prop where
  valid : Valid s
  registered : Registered s
  wired : Wired homes s
  live : ∀ k, s.Enlisted k → (s.consumer k).on_deliver.isSome = true
  books : ∀ k home, homes[k]? = some home → ∃ lost, Balanced home k 0 lost s

/-- The consumers in a queue have lost nothing. --/
def Exact (homes : List Home) (s : AmqpServer) : Prop :=
  ∀ k home, homes[k]? = some home → s.Enlisted k → Balanced home k 0 0 s

/-- No delivery of a consumer that is in a queue gets lost in the event. --/
def Careful (homes : List Home) (s : AmqpServer) (e : Event) : Prop :=
  ∀ k home x, homes[k]? = some home → s.Enlisted k → Loses s e x → ¬x.Of home k

/-- Where consumers were registered, one event later. A new process has none. --/
def nextHomes (s : AmqpServer) (homes : List Home) : Event → List Home
  | .restart => []
  | e => homes ++ made s (s.handle e)

theorem nextHomes_of_ne {e : Event} (he : e ≠ .restart) : nextHomes s homes e = homes ++ made s (s.handle e) := by
  cases e with
  | restart => exact absurd rfl he
  | _ => rfl

section
variable {store : Option MessageStore} {userStore : UserStore} {clock : Nat → Int} {readings : Nat}

theorem audited_start : Audited [] (start store userStore clock readings) := by
  have hblank : ∀ store, Wired [] { store, userStore, clock, readings, exchanges := defaultExchanges } :=
    fun store => ⟨rfl, fun k f hf => (by cases hf), Assoc.All.empty⟩
  have hboth : Wired [] (start store userStore clock readings) ∧ ∀ k, ¬(start store userStore clock readings).Enlisted k := by
    cases store with
    | none => exact ⟨hblank none, fun k ⟨name, q, hq, _⟩ => by cases hq⟩
    | some st =>
      have hmoves := (does_recoverFromStore (c := 0)
        (s := { store := some st, userStore, clock, readings, exchanges := defaultExchanges }) rfl).moves valid_blank
      have hkeep := hmoves.keeps (P := fun s' => Wired [] s' ∧ Registered s' ∧
          Remain { store := some st.recover.2, userStore, clock, readings, exchanges := defaultExchanges } s')
        (fun kind hkind s₁ s₂ hm h => ?_) ⟨hblank _, registered_blank, .refl⟩
      · refine ⟨hkeep.1, fun k ⟨name, q, hq, hk⟩ => ?_⟩
        obtain ⟨⟨_, hnone, -⟩, -⟩ := hkeep.2.2 name q hq k hk
        cases hnone
      · have hne : kind ≠ .register := by
          rintro rfl
          revert hkind
          decide
        exact ⟨h.1.move hm hne, h.2.1.move hm, h.2.2.trans (.move h.2.1.isPlaced hm hne)⟩
  exact ⟨valid_start, registered_start, hboth.1, fun k hk => absurd hk (hboth.2 k), fun k home hhome => by cases hhome⟩

theorem Audited.handle (h : Audited homes s) {e : Event} (hnd : (nextHomes s homes e).Nodup) :
    Audited (nextHomes s homes e) (s.handle e) := by
  by_cases he : e = .restart
  · rw [he]
    exact audited_start
  · obtain ⟨c, hturn⟩ := turn_handle (s := s) he
    rw [nextHomes_of_ne he] at hnd ⊢
    refine ⟨valid_handle h.valid e, registered_handle h.valid h.registered e, hturn.wired h.valid h.wired, fun k hk => ?_,
      fun k home hhome => ?_⟩
    · rcases hturn.enlisted h.valid h.registered hk with ⟨hold, heq⟩ | ⟨-, hlive⟩
      · rw [heq]
        exact h.live k hold
      · exact hlive
    · rcases Nat.lt_or_ge k homes.length with hlt | hge
      · rw [List.getElem?_append_left hlt] at hhome
        obtain ⟨lost, hb⟩ := h.books k home hhome
        obtain ⟨more, hb', -⟩ := hturn.books h.valid h.wired hnd hhome hb
        exact ⟨_, hb'⟩
      · exact ⟨0, hturn.newBooks h.valid h.wired hnd hge hhome⟩

theorem Exact.handle (hexact : Exact homes s) (h : Audited homes s) {e : Event} (hnd : (nextHomes s homes e).Nodup)
    (hcareful : Careful homes s e) : Exact (nextHomes s homes e) (s.handle e) := by
  by_cases he : e = .restart
  · rw [he]
    exact fun k home hhome => by cases hhome
  · obtain ⟨c, hturn⟩ := turn_handle (s := s) he
    rw [nextHomes_of_ne he] at hnd ⊢
    intro k home hhome hk
    rcases Nat.lt_or_ge k homes.length with hlt | hge
    · rw [List.getElem?_append_left hlt] at hhome
      rcases hturn.enlisted h.valid h.registered hk with ⟨hold, -⟩ | ⟨hnew, -⟩
      · obtain ⟨more, hb, hmore⟩ := hturn.books h.valid h.wired hnd hhome (hexact k home hhome hold)
        rw [hmore fun x hx => hcareful k home x hhome hold hx] at hb
        exact hb
      · rw [hnew, ← h.wired.length] at hlt
        exact absurd hlt (Nat.lt_irrefl _)
    · exact hturn.newBooks h.valid h.wired hnd hge hhome

/-- Where the consumers of the process were registered, over a run. --/
def homesOf (s : AmqpServer) (events : List Event) : List Home :=
  (events.foldl (fun x e => (x.1.handle e, nextHomes x.1 x.2 e)) (s, [])).2

theorem homesOf_concat (s : AmqpServer) (events : List Event) (e : Event) :
    homesOf s (events ++ [e]) = nextHomes (s.run events) (homesOf s events) e := by
  have hstate : ∀ (events : List Event) (x : AmqpServer × List Home),
      (events.foldl (fun x e => (x.1.handle e, nextHomes x.1 x.2 e)) x).1 = x.1.run events := by
    intro events
    induction events with
    | nil => exact fun _ => rfl
    | cons e events ih => exact fun x => ih _
  rw [homesOf, Prefix.foldl_concat]
  dsimp only
  rw [hstate]
  rfl

/-- No tag is used twice on a channel. --/
def UniqueTags (s : AmqpServer) (events : List Event) : Prop := ∀ pre ∈ events.inits, (homesOf s pre).Nodup

instance (s : AmqpServer) (events : List Event) : Decidable (UniqueTags s events) := List.decidableBAll ..

theorem UniqueTags.nextHomes {events pre post : List Event} {e : Event} (h : UniqueTags s events)
    (heq : events = pre ++ e :: post) : (nextHomes (s.run pre) (homesOf s pre) e).Nodup := by
  have hpre : pre ++ [e] <+: events := ⟨post, by rw [heq, List.append_assoc, List.singleton_append]⟩
  rw [← homesOf_concat]
  exact h _ ((List.mem_inits _ _).mpr hpre)

theorem audited_run {events : List Event} (hunique : UniqueTags (start store userStore clock readings) events) :
    Audited (homesOf (start store userStore clock readings) events) ((start store userStore clock readings).run events) := by
  refine Prefix.induction (l := events) (P := fun pre => Audited (homesOf (start store userStore clock readings) pre)
    ((start store userStore clock readings).run pre)) audited_start (fun pre e post heq ih => ?_) (List.append_nil events).symm
  rw [homesOf_concat, run_concat]
  exact ih.handle (hunique.nextHomes heq)

/-- Never more is out for a consumer than its counter says, nor more than its prefetch count. --/
theorem prefetch_respected {events : List Event} (hunique : UniqueTags (start store userStore clock readings) events)
    (hrun : s = (start store userStore clock readings).run events) (hk : k < s.consumerHeap.size)
    (hack : (s.consumer k).no_ack = false) (hprefetch : 0 < (s.consumer k).prefetch_count) :
    ∃ home, (homesOf (start store userStore clock readings) events)[k]? = some home ∧
      s.deliveries home k ≤ (s.consumer k).in_flight.toNat ∧
      (s.consumer k).in_flight.toNat ≤ (s.consumer k).prefetch_count.toNat := by
  have haudit : Audited (homesOf (start store userStore clock readings) events) s := hrun ▸ audited_run hunique
  rw [← haudit.wired.length] at hk
  obtain ⟨lost, hb⟩ := haudit.books k _ (List.getElem?_eq_getElem hk)
  exact ⟨_, List.getElem?_eq_getElem hk, (hb hack).bounds (UInt16.lt_iff_toNat_lt.mp hprefetch)⟩

/-- One message is published, and then a consumer with a prefetch count of 1 takes it. --/
def prefetchRun : List Event :=
  Client.connect 1 ++
    [Client.openChannel 1 1, Client.prefetch 1 1 1 false, Client.assertQueue 1 1 (ascii "q") false false false false []] ++
    Client.sendToQueue 1 1 (ascii "q") (ascii "abc") {} ++ [Client.consume 1 1 (ascii "q") (ascii "t") false false false]

theorem prefetch_respected_one :
    ∃ home, (homesOf freshServer prefetchRun)[0]? = some home ∧
      (freshServer.run prefetchRun).deliveries home 0 ≤ ((freshServer.run prefetchRun).consumer 0).in_flight.toNat ∧
      ((freshServer.run prefetchRun).consumer 0).in_flight.toNat ≤
        ((freshServer.run prefetchRun).consumer 0).prefetch_count.toNat :=
  prefetch_respected (by decide +kernel) rfl (by decide +kernel) (by decide +kernel) (by decide +kernel)

/-- The credit of a consumer in a queue is what is out for it, and without that it can be handed a message. --/
theorem credit_of_careful_run {events : List Event} (hunique : UniqueTags (start store userStore clock readings) events)
    (hcareful : ∀ pre e post, events = pre ++ e :: post → Careful (homesOf (start store userStore clock readings) pre)
      ((start store userStore clock readings).run pre) e)
    (hrun : s = (start store userStore clock readings).run events) (hk : s.Enlisted k)
    (hack : (s.consumer k).no_ack = false) :
    ∃ home, (homesOf (start store userStore clock readings) events)[k]? = some home ∧
      (s.consumer k).in_flight.toNat ≤ s.deliveries home k ∧
      (s.deliveries home k = 0 → (s.consumer k).in_flight = 0 ∧
        ∀ head, ((s.consumer k).no_local = true → idOf (s.message head).source_connection_id ≠ idOf (s.consumer k).connection_id) →
          s.eligible head k = true) := by
  have haudit : Audited (homesOf (start store userStore clock readings) events) s := hrun ▸ audited_run hunique
  have hexact : Exact (homesOf (start store userStore clock readings) events) s := by
    rw [hrun]
    have hboth := Prefix.induction (l := events) (P := fun pre =>
      Audited (homesOf (start store userStore clock readings) pre) ((start store userStore clock readings).run pre) ∧
        Exact (homesOf (start store userStore clock readings) pre) ((start store userStore clock readings).run pre))
      ⟨audited_start, fun k home hhome => by cases hhome⟩ (fun pre e post heq ih => ?_) (List.append_nil events).symm
    · exact hboth.2
    · have hnd := hunique.nextHomes heq
      rw [homesOf_concat, run_concat]
      exact ⟨ih.1.handle hnd, ih.2.handle ih.1 hnd (hcareful pre e post heq)⟩
  have hlt : k < (homesOf (start store userStore clock readings) events).length := by
    obtain ⟨name, q, hq, hmem⟩ := hk
    rw [haudit.wired.length]
    exact (haudit.valid.queue hq).consumers k hmem
  have hhome := List.getElem?_eq_getElem hlt
  have hle := (hexact k _ hhome hk hack).le_items
  refine ⟨_, hhome, hle, fun hnone => ?_⟩
  have hzero : (s.consumer k).in_flight = 0 := by
    rw [hnone] at hle
    exact UInt32.toNat_inj.mp (Nat.le_zero.mp hle)
  refine ⟨hzero, fun head hlocal => ?_⟩
  simp only [eligible, haudit.live k hk, hzero, Bool.true_and, Bool.and_eq_true, Bool.not_eq_true', Bool.and_eq_false_iff,
    decide_eq_false_iff_not]
  constructor
  · by_cases hprefetch : 0 < (s.consumer k).prefetch_count
    · exact .inr (Nat.not_le.mpr (UInt16.lt_iff_toNat_lt.mp hprefetch))
    · exact .inl hprefetch
  · cases hno : (s.consumer k).no_local with
    | true => exact .inr (hlocal hno)
    | false => exact .inl rfl

theorem enlisted_of_consumers {l : List Ref} (h : (s.queue (ascii "q")).any (fun q => q.consumers = l) = true) (hk : k ∈ l) :
    s.Enlisted k := by
  obtain ⟨q, hq, hl⟩ := (Option.any_eq_true _ _).mp h
  exact ⟨_, q, hq, of_decide_eq_true hl ▸ hk⟩

theorem careful_of_ack {homes : List Home} {c : Nat} {frame : Frame} {frameEnd : UInt8}
    (hack : methodIds frame = some (class_id.BASIC, basic_method.ACK)) : Careful homes s (.frame c frame frameEnd) := by
  have hids : ∀ {classId methodId : UInt16} {buf : Buffer}, frame.type = FRAME_METHOD →
      readMethodIds (Buffer.ofBytes frame.payload) = .ok ((classId, methodId), buf) →
      classId = class_id.BASIC ∧ methodId = basic_method.ACK := fun htype hread => by
    rw [methodIds, if_pos htype, hread] at hack
    exact Prod.mk.inj (Option.some.inj hack)
  rintro k home x - - hloses
  cases hloses with
  | method hserved hstate htype hread hch h =>
    obtain ⟨rfl, hmethod⟩ := hids htype hread
    cases h with
    | reject => exact absurd hmethod (by decide)
    | nack => exact absurd hmethod (by decide)
    | recover hid =>
      rcases hid with rfl | rfl
      · exact absurd hmethod (by decide)
      · exact absurd hmethod (by decide)
  | openChannel hserved hstate htype hread => exact absurd (hids htype hread).1 (by decide)

/-- The message goes out and is acked. --/
def ackedRun : List Event := prefetchRun ++ [.runTask 1] ++ [Client.ack 1 1 1 false]

/-- No delivery was lost, and the ack frees the credit for any message. --/
theorem credit_of_ackedRun :
    ((freshServer.run ackedRun).consumer 0).in_flight = 0 ∧ ∀ head, (freshServer.run ackedRun).eligible head 0 = true := by
  have hregistered : ∀ pre e post, prefetchRun = pre ++ e :: post →
      Careful (homesOf freshServer pre) (freshServer.run pre) e := by
    -- The consumer is registered by the last event.
    intro pre e post heq k home x hhome
    have hnone : ∀ pre ∈ prefetchRun.dropLast.inits, homesOf freshServer pre = [] := by decide +kernel
    have hpre : pre <+: prefetchRun.dropLast := by
      rw [heq, List.dropLast_append_of_ne_nil (List.cons_ne_nil _ _)]
      exact List.prefix_append ..
    rw [hnone pre ((List.mem_inits _ _).mpr hpre)] at hhome
    cases hhome
  have hdelivered : Careful (homesOf freshServer prefetchRun) (freshServer.run prefetchRun) (.runTask 1) := by
    -- The delivery finds its channel, and the channel its consumer.
    have hthere : ((freshServer.run prefetchRun).connection 1).any (fun conn => conn.strand.all fun t =>
        ((freshServer.run prefetchRun).lockChannel 1 t).any fun ch => ch.isOpen && (ch.consumers.lookup t.tag).isSome) = true := by
      decide +kernel
    rintro k home x - - hloses
    cases hloses with
    | posted hconn hstrand hgone =>
      rw [hconn, Option.any_some, hstrand, List.all_cons, Bool.and_eq_true] at hthere
      obtain ⟨ch, hch, hboth⟩ := (Option.any_eq_true _ _).mp hthere.1
      rw [Bool.and_eq_true] at hboth
      rw [hgone ch hch hboth.1] at hboth
      exact absurd hboth.2 Bool.false_ne_true
  have hcareful := Prefix.forall_concat
    (P := fun pre e => Careful (homesOf freshServer pre) (freshServer.run pre) e) (a := Client.ack 1 1 1 false)
    (Prefix.forall_concat (P := fun pre e => Careful (homesOf freshServer pre) (freshServer.run pre) e) hregistered hdelivered)
    (careful_of_ack (by decide +kernel))
  obtain ⟨home, hhome, -, hfree⟩ := credit_of_careful_run (by decide +kernel) hcareful rfl
    (enlisted_of_consumers (l := [0]) (by decide +kernel) (List.mem_singleton_self 0)) (by decide +kernel)
  obtain rfl : (some 0, ascii "t") = home := Option.some.inj (Eq.trans (by decide +kernel) hhome)
  obtain ⟨hzero, heligible⟩ := hfree (by decide +kernel)
  have hlocal : ((freshServer.run ackedRun).consumer 0).no_local = false := by decide +kernel
  exact ⟨hzero, fun head => heligible head fun h => absurd (h.symm.trans hlocal) (by decide)⟩

/-- The delivery is rejected with requeue. --/
def rejectRun : List Event := prefetchRun ++ [.runTask 1, Client.reject 1 1 1 true]

/-- The credit of a rejected delivery does not come back: nothing is out, and the message stays in the queue. --/
theorem reject_keeps_credit :
    UniqueTags freshServer rejectRun ∧ (freshServer.run rejectRun).Enlisted 0 ∧
      ((freshServer.run rejectRun).consumer 0).no_ack = false ∧
      (homesOf freshServer rejectRun)[0]? = some (some 0, ascii "t") ∧
      (freshServer.run rejectRun).deliveries (some 0, ascii "t") 0 = 0 ∧
      ((freshServer.run rejectRun).consumer 0).in_flight = 1 ∧
      ∀ head, (freshServer.run rejectRun).eligible head 0 = false := by
  refine ⟨by decide +kernel, enlisted_of_consumers (l := [0]) (by decide +kernel) (List.mem_singleton_self 0),
    by decide +kernel, by decide +kernel, by decide +kernel, by decide +kernel, fun head => ?_⟩
  have hfull : (0 < ((freshServer.run rejectRun).consumer 0).prefetch_count &&
      ((freshServer.run rejectRun).consumer 0).prefetch_count.toNat ≤
        ((freshServer.run rejectRun).consumer 0).in_flight.toNat) = true := by decide +kernel
  rw [eligible, hfull, Bool.not_true, Bool.and_false, Bool.false_and]

end

end AmqpServer
end Broko.Broker
