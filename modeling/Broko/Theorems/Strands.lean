import Broko.Theorems.Confirms

/-! The strand of a connection, where the deliveries to its channels are posted. Only the dispatch of a queue posts one; it
    carries what the message at the head of the queue has. -/

namespace Broko.Broker
open Amqp Storage MessageStore

namespace AmqpServer

variable {c c' : Nat} {num num' : UInt16} {s s' : AmqpServer}

/-- Nothing is posted to the connection, and the channel has the object that it had, if it has one. --/
structure Subsides (c : Nat) (num : UInt16) (s s' : AmqpServer) : Prop where
  refAt : ∀ r, s'.refAt c num = some r → s.refAt c num = some r
  strand : ∀ conn', s'.connection c = some conn' → ∀ t ∈ conn'.strand, ∃ conn, s.connection c = some conn ∧ t ∈ conn.strand

namespace Subsides

theorem refl : Subsides c num s s := ⟨fun _ h => h, fun conn hconn _ ht => ⟨conn, hconn, ht⟩⟩

theorem trans {s₁ : AmqpServer} (h₁ : Subsides c num s s₁) (h₂ : Subsides c num s₁ s') : Subsides c num s s' := by
  refine ⟨fun r h => h₁.refAt r (h₂.refAt r h), fun conn' hconn' t ht => ?_⟩
  obtain ⟨conn₁, hconn₁, ht₁⟩ := h₂.strand conn' hconn' t ht
  exact h₁.strand conn₁ hconn₁ t ht₁

theorem congr (h : s'.connections = s.connections) : Subsides c num s s' := by
  refine ⟨fun r hr => ?_, fun conn hconn t ht => ⟨conn, ?_, ht⟩⟩
  · rwa [AmqpServer.refAt, channel, connection, h] at hr
  · rwa [connection, h] at hconn

theorem modifyConnection (c' : Nat) {f : Connection → Connection}
    (hstrand : ∀ conn, s.connection c' = some conn → (f conn).strand ⊆ conn.strand)
    (href : ∀ conn r, ((f conn).channels.lookup num).map Channel.ref = some r →
      (conn.channels.lookup num).map Channel.ref = some r) : Subsides c num s (s.modifyConnection c' f) := by
  have hlookup : ∀ conn', (s.modifyConnection c' f).connection c = some conn' →
      ∃ conn, s.connection c = some conn ∧ (conn' = conn ∨ c = c' ∧ conn' = f conn) := by
    intro conn' hconn'
    rw [connection, AmqpServer.modifyConnection, Assoc.lookup_modify] at hconn'
    split at hconn'
    · rename_i heq
      obtain ⟨conn, hconn, rfl⟩ := Option.map_eq_some_iff.mp hconn'
      exact ⟨conn, heq ▸ hconn, .inr ⟨heq, rfl⟩⟩
    · exact ⟨conn', hconn', .inl rfl⟩
  constructor
  · intro r hr
    obtain ⟨ch, hch, hchr⟩ := Option.map_eq_some_iff.mp hr
    obtain ⟨conn', hconn', hch⟩ := Option.bind_eq_some_iff.mp hch
    obtain ⟨conn, hconn, rfl | ⟨hc, rfl⟩⟩ := hlookup conn' hconn'
    · rw [AmqpServer.refAt, channel, hconn, Option.bind_some, hch, Option.map_some, hchr]
    · rw [AmqpServer.refAt, channel, hconn, Option.bind_some]
      exact href conn r (by rw [hch, Option.map_some, hchr])
  · intro conn' hconn' t ht
    obtain ⟨conn, hconn, rfl | ⟨hc, rfl⟩⟩ := hlookup conn' hconn'
    · exact ⟨_, hconn, ht⟩
    · exact ⟨conn, hconn, hstrand conn (hc ▸ hconn) ht⟩

theorem modifyChannel (c' : Nat) (num' : UInt16) {f : Channel → Channel} (hf : ∀ ch, (f ch).ref = ch.ref) :
    Subsides c num s (s.modifyChannel c' num' f) := by
  refine modifyConnection c' (fun _ _ => List.Subset.refl _) fun conn r hr => ?_
  dsimp only at hr
  rw [Assoc.lookup_modify] at hr
  split at hr
  · rename_i heq
    rw [heq]
    rw [Option.map_map] at hr
    exact (congrArg (fun g => (conn.channels.lookup num').map g) (funext hf)).symm.trans hr
  · exact hr

theorem openChannel (hne : ¬(c' = c ∧ num' = num)) : Subsides c num s (s.openChannel c' num') := by
  have hnext : Subsides c num s { s with nextChannel := s.nextChannel + 1 } := congr rfl
  by_cases hc : c' = c
  · refine hnext.trans (modifyConnection c' (fun _ _ => List.Subset.refl _) fun conn r hr => ?_)
    dsimp only at hr
    rwa [Assoc.lookup_insert_of_ne fun hnum => hne ⟨hc, hnum.symm⟩] at hr
  · have hconn : (s.openChannel c' num').connection c = s.connection c := Assoc.lookup_modify_of_ne (Ne.symm hc)
    refine ⟨fun r hr => ?_, fun conn hconn' t ht => ⟨conn, hconn ▸ hconn', ht⟩⟩
    rwa [AmqpServer.refAt, channel, hconn] at hr

/-- Every move but a delivery, which posts a task, and the opening of a channel. --/
theorem move {k : Kind} (hm : Move c' k s s') (hopen : k ≠ .openChannel) :
    (∃ name k head idx q, s.queue name = some q ∧ k ∈ q.consumers ∧ head ∈ q.messages ∧ s' = s.handOver name k head idx) ∨
      Subsides c num s s' := by
  cases hm with
  | handOver idx hq hm hk he => exact .inl ⟨_, _, _, idx, _, hq, hk, hm ▸ List.mem_cons_self, rfl⟩
  | purge name =>
    right
    rw [purge]
    split
    · exact refl
    · exact congr rfl
  | store m => exact .inr (congr (connections_storeMessage ..))
  | oversize m => exact .inr (congr (connections_storeMessage ..))
  | send out => exact .inr (modifyConnection c' (fun _ _ => List.Subset.refl _) fun _ _ h => h)
  | note num' f hf =>
    refine .inr (modifyChannel c' num' fun ch => ?_)
    have hframe : (f ch).frame.ref = ch.frame.ref := by rw [hf]
    exact hframe
  | pending num' p => exact .inr (modifyChannel c' num' fun _ => rfl)
  | handshake f hf =>
    refine .inr (modifyConnection c' (fun conn _ => ?_) fun conn r hr => (hf conn).channels ▸ hr)
    rw [(hf conn).strand]
    exact List.Subset.refl _
  | hold num' u =>
    have hheld : Subsides c num s (s.hold c' num' u) := modifyChannel c' num' fun _ => rfl
    exact .inr (hheld.trans (modifyChannel c' num' fun _ => rfl))
  | takeTag num' => exact .inr (modifyChannel c' num' fun _ => rfl)
  | releaseCredit u => exact .inr (congr (connections_releaseCredit u))
  | eraseUnacked num' tag => exact .inr (modifyChannel c' num' fun _ => rfl)
  | clearUnacked num' => exact .inr (modifyChannel c' num' fun _ => rfl)
  | settle u => exact .inr (congr (connections_persistAck u))
  | mapConsumer num' => exact .inr (modifyChannel c' num' fun _ => rfl)
  | removeConsumer name tag => exact .inr (congr (connections_removeConsumer name tag))
  | unmapConsumer num' => exact .inr (modifyChannel c' num' fun _ => rfl)
  | unmapConsumers num' => exact .inr (modifyChannel c' num' fun _ => rfl)
  | removeConsumersByConnection name => exact .inr (congr (connections_removeConsumersByConnection name c'))
  | openChannel num' => exact absurd rfl hopen
  | setClosed num' => exact .inr (modifyChannel c' num' fun _ => rfl)
  | dropChannel num' =>
    refine .inr (modifyConnection c' (fun _ _ => List.Subset.refl _) fun conn r hr => ?_)
    dsimp only at hr
    by_cases hnum : num = num'
    · rw [hnum, Assoc.lookup_erase_self] at hr
      cases hr
    · rwa [Assoc.lookup_erase_of_ne hnum] at hr
  | shut => exact .inr (modifyConnection c' (fun _ _ => List.Subset.refl _) fun _ _ h => h)
  | dropChannels => exact .inr (modifyConnection c' (fun _ _ => List.Subset.refl _) fun _ _ h => (by cases h))
  | popTask hc hs =>
    refine .inr (modifyConnection c' (fun conn hconn t ht => ?_) fun _ _ h => h)
    obtain rfl := Option.some.inj (hconn.symm.trans hc)
    exact hs ▸ List.mem_cons_of_mem _ ht
  | accept =>
    right
    by_cases hc : c = s.nextConnectionId
    · have hnew : s.accept.connection c = some {} := by
        rw [hc]
        exact Assoc.lookup_insert_self ..
      constructor
      · intro r hr
        rw [AmqpServer.refAt, channel, hnew] at hr
        cases hr
      · intro conn' hconn' t ht
        rw [hnew] at hconn'
        obtain rfl := Option.some.inj hconn'
        cases ht
    · have hold : s.accept.connection c = s.connection c := Assoc.lookup_insert_of_ne hc
      refine ⟨fun r hr => ?_, fun conn hconn t ht => ⟨conn, hold ▸ hconn, ht⟩⟩
      rwa [AmqpServer.refAt, channel, hold] at hr
  | reorderChannels order =>
    refine .inr (modifyConnection c' (fun _ _ => List.Subset.refl _) fun conn r hr => ?_)
    rwa [Assoc.lookup_reorder] at hr
  | reorderConsumers num' order => exact .inr (modifyChannel c' num' fun _ => rfl)
  | reorderUnacked num' order => exact .inr (modifyChannel c' num' fun _ => rfl)
  | _ => exact .inr (congr rfl)

end Subsides

/-- The object for a consumer is a copy. --/
theorem heap_handOver {f : OnDeliver} {name : Bytes} (k head : Ref) (idx : Nat) (hf : (s.consumer k).on_deliver = some f) :
    (s.handOver name k head idx).heap = s.heap.alloc { msg := (s.message head).copied, origin := s.origin head } := by
  have hdeliver : ∀ s₁ : AmqpServer, s₁.heap = s.heap → (s₁.consumer k).on_deliver = some f →
      (s₁.onDeliver k head).heap = s.heap.alloc { msg := (s.message head).copied, origin := s.origin head } := by
    intro s₁ hheap hf₁
    rw [onDeliver, hf₁]
    change s₁.heap.alloc { msg := (s₁.heap.cell head).msg.copied, origin := (s₁.heap.cell head).origin } = _
    rw [hheap]
    rfl
  rw [handOver]
  split
  · exact hdeliver _ rfl hf
  · refine hdeliver _ rfl ?_
    rw [consumer, modifyConsumer, Heap.cell_modify_self]
    exact hf

/-- The task is what the dispatch of the head to the consumer posts to the connection. --/
structure Posts (c : Nat) (s : AmqpServer) (k head : Ref) (t : DeliverTask) : Prop where
  callback : ∃ f, (s.consumer k).on_deliver = some f ∧ f.connection = c ∧ t.channel_id = f.channel_id ∧ t.channel = f.channel
  tag : t.tag = (s.consumer k).tag
  content : t.exchange = (s.message head).exchange ∧ t.routingKey = (s.message head).routing_key ∧
    t.props = (s.message head).properties ∧ t.body = (s.message head).body
  msg : t.msg = s.heap.size

theorem strand_handOver {name : Bytes} {k head : Ref} {idx : Nat} {conn' : Connection}
    (hconn' : (s.handOver name k head idx).connection c = some conn') {t : DeliverTask} (ht : t ∈ conn'.strand) :
    (∃ conn, s.connection c = some conn ∧ t ∈ conn.strand) ∨ Posts c s k head t := by
  have hpost : ∀ s₁ : AmqpServer, (s₁.onDeliver k head).connection c = some conn' → s₁.connections = s.connections →
      s₁.heap = s.heap → (s₁.consumer k).on_deliver = (s.consumer k).on_deliver → (s₁.consumer k).tag = (s.consumer k).tag →
      (∃ conn, s.connection c = some conn ∧ t ∈ conn.strand) ∨ Posts c s k head t := by
    intro s₁ hconn' hconns hheap hk htag
    rw [onDeliver] at hconn'
    split at hconn'
    · exact .inl ⟨conn', by rwa [connection, hconns] at hconn', ht⟩
    · rename_i f hf
      have hconns' : ∀ m, (s₁.newDelivery head m).connections = s.connections := fun _ => hconns
      rw [connection, modifyConnection, hconns', Assoc.lookup_modify] at hconn'
      split at hconn'
      · rename_i heq
        obtain ⟨conn, hconn, rfl⟩ := Option.map_eq_some_iff.mp hconn'
        rcases List.mem_append.mp ht with ht | ht
        · exact .inl ⟨conn, heq ▸ hconn, ht⟩
        · obtain rfl := List.mem_singleton.mp ht
          have hmsg : s₁.message head = s.message head := by rw [message, message, hheap]
          exact .inr ⟨⟨f, hk ▸ hf, heq.symm, rfl, rfl⟩, htag, ⟨congrArg Message.exchange hmsg,
            congrArg Message.routing_key hmsg, congrArg Message.properties hmsg, congrArg Message.body hmsg⟩,
            congrArg Heap.size hheap⟩
      · exact .inl ⟨conn', hconn', ht⟩
  rw [handOver] at hconn'
  split at hconn'
  · exact hpost _ hconn' rfl rfl rfl rfl
  · refine hpost _ hconn' rfl rfl ?_ ?_
    · rw [consumer, modifyConsumer, Heap.cell_modify_self]
      rfl
    · rw [consumer, modifyConsumer, Heap.cell_modify_self]
      rfl

/-- The object of the task is the copy of the head. --/
theorem Posts.cell {name : Bytes} {k head : Ref} {t : DeliverTask} (h : Posts c s k head t) (idx : Nat) :
    (s.handOver name k head idx).heap.cell t.msg = { msg := (s.message head).copied, origin := s.origin head } := by
  obtain ⟨f, hf, -⟩ := h.callback
  rw [heap_handOver k head idx hf, h.msg, Heap.cell_alloc_self]

/-- A task of a strand was there before the move, or the move posts it. --/
theorem strand_move {k : Kind} (hm : Move c' k s s') {conn' : Connection} (hconn' : s'.connection c = some conn')
    {t : DeliverTask} (ht : t ∈ conn'.strand) :
    (∃ conn, s.connection c = some conn ∧ t ∈ conn.strand) ∨
      ∃ name k' head idx q, s.queue name = some q ∧ head ∈ q.messages ∧ s' = s.handOver name k' head idx ∧
        Posts c s k' head t := by
  have hsub : (∃ name k head idx q, s.queue name = some q ∧ k ∈ q.consumers ∧ head ∈ q.messages ∧
      s' = s.handOver name k head idx) ∨ Subsides c 0 s s' := by
    by_cases hopen : k = .openChannel
    · refine .inr ?_
      cases hm with
      | openChannel num' hnum => exact .openChannel fun h => hnum h.2
      | send out => exact absurd (List.mem_singleton.mpr hopen) (outgoingKind_not_mem (K := [.openChannel]) (by decide))
      | note num' f hf hkind =>
        rcases hkind with rfl | ⟨rfl, -⟩
        · cases hopen
        · cases hopen
      | _ => cases hopen
    · exact Subsides.move hm hopen
  rcases hsub with ⟨name, k', head, idx, q, hq, -, hhead, rfl⟩ | hsub
  · exact (strand_handOver hconn' ht).imp_right fun hposts => ⟨name, k', head, idx, q, hq, hhead, rfl, hposts⟩
  · exact .inl (hsub.strand conn' hconn' t ht)

end AmqpServer
end Broko.Broker
