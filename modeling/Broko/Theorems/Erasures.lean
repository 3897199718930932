import Broko.Theorems.Records
import Broko.Theorems.Requests

/-! What takes the record of a message out of the log. A removal from a queue leaves the record where it is, so that a new
    process puts the message back. A queue that is deleted takes the records of its messages with it, and an ack takes out
    the record that has the id of the settled object. -/

namespace Broko.Broker
open Amqp Storage MessageStore

/-- The message and the queue of a record. --/
def Fact.storing? : Fact → Option (Ref × Bytes)
  | .stored origin name _ => some (origin, name)
  | _ => none

namespace AmqpServer

variable {c : Nat} {num : UInt16} {s s' : AmqpServer} {o : Ref} {name : Bytes} {u : UnackedMessage} {e : Event}
  {erased : List (Ref × Bytes)} {Settles : AmqpServer → UnackedMessage → Prop}

/-! ### The statement -/

/-- The queue that the event deletes. --/
def deletion? (s : AmqpServer) (e : Event) : Option Bytes :=
  match s.request e with
  | .method _ _ (.queueDelete queue bits) =>
    match s.deleteQueue queue (hasBit bits 0x01) (hasBit bits 0x02) with
    | .error _ => none
    | .ok _ => some queue
  | _ => none

/-- The messages and the queues of the records that the event takes out: what it settles with an ack, and whatever was
    stored for the queue that it deletes. --/
def erases (s : AmqpServer) (e : Event) : List (Ref × Bytes) :=
  ((s.settlements e).filter fun u => s.WritesAck u).map (fun u => (s.origin u.message, u.queue_name)) ++
    (s.ledger.filterMap Fact.storing?).filter fun p => s.deletion? e = some p.2

/-- What was taken out up to the event, and by it. A new process starts a list of its own. --/
def erasedBy (s : AmqpServer) (erased : List (Ref × Bytes)) : Event → List (Ref × Bytes)
  | .restart => []
  | e => erased ++ s.erases e

def erasures (s : AmqpServer) (erased : List (Ref × Bytes)) : List Event → List (Ref × Bytes)
  | [] => erased
  | e :: events => erasures (s.handle e) (s.erasedBy erased e) events

theorem erasedBy_of_ne (h : e ≠ .restart) : s.erasedBy erased e = erased ++ s.erases e := by
  cases e with
  | restart => exact absurd rfl h
  | _ => rfl

/-! ### Acks -/

theorem WritesAck.move (h : s.WritesAck u) {k : Kind} (hk : k ∈ trafficKinds) (hm : Move c k s s')
    (hu : u.message < s.heap.size) : s'.WritesAck u :=
  (writesAck_congr (.of_move hm hk) (lasting_move hm hu)).mpr h

theorem stable_writesAck : Stable WritesAck := stable_of_move fun h _ hk hm hu => h.move hk hm hu

/-- One of the entries that are settled one after the other has an ack coming. --/
theorem not_hasRecord_settleAll (x : Settlement) (tags : List Nat) (hs : Regular s) (ha : Attributed s)
    (hmem : u ∈ tags.filterMap (s.unackedAt c num)) (hack : s.WritesAck u) :
    ¬(tags.foldl (settle c num x.one) s).HasRecord (s.origin u.message) u.queue_name := by
  induction tags generalizing s with
  | nil => cases hmem
  | cons tag tags ih =>
    rw [List.foldl_cons]
    obtain ⟨tag', htag', hat'⟩ := List.mem_filterMap.mp hmem
    have hu := lt_of_unackedAt hs.valid hat'
    have hrest : ∀ s : AmqpServer, Enacts (fun _ _ => True) s (tags.foldl (settle c num x.one) s) :=
      fun s => enacts_settleAll stable_true x tags fun _ _ => trivial
    by_cases hsame : tag' = tag
    · -- It is settled now, and nothing gives the record back.
      subst hsame
      rw [settle_of_some hat']
      have hreg : Regular (s.persistAck u) := hs.move (by decide) (Move.settle (c := 0) u hu)
      have hafter : Enacts (fun _ _ => True) (s.persistAck u) ((x.one s u).eraseUnacked c num tag') :=
        (enacts_afterAck x hu).trans (.of_does (.of (.eraseUnacked num tag')) (by decide))
      have ho : s.origin u.message < (s.persistAck u).heap.size := by
        rw [heap_persistAck]
        exact hs.valid.origins _ hu
      intro hrec
      exact not_hasRecord_persistAck hs ha hu hack (hreg.hasRecord_run ((hafter.trans (hrest _)).run hreg) ho hrec)
    · -- Another entry is settled now, and this one keeps its object.
      have hstep : BrokerRun (fun _ _ => True) s (settle c num x.one s tag) :=
        (enacts_settleAll stable_true x [tag] fun _ _ => trivial).run hs
      have hat : (settle c num x.one s tag).unackedAt c num tag' = some u := by rwa [unackedAt_settle, if_neg hsame]
      have hack' : (settle c num x.one s tag).WritesAck u := by
        cases hother : s.unackedAt c num tag with
        | none => rwa [settle_of_none hother]
        | some u' =>
          rw [settle_of_some hother]
          exact stable_writesAck c num s u' u x tag hs (lt_of_unackedAt hs.valid hother) hu hack
      have hmem' : u ∈ tags.filterMap ((settle c num x.one s tag).unackedAt c num) :=
        List.mem_filterMap.mpr ⟨tag', (List.mem_cons.mp htag').resolve_left hsame, hat⟩
      rw [← (hs.origin_run hstep hu).2]
      exact ih (hs.run hstep) (ha.run hs hstep) hmem' hack'

theorem settles_handleMethod {methodId : UInt16} {buf : Buffer}
    (hmem : u ∈ (settledBy c num s methodId buf).filterMap (s.unackedAt c num)) :
    ∃ x : Settlement, s.handleMethod c num class_id.BASIC methodId buf =
      .ok ((settledBy c num s methodId buf).foldl (settle c num x.one) s) := by
  unfold settledBy at hmem ⊢
  cases hread : readSettleArgs buf with
  | error b =>
    rw [hread] at hmem
    cases hmem
  | ok args =>
    obtain ⟨⟨deliveryTag, bits⟩, rest⟩ := args
    rw [hread] at hmem
    dsimp only at hmem ⊢
    split at hmem
    · rename_i hack
      subst hack
      exact ⟨.ack, withArgs_ok hread⟩
    · split at hmem
      · rename_i hreject
        subst hreject
        split at hmem
        · cases hmem
        · rename_i hbit
          refine ⟨.nack, (withArgs_ok hread).trans ?_⟩
          dsimp only
          rw [Bool.eq_false_iff.mpr hbit]
          rfl
      · split at hmem
        · rename_i hnack
          subst hnack
          split at hmem
          · cases hmem
          · rename_i hbit
            refine ⟨.nack, (withArgs_ok hread).trans ?_⟩
            dsimp only
            rw [Bool.eq_false_iff.mpr hbit]
            rfl
        · cases hmem

/-- The event carries out what it settles. --/
theorem settles_handle (hmem : u ∈ s.settlements e) : ∃ (c : Nat) (num : UInt16) (x : Settlement) (tags : List Nat),
    s.handle e = tags.foldl (settle c num x.one) s ∧ u ∈ tags.filterMap (s.unackedAt c num) := by
  cases e with
  | frame c frame frameEnd =>
    rw [settlements] at hmem
    split at hmem
    · rename_i h
      obtain ⟨⟨conn, hconn, hreading, hstate, hlen, hend⟩, hclosing, htype, hopen⟩ := h
      split at hmem
      · cases hmem
      · rename_i classId methodId buf hids
        split at hmem
        · rename_i hclass
          subst hclass
          obtain ⟨x, hmethod⟩ := settles_handleMethod hmem
          refine ⟨c, frame.channel, x, _, handle_methodFrame hconn hreading hstate hlen hend htype ?_, hmem⟩
          rw [hconn, Option.map_some, ne_eq, Option.some.injEq] at hclosing
          obtain ⟨ch, hch⟩ := Option.isSome_iff_exists.mp hopen
          rw [if_neg hclosing, handleMethodFrame, hids]
          dsimp only
          rw [if_neg (by decide), if_neg (fun h => absurd h.1 (by decide)), if_neg (fun h => absurd h.1 (by decide)),
            if_neg (fun h => absurd h.1 (by decide)), if_neg (fun h => absurd h.1 (by decide)), handleOnChannel, hch]
          exact hmethod
        · cases hmem
    · cases hmem
  | _ => cases hmem

/-! ### Deleted queues -/

/-- A queue that is deleted leaves no record behind. --/
theorem not_hasRecord_of_deletion (hs : Regular s) (hdelete : s.deletion? e = some name) : ¬(s.handle e).HasRecord o name := by
  unfold deletion? at hdelete
  split at hdelete
  · rename_i c num queue bits hrequest
    split at hdelete
    · cases hdelete
    · rename_i answer hanswer
      obtain rfl := Option.some.inj hdelete
      obtain ⟨-, -, -, -, hhandle⟩ := handle_of_method hrequest
      have hperform : s.perform (.deleteQueue queue (hasBit bits 0x01) (hasBit bits 0x02)) = answer.2 := by
        rw [perform, hanswer]
        rfl
      obtain ⟨hthere, hgone⟩ : s.hasQueue queue = true ∧ answer.2.hasQueue queue = false := by
        rw [deleteQueue] at hanswer
        split at hanswer
        · cases hanswer
        · rename_i q hq
          split at hanswer
          · cases hanswer
          · split at hanswer
            · cases hanswer
            · obtain rfl := Except.ok.inj hanswer
              refine ⟨by rw [hasQueue, hq]; rfl, ?_⟩
              exact congrArg Option.isSome ((queue_erase (s := s.removeBindingsOf queue) queue queue).trans (if_pos rfl))
      have hshort : VHostOp.Short (.deleteQueue queue (hasBit bits 0x01) (hasBit bits 0x02)) := hs.tidy.names _ hthere
      have hnone := messages_of_removed hs.tidy hshort trivial VHostOp.noConfusion hthere (by rwa [hperform])
      have hstore : (s.handle e).store = answer.2.store := by
        rw [hhandle, act, hanswer]
        dsimp only
        split
        · rfl
        · exact store_of_skeleton (skeleton_sendMethodFrame ..)
      rintro ⟨m, hm, hname, -⟩
      rw [logged_of_store hstore, ← hperform] at hm
      exact hnone m hm hname
  · cases hdelete

/-! ### Runs -/

/-- What holds along a run: the messages of the list have no record. --/
structure Erased (erased : List (Ref × Bytes)) (s : AmqpServer) : Prop where
  regular : Regular s
  attributed : Attributed s
  there : ∀ p ∈ erased, p.1 < s.heap.size
  unrecorded : ∀ p ∈ erased, ¬s.HasRecord p.1 p.2

namespace Erased

theorem restart (hs : Regular s) : Erased [] s.restart :=
  ⟨hs.restart, attributed_start _ _ _ _, List.forall_mem_nil _, List.forall_mem_nil _⟩

/-- What the event takes out is an object of the process, and has no record after it. --/
theorem of_erases (hs : Regular s) (ha : Attributed s) {p : Ref × Bytes} (hp : p ∈ s.erases e) :
    p.1 < s.heap.size ∧ ¬(s.handle e).HasRecord p.1 p.2 := by
  rcases List.mem_append.mp hp with hacked | hdeleted
  · obtain ⟨u, hu, rfl⟩ := List.mem_map.mp hacked
    obtain ⟨hsettled, hack⟩ := List.mem_filter.mp hu
    obtain ⟨c, num, x, tags, hhandle, hmem⟩ := settles_handle hsettled
    obtain ⟨tag, -, hat⟩ := List.mem_filterMap.mp hmem
    rw [hhandle]
    exact ⟨hs.valid.origins _ (lt_of_unackedAt hs.valid hat),
      not_hasRecord_settleAll x tags hs ha hmem (of_decide_eq_true hack)⟩
  · obtain ⟨hstored, hdelete⟩ := List.mem_filter.mp hdeleted
    obtain ⟨f, hf, hstoring⟩ := List.mem_filterMap.mp hstored
    refine ⟨?_, not_hasRecord_of_deletion hs (of_decide_eq_true hdelete)⟩
    have horigin := hs.valid.ledger f hf
    cases f with
    | stored origin queue id =>
      obtain rfl := Option.some.inj hstoring
      exact horigin
    | _ => cases hstoring

theorem handle (h : Erased erased s) (hfit : s.RecordsFit e) : Erased (s.erasedBy erased e) (s.handle e) := by
  by_cases hrestart : e = .restart
  · subst hrestart
    exact restart h.regular
  · have hrun := (enacts_handle stable_true hfit (fun _ _ => trivial) hrestart).run h.regular
    have hgrows : ∀ {r : Ref}, r < s.heap.size → r < (s.handle e).heap.size := fun hr => (h.regular.origin_run hrun hr).1
    rw [erasedBy_of_ne hrestart]
    refine ⟨h.regular.run hrun, h.attributed.run h.regular hrun, fun p hp => ?_, fun p hp => ?_⟩
    · rcases List.mem_append.mp hp with hp | hp
      · exact hgrows (h.there p hp)
      · exact hgrows (of_erases h.regular h.attributed hp).1
    · rcases List.mem_append.mp hp with hp | hp
      · exact fun hrec => h.unrecorded p hp (h.regular.hasRecord_run hrun (h.there p hp) hrec)
      · exact (of_erases h.regular h.attributed hp).2

theorem run {events : List Event} (h : Erased erased s) (hok : EventsOk RecordsFit s events) :
    Erased (s.erasures erased events) (s.run events) := by
  induction events generalizing s erased with
  | nil => exact h
  | cons e events ih => exact ih (h.handle hok.1) hok.2

end Erased

/-! ### The log over a step -/

theorem Effect.keeps_message {op : VHostOp} (h : Effect s s' op) {m : StoredMessage} (hm : m ∈ s.logged.messages) :
    m ∈ s'.logged.messages ∨ ∃ ifUnused ifEmpty, op = .deleteQueue m.queue_name ifUnused ifEmpty := by
  cases h with
  | idle _ _ hst => exact .inl (logged_of_store hst ▸ hm)
  | declareExchange _ hlog => exact .inl ((hlog.messages m).mpr ⟨hm, Bool.and_false _⟩)
  | deleteExchange _ hlog => exact .inl ((hlog.messages m).mpr ⟨hm, rfl⟩)
  | declareQueue _ _ _ _ hlog => exact .inl ((hlog.messages m).mpr ⟨hm, Bool.and_false _⟩)
  | @deleteQueue deleted ifUnused ifEmpty hlog =>
    by_cases hname : m.queue_name = deleted
    · exact .inr ⟨ifUnused, ifEmpty, by rw [hname]⟩
    · exact .inl ((hlog.messages m).mpr ⟨hm, decide_eq_false hname⟩)
  | bindQueue _ _ hlog => exact .inl ((hlog.messages m).mpr ⟨hm, rfl⟩)
  | unbindQueue hlog => exact .inl ((hlog.messages m).mpr ⟨hm, rfl⟩)

theorem persistAck_keeps_message (hs : Regular s) {m : StoredMessage} (hm : m ∈ s.logged.messages) :
    m ∈ (s.persistAck u).logged.messages ∨
      (s.WritesAck u ∧ m.queue_name = u.queue_name ∧ m.id = (s.message u.message).wal_id) := by
  by_cases hack : s.WritesAck u
  · rw [mem_persistAck hs hack]
    exact (Classical.em _).symm.imp (fun hnot => ⟨hm, hnot⟩) fun hnamed => ⟨hack, hnamed⟩
  · refine .inl ?_
    rwa [logged_of_store (store_persistAck_of_not hack)]

/-- A step takes a record out if it acks or deletes the queue, and in no other way. --/
theorem record_of_step (hs : Regular s) (hstep : BrokerStep Settles s s') {m : StoredMessage} (hm : m ∈ s.logged.messages) :
    m ∈ s'.logged.messages ∨
      (∃ u, s' = s.persistAck u ∧ s.WritesAck u ∧ m.queue_name = u.queue_name ∧ m.id = (s.message u.message).wal_id) ∨
      ∃ ifUnused ifEmpty, s' = s.perform (.deleteQueue m.queue_name ifUnused ifEmpty) := by
  cases hstep with
  | @op op hshort hrestart =>
    by_cases hend : ∃ c, op = .removeConnectionQueues c
    · obtain ⟨c, rfl⟩ := hend
      have hstore : (s.perform (.removeConnectionQueues c)).store = s.store := (removeConnectionQueues_spec c).1
      exact .inl (by rwa [logged_of_store hstore])
    · have heff := effect_perform hs.tidy.journaled hshort (fun c hc => hend ⟨c, hc⟩) hrestart
      refine (heff.keeps_message hm).imp_right fun hdelete => .inr ?_
      obtain ⟨ifUnused, ifEmpty, rfl⟩ := hdelete
      exact ⟨ifUnused, ifEmpty, rfl⟩
  | @settle u hu hok => exact (persistAck_keeps_message hs hm).imp_right fun hack => .inl ⟨u, rfl, hack⟩
  | @traffic _ c k hk hm' =>
    have htraffic := traffic_of_unsettled hk
    refine .inl ?_
    rcases store_of_move hm' htraffic with hnot | ⟨name, msg, hw, hfit, rfl⟩
    · have hstore : k ≠ .store := fun heq => hnot (heq ▸ List.mem_cons_self)
      have hsettle : k ≠ .settle := of_decide_eq_true (List.mem_filter.mp hk).2
      rwa [hs.tidy.journaled.messages_eq_move hm' htraffic hstore hsettle]
    · have hmsg : (s.newMessage msg).message s.heap.size = msg := by rw [message, newMessage, Heap.cell_alloc_self]
      obtain ⟨st, hst, hwhole⟩ := hs.tidy.journaled
      rw [logged_storeMessage (s := s.newMessage msg) hst hwhole (by rwa [hmsg]) (by rwa [hmsg])]
      exact List.mem_append_left _ hm

/-! ### Removed messages -/

/-- A removed message is not put back into its queue by a new process if it has no record for that queue, or if its record
    was taken out by a deletion of the queue or by an ack. Every step keeps every record, unless it is the ack that names
    the record or the deletion of its queue: no removal takes one out. --/
theorem removed_not_put_back {userStore : UserStore} {clock : Nat → Int} {readings : Nat} {events : List Event}
    (hok : EventsOk RecordsFit (start (some {}) userStore clock readings) events)
    (hs : s = (start (some {}) userStore clock readings).run events) :
    (∀ o name, .removed o name ∈ s.ledger →
      (o, name) ∉ s.ledger.filterMap Fact.storing? ∨
        (o, name) ∈ (start (some {}) userStore clock readings).erasures [] events → ¬s.PutBack o name) ∧
      ∀ s', BrokerStep (fun _ _ => True) s s' → ∀ m ∈ s.logged.messages, m ∈ s'.logged.messages ∨
        (∃ u, s' = s.persistAck u ∧ s.WritesAck u ∧ m.queue_name = u.queue_name ∧ m.id = (s.message u.message).wal_id) ∨
        ∃ ifUnused ifEmpty, s' = s.perform (.deleteQueue m.queue_name ifUnused ifEmpty) := by
  have herased : Erased ((start (some {}) userStore clock readings).erasures [] events) s := by
    rw [hs]
    exact Erased.run ⟨.start, attributed_start _ _ _ _, List.forall_mem_nil _, List.forall_mem_nil _⟩ hok
  refine ⟨fun o name _ hcond hback => ?_, fun s' hstep m hm => record_of_step herased.regular hstep hm⟩
  have hrec := hasRecord_of_putBack hback
  rcases hcond with hunstored | herase
  · obtain ⟨m, -, -, howner⟩ := hrec
    exact hunstored (List.mem_filterMap.mpr ⟨_, stored_of_ownerOf howner, rfl⟩)
  · exact herased.unrecorded _ herase hrec

/-- A persistent message and one that is not are purged from a durable queue. The queue is deleted and declared again, and
    another persistent message is published to it. --/
def deletedRun : List Event :=
  storedRun [] ++ Client.sendToQueue 1 1 (ascii "q") (ascii "b") {} ++
    [Client.purgeQueue 1 1 (ascii "q"), Client.deleteQueue 1 1 (ascii "q") false false,
      Client.assertQueue 1 1 (ascii "q") false true false false []] ++
    Client.sendToQueue 1 1 (ascii "q") (ascii "c") { delivery_mode := some 2 }

theorem removed_not_put_back_deleted :
    (∀ o ∈ [0, 1], .removed o (ascii "q") ∈ (freshServer.run deletedRun).ledger ∧
      ¬(freshServer.run deletedRun).PutBack o (ascii "q")) ∧ (freshServer.run deletedRun).PutBack 2 (ascii "q") := by
  have hfit : EventsOk RecordsFit freshServer deletedRun := by decide +kernel
  have hnot := (removed_not_put_back hfit rfl).1
  refine ⟨fun o ho => ?_, by decide +kernel⟩
  rcases List.mem_pair.mp ho with rfl | rfl
  · exact ⟨by decide +kernel, hnot 0 _ (by decide +kernel) (.inr (by decide +kernel))⟩
  · exact ⟨by decide +kernel, hnot 1 _ (by decide +kernel) (.inl (by decide +kernel))⟩

/-- A persistent message in a durable queue is purged, taken by a `basic.get` that needs no ack, or delivered to a consumer
    that needs none, or it expires. --/
def removalRuns : List (List Event) :=
  [storedRun [] ++ [Client.purgeQueue 1 1 (ascii "q")], storedRun [] ++ [Client.get 1 1 (ascii "q") true],
    storedRun [] ++ [Client.consume 1 1 (ascii "q") (ascii "k") false true false, .runTask 1],
    storedRun [(ascii "x-message-ttl", .longInt 0)]]

theorem removed_put_back : removalRuns.Forall fun events =>
    .removed 0 (ascii "q") ∈ (freshServer.run events).ledger ∧ (freshServer.run events).PutBack 0 (ascii "q") := by
  decide +kernel

end AmqpServer
end Broko.Broker
