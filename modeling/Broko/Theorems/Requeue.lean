import Broko.Broker.Journal
import Broko.Theorems.Disconnect
import Broko.Theorems.Dispatch
import Broko.Theorems.Requests

/-! Messages that go back to their queues. A requeued message is put in front and dispatched: it is in the queue then, or
    it was handed to a consumer. `basic.recover` without its flag does not put anything back. -/

namespace Broko.Broker
open Amqp Storage

namespace AmqpServer

variable {c : Nat} {num : UInt16} {s s' : AmqpServer} {name name' : Bytes} {q : MessageQueue} {r m : Ref}

/-! ### Other queues -/

theorem queue_modifyQueue_of_ne (h : name ≠ name') (f : MessageQueue → MessageQueue) :
    (s.modifyQueue name' f).queue name = s.queue name := Assoc.lookup_modify_of_ne h

theorem queue_handOver_of_ne (h : name ≠ name') (k head : Ref) (idx : Nat) :
    (s.handOver name' k head idx).queue name = s.queue name := by
  rw [handOver, queue_onDeliver]
  split
  · exact queue_modifyQueue_of_ne h _
  · exact queue_modifyQueue_of_ne h _

theorem queue_dispatchLoop_of_ne (h : name ≠ name') (turns : Nat) (s : AmqpServer) :
    (dispatchLoop name' turns s).queue name = s.queue name := by
  induction turns generalizing s with
  | zero => rfl
  | succ turns ih =>
    rw [dispatchLoop]
    split
    · rfl
    · split
      · rfl
      · split
        · exact queue_modifyQueue_of_ne h _
        · exact (ih _).trans (queue_handOver_of_ne h ..)

theorem queue_dispatchLocked_of_ne (h : name ≠ name') : (s.dispatchLocked name').queue name = s.queue name := by
  rw [dispatchLocked]
  split
  · rfl
  · split
    · rfl
    · exact queue_dispatchLoop_of_ne h ..

theorem queue_requeue_of_ne (h : name ≠ name') (r : Ref) : (s.reject name' true r).queue name = s.queue name := by
  rw [reject, if_pos rfl, queue_dispatchLocked_of_ne h, queue_modifyQueue_of_ne h]
  rfl

/-! ### One message -/

/-- The message is ready in the queue. --/
def Present (s : AmqpServer) (name : Bytes) (m : Ref) : Prop := ∃ q, s.queue name = some q ∧ m ∈ q.messages

/-- What was in the queue, and what is put back, is there or handed out. --/
theorem present_requeue (hq : s.queue name = some q) (h : m = r ∨ m ∈ q.messages) :
    (s.reject name true r).Present name m ∨ ∃ x ∈ s.handoversOf name (.requeue r), x.message = m := by
  obtain ⟨rest, hrest, hsplit⟩ := deque_locked hq (.requeue r)
  obtain ⟨q', hq', heq⟩ := Option.map_eq_some_iff.mp hrest
  obtain ⟨rfl, -⟩ := Prod.mk.inj heq
  have hmem : m ∈ s.taken name (.requeue r) ++ q'.messages := by
    rw [hsplit]
    exact List.mem_cons.mpr h
  rcases List.mem_append.mp hmem with hout | hleft
  · right
    exact List.mem_map.mp hout
  · exact .inl ⟨q', hq', hleft⟩

theorem handedIn_append (L L' : List MessageEvent) : handedIn (L ++ L') = handedIn L ++ handedIn L' := List.filterMap_append

theorem handedIn_dispatchJournal (name : Bytes) (s : AmqpServer) (op : QueueOp) :
    handedIn (dispatchJournal name s op) = s.handoversOf name op := by
  rw [handedIn, dispatchJournal, List.filterMap_map]
  exact List.filterMap_some

theorem handedIn_rejectIfThere {u : UnackedMessage} (hthere : (s.queue u.queue_name).isSome) :
    handedIn (s.rejectIfThereJournal true u) = s.handoversOf u.queue_name (.requeue u.message) := by
  obtain ⟨q, hq⟩ := Option.isSome_iff_exists.mp hthere
  rw [rejectIfThereJournal, hq]
  exact handedIn_dispatchJournal ..

/-- What happens when the messages of a table go back one after the other. --/
def requeueJournal (s : AmqpServer) (us : List UnackedMessage) : List MessageEvent :=
  Prefix.trace (rejectIfThere · true ·) (rejectIfThereJournal · true ·) s us

theorem requeueJournal_cons (s : AmqpServer) (u : UnackedMessage) (us : List UnackedMessage) :
    s.requeueJournal (u :: us) = s.rejectIfThereJournal true u ++ (s.rejectIfThere true u).requeueJournal us := rfl

theorem present_rejectIfThere {u : UnackedMessage} (hthere : (s.queue u.queue_name).isSome)
    (h : s.Present name m ∨ u.queue_name = name ∧ u.message = m) :
    (s.rejectIfThere true u).Present name m ∨ ∃ x ∈ s.handoversOf u.queue_name (.requeue u.message), x.message = m := by
  obtain ⟨q, hq⟩ := Option.isSome_iff_exists.mp hthere
  have hreject : s.rejectIfThere true u = s.reject u.queue_name true u.message := by rw [rejectIfThere, hq]
  rw [hreject]
  rcases h with ⟨q', hq', hm⟩ | ⟨rfl, rfl⟩
  · by_cases hname : name = u.queue_name
    · subst hname
      obtain rfl := Option.some.inj (hq.symm.trans hq')
      exact present_requeue hq (.inr hm)
    · exact .inl ⟨q', (queue_requeue_of_ne hname _).trans hq', hm⟩
  · exact present_requeue hq (.inl rfl)

theorem present_requeueAll (us : List UnackedMessage) (s : AmqpServer) (hthere : ∀ u ∈ us, (s.queue u.queue_name).isSome)
    (h : s.Present name m ∨ ∃ u ∈ us, u.queue_name = name ∧ u.message = m) :
    (us.foldl (rejectIfThere · true ·) s).Present name m ∨ ∃ x ∈ handedIn (s.requeueJournal us), x.message = m := by
  induction us generalizing s with
  | nil =>
    rcases h with h | ⟨u, hu, -⟩
    · exact .inl h
    · cases hu
  | cons u us ih =>
    have hthis := hthere u List.mem_cons_self
    have hskeleton := (Removes.of_skeleton (skeleton_rejectIfThere (s := s) true u)).isSome_queue
    have hrest : ∀ u' ∈ us, ((s.rejectIfThere true u).queue u'.queue_name).isSome := fun u' hu' => by
      rw [hskeleton]
      exact hthere u' (List.mem_cons_of_mem _ hu')
    rw [requeueJournal_cons, handedIn_append, handedIn_rejectIfThere hthis, List.foldl_cons]
    have hlater : ∀ {s₁ : AmqpServer},
        (s₁.Present name m ∨ ∃ x ∈ handedIn ((s.rejectIfThere true u).requeueJournal us), x.message = m) →
        s₁.Present name m ∨ ∃ x ∈ s.handoversOf u.queue_name (.requeue u.message) ++
          handedIn ((s.rejectIfThere true u).requeueJournal us), x.message = m := by
      intro s₁ h
      exact h.imp_right fun ⟨x, hx, hm⟩ => ⟨x, List.mem_append_right _ hx, hm⟩
    have hnow : s.Present name m ∨ u.queue_name = name ∧ u.message = m →
        _ ∨ ∃ x ∈ s.handoversOf u.queue_name (.requeue u.message), x.message = m := present_rejectIfThere hthis
    rcases h with h | ⟨u', hu', hm⟩
    · rcases hnow (.inl h) with h | ⟨x, hx, hm⟩
      · exact hlater (ih _ hrest (.inl h))
      · exact .inr ⟨x, List.mem_append_left _ hx, hm⟩
    · rcases List.mem_cons.mp hu' with rfl | hu'
      · rcases hnow (.inr hm) with h | ⟨x, hx, hm⟩
        · exact hlater (ih _ hrest (.inl h))
        · exact .inr ⟨x, List.mem_append_left _ hx, hm⟩
      · exact hlater (ih _ hrest (.inr ⟨u', hu', hm⟩))

/-! ### basic.recover -/

/-- A message of the table is in its queue again, was handed out again, or is still held. --/
def Accounted (c : Nat) (num : UInt16) (s' : AmqpServer) (handed : List Handover) (u : UnackedMessage) : Prop :=
  s'.Present u.queue_name u.message ∨ (∃ x ∈ handed, x.message = u.message) ∨
    ∃ u' ∈ s'.unacked c num, u'.message = u.message

theorem handleBasicRecover_eq {buf rest : Buffer} {bits : UInt8} (hread : readUint8 buf = .ok (bits, rest)) :
    outcome (s.handleBasicRecover c num buf) =
      ((if hasBit bits 0x01 then (s.unacked c num).foldl (rejectIfThere · true ·) s else s).clearUnacked c num).sendMethodFrame
        c num class_id.BASIC basic_method.RECOVER_OK [] := by
  rw [handleBasicRecover, withArgs_ok hread]
  rfl

theorem handleBasicRecoverJournal_eq {buf rest : Buffer} {bits : UInt8} (hread : readUint8 buf = .ok (bits, rest)) :
    s.handleBasicRecoverJournal c num buf = if hasBit bits 0x01 then s.requeueJournal (s.unacked c num) else [] := by
  rw [handleBasicRecoverJournal, argsJournal, hread]
  rfl

theorem unacked_clearUnacked (s : AmqpServer) : (s.clearUnacked c num).unacked c num = [] := by
  rw [unacked, clearUnacked, channel_modifyChannel_self]
  cases s.channel c num <;> rfl

theorem unacked_handleBasicRecover {buf rest : Buffer} {bits : UInt8} (hread : readUint8 buf = .ok (bits, rest)) :
    (outcome (s.handleBasicRecover c num buf)).unacked c num = [] := by
  rw [handleBasicRecover_eq hread, unacked, channel_of_skeleton (skeleton_sendMethodFrame ..), ← unacked,
    unacked_clearUnacked]

/-- With the flag every message is in its queue or handed out. --/
theorem kept_of_requeue {buf rest : Buffer} {bits : UInt8} (hread : readUint8 buf = .ok (bits, rest))
    (hbit : hasBit bits 0x01 = true) (hthere : ∀ u ∈ s.unacked c num, (s.queue u.queue_name).isSome) :
    ∀ u ∈ s.unacked c num, Accounted c num (outcome (s.handleBasicRecover c num buf))
      (handedIn (s.handleBasicRecoverJournal c num buf)) u := by
  intro u hu
  rw [handleBasicRecover_eq hread, handleBasicRecoverJournal_eq hread, if_pos hbit, if_pos hbit]
  rcases present_requeueAll (s.unacked c num) s hthere (.inr ⟨u, hu, rfl, rfl⟩) with hin | hout
  · exact .inl hin
  · exact .inr (.inl hout)

/-- Without it a message is kept exactly if it is in its queue anyway. --/
theorem kept_iff_present {buf rest : Buffer} {bits : UInt8} (hread : readUint8 buf = .ok (bits, rest))
    (hbit : hasBit bits 0x01 = false) (u : UnackedMessage) :
    Accounted c num (outcome (s.handleBasicRecover c num buf))
      (handedIn (s.handleBasicRecoverJournal c num buf)) u ↔
      s.Present u.queue_name u.message := by
  have hqueue : (outcome (s.handleBasicRecover c num buf)).queue u.queue_name = s.queue u.queue_name := by
    rw [handleBasicRecover_eq hread, hbit]
    rfl
  rw [Accounted, unacked_handleBasicRecover hread, handleBasicRecoverJournal_eq hread, hbit, Present, hqueue, ← Present]
  constructor
  · rintro (h | ⟨x, hx, -⟩ | ⟨u', hu', -⟩)
    · exact h
    · cases hx
    · cases hu'
  · exact .inl

/-- After `basic.recover` every message that was unacked is in its queue, handed out again or still held, exactly if the
    client asks for a requeue or the messages were in their queues before. --/
theorem recover_keeps_iff {buf rest : Buffer} {bits : UInt8} (hread : readUint8 buf = .ok (bits, rest))
    (hthere : ∀ u ∈ s.unacked c num, (s.queue u.queue_name).isSome) :
    (∀ u ∈ s.unacked c num, Accounted c num (outcome (s.handleBasicRecover c num buf))
      (handedIn (s.handleBasicRecoverJournal c num buf)) u) ↔
      hasBit bits 0x01 = true ∨ ∀ u ∈ s.unacked c num, s.Present u.queue_name u.message := by
  constructor
  · intro hkept
    cases hbit : hasBit bits 0x01 with
    | true => exact .inl rfl
    | false => exact .inr fun u hu => (kept_iff_present hread hbit u).mp (hkept u hu)
  · intro h u hu
    cases hbit : hasBit bits 0x01 with
    | true => exact kept_of_requeue hread hbit hthere u hu
    | false =>
      rcases h with h | h
      · rw [hbit] at h
        cases h
      · exact (kept_iff_present hread hbit u).mpr (h u hu)

/-- A channel holds the only message of a queue. --/
def heldServer : AmqpServer :=
  freshServer.run (Client.connect 1 ++ [Client.openChannel 1 1, Client.assertQueue 1 1 (ascii "q") false false false false []] ++
    Client.sendToQueue 1 1 (ascii "q") (ascii "a") {} ++ [Client.get 1 1 (ascii "q") false])

theorem unacked_heldServer : ∀ u ∈ heldServer.unacked 1 1, (heldServer.queue u.queue_name).isSome := by decide +kernel

theorem recover_keeps_held :
    (∀ u ∈ heldServer.unacked 1 1,
        Accounted 1 1 (outcome (heldServer.handleBasicRecover 1 1 (Buffer.ofBytes [1])))
          (handedIn (heldServer.handleBasicRecoverJournal 1 1 (Buffer.ofBytes [1]))) u) ↔
      hasBit 1 0x01 = true ∨ ∀ u ∈ heldServer.unacked 1 1, heldServer.Present u.queue_name u.message := by
  have hread : readUint8 (Buffer.ofBytes [1]) = .ok (1, ⟨1, []⟩) := rfl
  exact recover_keeps_iff hread unacked_heldServer

/-- Without the flag the message is gone. --/
theorem recover_discards : (∀ u ∈ heldServer.unacked 1 1, (heldServer.queue u.queue_name).isSome) ∧
    ¬∀ u ∈ heldServer.unacked 1 1,
      Accounted 1 1 (outcome (heldServer.handleBasicRecover 1 1 (Buffer.ofBytes [0])))
          (handedIn (heldServer.handleBasicRecoverJournal 1 1 (Buffer.ofBytes [0]))) u := by
  refine ⟨unacked_heldServer, fun hkept => ?_⟩
  have hread : readUint8 (Buffer.ofBytes [0]) = .ok (0, ⟨1, []⟩) := rfl
  have hheld : (heldServer.unacked 1 1).map UnackedMessage.queue_name = [ascii "q"] := by decide +kernel
  have hempty : (heldServer.queue (ascii "q")).map MessageQueue.messages = some [] := by decide +kernel
  have hmem : ascii "q" ∈ (heldServer.unacked 1 1).map UnackedMessage.queue_name := hheld ▸ List.mem_cons_self
  obtain ⟨u, hu, hname⟩ := List.mem_map.mp hmem
  obtain ⟨q, hq, hm⟩ := (kept_iff_present hread rfl u).mp (hkept u hu)
  rw [← hname, hq] at hempty
  rw [Option.some.inj hempty] at hm
  cases hm

end AmqpServer
end Broko.Broker
