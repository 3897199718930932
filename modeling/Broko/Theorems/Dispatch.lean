import Broko.Lib.Rotation
import Broko.Theorems.QueueOrder

/-! Dispatch. The loop over the consumers goes round all of them once, so that a round that finds no receiver proves that
    there is none; the loop over the messages ends with such a round or with an empty queue. -/

namespace Broko.Broker
open Amqp Storage

namespace AmqpServer

variable {name : Bytes} {s s' : AmqpServer} {q : MessageQueue} {ok : Ref → Bool} {l : List Ref} {k : Ref}
  {attempts i idx : Nat}

/-! ### One round -/

theorem pickConsumer_some (h : pickConsumer ok l attempts i = (some k, idx)) :
    ∃ d, Rotation.Serves l ok i k d ∧ idx = i + d + 1 := by
  induction attempts generalizing i with
  | zero => cases h
  | succ attempts ih =>
    rw [pickConsumer] at h
    split at h
    · cases h
    · rename_i k' hk'
      split at h
      · rename_i hfit
        cases h
        exact ⟨0, ⟨hk', hfit, fun d hd => absurd hd (Nat.not_lt_zero d)⟩, rfl⟩
      · rename_i hfit
        obtain ⟨d, hserves, rfl⟩ := ih h
        refine ⟨d + 1, ⟨?_, hserves.fit, fun d' hd' k₁ hk₁ => ?_⟩, by omega⟩
        · rw [Nat.add_comm d, ← Nat.add_assoc]
          exact hserves.place
        · cases d' with
          | zero =>
            rw [Nat.add_zero, hk'] at hk₁
            exact Option.some.inj hk₁ ▸ Bool.eq_false_of_not_eq_true hfit
          | succ d' =>
            rw [Nat.add_comm d', ← Nat.add_assoc] at hk₁
            exact hserves.passed d' (Nat.lt_of_succ_lt_succ hd') k₁ hk₁

theorem pickConsumer_none (hl : l ≠ []) (h : pickConsumer ok l attempts i = (none, idx)) :
    idx = i + attempts ∧ ∀ d < attempts, ∀ k, l[(i + d) % l.length]? = some k → ok k = false := by
  induction attempts generalizing i with
  | zero =>
    cases h
    exact ⟨rfl, nofun⟩
  | succ attempts ih =>
    rw [pickConsumer] at h
    split at h
    · rename_i hnone
      have hlt := Nat.mod_lt i (List.length_pos_iff.mpr hl)
      exact absurd hlt (Nat.not_lt.mpr (List.getElem?_eq_none_iff.mp hnone))
    · rename_i k' hk'
      split at h
      · cases h
      · rename_i hfit
        obtain ⟨rfl, hpassed⟩ := ih h
        refine ⟨by omega, fun d hd k hk => ?_⟩
        cases d with
        | zero =>
          rw [Nat.add_zero, hk'] at hk
          exact Option.some.inj hk ▸ Bool.eq_false_of_not_eq_true hfit
        | succ d =>
          rw [Nat.add_comm d, ← Nat.add_assoc] at hk
          exact hpassed d (Nat.lt_of_succ_lt_succ hd) k hk

/-- A whole round that finds nobody has asked everybody. --/
theorem pickConsumer_round (h : pickConsumer ok l l.length i = (none, idx)) : ∀ k ∈ l, ok k = false := by
  intro k hk
  obtain ⟨b, hlt, hb⟩ := List.getElem_of_mem hk
  refine (pickConsumer_none (List.ne_nil_of_mem hk) h).2 (Rotation.distance l.length i b)
    (Rotation.distance_lt (Nat.zero_lt_of_lt hlt)) k ?_
  rw [Rotation.add_distance hlt, List.getElem?_eq_getElem hlt, hb]

/-! ### The loop -/

/-- What `on_deliver` posts to the connection for a message that is handed out. --/
def Handover.posts (c : Nat) (x : Handover) : List DeliverTask :=
  match (x.state.consumer x.consumer).on_deliver with
  | none => []
  | some f =>
    let m := x.state.message x.message
    if f.connection = c then
      [{ channel_id := f.channel_id, channel := f.channel, tag := (x.state.consumer x.consumer).tag, exchange := m.exchange,
          routingKey := m.routing_key, redelivered := m.redelivered, props := m.properties, body := m.body, queue := f.queue,
          msg := x.state.heap.size }]
    else []

/-- The deliveries that are posted to a connection, if there is one. --/
def postedTo (c : Nat) (s : AmqpServer) : Option (List DeliverTask) := (s.connection c).map Connection.strand

theorem postedTo_handOver (c : Nat) (k head : Ref) (idx : Nat) :
    postedTo c (s.handOver name k head idx) = (postedTo c s).map fun l => l ++ Handover.posts c ⟨s, head, k⟩ := by
  have hdeliver : ∀ s₁ : AmqpServer, s₁.connections = s.connections → s₁.heap = s.heap →
      (s₁.consumer k).on_deliver = (s.consumer k).on_deliver → (s₁.consumer k).tag = (s.consumer k).tag →
      postedTo c (s₁.onDeliver k head) = (postedTo c s).map fun l => l ++ Handover.posts c ⟨s, head, k⟩ := by
    intro s₁ hconns hheap hk htag
    rw [onDeliver, hk, Handover.posts]
    cases (s.consumer k).on_deliver with
    | none =>
      simp only [List.append_nil, Option.map_id']
      rw [postedTo, connection, hconns]
      rfl
    | some f =>
      dsimp only
      have hmsg : s₁.message head = s.message head := by rw [message, hheap, ← message]
      have hsame : ∀ m, (s₁.newDelivery head m).connections = s.connections := fun _ => hconns
      rw [postedTo, connection, modifyConnection, hsame, Assoc.lookup_modify, postedTo, hmsg, htag, hheap]
      by_cases hc : c = f.connection
      · rw [if_pos hc, if_pos hc.symm, hc, connection]
        cases s.connections.lookup f.connection <;> rfl
      · rw [if_neg hc, if_neg (Ne.symm hc)]
        simp only [List.append_nil, Option.map_id']
        rfl
  rw [handOver]
  split
  · exact hdeliver _ rfl rfl rfl rfl
  · refine hdeliver _ rfl rfl ?_ ?_
    · rw [consumer, modifyConsumer, Heap.cell_modify_self]
      rfl
    · rw [consumer, modifyConsumer, Heap.cell_modify_self]
      rfl

/-- The hand-overs of a dispatch are the calls of `on_deliver`: each posts its delivery, and nothing else is posted. --/
theorem postedTo_dispatchLoop (c : Nat) (turns : Nat) (s : AmqpServer) :
    postedTo c (dispatchLoop name turns s) =
      (postedTo c s).map fun l => l ++ (handoversLoop name turns s).flatMap (Handover.posts c) := by
  have hnone : ∀ s : AmqpServer, postedTo c s = (postedTo c s).map fun l => l ++ [] := fun s => by
    simp only [List.append_nil, Option.map_id']
  induction turns generalizing s with
  | zero => exact hnone s
  | succ turns ih =>
    rw [dispatchLoop, handoversLoop]
    cases s.queue name with
    | none => exact hnone s
    | some q =>
      dsimp only
      cases q.messages with
      | nil => exact hnone s
      | cons head rest =>
        dsimp only
        rcases pickConsumer (s.eligible head) q.consumers q.consumers.length q.roundRobinIdx with ⟨_ | k, idx⟩
        · exact hnone s
        · dsimp only
          rw [ih, postedTo_handOver, Option.map_map]
          refine congrArg (fun f => (postedTo c s).map f) (funext fun l => ?_)
          rw [Function.comp_apply, List.append_assoc, List.flatMap_cons]

theorem postedTo_dispatchLocked (c : Nat) (s : AmqpServer) :
    postedTo c (s.dispatchLocked name) = (postedTo c s).map fun l => l ++ (s.handovers name).flatMap (Handover.posts c) := by
  have hnone : postedTo c s = (postedTo c s).map fun l => l ++ [] := by simp only [List.append_nil, Option.map_id']
  rw [dispatchLocked, handovers]
  cases s.queue name with
  | none => exact hnone
  | some q =>
    dsimp only
    split
    · exact hnone
    · exact postedTo_dispatchLoop c _ s

/-- A consumer that gets no message like this one: without callback, with its credit used up, or not to be sent what comes
    from its own connection. --/
def Unfit (s : AmqpServer) (head k : Ref) : Prop :=
  (s.consumer k).on_deliver = none ∨
    (0 < (s.consumer k).prefetch_count ∧ (s.consumer k).prefetch_count.toNat ≤ (s.consumer k).in_flight.toNat) ∨
    ((s.consumer k).no_local = true ∧ idOf (s.message head).source_connection_id = idOf (s.consumer k).connection_id)

theorem unfit_of_eligible {head : Ref} (h : s.eligible head k = false) : s.Unfit head k := by
  rw [eligible, Bool.and_eq_false_iff, Bool.and_eq_false_iff, Bool.not_eq_false', Bool.not_eq_false', Bool.and_eq_true,
    Bool.and_eq_true, decide_eq_true_eq, decide_eq_true_eq, decide_eq_true_eq, Option.isSome_eq_false_iff,
    Option.isNone_iff_eq_none, or_assoc] at h
  exact h

/-- The loop takes no more turns than there are messages. --/
theorem dispatchLoop_turns (hq : s.queue name = some q) {turns : Nat} (h : q.messages.length ≤ turns) :
    dispatchLoop name turns s = dispatchLoop name q.messages.length s := by
  induction turns generalizing s q with
  | zero => rw [Nat.le_zero.mp h]
  | succ turns ih =>
    cases hm : q.messages with
    | nil =>
      rw [dispatchLoop, hq]
      dsimp only
      rw [hm]
      rfl
    | cons head rest =>
      rw [List.length_cons, dispatchLoop, dispatchLoop, hq]
      dsimp only
      rw [hm]
      dsimp only
      cases hpick : pickConsumer (s.eligible head) q.consumers q.consumers.length q.roundRobinIdx with
      | mk receiver idx =>
        cases receiver with
        | none => rfl
        | some k =>
          have hnext := queue_handOver hq k head idx
          rw [hm, List.length_cons] at h
          have hlen := ih hnext (by rw [hm]; exact Nat.le_of_succ_le_succ h)
          rw [hm] at hlen
          exact hlen

/-- With enough turns the loop ends where no message can be handed out. --/
theorem conserving_dispatchLoop (hq : s.queue name = some q) {turns : Nat} (h : q.messages.length ≤ turns) :
    ∃ q', (dispatchLoop name turns s).queue name = some q' ∧ q'.consumers = q.consumers ∧
      (q'.messages = [] ∨ ∃ head rest, q'.messages = head :: rest ∧
        ∀ k ∈ q'.consumers, (dispatchLoop name turns s).eligible head k = false) := by
  induction turns generalizing s q with
  | zero => exact ⟨q, hq, rfl, .inl (List.length_eq_zero_iff.mp (Nat.le_zero.mp h))⟩
  | succ turns ih =>
    rw [dispatchLoop, hq]
    dsimp only
    cases hm : q.messages with
    | nil => exact ⟨q, hq, rfl, .inl hm⟩
    | cons head rest =>
      dsimp only
      cases hpick : pickConsumer (s.eligible head) q.consumers q.consumers.length q.roundRobinIdx with
      | mk receiver idx =>
        cases receiver with
        | none => exact ⟨_, queue_modifyQueue hq _, rfl, .inr ⟨head, rest, hm, pickConsumer_round hpick⟩⟩
        | some k =>
          rw [hm, List.length_cons] at h
          have hnext := ih (queue_handOver hq k head idx) (by rw [hm]; exact Nat.le_of_succ_le_succ h)
          exact hnext

/-- Dispatch ends, and it leaves a message in the queue only if no consumer can take the one at its head. --/
theorem work_conserving (hq : s.queue name = some q) :
    (∀ turns, q.messages.length ≤ turns → dispatchLoop name turns s = dispatchLoop name q.messages.length s) ∧
      ∃ q', (s.dispatchLocked name).queue name = some q' ∧ q'.consumers = q.consumers ∧
        (q'.messages = [] ∨ ∃ head rest, q'.messages = head :: rest ∧
          ∀ k ∈ q'.consumers, (s.dispatchLocked name).Unfit head k) := by
  refine ⟨fun turns h => dispatchLoop_turns hq h, ?_⟩
  rw [dispatchLocked, hq]
  dsimp only
  split
  · rename_i hnone
    refine ⟨q, hq, rfl, ?_⟩
    cases hm : q.messages with
    | nil => exact .inl rfl
    | cons head rest => exact .inr ⟨head, rest, rfl, by rw [hnone]; exact List.forall_mem_nil _⟩
  · obtain ⟨q', hq', hcons, hend⟩ := conserving_dispatchLoop hq le_rfl
    refine ⟨q', hq', hcons, hend.imp_right ?_⟩
    rintro ⟨head, rest, hm, hall⟩
    exact ⟨head, rest, hm, fun k hk => unfit_of_eligible (hall k hk)⟩

/-- A queue with two consumers. --/
def twoConsumers : List Event :=
  Client.connect 1 ++ [Client.openChannel 1 1, Client.assertQueue 1 1 (ascii "q") false false false false [],
    Client.consume 1 1 (ascii "q") (ascii "a") false false false,
    Client.consume 1 1 (ascii "q") (ascii "b") true false false]

/-- A message has just come into the queue. --/
def dispatchServer : AmqpServer := ((freshServer.run twoConsumers).newMessage {}).pushBack (ascii "q") 0

theorem work_conserving_two : ∃ q, dispatchServer.queue (ascii "q") = some q ∧ q.messages = [0] ∧
    (∀ turns, q.messages.length ≤ turns →
      dispatchLoop (ascii "q") turns dispatchServer = dispatchLoop (ascii "q") q.messages.length dispatchServer) ∧
    ∃ q', (dispatchServer.dispatchLocked (ascii "q")).queue (ascii "q") = some q' ∧ q'.consumers = q.consumers ∧
      (q'.messages = [] ∨ ∃ head rest, q'.messages = head :: rest ∧
        ∀ k ∈ q'.consumers, (dispatchServer.dispatchLocked (ascii "q")).Unfit head k) := by
  have hq : (dispatchServer.queue (ascii "q")).map MessageQueue.messages = some [0] := by decide +kernel
  obtain ⟨q, hq, hm⟩ := Option.map_eq_some_iff.mp hq
  exact ⟨q, hq, hm, work_conserving hq⟩

end AmqpServer
end Broko.Broker
