import Broko.Theorems.Dispatch
import Broko.Theorems.Registry

/-! Fairness of dispatch. The position of a queue's round robin is kept between the operations, and a round that finds no
    receiver ends at the place where it started; so the messages that a queue hands out are the turns of one rotation. -/

namespace Broko.Broker
open Amqp Storage MessageStore

namespace AmqpServer

variable {name : Bytes} {s s' : AmqpServer} {q : MessageQueue} {l : List Ref} {i : Nat} {store : Option MessageStore}
  {userStore : UserStore} {clock : Nat → Int} {readings : Nat}

/-- A handover as a turn: who could have taken the message, and who got it. --/
def Handover.turn (x : Handover) : (Ref → Bool) × Ref := (x.state.eligible x.message, x.consumer)

/-! ### The position -/

theorem rota_of_queue (hq : s.queue name = some q) : s.rota name = some (q.consumers, q.roundRobinIdx) := by
  rw [rota, hq]
  rfl

theorem rota_modifyQueue (hq : s.queue name = some q) (f : MessageQueue → MessageQueue) :
    (s.modifyQueue name f).rota name = some ((f q).consumers, (f q).roundRobinIdx) := rota_of_queue (queue_modifyQueue hq f)

theorem rota_modifyQueue_congr {f : MessageQueue → MessageQueue}
    (hf : ∀ q, (f q).consumers = q.consumers ∧ (f q).roundRobinIdx = q.roundRobinIdx) :
    (s.modifyQueue name f).rota name = s.rota name := by
  rw [rota, queue, modifyQueue, Assoc.lookup_modify_self, Option.map_map, rota]
  exact congrArg (Option.map · (s.queue name)) (funext fun q => Prod.ext (hf q).1 (hf q).2)

theorem rota_collectExpired : (s.collectExpired name).2.rota name = s.rota name := by
  rw [collectExpired]
  split
  · rfl
  · split
    · rfl
    · exact rota_modifyQueue_congr (s := s.readClock) fun _ => ⟨rfl, rfl⟩

theorem rota_pushBack (r : Ref) : (s.pushBack name r).rota name = s.rota name :=
  rota_modifyQueue_congr (s := s.readClock.modifyMessage r fun m => { m with enqueued_at := s.now }) fun _ => ⟨rfl, rfl⟩

/-! ### Turns -/

theorem run_dispatchLoop (hq : s.queue name = some q) (hne : q.consumers ≠ []) (turns : Nat) :
    ∃ j, (dispatchLoop name turns s).rota name = some (q.consumers, j) ∧
      Rotation.Run q.consumers q.roundRobinIdx ((handoversLoop name turns s).map Handover.turn) j := by
  induction turns generalizing s q with
  | zero => exact ⟨_, rota_of_queue hq, .nil⟩
  | succ turns ih =>
    rw [dispatchLoop, handoversLoop, hq]
    dsimp only
    cases hm : q.messages with
    | nil => exact ⟨_, rota_of_queue hq, .nil⟩
    | cons head rest =>
      dsimp only
      cases hpick : pickConsumer (s.eligible head) q.consumers q.consumers.length q.roundRobinIdx with
      | mk receiver idx =>
        cases receiver with
        | none =>
          -- the whole round was in vain
          obtain ⟨rfl, -⟩ := pickConsumer_none hne hpick
          exact ⟨q.roundRobinIdx + q.consumers.length, rota_modifyQueue hq _,
            Rotation.Run.nil.idle (Nat.add_mod_right ..)⟩
        | some k =>
          obtain ⟨d, hserves, rfl⟩ := pickConsumer_some hpick
          obtain ⟨j, hj, hrun⟩ := ih (queue_handOver hq k head _) hne
          exact ⟨j, hj, (Rotation.Run.nil.serve hserves).append hrun⟩

theorem run_dispatchLocked (h : s.rota name = some (l, i)) :
    ∃ j, (s.dispatchLocked name).rota name = some (l, j) ∧
      Rotation.Run l i ((s.handovers name).map Handover.turn) j := by
  obtain ⟨q, hq, heq⟩ := Option.map_eq_some_iff.mp h
  obtain ⟨rfl, rfl⟩ := Prod.mk.inj heq
  rw [dispatchLocked, handovers, hq]
  dsimp only
  split
  · exact ⟨_, rota_of_queue hq, .nil⟩
  · rename_i hne
    exact run_dispatchLoop hq hne _

theorem rota_removeConsumersByConnection (connId : Nat) (h : s.rota name = some (l, i)) :
    ∃ l', (s.removeConsumersByConnection name connId).rota name = some (l', i) := by
  have hfold : ∀ (l : List Ref) (s : AmqpServer),
      (l.foldl (fun s k => s.modifyConsumer k fun c => { c with on_deliver := none }) s).queue name = s.queue name :=
    fun l s => List.foldlRecOn (motive := fun s' : AmqpServer => s'.queue name = s.queue name) l _ rfl fun _ h _ _ => h
  obtain ⟨q, hq, heq⟩ := Option.map_eq_some_iff.mp h
  obtain ⟨rfl, rfl⟩ := Prod.mk.inj heq
  rw [removeConsumersByConnection, hq]
  dsimp only
  exact ⟨_, rota_modifyQueue ((hfold _ s).trans hq) _⟩

/-- An operation that leaves the list of consumers as it was. --/
theorem run_locked (h : s.rota name = some (l, i)) (op : QueueOp)
    (hl : ((s.locked name op).rota name).map Prod.fst = some l) :
    ∃ j, (s.locked name op).rota name = some (l, j) ∧
      Rotation.Run l i ((s.handoversOf name op).map Handover.turn) j := by
  obtain ⟨q, hq, heq⟩ := Option.map_eq_some_iff.mp h
  obtain ⟨rfl, rfl⟩ := Prod.mk.inj heq
  have hstays : ∀ {l'}, (s.locked name op).rota name = some (l', q.roundRobinIdx) →
      (s.locked name op).rota name = some (q.consumers, q.roundRobinIdx) := by
    intro l' h'
    rw [h'] at hl ⊢
    exact congrArg (fun l => some (l, q.roundRobinIdx)) (Option.some.inj hl)
  cases op with
  | enqueue r => exact run_dispatchLocked (rota_collectExpired.trans ((rota_pushBack r).trans h))
  | addConsumer k =>
    -- the list is longer now
    obtain ⟨j, hj, -⟩ := run_dispatchLocked (rota_modifyQueue hq fun q => { q with consumers := q.consumers ++ [k] })
    rw [locked, addConsumer, hj] at hl
    exact absurd (Option.some.inj hl) (by simp)
  | removeConsumer tag =>
    refine ⟨_, ?_, .nil⟩
    rw [locked, removeConsumer, hq] at hstays ⊢
    dsimp only at hstays ⊢
    cases hfind : q.consumers.find? fun k => (s.consumer k).tag = tag with
    | none => exact h
    | some k =>
      rw [hfind] at hstays
      exact hstays (rota_modifyQueue (s := s.modifyConsumer k _) hq _)
  | removeConsumersByConnection connId =>
    obtain ⟨l', hl'⟩ := rota_removeConsumersByConnection connId h
    exact ⟨_, hstays hl', .nil⟩
  | get =>
    have hpop : (s.locked name .get).rota name = (s.collectExpired name).2.rota name :=
      rota_modifyQueue_congr fun _ => ⟨rfl, rfl⟩
    exact ⟨_, hpop.trans (rota_collectExpired.trans h), .nil⟩
  | purge =>
    refine ⟨_, ?_, .nil⟩
    rw [locked, purge, hq]
    exact rota_modifyQueue hq _
  | requeue r =>
    exact run_dispatchLocked (rota_modifyQueue (s := s.modifyMessage r fun m => { m with redelivered := true }) hq fun q =>
      { q with messages := r :: q.messages })
  | flush => exact run_dispatchLocked (rota_collectExpired.trans h)

theorem RotaRun.nodup {log : List Handover} (hrun : RotaRun name l s log s') (hs : Registered s) : l.Nodup := by
  induction hrun with
  | nil h =>
    obtain ⟨x, hx, rfl⟩ := Option.map_eq_some_iff.mp h
    obtain ⟨q, hq, rfl⟩ := Option.map_eq_some_iff.mp hx
    exact (hs.queues name q hq).nodup
  | between _ _ ih => exact ih
  | op _ _ _ ih => exact ih

/-- The messages that a run hands out are turns of one rotation. --/
theorem RotaRun.rotates {log : List Handover} (hrun : RotaRun name l s log s') :
    ∃ i j, s'.rota name = some (l, j) ∧ Rotation.Run l i (log.map Handover.turn) j := by
  induction hrun with
  | nil h =>
    obtain ⟨⟨l', i⟩, hl', rfl⟩ := Option.map_eq_some_iff.mp h
    exact ⟨i, i, hl', .nil⟩
  | between _ h ih =>
    obtain ⟨i, j, hj, hturns⟩ := ih
    exact ⟨i, j, h.trans hj, hturns⟩
  | op _ o h ih =>
    obtain ⟨i, j, hj, hturns⟩ := ih
    obtain ⟨j', hj', hturns'⟩ := run_locked hj o h
    refine ⟨i, j', hj', ?_⟩
    rw [List.map_append]
    exact hturns.append hturns'

/-! ### Fairness -/

/-- Over a run in which the consumers of a queue stay the same, a consumer that could have taken every message that was
    handed out after one delivery to another consumer, up to the next one to it, got one of them; and if all of them can
    take every message, all of them get equally many, up to one. --/
theorem fair_rotation {events : List Event} {log : List Handover}
    (hrun : RotaRun name l ((start store userStore clock readings).run events) log s') :
    (∀ first x mid y last k, log = first ++ x :: mid ++ y :: last → x.consumer = y.consumer → k ∈ l → k ≠ x.consumer →
        (∀ z ∈ mid ++ [y], z.state.eligible z.message k = true) → ∃ z ∈ mid, z.consumer = k) ∧
      ((∀ z ∈ log, ∀ k ∈ l, z.state.eligible z.message k = true) → ∀ k ∈ l, ∀ k' ∈ l,
        (log.countP fun z => z.consumer = k) ≤ (log.countP fun z => z.consumer = k') + 1) := by
  obtain ⟨i, j, hj, hturns⟩ := hrun.rotates
  have hnd : l.Nodup := hrun.nodup (registered_run events)
  constructor
  · intro first x mid y last k hlog hxy hk hne hfit
    rw [hlog, List.map_append, List.map_append, List.map_cons, List.map_cons] at hturns
    obtain ⟨z, hz, hzk⟩ := hturns.fair hnd hxy hk hne fun z hz => by
      rw [← List.map_singleton, ← List.map_append] at hz
      obtain ⟨x, hx, rfl⟩ := List.mem_map.mp hz
      exact hfit x hx
    obtain ⟨x, hx, rfl⟩ := List.mem_map.mp hz
    exact ⟨x, hx, hzk⟩
  · intro hfit k hk k' hk'
    have hcount := hturns.balanced hnd (fun z hz => by
      obtain ⟨x, hx, rfl⟩ := List.mem_map.mp hz
      exact hfit x hx) hk hk'
    rwa [List.countP_map, List.countP_map] at hcount

/-- Three messages come into a queue with two consumers. --/
theorem fair_rotation_three : ∃ log s', RotaRun (ascii "q") [0, 1] (freshServer.run twoConsumers) log s' ∧
    log.map Handover.consumer = [0, 1, 0] ∧
    (∀ first x mid y last k, log = first ++ x :: mid ++ y :: last → x.consumer = y.consumer → k ∈ [0, 1] →
        k ≠ x.consumer → (∀ z ∈ mid ++ [y], z.state.eligible z.message k = true) → ∃ z ∈ mid, z.consumer = k) ∧
    ((∀ z ∈ log, ∀ k ∈ [0, 1], z.state.eligible z.message k = true) → ∀ k ∈ [0, 1], ∀ k' ∈ [0, 1],
      (log.countP fun z => z.consumer = k) ≤ (log.countP fun z => z.consumer = k') + 1) := by
  have hstart : RotaRun (ascii "q") [0, 1] (freshServer.run twoConsumers) [] (freshServer.run twoConsumers) :=
    .nil (by decide +kernel)
  have hnew : RotaRun (ascii "q") [0, 1] (freshServer.run twoConsumers) []
      ((((freshServer.run twoConsumers).newMessage {}).newMessage {}).newMessage {}) := hstart.between rfl
  have hrun := ((hnew.op (.enqueue 0) (by decide +kernel)).op (.enqueue 1) (by decide +kernel)).op (.enqueue 2)
    (by decide +kernel)
  exact ⟨_, _, hrun, by decide +kernel, fair_rotation hrun⟩

end AmqpServer
end Broko.Broker
