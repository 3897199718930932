import Broko.Theorems.Loads

/-! Settling many messages at once. What the settlement of one message does to the table, to credit and to the log depends
    on that message alone, so that several of them can be settled in any order. Who is handed which dead letters, and whether
    they expire first, depends on the order in which they come, unless their queues are plain. Delivery tag 0 is compared
    like any other tag, and finds nothing to settle. -/

namespace Broko.Broker
open Amqp Storage MessageStore

/-- How a message is settled: `basic.ack`, or `basic.nack` without requeue. --/
inductive Settlement where
  | ack
  | nack
  deriving DecidableEq

/-- What is written for a message in the log is decided by this. --/
def Message.lasting (m : Message) : Option UInt8 × UInt64 := (m.properties.delivery_mode, m.wal_id)

namespace Settlement

/-- What happens to a message. --/
def one : Settlement → AmqpServer → UnackedMessage → AmqpServer
  | .ack => AmqpServer.persistAck
  | .nack => AmqpServer.rejectUnacked false

/-- The handler of the method. --/
def handle (c : Nat) (num : UInt16) (s : AmqpServer) (buf : Buffer) : Settlement → Outcome
  | .ack => s.handleBasicAck c num buf
  | .nack => s.handleBasicNack c num buf

/-- The queues that the message of an entry goes to. --/
def letterTo : Settlement → AmqpServer → UnackedMessage → List Bytes
  | .ack, _, _ => []
  | .nack, s, u => s.letterTo u

end Settlement

namespace AmqpServer

variable {c n : Nat} {num : UInt16} {s s' s₁ s₂ : AmqpServer} {name : Bytes} {names : List Bytes} {k r : Ref}
  {u u' : UnackedMessage} {us us₁ us₂ : List UnackedMessage} {x : Settlement}

/-! ### The statement -/

/-- The entry of the table under a tag. --/
def unackedAt (c : Nat) (num : UInt16) (s : AmqpServer) (tag : Nat) : Option UnackedMessage :=
  (s.channel c num).bind fun ch => ch.unackedMessages.lookup tag

/-- The tags that a multiple settlement of `deliveryTag` is for, where 0 stands for all of them. --/
def outstanding (c : Nat) (num : UInt16) (s : AmqpServer) (deliveryTag : UInt64) : List Nat :=
  match s.channel c num with
  | none => []
  | some ch => ch.unackedMessages.keys.filter fun tag => deliveryTag = 0 ∨ tag ≤ deliveryTag.toNat

/-- The acks of these messages are in the log, and nothing else was written. --/
def AcksLogged (acks : List (Bytes × UInt64)) (s s' : AmqpServer) : Prop :=
  s'.store = s.store.map fun st => acks.foldl (fun st a => st.storeAck a.1 a.2) st

/-- The ack that goes to the log for an entry. --/
def ackOf (s : AmqpServer) (u : UnackedMessage) : Option (Bytes × UInt64) :=
  (s.queue u.queue_name).bind fun q =>
    if (s.message u.message).isPersistent && q.durable && (s.message u.message).wal_id != 0 then
      some (u.queue_name, (s.message u.message).wal_id)
    else none

theorem ackOf_congr (hq : (s'.queue u.queue_name).map MessageQueue.durable = (s.queue u.queue_name).map MessageQueue.durable)
    (hm : (s'.message u.message).lasting = (s.message u.message).lasting) : ackOf s' u = ackOf s u := by
  obtain ⟨hmode, hid⟩ := Prod.mk.inj hm
  rw [ackOf, ackOf, Message.isPersistent, Message.isPersistent, hmode, hid]
  cases hq' : s'.queue u.queue_name with
  | none =>
    rw [hq', Option.map_none, eq_comm, Option.map_eq_none_iff] at hq
    rw [hq]
  | some q' =>
    rw [hq', Option.map_some, eq_comm, Option.map_eq_some_iff] at hq
    obtain ⟨q, hq, hdurable⟩ := hq
    rw [hq, Option.bind_some, Option.bind_some, hdurable]

theorem queues_persistAck (u : UnackedMessage) : (s.persistAck u).queues = s.queues := by
  have hrelease : (s.releaseCredit u).queues = s.queues := by
    rw [releaseCredit]
    split <;> rfl
  rw [persistAck]
  split
  · exact hrelease
  · split <;> exact hrelease

theorem consumer_persistAck (u : UnackedMessage) : (s.persistAck u).consumer k = (s.releaseCredit u).consumer k := by
  rw [persistAck]
  split
  · rfl
  · split <;> rfl

theorem acksLogged_persistAck (u : UnackedMessage) : AcksLogged (ackOf s u).toList s (s.persistAck u) := by
  have hstore : (s.releaseCredit u).store = s.store := by
    rw [releaseCredit]
    split <;> rfl
  have hqueue : ((s.releaseCredit u).record [.settled (s.origin u.message) u.queue_name]).queue u.queue_name =
      s.queue u.queue_name := by
    rw [releaseCredit]
    split <;> rfl
  have hmessage : ((s.releaseCredit u).record [.settled (s.origin u.message) u.queue_name]).message u.message =
      s.message u.message := by
    rw [releaseCredit]
    split <;> rfl
  have hid : ∀ o : Option MessageStore, o.map (fun st => st) = o := fun o => congrFun Option.map_id o
  rw [AcksLogged, persistAck, ackOf, hqueue, hmessage]
  cases hq : s.queue u.queue_name with
  | none => exact hstore.trans (hid _).symm
  | some q =>
    dsimp only
    rw [Option.bind_some]
    split
    · exact congrArg (Option.map _) hstore
    · exact hstore.trans (hid _).symm

theorem rejectUnacked_false (u : UnackedMessage) : rejectUnacked false s u = (s.persistAck u).rejectIfThere false u := rfl

theorem channel_one (x : Settlement) (u : UnackedMessage) : (x.one s u).channel c num = s.channel c num := by
  have hack : (s.persistAck u).channel c num = s.channel c num := by
    rw [channel, connection, connections_persistAck]
    rfl
  cases x with
  | ack => exact hack
  | nack =>
    rw [Settlement.one, rejectUnacked_false, channel_of_skeleton (skeleton_rejectIfThere false u)]
    exact hack

theorem does_one (x : Settlement) (hu : u.message < s.heap.size) : Does c [.settle, .queue, .requeue] s (x.one s u) := by
  cases x with
  | ack => exact (Does.of (.settle u hu)).mono (by decide)
  | nack => exact does_rejectUnacked false s u hu

theorem lasting_move {kind : Kind} (hm : Move c kind s s') (hr : r < s.heap.size) :
    (s'.message r).lasting = (s.message r).lasting := by
  rcases message_of_move hm hr with hsame | ⟨-, ⟨f, hf, rfl⟩ | ⟨q, name, reason, -, -, rfl⟩⟩
  · rw [hsame]
  · refine message_modifyMessage Message.lasting (fun m => ?_) r r
    have hframe : (f m).frame.lasting = m.frame.lasting := by rw [hf]
    exact hframe
  · refine message_modifyMessage Message.lasting ?_ r r
    exact fun _ => rfl

theorem settle_of_none {f : AmqpServer → UnackedMessage → AmqpServer} {tag : Nat} (h : s.unackedAt c num tag = none) :
    settle c num f s tag = s := by
  rw [settle, ← unackedAt, h]

theorem settle_of_some {f : AmqpServer → UnackedMessage → AmqpServer} {tag : Nat} (h : s.unackedAt c num tag = some u) :
    settle c num f s tag = (f s u).eraseUnacked c num tag := by
  rw [settle, ← unackedAt, h]

theorem unackedAt_settle (x : Settlement) (tag tag' : Nat) :
    (settle c num x.one s tag).unackedAt c num tag' = if tag' = tag then none else s.unackedAt c num tag' := by
  cases h : s.unackedAt c num tag with
  | none =>
    rw [settle_of_none h]
    split
    · rename_i heq
      rw [heq, h]
    · rfl
  | some u =>
    rw [settle_of_some h, unackedAt, eraseUnacked, channel_modifyChannel_self, channel_one, unackedAt]
    cases s.channel c num with
    | none => split <;> rfl
    | some ch =>
      split
      · rename_i heq
        rw [heq]
        exact Assoc.lookup_erase_self ..
      · rename_i hne
        exact Assoc.lookup_erase_of_ne hne

theorem lt_of_unackedAt (hv : Valid s) {tag : Nat} (h : s.unackedAt c num tag = some u) : u.message < s.heap.size := by
  obtain ⟨ch, hch, hu⟩ := Option.bind_eq_some_iff.mp h
  exact ((hv.channel hch).unacked tag u hu).2

/-- What the settlement of these entries does to credit and dead letters, where the letters go to plain queues. --/
structure Mails (n : Nat) (names : List Bytes) (x : Settlement) (us : List UnackedMessage) (s s' : AmqpServer) : Prop where
  calm : Calm n names s'
  frames : ∀ name, (s'.queue name).map MessageQueue.frame = (s.queue name).map MessageQueue.frame
  exchanges : s'.exchanges = s.exchanges
  origins : ∀ r < n, s'.origin r = s.origin r
  settled : x = .nack → ∀ u ∈ us, (s'.message u.message).unstamped = (s.lettered u).unstamped
  others : ∀ r < n, (x = .nack → ∀ u ∈ us, r ≠ u.message) → (s'.message r).unstamped = (s.message r).unstamped
  load : ∀ name ∈ names, s'.load name =
    (s.load name).map Load.enter^[(us.map fun u => (x.letterTo s u).count name).sum]
  everIn : ∀ name, Config.everIn s' name = (Config.everIn s name).map fun ever =>
    ever ++ us.flatMap fun u => List.replicate ((x.letterTo s u).count name) (s.origin u.message)
  in_flight : ∀ k, (∀ name ∈ names, s.Lacks name k) →
    (s'.consumer k).in_flight = (s.consumer k).in_flight - UInt32.ofNat (us.countP fun u => u.consumer = some k)

/-- Nobody in these queues gets credit back from the entry. --/
def Uncredited (s : AmqpServer) (names : List Bytes) (u : UnackedMessage) : Prop :=
  ∀ name ∈ names, ∀ q, s.queue name = some q → ∀ k ∈ q.consumers, u.consumer ≠ some k

theorem frame_persistAck (u : UnackedMessage) (k : Ref) : ((s.persistAck u).consumer k).frame = (s.consumer k).frame := by
  rw [consumer_persistAck, releaseCredit]
  split
  · rfl
  · exact Heap.cell_modify_congr Consumer.frame (f := fun c : Consumer => { c with in_flight := c.in_flight - 1 })
      (fun _ => rfl) k

theorem Calm.persistAck (h : Calm n names s) (u : UnackedMessage) : Calm n names (s.persistAck u) := by
  have hqueue : ∀ name, (s.persistAck u).queue name = s.queue name := fun name => by rw [queue, queues_persistAck]; rfl
  have hfield : ∀ {β : Type} (f : Consumer → β), (∀ c : Consumer, f c.frame = f c) → ∀ k,
      f ((s.persistAck u).consumer k) = f (s.consumer k) := by
    intro β f hf k
    rw [← hf, frame_persistAck, hf]
  refine ⟨fun name q hq => ?_, ?_, ?_, fun name hname q hq => ?_⟩
  · rw [hqueue] at hq
    obtain ⟨hnodup, hplaced⟩ := h.placed name q hq
    exact ⟨hnodup, fun k hk => (hfield Consumer.queue_name (fun _ => rfl) k).trans (hplaced k hk)⟩
  · rw [heap_persistAck]
    exact h.size
  · rw [Held, queues_persistAck]
    exact h.held
  · rw [hqueue] at hq
    obtain ⟨httl, hlasting, heven⟩ := h.plain name hname q hq
    refine ⟨httl, fun r hr => ?_, fun k hk => (hfield Consumer.no_local (fun _ => rfl) k).trans (heven k hk)⟩
    rw [message, heap_persistAck]
    exact hlasting r hr

/-- What the settlement of an entry needs for its letters. --/
structure Mailable (n : Nat) (names : List Bytes) (x : Settlement) (s : AmqpServer) (u : UnackedMessage) : Prop where
  within : u.message < n
  targets : ∀ name ∈ x.letterTo s u, name ∈ names
  lasting : x.letterTo s u ≠ [] → (s.message u.message).properties.expiration = none
  uncredited : s.Uncredited names u

theorem expiration_of_unstamped {m m' : Message} (h : m'.unstamped = m.unstamped) :
    m'.properties.expiration = m.properties.expiration := by
  have hsame : m'.unstamped.properties.expiration = m.unstamped.properties.expiration := by rw [h]
  exact hsame

/-- The letters of an entry depend on its message and on how the queues are set up. --/
theorem letterTo_congr (hframes : ∀ name, (s'.queue name).map MessageQueue.frame = (s.queue name).map MessageQueue.frame)
    (hexchanges : s'.exchanges = s.exchanges) (hm : (s'.message u.message).unstamped = (s.message u.message).unstamped)
    (x : Settlement) : x.letterTo s' u = x.letterTo s u := by
  cases x with
  | ack => rfl
  | nack => exact (mail_congr (hframes _) hexchanges hm).1

theorem consumers_of_frames
    (hframes : ∀ name, (s'.queue name).map MessageQueue.frame = (s.queue name).map MessageQueue.frame) {q' : MessageQueue}
    (hq' : s'.queue name = some q') : ∃ q, s.queue name = some q ∧ q.consumers = q'.consumers := by
  have hmap := hframes name
  rw [hq', Option.map_some, eq_comm, Option.map_eq_some_iff] at hmap
  obtain ⟨q, hq, hframe⟩ := hmap
  have hconsumers : q.frame.consumers = q'.frame.consumers := by rw [hframe]
  exact ⟨q, hq, hconsumers⟩

theorem Mailable.congr (h : Mailable n names x s u)
    (hframes : ∀ name, (s'.queue name).map MessageQueue.frame = (s.queue name).map MessageQueue.frame)
    (hexchanges : s'.exchanges = s.exchanges) (hm : (s'.message u.message).unstamped = (s.message u.message).unstamped) :
    Mailable n names x s' u := by
  have hletters := letterTo_congr hframes hexchanges hm x
  refine ⟨h.within, hletters ▸ h.targets, fun hne => ?_, fun name hname q' hq' k hk => ?_⟩
  · rw [expiration_of_unstamped hm]
    exact h.lasting (hletters ▸ hne)
  · obtain ⟨q, hq, hconsumers⟩ := consumers_of_frames hframes hq'
    exact h.uncredited name hname q hq k (hconsumers ▸ hk)

theorem Lacks.congr (hframes : ∀ name, (s'.queue name).map MessageQueue.frame = (s.queue name).map MessageQueue.frame)
    (h : s.Lacks name k) : s'.Lacks name k := by
  intro q' hq' hk
  obtain ⟨q, hq, hconsumers⟩ := consumers_of_frames hframes hq'
  exact h q hq (hconsumers ▸ hk)

theorem Mails.trans (h₁ : Mails n names x us₁ s s₁) (h₂ : Mails n names x us₂ s₁ s₂)
    (hwithin : ∀ u ∈ us₁ ++ us₂, u.message < n)
    (hapart : x = .nack → ∀ u ∈ us₁, ∀ u' ∈ us₂, u.message ≠ u'.message) : Mails n names x (us₁ ++ us₂) s s₂ := by
  have hunmoved : ∀ u ∈ us₂, (s₁.message u.message).unstamped = (s.message u.message).unstamped := fun u hu =>
    h₁.others _ (hwithin u (List.mem_append_right _ hu)) fun hx u' hu' => (hapart hx u' hu' u hu).symm
  have hletters : ∀ u ∈ us₂, x.letterTo s₁ u = x.letterTo s u := fun u hu =>
    letterTo_congr h₁.frames h₁.exchanges (hunmoved u hu) x
  refine ⟨h₂.calm, fun name => (h₂.frames name).trans (h₁.frames name), h₂.exchanges.trans h₁.exchanges, fun r hr => ?_,
    fun hx u hu => ?_, fun r hr hne => ?_, fun name hname => ?_, fun name => ?_, fun k hk => ?_⟩
  · exact (h₂.origins r hr).trans (h₁.origins r hr)
  · rcases List.mem_append.mp hu with hu₁ | hu₂
    · exact (h₂.others _ (hwithin u hu) fun _ u' hu' => hapart hx u hu₁ u' hu').trans (h₁.settled hx u hu₁)
    · refine (h₂.settled hx u hu₂).trans ?_
      exact (mail_congr (h₁.frames _) h₁.exchanges (hunmoved u hu₂)).2
  · refine (h₂.others r hr fun hx u hu => hne hx u (List.mem_append_right _ hu)).trans ?_
    exact h₁.others r hr fun hx u hu => hne hx u (List.mem_append_left _ hu)
  · have hsum : (us₂.map fun u => (x.letterTo s₁ u).count name) = us₂.map fun u => (x.letterTo s u).count name :=
      List.map_congr_left fun u hu => by rw [hletters u hu]
    rw [h₂.load name hname, h₁.load name hname, hsum, Option.map_map, List.map_append, List.sum_append, Nat.add_comm,
      Function.iterate_add]
  · have hnew : (us₂.flatMap fun u => List.replicate ((x.letterTo s₁ u).count name) (s₁.origin u.message)) =
        us₂.flatMap fun u => List.replicate ((x.letterTo s u).count name) (s.origin u.message) := by
      refine List.flatMap_congr fun u hu => ?_
      rw [hletters u hu, h₁.origins _ (hwithin u (List.mem_append_right _ hu))]
    rw [h₂.everIn name, h₁.everIn name, hnew, Option.map_map, List.flatMap_append]
    refine congrArg (fun f => Option.map f (Config.everIn s name)) (funext fun ever => ?_)
    exact List.append_assoc ..
  · rw [h₂.in_flight k fun name hname => (hk name hname).congr h₁.frames, h₁.in_flight k hk, List.countP_append,
      UInt32.ofNat_add]
    grind

theorem handle_multiple {buf rest : Buffer} {deliveryTag : UInt64} {bits : UInt8}
    (hread : readSettleArgs buf = .ok ((deliveryTag, bits), rest)) (hrequeue : x = .nack → hasBit bits 0x02 = false) :
    outcome (x.handle c num s buf) =
      (s.settledTags c num deliveryTag (hasBit bits 0x01)).foldl (settle c num x.one) s := by
  cases x with
  | ack =>
    rw [Settlement.handle, handleBasicAck, withArgs_ok hread]
    rfl
  | nack =>
    rw [Settlement.handle, handleBasicNack, withArgs_ok hread]
    dsimp only
    rw [hrequeue rfl]
    rfl

/-- Without the flag for many, the handler settles the message of its tag. --/
theorem handle_single {buf rest : Buffer} {deliveryTag : UInt64} {bits : UInt8}
    (hread : readSettleArgs buf = .ok ((deliveryTag, bits), rest)) (hmultiple : hasBit bits 0x01 = false)
    (hrequeue : x = .nack → hasBit bits 0x02 = false) :
    outcome (x.handle c num s buf) = settle c num x.one s deliveryTag.toNat := by
  rw [handle_multiple hread hrequeue, settledTags, hmultiple]
  rfl

end AmqpServer
end Broko.Broker
