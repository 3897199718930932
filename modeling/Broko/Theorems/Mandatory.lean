import Broko.Broker.Client
import Broko.Theorems.PublishSteps
import Broko.Theorems.Runs
import Broko.Theorems.Sends

/-! Mandatory messages, at the grain of the locks. Whether a message goes back is decided on the names that its exchange
    gives; whether it gets anywhere, on the queues that are still there when their turn comes. -/

namespace Broko.Broker
open Amqp Storage AmqpServer

/-- A message without the id of its record. --/
def Message.unlogged (m : Message) : Message := { m with wal_id := 0 }

namespace Config

/-! ### What a publish comes to -/

/-- The exchange gives no queue. --/
def unroutable (p : PendingPublish) (x : Config) : Bool :=
  match x.stage with
  | .routing => (x.server.exchanges.lookup p.exchange).isNone
  | .matching ex => ex.route p.routing_key p.properties.headers = []
  | _ => false

/-- A queue was found, and the virtual host still has it when its lock is taken. --/
def live (x : Config) : Bool :=
  match x.stage with
  | .pushing _ name none _ _ => (x.server.queue name).isSome
  | _ => false

/-- The section puts the message of the publish into a queue of the virtual host. --/
def Appends (c : Nat) (num : UInt16) (p : PendingPublish) (msg : Ref) (x : Config) : Prop :=
  ∃ copy name gone several rest q q', x.stage = .pushing copy name gone several rest ∧ x.server.queue name = some q ∧
    (x.advance c num p msg).server.queue name = some q' ∧ q'.enqueued = q.enqueued ++ [x.server.origin copy] ∧
    (x.server.message copy).unlogged = messageOf c p

def Delivered (c : Nat) (num : UInt16) (p : PendingPublish) (msg : Ref) (l : List Config) : Prop :=
  ∃ x ∈ l, Appends c num p msg x

/-- A Basic.Return with the whole content. --/
def returnFrames (num : UInt16) (frameMax : UInt32) (p : PendingPublish) : List Outgoing :=
  .frame (methodFrame num class_id.BASIC basic_method.RETURN (writeUint16 reply_code.NO_ROUTE ++
    writeShortString (ascii "NO_ROUTE") ++ writeShortString p.exchange ++ writeShortString p.routing_key)) ::
  (contentFrames num class_id.BASIC frameMax p.properties p.body).map .frame

/-- The ack of a publish, in confirm mode. --/
def confirmFrames (num : UInt16) (ch : Channel) : List Outgoing :=
  if ch.confirmMode then
    [.frame (methodFrame num class_id.BASIC basic_method.ACK
      (writeUint64 (UInt64.ofNat ch.nextConfirmSeqNo) ++ writeUint8 0))]
  else []

end Config

/-! ### Stages -/

namespace Stage

/-- The route is not known yet. --/
def early : Stage → Bool
  | .routing => true
  | .matching _ => true
  | _ => false

/-- The turns are over. --/
def late : Stage → Bool
  | .confirming => true
  | .done => true
  | _ => false

def isDone : Stage → Bool
  | .done => true
  | _ => false

/-- Only copies go to several queues. --/
def few : Stage → Bool
  | .turns several queues => several || queues.length ≤ 1
  | .storing _ _ several rest => several || rest.isEmpty
  | .finding _ _ several rest => several || rest.isEmpty
  | .pushing _ _ _ several rest => several || rest.isEmpty
  | .letters _ _ _ _ several rest => several || rest.isEmpty
  | _ => true

/-- Other threads leave a publish where it is. --/
theorem Changes.same_place {s : AmqpServer} {st st' : Stage} (h : st.Changes s st') :
    st'.early = st.early ∧ st'.late = st.late ∧ st'.isDone = st.isDone ∧ st'.few = st.few ∧
      ∀ msg, st'.objects msg = st.objects msg := by
  cases h <;> exact ⟨rfl, rfl, rfl, rfl, fun _ => rfl⟩

end Stage

namespace Config

variable {c : Nat} {num : UInt16} {p : PendingPublish} {msg : Ref} {x y z : Config} {l : List Config}

theorem early_of_unroutable (h : x.unroutable p = true) : x.stage.early = true := by
  rw [unroutable] at h
  split at h
  · rename_i hs
    rw [hs]
    rfl
  · rename_i hs
    rw [hs]
    rfl
  · cases h

theorem not_late_of_early {st : Stage} (h : st.early = true) : st.late = false ∧ st.isDone = false := by
  cases st with
  | routing => exact ⟨rfl, rfl⟩
  | matching ex => exact ⟨rfl, rfl⟩
  | _ => cases h

theorem not_live (h : x.stage.early = true ∨ x.stage.late = true) : x.live = false := by
  rw [live]
  split
  · rename_i hs
    rw [hs] at h
    rcases h with h | h <;> cases h
  · rfl

theorem eraseSeen_eq_nil {l : List Bytes} : eraseSeen [] l = [] ↔ l = [] := by
  cases l with
  | nil => exact ⟨fun _ => rfl, fun _ => rfl⟩
  | cons a l => exact ⟨nofun, nofun⟩

/-- What a section of a mandatory publish can do. --/
inductive Takes (c : Nat) (num : UInt16) (p : PendingPublish) (msg : Ref) : Config → Config → Prop
  | find {s : AmqpServer} {ex : Exchange} (h : s.exchanges.lookup p.exchange = some ex) :
      Takes c num p msg ⟨.routing, s⟩ ⟨.matching ex, s⟩
  | giveBack {x : Config} (h : x.unroutable p = true) :
      Takes c num p msg x ⟨.confirming, x.server.sendReturn c num (messageOf c p)⟩
  | match {s : AmqpServer} {ex : Exchange} {queues : List Bytes} (h : ex.route p.routing_key p.properties.headers ≠ []) :
      Takes c num p msg ⟨.matching ex, s⟩ ⟨.turns (decide (1 < queues.length)) queues, s⟩
  | leave {s : AmqpServer} {several : Bool} : Takes c num p msg ⟨.turns several [], s⟩ ⟨.confirming, s⟩
  | copy {s : AmqpServer} {name : Bytes} {rest : List Bytes} {st : Stage}
      (h : st = .storing s.heap.size name true rest ∨ st = .finding s.heap.size name true rest) :
      Takes c num p msg ⟨.turns true (name :: rest), s⟩ ⟨st, s.newMessage (messageOf c p)⟩
  | take {s : AmqpServer} {name : Bytes} {rest : List Bytes} {st : Stage}
      (h : st = .storing msg name false rest ∨ st = .finding msg name false rest) :
      Takes c num p msg ⟨.turns false (name :: rest), s⟩ ⟨st, s⟩
  | store {s : AmqpServer} {copy : Ref} {name : Bytes} {several : Bool} {rest : List Bytes} :
      Takes c num p msg ⟨.storing copy name several rest, s⟩ ⟨.finding copy name several rest, s.storeMessage name copy⟩
  | skip {s : AmqpServer} {copy : Ref} {name : Bytes} {several : Bool} {rest : List Bytes} :
      Takes c num p msg ⟨.finding copy name several rest, s⟩ ⟨.turns several rest, s⟩
  | reach {s : AmqpServer} {copy : Ref} {name : Bytes} {several : Bool} {rest : List Bytes} :
      Takes c num p msg ⟨.finding copy name several rest, s⟩ ⟨.pushing copy name none several rest, s⟩
  | lose {s : AmqpServer} {copy : Ref} {name : Bytes} {several : Bool} {rest : List Bytes} :
      Takes c num p msg ⟨.pushing copy name none several rest, s⟩ ⟨.turns several rest, s⟩
  | push {s : AmqpServer} {copy : Ref} {name : Bytes} {several : Bool} {rest : List Bytes} {fuel : Nat} {q : MessageQueue}
      {dlq : List Ref} : Takes c num p msg ⟨.pushing copy name none several rest, s⟩
        ⟨.letters fuel q dlq name several rest, (s.enqueueLocked name copy).2⟩
  | miss {s : AmqpServer} {copy : Ref} {name : Bytes} {several : Bool} {rest : List Bytes} {fuel : Nat} {q : MessageQueue}
      {dlq : List Ref} : Takes c num p msg ⟨.pushing copy name (some q) several rest, s⟩
        ⟨.letters fuel q dlq name several rest,
          { (({ s with queues := s.queues.insert name q } : AmqpServer).enqueueLocked name copy).2 with queues := s.queues }⟩
  | end {s : AmqpServer} {fuel : Nat} {q : MessageQueue} {name : Bytes} {several : Bool} {rest : List Bytes} :
      Takes c num p msg ⟨.letters fuel q [] name several rest, s⟩ ⟨.turns several rest, s⟩
  | letter {s : AmqpServer} {fuel : Nat} {q : MessageQueue} {r : Ref} {dlq : List Ref} {name : Bytes} {several : Bool}
      {rest : List Bytes} : Takes c num p msg ⟨.letters fuel q (r :: dlq) name several rest, s⟩
        ⟨.letters fuel q dlq name several rest, s.deadLetterFrom (enqueueLoop fuel) q name (ascii "expired") r⟩
  | confirm {s : AmqpServer} : Takes c num p msg ⟨.confirming, s⟩ ⟨.done, (s.sendConfirm c num).setPending c num none⟩
  | rest {s : AmqpServer} : Takes c num p msg ⟨.done, s⟩ ⟨.done, s⟩

theorem takes_advance (hm : p.mandatory = true) (x : Config) : Takes c num p msg x (x.advance c num p msg) := by
  obtain ⟨st, s⟩ := x
  have hback : ∀ {s}, routed c num p s [] = { stage := .confirming, server := s.sendReturn c num (messageOf c p) } :=
    if_pos ⟨rfl, hm⟩
  cases st with
  | routing =>
    cases hex : s.exchanges.lookup p.exchange with
    | none =>
      simp only [advance, hex, hback]
      exact .giveBack (x := ⟨.routing, s⟩) (Option.isNone_iff_eq_none.mpr hex)
    | some ex =>
      simp only [advance, hex]
      exact .find hex
  | matching ex =>
    by_cases hnil : ex.route p.routing_key p.properties.headers = []
    · simp only [advance, eraseSeen_eq_nil.mpr hnil, hback]
      exact .giveBack (x := ⟨.matching ex, s⟩) (decide_eq_true hnil)
    · simp only [advance, routed, eraseSeen_eq_nil, hnil, false_and, if_false]
      exact .match hnil
  | turns several queues =>
    cases queues with
    | nil => exact .leave
    | cons name rest =>
      simp only [advance]
      cases several with
      | true =>
        simp only [if_true]
        split
        · exact .copy (.inr rfl)
        · split
          · exact .copy (.inl rfl)
          · exact .copy (.inr rfl)
      | false =>
        simp only [Bool.false_eq_true, if_false]
        split
        · exact .take (.inr rfl)
        · split
          · exact .take (.inl rfl)
          · exact .take (.inr rfl)
  | storing copy name several rest => exact .store
  | finding copy name several rest =>
    simp only [advance]
    split
    · exact .skip
    · exact .reach
  | pushing copy name gone several rest =>
    cases gone with
    | none =>
      simp only [advance]
      split
      · exact .lose
      · exact .push
    | some q => exact .miss
  | letters fuel q dlq name several rest =>
    cases dlq with
    | nil => exact .end
    | cons r dlq => exact .letter
  | confirming => exact .confirm
  | done => exact .rest

/-- A section that neither gives the message back nor ends the publish sends nothing. --/
structure Quiet (c : Nat) (x y : Config) : Prop where
  own : y.server.own c = x.server.own c
  isDone : y.stage.isDone = x.stage.isDone
  late : x.stage.late = true → y.stage.late = true
  early : y.stage.early = true → x.stage.early = true

theorem Takes.spec (h : Takes c num p msg x y) :
    (x.unroutable p = true ∧ y = ⟨.confirming, x.server.sendReturn c num (messageOf c p)⟩) ∨
      (x.unroutable p = false ∧ ((x.stage = .confirming ∧
        y = ⟨.done, (x.server.sendConfirm c num).setPending c num none⟩) ∨ Quiet c x y)) := by
  cases h with
  | @find s ex hex =>
    have hun : unroutable p ⟨.routing, s⟩ = false := by simp only [unroutable, hex, Option.isNone_some]
    exact .inr ⟨hun, .inr ⟨rfl, rfl, nofun, fun _ => rfl⟩⟩
  | giveBack hun => exact .inl ⟨hun, rfl⟩
  | «match» hne => exact .inr ⟨decide_eq_false hne, .inr ⟨rfl, rfl, nofun, nofun⟩⟩
  | leave => exact .inr ⟨rfl, .inr ⟨rfl, rfl, nofun, nofun⟩⟩
  | copy hst =>
    refine .inr ⟨rfl, .inr ?_⟩
    rcases hst with rfl | rfl
    · exact ⟨own_congr rfl, rfl, nofun, nofun⟩
    · exact ⟨own_congr rfl, rfl, nofun, nofun⟩
  | take hst =>
    refine .inr ⟨rfl, .inr ?_⟩
    rcases hst with rfl | rfl
    · exact ⟨rfl, rfl, nofun, nofun⟩
    · exact ⟨rfl, rfl, nofun, nofun⟩
  | store => exact .inr ⟨rfl, .inr ⟨own_congr (connections_storeMessage ..), rfl, nofun, nofun⟩⟩
  | skip => exact .inr ⟨rfl, .inr ⟨rfl, rfl, nofun, nofun⟩⟩
  | reach => exact .inr ⟨rfl, .inr ⟨rfl, rfl, nofun, nofun⟩⟩
  | lose => exact .inr ⟨rfl, .inr ⟨rfl, rfl, nofun, nofun⟩⟩
  | push => exact .inr ⟨rfl, .inr ⟨own_enqueueLocked .., rfl, nofun, nofun⟩⟩
  | miss =>
    refine .inr ⟨rfl, .inr ⟨?_, rfl, nofun, nofun⟩⟩
    exact (own_enqueueLocked ..).trans (own_congr rfl)
  | «end» => exact .inr ⟨rfl, .inr ⟨rfl, rfl, nofun, nofun⟩⟩
  | letter => exact .inr ⟨rfl, .inr ⟨own_deadLetterFrom (fun s => own_enqueueLoop _ s) _ _ _ _, rfl, nofun, nofun⟩⟩
  | confirm => exact .inr ⟨rfl, .inl ⟨rfl, rfl⟩⟩
  | rest => exact .inr ⟨rfl, .inr ⟨rfl, rfl, fun _ => rfl, nofun⟩⟩

theorem few_turns {several : Bool} {rest : List Bytes} (h : (several || rest.isEmpty) = true) :
    (Stage.turns several rest).few = true := by
  rw [Bool.or_eq_true, List.isEmpty_iff] at h
  rcases h with rfl | rfl
  · rfl
  · exact Bool.or_true several

theorem Takes.few (h : Takes c num p msg x y) (hx : x.stage.few = true) : y.stage.few = true := by
  cases h with
  | @«match» _ _ queues _ =>
    simp only [Stage.few, Bool.or_eq_true, decide_eq_true_eq]
    omega
  | copy hst => rcases hst with rfl | rfl <;> rfl
  | @take _ _ rest _ hst =>
    have hrest : rest = [] := by simpa [Stage.few] using hx
    rcases hst with rfl | rfl <;> simp [Stage.few, hrest]
  | skip => exact few_turns hx
  | lose => exact few_turns hx
  | «end» => exact few_turns hx
  | giveBack hun => rfl
  | leave => rfl
  | _ => exact hx

/-! ### The message objects -/

theorem message_storeMessage (s : AmqpServer) (name : Bytes) (copy r : Ref) :
    ((s.storeMessage name copy).message r).unlogged = (s.message r).unlogged := by
  have hmodify : ∀ f : Message → Message, (∀ m, (f m).unlogged = m.unlogged) →
      ((s.modifyMessage copy f).message r).unlogged = (s.message r).unlogged :=
    fun f hf => Heap.cell_modify_congr (f := fun x : Cell => { x with msg := f x.msg }) (fun x : Cell => x.msg.unlogged)
      (fun x => hf x.msg) r
  rw [storeMessage]
  split
  · rfl
  · rename_i st _
    exact hmodify (fun m => { m with wal_id := (st.storeMessage name (s.message copy)).1 }) fun _ => rfl

/-- The objects that nobody else has are the message of the publish. --/
theorem Takes.objects (h : Takes c num p msg x y) (hfew : x.stage.few = true)
    (hx : ∀ r ∈ x.stage.objects msg, (x.server.message r).unlogged = messageOf c p) :
    ∀ r ∈ y.stage.objects msg, (y.server.message r).unlogged = messageOf c p := by
  -- After a turn the object of the publish is no longer needed, or copies of it go to the other queues.
  have hturns : ∀ {several : Bool} {rest : List Bytes}, (several || rest.isEmpty) = true →
      (Stage.turns several rest).objects msg = [] := fun h => if_pos h
  cases h with
  | find hex => exact hx
  | giveBack hun => exact List.forall_mem_nil _
  | «match» hne =>
    intro r hr
    rw [Stage.objects] at hr
    split at hr
    · cases hr
    · exact hx r hr
  | leave => exact List.forall_mem_nil _
  | @copy s name rest st hst =>
    have hcopy : (s.newMessage (messageOf c p)).message s.heap.size = messageOf c p := by
      rw [message, newMessage, Heap.cell_alloc_self]
    intro r hr
    have hr : r = s.heap.size := by rcases hst with rfl | rfl <;> exact List.mem_singleton.mp hr
    rw [hr, hcopy]
    rfl
  | take hst =>
    intro r hr
    have hr : r = msg := by rcases hst with rfl | rfl <;> exact List.mem_singleton.mp hr
    exact hx r (List.mem_singleton.mpr hr)
  | store => exact fun r hr => (message_storeMessage ..).trans (hx r hr)
  | skip => rw [hturns hfew]; exact List.forall_mem_nil _
  | reach => exact hx
  | lose => rw [hturns hfew]; exact List.forall_mem_nil _
  | push => exact List.forall_mem_nil _
  | miss => exact List.forall_mem_nil _
  | «end» => rw [hturns hfew]; exact List.forall_mem_nil _
  | letter => exact List.forall_mem_nil _
  | confirm => exact List.forall_mem_nil _
  | rest => exact List.forall_mem_nil _

/-! ### What is in the queues -/

/-- What was ever put into a queue. --/
def everIn (s : AmqpServer) (name : Bytes) : Option (List Ref) := (s.queue name).map MessageQueue.enqueued

section
variable {s : AmqpServer} {name name' : Bytes}

theorem everIn_modifyQueue {f : MessageQueue → MessageQueue} (hf : ∀ q, (f q).enqueued = q.enqueued) :
    everIn (s.modifyQueue name f) name' = everIn s name' := by
  rw [everIn, everIn, queue, modifyQueue, Assoc.lookup_modify]
  split
  · rename_i h
    rw [h, Option.map_map]
    exact congrArg (fun g => (s.queue name).map g) (funext hf)
  · rfl

theorem everIn_collectExpired : everIn (s.collectExpired name).2 name' = everIn s name' := by
  rw [collectExpired]
  split
  · rfl
  · split
    · rfl
    · have htrim : ∀ n : Nat, everIn (s.readClock.modifyQueue name fun q => { q with messages := q.messages.drop n }) name' =
          everIn s.readClock name' := fun n => everIn_modifyQueue fun _ => rfl
      exact htrim _

theorem everIn_handOver (k head : Ref) (idx : Nat) : everIn (s.handOver name k head idx) name' = everIn s name' := by
  have htaken : everIn (s.modifyQueue name fun q => { q with messages := q.messages.tail, roundRobinIdx := idx }) name' =
      everIn s name' := everIn_modifyQueue fun _ => rfl
  have hdeliver : ∀ s : AmqpServer, everIn (s.onDeliver k head) name' = everIn s name' := by
    intro s
    rw [onDeliver]
    split <;> rfl
  rw [handOver, hdeliver]
  split <;> exact htaken

theorem everIn_dispatchLoop (turns : Nat) (s : AmqpServer) : everIn (dispatchLoop name turns s) name' = everIn s name' := by
  induction turns generalizing s with
  | zero => rfl
  | succ turns ih =>
    rw [dispatchLoop]
    split
    · rfl
    · split
      · rfl
      · split
        · exact everIn_modifyQueue fun _ => rfl
        · rw [ih, everIn_handOver]

theorem everIn_dispatchLocked : everIn (s.dispatchLocked name) name' = everIn s name' := by
  rw [dispatchLocked]
  split
  · rfl
  · split
    · rfl
    · exact everIn_dispatchLoop _ _

theorem everIn_enqueueLocked (r : Ref) :
    everIn (s.enqueueLocked name r).2 name = (everIn s name).map fun l => l ++ [s.origin r] := by
  rw [enqueueLocked]
  dsimp only
  rw [everIn_dispatchLocked, everIn_collectExpired, everIn, everIn, queue, pushBack, modifyQueue, Assoc.lookup_modify_self,
    Option.map_map, Option.map_map, origin_modifyMessage]
  rfl

end

/-- A live queue gets the message. --/
theorem appends_of_live (hlive : x.live = true)
    (hx : ∀ r ∈ x.stage.objects msg, (x.server.message r).unlogged = messageOf c p) : Appends c num p msg x := by
  obtain ⟨st, s⟩ := x
  rw [live] at hlive
  split at hlive
  · rename_i copy name several rest hst
    subst hst
    obtain ⟨q, hq⟩ := Option.isSome_iff_exists.mp hlive
    have hadvance : (advance c num p msg ⟨.pushing copy name none several rest, s⟩).server = (s.enqueueLocked name copy).2 := by
      rw [advance]
      dsimp only
      rw [show s.queue name = some q from hq]
    have hever : everIn (s.enqueueLocked name copy).2 name = _ := everIn_enqueueLocked copy
    rw [everIn, everIn, show s.queue name = some q from hq, Option.map_some, Option.map_some, Option.map_eq_some_iff] at hever
    obtain ⟨q', hq', heq⟩ := hever
    exact ⟨copy, name, none, several, rest, q, q', rfl, hq, by rw [hadvance]; exact hq', heq, hx copy List.mem_cons_self⟩
  · cases hlive

/-- Nothing else puts it into a queue. --/
theorem live_of_appends (h : Appends c num p msg x) : x.live = true := by
  obtain ⟨copy, name, gone, several, rest, q, q', hst, hq, hq', heq, -⟩ := h
  obtain ⟨st, s⟩ := x
  subst hst
  cases gone with
  | none =>
    rw [live]
    exact Option.isSome_iff_exists.mpr ⟨q, hq⟩
  | some orphan =>
    have hqueues : (advance c num p msg ⟨.pushing copy name (some orphan) several rest, s⟩).server.queues = s.queues := rfl
    rw [queue, hqueues] at hq'
    have hsame : q' = q := Option.some.inj (hq'.symm.trans hq)
    rw [hsame] at heq
    exact absurd heq (by simp)

/-! ### Runs -/

theorem sends_sendReturn {s : AmqpServer} {ch : Channel} (hch : s.channel c num = some ch) :
    Sends c s (s.sendReturn c num (messageOf c p)) (returnFrames num ch.frameMax p) := by
  have hmethod : ∀ args, (s.sendMethodFrame c num class_id.BASIC basic_method.RETURN args).channel c num = some ch :=
    fun args => (channel_of_skeleton (skeleton_sendMethodFrame ..) c num).trans hch
  exact (Sends.sendMethodFrame num class_id.BASIC basic_method.RETURN _).trans
    (Sends.sendContentFrames (hmethod _) class_id.BASIC p.properties p.body)

theorem sends_confirm {s : AmqpServer} {ch : Channel} (hch : s.channel c num = some ch) :
    Sends c s ((s.sendConfirm c num).setPending c num none) (confirmFrames num ch) := by
  have hpending : ∀ s : AmqpServer, Sends c s (s.setPending c num none) [] := fun _ => .modifyChannel num _
  have hconfirm : Sends c s (s.sendConfirm c num) (confirmFrames num ch) := by
    rw [sendConfirm, hch, confirmFrames]
    dsimp only
    split
    · exact Sends.after (.modifyChannel num _) (.sendMethodFrame num class_id.BASIC basic_method.ACK _)
    · exact .refl
  have h := hconfirm.trans (hpending _)
  rwa [List.append_nil] at h

/-- What is known of a publish, by the configurations `l` in which it took its turns. --/
structure Tracks (c : Nat) (num : UInt16) (p : PendingPublish) (msg : Ref) (s : AmqpServer) (ch : Channel) (l : List Config)
    (x : Config) : Prop where
  channel : x.stage.isDone = false → x.server.channel c num = some ch
  sends : Sends c s x.server ((if l.any (unroutable p) then returnFrames num ch.frameMax p else []) ++
    if x.stage.isDone then confirmFrames num ch else [])
  returned : l.any (unroutable p) = true → x.stage.late = true
  early : x.stage.early = true → l.any live = false
  apart : l.any (unroutable p) = true → l.any live = false
  few : x.stage.few = true
  objects : ∀ r ∈ x.stage.objects msg, (x.server.message r).unlogged = messageOf c p
  appends : ∀ y ∈ l, y.live = true → Appends c num p msg y

namespace Tracks

variable {s : AmqpServer} {ch : Channel}

theorem begin (hch : s.channel c num = some ch) : Tracks c num p s.heap.size s ch [] (begin c p s) := by
  have hnew : Sends c s (Config.begin c p s).server [] := .of_connections rfl
  refine ⟨fun _ => hch, hnew, (fun h => nomatch h), fun _ => rfl, (fun h => nomatch h), rfl, fun r hr => ?_, ?_⟩
  · rw [List.mem_singleton.mp hr, Config.begin, message, newMessage, Heap.cell_alloc_self]
    rfl
  · intro y hy
    cases hy

theorem other (h : Tracks c num p msg s ch l x) (he : Elsewhere c msg x y) : Tracks c num p msg s ch l y := by
  obtain ⟨hearly, hlate, hdone, hfew, hobjects⟩ := he.stage.same_place
  refine ⟨fun hy => ?_, ?_, fun hl => ?_, fun hy => ?_, h.apart, hfew.trans h.few, fun r hr => ?_, h.appends⟩
  · rw [channel_of_own he.own]
    exact h.channel (hdone ▸ hy)
  · rw [hdone]
    have hsends := h.sends.trans (.of_own he.own)
    rwa [List.append_nil] at hsends
  · rw [hlate]
    exact h.returned hl
  · exact h.early (hearly ▸ hy)
  · rw [hobjects] at hr
    rw [he.objects r hr]
    exact h.objects r hr

theorem own (hm : p.mandatory = true) (h : Tracks c num p msg s ch l x) :
    Tracks c num p msg s ch (l ++ [x]) (x.advance c num p msg) := by
  have htakes : Takes c num p msg x (x.advance c num p msg) := takes_advance hm x
  have hmsg : ∀ y ∈ l ++ [x], y.live = true → Appends c num p msg y := by
    intro y hy hlive
    rcases List.mem_append.mp hy with hy | hy
    · exact h.appends y hy hlive
    · rw [List.mem_singleton.mp hy] at hlive ⊢
      exact appends_of_live hlive h.objects
  have hfew := htakes.few h.few
  have hobjects := htakes.objects h.few h.objects
  rcases htakes.spec with ⟨hun, heq⟩ | ⟨hun, ⟨hst, heq⟩ | hquiet⟩
  · -- The message goes back, before there was a turn.
    have hx := early_of_unroutable hun
    obtain ⟨hlate, hdone⟩ := not_late_of_early hx
    have hnone : l.any (unroutable p) = false :=
      Bool.eq_false_iff.mpr fun hsome => Bool.false_ne_true (hlate.symm.trans (h.returned hsome))
    have hlive : (l ++ [x]).any live = false := by
      rw [List.any_append, h.early hx, List.any_cons, not_live (.inl hx)]
      rfl
    have hchannel := h.channel hdone
    have hsends := h.sends.trans (sends_sendReturn (p := p) hchannel)
    rw [hnone, hdone] at hsends
    rw [heq] at hfew hobjects ⊢
    refine ⟨fun _ => ?_, ?_, fun _ => rfl, nofun, fun _ => hlive, hfew, hobjects, hmsg⟩
    · exact (channel_of_skeleton (skeleton_sendReturn ..) c num).trans hchannel
    · have hback : (l ++ [x]).any (unroutable p) = true := by rw [List.any_append, List.any_cons, hun, Bool.true_or, Bool.or_true]
      rw [hback]
      simpa [Stage.isDone] using hsends
  · have hlive : (l ++ [x]).any live = l.any live := by
      rw [List.any_append, List.any_cons, not_live (.inr (by rw [hst]; rfl))]
      simp
    have hback : (l ++ [x]).any (unroutable p) = l.any (unroutable p) := by simp [hun]
    have hdone : x.stage.isDone = false := by rw [hst]; rfl
    have hsends := h.sends.trans (sends_confirm (h.channel hdone))
    rw [hdone] at hsends
    rw [heq] at hfew hobjects ⊢
    refine ⟨nofun, ?_, fun _ => rfl, nofun, fun hl => ?_, hfew, hobjects, hmsg⟩
    · rw [hback]
      simpa [Stage.isDone] using hsends
    · rw [hlive]
      exact h.apart (hback ▸ hl)
  · have hback : (l ++ [x]).any (unroutable p) = l.any (unroutable p) := by simp [hun]
    have hlive : x.stage.early = true ∨ x.stage.late = true → (l ++ [x]).any live = l.any live := by
      intro hx
      rw [List.any_append, List.any_cons, not_live hx]
      simp
    refine ⟨fun hdone => ?_, ?_, fun hl => ?_, fun hy => ?_, fun hl => ?_, hfew, hobjects, hmsg⟩
    · rw [channel_of_own hquiet.own]
      exact h.channel (hquiet.isDone ▸ hdone)
    · rw [hback, hquiet.isDone]
      have hsends := h.sends.trans (.of_own hquiet.own)
      rwa [List.append_nil] at hsends
    · exact hquiet.late (h.returned (hback ▸ hl))
    · have hx := hquiet.early hy
      rw [hlive (.inl hx)]
      exact h.early hx
    · rw [hback] at hl
      rw [hlive (.inr (h.returned hl))]
      exact h.apart hl

theorem run (hm : p.mandatory = true) (h : Tracks c num p msg s ch [] x) (hrun : Run c num p msg x l y) :
    Tracks c num p msg s ch l y := by
  induction hrun with
  | refl => exact h
  | own _ ih => exact ih.own hm
  | other _ he ih => exact ih.other he

end Tracks

/-- A mandatory message is put into a queue of the virtual host or goes back, with its whole content and once, if, and
    only if, its exchange gives no queue or one that it gives is there in its turn. --/
theorem mandatory_delivered_or_returned_iff {s : AmqpServer} {ch : Channel} (hch : s.channel c num = some ch)
    (hm : p.mandatory = true) (hrun : Run c num p s.heap.size (begin c p s) l x) (hdone : x.stage.isDone = true) :
    ((Delivered c num p s.heap.size l ∧ Sends c s x.server (confirmFrames num ch)) ∨
      (¬Delivered c num p s.heap.size l ∧ Sends c s x.server (returnFrames num ch.frameMax p ++ confirmFrames num ch))) ↔
      l.any (unroutable p) = true ∨ l.any live = true := by
  have htracks := (Tracks.begin hch).run hm hrun
  have hdelivered : Delivered c num p s.heap.size l ↔ l.any live = true := by
    rw [List.any_eq_true]
    constructor
    · rintro ⟨y, hy, happ⟩
      exact ⟨y, hy, live_of_appends happ⟩
    · rintro ⟨y, hy, hlive⟩
      exact ⟨y, hy, htracks.appends y hy hlive⟩
  have hsends := htracks.sends
  rw [hdone, if_pos rfl] at hsends
  obtain ⟨conn, hconn, -⟩ := Option.bind_eq_some_iff.mp hch
  rw [hdelivered]
  cases hback : l.any (unroutable p) with
  | true =>
    rw [hback] at hsends
    have hlive := htracks.apart hback
    exact ⟨fun _ => .inl rfl, fun _ => .inr ⟨by rw [hlive]; exact Bool.false_ne_true, hsends⟩⟩
  | false =>
    rw [hback] at hsends
    constructor
    · rintro (⟨hlive, -⟩ | ⟨-, hreturned⟩)
      · exact .inr hlive
      · have hlen := congrArg List.length (hsends.unique hconn hreturned)
        simp only [Bool.false_eq_true, if_false, List.nil_append, returnFrames, List.cons_append, List.length_cons,
          List.length_append] at hlen
        omega
    · rintro (h | hlive)
      · cases h
      · exact .inl ⟨hlive, hsends⟩

/-! ### The handler -/

theorem Run.trans {l' : List Config} (h : Run c num p msg x l y) (h' : Run c num p msg y l' z) :
    Run c num p msg x (l ++ l') z := by
  induction h' with
  | refl => rwa [List.append_nil]
  | own _ ih =>
    rw [← List.append_assoc]
    exact ih.own
  | other _ he ih => exact ih.other he

theorem Run.one (x : Config) : Run c num p msg x [x] (x.advance c num p msg) := Run.refl.own

/-- What other connections do are steps of other threads. --/
theorem Elsewhere.of_move {c' : Nat} {k : Kind} {s' : AmqpServer} {st : Stage} {conn : Connection} (hv : Valid x.server)
    (hconn : x.server.connection c = some conn) (hm : Move c' k x.server s') (hne : c ≠ c') (hst : x.stage.Changes s' st)
    (hobjects : ∀ r ∈ x.stage.objects msg, s'.message r = x.server.message r) : Elsewhere c msg x ⟨st, s'⟩ :=
  ⟨hst, own_move hv hconn hm hne, hobjects⟩

/-! ### Examples -/

/-- The configurations of `n` sections that nobody gets in between of. --/
def sections (c : Nat) (num : UInt16) (p : PendingPublish) (msg : Ref) : Nat → Config → List Config
  | 0, _ => []
  | n + 1, x => x :: sections c num p msg n (x.advance c num p msg)

theorem run_sections (n : Nat) (x : Config) :
    Run c num p msg x (sections c num p msg n x) ((advance c num p msg)^[n] x) := by
  induction n generalizing x with
  | zero => exact .refl
  | succ n ih => exact (Run.one x).trans (ih _)

/-- A mandatory publish with this key to the default exchange. --/
def mandatoryTo (key : Bytes) : PendingPublish := { exchange := [], routing_key := key, mandatory := true }

/-- Connection 1 has the queue "q". --/
def queueRun : List Event :=
  Client.connect 1 ++ [Client.openChannel 1 1, Client.assertQueue 1 1 (ascii "q") false false false false []]

theorem mandatory_delivered_to_queue :
    let s := freshServer.run queueRun
    let p := mandatoryTo (ascii "q")
    let l := sections 1 1 p s.heap.size 8 (begin 1 p s)
    ∃ ch x, Run 1 1 p s.heap.size (begin 1 p s) l x ∧ x.stage.isDone = true ∧
      ((Delivered 1 1 p s.heap.size l ∧ Sends 1 s x.server (confirmFrames 1 ch)) ∨
        (¬Delivered 1 1 p s.heap.size l ∧ Sends 1 s x.server (returnFrames 1 ch.frameMax p ++ confirmFrames 1 ch))) := by
  intro s p l
  have hsome : (s.channel 1 1).isSome = true := by decide +kernel
  obtain ⟨ch, hch⟩ := Option.isSome_iff_exists.mp hsome
  have hdone : ((advance 1 1 p s.heap.size)^[8] (begin 1 p s)).stage.isDone = true := by decide +kernel
  have hlive : l.any live = true := by decide +kernel
  have hrun : Run 1 1 p s.heap.size (begin 1 p s) l _ := run_sections 8 _
  exact ⟨ch, _, hrun, hdone, (mandatory_delivered_or_returned_iff hch rfl hrun hdone).mpr (.inr hlive)⟩

/-- Connection 1 has the auto-delete queue "a", and nobody consumes from it; connection 2 ends, and the queue with it, but
    not its binding. --/
def staleBindingRun : List Event :=
  Client.connect 1 ++ Client.connect 2 ++
    [Client.openChannel 1 1, Client.assertQueue 1 1 (ascii "a") false false false true [], .disconnect 2]

/-- The message is neither put into a queue nor given back. --/
theorem mandatory_message_lost :
    let s := freshServer.run staleBindingRun
    let p := mandatoryTo (ascii "a")
    let l := sections 1 1 p s.heap.size 6 (begin 1 p s)
    ∃ x, Run 1 1 p s.heap.size (begin 1 p s) l x ∧ x.stage.isDone = true ∧ ¬Delivered 1 1 p s.heap.size l ∧
      Sends 1 s x.server [] := by
  intro s p l
  have hsome : (s.channel 1 1).any (fun ch => !ch.confirmMode) = true := by decide +kernel
  obtain ⟨ch, hch, hmode⟩ := (Option.any_eq_true _ _).mp hsome
  have hdone : ((advance 1 1 p s.heap.size)^[6] (begin 1 p s)).stage.isDone = true := by decide +kernel
  have hlive : l.any live = false := by decide +kernel
  have hback : l.any (unroutable p) = false := by decide +kernel
  have hrun : Run 1 1 p s.heap.size (begin 1 p s) l _ := run_sections 6 _
  refine ⟨_, hrun, hdone, ?_, ?_⟩
  · rintro ⟨y, hy, happ⟩
    have hany : l.any live = true := List.any_eq_true.mpr ⟨y, hy, live_of_appends happ⟩
    rw [hlive] at hany
    cases hany
  · have hsends := ((Tracks.begin hch).run rfl hrun).sends
    have hplain : ch.confirmMode = false := by simpa using hmode
    rw [hdone, hback, confirmFrames, hplain] at hsends
    exact hsends

end Config
end Broko.Broker
