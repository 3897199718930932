import Broko.Theorems.Cascades
import Broko.Theorems.Expiry

/-! What a queue does with the messages that have expired or are rejected: which of them it takes, where each of them goes,
    and what the message is then. A queue whose dead-letter exchange is the default exchange, with the empty name, counts as
    a queue without one. -/

namespace Broko.Broker
open Amqp Storage

/-- The headers that `deadLetter` sets. --/
def deathKeys : List Bytes :=
  [ascii "x-first-death-reason", ascii "x-first-death-queue", ascii "x-first-death-exchange"]

namespace Message

def header (m : Message) (key : Bytes) : Option FieldValue := (m.properties.headers.getD []).find key

/-- The same message, up to headers about its death. --/
structure SameContent (m m' : Message) : Prop where
  exchange : m'.exchange = m.exchange
  routing_key : m'.routing_key = m.routing_key
  body : m'.body = m.body
  properties : { m'.properties with headers := none } = { m.properties with headers := none }
  headers : ∀ key, key ∉ deathKeys → m'.header key = m.header key
  marks : ∀ key ∈ deathKeys, (m.header key).isSome = true → (m'.header key).isSome = true

namespace SameContent
variable {m m₁ m' : Message}

theorem refl (m : Message) : SameContent m m := ⟨rfl, rfl, rfl, rfl, fun _ _ => rfl, fun _ _ h => h⟩

theorem trans (h₁ : SameContent m m₁) (h₂ : SameContent m₁ m') : SameContent m m' :=
  ⟨h₂.exchange.trans h₁.exchange, h₂.routing_key.trans h₁.routing_key, h₂.body.trans h₁.body,
    h₂.properties.trans h₁.properties, fun key hkey => (h₂.headers key hkey).trans (h₁.headers key hkey),
    fun key hkey h => h₂.marks key hkey (h₁.marks key hkey h)⟩

end SameContent
end Message

/-! ### Headers -/

theorem find_assign_self (key : Bytes) (v : FieldValue) (t : FieldTable) : (FieldTable.assign key v t).find key = some v := by
  induction t with
  | nil => exact List.lookup_cons_self
  | cons e t ih =>
    obtain ⟨n, w⟩ := e
    rw [FieldTable.assign]
    split
    · exact List.lookup_cons_self
    · rename_i hle
      split
      · rename_i hlt
        have hne : (key == n) = false := beq_false_of_ne fun heq => List.lt_irrefl key (heq ▸ hlt)
        rw [FieldTable.find, List.lookup_cons, hne]
        exact ih
      · rename_i hge
        have heq : key = n := List.le_antisymm (List.not_lt.mp hge) (List.not_lt.mp hle)
        rw [heq]
        exact List.lookup_cons_self

theorem find_assign_of_ne {key key' : Bytes} (hne : key' ≠ key) (v : FieldValue) (t : FieldTable) :
    (FieldTable.assign key v t).find key' = t.find key' := by
  have hskip : ∀ w t, FieldTable.find key' ((key, w) :: t) = FieldTable.find key' t := fun w t => by
    rw [FieldTable.find, List.lookup_cons, beq_false_of_ne hne, FieldTable.find]
  induction t with
  | nil => exact hskip v []
  | cons e t ih =>
    obtain ⟨n, w⟩ := e
    rw [FieldTable.assign]
    split
    · exact hskip v _
    · rename_i hle
      split
      · rw [FieldTable.find, List.lookup_cons, FieldTable.find, List.lookup_cons]
        split
        · rfl
        · exact ih
      · rename_i hge
        have heq : n = key := List.le_antisymm (List.not_lt.mp hle) (List.not_lt.mp hge)
        rw [heq, hskip, hskip]

theorem header_setHeader (key value : Bytes) (m : Message) (key' : Bytes) :
    (setHeader key value m).header key' = if key' = key then some (.longString value) else m.header key' := by
  rw [Message.header, setHeader]
  split
  · rename_i h
    rw [h]
    exact find_assign_self ..
  · rename_i h
    exact find_assign_of_ne h ..

theorem sameContent_setHeader {key : Bytes} (hkey : key ∈ deathKeys) (value : Bytes) (m : Message) :
    m.SameContent (setHeader key value m) := by
  refine ⟨rfl, rfl, rfl, rfl, fun key' hkey' => ?_, fun key' _ h => ?_⟩
  · rw [header_setHeader, if_neg]
    exact fun heq => hkey' (heq ▸ hkey)
  · rw [header_setHeader]
    split
    · rfl
    · exact h

/-- The message with its death in the headers. --/
def Message.deathMarked (name reason : Bytes) (m : Message) : Message :=
  setHeader (ascii "x-first-death-exchange") m.exchange
    (setHeader (ascii "x-first-death-queue") name
      (setHeader (ascii "x-first-death-reason") reason { m with dlx_hops := m.dlx_hops + 1 }))

theorem sameContent_deathHeaders (name reason : Bytes) (m : Message) : m.SameContent (deathHeaders name reason m) := by
  have hreason := sameContent_setHeader (show ascii "x-first-death-reason" ∈ deathKeys by decide) reason m
  have hqueue := hreason.trans (sameContent_setHeader (show ascii "x-first-death-queue" ∈ deathKeys by decide) name _)
  exact hqueue.trans (sameContent_setHeader (show ascii "x-first-death-exchange" ∈ deathKeys by decide) m.exchange _)

theorem sameContent_deathMarked (name reason : Bytes) (m : Message) : m.SameContent (m.deathMarked name reason) := by
  have hhop : m.SameContent { m with dlx_hops := m.dlx_hops + 1 } := ⟨rfl, rfl, rfl, rfl, fun _ _ => rfl, fun _ _ h => h⟩
  exact hhop.trans (sameContent_deathHeaders name reason _)

theorem marks_deathMarked (name reason : Bytes) (m : Message) {key : Bytes} (hkey : key ∈ deathKeys) :
    ((m.deathMarked name reason).header key).isSome = true := by
  rw [Message.deathMarked, header_setHeader, header_setHeader, header_setHeader]
  simp only [deathKeys, List.mem_cons, List.not_mem_nil, or_false] at hkey
  rcases hkey with rfl | rfl | rfl
  · rw [if_neg (by decide), if_neg (by decide), if_pos rfl]
    rfl
  · rw [if_neg (by decide), if_pos rfl]
    rfl
  · rw [if_pos rfl]
    rfl

namespace AmqpServer

variable {n : Nat} {name reason : Bytes} {r m : Ref} {q : MessageQueue} {op : CascadeOp} {s s₁ s' : AmqpServer}
  {work : CascadeWork} {calls : List CascadeCall}

/-! ### One letter -/

theorem modifyMessage_modifyMessage (r : Ref) (f g : Message → Message) :
    (s.modifyMessage r f).modifyMessage r g = s.modifyMessage r fun m => g (f m) := by
  have hcell : ∀ r', ((s.heap.modify r fun x => { x with msg := f x.msg }).modify r fun x => { x with msg := g x.msg }).cell r' =
      (s.heap.modify r fun x => { x with msg := g (f x.msg) }).cell r' := by
    intro r'
    by_cases h : r' = r
    · rw [h, Heap.cell_modify_self, Heap.cell_modify_self, Heap.cell_modify_self]
    · rw [Heap.cell_modify_of_ne h, Heap.cell_modify_of_ne h, Heap.cell_modify_of_ne h]
  have hheap : (s.heap.modify r fun x => { x with msg := f x.msg }).modify r (fun x => { x with msg := g x.msg }) =
      s.heap.modify r fun x => { x with msg := g (f x.msg) } := congrArg (Heap.mk s.heap.size) (funext hcell)
  rw [modifyMessage, modifyMessage, modifyMessage, hheap]

/-- Where a queue sends its dead letters: the exchange, and the routing key of the message if the queue has none. --/
def deathAddress (q : MessageQueue) (m : Message) : Bytes × Bytes :=
  (q.dlxExchange, if q.dlxRoutingKey = [] then m.routing_key else q.dlxRoutingKey)

theorem letter_off (hq : s.queue name = some q) (hoff : q.dlxExchange = []) : letter name reason s r = (s, none) := by
  rw [letter, hq]
  exact if_pos (.inl hoff)

/-- A letter that has a hop left, from a queue with a dead-letter exchange. --/
theorem letter_on (hq : s.queue name = some q) (hon : q.dlxExchange ≠ []) (hfn : q.deadLetterFn = true)
    (hleft : (s.message r).dlx_hops < MAX_DLX_HOPS) :
    letter name reason s r =
      (s.modifyMessage r (Message.deathMarked name reason), some (deathAddress q (s.message r))) := by
  have hhop : ¬MAX_DLX_HOPS < ((s.modifyMessage r fun m => { m with dlx_hops := m.dlx_hops + 1 }).message r).dlx_hops := by
    rw [message_modifyMessage_self]
    exact not_lt.mpr hleft
  rw [letter, hq]
  dsimp only
  rw [if_neg (by simp [hon, hfn]), if_neg hhop, modifyMessage_modifyMessage, message_modifyMessage_self]
  rfl

theorem sameContent_modifyMessage {f : Message → Message} (hf : ∀ x : Message, x.SameContent (f x)) (r m : Ref) :
    (s.message m).SameContent ((s.modifyMessage r f).message m) := by
  by_cases hm : m = r
  · rw [hm, message_modifyMessage_self]
    exact hf _
  · rw [message_modifyMessage_of_ne hm]
    exact .refl _

theorem sameContent_letter (name reason : Bytes) (s : AmqpServer) (r m : Ref) :
    (s.message m).SameContent ((letter name reason s r).1.message m) := by
  cases hq : s.queue name with
  | none =>
    rw [letter, hq]
    exact .refl _
  | some q =>
    by_cases hoff : q.dlxExchange = [] ∨ q.deadLetterFn = false
    · have hsame : letter name reason s r = (s, none) := by
        rw [letter, hq]
        exact if_pos hoff
      rw [hsame]
      exact .refl _
    · rw [not_or] at hoff
      by_cases hleft : (s.message r).dlx_hops < MAX_DLX_HOPS
      · rw [letter_on hq hoff.1 (by simpa using hoff.2) hleft]
        exact sameContent_modifyMessage (sameContent_deathMarked name reason) r m
      · have hhop : MAX_DLX_HOPS < ((s.modifyMessage r fun m => { m with dlx_hops := m.dlx_hops + 1 }).message r).dlx_hops := by
          rw [message_modifyMessage_self]
          exact Nat.lt_succ_of_le (not_lt.mp hleft)
        have hlimit : letter name reason s r = (s.modifyMessage r fun m => { m with dlx_hops := m.dlx_hops + 1 }, none) := by
          rw [letter, hq]
          dsimp only
          rw [if_neg (by simpa using hoff), if_pos hhop]
        rw [hlimit]
        exact sameContent_modifyMessage (f := fun m => { m with dlx_hops := m.dlx_hops + 1 })
          (fun x => ⟨rfl, rfl, rfl, rfl, fun _ _ => rfl, fun _ _ h => h⟩) r m

theorem KeepsMessages.sameContent (h : KeepsMessages n s s') (hm : m < n) : (s.message m).SameContent (s'.message m) := by
  obtain ⟨now, heq⟩ := h.messages m hm
  rw [heq]
  exact ⟨rfl, rfl, rfl, rfl, fun _ _ => rfl, fun _ _ h => h⟩

/-- A cascade leaves the messages what they are, up to headers about their death. --/
theorem Cascade.sameContent (h : Cascade s work calls s') (hheld : Held n s) (hn : n ≤ s.heap.size) (hw : Within n work)
    (hm : m < n) : (s.message m).SameContent (s'.message m) := by
  induction h with
  | delivered => exact .refl _
  | missing _ _ ih => exact ih hheld hn hw
  | enqueue hq hexpired _ ihexpired ihrest =>
    rename_i s name names r q _ _ _ _ _
    have hlock := KeepsMessages.enqueueLocked (n := n) name hn hw
    have hpush := KeepsMessages.pushBack (s := s) name hw
    have hmem : Within n (.letters name (ascii "expired") (s.enqueueLocked name r).1) :=
      fun m hm => lt_of_collectExpired (hpush.held hheld) hm
    have hspent := hexpired.spends (hlock.held hheld) (hn.trans hlock.size) hmem
    have hcontent := (hlock.sameContent hm).trans (ihexpired (hlock.held hheld) (hn.trans hlock.size) hmem)
    exact hcontent.trans (ihrest hspent.held (hn.trans (hlock.size.trans hspent.size)) hw)
  | done => exact .refl _
  | dropped hl _ ih =>
    rename_i s name reason r dlq s₁ _ _ _
    have hspent := (Cascade.dropped hl .done).spends hheld hn (fun m hm => hw m (List.mem_singleton.mp hm ▸ List.mem_cons_self))
    have hletter := sameContent_letter name reason s r m
    rw [hl] at hletter
    exact hletter.trans (ih hspent.held (hn.trans hspent.size) fun m hm => hw m (List.mem_cons_of_mem _ hm))
  | routed hl hqueues _ ihqueues ihrest =>
    rename_i s name reason r dlq s₁ addr _ _ _ _ _
    have hr : r < n := hw r List.mem_cons_self
    have hspent := (Cascade.routed hl hqueues .done).spends hheld hn (fun m hm => List.mem_singleton.mp hm ▸ hr)
    have hletter := sameContent_letter name reason s r m
    rw [hl] at hletter
    have hone : OneHop r s s₁ := by
      rcases letter_cases name reason s r with heq | ⟨s₂, heq, -, -⟩ | ⟨s₂, addr', heq, -, hhop⟩
      · cases hl.symm.trans heq
      · cases hl.symm.trans heq
      · obtain ⟨rfl, -⟩ := Prod.mk.inj (hl.symm.trans heq)
        exact hhop
    have hcontent := hletter.trans (ihqueues (Spends.held_of_queues hheld hone.queues) (hone.size ▸ hn) hr)
    exact hcontent.trans (ihrest hspent.held (hn.trans hspent.size) fun m hm => hw m (List.mem_cons_of_mem _ hm))

/-! ### The calls of one letter -/

theorem Cascade.deliver_cons {names : List Bytes} {calls₁ calls₂ : List CascadeCall}
    (h₁ : Cascade s (.deliver [name] r) calls₁ s₁) (h₂ : Cascade s₁ (.deliver names r) calls₂ s') :
    ∃ calls, Cascade s (.deliver (name :: names) r) calls s' := by
  cases h₁ with
  | missing hq rest =>
    cases rest
    exact ⟨_, .missing hq h₂⟩
  | enqueue hq expired rest =>
    cases rest
    exact ⟨_, .enqueue hq expired h₂⟩

/-- `deliverToQueue` for the queues of a list, each with the fuel of its own state. --/
theorem exists_deliverToQueue (names : List Bytes) (s : AmqpServer) (hheld : Held n s) (hn : n ≤ s.heap.size) (hr : r < n) :
    ∃ calls, Cascade s (.deliver names r) calls (names.foldl (fun t qname => t.deliverToQueue qname r) s) := by
  induction names generalizing s with
  | nil => exact ⟨_, .delivered⟩
  | cons name names ih =>
    obtain ⟨calls₁, hone⟩ := exists_deliver s.dlxFuel s [name] r hheld hn hr (budget_lt_dlxFuel hn)
    have hspent := hone.spends hheld hn hr
    obtain ⟨calls₂, hrest⟩ := ih _ hspent.held (hn.trans hspent.size)
    exact hone.deliver_cons hrest

/-- `deadLetter` is its letter and the calls that follow. --/
theorem deadLetter_calls (hheld : Held n s) (hn : n ≤ s.heap.size) (hr : r < n) :
    deadLetter name reason s r =
      ((letterCalls name reason s r).map Prod.snd).foldl (fun t qname => t.deliverToQueue qname r)
        (letter name reason s r).1 := by
  rw [deadLetter, deadLetterWith_letter, letterCalls]
  rcases letter_cases name reason s r with heq | ⟨s₁, heq, -⟩ | ⟨s₁, addr, heq, hleft, hhop⟩
  · rw [heq]
    rfl
  · rw [heq]
    rfl
  · rw [heq]
    dsimp only
    rw [deliverCalls, Prefix.map_snd_visits]
    have hheld₁ := Spends.held_of_queues hheld hhop.queues
    have hn₁ : n ≤ s₁.heap.size := hhop.size ▸ hn
    obtain ⟨calls₁, h₁⟩ := exists_deliver s.dlxFuel s₁ (s₁.letterQueues r addr) r hheld₁ hn₁ hr
      ((hhop.budget hr hleft).trans (budget_lt_dlxFuel hn))
    obtain ⟨calls₂, h₂⟩ := exists_deliverToQueue (s₁.letterQueues r addr) s₁ hheld₁ hn₁ hr
    exact (h₁.unique h₂).2

theorem sameContent_deliverCalls {m₀ : Message} {call : AmqpServer × Bytes} (names : List Bytes) (s : AmqpServer)
    (hheld : Held n s) (hn : n ≤ s.heap.size) (hr : r < n) (hm : m₀.SameContent (s.message r))
    (hcall : call ∈ deliverCalls r s names) : m₀.SameContent (call.1.message r) := by
  induction names generalizing s with
  | nil => cases hcall
  | cons name names ih =>
    rcases List.mem_cons.mp hcall with rfl | hcall
    · exact hm
    · obtain ⟨calls, hone⟩ := exists_deliver s.dlxFuel s [name] r hheld hn hr (budget_lt_dlxFuel hn)
      have hspent := hone.spends hheld hn hr
      exact ih _ hspent.held (hn.trans hspent.size) (hm.trans (hone.sameContent hheld hn hr hr)) hcall

/-! ### Which messages are taken -/

/-- `collectExpired` takes the longest run of messages at the front that have reached their time to live, and leaves the
    rest and everything else alone. --/
structure TakesExpired (name : Bytes) (q : MessageQueue) (s : AmqpServer) : Prop where
  run : ∃ rest, q.messages = (s.collectExpired name).1 ++ rest ∧
    (∀ r ∈ (s.collectExpired name).1, s.isExpired q s.now r = true) ∧
    (∀ r, rest.head? = some r → s.isExpired q s.now r = false) ∧
    (s.collectExpired name).2.queue name = some { q with messages := rest }
  heap : (s.collectExpired name).2.heap = s.heap
  others : ∀ name', name' ≠ name → (s.collectExpired name).2.queue name' = s.queue name'

theorem takesExpired (hq : s.queue name = some q) : TakesExpired name q s := by
  have hdlq : (s.collectExpired name).1 = q.messages.takeWhile (s.isExpired q s.now) := by
    have hleft := queue_collectExpired hq
    rw [collectExpired, hq] at hleft ⊢
    dsimp only at hleft ⊢
    split
    · rename_i h
      cases hm : q.messages with
      | nil => rfl
      | cons head rest =>
        have hhead : s.isExpired q s.now head = false := isExpired_of_no_ttl h.1 h.2 (hm ▸ List.mem_cons_self)
        rw [List.takeWhile_cons, hhead, if_neg Bool.false_ne_true]
    · rfl
  refine ⟨⟨q.messages.dropWhile (s.isExpired q s.now), ?_, ?_, ?_, queue_collectExpired hq⟩, heap_collectExpired name, ?_⟩
  · rw [hdlq, List.takeWhile_append_dropWhile]
  · rw [hdlq]
    exact fun r hr => List.all_eq_true.mp List.all_takeWhile r hr
  · intro r hr
    have hnot := List.head?_dropWhile_not (s.isExpired q s.now) q.messages
    rw [hr] at hnot
    exact hnot
  · intro name' hne
    rw [collectExpired, hq]
    dsimp only
    split
    · rfl
    · exact Assoc.lookup_modify_of_ne hne

/-! ### Operations -/

/-- What `declareQueue` settles about expiry and dead letters. --/
def letterSettings (q : MessageQueue) : Int × Bytes × Bytes × Bool :=
  (q.queueTtlMs, q.dlxExchange, q.dlxRoutingKey, q.deadLetterFn)

/-- The queue has what `declareQueue` gave it when it made it with these arguments. --/
def CreatedWith (name : Bytes) (args : FieldTable) (q : MessageQueue) : Prop :=
  ∃ (s₀ : AmqpServer) (given : Bytes) (durable exclusive autoDelete : Bool) (connectionId : Nat) (q₀ : MessageQueue),
    s₀.queue name = none ∧
    (s₀.declareQueue given false durable exclusive autoDelete args connectionId).1 = .ok name ∧
    (s₀.declareQueue given false durable exclusive autoDelete args connectionId).2.queue name = some q₀ ∧
    letterSettings q = letterSettings q₀

theorem created_settings {args : FieldTable} (h : CreatedWith name args q) :
    q.dlxExchange = ((args.find (ascii "x-dead-letter-exchange")).map Exchange.stringVal).getD [] ∧ q.deadLetterFn = true := by
  obtain ⟨s₀, given, durable, exclusive, autoDelete, connectionId, q₀, hnone, hname, hq₀, hsettings⟩ := h
  have hcounter : ∃ k, (if given = [] then { s₀ with nameCounter := s₀.nameCounter + 1 } else s₀) =
      { s₀ with nameCounter := k } := by
    split
    · exact ⟨_, rfl⟩
    · exact ⟨s₀.nameCounter, rfl⟩
  obtain ⟨k, hk⟩ := hcounter
  rw [declareQueue, hk] at hname hq₀
  dsimp only at hname hq₀
  generalize (if given = [] then ascii "amq.gen-" ++ decimal k.toNat else given) = qname at hname hq₀
  have hsame : ({ s₀ with nameCounter := k } : AmqpServer).queue qname = s₀.queue qname := rfl
  rw [hsame] at hname hq₀
  cases hfound : s₀.queue qname with
  | some q₁ =>
    rw [hfound] at hname
    dsimp only at hname
    rw [if_neg Bool.false_ne_true] at hname
    split at hname
    · cases hname
    · obtain rfl : qname = name := Except.ok.inj hname
      exact absurd (hfound.symm.trans hnone) (Option.some_ne_none q₁)
  | none =>
    rw [hfound] at hname hq₀
    dsimp only at hname hq₀
    rw [if_neg Bool.false_ne_true] at hname hq₀
    obtain rfl : qname = name := Except.ok.inj hname
    have hnew : some q₀ = some (MessageQueue.configure
        { name := qname, durable, exclusive, auto_delete := autoDelete, arguments := args,
          owner_connection := if exclusive then connectionId else 0, deadLetterFn := true }) := by
      rw [← hq₀]
      cases durable <;> exact Assoc.lookup_insert_self ..
    obtain rfl := Option.some.inj hnew
    simp only [letterSettings, Prod.mk.injEq] at hsettings
    exact ⟨hsettings.2.1, hsettings.2.2.2⟩

/-- The queues that `routeMessage` returns for a dead letter of the queue. --/
def deadRoutes (name reason : Bytes) (q : MessageQueue) (s : AmqpServer) (r : Ref) : List Bytes :=
  (s.modifyMessage r (Message.deathMarked name reason)).letterQueues r (deathAddress q (s.message r))

/-- `deadLetter` leads to one call of `deliverToQueue` for each of these queues, with the message as it was up to the headers
    about its death, which it then has. --/
structure PassedOn (name reason : Bytes) (q : MessageQueue) (s : AmqpServer) (r : Ref) : Prop where
  calls : letterCalls name reason s r =
    deliverCalls r (s.modifyMessage r (Message.deathMarked name reason)) (deadRoutes name reason q s r)
  content : ∀ call ∈ letterCalls name reason s r, (s.message r).SameContent (call.1.message r)
  marks : ∀ call ∈ letterCalls name reason s r, ∀ key ∈ deathKeys, ((call.1.message r).header key).isSome = true

/-- An operation takes out what has expired, or the rejected message, and dead-letters it, one message after the other. --/
structure DeadLettersExact (name : Bytes) (q : MessageQueue) (op : CascadeOp) (s : AmqpServer) : Prop where
  removed : ∀ t q', s.collecting name op = some t → t.queue name = some q' →
    TakesExpired name q' t ∧ (s.lettersBy name op).1 = (t.collectExpired name).1
  ends : s.ends name op = (s.lettersBy name op).1.foldl (deadLetter name op.reason) (s.lettersBy name op).2
  runs : ∀ x ∈ s.turnsOf name op, deadLetter name op.reason x.1 x.2 =
    ((letterCalls name op.reason x.1 x.2).map Prod.snd).foldl (fun t qname => t.deliverToQueue qname x.2)
      (letter name op.reason x.1 x.2).1
  passedOn : ∀ x ∈ s.turnsOf name op, (x.1.message x.2).dlx_hops < MAX_DLX_HOPS → PassedOn name op.reason q x.1 x.2

theorem skeleton_lettersBy (name : Bytes) (s : AmqpServer) (op : CascadeOp) : (s.lettersBy name op).2.skeleton = s.skeleton := by
  cases op with
  | enqueue r =>
    change (((s.pushBack name r).collectExpired name).2.dispatchLocked name).skeleton = _
    rw [skeleton_dispatchLocked, skeleton_collectExpired, skeleton_pushBack]
  | flush =>
    change ((s.collectExpired name).2.dispatchLocked name).skeleton = _
    rw [skeleton_dispatchLocked, skeleton_collectExpired]
  | get =>
    refine (skeleton_modifyQueue ?_).trans (skeleton_collectExpired name)
    exact fun _ => rfl
  | reject r => rfl

/-- Where the letters of an operation start. --/
theorem spends_lettersBy (name : Bytes) (op : CascadeOp) (hheld : Held s.heap.size s)
    (hop : ∀ r ∈ op.message?, r < s.heap.size) :
    Spends s.heap.size [] s (s.lettersBy name op).2 ∧ ∀ m ∈ (s.lettersBy name op).1, m < s.heap.size := by
  cases op with
  | enqueue r =>
    have hr : r < s.heap.size := hop r rfl
    refine ⟨.of_keepsMessages (.enqueueLocked name le_rfl hr) hheld, fun m hm => ?_⟩
    exact lt_of_collectExpired ((KeepsMessages.pushBack name hr).held hheld) hm
  | flush =>
    have hcollect : KeepsMessages s.heap.size s (s.collectExpired name).2 := .collectExpired name
    exact ⟨.of_keepsMessages (hcollect.trans (.dispatchLocked name hcollect.size)) hheld,
      fun m hm => lt_of_collectExpired hheld hm⟩
  | get =>
    have hcollect : KeepsMessages s.heap.size s (s.collectExpired name).2 := .collectExpired name
    have hpop : KeepsMessages s.heap.size (s.collectExpired name).2 (s.getLocked name).2.2 :=
      .modifyQueue name fun q hq r hr => hq r (List.mem_of_mem_tail hr)
    exact ⟨.of_keepsMessages (hcollect.trans hpop) hheld, fun m hm => lt_of_collectExpired hheld hm⟩
  | reject r => exact ⟨.refl hheld, fun m hm => List.mem_singleton.mp hm ▸ hop r rfl⟩

/-- The state of every turn. --/
theorem of_mem_turns {x : AmqpServer × Ref} (dlq : List Ref) (s : AmqpServer) (hheld : Held n s) (hn : n ≤ s.heap.size)
    (hdlq : ∀ r ∈ dlq, r < n) (hx : x ∈ turns name reason dlq s) :
    Held n x.1 ∧ n ≤ x.1.heap.size ∧ x.2 < n ∧ x.1.skeleton = s.skeleton := by
  induction dlq generalizing s with
  | nil => cases hx
  | cons r dlq ih =>
    have hr : r < n := hdlq r List.mem_cons_self
    rcases List.mem_cons.mp hx with rfl | hx
    · exact ⟨hheld, hn, hr, rfl⟩
    · have hone : Within n (.letters name reason [r]) := fun m hm => List.mem_singleton.mp hm ▸ hr
      obtain ⟨calls, hcascade⟩ := exists_deadLetters name reason [r] s hheld hn hone
      have hspent := hcascade.spends hheld hn hone
      obtain ⟨hheld', hn', hx', hskel⟩ := ih _ hspent.held (hn.trans hspent.size)
        (fun m hm => hdlq m (List.mem_cons_of_mem _ hm)) hx
      exact ⟨hheld', hn', hx', hskel.trans (skeleton_deadLetter name reason r)⟩

/-- An operation is its section and its letters. --/
theorem ends_eq (name : Bytes) (op : CascadeOp) (hq : s.queue name = some q) (hheld : Held s.heap.size s)
    (hop : ∀ r ∈ op.message?, r < s.heap.size) :
    s.ends name op = (s.lettersBy name op).1.foldl (deadLetter name op.reason) (s.lettersBy name op).2 := by
  cases op with
  | enqueue r =>
    have hr : r < s.heap.size := hop r rfl
    obtain ⟨hspent, hdlq⟩ := spends_lettersBy name (.enqueue r) hheld hop
    obtain ⟨calls₁, hexpired⟩ := exists_deadLetters name (ascii "expired") _ _ hspent.held hspent.size hdlq
    obtain ⟨calls₂, hwhole⟩ := exists_deliver s.dlxFuel s [name] r hheld le_rfl hr (budget_lt_dlxFuel le_rfl)
    have hparts : Cascade s (.deliver [name] r) _ _ := .enqueue hq hexpired .delivered
    exact (hwhole.unique hparts).2
  | flush => rfl
  | get => rfl
  | reject r => rfl

/-- What an operation does with expired and rejected messages is exact if the dead-letter exchange of the queue is not the
    default exchange, and otherwise only as long as the messages would be routed nowhere. --/
theorem dead_letters_exact_iff {args : FieldTable} {v : FieldValue} {ex : Bytes} (hq : s.queue name = some q)
    (hcreated : CreatedWith name args q) (hdlx : args.find (ascii "x-dead-letter-exchange") = some v)
    (hstring : v = .longString ex ∨ v = .shortString ex) (hheld : Held s.heap.size s)
    (hop : ∀ r ∈ op.message?, r < s.heap.size) :
    DeadLettersExact name q op s ↔
      ex ≠ [] ∨ ∀ x ∈ s.turnsOf name op, (x.1.message x.2).dlx_hops < MAX_DLX_HOPS →
        deadRoutes name op.reason q x.1 x.2 = [] := by
  obtain ⟨hexchange, hfn⟩ := created_settings hcreated
  have hexchange : q.dlxExchange = ex := by
    rw [hexchange, hdlx]
    rcases hstring with rfl | rfl <;> rfl
  obtain ⟨hspent, hdlq⟩ := spends_lettersBy name op hheld hop
  have hturn : ∀ x ∈ s.turnsOf name op, Held s.heap.size x.1 ∧ s.heap.size ≤ x.1.heap.size ∧ x.2 < s.heap.size ∧
      ∃ q', x.1.queue name = some q' ∧ q'.dlxExchange = ex ∧ q'.deadLetterFn = true ∧
        ∀ m, deathAddress q' m = deathAddress q m := by
    intro x hx
    obtain ⟨hheld', hn', hx', hskel⟩ := of_mem_turns _ _ hspent.held hspent.size hdlq hx
    obtain ⟨q', hq', hframe⟩ := queue_of_skeleton (hskel.trans (skeleton_lettersBy name s op)) hq
    have hsettings : q'.frame.dlxExchange = q.frame.dlxExchange ∧ q'.frame.dlxRoutingKey = q.frame.dlxRoutingKey ∧
        q'.frame.deadLetterFn = q.frame.deadLetterFn := by rw [hframe]; exact ⟨rfl, rfl, rfl⟩
    obtain ⟨hsame, hkey, hfn'⟩ : q'.dlxExchange = q.dlxExchange ∧ q'.dlxRoutingKey = q.dlxRoutingKey ∧
        q'.deadLetterFn = q.deadLetterFn := hsettings
    refine ⟨hheld', hn', hx', q', hq', hsame.trans hexchange, hfn'.trans hfn, fun m => ?_⟩
    rw [deathAddress, deathAddress, hsame, hkey]
  constructor
  · intro hexact
    by_cases hempty : ex = []
    · refine .inr fun x hx hleft => ?_
      obtain ⟨-, -, -, q', hq', hdlx', -, -⟩ := hturn x hx
      have hcalls := (hexact.passedOn x hx hleft).calls
      rw [letterCalls, letter_off hq' (hdlx'.trans hempty)] at hcalls
      cases hroutes : deadRoutes name op.reason q x.1 x.2 with
      | nil => rfl
      | cons name' names =>
        rw [hroutes] at hcalls
        cases hcalls
    · exact .inl hempty
  · intro hcond
    refine ⟨?_, ends_eq name op hq hheld hop, ?_, ?_⟩
    · intro t q' ht hq'
      refine ⟨takesExpired hq', ?_⟩
      cases op <;> cases ht <;> rfl
    · intro x hx
      obtain ⟨hheld', hn', hx', -⟩ := hturn x hx
      exact deadLetter_calls hheld' hn' hx'
    · intro x hx hleft
      obtain ⟨hheld', hn', hx', q', hq', hdlx', hfn', haddr⟩ := hturn x hx
      by_cases hempty : ex = []
      · have hnone : deadRoutes name op.reason q x.1 x.2 = [] := hcond.resolve_left (fun h => h hempty) x hx hleft
        have hcalls : letterCalls name op.reason x.1 x.2 = [] := by rw [letterCalls, letter_off hq' (hdlx'.trans hempty)]
        refine ⟨?_, ?_, ?_⟩
        · rw [hcalls, hnone]
          rfl
        · rw [hcalls]
          exact nofun
        · rw [hcalls]
          exact nofun
      · have hon : letter name op.reason x.1 x.2 = _ := letter_on hq' (hdlx'.symm ▸ hempty) hfn' hleft
        have hcalls : letterCalls name op.reason x.1 x.2 =
            deliverCalls x.2 (x.1.modifyMessage x.2 (Message.deathMarked name op.reason))
              (deadRoutes name op.reason q x.1 x.2) := by
          rw [letterCalls, hon, deadRoutes, haddr]
        have hmarked : ∀ call ∈ letterCalls name op.reason x.1 x.2,
            ((x.1.message x.2).deathMarked name op.reason).SameContent (call.1.message x.2) := by
          intro call hcall
          rw [hcalls] at hcall
          refine sameContent_deliverCalls _ (x.1.modifyMessage x.2 (Message.deathMarked name op.reason)) hheld' hn' hx' ?_ hcall
          rw [message_modifyMessage_self]
          exact .refl _
        refine ⟨hcalls, fun call hcall => ?_, fun call hcall key hkey => ?_⟩
        · exact (sameContent_deathMarked name op.reason _).trans (hmarked call hcall)
        · exact (hmarked call hcall).marks key hkey (marks_deathMarked name op.reason _ hkey)

/-- Dead letters go to an exchange, with the name of a queue as their routing key. --/
def deadArgs (ex : Bytes) : FieldTable :=
  [(ascii "x-dead-letter-exchange", .longString ex), (ascii "x-dead-letter-routing-key", .longString (ascii "dead"))]

/-- A client was given the first message of a queue and has not settled it. Of the three that follow, two expire after
    100 ms. When the queue is touched again, 200 ms have passed. --/
def expiring : AmqpServer :=
  (start (some {}) {} (fun n => if n < 7 then 0 else 200000000) 0).run (Client.connect 1 ++ [Client.openChannel 1 1,
    Client.assertQueue 1 1 (ascii "dead") false false false false [], Client.bindQueue 1 1 (ascii "dead") (ascii "amq.fanout") [] [],
    Client.assertQueue 1 1 (ascii "q") false false false false (deadArgs (ascii "amq.fanout"))] ++
    Client.sendToQueue 1 1 (ascii "q") (ascii "a") {} ++ [Client.get 1 1 (ascii "q") false] ++
    Client.sendToQueue 1 1 (ascii "q") (ascii "b") { expiration := some (ascii "100") } ++
    Client.sendToQueue 1 1 (ascii "q") (ascii "c") { expiration := some (ascii "100") } ++
    Client.sendToQueue 1 1 (ascii "q") (ascii "d") {})

def expiringQueue : MessageQueue := (expiring.queue (ascii "q")).getD { name := [] }

/-- A reject passes on the message that the client has, and a flush the two that have expired. --/
theorem dead_letters_exact_expiring :
    DeadLettersExact (ascii "q") expiringQueue (.reject 0) expiring ∧
      DeadLettersExact (ascii "q") expiringQueue .flush expiring ∧
      (expiring.turnsOf (ascii "q") .flush).map Prod.snd = [1, 2] ∧
      ((expiring.ends (ascii "q") .flush).queue (ascii "q")).map (·.messages) = some [3] ∧
      ((expiring.ends (ascii "q") .flush).queue (ascii "dead")).map (·.messages) = some [1, 2] := by
  have hsome : (expiring.queue (ascii "q")).isSome = true := by decide +kernel
  have hq : expiring.queue (ascii "q") = some expiringQueue := (Option.getD_of_ne_none (Option.isSome_iff_ne_none.mp hsome) _).symm
  have hcreated : CreatedWith (ascii "q") (deadArgs (ascii "amq.fanout")) expiringQueue :=
    ⟨freshServer, ascii "q", false, false, false, 1, _, rfl, rfl, rfl, by decide +kernel⟩
  have hvalid : Valid expiring := valid_run valid_start _
  have hexact : ∀ op : CascadeOp, (∀ r ∈ op.message?, r < expiring.heap.size) →
      DeadLettersExact (ascii "q") expiringQueue op expiring := fun op hop =>
    (dead_letters_exact_iff (v := .longString (ascii "amq.fanout")) hq hcreated (by rfl) (.inl rfl) hvalid.held hop).mpr
      (.inl (by decide))
  exact ⟨hexact (.reject 0) (by decide +kernel), hexact .flush (by decide +kernel), by decide +kernel, by decide +kernel,
    by decide +kernel⟩

/-- A client that was given the only message of a queue and has not settled it. The dead letters of the queue should go to
    the queue `dead` through the default exchange. --/
def rejecting : AmqpServer :=
  freshServer.run (Client.connect 1 ++ [Client.openChannel 1 1,
    Client.assertQueue 1 1 (ascii "dead") false false false false [],
    Client.assertQueue 1 1 (ascii "q") false false false false (deadArgs [])] ++
    Client.sendToQueue 1 1 (ascii "q") (ascii "a") {} ++ [Client.get 1 1 (ascii "q") false])

def rejectingQueue : MessageQueue := (rejecting.queue (ascii "q")).getD { name := [] }

/-- The message is rejected, and goes nowhere. --/
theorem default_exchange_drops :
    CreatedWith (ascii "q") (deadArgs []) rejectingQueue ∧
      (rejecting.message 0).dlx_hops < MAX_DLX_HOPS ∧
      deadRoutes (ascii "q") (ascii "rejected") rejectingQueue rejecting 0 = [ascii "dead"] ∧
      (letterCalls (ascii "q") (ascii "rejected") rejecting 0).length = 0 ∧
      ¬DeadLettersExact (ascii "q") rejectingQueue (.reject 0) rejecting := by
  have hleft : (rejecting.message 0).dlx_hops < MAX_DLX_HOPS := by decide +kernel
  have hroutes : deadRoutes (ascii "q") (ascii "rejected") rejectingQueue rejecting 0 = [ascii "dead"] := by
    decide +kernel
  have hcalls : (letterCalls (ascii "q") (ascii "rejected") rejecting 0).length = 0 := by decide +kernel
  refine ⟨⟨freshServer, ascii "q", false, false, false, 1, _, rfl, rfl, rfl, by decide +kernel⟩, hleft, hroutes, hcalls, ?_⟩
  intro hexact
  have hpassed := (hexact.passedOn (rejecting, 0) List.mem_cons_self hleft).calls
  change letterCalls (ascii "q") (ascii "rejected") rejecting 0 = deliverCalls 0 _
    (deadRoutes (ascii "q") (ascii "rejected") rejectingQueue rejecting 0) at hpassed
  rw [hroutes] at hpassed
  rw [hpassed] at hcalls
  cases hcalls

end AmqpServer
end Broko.Broker
