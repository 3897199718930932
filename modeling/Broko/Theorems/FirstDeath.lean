import Broko.Theorems.DeadLetters
import Broko.Theorems.Redelivery
import Broko.Theorems.Strands

/-! Chains of dead letters. `deadLetter` writes its headers each time, so that a message has those of its last death. -/

namespace Broko.Broker
open Amqp Storage MessageStore

/-- A call of `deadLetter` that passes the message on, and the exchange to which the message was published. --/
structure Death where
  reason : Bytes
  queue : Bytes
  exchange : Bytes

namespace Message

/-- The headers about the death of the message are about this one. --/
structure Records (m : Message) (d : Death) : Prop where
  reason : m.header (ascii "x-first-death-reason") = some (.longString d.reason)
  queue : m.header (ascii "x-first-death-queue") = some (.longString d.queue)
  exchange : m.header (ascii "x-first-death-exchange") = some (.longString d.exchange)

variable {m m' : Message} {d d' : Death}

theorem records_deathHeaders (name reason : Bytes) (m : Message) :
    (deathHeaders name reason m).Records ⟨reason, name, m.exchange⟩ := by
  constructor
  · rw [deathHeaders, header_setHeader, if_neg (by decide), header_setHeader, if_neg (by decide), header_setHeader, if_pos rfl]
  · rw [deathHeaders, header_setHeader, if_neg (by decide), header_setHeader, if_pos rfl]
  · rw [deathHeaders, header_setHeader, if_pos rfl]

/-- The headers are about one death. --/
theorem Records.unique (h : m.Records d) (h' : m.Records d') : d = d' := by
  have hreason := h.reason.symm.trans h'.reason
  have hqueue := h.queue.symm.trans h'.queue
  have hexchange := h.exchange.symm.trans h'.exchange
  cases d
  cases d'
  simp only [Option.some.injEq, FieldValue.longString.injEq] at hreason hqueue hexchange
  rw [Death.mk.injEq]
  exact ⟨hreason, hqueue, hexchange⟩

theorem Records.congr (h : m.Records d) (hprops : m'.properties = m.properties) : m'.Records d := by
  have hheader : ∀ key, m'.header key = m.header key := fun key => by rw [header, hprops, header]
  exact ⟨(hheader _).trans h.reason, (hheader _).trans h.queue, (hheader _).trans h.exchange⟩

end Message

namespace AmqpServer

/-- From the first state to the other the message is dead-lettered as the list says, one death after the other. A consumer
    is given an object of its own, which is then the message. --/
inductive DeathChain : AmqpServer → Ref → List Death → AmqpServer → Ref → Prop
  | start {s r} : DeathChain s r [] s r
  | dies {s₀ r₀ deaths s r q name} (before : DeathChain s₀ r₀ deaths s r) (reason : Bytes) (hq : s.queue name = some q)
      (hdlx : q.dlxExchange ≠ []) :
      DeathChain s₀ r₀ (deaths ++ [⟨reason, name, (s.message r).exchange⟩])
        (s.modifyMessage r (deathHeaders name reason)) r
  | moves {s₀ r₀ deaths s r c k s'} (before : DeathChain s₀ r₀ deaths s r) (hm : Move c k s s')
      (hother : ∀ name reason, s' ≠ s.modifyMessage r (deathHeaders name reason)) : DeathChain s₀ r₀ deaths s' r
  | handedOver {s₀ r₀ deaths s r q name k rest f} (idx : Nat) (before : DeathChain s₀ r₀ deaths s r)
      (hq : s.queue name = some q) (hm : q.messages = r :: rest) (hk : k ∈ q.consumers) (he : s.eligible r k = true)
      (hf : (s.consumer k).on_deliver = some f) : DeathChain s₀ r₀ deaths (s.handOver name k r idx) s.heap.size

variable {c : Nat} {k : Kind} {s s₀ s₁ s' : AmqpServer} {r r₀ r' : Ref} {name reason : Bytes} {deaths deaths' : List Death}
  {K : List Kind} {first : Death}

/-! ### What a move does to a message -/

/-- What `deadLetter` changes or writes down of the message is what it was. --/
structure SameLetter (r : Ref) (s s' : AmqpServer) : Prop where
  properties : (s'.message r).properties = (s.message r).properties
  exchange : (s'.message r).exchange = (s.message r).exchange

theorem SameLetter.modifyMessage {f : Message → Message} (hf : ∀ m, (f m).frame = m.frame) (r' : Ref) :
    SameLetter r s (s.modifyMessage r' f) := by
  constructor
  · refine message_modifyMessage Message.properties (fun m => ?_) r' r
    have hframe : (f m).frame.properties = m.frame.properties := by rw [hf]
    exact hframe
  · refine message_modifyMessage Message.exchange (fun m => ?_) r' r
    have hframe : (f m).frame.exchange = m.frame.exchange := by rw [hf]
    exact hframe

/-- Apart from the headers that `deadLetter` writes, a move leaves the message as it was. --/
theorem sameLetter_move (hm : Move c k s s') (hr : r < s.heap.size) :
    SameLetter r s s' ∨ ∃ q name reason, s.queue name = some q ∧ q.dlxExchange ≠ [] ∧
      s' = s.modifyMessage r (deathHeaders name reason) := by
  rcases message_of_move hm hr with hsame | ⟨-, ⟨f, hf, rfl⟩ | hdies⟩
  · exact .inl ⟨congrArg Message.properties hsame, congrArg Message.exchange hsame⟩
  · exact .inl (.modifyMessage hf r)
  · exact .inr hdies

theorem message_handOver {f : OnDeliver} (k head : Ref) (idx : Nat) (hf : (s.consumer k).on_deliver = some f) :
    (s.handOver name k head idx).message s.heap.size = (s.message head).copied := by
  rw [message, heap_handOver k head idx hf, Heap.cell_alloc_self]

/-! ### Chains -/

namespace DeathChain

/-- A move after which the message is what it was. --/
theorem keeps (h : DeathChain s₀ r₀ deaths s r) (hm : Move c k s s') (hsame : SameLetter r s s') :
    DeathChain s₀ r₀ deaths s' r := by
  by_cases hother : ∀ name reason, s' ≠ s.modifyMessage r (deathHeaders name reason)
  · exact h.moves hm hother
  · -- The headers were there before.
    simp only [not_forall, not_not] at hother
    obtain ⟨name, reason, heq⟩ := hother
    have hmsg : deathHeaders name reason (s.message r) = s.message r := by
      have hprops := hsame.properties
      rw [heq, message_modifyMessage_self] at hprops
      change { s.message r with properties := (deathHeaders name reason (s.message r)).properties } = s.message r
      rw [hprops]
    have hcell : (s.heap.modify r fun x => { x with msg := deathHeaders name reason x.msg }).cell = s.heap.cell := by
      funext r'
      by_cases hr : r' = r
      · rw [hr, Heap.cell_modify_self]
        exact congrArg (fun m => { s.heap.cell r with msg := m }) hmsg
      · exact Heap.cell_modify_of_ne hr
    have hstay : s' = s := by
      rw [heq, modifyMessage]
      exact congrArg (fun cell => { s with heap := ⟨s.heap.size, cell⟩ }) hcell
    rw [hstay]
    exact h

theorem trans (h₁ : DeathChain s₀ r₀ deaths s r) (h₂ : DeathChain s r deaths' s' r') :
    DeathChain s₀ r₀ (deaths ++ deaths') s' r' := by
  induction h₂ with
  | start => rwa [List.append_nil]
  | dies _ reason hq hdlx ih =>
    rw [← List.append_assoc]
    exact ih.dies reason hq hdlx
  | moves _ hm hother ih => exact ih.moves hm hother
  | handedOver idx _ hq hm hk he hf ih => exact ih.handedOver idx hq hm hk he hf

/-- What happens to a message is a chain. --/
theorem exists_of_moves (h : Moves c K s s') (hr : r < s.heap.size) : ∃ deaths, DeathChain s r deaths s' r := by
  have hkeep := h.keeps (P := fun s' => r < s'.heap.size ∧ ∃ deaths, DeathChain s r deaths s' r) ?_ ⟨hr, [], .start⟩
  · exact hkeep.2
  · rintro k - s₁ s₂ hm ⟨hr₁, deaths, hchain⟩
    refine ⟨hr₁.trans_le (heap_le_of_move hm), ?_⟩
    rcases sameLetter_move hm hr₁ with hsame | ⟨q, name, reason, hq, hdlx, rfl⟩
    · exact ⟨deaths, hchain.keeps hm hsame⟩
    · exact ⟨_, hchain.dies reason hq hdlx⟩

/-- The headers are about the last death, and the exchange is always the same. --/
structure Last (m₀ : Message) (deaths : List Death) (m : Message) : Prop where
  exchange : m.exchange = m₀.exchange
  exchanges : ∀ d ∈ deaths, d.exchange = m₀.exchange
  records : ∀ last, deaths.getLast? = some last → m.Records last

theorem last (h : DeathChain s₀ r₀ deaths s r) (hr : r₀ < s₀.heap.size) :
    r < s.heap.size ∧ Last (s₀.message r₀) deaths (s.message r) := by
  induction h with
  | start => exact ⟨hr, rfl, nofun, nofun⟩
  | @dies deaths s r q name _ reason hq hdlx ih =>
    obtain ⟨hlt, hlast⟩ := ih
    rw [message_modifyMessage_self]
    refine ⟨hlt, hlast.exchange, fun d hd => ?_, fun d hd => ?_⟩
    · rcases List.mem_append.mp hd with hd | hd
      · exact hlast.exchanges d hd
      · rw [List.mem_singleton.mp hd]
        exact hlast.exchange
    · rw [List.getLast?_concat, Option.some.injEq] at hd
      rw [← hd]
      exact Message.records_deathHeaders name reason (s.message r)
  | moves _ hm hother ih =>
    obtain ⟨hlt, hlast⟩ := ih
    refine ⟨hlt.trans_le (heap_le_of_move hm), ?_⟩
    rcases sameLetter_move hm hlt with hsame | ⟨q, name, reason, -, -, heq⟩
    · exact ⟨hsame.exchange.trans hlast.exchange, hlast.exchanges, fun d hd => (hlast.records d hd).congr hsame.properties⟩
    · exact absurd heq (hother name reason)
  | handedOver idx _ hq hm hk he hf ih =>
    obtain ⟨-, hlast⟩ := ih
    rw [heap_handOver _ _ idx hf, message_handOver _ _ idx hf]
    exact ⟨Nat.lt_succ_self _, hlast.exchange, hlast.exchanges, fun d hd => (hlast.records d hd).congr rfl⟩

end DeathChain

/-- A message that has died has the headers of its first death as long as it last died of the same reason in the same queue.
    The chain is that of the message object. If an object is in several queues, its first death on the way to one of them is
    one of those in the chain. --/
theorem records_first_iff (h : DeathChain s r deaths s' r') (hr : r < s.heap.size) (hfirst : first ∈ deaths) :
    (s'.message r').Records first ↔
      ∃ last, deaths.getLast? = some last ∧ last.reason = first.reason ∧ last.queue = first.queue := by
  obtain ⟨-, hlast⟩ := h.last hr
  obtain ⟨last, hget⟩ : ∃ last, deaths.getLast? = some last :=
    ⟨_, List.getLast?_eq_some_getLast (List.ne_nil_of_mem hfirst)⟩
  have hrecords := hlast.records last hget
  constructor
  · intro hmarked
    obtain rfl : last = first := hrecords.unique hmarked
    exact ⟨last, hget, rfl, rfl⟩
  · rintro ⟨last', hget', hreason, hqueue⟩
    obtain rfl : last = last' := Option.some.inj (hget.symm.trans hget')
    have hexchange : last.exchange = first.exchange :=
      (hlast.exchanges last (List.mem_of_getLast? hget)).trans (hlast.exchanges first hfirst).symm
    have heq : last = first := by
      cases last
      cases first
      rw [Death.mk.injEq]
      exact ⟨hreason, hqueue, hexchange⟩
    exact heq ▸ hrecords

/-- A letter is one death. --/
theorem DeathChain.letter {addr : Bytes × Bytes} (hl : letter name reason s r = (s₁, some addr)) :
    DeathChain s r [⟨reason, name, (s.message r).exchange⟩] s₁ r ∧ Does c [.queue] s s₁ := by
  rw [AmqpServer.letter] at hl
  cases hq : s.queue name with
  | none =>
    rw [hq] at hl
    cases hl
  | some q =>
    rw [hq] at hl
    dsimp only at hl
    split at hl
    · cases hl
    · rename_i hon
      rw [not_or] at hon
      split at hl
      · cases hl
      · obtain ⟨rfl, -⟩ := Prod.mk.inj hl
        have hhop : Move c .queue s (s.modifyMessage r fun m => { m with dlx_hops := m.dlx_hops + 1 }) :=
          .touch r _ fun _ => rfl
        have hsame : SameLetter r s (s.modifyMessage r fun m => { m with dlx_hops := m.dlx_hops + 1 }) := by
          refine .modifyMessage ?_ r
          exact fun _ => rfl
        have hdies := (DeathChain.start.keeps hhop hsame).dies reason hq hon.1
        rw [hsame.exchange] at hdies
        exact ⟨hdies, (Does.of hhop).andThen (.of (.mark reason r hq hon.1))⟩

/-- When `deadLetter` passes a message on, then this is the first death in a chain; more of them follow when the message
    expires at once where it goes. --/
theorem DeathChain.deadLetter {addr : Bytes × Bytes} (hv : Valid s) (hr : r < s.heap.size)
    (hl : AmqpServer.letter name reason s r = (s₁, some addr)) :
    ∃ deaths, DeathChain s r (⟨reason, name, (s.message r).exchange⟩ :: deaths) (deadLetter name reason s r) r := by
  obtain ⟨hfirst, hdoes⟩ := DeathChain.letter (c := 0) hl
  have hmoves := hdoes.moves hv
  have hr₁ : r < s₁.heap.size := hr.trans_le hmoves.heap_le
  have hrest : Does 0 [.queue, .enqueue] s₁ (AmqpServer.deadLetter name reason s r) := by
    rw [deadLetter_calls hv.held le_rfl hr, hl]
    exact @Does.foldl_refs 0 _ _ _ (fun _ => r) (fun _ qname => does_deliverToQueue qname) _ _ fun _ _ => hr₁
  obtain ⟨deaths, hchain⟩ := exists_of_moves (hrest.moves (hmoves.valid hv)) hr₁
  exact ⟨deaths, hfirst.trans hchain⟩

/-- What happens to a message while the process runs. --/
theorem DeathChain.exists_of_run {events : List Event} (hv : Valid s) (hr : r < s.heap.size)
    (hevents : ∀ e ∈ events, e ≠ .restart) : ∃ deaths, DeathChain s r deaths (s.run events) r := by
  induction events generalizing s with
  | nil => exact ⟨[], .start⟩
  | cons e events ih =>
    obtain ⟨c, hc, -⟩ := exists_actor e 0
    have hdoes : Does c (.oversize :: allKinds) s (s.handle e) :=
      does_handle hc (hevents e List.mem_cons_self) (fun _ => List.mem_cons_of_mem _) (.inl List.mem_cons_self)
    obtain ⟨deaths, hchain⟩ := exists_of_moves (hdoes.moves hv) hr
    obtain ⟨deaths', hchain'⟩ := ih (valid_handle hv e) (hr.trans_le (hdoes.moves hv).heap_le)
      fun e' he' => hevents e' (List.mem_cons_of_mem _ he')
    exact ⟨deaths ++ deaths', hchain.trans hchain'⟩

/-- A client that was given the message of the queue `a` and can reject it. It then goes to `b`, expires there at once, and
    goes back to `a`. --/
def returning : AmqpServer :=
  freshServer.run (Client.connect 1 ++ [Client.openChannel 1 1,
    Client.assertQueue 1 1 (ascii "a") false false false false (deadArgs (ascii "amq.fanout")),
    Client.assertQueue 1 1 (ascii "b") false false false false
      (deadArgs (ascii "amq.direct") ++ [(ascii "x-message-ttl", .longInt 0)]),
    Client.bindQueue 1 1 (ascii "b") (ascii "amq.fanout") [] [],
    Client.bindQueue 1 1 (ascii "a") (ascii "amq.direct") (ascii "dead") []] ++
    Client.sendToQueue 1 1 (ascii "a") (ascii "m") {} ++ [Client.get 1 1 (ascii "a") false])

/-- The client rejects the message, and is given it again. --/
def returned : AmqpServer :=
  (deadLetter (ascii "a") (ascii "rejected") returning 0).handle (Client.get 1 1 (ascii "a") false)

/-- When the message is rejected a second time, its headers are those of its first death, which the death in `b` had
    overwritten. --/
theorem records_first_returned :
    ¬(returned.message 0).Records ⟨ascii "rejected", ascii "a", []⟩ ∧
      (∃ deaths, DeathChain returning 0 (⟨ascii "rejected", ascii "a", []⟩ :: deaths ++ [⟨ascii "rejected", ascii "a", []⟩])
        (letter (ascii "a") (ascii "rejected") returned 0).1 0) ∧
      ((letter (ascii "a") (ascii "rejected") returned 0).1.message 0).Records ⟨ascii "rejected", ascii "a", []⟩ := by
  have hexchanges : (returning.message 0).exchange = [] ∧ (returned.message 0).exchange = [] := by decide +kernel
  have haddr : (letter (ascii "a") (ascii "rejected") returning 0).2 = some (ascii "amq.fanout", ascii "dead") ∧
      (letter (ascii "a") (ascii "rejected") returned 0).2 = some (ascii "amq.fanout", ascii "dead") := by decide +kernel
  have hvalid : Valid returning := valid_run valid_start _
  have hsize : 0 < returning.heap.size := by decide +kernel
  obtain ⟨deaths, hrejected⟩ := DeathChain.deadLetter hvalid hsize (Prod.ext rfl haddr.1)
  have hdies : Does 0 [.queue] returning (deadLetter (ascii "a") (ascii "rejected") returning 0) := does_deadLetter _ _ _ _ hsize
  have hget : ∀ e ∈ [Client.get 1 1 (ascii "a") false], e ≠ .restart := fun e he heq => by
    cases heq.symm.trans (List.mem_singleton.mp he)
  obtain ⟨deaths', hgot⟩ := DeathChain.exists_of_run ((hdies.moves hvalid).valid hvalid)
    (hsize.trans_le (hdies.moves hvalid).heap_le) hget
  have hagain : DeathChain returned 0 _ (letter (ascii "a") (ascii "rejected") returned 0).1 0 :=
    (DeathChain.letter (c := 0) (Prod.ext rfl haddr.2)).1
  have hchain := (hrejected.trans hgot).trans hagain
  rw [hexchanges.1, hexchanges.2] at hchain
  refine ⟨fun hrecords => ?_, ⟨deaths ++ deaths', hchain⟩, ?_⟩
  · have hqueue : ((returned.message 0).header (ascii "x-first-death-queue")).map Exchange.stringVal = some (ascii "b") := by
      decide +kernel
    rw [hrecords.queue] at hqueue
    exact absurd hqueue (by decide)
  · exact (records_first_iff hchain hsize List.mem_cons_self).mpr ⟨_, List.getLast?_concat .., rfl, rfl⟩

/-- A client that was given the message of the queue `a` and can reject it. It then goes to `b`, expires there at once, and
    goes to `c`. --/
def dyingTwice : AmqpServer :=
  freshServer.run (Client.connect 1 ++ [Client.openChannel 1 1,
    Client.assertQueue 1 1 (ascii "a") false false false false (deadArgs (ascii "amq.fanout")),
    Client.assertQueue 1 1 (ascii "b") false false false false
      (deadArgs (ascii "amq.direct") ++ [(ascii "x-message-ttl", .longInt 0)]),
    Client.assertQueue 1 1 (ascii "c") false false false false [],
    Client.bindQueue 1 1 (ascii "b") (ascii "amq.fanout") [] [],
    Client.bindQueue 1 1 (ascii "c") (ascii "amq.direct") (ascii "dead") []] ++
    Client.sendToQueue 1 1 (ascii "a") (ascii "m") {} ++ [Client.get 1 1 (ascii "a") false])

/-- The client rejects the message. In `c` it has the headers of its death in `b`. --/
theorem last_death_recorded :
    (∃ deaths, DeathChain dyingTwice 0 (⟨ascii "rejected", ascii "a", []⟩ :: deaths)
      (deadLetter (ascii "a") (ascii "rejected") dyingTwice 0) 0) ∧
    ((deadLetter (ascii "a") (ascii "rejected") dyingTwice 0).queue (ascii "c")).map (·.messages) = some [0] ∧
    ¬((deadLetter (ascii "a") (ascii "rejected") dyingTwice 0).message 0).Records ⟨ascii "rejected", ascii "a", []⟩ := by
  have hend : ((deadLetter (ascii "a") (ascii "rejected") dyingTwice 0).queue (ascii "c")).map (·.messages) = some [0] ∧
      (((deadLetter (ascii "a") (ascii "rejected") dyingTwice 0).message 0).header
        (ascii "x-first-death-queue")).map Exchange.stringVal = some (ascii "b") := by decide +kernel
  refine ⟨?_, hend.1, fun hrecords => ?_⟩
  · have hexchange : (dyingTwice.message 0).exchange = [] := by decide +kernel
    have haddr : (letter (ascii "a") (ascii "rejected") dyingTwice 0).2 = some (ascii "amq.fanout", ascii "dead") := by
      decide +kernel
    have hvalid : Valid dyingTwice := valid_run valid_start _
    have hchain := DeathChain.deadLetter hvalid (by decide +kernel) (Prod.ext rfl haddr)
    rwa [hexchange] at hchain
  · have hqueue := hend.2
    rw [hrecords.queue] at hqueue
    exact absurd hqueue (by decide)

end AmqpServer
end Broko.Broker
