import Broko.Theorems.Effects

/-! What a restart keeps of the topology. The log has the names and flags of durable queues and exchanges and the
    routing keys of bindings; it has no arguments, and it does not record that a queue was unbound from the default
    exchange. -/

namespace Broko.Broker
open Amqp Storage MessageStore

/-- The settings of a queue: how it was declared, apart from the handler of dead letters. --/
def MessageQueue.settings (q : MessageQueue) : MessageQueue := { q.declared with deadLetterFn := false }

namespace Exchange

/-- The arguments of a binding name no header, and they do not ask for any one of none. --/
def unconditional (args : FieldTable) : Bool :=
  args.all (fun a => (ascii "x-").isPrefixOf a.1) && matchHeaders args []

theorem matchHeaders_of_unconditional {args : FieldTable} (h : unconditional args) (headers : FieldTable) :
    matchHeaders args headers = true := by
  have hloop : ∀ (matchAll : Bool) (headers l : FieldTable), (∀ a ∈ l, (ascii "x-").isPrefixOf a.1 = true) →
      matchHeadersLoop matchAll headers l = matchAll := by
    intro matchAll headers l
    induction l with
    | nil => exact fun _ => rfl
    | cons a l ih =>
      intro hl
      rw [matchHeadersLoop, if_pos (hl a List.mem_cons_self)]
      exact ih fun b hb => hl b (List.mem_cons_of_mem _ hb)
  rw [unconditional, Bool.and_eq_true, List.all_eq_true] at h
  have hempty := h.2
  rw [matchHeaders, hloop _ _ _ h.1] at hempty ⊢
  exact hempty

/-- What a binding does depends on its routing key, and in a headers exchange on its arguments. --/
theorem matchesBinding_congr {ex ex' : Exchange} {b b' : Binding} (htype : ex'.type = ex.type)
    (hrk : b'.routing_key = b.routing_key)
    (hargs : ex.type = ascii "headers" → unconditional b.arguments ∧ unconditional b'.arguments) (rk : Bytes)
    (headers : Option FieldTable) : ex'.matchesBinding rk headers b' = ex.matchesBinding rk headers b := by
  unfold matchesBinding
  rw [htype, hrk]
  split
  · rfl
  · split
    · rfl
    · split
      · rename_i hheaders
        obtain ⟨hb, hb'⟩ := hargs hheaders
        cases headers with
        | none => rfl
        | some h => exact (matchHeaders_of_unconditional hb' h).trans (matchHeaders_of_unconditional hb h).symm
      · rfl

end Exchange

namespace AmqpServer

variable {s s' : AmqpServer} {op : VHostOp} {userStore : UserStore} {clock : Nat → Int} {readings : Nat}

/-- A durable queue of this name exists. --/
def isDurable (s : AmqpServer) (name : Bytes) : Bool := (s.queue name).any MessageQueue.durable

def declaration (s : AmqpServer) (name : Bytes) : Option MessageQueue := (s.queue name).map MessageQueue.declared

def headOf (s : AmqpServer) (name : Bytes) : Option Exchange := (s.exchanges.lookup name).map Exchange.head

/-- The durable queues and exchanges are there with their settings, and messages are routed to the same durable
    queues. --/
structure SameDurable (s s' : AmqpServer) : Prop where
  queues : ∀ name q, s.queue name = some q → q.durable = true → q.exclusive = false →
    ∃ q', s'.queue name = some q' ∧ q'.settings = q.settings
  exchanges : ∀ name ex, s.exchanges.lookup name = some ex → ex.durable = true →
    ∃ ex', s'.exchanges.lookup name = some ex' ∧ ex'.type = ex.type ∧ ex'.durable = ex.durable ∧
      ex'.auto_delete = ex.auto_delete ∧ ex'.internal = ex.internal
  routes : ∀ name ex, s.exchanges.lookup name = some ex → ex.durable = true → ∀ rk headers queue,
    (queue ∈ s'.routeMessage name rk headers ∧ s'.isDurable queue) ↔
      (queue ∈ s.routeMessage name rk headers ∧ s.isDurable queue)

/-- Only declarations, deletions and bindings: a new durable queue that is not exclusive has no arguments, a binding of a
    durable queue to a durable headers exchange asks for no header, and a durable queue is not unbound from the default
    exchange. --/
def Kept (s : AmqpServer) : VHostOp → Prop
  | .declareQueue name passive durable exclusive _ args _ => passive = false → (name ≠ [] → s.hasQueue name = false) →
    durable = true → exclusive = false → args.isEmpty
  | .bindQueue queue exchange _ args =>
    (s.headOf exchange).any (fun ex => ex.durable && ex.type = ascii "headers") = true → s.isDurable queue = true →
      Exchange.unconditional args
  | .unbindQueue queue exchange routingKey => exchange = [] → routingKey = queue → s.isDurable queue = false
  | .removeConnectionQueues _ => False
  | .restart => False
  | .declareExchange .. => True
  | .deleteExchange _ => True
  | .deleteQueue .. => True

instance (s : AmqpServer) : (op : VHostOp) → Decidable (Kept s op)
  | .declareQueue name passive durable exclusive _ args _ =>
    inferInstanceAs (Decidable (passive = false → (name ≠ [] → s.hasQueue name = false) → durable = true →
      exclusive = false → args.isEmpty))
  | .bindQueue queue exchange _ args =>
    inferInstanceAs (Decidable ((s.headOf exchange).any (fun ex => ex.durable && ex.type = ascii "headers") = true →
      s.isDurable queue = true → Exchange.unconditional args))
  | .unbindQueue queue exchange routingKey =>
    inferInstanceAs (Decidable (exchange = [] → routingKey = queue → s.isDurable queue = false))
  | .removeConnectionQueues _ => inferInstanceAs (Decidable False)
  | .restart => inferInstanceAs (Decidable False)
  | .declareExchange .. => inferInstanceAs (Decidable True)
  | .deleteExchange _ => inferInstanceAs (Decidable True)
  | .deleteQueue .. => inferInstanceAs (Decidable True)

/-! ### Queues and the log -/

theorem declaration_congr {name : Bytes} (h : s'.queue name = s.queue name) : s'.declaration name = s.declaration name := by
  rw [declaration, h, declaration]

theorem isDurable_eq (name : Bytes) : s.isDurable name = (s.declaration name).any MessageQueue.durable := by
  rw [isDurable, declaration]
  cases s.queue name <;> rfl

theorem hasQueue_eq (name : Bytes) : s.hasQueue name = (s.declaration name).isSome := by
  rw [hasQueue, declaration, Option.isSome_map]

/-- What the log has of a queue. --/
def declOf (name : Bytes) (q : MessageQueue) : StoredQueueDecl := { name, durable := true, auto_delete := q.auto_delete }

/-- The log has exactly the durable queues. --/
structure QueuesMirrored (s : AmqpServer) : Prop where
  logged : ∀ d, d ∈ s.logged.queues ↔ ∃ q, s.declaration d.name = some q ∧ q.durable = true ∧ d = declOf d.name q
  plain : ∀ name q, s.declaration name = some q → q.durable = true → q.exclusive = false →
    q.settings = recoveredQueue (declOf name q)

namespace QueuesMirrored

theorem congr (h : QueuesMirrored s) (hdecl : ∀ name, s'.declaration name = s.declaration name)
    (hlog : ∀ d, d ∈ s'.logged.queues ↔ d ∈ s.logged.queues) : QueuesMirrored s' := by
  refine ⟨fun d => ?_, fun name q hq => ?_⟩
  · rw [hlog, h.logged, hdecl]
  · exact h.plain name q (hdecl name ▸ hq)

theorem effect (h : QueuesMirrored s) (heff : Effect s s' op) (hok : Kept s op) : QueuesMirrored s' := by
  cases heff with
  | idle hq hex hst =>
    exact h.congr (fun n => declaration_congr (by rw [queue, hq, queue])) fun d => by rw [logged_of_store hst]
  | declareExchange _ hlog hq => exact h.congr (fun n => declaration_congr (hq n)) (hlog.sameQueues (fun _ => rfl) rfl)
  | deleteExchange _ hlog hq => exact h.congr (fun n => declaration_congr (hq n)) (hlog.sameQueues (fun _ => rfl) rfl)
  | @declareQueue name passive durable exclusive autoDelete args c qname hlen hnew hmade hlog hq =>
    have hnone : s.declaration qname = none := by rw [declaration, hnew]; rfl
    have hdecl : ∀ n, s'.declaration n =
        if n = qname then some (newQueue qname durable exclusive autoDelete args c) else s.declaration n := by
      intro n
      rw [declaration, hq]
      split <;> rfl
    refine ⟨fun d => ?_, fun n q hn hd hex => ?_⟩
    · rw [hlog.queues, hdecl]
      by_cases hn : d.name = qname
      · have hold : d ∉ s.logged.queues := by
          intro hd
          obtain ⟨q, hq, -⟩ := (h.logged d).mp hd
          rw [hn, hnone] at hq
          cases hq
        simp only [hold, false_and, false_or, if_pos hn, Option.some.injEq, exists_eq_left', Entry.queue?]
        constructor
        · rintro ⟨rfl, rfl⟩
          exact ⟨rfl, rfl⟩
        · rintro ⟨hd, hdecl⟩
          have hd : durable = true := hd
          refine ⟨hd, ?_⟩
          rw [hdecl, hd, hn]
          rfl
      · have hother : ¬(durable = true ∧ (Entry.queueDeclare { name := qname, durable, auto_delete := autoDelete }).queue? =
            some d) := by
          rintro ⟨-, hd⟩
          exact hn (by rw [← Option.some.inj hd])
        rw [if_neg hn, ← h.logged]
        simp [hother, Entry.removesQueue]
    · rw [hdecl] at hn
      split at hn
      · rename_i heq
        obtain rfl := Option.some.inj hn
        subst heq
        have hd : durable = true := hd
        have hex : exclusive = false := hex
        have hfresh : name ≠ [] → s.hasQueue name = false := by
          intro hne
          rw [hasQueue_eq, ← hmade.2 hne, hnone]
          rfl
        have hargs := List.isEmpty_iff.mp (hok hmade.1 hfresh hd hex)
        subst hargs hd hex
        rfl
      · exact h.plain n q hn hd hex
  | @deleteQueue name _ _ hlog hq =>
    have hdecl : ∀ n, s'.declaration n = if n = name then none else s.declaration n := by
      intro n
      rw [declaration, hq]
      split <;> rfl
    refine ⟨fun d => ?_, fun n q hn => ?_⟩
    · rw [hlog.queues, hdecl]
      by_cases hn : d.name = name
      · simp [hn, Entry.removesQueue, Entry.queue?]
      · rw [if_neg hn, ← h.logged]
        simp [hn, Entry.removesQueue, Entry.queue?]
    · rw [hdecl] at hn
      split at hn
      · cases hn
      · exact h.plain n q hn
  | bindQueue _ _ hlog hq => exact h.congr (fun n => declaration_congr (hq n)) (hlog.sameQueues (fun _ => rfl) rfl)
  | unbindQueue hlog hq => exact h.congr (fun n => declaration_congr (hq n)) (hlog.sameQueues (fun _ => rfl) rfl)

end QueuesMirrored

/-! ### Exchanges and the log -/

/-- What the log has of an exchange. --/
def exchangeDeclOf (name : Bytes) (ex : Exchange) : StoredExchangeDecl :=
  { name, type := ex.type, durable := true, auto_delete := ex.auto_delete, internal := ex.internal }

/-- The log has exactly the durable exchanges that a process does not make by itself, and those are as they were. --/
structure ExchangesMirrored (s : AmqpServer) : Prop where
  logged : ∀ d, d ∈ s.logged.exchanges ↔ defaultExchanges.lookup d.name = none ∧
    ∃ ex, s.headOf d.name = some ex ∧ ex.durable = true ∧ d = exchangeDeclOf d.name ex
  defaults : ∀ name ex, defaultExchanges.lookup name = some ex → s.headOf name = some ex

namespace ExchangesMirrored

theorem congr (h : ExchangesMirrored s) (hhead : ∀ name, s'.headOf name = s.headOf name)
    (hlog : ∀ d, d ∈ s'.logged.exchanges ↔ d ∈ s.logged.exchanges) : ExchangesMirrored s' := by
  refine ⟨fun d => ?_, fun name ex hex => ?_⟩
  · rw [hlog, h.logged, hhead]
  · rw [hhead]
    exact h.defaults name ex hex

theorem effect (h : ExchangesMirrored s) (heff : Effect s s' op) : ExchangesMirrored s' := by
  cases heff with
  | idle hq hex hst => exact h.congr (fun n => by rw [headOf, hex, headOf]) fun d => by rw [logged_of_store hst]
  | @declareExchange name type _ durable autoDelete internal args hnew hlog hq hex =>
    have hnone : s.headOf name = none := by rw [headOf, hnew]; rfl
    have hfree : defaultExchanges.lookup name = none := by
      by_contra hdef
      obtain ⟨ex, hdef⟩ := Option.ne_none_iff_exists'.mp hdef
      rw [h.defaults name ex hdef] at hnone
      cases hnone
    have hhead : ∀ n, s'.headOf n =
        if n = name then some (newExchange name type durable autoDelete internal args) else s.headOf n := by
      intro n
      rw [headOf, hex]
      split <;> rfl
    refine ⟨fun d => ?_, fun n ex hdef => ?_⟩
    · rw [hlog.exchanges, hhead]
      by_cases hn : d.name = name
      · have hold : d ∉ s.logged.exchanges := by
          intro hd
          obtain ⟨-, ex, hex, -⟩ := (h.logged d).mp hd
          rw [hn, hnone] at hex
          cases hex
        rw [if_pos hn, hn]
        simp only [hold, false_and, false_or, Option.some.injEq, exists_eq_left', Entry.exchange?, hfree, true_and]
        constructor
        · rintro ⟨rfl, rfl⟩
          exact ⟨rfl, rfl⟩
        · rintro ⟨hd, hdecl⟩
          have hd : durable = true := hd
          refine ⟨hd, ?_⟩
          rw [hdecl, hd]
          rfl
      · have hother : ¬(durable = true ∧ (Entry.exchangeDeclare
            { name, type, durable, auto_delete := autoDelete, internal }).exchange? = some d) := by
          rintro ⟨-, hd⟩
          exact hn (by rw [← Option.some.inj hd])
        rw [if_neg hn, ← h.logged]
        simp [hother, Entry.removesExchange]
    · rw [hhead, if_neg]
      · exact h.defaults n ex hdef
      · rintro rfl
        rw [hfree] at hdef
        cases hdef
  | @deleteExchange name hres hlog hq hex =>
    have hhead : ∀ n, s'.headOf n = if n = name then none else s.headOf n := by
      intro n
      rw [headOf, hex]
      split <;> rfl
    refine ⟨fun d => ?_, fun n ex hdef => ?_⟩
    · rw [hlog.exchanges, hhead]
      by_cases hn : d.name = name
      · simp [hn, Entry.removesExchange, Entry.exchange?]
      · rw [if_neg hn, ← h.logged]
        simp [hn, Entry.removesExchange, Entry.exchange?]
    · rw [hhead, if_neg]
      · exact h.defaults n ex hdef
      · rintro rfl
        have hreserved : isReserved n = true := isReserved_of_default (by rw [hdef]; rfl)
        rw [hres] at hreserved
        cases hreserved
  | declareQueue _ _ _ _ hlog _ hex => exact h.congr hex (hlog.sameExchanges (fun _ => rfl) rfl)
  | deleteQueue hlog _ hex => exact h.congr hex (hlog.sameExchanges (fun _ => rfl) rfl)
  | bindQueue _ _ hlog _ hex => exact h.congr hex (hlog.sameExchanges (fun _ => rfl) rfl)
  | unbindQueue hlog _ hex => exact h.congr hex (hlog.sameExchanges (fun _ => rfl) rfl)

end ExchangesMirrored

/-! ### Bindings and the log -/

/-- The binding of a queue to the default exchange under its name. --/
def isDefault (b : StoredBinding) : Prop := b.exchange = [] ∧ b.routing_key = b.queue

/-- The bindings of durable queues are those of the log and those to the default exchange; every binding of the log is
    that of an exchange and a queue that exist; and bindings of durable queues to durable headers exchanges ask for
    nothing. --/
structure BindingsMirrored (s : AmqpServer) : Prop where
  dangling : NoDangling s
  live : ∀ b ∈ s.logged.bindings, s.hasExchange b.exchange ∧ s.hasQueue b.queue
  logged : ∀ b : StoredBinding, s.isDurable b.queue → (s.hasBinding b ↔ b ∈ s.logged.bindings ∨ isDefault b)
  arguments : ∀ name ex, s.headOf name = some ex → ex.durable = true → ex.type = ascii "headers" →
    ∀ b ∈ s.bindingsOf name, s.isDurable b.queue_name → Exchange.unconditional b.arguments

theorem hasExchange_eq (name : Bytes) : s.hasExchange name = (s.headOf name).isSome := by
  rw [hasExchange, headOf, Option.isSome_map]

namespace BindingsMirrored

theorem congr (h : BindingsMirrored s) (hdecl : ∀ name, s'.declaration name = s.declaration name)
    (hhead : ∀ name, s'.headOf name = s.headOf name) (hb : ∀ ex b, b ∈ s'.bindingsOf ex ↔ b ∈ s.bindingsOf ex)
    (hlog : ∀ b, b ∈ s'.logged.bindings ↔ b ∈ s.logged.bindings) : BindingsMirrored s' := by
  have hqueue : ∀ name, s'.hasQueue name = s.hasQueue name := fun name => by rw [hasQueue_eq, hdecl, hasQueue_eq]
  have hdurable : ∀ name, s'.isDurable name = s.isDurable name := fun name => by rw [isDurable_eq, hdecl, isDurable_eq]
  refine ⟨fun ex b hmem => ?_, fun b hmem => ?_, fun b hd => ?_, fun name ex hex hd htype b hmem hdq => ?_⟩
  · rw [hqueue]
    exact h.dangling ex b ((hb ex b).mp hmem)
  · rw [hqueue, hasExchange_eq, hhead, ← hasExchange_eq]
    exact h.live b ((hlog b).mp hmem)
  · rw [hdurable] at hd
    rw [hlog, ← h.logged b hd]
    simp only [hasBinding_iff, hb]
  · rw [hdurable] at hdq
    exact h.arguments name ex (hhead name ▸ hex) hd htype b ((hb name b).mp hmem) hdq

/-- A queue that is not there has no bindings, neither in memory nor in the log. --/
theorem unbound (h : BindingsMirrored s) {b : StoredBinding} (hq : s.hasQueue b.queue = false) :
    s.hasBinding b = false ∧ b ∉ s.logged.bindings := by
  constructor
  · by_contra hthere
    obtain ⟨x, hx, hname, -⟩ := hasBinding_iff.mp (by simpa using hthere)
    have hqueue := h.dangling _ x hx
    rw [hname, hq] at hqueue
    cases hqueue
  · intro hmem
    have hqueue := (h.live b hmem).2
    rw [hq] at hqueue
    cases hqueue

theorem declareExchange {name type : Bytes} {durable autoDelete internal : Bool} {args : FieldTable} (h : BindingsMirrored s)
    (hnew : s.exchanges.lookup name = none)
    (hlog : Logs s s' durable (.exchangeDeclare { name, type, durable, auto_delete := autoDelete, internal }))
    (hq : ∀ n, s'.queue n = s.queue n)
    (hex : ∀ n, s'.exchanges.lookup n =
      if n = name then some (newExchange name type durable autoDelete internal args) else s.exchanges.lookup n) :
    BindingsMirrored s' := by
  have hb : ∀ n b, b ∈ s'.bindingsOf n ↔ b ∈ s.bindingsOf n := by
    intro n b
    rw [bindingsOf, hex, bindingsOf]
    split
    · rename_i hn
      rw [hn, hnew]
      rfl
    · rfl
  have hqueue : ∀ n, s'.hasQueue n = s.hasQueue n := fun n => by rw [hasQueue, hq, hasQueue]
  have hdurable : ∀ n, s'.isDurable n = s.isDurable n := fun n => by rw [isDurable, hq, isDurable]
  have hsame := hlog.sameBindings (fun _ => rfl) rfl
  refine ⟨fun n b hmem => ?_, fun b hmem => ?_, fun b hd => ?_, fun n ex hhead hd htype b hmem hdq => ?_⟩
  · rw [hqueue]
    exact h.dangling n b ((hb n b).mp hmem)
  · obtain ⟨hthere, hqs⟩ := h.live b ((hsame b).mp hmem)
    refine ⟨?_, (hqueue _).trans hqs⟩
    rw [hasExchange, hex]
    split
    · rfl
    · exact hthere
  · rw [hdurable] at hd
    rw [hsame, ← h.logged b hd]
    simp only [hasBinding_iff, hb]
  · rw [hdurable] at hdq
    have hmem := (hb n b).mp hmem
    have hne : n ≠ name := by
      rintro rfl
      rw [bindingsOf, hnew] at hmem
      cases hmem
    rw [headOf, hex, if_neg hne] at hhead
    exact h.arguments n ex hhead hd htype b hmem hdq

theorem deleteExchange {name : Bytes} (h : BindingsMirrored s) (hres : isReserved name = false)
    (hlog : Logs s s' true (.exchangeDelete name)) (hq : ∀ n, s'.queue n = s.queue n)
    (hex : ∀ n, s'.exchanges.lookup n = if n = name then none else s.exchanges.lookup n) : BindingsMirrored s' := by
  have hb : ∀ n b, b ∈ s'.bindingsOf n ↔ n ≠ name ∧ b ∈ s.bindingsOf n := by
    intro n b
    rw [bindingsOf, hex]
    split
    · rename_i hn
      simp [hn]
    · rename_i hn
      simp [hn, bindingsOf]
  have hqueue : ∀ n, s'.hasQueue n = s.hasQueue n := fun n => by rw [hasQueue, hq, hasQueue]
  have hdurable : ∀ n, s'.isDurable n = s.isDurable n := fun n => by rw [isDurable, hq, isDurable]
  have hlogged : ∀ b, b ∈ s'.logged.bindings ↔ b.exchange ≠ name ∧ b ∈ s.logged.bindings := by
    intro b
    rw [hlog.bindings]
    simp [Entry.removesBinding, Entry.binding?, and_comm]
  refine ⟨fun n b hmem => ?_, fun b hmem => ?_, fun b hd => ?_, fun n ex hhead hd htype b hmem hdq => ?_⟩
  · rw [hqueue]
    exact h.dangling n b ((hb n b).mp hmem).2
  · obtain ⟨hne, hmem⟩ := (hlogged b).mp hmem
    obtain ⟨hthere, hqs⟩ := h.live b hmem
    refine ⟨?_, (hqueue _).trans hqs⟩
    rw [hasExchange, hex, if_neg hne]
    exact hthere
  · rw [hdurable] at hd
    have hold := h.logged b hd
    rw [hasBinding_iff] at hold
    simp only [hasBinding_iff, hb, hlogged]
    by_cases hne : b.exchange = name
    · have hnot : ¬isDefault b := by
        rintro ⟨he, -⟩
        rw [← hne, he] at hres
        cases hres
      simp [hne, hnot]
    · simpa [hne] using hold
  · rw [hdurable] at hdq
    obtain ⟨hne, hmem⟩ := (hb n b).mp hmem
    rw [headOf, hex, if_neg hne] at hhead
    exact h.arguments n ex hhead hd htype b hmem hdq

theorem declareQueue {qname : Bytes} {q : MessageQueue} {p : Bool} {d : StoredQueueDecl} (h : BindingsMirrored s)
    (hdef : s.hasExchange []) (hnew : s.queue qname = none) (hlog : Logs s s' p (.queueDeclare d))
    (hq : ∀ n, s'.queue n = if n = qname then some q else s.queue n) (hex : SameHeads s s')
    (hb : ∀ ex b, b ∈ s'.bindingsOf ex ↔ b ∈ s.bindingsOf ex ∨ (ex = [] ∧ s.hasExchange [] ∧ b = defaultBinding qname)) :
    BindingsMirrored s' := by
  have hnone : s.hasQueue qname = false := by rw [hasQueue, hnew]; rfl
  have hqueue : ∀ n, s.hasQueue n → s'.hasQueue n := by
    intro n hn
    rw [hasQueue, hq]
    split
    · rfl
    · exact hn
  have hdurable : ∀ n, n ≠ qname → s'.isDurable n = s.isDurable n := by
    intro n hn
    rw [isDurable, hq, if_neg hn, isDurable]
  have hsame := hlog.sameBindings (fun _ => rfl) rfl
  refine ⟨fun n b hmem => ?_, fun b hmem => ?_, fun b hd => ?_, fun n ex hhead hd htype b hmem hdq => ?_⟩
  · rcases (hb n b).mp hmem with hmem | ⟨-, -, rfl⟩
    · exact hqueue _ (h.dangling n b hmem)
    · rw [hasQueue, hq]
      exact congrArg _ (if_pos rfl)
  · obtain ⟨hthere, hqs⟩ := h.live b ((hsame b).mp hmem)
    exact ⟨(hasExchange_of_head hex _).trans hthere, hqueue _ hqs⟩
  · by_cases hn : b.queue = qname
    · obtain ⟨hunbound, hunlogged⟩ := h.unbound (b := b) (by rw [hn]; exact hnone)
      have hno : ¬∃ x ∈ s.bindingsOf b.exchange, x.queue_name = b.queue ∧ x.routing_key = b.routing_key := by
        rw [← hasBinding_iff, hunbound]
        exact Bool.false_ne_true
      simp only [hasBinding_iff, hb, or_and_right, exists_or, hno, false_or, hsame, hunlogged, isDefault, hdef, true_and]
      constructor
      · rintro ⟨x, ⟨he, rfl⟩, hxq, hxrk⟩
        exact ⟨he, hxrk.symm.trans hxq⟩
      · rintro ⟨he, hrk⟩
        exact ⟨_, ⟨he, rfl⟩, hn.symm, hn.symm.trans hrk.symm⟩
    · have hold := h.logged b ((hdurable _ hn).symm.trans hd)
      rw [hasBinding_iff] at hold
      have hother : ¬∃ x, (b.exchange = [] ∧ s.hasExchange [] = true ∧ x = defaultBinding qname) ∧ x.queue_name = b.queue ∧
          x.routing_key = b.routing_key := by
        rintro ⟨x, ⟨-, -, rfl⟩, hxq, -⟩
        exact hn hxq.symm
      simp only [hasBinding_iff, hb, or_and_right, exists_or, hother, or_false, hsame]
      exact hold
  · rcases (hb n b).mp hmem with hmem | ⟨-, -, rfl⟩
    · have hn : b.queue_name ≠ qname := by
        intro hn
        have hqs := h.dangling n b hmem
        rw [hn, hnone] at hqs
        cases hqs
      exact h.arguments n ex ((hex n).symm.trans hhead) hd htype b hmem ((hdurable _ hn).symm.trans hdq)
    · rfl

theorem deleteQueue {name : Bytes} (h : BindingsMirrored s) (hlog : Logs s s' true (.queueDelete name))
    (hq : ∀ n, s'.queue n = if n = name then none else s.queue n) (hex : SameHeads s s')
    (hb : ∀ ex b, b ∈ s'.bindingsOf ex ↔ b ∈ s.bindingsOf ex ∧ b.queue_name ≠ name) : BindingsMirrored s' := by
  have hkept : ∀ n, n ≠ name → s'.queue n = s.queue n := fun n hn => by rw [hq, if_neg hn]
  have hlogged : ∀ b, b ∈ s'.logged.bindings ↔ b ∈ s.logged.bindings ∧ b.queue ≠ name := by
    intro b
    rw [hlog.bindings]
    simp [Entry.removesBinding, Entry.binding?]
  have hgone : ∀ n, s'.isDurable n → n ≠ name := by
    rintro n hd rfl
    rw [isDurable, hq, if_pos rfl] at hd
    cases hd
  refine ⟨fun n b hmem => ?_, fun b hmem => ?_, fun b hd => ?_, fun n ex hhead hd htype b hmem hdq => ?_⟩
  · obtain ⟨hmem, hn⟩ := (hb n b).mp hmem
    rw [hasQueue, hkept _ hn]
    exact h.dangling n b hmem
  · obtain ⟨hmem, hn⟩ := (hlogged b).mp hmem
    obtain ⟨hthere, hqs⟩ := h.live b hmem
    refine ⟨(hasExchange_of_head hex _).trans hthere, ?_⟩
    rw [hasQueue, hkept _ hn]
    exact hqs
  · have hn := hgone _ hd
    rw [isDurable, hkept _ hn] at hd
    have hold := h.logged b hd
    rw [hasBinding_iff] at hold
    rw [hlogged, hasBinding_iff]
    simp only [hn, ne_eq, not_false_eq_true, and_true]
    rw [← hold]
    constructor
    · rintro ⟨x, hx, hxq, hxrk⟩
      exact ⟨x, ((hb _ x).mp hx).1, hxq, hxrk⟩
    · rintro ⟨x, hx, hxq, hxrk⟩
      exact ⟨x, (hb _ x).mpr ⟨hx, hxq ▸ hn⟩, hxq, hxrk⟩
  · obtain ⟨hmem, hn⟩ := (hb n b).mp hmem
    rw [isDurable, hkept _ hn] at hdq
    exact h.arguments n ex ((hex n).symm.trans hhead) hd htype b hmem hdq

theorem bindQueue {queue exchange routingKey : Bytes} {args : FieldTable} (h : BindingsMirrored s)
    (hok : Kept s (.bindQueue queue exchange routingKey args)) (hthere : s.hasExchange exchange) (hqueue : s.hasQueue queue)
    (hlog : Logs s s' true (.binding { queue, exchange, routing_key := routingKey })) (hq : ∀ n, s'.queue n = s.queue n)
    (hex : SameHeads s s')
    (hb : ∀ ex b, b ∈ s'.bindingsOf ex ↔ b ∈ s.bindingsOf ex ∨
      (ex = exchange ∧ b = { queue_name := queue, routing_key := routingKey, arguments := args })) : BindingsMirrored s' := by
  have hqueues : ∀ n, s'.hasQueue n = s.hasQueue n := fun n => by rw [hasQueue, hq, hasQueue]
  have hdurable : ∀ n, s'.isDurable n = s.isDurable n := fun n => by rw [isDurable, hq, isDurable]
  have hlogged : ∀ b, b ∈ s'.logged.bindings ↔
      b ∈ s.logged.bindings ∨ b = { queue, exchange, routing_key := routingKey } := by
    intro b
    rw [hlog.bindings]
    simp [Entry.removesBinding, Entry.binding?, eq_comm]
  refine ⟨fun n b hmem => ?_, fun b hmem => ?_, fun b hd => ?_, fun n ex hhead hd htype b hmem hdq => ?_⟩
  · rw [hqueues]
    rcases (hb n b).mp hmem with hmem | ⟨-, rfl⟩
    · exact h.dangling n b hmem
    · exact hqueue
  · rw [hqueues, hasExchange_of_head hex]
    rcases (hlogged b).mp hmem with hmem | rfl
    · exact h.live b hmem
    · exact ⟨hthere, hqueue⟩
  · rw [hdurable] at hd
    have hold := h.logged b hd
    rw [hasBinding_iff] at hold
    simp only [hasBinding_iff, hb, hlogged, or_and_right, exists_or]
    rw [hold, or_right_comm]
    refine or_congr_left (or_congr_right ⟨?_, ?_⟩)
    · rintro ⟨x, ⟨he, rfl⟩, hxq, hxrk⟩
      obtain ⟨bq, bex, brk⟩ := b
      simp only at he hxq hxrk
      rw [he, ← hxq, ← hxrk]
    · rintro rfl
      exact ⟨_, ⟨rfl, rfl⟩, rfl, rfl⟩
  · rw [hdurable] at hdq
    have hhead : s.headOf n = some ex := (hex n).symm.trans hhead
    rcases (hb n b).mp hmem with hmem | ⟨rfl, rfl⟩
    · exact h.arguments n ex hhead hd htype b hmem hdq
    · refine hok ?_ hdq
      rw [hhead]
      simp [hd, htype]

theorem unbindQueue {queue exchange routingKey : Bytes} (h : BindingsMirrored s)
    (hok : Kept s (.unbindQueue queue exchange routingKey))
    (hlog : Logs s s' true (.unbind { queue, exchange, routing_key := routingKey })) (hq : ∀ n, s'.queue n = s.queue n)
    (hex : SameHeads s s')
    (hb : ∀ ex b, b ∈ s'.bindingsOf ex ↔ b ∈ s.bindingsOf ex ∧
      ¬(ex = exchange ∧ b.queue_name = queue ∧ b.routing_key = routingKey)) : BindingsMirrored s' := by
  have hqueues : ∀ n, s'.hasQueue n = s.hasQueue n := fun n => by rw [hasQueue, hq, hasQueue]
  have hdurable : ∀ n, s'.isDurable n = s.isDurable n := fun n => by rw [isDurable, hq, isDurable]
  have hlogged : ∀ b, b ∈ s'.logged.bindings ↔
      b ∈ s.logged.bindings ∧ ¬(b.queue = queue ∧ b.exchange = exchange ∧ b.routing_key = routingKey) := by
    intro b
    rw [hlog.bindings]
    simp [Entry.removesBinding, Entry.binding?]
  refine ⟨fun n b hmem => ?_, fun b hmem => ?_, fun b hd => ?_, fun n ex hhead hd htype b hmem hdq => ?_⟩
  · rw [hqueues]
    exact h.dangling n b ((hb n b).mp hmem).1
  · rw [hqueues, hasExchange_of_head hex]
    exact h.live b ((hlogged b).mp hmem).1
  · rw [hdurable] at hd
    have hold := h.logged b hd
    rw [hasBinding_iff] at hold
    rw [hlogged, hasBinding_iff]
    by_cases hsame : b.queue = queue ∧ b.exchange = exchange ∧ b.routing_key = routingKey
    · have hnot : ¬isDefault b := by
        rintro ⟨he, hrk⟩
        have hgone := hok (hsame.2.1.symm.trans he) (by rw [← hsame.2.2, hrk, hsame.1])
        rw [← hsame.1, hd] at hgone
        cases hgone
      constructor
      · rintro ⟨x, hx, hxq, hxrk⟩
        exact absurd ⟨hsame.2.1, hxq.trans hsame.1, hxrk.trans hsame.2.2⟩ ((hb _ x).mp hx).2
      · rintro (⟨-, hdiff⟩ | hdefault)
        · exact absurd hsame hdiff
        · exact absurd hdefault hnot
    · simp only [hsame, not_false_eq_true, and_true]
      rw [← hold]
      constructor
      · rintro ⟨x, hx, hxq, hxrk⟩
        exact ⟨x, ((hb _ x).mp hx).1, hxq, hxrk⟩
      · rintro ⟨x, hx, hxq, hxrk⟩
        refine ⟨x, (hb _ x).mpr ⟨hx, ?_⟩, hxq, hxrk⟩
        rintro ⟨he, hq, hrk⟩
        exact hsame ⟨hxq.symm.trans hq, he, hxrk.symm.trans hrk⟩
  · rw [hdurable] at hdq
    exact h.arguments n ex ((hex n).symm.trans hhead) hd htype b ((hb n b).mp hmem).1 hdq

theorem effect (h : BindingsMirrored s) (heff : Effect s s' op) (hok : Kept s op) (hdef : s.hasExchange []) :
    BindingsMirrored s' := by
  cases heff with
  | idle hq hex hst =>
    exact h.congr (fun n => declaration_congr (by rw [queue, hq, queue])) (fun n => by rw [headOf, hex, headOf])
      (fun n b => by rw [bindingsOf_congr hex]) fun b => by rw [logged_of_store hst]
  | declareExchange hnew hlog hq hex => exact h.declareExchange hnew hlog hq hex
  | deleteExchange hres hlog hq hex => exact h.deleteExchange hres hlog hq hex
  | declareQueue qname _ hnew _ hlog hq hex hb => exact h.declareQueue hdef hnew hlog hq hex hb
  | deleteQueue hlog hq hex hb => exact h.deleteQueue hlog hq hex hb
  | bindQueue hthere hqueue hlog hq hex hb => exact h.bindQueue hok hthere hqueue hlog hq hex hb
  | unbindQueue hlog hq hex hb => exact h.unbindQueue hok hlog hq hex hb

end BindingsMirrored

/-! ### The restart -/

/-- Memory and log say the same about what is durable. --/
structure Mirrored (s : AmqpServer) : Prop where
  tidy : Tidy s
  queues : QueuesMirrored s
  exchanges : ExchangesMirrored s
  bindings : BindingsMirrored s

namespace Mirrored

theorem perform (h : Mirrored s) (hshort : op.Short) (hok : Kept s op) : Mirrored (s.perform op) := by
  have hend : ∀ c, op ≠ .removeConnectionQueues c := by
    rintro c rfl
    exact hok
  have hrestart : op ≠ .restart := by
    rintro rfl
    exact hok
  have heff := effect_perform h.tidy.journaled hshort hend hrestart
  exact ⟨h.tidy.perform hshort, h.queues.effect heff hok, h.exchanges.effect heff, h.bindings.effect heff hok h.tidy.default⟩

theorem move {c : Nat} {k : Kind} (h : Mirrored s) (hk : k ∈ trafficKinds) (hm : Move c k s s') : Mirrored s' := by
  have hsame := SameTopology.of_move hm hk
  obtain ⟨htidy, hlog⟩ := h.tidy.move hk hm
  have hhead : ∀ name, s'.headOf name = s.headOf name := fun name => by rw [headOf, hsame.exchanges, headOf]
  refine ⟨htidy, h.queues.congr hsame.queues fun d => by rw [hlog.queues],
    h.exchanges.congr hhead fun d => by rw [hlog.exchanges], h.bindings.congr hsame.queues hhead ?_ fun b => by rw [hlog.bindings]⟩
  intro ex b
  rw [hsame.bindingsOf]

theorem start : Mirrored (start (some {}) userStore clock readings) := by
  have hrec : RecoveredFrom {} (AmqpServer.start (some {}) userStore clock readings) := recoveredFrom_empty (.inr rfl)
  have hnone : ∀ name, (AmqpServer.start (some {}) userStore clock readings).declaration name = none := by
    intro name
    have hq := hrec.queues name
    rw [List.find?_nil, Option.map_none, Option.map_eq_none_iff] at hq
    rw [declaration, hq]
    rfl
  have hdurable : ∀ name, (AmqpServer.start (some {}) userStore clock readings).isDurable name = false := by
    intro name
    rw [isDurable_eq, hnone]
    rfl
  have hhead : ∀ name, (AmqpServer.start (some {}) userStore clock readings).headOf name = defaultExchanges.lookup name := by
    intro name
    rw [headOf, hrec.exchanges]
    exact Option.or_none
  have hlogged : (AmqpServer.start (some {}) userStore clock readings).logged = {} := by
    rw [AmqpServer.logged, recoveredFrom_start.2]
    rfl
  refine ⟨Tidy.start, ⟨fun d => ?_, fun name q hq => ?_⟩, ⟨fun d => ?_, fun name ex hex => (hhead name).trans hex⟩,
    ⟨noDangling_start (.inr rfl), ?_, fun b hd => ?_, fun name ex hex hd htype b hmem hdq => ?_⟩⟩
  · rw [hlogged, hnone]
    simp
  · rw [hnone] at hq
    cases hq
  · rw [hlogged, hhead]
    simp only [List.not_mem_nil, false_iff]
    rintro ⟨hfree, ex, hex, -⟩
    rw [hfree] at hex
    cases hex
  · rw [hlogged]
    exact List.forall_mem_nil _
  · rw [hdurable] at hd
    cases hd
  · rw [hdurable] at hdq
    cases hdq

end Mirrored

theorem mem_eraseSeen {x : Bytes} (l seen : List Bytes) : x ∈ eraseSeen seen l ↔ x ∈ l ∧ x ∉ seen := by
  induction l generalizing seen with
  | nil => simp [eraseSeen]
  | cons y l ih =>
    rw [eraseSeen]
    split
    · rename_i hy
      rw [ih, List.mem_cons]
      constructor
      · exact fun h => ⟨.inr h.1, h.2⟩
      · rintro ⟨rfl | hx, hnot⟩
        · exact absurd hy hnot
        · exact ⟨hx, hnot⟩
    · rename_i hy
      rw [List.mem_cons, ih, List.mem_cons, List.mem_cons, not_or]
      constructor
      · rintro (rfl | ⟨hx, -, hnot⟩)
        · exact ⟨.inl rfl, hy⟩
        · exact ⟨.inr hx, hnot⟩
      · rintro ⟨rfl | hx, hnot⟩
        · exact .inl rfl
        · by_cases hxy : x = y
          · exact .inl hxy
          · exact .inr ⟨hx, hxy, hnot⟩

/-- The queues of the bindings that match. --/
theorem mem_routeMessage {name rk queue : Bytes} {headers : Option FieldTable} :
    queue ∈ s.routeMessage name rk headers ↔ ∃ ex, s.headOf name = some ex ∧
      ∃ b ∈ s.bindingsOf name, ex.matchesBinding rk headers b = true ∧ b.queue_name = queue := by
  rw [routeMessage, headOf, bindingsOf]
  cases s.exchanges.lookup name with
  | none => simp
  | some ex =>
    have hhead : ∀ b, ex.head.matchesBinding rk headers b = ex.matchesBinding rk headers b := fun _ => rfl
    simp [mem_eraseSeen, Exchange.route, hhead, and_assoc]

theorem QueuesMirrored.find (h : QueuesMirrored s) {name : Bytes} {q : MessageQueue} (hq : s.declaration name = some q)
    (hd : q.durable = true) : s.logged.queues.find? (fun d => d.name = name) = some (declOf name q) := by
  have hmem : declOf name q ∈ s.logged.queues := (h.logged _).mpr ⟨q, hq, hd, rfl⟩
  cases hfind : s.logged.queues.find? fun d => d.name = name with
  | none => exact absurd (decide_eq_true rfl) (List.find?_eq_none.mp hfind _ hmem)
  | some d =>
    have hname : d.name = name := by simpa using List.find?_some hfind
    obtain ⟨q', hq', -, hdecl⟩ := (h.logged d).mp (List.mem_of_find?_eq_some hfind)
    rw [hname, hq] at hq'
    rw [hdecl, hname, Option.some.inj hq']

theorem ExchangesMirrored.find (h : ExchangesMirrored s) {name : Bytes} {ex : Exchange}
    (hfree : defaultExchanges.lookup name = none) (hex : s.headOf name = some ex) (hd : ex.durable = true) :
    s.logged.exchanges.find? (fun d => d.name = name) = some (exchangeDeclOf name ex) := by
  have hmem : exchangeDeclOf name ex ∈ s.logged.exchanges := (h.logged _).mpr ⟨hfree, ex, hex, hd, rfl⟩
  cases hfind : s.logged.exchanges.find? fun d => d.name = name with
  | none => exact absurd (decide_eq_true rfl) (List.find?_eq_none.mp hfind _ hmem)
  | some d =>
    have hname : d.name = name := by simpa using List.find?_some hfind
    obtain ⟨-, ex', hex', -, hdecl⟩ := (h.logged d).mp (List.mem_of_find?_eq_some hfind)
    rw [hname, hex] at hex'
    rw [hdecl, hname, Option.some.inj hex']

namespace Mirrored

theorem restart_queue (h : Mirrored s) {name : Bytes} {q : MessageQueue} (hq : s.declaration name = some q)
    (hd : q.durable = true) :
    ∃ q', s.restart.queue name = some q' ∧ q'.frame = recoveredQueue (declOf name q) := by
  have hrec := (recoveredFrom_restart s).queues name
  rw [h.queues.find hq hd, Option.map_some, Option.map_eq_some_iff] at hrec
  exact hrec

theorem restart_exchange (h : Mirrored s) {name : Bytes} {ex : Exchange} (hex : s.headOf name = some ex)
    (hd : ex.durable = true) : ∃ ex', s.restart.headOf name = some ex' ∧ ex'.type = ex.type ∧ ex'.durable = ex.durable ∧
      ex'.auto_delete = ex.auto_delete ∧ ex'.internal = ex.internal := by
  have hrec := (recoveredFrom_restart s).exchanges name
  cases hdef : defaultExchanges.lookup name with
  | none =>
    rw [hdef, Option.none_or, h.exchanges.find hdef hex hd, Option.map_some] at hrec
    exact ⟨_, hrec, rfl, hd.symm, rfl, rfl⟩
  | some ex' =>
    obtain rfl := Option.some.inj ((h.exchanges.defaults name ex' hdef).symm.trans hex)
    rw [hdef, Option.some_or] at hrec
    exact ⟨ex', hrec, rfl, rfl, rfl, rfl⟩

theorem restart_isDurable (h : Mirrored s) (name : Bytes) : s.restart.isDurable name = s.isDurable name := by
  by_cases hd : s.isDurable name = true
  · rw [isDurable_eq, Option.any_eq_true] at hd
    obtain ⟨q, hq, hdq⟩ := hd
    obtain ⟨q', hq', hframe⟩ := h.restart_queue hq hdq
    have hd' : q'.durable = true := by
      have heq := congrArg MessageQueue.durable hframe
      exact heq
    rw [isDurable, hq', isDurable_eq, hq, Option.any_some, Option.any_some, hd', hdq]
  · have hnone : s.restart.hasQueue name = false := by
      by_contra hthere
      obtain ⟨d, hmem, rfl⟩ := ((recoveredFrom_restart s).hasQueue name).mp (by simpa using hthere)
      obtain ⟨q, hq, hdq, -⟩ := (h.queues.logged d).mp hmem
      rw [isDurable_eq, hq] at hd
      exact hd hdq
    rw [Bool.eq_false_iff.mpr hd, isDurable]
    rw [hasQueue, Option.isSome_eq_false_iff, Option.isNone_iff_eq_none] at hnone
    rw [hnone]
    rfl

/-- A durable exchange has the bindings of durable queues that it had, by queue and routing key. --/
theorem restart_bindings (h : Mirrored s) {name : Bytes} {ex : Exchange} (hex : s.headOf name = some ex)
    (hd : ex.durable = true) {queue rk : Bytes} (hq : s.isDurable queue) :
    (∃ b ∈ s.restart.bindingsOf name, b.queue_name = queue ∧ b.routing_key = rk) ↔
      ∃ b ∈ s.bindingsOf name, b.queue_name = queue ∧ b.routing_key = rk := by
  have hrec := recoveredFrom_restart s
  have hold := h.bindings.logged { queue, exchange := name, routing_key := rk } hq
  obtain ⟨ex', hex', -⟩ := h.restart_exchange hex hd
  have hthere : s.restart.hasExchange name := by rw [hasExchange_eq, hex']; rfl
  have hlogged : ∃ d ∈ s.logged.queues, d.name = queue := by
    rw [isDurable_eq, Option.any_eq_true] at hq
    obtain ⟨q, hq, hdq⟩ := hq
    exact ⟨declOf queue q, (h.queues.logged _).mpr ⟨q, hq, hdq, rfl⟩, rfl⟩
  have hnew := hrec.hasBinding { queue, exchange := name, routing_key := rk }
  rw [hasBinding_iff] at hold hnew
  refine (hnew.trans ?_).trans hold.symm
  simp only [hthere, true_and, hlogged, and_true, isDefault]

end Mirrored

/-- After every run of declarations, deletions and bindings in which new durable queues have no arguments, bindings to
    headers exchanges ask for nothing, and durable queues stay bound to the default exchange, a restart keeps the durable
    queues, the durable exchanges, and the routes to durable queues. --/
theorem restart_keeps_topology (hrun : VHostRun Kept (start (some {}) userStore clock readings) s) :
    SameDurable s s.restart := by
  have h : Mirrored s :=
    hrun.keeps (fun _ _ hshort hok h => h.perform hshort hok) (fun _ _ _ _ hk hm h => h.move hk hm) Mirrored.start
  refine ⟨fun name q hq hd hex => ?_, fun name ex hex hd => ?_, fun name ex hex hd rk headers queue => ?_⟩
  · have hdecl : s.declaration name = some q.declared := by rw [declaration, hq]; rfl
    obtain ⟨q', hq', hframe⟩ := h.restart_queue hdecl hd
    refine ⟨q', hq', ?_⟩
    calc q'.settings = q'.frame.settings := rfl
      _ = recoveredQueue (declOf name q.declared) := by rw [hframe]; rfl
      _ = q.settings := (h.queues.plain name q.declared hdecl hd hex).symm
  · have hhead : s.headOf name = some ex.head := by rw [headOf, hex]; rfl
    obtain ⟨ex', hex', hsame⟩ := h.restart_exchange hhead hd
    rw [headOf, Option.map_eq_some_iff] at hex'
    obtain ⟨ex'', hlookup, rfl⟩ := hex'
    exact ⟨ex'', hlookup, hsame⟩
  · rw [h.restart_isDurable, and_congr_left_iff]
    intro hq
    have hhead : s.headOf name = some ex.head := by rw [headOf, hex]; rfl
    obtain ⟨ex', hex', htype, -⟩ := h.restart_exchange hhead hd
    have hbinds : ∀ rk, (∃ b ∈ s.restart.bindingsOf name, b.queue_name = queue ∧ b.routing_key = rk) ↔
        ∃ b ∈ s.bindingsOf name, b.queue_name = queue ∧ b.routing_key = rk := fun rk => h.restart_bindings hhead hd hq
    have hempty : ∀ b ∈ s.restart.bindingsOf name, b.arguments = [] := by
      intro b hb
      obtain ⟨-, ⟨sb, -, -, rfl⟩ | ⟨-, d, -, rfl⟩⟩ := ((recoveredFrom_restart s).bindings name b).mp hb
      · rfl
      · rfl
    have hmatch : ∀ b ∈ s.bindingsOf name, b.queue_name = queue → ∀ b' ∈ s.restart.bindingsOf name,
        b'.routing_key = b.routing_key → ex'.matchesBinding rk headers b' = ex.head.matchesBinding rk headers b := by
      intro b hb hbq b' hb' hrk
      refine Exchange.matchesBinding_congr htype hrk (fun hheaders => ⟨?_, ?_⟩) rk headers
      · exact h.bindings.arguments name _ hhead hd hheaders b hb (hbq ▸ hq)
      · rw [hempty b' hb']
        rfl
    simp only [mem_routeMessage, hhead, hex', Option.some.injEq, exists_eq_left']
    constructor
    · rintro ⟨b', hb', hm, hbq'⟩
      obtain ⟨b, hb, hbq, hrk⟩ := (hbinds b'.routing_key).mp ⟨b', hb', hbq', rfl⟩
      exact ⟨b, hb, hmatch b hb hbq b' hb' hrk.symm ▸ hm, hbq⟩
    · rintro ⟨b, hb, hm, hbq⟩
      obtain ⟨b', hb', hbq', hrk⟩ := (hbinds b.routing_key).mpr ⟨b, hb, hbq, rfl⟩
      exact ⟨b', hb', (hmatch b hb hbq b' hb' hrk).trans hm, hbq'⟩

/-- A durable queue with a time to live for its messages is declared. --/
def ttlRun : List VHostOp := [.declareQueue (ascii "q") false true false false [(ascii "x-message-ttl", .longInt 1000)] 1]

/-- After a restart its messages do not expire. --/
theorem ttl_lost_in_restart :
    VHostRun (fun _ op => op ≠ .restart ∧ ∀ c, op ≠ .removeConnectionQueues c) freshServer
      (ttlRun.foldl perform freshServer) ∧
      ¬SameDurable (ttlRun.foldl perform freshServer) (ttlRun.foldl perform freshServer).restart := by
  refine ⟨.ops ⟨by decide, ⟨nofun, nofun⟩, trivial⟩, fun h => ?_⟩
  have hbefore : ((ttlRun.foldl perform freshServer).queue (ascii "q")).any
      (fun q => q.durable && !q.exclusive && decide (q.queueTtlMs = 1000)) = true := by decide +kernel
  have hafter : ((ttlRun.foldl perform freshServer).restart.queue (ascii "q")).any
      (fun q => decide (q.queueTtlMs = 1000)) = false := by decide +kernel
  obtain ⟨q, hq, hsettings⟩ := Option.any_eq_true _ _ |>.mp hbefore
  simp only [Bool.and_eq_true, Bool.not_eq_true', decide_eq_true_eq] at hsettings
  obtain ⟨q', hq', hsame⟩ := h.queues _ q hq hsettings.1.1 hsettings.1.2
  have httl : q'.settings.queueTtlMs = q.settings.queueTtlMs := by rw [hsame]
  have httl : q'.queueTtlMs = q.queueTtlMs := httl
  rw [hq', Option.any_some, httl, hsettings.2] at hafter
  cases hafter

/-- A durable queue is declared and bound, and another one is bound and unbound. --/
def plainRun : List VHostOp :=
  [.declareQueue (ascii "q") false true false false [] 1, .bindQueue (ascii "q") (ascii "amq.direct") (ascii "k") [],
    .declareQueue (ascii "p") false true false false [] 1, .bindQueue (ascii "p") (ascii "amq.direct") (ascii "k") [],
    .unbindQueue (ascii "p") (ascii "amq.direct") (ascii "k")]

theorem topology_kept_plainRun :
    SameDurable (plainRun.foldl perform freshServer) (plainRun.foldl perform freshServer).restart ∧
      (plainRun.foldl perform freshServer).routeMessage (ascii "amq.direct") (ascii "k") none = [ascii "q"] :=
  ⟨restart_keeps_topology (.ops (by decide +kernel)), by decide +kernel⟩

end AmqpServer
end Broko.Broker
