import Broko.Theorems.Effects

/-! What was removed stays away. A removal that writes its entry takes away from the log whatever names the removed
    object; `removeConnectionQueues` writes no entry, and the binding to the default exchange is made again for every
    queue of the log. -/

namespace Broko.Broker
open Amqp Storage MessageStore

/-- What can be declared and removed. --/
inductive Object where
  | queue (name : Bytes)
  | exchange (name : Bytes)
  | binding (b : StoredBinding)

namespace AmqpServer

variable {s s' : AmqpServer} {x : Object} {op : VHostOp} {userStore : UserStore} {clock : Nat → Int} {readings : Nat}

def has (s : AmqpServer) : Object → Bool
  | .queue name => s.hasQueue name
  | .exchange name => s.hasExchange name
  | .binding b => s.hasBinding b

/-- A new process would make it out of the log. --/
def Returns (s : AmqpServer) : Object → Prop
  | .queue name => ∃ d ∈ s.logged.queues, d.name = name
  | .exchange name => ∃ d ∈ s.logged.exchanges, d.name = name
  | .binding b => b ∈ s.logged.bindings ∨
    (b.exchange = [] ∧ b.routing_key = b.queue ∧ ∃ d ∈ s.logged.queues, d.name = b.queue)

/-! ### Steps -/

/-- Nothing of the queue is in the log. --/
def Unlogged (s : AmqpServer) (name : Bytes) : Prop :=
  (∀ d ∈ s.logged.queues, d.name ≠ name) ∧ ∀ m ∈ s.logged.messages, m.queue_name ≠ name

instance (s : AmqpServer) (name : Bytes) : Decidable (Unlogged s name) :=
  inferInstanceAs (Decidable ((∀ d ∈ s.logged.queues, d.name ≠ name) ∧ ∀ m ∈ s.logged.messages, m.queue_name ≠ name))

/-- The binding of a queue in the log to the default exchange is not unbound, and the end of a connection takes away
    no queue that is in the log, nor bindings that are in the log. --/
def Recorded (s : AmqpServer) : VHostOp → Prop
  | .unbindQueue queue exchange routingKey => exchange = [] → routingKey = queue → ∀ d ∈ s.logged.queues, d.name ≠ queue
  | .removeConnectionQueues c => (∀ name ∈ s.queueNames (s.goesWith c), Unlogged s name) ∧
    ∀ b ∈ s.logged.bindings, s.ownsQueue c b.queue = false
  | _ => True

instance (s : AmqpServer) : (op : VHostOp) → Decidable (Recorded s op)
  | .unbindQueue queue exchange routingKey =>
    inferInstanceAs (Decidable (exchange = [] → routingKey = queue → ∀ d ∈ s.logged.queues, d.name ≠ queue))
  | .removeConnectionQueues c =>
    inferInstanceAs (Decidable ((∀ name ∈ s.queueNames (s.goesWith c), Unlogged s name) ∧
      ∀ b ∈ s.logged.bindings, s.ownsQueue c b.queue = false))
  | .restart => inferInstanceAs (Decidable True)
  | .declareExchange .. => inferInstanceAs (Decidable True)
  | .deleteExchange _ => inferInstanceAs (Decidable True)
  | .declareQueue .. => inferInstanceAs (Decidable True)
  | .deleteQueue .. => inferInstanceAs (Decidable True)
  | .bindQueue .. => inferInstanceAs (Decidable True)

/-- The log would bring back only what was made or what it would have brought back before, and nothing that was
    removed. --/
structure Follows (s s' : AmqpServer) (x : Object) : Prop where
  returns : s'.Returns x → s'.has x ∨ s.Returns x
  removed : s.has x → s'.has x = false → ¬s'.Returns x

theorem Follows.of_keeps (hhas : s.has x → s'.has x) (hret : s'.Returns x → s'.has x ∨ s.Returns x) : Follows s s' x :=
  ⟨hret, fun h h' => absurd (hhas h) (by simp [h'])⟩

theorem returns_congr (h : SameLog s s') : s'.Returns x ↔ s.Returns x := by
  cases x with
  | queue name => rw [Returns, Returns, h.queues]
  | exchange name => rw [Returns, Returns, h.exchanges]
  | binding b => rw [Returns, Returns, h.bindings, h.queues]

theorem follows_queue_same {n : Bytes} (hq : s'.queue n = s.queue n)
    (hlog : ∀ d, d ∈ s'.logged.queues ↔ d ∈ s.logged.queues) : Follows s s' (.queue n) := by
  refine .of_keeps (fun h => ?_) fun ⟨d, hd, hn⟩ => .inr ⟨d, (hlog d).mp hd, hn⟩
  rw [has, hasQueue, hq]
  exact h

theorem Effect.follows_queue (h : Effect s s' op) (n : Bytes) : Follows s s' (.queue n) := by
  cases h with
  | idle hq hex hst => exact follows_queue_same (by rw [queue, hq, queue]) fun d => by rw [logged_of_store hst]
  | declareExchange _ hlog hq => exact follows_queue_same (hq n) (hlog.sameQueues (fun _ => rfl) rfl)
  | deleteExchange _ hlog hq => exact follows_queue_same (hq n) (hlog.sameQueues (fun _ => rfl) rfl)
  | declareQueue qname _ _ _ hlog hq =>
    by_cases hn : n = qname
    · exact .of_keeps (fun _ => by rw [has, hasQueue, hq, if_pos hn]; rfl)
        (fun _ => .inl (by rw [has, hasQueue, hq, if_pos hn]; rfl))
    · refine .of_keeps (fun h => by rw [has, hasQueue, hq, if_neg hn]; exact h) ?_
      rintro ⟨d, hd, hname⟩
      refine .inr ⟨d, ?_, hname⟩
      rcases (hlog.queues d).mp hd with ⟨hd, -⟩ | ⟨-, hd⟩
      · exact hd
      · exact absurd (hname.symm.trans (congrArg _ (Option.some.inj hd)).symm) hn
  | @deleteQueue name _ _ hlog hq =>
    constructor
    · rintro ⟨d, hd, hname⟩
      rcases (hlog.queues d).mp hd with ⟨hd, -⟩ | ⟨-, hd⟩
      · exact .inr ⟨d, hd, hname⟩
      · cases hd
    · rintro hthere hgone ⟨d, hd, hname⟩
      have hn : n = name := by
        by_contra hn
        rw [has, hasQueue, hq, if_neg hn] at hgone
        rw [has, hasQueue, hgone] at hthere
        cases hthere
      rcases (hlog.queues d).mp hd with ⟨-, hd⟩ | ⟨-, hd⟩
      · simp [Entry.removesQueue, hname, hn] at hd
      · cases hd
  | bindQueue _ _ hlog hq => exact follows_queue_same (hq n) (hlog.sameQueues (fun _ => rfl) rfl)
  | unbindQueue hlog hq => exact follows_queue_same (hq n) (hlog.sameQueues (fun _ => rfl) rfl)

theorem follows_exchange_same {n : Bytes} (hex : s'.hasExchange n = s.hasExchange n)
    (hlog : ∀ d, d ∈ s'.logged.exchanges ↔ d ∈ s.logged.exchanges) : Follows s s' (.exchange n) := by
  refine .of_keeps (fun h => ?_) fun ⟨d, hd, hn⟩ => .inr ⟨d, (hlog d).mp hd, hn⟩
  rw [has, hex]
  exact h

theorem Effect.follows_exchange (h : Effect s s' op) (n : Bytes) : Follows s s' (.exchange n) := by
  cases h with
  | idle hq hex hst =>
    exact follows_exchange_same (by rw [hasExchange, hex, hasExchange]) fun d => by rw [logged_of_store hst]
  | @declareExchange name _ _ _ _ _ _ hnew hlog hq hex =>
    by_cases hn : n = name
    · exact .of_keeps (fun _ => by rw [has, hasExchange, hex, if_pos hn]; rfl)
        (fun _ => .inl (by rw [has, hasExchange, hex, if_pos hn]; rfl))
    · refine .of_keeps (fun h => by rw [has, hasExchange, hex, if_neg hn]; exact h) ?_
      rintro ⟨d, hd, hname⟩
      refine .inr ⟨d, ?_, hname⟩
      rcases (hlog.exchanges d).mp hd with ⟨hd, -⟩ | ⟨-, hd⟩
      · exact hd
      · exact absurd (hname.symm.trans (congrArg _ (Option.some.inj hd)).symm) hn
  | @deleteExchange name hres hlog hq hex =>
    constructor
    · rintro ⟨d, hd, hname⟩
      rcases (hlog.exchanges d).mp hd with ⟨hd, -⟩ | ⟨-, hd⟩
      · exact .inr ⟨d, hd, hname⟩
      · cases hd
    · rintro hthere hgone ⟨d, hd, hname⟩
      have hn : n = name := by
        by_contra hn
        rw [has, hasExchange, hex, if_neg hn] at hgone
        rw [has, hasExchange, hgone] at hthere
        cases hthere
      rcases (hlog.exchanges d).mp hd with ⟨-, hd⟩ | ⟨-, hd⟩
      · simp [Entry.removesExchange, hname, hn] at hd
      · cases hd
  | declareQueue _ _ _ _ hlog _ hex =>
    exact follows_exchange_same (hasExchange_of_head hex n) (hlog.sameExchanges (fun _ => rfl) rfl)
  | deleteQueue hlog _ hex =>
    exact follows_exchange_same (hasExchange_of_head hex n) (hlog.sameExchanges (fun _ => rfl) rfl)
  | bindQueue _ _ hlog _ hex =>
    exact follows_exchange_same (hasExchange_of_head hex n) (hlog.sameExchanges (fun _ => rfl) rfl)
  | unbindQueue hlog _ hex =>
    exact follows_exchange_same (hasExchange_of_head hex n) (hlog.sameExchanges (fun _ => rfl) rfl)

/-- No binding is removed, and no entry brings one back that was not made. --/
theorem follows_binding_kept {b : StoredBinding} (hb : ∀ x, x ∈ s.bindingsOf b.exchange → x ∈ s'.bindingsOf b.exchange)
    (hlog : b ∈ s'.logged.bindings → s'.hasBinding b ∨ b ∈ s.logged.bindings)
    (hqueues : ∀ d ∈ s'.logged.queues, d ∈ s.logged.queues) : Follows s s' (.binding b) := by
  refine .of_keeps (fun h => ?_) fun h => ?_
  · obtain ⟨x, hx, hname⟩ := hasBinding_iff.mp h
    exact hasBinding_iff.mpr ⟨x, hb x hx, hname⟩
  · rcases h with h | ⟨hex, hrk, d, hd, hname⟩
    · exact (hlog h).imp_right .inl
    · exact .inr (.inr ⟨hex, hrk, d, hqueues d hd, hname⟩)

theorem Effect.follows_binding (h : Effect s s' op) (hok : Recorded s op) (hdef : s.hasExchange []) (b : StoredBinding) :
    Follows s s' (.binding b) := by
  cases h with
  | idle hq hex hst =>
    refine follows_binding_kept (fun x hx => ?_) (fun h => ?_) (fun d hd => ?_)
    · rw [bindingsOf_congr hex]
      exact hx
    · exact .inr (logged_of_store hst ▸ h)
    · exact logged_of_store hst ▸ hd
  | @declareExchange name _ _ _ _ _ _ hnew hlog hq hex =>
    refine follows_binding_kept (fun x hx => ?_) (fun h => .inr ((hlog.sameBindings (fun _ => rfl) rfl b).mp h))
      (fun d => (hlog.sameQueues (fun _ => rfl) rfl d).mp)
    obtain ⟨ex, hlookup, hmem⟩ := mem_bindingsOf.mp hx
    refine mem_bindingsOf.mpr ⟨ex, ?_, hmem⟩
    rw [hex, if_neg]
    · exact hlookup
    · rintro heq
      rw [heq, hnew] at hlookup
      cases hlookup
  | @deleteExchange name hres hlog hq hex =>
    refine ⟨fun h => .inr ?_, fun hthere hgone h => ?_⟩
    · rcases h with h | ⟨he, hrk, d, hd, hname⟩
      · rcases (hlog.bindings b).mp h with ⟨h, -⟩ | ⟨-, h⟩
        · exact .inl h
        · cases h
      · exact .inr ⟨he, hrk, d, (hlog.sameQueues (fun _ => rfl) rfl d).mp hd, hname⟩
    · have hb : b.exchange = name := by
        by_contra hne
        have hsame : s'.hasBinding b = s.hasBinding b := by rw [hasBinding, bindingsOf, hex, if_neg hne, hasBinding, bindingsOf]
        rw [has, hsame] at hgone
        rw [has, hgone] at hthere
        cases hthere
      rcases h with h | ⟨he, -⟩
      · rcases (hlog.bindings b).mp h with ⟨-, h⟩ | ⟨-, h⟩
        · simp [Entry.removesBinding, hb] at h
        · cases h
      · rw [← hb, he] at hres
        cases hres
  | declareQueue qname _ _ _ hlog hq hex hb =>
    refine .of_keeps (fun h => ?_) fun h => ?_
    · obtain ⟨x, hx, hname⟩ := hasBinding_iff.mp h
      exact hasBinding_iff.mpr ⟨x, (hb _ x).mpr (.inl hx), hname⟩
    · rcases h with h | ⟨he, hrk, d, hd, hname⟩
      · exact .inr (.inl ((hlog.sameBindings (fun _ => rfl) rfl b).mp h))
      · rcases (hlog.queues d).mp hd with ⟨hd, -⟩ | ⟨-, hd⟩
        · exact .inr (.inr ⟨he, hrk, d, hd, hname⟩)
        · have hqname : qname = b.queue := by rw [← hname, ← Option.some.inj hd]
          exact .inl (hasBinding_iff.mpr ⟨defaultBinding qname, (hb _ _).mpr (.inr ⟨he, hdef, rfl⟩), hqname,
            hqname.trans hrk.symm⟩)
  | @deleteQueue name _ _ hlog hq hex hb =>
    refine ⟨fun h => .inr ?_, fun hthere hgone h => ?_⟩
    · rcases h with h | ⟨he, hrk, d, hd, hname⟩
      · rcases (hlog.bindings b).mp h with ⟨h, -⟩ | ⟨-, h⟩
        · exact .inl h
        · cases h
      · rcases (hlog.queues d).mp hd with ⟨hd, -⟩ | ⟨-, hd⟩
        · exact .inr ⟨he, hrk, d, hd, hname⟩
        · cases hd
    · have hbq : b.queue = name := by
        by_contra hne
        obtain ⟨x, hx, hxq, hxrk⟩ := hasBinding_iff.mp hthere
        have hkept : s'.has (.binding b) := hasBinding_iff.mpr ⟨x, (hb _ x).mpr ⟨hx, hxq ▸ hne⟩, hxq, hxrk⟩
        rw [hgone] at hkept
        cases hkept
      rcases h with h | ⟨-, -, d, hd, hname⟩
      · rcases (hlog.bindings b).mp h with ⟨-, h⟩ | ⟨-, h⟩
        · simp [Entry.removesBinding, hbq] at h
        · cases h
      · rcases (hlog.queues d).mp hd with ⟨-, hd⟩ | ⟨-, hd⟩
        · simp [Entry.removesQueue, hname, hbq] at hd
        · cases hd
  | @bindQueue queue exchange routingKey args hthere hqueue hlog hq hex hb =>
    refine follows_binding_kept (fun x hx => (hb _ x).mpr (.inl hx)) (fun h => ?_)
      (fun d => (hlog.sameQueues (fun _ => rfl) rfl d).mp)
    rcases (hlog.bindings b).mp h with ⟨h, -⟩ | ⟨-, h⟩
    · exact .inr h
    · obtain rfl := Option.some.inj h
      exact .inl (hasBinding_iff.mpr ⟨_, (hb _ _).mpr (.inr ⟨rfl, rfl⟩), rfl, rfl⟩)
  | @unbindQueue queue exchange routingKey hlog hq hex hb =>
    refine ⟨fun h => .inr ?_, fun hthere hgone h => ?_⟩
    · rcases h with h | ⟨he, hrk, d, hd, hname⟩
      · rcases (hlog.bindings b).mp h with ⟨h, -⟩ | ⟨-, h⟩
        · exact .inl h
        · cases h
      · exact .inr ⟨he, hrk, d, (hlog.sameQueues (fun _ => rfl) rfl d).mp hd, hname⟩
    · have hbq : b.exchange = exchange ∧ b.queue = queue ∧ b.routing_key = routingKey := by
        by_contra hne
        obtain ⟨x, hx, hxq, hxrk⟩ := hasBinding_iff.mp hthere
        have hkept : s'.has (.binding b) :=
          hasBinding_iff.mpr ⟨x, (hb _ x).mpr ⟨hx, by rw [hxq, hxrk]; exact hne⟩, hxq, hxrk⟩
        rw [hgone] at hkept
        cases hkept
      obtain ⟨he, hqn, hrk⟩ := hbq
      rcases h with h | ⟨hdefault, hown, d, hd, hname⟩
      · rcases (hlog.bindings b).mp h with ⟨-, h⟩ | ⟨-, h⟩
        · simp [Entry.removesBinding, he, hqn, hrk] at h
        · cases h
      · refine hok (he.symm.trans hdefault) ?_ d ((hlog.sameQueues (fun _ => rfl) rfl d).mp hd) (hname.trans hqn)
        rw [← hrk, hown, hqn]

theorem follows_removeConnectionQueues {c : Nat} (hok : Recorded s (.removeConnectionQueues c)) :
    Follows s (s.removeConnectionQueues c) x := by
  obtain ⟨hst, hq, hb, hhead⟩ := removeConnectionQueues_spec (s := s) c
  have hlog : SameLog s (s.removeConnectionQueues c) := .of_store hst
  refine ⟨fun h => .inr ((returns_congr hlog).mp h), fun hthere hgone h => ?_⟩
  have h := (returns_congr hlog).mp h
  have howned : ∀ name, s.ownsQueue c name → ∀ d ∈ s.logged.queues, d.name ≠ name := by
    intro name howns
    obtain ⟨q, hq, ho⟩ : ∃ q, s.queue name = some q ∧ ownedBy c q := by
      rw [ownsQueue, Option.any_eq_true] at howns
      exact howns
    exact (hok.1 name (mem_queueNames.mpr ⟨q, hq, by rw [goesWith, ho]; rfl⟩)).1
  cases x with
  | queue name =>
    obtain ⟨d, hd, hname⟩ := h
    obtain ⟨q, hqs⟩ := Option.isSome_iff_exists.mp hthere
    have hgoes : s.goesWith c q := by
      by_contra hstays
      rw [has, hasQueue, hq, hqs, Option.bind_some, if_neg hstays] at hgone
      cases hgone
    exact (hok.1 name (mem_queueNames.mpr ⟨q, hqs, hgoes⟩)).1 d hd hname
  | exchange name =>
    have hsame : (s.removeConnectionQueues c).hasExchange name = s.hasExchange name := hasExchange_of_head hhead name
    rw [has, hsame] at hgone
    rw [has, hgone] at hthere
    cases hthere
  | binding b =>
    have howns : s.ownsQueue c b.queue := by
      by_contra hfree
      obtain ⟨x, hx, hxq, hxrk⟩ := hasBinding_iff.mp hthere
      have hkept : (s.removeConnectionQueues c).has (.binding b) := by
        refine hasBinding_iff.mpr ⟨x, ?_, hxq, hxrk⟩
        rw [hb, List.mem_filter, hxq]
        exact ⟨hx, by rw [Bool.eq_false_iff.mpr hfree]; rfl⟩
      rw [hgone] at hkept
      cases hkept
    rcases h with h | ⟨-, -, d, hd, hname⟩
    · rw [hok.2 b h] at howns
      cases howns
    · exact howned b.queue howns d hd hname

/-- Every operation of a process. --/
theorem Tidy.follows (h : Tidy s) (hshort : op.Short) (hok : Recorded s op) (hrestart : op ≠ .restart) :
    Follows s (s.perform op) x := by
  by_cases hend : ∃ c, op = .removeConnectionQueues c
  · obtain ⟨c, rfl⟩ := hend
    exact follows_removeConnectionQueues hok
  · have heff := effect_perform h.journaled hshort (fun c hc => hend ⟨c, hc⟩) hrestart
    cases x with
    | queue name => exact heff.follows_queue name
    | exchange name => exact heff.follows_exchange name
    | binding b => exact heff.follows_binding hok h.default b

/-! ### Runs after a removal -/

/-- It is neither there nor in the log, and no process makes it by itself. --/
structure Gone (s : AmqpServer) (x : Object) : Prop where
  absent : s.has x = false
  returns : ¬s.Returns x
  made : ∀ name, x = .exchange name → isReserved name = false

/-- The object is not declared again. --/
def NotAgain (x : Object) (s : AmqpServer) (op : VHostOp) : Prop := op = .restart ∨ (s.perform op).has x = false

theorem has_restart (hmade : ∀ name, x = .exchange name → isReserved name = false) (h : s.restart.has x) : s.Returns x := by
  have hrec := recoveredFrom_restart s
  cases x with
  | queue name => exact (hrec.hasQueue name).mp h
  | exchange name =>
    rcases (hrec.hasExchange name).mp h with h | h
    · have hres := isReserved_of_default h
      rw [hmade name rfl] at hres
      cases hres
    · exact h
  | binding b => exact ((hrec.hasBinding b).mp h).2

theorem Gone.restart (h : Gone s x) : Gone s.restart x := by
  refine ⟨?_, fun hret => h.returns ?_, h.made⟩
  · by_contra hthere
    exact h.returns (has_restart h.made (by simpa using hthere))
  · have hlog : SameLog s s.restart := .of_logged (by rw [logged_restart])
    exact (returns_congr hlog).mp hret

theorem Gone.perform (h : Gone s x) (ht : Tidy s) (hshort : op.Short) (hok : Recorded s op) (hnot : NotAgain x s op) :
    Gone (s.perform op) x := by
  by_cases hrestart : op = .restart
  · rw [hrestart]
    exact h.restart
  · have habsent := hnot.resolve_left hrestart
    refine ⟨habsent, fun hret => ?_, h.made⟩
    rcases (ht.follows hshort hok hrestart).returns hret with hthere | hret
    · rw [habsent] at hthere
      cases hthere
    · exact h.returns hret

theorem Gone.move {c : Nat} {k : Kind} (h : Gone s x) (ht : Tidy s) (hk : k ∈ trafficKinds) (hm : Move c k s s') :
    Gone s' x := by
  have hsame := SameTopology.of_move hm hk
  refine ⟨?_, fun hret => h.returns ((returns_congr (ht.move hk hm).2).mp hret), h.made⟩
  rw [← h.absent]
  cases x with
  | queue name => exact hsame.hasQueue name
  | exchange name => exact hsame.hasExchange name
  | binding b => rw [has, hasBinding, hsame.bindingsOf, has, hasBinding]

/-- An exchange that can be removed is none of those that a process makes by itself. --/
theorem reserved_kept (ht : Tidy s) (hshort : op.Short) (hrestart : op ≠ .restart) {name : Bytes}
    (hthere : s.hasExchange name) (hgone : (s.perform op).hasExchange name = false) : isReserved name = false := by
  have hkept : (s.perform op).hasExchange name = s.hasExchange name → isReserved name = false := by
    intro heq
    rw [heq, hthere] at hgone
    cases hgone
  by_cases hend : ∃ c, op = .removeConnectionQueues c
  · obtain ⟨c, rfl⟩ := hend
    exact hkept (hasExchange_of_head (removeConnectionQueues_spec c).2.2.2 name)
  · have heff := effect_perform ht.journaled hshort (fun c hc => hend ⟨c, hc⟩) hrestart
    cases heff with
    | idle hq hex hst => exact hkept (by rw [hasExchange, hex, hasExchange])
    | declareExchange hnew _ _ hex =>
      rw [hasExchange, hex] at hgone
      split at hgone
      · cases hgone
      · rw [hasExchange, hgone] at hthere
        cases hthere
    | deleteExchange hres _ _ hex =>
      rw [hasExchange, hex] at hgone
      split at hgone
      · rename_i h
        rw [h]
        exact hres
      · rw [hasExchange, hgone] at hthere
        cases hthere
    | declareQueue _ _ _ _ _ _ hex => exact hkept (hasExchange_of_head hex name)
    | deleteQueue _ _ hex => exact hkept (hasExchange_of_head hex name)
    | bindQueue _ _ _ _ hex => exact hkept (hasExchange_of_head hex name)
    | unbindQueue _ _ hex => exact hkept (hasExchange_of_head hex name)

theorem gone_of_removed (ht : Tidy s) (hshort : op.Short) (hok : Recorded s op) (hrestart : op ≠ .restart)
    (hthere : s.has x) (hgone : (s.perform op).has x = false) : Gone (s.perform op) x := by
  refine ⟨hgone, (ht.follows hshort hok hrestart).removed hthere hgone, fun name hx => ?_⟩
  subst hx
  exact reserved_kept ht hshort hrestart hthere hgone

/-! ### Messages of the removed queue -/

/-- The message was stored in the run from `s₀` to `s`. --/
def StoredSince (s₀ s : AmqpServer) (m : StoredMessage) : Prop :=
  ∃ c s₁ s₂, VHostRun Recorded s₀ s₁ ∧ Move c .store s₁ s₂ ∧ VHostRun Recorded s₂ s ∧
    m ∉ s₁.logged.messages ∧ m ∈ s₂.logged.messages

/-- What the log has for the queue after the removal of the queue is none of its messages. --/
theorem messages_of_removed (ht : Tidy s) (hshort : op.Short) (hok : Recorded s op) (hrestart : op ≠ .restart) {name : Bytes}
    (hthere : s.hasQueue name) (hgone : (s.perform op).hasQueue name = false) :
    ∀ m ∈ (s.perform op).logged.messages, m.queue_name ≠ name := by
  have hkept : ∀ {P : Prop}, (s.perform op).queue name = s.queue name → P := by
    intro P heq
    rw [hasQueue, heq, ← hasQueue, hthere] at hgone
    cases hgone
  by_cases hend : ∃ c, op = .removeConnectionQueues c
  · obtain ⟨c, rfl⟩ := hend
    obtain ⟨hst, hq, -, -⟩ := removeConnectionQueues_spec (s := s) c
    obtain ⟨q, hqs⟩ := Option.isSome_iff_exists.mp hthere
    have hgoes : s.goesWith c q := by
      by_contra hstays
      have hgone : (s.removeConnectionQueues c).hasQueue name = false := hgone
      rw [hasQueue, hq, hqs, Option.bind_some, if_neg hstays] at hgone
      cases hgone
    intro m hm
    exact (hok.1 name (mem_queueNames.mpr ⟨q, hqs, hgoes⟩)).2 m (logged_of_store hst ▸ hm)
  · have heff := effect_perform ht.journaled hshort (fun c hc => hend ⟨c, hc⟩) hrestart
    cases heff with
    | idle hq hex hst => exact hkept (by rw [queue, hq, queue])
    | declareExchange _ _ hq => exact hkept (hq name)
    | deleteExchange _ _ hq => exact hkept (hq name)
    | declareQueue qname _ _ _ _ hq =>
      by_cases hn : name = qname
      · rw [hasQueue, hq, if_pos hn] at hgone
        cases hgone
      · exact hkept (by rw [hq, if_neg hn])
    | @deleteQueue deleted _ _ hlog hq =>
      by_cases hn : name = deleted
      · intro m hm hname
        have hdel := ((hlog.messages m).mp hm).2
        simp [Entry.deletesQueueOf, hname, hn] at hdel
      · exact hkept (by rw [hq, if_neg hn])
    | bindQueue _ _ _ hq => exact hkept (hq name)
    | unbindQueue _ hq => exact hkept (hq name)

theorem Effect.messages (h : Effect s s' op) {m : StoredMessage} (hm : m ∈ s'.logged.messages) : m ∈ s.logged.messages := by
  cases h with
  | idle _ _ hst => exact logged_of_store hst ▸ hm
  | declareExchange _ hlog => exact ((hlog.messages m).mp hm).1
  | deleteExchange _ hlog => exact ((hlog.messages m).mp hm).1
  | declareQueue _ _ _ _ hlog => exact ((hlog.messages m).mp hm).1
  | deleteQueue hlog => exact ((hlog.messages m).mp hm).1
  | bindQueue _ _ hlog => exact ((hlog.messages m).mp hm).1
  | unbindQueue hlog => exact ((hlog.messages m).mp hm).1

theorem Tidy.messages_perform (ht : Tidy s) (hshort : op.Short) {m : StoredMessage}
    (hm : m ∈ (s.perform op).logged.messages) : m ∈ s.logged.messages := by
  by_cases hrestart : op = .restart
  · subst hrestart
    exact logged_restart s ▸ hm
  · by_cases hend : ∃ c, op = .removeConnectionQueues c
    · obtain ⟨c, rfl⟩ := hend
      exact logged_of_store (removeConnectionQueues_spec c).1 ▸ hm
    · exact (effect_perform ht.journaled hshort (fun c hc => hend ⟨c, hc⟩) hrestart).messages hm

theorem StoredSince.step {s₀ : AmqpServer} {m : StoredMessage} (h : StoredSince s₀ s m) (hstep : VHostStep Recorded s s') :
    StoredSince s₀ s' m := by
  obtain ⟨c, s₁, s₂, h₁, hm, h₂, hnot, hmem⟩ := h
  exact ⟨c, s₁, s₂, h₁, hm, h₂.tail hstep, hnot, hmem⟩

/-- A message of the log was there at the start of the run, or it was stored in the run. --/
theorem storedSince_of_run {s₀ : AmqpServer} (ht : Tidy s₀) (hrun : VHostRun Recorded s₀ s) {m : StoredMessage}
    (hm : m ∈ s.logged.messages) : m ∈ s₀.logged.messages ∨ StoredSince s₀ s m := by
  have hkeeps : VHostRun Recorded s₀ s ∧ Tidy s ∧ ∀ m ∈ s.logged.messages, m ∈ s₀.logged.messages ∨ StoredSince s₀ s m := by
    refine hrun.keeps (P := fun s => VHostRun Recorded s₀ s ∧ Tidy s ∧
      ∀ m ∈ s.logged.messages, m ∈ s₀.logged.messages ∨ StoredSince s₀ s m) ?_ ?_ ⟨.refl, ht, fun m hm => .inl hm⟩
    · rintro s op hshort hok ⟨hrun, ht, hold⟩
      have hstep : VHostStep Recorded s (s.perform op) := .op hshort hok
      refine ⟨hrun.tail hstep, ht.perform hshort, fun m hm => ?_⟩
      exact (hold m (ht.messages_perform hshort hm)).imp_right (·.step hstep)
    · rintro c k s s' hk hmove ⟨hrun, ht, hold⟩
      have hstep : VHostStep Recorded s s' := .traffic (.mono (.of hmove) fun k' hk' => List.mem_singleton.mp hk' ▸ hk)
      refine ⟨hrun.tail hstep, (ht.move hk hmove).1, fun m hm => ?_⟩
      by_cases hmem : m ∈ s.logged.messages
      · exact (hold m hmem).imp_right (·.step hstep)
      · by_cases hstore : k = .store
        · subst hstore
          exact .inr ⟨c, s, s', hrun, hmove, .refl, hmem, hm⟩
        · exact absurd (ht.journaled.messages_move ht.names hmove hk hstore hm) hmem
  exact hkeeps.2.2 m hm

/-! ### Removed objects -/

/-- In every run in which what leaves without an entry is not in the log: a queue, exchange or binding that an operation
    removes is absent as long as it is not declared again, also after restarts; and a queue of that name never gets back
    messages that were stored before the removal. --/
theorem removed_stays_away (hrun : VHostRun Recorded (start (some {}) userStore clock readings) s) (hshort : op.Short)
    (hok : Recorded s op) (hrestart : op ≠ .restart) (hthere : s.has x) (hgone : (s.perform op).has x = false) :
    (∀ s', VHostRun (fun s op => Recorded s op ∧ NotAgain x s op) (s.perform op) s' →
      s'.has x = false ∧ s'.restart.has x = false) ∧
    ∀ name, x = .queue name → ∀ s', VHostRun Recorded (s.perform op) s' →
      ∀ q, s'.restart.queue name = some q → ∀ r ∈ q.messages, ∃ m, m.queue_name = name ∧
        StoredSince (s.perform op) s' m ∧ (s'.restart.message r).frame = (recoveredMessage m).frame := by
  have ht : Tidy s := Tidy.start.run hrun
  refine ⟨fun s' hrun' => ?_, fun name hx s' hrun' q hq r hr => ?_⟩
  · have hkeeps : Tidy s' ∧ Gone s' x := by
      refine hrun'.keeps (P := fun s => Tidy s ∧ Gone s x) ?_ ?_
        ⟨ht.perform hshort, gone_of_removed ht hshort hok hrestart hthere hgone⟩
      · exact fun s op hshort hok h => ⟨h.1.perform hshort, h.2.perform h.1 hshort hok.1 hok.2⟩
      · exact fun c k s s' hk hm h => ⟨(h.1.move hk hm).1, h.2.move h.1 hk hm⟩
    exact ⟨hkeeps.2.absent, hkeeps.2.restart.absent⟩
  · subst hx
    obtain ⟨-, sm, hsm, hname, hmsg⟩ := ((recoveredFrom_restart s').messages name q hq).2.2 r hr
    rcases storedSince_of_run (ht.perform hshort) hrun' hsm with hold | hnew
    · exact absurd hname (messages_of_removed ht hshort hok hrestart hthere hgone sm hold)
    · exact ⟨sm, hname, hnew, hmsg⟩

/-- A durable queue that only connection 1 may use is declared, and connection 1 ends. --/
def exclusiveRun : List VHostOp := [.declareQueue (ascii "q") false true true false [] 1]

/-- The queue that went with its connection is back after a restart. --/
theorem exclusive_queue_returns :
    VHostRun (fun _ _ => True) freshServer (exclusiveRun.foldl perform freshServer) ∧
      (exclusiveRun.foldl perform freshServer).has (.queue (ascii "q")) = true ∧
      ((exclusiveRun.foldl perform freshServer).perform (.removeConnectionQueues 1)).has (.queue (ascii "q")) = false ∧
      ((exclusiveRun.foldl perform freshServer).perform (.removeConnectionQueues 1)).restart.has (.queue (ascii "q")) =
        true :=
  ⟨.ops (by decide +kernel), by decide +kernel, by decide +kernel, by decide +kernel⟩

/-- A durable queue is deleted, and it is not there after a restart. --/
theorem deleted_queue_stays_away :
    (boundRun.foldl perform freshServer).has (.queue (ascii "q")) = true ∧
      ((boundRun.foldl perform freshServer).perform (.deleteQueue (ascii "q") false false)).restart.has
        (.queue (ascii "q")) = false := by
  have hrun : VHostRun Recorded freshServer (boundRun.foldl perform freshServer) := .ops (by decide +kernel)
  have hshort : (VHostOp.deleteQueue (ascii "q") false false).Short := by decide
  have hthere : (boundRun.foldl perform freshServer).has (.queue (ascii "q")) = true := by decide +kernel
  exact ⟨hthere, ((removed_stays_away hrun hshort trivial nofun hthere (by decide +kernel)).1 _ .refl).2⟩

end AmqpServer
end Broko.Broker
