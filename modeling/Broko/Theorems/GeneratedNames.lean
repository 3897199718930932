import Broko.Theorems.Bindings

/-! Queues that the server names. `generateQueueName` counts in the process; the queues come from clients and from the log
    too. -/

namespace Broko.Broker
open Amqp Storage MessageStore

/-- The digits can be read back. --/
theorem map_decimal (n : Nat) : (decimal n).map (fun b => Char.ofNat b.toNat) = Nat.toDigits 10 n := by
  rw [decimal, ascii, List.map_map, Nat.toString_eq_repr, Nat.toList_repr]
  refine (List.map_congr_left fun c hc => ?_).trans (List.map_id _)
  have hdigit := Char.isDigit_iff_toNat.mp (Nat.isDigit_of_mem_toDigits (by decide) (by decide) hc)
  have hlt : c.toNat < 256 := Nat.lt_of_le_of_lt hdigit.2 (by decide)
  rw [Function.comp_apply, UInt8.toNat_ofNat', Nat.mod_eq_of_lt hlt, Char.ofNat_toNat, id]

theorem decimal_injective : Function.Injective decimal := fun m n h => by
  have hdigits : Nat.toDigits 10 m = Nat.toDigits 10 n := by rw [← map_decimal, h, map_decimal]
  rw [← Nat.ofDigitChars_ten_toDigits (n := m), hdigits, Nat.ofDigitChars_ten_toDigits]

/-- What `generateQueueName` makes when the counter has this value. --/
def generatedName (n : Nat) : Bytes := ascii "amq.gen-" ++ decimal n

theorem generatedName_injective : Function.Injective generatedName := fun _ _ h =>
  decimal_injective (List.append_cancel_left h)

theorem ne_generatedName {name : Bytes} (h : (ascii "amq.gen-").isPrefixOf name = false) (n : Nat) :
    name ≠ generatedName n := by
  rintro rfl
  rw [Bool.eq_false_iff] at h
  exact h (List.isPrefixOf_iff_prefix.mpr (List.prefix_append _ _))

namespace AmqpServer

variable {s s' : AmqpServer}

/-! ### Declarations -/

/-- The counter after a declaration. --/
def counted (s : AmqpServer) (name : Bytes) : UInt64 := if name = [] then s.nameCounter + 1 else s.nameCounter

/-- The name that a declaration is about. --/
def nameFor (s : AmqpServer) (name : Bytes) : Bytes := if name = [] then generatedName (s.nameCounter + 1).toNat else name

/-- A declaration made a queue, or only counted. --/
theorem declareQueue_cases (s : AmqpServer) (name : Bytes) (passive durable exclusive autoDelete : Bool) (args : FieldTable)
    (c : Nat) :
    (∃ answer, s.declareQueue name passive durable exclusive autoDelete args c =
        (answer, { s with nameCounter := s.counted name })) ∧ (passive = true ∨ s.hasQueue (s.nameFor name)) ∨
      (passive = false ∧ s.queue (s.nameFor name) = none ∧
        s.declareQueue name passive durable exclusive autoDelete args c = (.ok (s.nameFor name),
          (({ s with
              nameCounter := s.counted name
              queues := s.queues.insert (s.nameFor name)
                (newQueue (s.nameFor name) durable exclusive autoDelete args c) } :
            AmqpServer).bindDefault (s.nameFor name)).logIf durable
              (.queueDeclare { name := s.nameFor name, durable, auto_delete := autoDelete }))) := by
  have hcounter : (if name = [] then { s with nameCounter := s.nameCounter + 1 } else s) =
      { s with nameCounter := s.counted name } := by
    rw [counted]
    split <;> rfl
  have hname : (if name = [] then ascii "amq.gen-" ++ decimal (s.counted name).toNat else name) = s.nameFor name := by
    rw [nameFor, counted]
    split <;> rfl
  have hqueue : ({ s with nameCounter := s.counted name } : AmqpServer).queue (s.nameFor name) = s.queue (s.nameFor name) := rfl
  rw [declareQueue, hcounter]
  dsimp only
  rw [hname, hqueue, hasQueue]
  cases hq : s.queue (s.nameFor name) with
  | none =>
    cases passive with
    | true => exact .inl ⟨⟨_, rfl⟩, .inl rfl⟩
    | false => exact .inr ⟨rfl, rfl, by cases durable <;> rfl⟩
  | some q =>
    refine .inl ⟨?_, .inr rfl⟩
    dsimp only
    split
    · exact ⟨_, rfl⟩
    · split <;> exact ⟨_, rfl⟩

/-- A declaration without a name makes a queue, whose name no queue had before. --/
def MakesNew (s : AmqpServer) : Prop :=
  ∀ durable exclusive autoDelete args c, ∃ name,
    (s.declareQueue [] false durable exclusive autoDelete args c).1 = .ok name ∧ s.queue name = none ∧
      (s.declareQueue [] false durable exclusive autoDelete args c).2.queue name =
        some (newQueue name durable exclusive autoDelete args c)

/-- So it does exactly if the next name is free. --/
theorem makesNew_iff : MakesNew s ↔ s.queue (generatedName (s.nameCounter + 1).toNat) = none := by
  constructor
  · intro h
    obtain ⟨name, -, hnone, hnew⟩ := h false false false [] 0
    rcases s.declareQueue_cases [] false false false false [] 0 with ⟨⟨answer, heq⟩, -⟩ | ⟨-, hfree, -⟩
    · rw [heq] at hnew
      exact absurd (hnone.symm.trans hnew) nofun
    · exact hfree
  · intro h durable exclusive autoDelete args c
    rcases s.declareQueue_cases [] false durable exclusive autoDelete args c with ⟨-, hno | hq⟩ | ⟨-, hnone, heq⟩
    · cases hno
    · rw [hasQueue, nameFor, if_pos rfl, h] at hq
      cases hq
    · refine ⟨_, by rw [heq], hnone, ?_⟩
      rw [heq, queue_logIf]
      exact Assoc.lookup_insert_self ..

/-! ### The counter -/

theorem nameCounter_logIf (p : Bool) (e : Entry) : (s.logIf p e).nameCounter = s.nameCounter := by
  cases p <;> rfl

theorem nameCounter_of_skeleton (h : s'.skeleton = s.skeleton) : s'.nameCounter = s.nameCounter :=
  show s'.skeleton.nameCounter = s.skeleton.nameCounter from congrArg AmqpServer.nameCounter h

theorem nameCounter_storeMessage (name : Bytes) (r : Ref) : (s.storeMessage name r).nameCounter = s.nameCounter := by
  rw [storeMessage]
  split <;> rfl

theorem nameCounter_persistAck (u : UnackedMessage) : (s.persistAck u).nameCounter = s.nameCounter := by
  have hcredit : (s.releaseCredit u).nameCounter = s.nameCounter := nameCounter_of_skeleton (skeleton_releaseCredit u)
  rw [persistAck]
  split
  · exact hcredit
  · split <;> exact hcredit

theorem nameCounter_removeConsumer (name tag : Bytes) : (s.removeConsumer name tag).nameCounter = s.nameCounter := by
  rw [removeConsumer]
  split
  · rfl
  · split <;> rfl

theorem nameCounter_removeConsumersByConnection (name : Bytes) (connId : Nat) :
    (s.removeConsumersByConnection name connId).nameCounter = s.nameCounter := by
  rw [removeConsumersByConnection]
  split
  · rfl
  · exact List.foldlRecOn (motive := fun s' : AmqpServer => s'.nameCounter = s.nameCounter) _ _ rfl fun _ h _ _ => h

/-- Traffic does not count. --/
theorem nameCounter_move {c : Nat} {k : Kind} (hm : Move c k s s') (hk : k ∈ trafficKinds) : s'.nameCounter = s.nameCounter := by
  cases hm with
  | handOver idx => exact nameCounter_of_skeleton (skeleton_handOver ..)
  | purge name => exact nameCounter_of_skeleton (skeleton_purge _)
  | store m => exact nameCounter_storeMessage ..
  | oversize m => exact nameCounter_storeMessage ..
  | releaseCredit u => exact nameCounter_of_skeleton (skeleton_releaseCredit u)
  | settle u => exact nameCounter_persistAck u
  | removeConsumer name tag => exact nameCounter_removeConsumer name tag
  | removeConsumersByConnection name => exact nameCounter_removeConsumersByConnection name c
  | nameCounter n => exact absurd hk (by decide)
  | _ => rfl

/-! ### Runs -/

/-- The names of this form that are in use are names that the process has generated. --/
def Ours (s : AmqpServer) : Prop := ∀ n, s.hasQueue (generatedName n) → 0 < n ∧ n ≤ s.nameCounter.toNat

/-- The counter does not run over, no client makes a queue with such a name that is still to come, and a process does not end
    while the log has a queue with such a name. --/
def Foreseen (s : AmqpServer) : VHostOp → Prop
  | .declareQueue name passive .. => (name = [] → s.nameCounter + 1 ≠ 0) ∧
    (passive = false → s.hasQueue name = false → ∀ n, name = generatedName n → 0 < n ∧ n ≤ s.nameCounter.toNat)
  | .restart => ∀ d ∈ s.logged.queues, ∀ n, d.name ≠ generatedName n
  | _ => True

theorem toNat_succ {n : UInt64} (h : n + 1 ≠ 0) : (n + 1).toNat = n.toNat + 1 := by
  have hlt := n.toNat_lt
  have hne : (n + 1).toNat ≠ 0 := fun hzero => h (UInt64.toNat_inj.mp hzero)
  rw [UInt64.toNat_add] at hne ⊢
  change (n.toNat + 1) % 2 ^ 64 ≠ 0 at hne
  change (n.toNat + 1) % 2 ^ 64 = n.toNat + 1
  omega

namespace Ours

theorem makesNew (h : Ours s) : MakesNew s := by
  rw [makesNew_iff, ← Option.not_isSome_iff_eq_none]
  intro hq
  have hlt := s.nameCounter.toNat_lt
  have hnext := h _ hq
  rw [UInt64.toNat_add] at hnext
  change 0 < (s.nameCounter.toNat + 1) % 2 ^ 64 ∧ (s.nameCounter.toNat + 1) % 2 ^ 64 ≤ s.nameCounter.toNat at hnext
  omega

theorem mono (h : Ours s) (hq : ∀ name, s'.hasQueue name → s.hasQueue name) (hcount : s'.nameCounter = s.nameCounter) :
    Ours s' := fun n hn => by
  rw [hcount]
  exact h n (hq _ hn)

theorem declareQueue (h : Ours s) {name : Bytes} {passive durable exclusive autoDelete : Bool} {args : FieldTable} {c : Nat}
    (hok : Foreseen s (.declareQueue name passive durable exclusive autoDelete args c)) :
    Ours (s.perform (.declareQueue name passive durable exclusive autoDelete args c)) := by
  obtain ⟨hover, hforeseen⟩ := hok
  have hle : s.nameCounter.toNat ≤ (s.counted name).toNat := by
    rw [counted]
    split
    · rename_i hname
      exact (toNat_succ (hover hname)).symm ▸ Nat.le_succ _
    · exact le_rfl
  have hold : ∀ n, s.hasQueue (generatedName n) → 0 < n ∧ n ≤ (s.counted name).toNat := fun n hn =>
    ⟨(h n hn).1, (h n hn).2.trans hle⟩
  rw [perform]
  rcases s.declareQueue_cases name passive durable exclusive autoDelete args c with ⟨⟨answer, heq⟩, -⟩ | ⟨hpassive, hfree, heq⟩
  · rw [heq]
    exact hold
  · rw [heq]
    intro n hn
    rw [nameCounter_logIf]
    rcases (hasQueue_insert ..).mp hn with hmade | hthere
    · change 0 < n ∧ n ≤ (s.counted name).toNat
      by_cases hname : name = []
      · -- The queue has the name that was generated for it.
        rw [nameFor, if_pos hname] at hmade
        obtain rfl := generatedName_injective hmade
        rw [counted, if_pos hname]
        exact ⟨(toNat_succ (hover hname)).symm ▸ Nat.succ_pos _, le_rfl⟩
      · rw [nameFor, if_neg hname] at hmade hfree
        have hasked := hforeseen hpassive (by rw [hasQueue, hfree]; rfl) n hmade.symm
        exact ⟨hasked.1, hasked.2.trans hle⟩
    · exact hold n hthere

theorem perform {op : VHostOp} (h : Ours s) (hok : Foreseen s op) : Ours (s.perform op) := by
  cases op with
  | declareExchange name type passive durable autoDelete internal args =>
    rcases s.perform_declareExchange name type passive durable autoDelete internal args with heq | ⟨-, heq⟩
    · rw [heq]
      exact h
    · rw [heq]
      exact h.mono (fun name hq => by rwa [hasQueue_logIf] at hq) (nameCounter_logIf _ _)
  | deleteExchange name =>
    rcases s.perform_deleteExchange name with heq | ⟨-, heq⟩
    · rw [heq]
      exact h
    · rw [heq]
      exact h.mono (fun name hq => by rwa [hasQueue_logIf] at hq) (nameCounter_logIf _ _)
  | declareQueue name passive durable exclusive autoDelete args connectionId => exact h.declareQueue hok
  | deleteQueue name ifUnused ifEmpty =>
    rcases s.perform_deleteQueue name ifUnused ifEmpty with heq | heq
    · rw [heq]
      exact h
    · rw [heq]
      exact h.mono (fun name' hq => ((hasQueue_delete name _ _ name').mp hq).2) (nameCounter_logIf _ _)
  | bindQueue queue exchange routingKey args =>
    rcases s.perform_bindQueue queue exchange routingKey args with heq | ⟨-, -, heq⟩
    · rw [heq]
      exact h
    · rw [heq]
      exact h.mono (fun name hq => by rwa [hasQueue_logIf] at hq) (nameCounter_logIf _ _)
  | unbindQueue queue exchange routingKey =>
    rcases s.perform_unbindQueue queue exchange routingKey with heq | heq
    · rw [heq]
      exact h
    · rw [heq]
      exact h.mono (fun name hq => by rwa [hasQueue_logIf] at hq) (nameCounter_logIf _ _)
  | removeConnectionQueues connectionId =>
    refine h.mono (fun name hq => ((hasQueue_removeConnectionQueues connectionId name).mp hq).1) ?_
    exact removeConnectionQueues_keeps (P := fun s' => s'.nameCounter = s.nameCounter) rfl
      (fun _ _ h => (nameCounter_removeConsumersByConnection ..).trans h) fun _ _ _ h => h
  | restart =>
    intro n hn
    obtain ⟨d, hd, hname⟩ := ((recoveredFrom_restart s).hasQueue _).mp hn
    exact absurd hname (hok d hd n)

theorem move (h : Ours s) {c : Nat} {k : Kind} (hm : Move c k s s') (hk : k ∈ trafficKinds) : Ours s' :=
  h.mono (fun name hq => by rwa [(SameTopology.of_move hm hk).hasQueue] at hq) (nameCounter_move hm hk)

end Ours

/-- In a run in which the names are foreseen, a declaration without a name always makes a new queue. --/
theorem generated_names_fresh {store : Option MessageStore} {userStore : UserStore} {clock : Nat → Int} {readings : Nat}
    (hstore : store = none ∨ store = some {}) (hrun : VHostRun Foreseen (start store userStore clock readings) s) :
    MakesNew s := by
  have hrec : RecoveredFrom {} (start store userStore clock readings) := recoveredFrom_empty hstore
  have hstart : Ours (start store userStore clock readings) := fun n hn => by
    obtain ⟨d, hd, -⟩ := (hrec.hasQueue _).mp hn
    cases hd
  exact (hrun.keeps (fun s op _ hok h => h.perform hok) (fun c k s s' hk hm h => h.move hm hk) hstart).makesNew

/-- Queues of two clients, one of them with a name of its own, and a restart. --/
def namedRun : List VHostOp :=
  [.declareQueue (ascii "q") false true false false [] 1, .declareQueue [] false false true false [] 2, .restart]

theorem generated_names_fresh_namedRun : MakesNew (namedRun.foldl perform freshServer) := by
  refine generated_names_fresh (.inr rfl) (.ops ⟨by decide, ⟨nofun, fun _ _ n hn => ?_⟩, by decide, ⟨fun _ => ?_, ?_⟩, trivial,
    fun d hd n => ?_, trivial⟩)
  · exact absurd hn (ne_generatedName (by decide) n)
  · decide +kernel
  · intro _ _ n hn
    cases hn
  · have hlogged : ((namedRun.take 2).foldl perform freshServer).logged.queues.all
        (fun d => !(ascii "amq.gen-").isPrefixOf d.name) = true := by decide +kernel
    exact ne_generatedName ((Bool.not_eq_true' _).mp (List.all_eq_true.mp hlogged d hd)) n

/-- A client has made the queue that the server would name next, or the server itself has in an earlier process: the next
    client without a name gets that queue. --/
theorem generated_name_taken :
    let s := freshServer.perform (.declareQueue (ascii "amq.gen-1") false false false false [] 1)
    let s' := (freshServer.perform (.declareQueue [] false true false false [] 1)).perform .restart
    ¬MakesNew s ∧ (s.declareQueue [] false false false false [] 2).1.toOption = some (ascii "amq.gen-1") ∧
      ¬MakesNew s' ∧ (s'.declareQueue [] false false false false [] 2).1.toOption = some (ascii "amq.gen-1") := by
  intro s s'
  have htaken : (s.queue (generatedName (s.nameCounter + 1).toNat)).isSome = true := by decide +kernel
  have htaken' : (s'.queue (generatedName (s'.nameCounter + 1).toNat)).isSome = true := by decide +kernel
  refine ⟨fun h => ?_, by decide +kernel, fun h => ?_, by decide +kernel⟩
  · rw [makesNew_iff.mp h] at htaken
    cases htaken
  · rw [makesNew_iff.mp h] at htaken'
    cases htaken'

end AmqpServer
end Broko.Broker
