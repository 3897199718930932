import Broko.Storage.Run
import Broko.Theorems.Compaction

/-! Runs of the store against the abstract store. A call on a file that ends on an entry boundary appends
    one entry, and takes effect as the abstract call does unless it stores a message under an id for which
    the log already holds an ack. A compaction and a restart change nothing that is recovered. -/

namespace Broko.Storage
open Amqp Broker MessageStore

/-! ### Steps -/

/-- `e` is appended; a message takes the next id. --/
structure Appends (st st' : MessageStore) (e : Entry) : Prop where
  wal : st'.wal = st.wal ++ e.write
  id : ∀ m, e = .message m → m.id = st.nextMsgId ∧ st'.nextMsgId = st.nextMsgId + 1
  keep : e.message? = none → st'.nextMsgId = st.nextMsgId

theorem step_appends {st : MessageStore} {op : StoreOp} {e : Entry} (h : st.written op = some e) :
    Appends st (st.step op) e := by
  cases op with
  | storeMessage queueName msg =>
    obtain rfl := Option.some.inj h
    refine ⟨rfl, fun m hm => ?_, fun hm => ?_⟩
    · obtain rfl := Entry.message.inj hm
      exact ⟨rfl, rfl⟩
    · cases hm
  | compactIfNeeded => cases h
  | restart => cases h
  | _ =>
    obtain rfl := Option.some.inj h
    exact ⟨rfl, fun _ hm => (by cases hm), fun _ => rfl⟩

theorem written_eq_none {st : MessageStore} {op : StoreOp} (h : st.written op = none) :
    op = .compactIfNeeded ∨ op = .restart := by
  cases op <;> first | exact .inl rfl | exact .inr rfl | cases h

theorem run_concat (st : MessageStore) (ops : List StoreOp) (op : StoreOp) :
    st.run (ops ++ [op]) = (st.run ops).step op := by
  rw [run, List.foldl_append, List.foldl_cons, List.foldl_nil, ← run]

theorem history_append (st : MessageStore) (ops₁ ops₂ : List StoreOp) :
    st.history (ops₁ ++ ops₂) = st.history ops₁ ++ (st.run ops₁).history ops₂ := by
  induction ops₁ generalizing st with
  | nil => rfl
  | cons op ops ih =>
    rw [List.cons_append, history, history, ih, List.append_assoc]
    rfl

theorem history_concat (st : MessageStore) (ops : List StoreOp) (op : StoreOp) :
    st.history (ops ++ [op]) = st.history ops ++ ((st.run ops).written op).toList := by
  rw [history_append, history, history, List.append_nil]

/-! ### What a step does to the recovered state -/

/-- Replay stops at the end of the file, and not at bytes that it does not accept as an entry. --/
def Whole (st : MessageStore) : Prop := st.replay.2.2 = []

theorem whole_iff {st : MessageStore} : Whole st ↔ (parse st.wal).2 = [] := by
  rw [Whole, replay, recoverLoop_eq, ← parse]

/-- The log does not already hold an ack of the queue and id of the message that the call stores. --/
def Fresh (st : MessageStore) (e : Entry) : Prop :=
  ∀ m, e = .message m → ∀ p ∈ st.recover.1.ackedMessages, ¬(m.queue_name = p.1 ∧ m.id ∈ p.2)

theorem fresh_iff {st : MessageStore} {e : Entry} :
    Fresh st e ↔ ∀ m, e = .message m → ∀ x ∈ (parse st.wal).1, x.acks m = false := by
  refine forall₂_congr fun m _ => ?_
  rw [recover, recoverLocked_eq]
  constructor
  · intro h x hx
    by_contra hacks
    obtain ⟨p, hp, hq⟩ := mem_ackedMessages.mpr ⟨x, hx, Bool.not_eq_false _ ▸ hacks⟩
    exact h p hp hq
  · intro h p hp hq
    obtain ⟨x, hx, hacks⟩ := mem_ackedMessages.mp ⟨p, hp, hq⟩
    rw [h x hx] at hacks
    cases hacks

theorem parse_appends {st st' : MessageStore} {e : Entry} (h : Appends st st' e) (hw : Whole st) (he : e.Storable) :
    parse st'.wal = ((parse st.wal).1 ++ [e], []) := by
  have hone := parse_write he []
  rw [List.append_nil, parse_nil] at hone
  rw [h.wal, parse_append (whole_iff.mp hw), hone]

theorem whole_compactIfNeeded (st : MessageStore) : Whole st.compactIfNeeded := by
  rw [whole_iff, parse_compactIfNeeded]

theorem restart_wal (st : MessageStore) : st.restart.2.wal = st.wal := rfl

theorem whole_restart {st : MessageStore} (h : Whole st) : Whole st.restart.2 := by
  rwa [whole_iff, restart_wal, ← whole_iff]

theorem restart_contents (st : MessageStore) : st.restart.2.recover.1.contents = st.recover.1.contents := by
  rw [recover_contents, recover_contents, restart_wal]

theorem appends_contents {st st' : MessageStore} {e : Entry} (h : Appends st st' e) (hw : Whole st)
    (he : e.Storable) (hf : Fresh st e) : st'.recover.1.contents = st.recover.1.contents.apply e := by
  rw [recover_contents, recover_contents, parse_appends h hw he, recovered_concat (fresh_iff.mp hf)]

/-- The call is made on a whole file, and does not store a message whose id an ack in the log names. --/
def Sound (st : MessageStore) (op : StoreOp) : Prop := ∀ e, st.written op = some e → Whole st ∧ Fresh st e

theorem step_contents {st : MessageStore} {op : StoreOp} (hs : Sound st op)
    (he : ∀ e, st.written op = some e → e.Storable) :
    (st.step op).recover.1.contents = (st.written op).toList.foldl Contents.apply st.recover.1.contents := by
  cases h : st.written op with
  | some e =>
    obtain ⟨hw, hf⟩ := hs e h
    exact appends_contents (step_appends h) hw (he e h) hf
  | none =>
    obtain rfl | rfl := written_eq_none h
    · exact compactIfNeeded_contents st
    · exact restart_contents st

/-- Every call of the run is sound in the state it is made in. --/
def SoundRun (st : MessageStore) (ops : List StoreOp) : Prop :=
  ∀ pre op post, ops = pre ++ op :: post → Sound (st.run pre) op

theorem run_contents {st : MessageStore} {ops : List StoreOp} (hs : SoundRun st ops)
    (he : ∀ e ∈ st.history ops, e.Storable) :
    (st.run ops).recover.1.contents = (st.history ops).foldl Contents.apply st.recover.1.contents := by
  induction ops using List.reverseRecOn with
  | nil => rfl
  | append_singleton ops op ih =>
    rw [history_concat] at he ⊢
    have hops := ih
      (fun pre x post heq => hs pre x (post ++ [op]) (by rw [heq, List.append_assoc, List.cons_append]))
      (fun e hmem => he e (List.mem_append_left _ hmem))
    rw [run_concat, step_contents (hs ops op [] rfl) fun e h => he e (List.mem_append_right _ (by simp [h])),
      List.foldl_append, hops]

/-! ### Runs from an empty file -/

theorem whole_step {st : MessageStore} {op : StoreOp} (hw : Whole st)
    (he : ∀ e, st.written op = some e → e.Storable) : Whole (st.step op) := by
  cases h : st.written op with
  | some e => rw [whole_iff, parse_appends (step_appends h) hw (he e h)]
  | none =>
    obtain rfl | rfl := written_eq_none h
    · exact whole_compactIfNeeded st
    · exact whole_restart hw

theorem whole_run {st : MessageStore} {ops : List StoreOp} (hw : Whole st)
    (he : ∀ e ∈ st.history ops, e.Storable) : Whole (st.run ops) := by
  induction ops using List.reverseRecOn with
  | nil => exact hw
  | append_singleton ops op ih =>
    rw [history_concat] at he
    rw [run_concat]
    exact whole_step (ih fun e hmem => he e (List.mem_append_left _ hmem))
      fun e h => he e (List.mem_append_right _ (by simp [h]))

theorem whole_empty : Whole {} := rfl

theorem foldl_apply_eq_ofHistory (h : List Entry) : h.foldl Contents.apply {} = Contents.ofHistory h := by
  induction h using List.reverseRecOn with
  | nil => rfl
  | append_singleton h e ih => rw [List.foldl_append, ih, Contents.ofHistory_concat, List.foldl_cons, List.foldl_nil]

/-- What is recovered after a sound run from an empty file. --/
theorem run_empty_contents {ops : List StoreOp} (hs : SoundRun {} ops)
    (he : ∀ e ∈ history {} ops, e.Storable) :
    (run {} ops).recover.1.contents = Contents.ofHistory (history {} ops) := by
  rw [run_contents hs he, ← foldl_apply_eq_ofHistory]
  rfl

/-- The entries of a run are within the size limit, and its messages have properties that the wire
    decoder can return. --/
structure Admissible (st : MessageStore) (ops : List StoreOp) : Prop where
  properties : ∀ queueName msg, .storeMessage queueName msg ∈ ops → msg.properties.WellFormed
  fits : ∀ e ∈ st.history ops, e.Fits

theorem wellFormed_of_history {st : MessageStore} {ops : List StoreOp} {e : Entry}
    (h : ∀ queueName msg, .storeMessage queueName msg ∈ ops → msg.properties.WellFormed)
    (he : e ∈ st.history ops) : e.WellFormed := by
  induction ops generalizing st with
  | nil => cases he
  | cons op ops ih =>
    rw [history, List.mem_append, Option.mem_toList] at he
    rcases he with he | he
    · cases op with
      | storeMessage queueName msg =>
        obtain rfl := Option.some.inj he
        exact h queueName msg List.mem_cons_self
      | compactIfNeeded => cases he
      | restart => cases he
      | _ =>
        obtain rfl := Option.some.inj he
        trivial
    · exact ih (fun queueName msg hmem => h queueName msg (List.mem_cons_of_mem _ hmem)) he

theorem Admissible.storable {st : MessageStore} {ops : List StoreOp} (h : Admissible st ops) {e : Entry}
    (he : e ∈ st.history ops) : e.Storable :=
  ⟨wellFormed_of_history h.properties he, h.fits e he⟩

theorem Admissible.left {st : MessageStore} {pre post : List StoreOp} (h : Admissible st (pre ++ post)) :
    Admissible st pre where
  properties queueName msg hmem := h.properties queueName msg (List.mem_append_left _ hmem)
  fits e he := h.fits e (by rw [history_append]; exact List.mem_append_left _ he)

/-- In every state of a run from an empty file, every message that was stored and neither acked nor
    dropped with its queue afterwards is recovered, exactly if no message is stored while the log holds an
    ack of its queue and of the id it is given. --/
theorem stored_messages_recovered_iff {ops : List StoreOp} (h : Admissible {} ops) :
    (∀ pre post, ops = pre ++ post →
        ∀ m ∈ (Contents.ofHistory (history {} pre)).messages, m ∈ (run {} pre).recover.1.messages) ↔
      ∀ pre queueName msg post, ops = pre ++ .storeMessage queueName msg :: post →
        ∀ p ∈ (run {} pre).recover.1.ackedMessages, ¬(queueName = p.1 ∧ (run {} pre).nextMsgId ∈ p.2) := by
  have hstorable : ∀ pre post, ops = pre ++ post → ∀ e ∈ history {} pre, e.Storable := by
    rintro pre post rfl e hmem
    exact h.left.storable hmem
  constructor
  · -- The message stored last is not acked and its queue not deleted; the ack in the log cancels it.
    intro hall pre queueName msg post hops p hp hacked
    have hops' : ops = (pre ++ [.storeMessage queueName msg]) ++ post := by rw [hops, List.append_assoc]; rfl
    have hwritten : written (run {} pre) (.storeMessage queueName msg) = some _ := rfl
    have happ := step_appends hwritten
    have hpre := hstorable pre _ hops
    have hlast := hstorable _ _ hops'
    rw [history_concat] at hlast
    have hparse := parse_appends happ (whole_run whole_empty hpre)
      (hlast _ (List.mem_append_right _ (by rw [written]; exact List.mem_cons_self)))
    have hmem := hall _ post hops' (recordOf (run {} pre).nextMsgId queueName msg) (by
      rw [history_concat, written, Option.toList_some, Contents.ofHistory_concat]
      exact List.mem_append_right _ List.mem_cons_self)
    rw [recover, recoverLocked_eq] at hp
    obtain ⟨x, hx, hxacks⟩ :=
      (mem_ackedMessages (m := recordOf (run {} pre).nextMsgId queueName msg)).mp ⟨p, hp, hacked⟩
    rw [recover, recoverLocked_eq, run_concat, hparse] at hmem
    exact not_mem_recovered (List.mem_append_left _ hx) hxacks hmem
  · intro hfresh pre post hops m hm
    have hsound : SoundRun {} pre := by
      rintro pre' op post' rfl e hwritten
      refine ⟨whole_run whole_empty (hstorable pre' (op :: post' ++ post) (by rw [hops, List.append_assoc])), ?_⟩
      rintro m rfl p hp
      cases op with
      | storeMessage queueName msg =>
        obtain rfl := Entry.message.inj (Option.some.inj hwritten)
        exact hfresh pre' queueName msg (post' ++ post) (by rw [hops, List.append_assoc]; rfl) p hp
      | _ => cases hwritten
    have hcontents := congrArg Contents.messages (run_empty_contents hsound (hstorable pre post hops))
    rw [← hcontents] at hm
    exact hm

/-- A message is stored, its queue is deleted and the log compacted, which drops the record; the ack comes
    late; and a new process, which finds no message in the log, gives the first id again. --/
def lateAckRun : List StoreOp :=
  [.storeMessage (ascii "q") {}, .storeQueueDelete (ascii "q"), .compactIfNeeded, .storeAck (ascii "q") 1, .restart,
    .storeMessage (ascii "q") { body := [7] }]

theorem history_lateAckRun : history {} lateAckRun =
    [.message (recordOf 1 (ascii "q") {}), .queueDelete (ascii "q"), .ack 1 (ascii "q"),
      .message (recordOf 1 (ascii "q") { body := [7] })] := by
  have hnext : (run {} (lateAckRun.take 5)).nextMsgId = 1 := by decide +kernel
  have hsplit : lateAckRun = lateAckRun.take 5 ++ [.storeMessage (ascii "q") { body := [7] }] := rfl
  rw [hsplit, history_concat]
  simp only [written, storeMessage, hnext]
  rfl

theorem admissible_lateAckRun : Admissible {} lateAckRun := by
  refine ⟨fun queueName msg hmem => ?_, by rw [history_lateAckRun]; decide +kernel⟩
  have hmsg : msg.properties = {} := by
    simp only [lateAckRun, List.mem_cons, StoreOp.storeMessage.injEq, reduceCtorEq, false_or, or_false,
      List.not_mem_nil] at hmem
    obtain ⟨-, rfl⟩ | ⟨-, rfl⟩ := hmem <;> rfl
  rw [hmsg]
  exact BasicProperties.wellFormed_empty

/-- The ack of the first message, which `storeMessage` had returned for that queue, cancels the second. --/
theorem late_ack_cancels_message :
    Admissible {} lateAckRun ∧
    (∀ pre id queue post, history {} lateAckRun = pre ++ .ack id queue :: post →
      ∃ m, .message m ∈ pre ∧ m.queue_name = queue ∧ m.id = id) ∧
    ∃ m ∈ (Contents.ofHistory (history {} lateAckRun)).messages, m ∉ (run {} lateAckRun).recover.1.messages := by
  refine ⟨admissible_lateAckRun, ?_, recordOf 1 (ascii "q") { body := [7] }, ?_, ?_⟩
  · rw [history_lateAckRun]
    intro pre id queue post heq
    rcases pre with _ | ⟨e₁, _ | ⟨e₂, _ | ⟨e₃, _ | ⟨e₄, pre⟩⟩⟩⟩ <;>
      simp only [List.nil_append, List.cons_append, List.cons.injEq, reduceCtorEq, false_and, and_false,
        List.nil_eq, List.append_eq_nil_iff] at heq
    obtain ⟨rfl, -, hack, -⟩ := heq
    obtain ⟨rfl, rfl⟩ := Entry.ack.inj hack
    exact ⟨_, List.mem_cons_self, rfl, rfl⟩
  · rw [history_lateAckRun]
    exact List.mem_cons_self
  · have hnone : (run {} lateAckRun).recover.1.messages.length = 0 := by decide +kernel
    rw [List.eq_nil_of_length_eq_zero hnone]
    exact List.not_mem_nil

/-- The same calls on a log that still holds the message when the new process reads it. --/
def ackedRun : List StoreOp :=
  [.storeMessage (ascii "q") {}, .storeAck (ascii "q") 1, .restart, .storeMessage (ascii "q") { body := [7] }]

theorem history_ackedRun : history {} ackedRun =
    [.message (recordOf 1 (ascii "q") {}), .ack 1 (ascii "q"),
      .message (recordOf 2 (ascii "q") { body := [7] })] := by
  have hnext : (run {} (ackedRun.take 3)).nextMsgId = 2 := by decide +kernel
  have hsplit : ackedRun = ackedRun.take 3 ++ [.storeMessage (ascii "q") { body := [7] }] := rfl
  rw [hsplit, history_concat]
  simp only [written, storeMessage, hnext]
  rfl

theorem admissible_ackedRun : Admissible {} ackedRun := by
  refine ⟨fun queueName msg hmem => ?_, by rw [history_ackedRun]; decide +kernel⟩
  have hmsg : msg.properties = {} := by
    simp only [ackedRun, List.mem_cons, StoreOp.storeMessage.injEq, reduceCtorEq, false_or, or_false,
      List.not_mem_nil] at hmem
    obtain ⟨-, rfl⟩ | ⟨-, rfl⟩ := hmem <;> rfl
  rw [hmsg]
  exact BasicProperties.wellFormed_empty

theorem stored_messages_recovered_ackedRun :
    Admissible {} ackedRun ∧ ∀ pre post, ackedRun = pre ++ post →
      ∀ m ∈ (Contents.ofHistory (history {} pre)).messages, m ∈ (run {} pre).recover.1.messages := by
  refine ⟨admissible_ackedRun, (stored_messages_recovered_iff admissible_ackedRun).mpr ?_⟩
  intro pre queueName msg post heq
  rcases pre with _ | ⟨e₁, _ | ⟨e₂, _ | ⟨e₃, _ | ⟨e₄, pre⟩⟩⟩⟩ <;>
    simp only [ackedRun, List.nil_append, List.cons_append, List.cons.injEq, reduceCtorEq, false_and, and_false,
      List.nil_eq, List.append_eq_nil_iff] at heq
  · intro p hp
    cases hp
  · obtain ⟨rfl, rfl, rfl, -, -⟩ := heq
    have hacked : ∀ p ∈ (run {} (ackedRun.take 3)).recover.1.ackedMessages,
        (run {} (ackedRun.take 3)).nextMsgId ∉ p.2 := by decide +kernel
    exact fun p hp hq => hacked p hp hq.2

end Broko.Storage
