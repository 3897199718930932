import Broko.Theorems.StoreRuns

/-! Ids, and replay as a refinement of the abstract store. As long as no compaction drops records, a new
    process finds all ids in the log and goes on above them, so an ack never meets a later message. -/

namespace Broko.Storage
open Amqp Broker MessageStore

/-! ### Ids -/

/-- The ids that `storeMessage` returned in a run, in order. --/
def returnedIds (h : List Entry) : List UInt64 := (h.filterMap Entry.message?).map StoredMessage.id

theorem mem_returnedIds {h : List Entry} {id : UInt64} : id ∈ returnedIds h ↔ ∃ m, .message m ∈ h ∧ m.id = id := by
  simp only [returnedIds, List.mem_map, List.mem_filterMap]
  constructor
  · rintro ⟨m, ⟨e, he, hm⟩, rfl⟩
    cases e with
    | message x =>
      obtain rfl := Option.some.inj hm
      exact ⟨_, he, rfl⟩
    | _ => cases hm
  · rintro ⟨m, hm, rfl⟩
    exact ⟨m, ⟨_, hm, rfl⟩, rfl⟩

theorem returnedIds_concat (h : List Entry) (e : Entry) :
    returnedIds (h ++ [e]) = returnedIds h ++ (e.message?.toList.map StoredMessage.id) := by
  cases e <;> simp [returnedIds, Entry.message?]

/-- Replay raises the counter above every id of the log, and to no more than that. --/
theorem foldl_raiseMsgId {log : List Entry} {start : UInt64} {bound : Nat} (hb : bound < 2 ^ 64)
    (hlt : ∀ m, .message m ∈ log → m.id.toNat < bound) (hs : start.toNat ≤ bound) :
    start.toNat ≤ (log.foldl raiseMsgId start).toNat ∧ (log.foldl raiseMsgId start).toNat ≤ bound ∧
      ∀ m, .message m ∈ log → m.id.toNat < (log.foldl raiseMsgId start).toNat := by
  induction log generalizing start with
  | nil => exact ⟨le_rfl, hs, fun m hm => by cases hm⟩
  | cons e log ih =>
    have hraise : start.toNat ≤ (raiseMsgId start e).toNat ∧ (raiseMsgId start e).toNat ≤ bound ∧
        ∀ m, e = .message m → m.id.toNat < (raiseMsgId start e).toNat := by
      cases e with
      | message m =>
        have hm := hlt m List.mem_cons_self
        have hsucc : (m.id + 1).toNat = m.id.toNat + 1 := by
          rw [UInt64.toNat_add]
          exact Nat.mod_eq_of_lt (show m.id.toNat + 1 < 2 ^ 64 by omega)
        rw [raiseMsgId]
        split
        · rename_i hle
          rw [UInt64.le_iff_toNat_le] at hle
          refine ⟨by omega, by omega, fun m' hm' => ?_⟩
          obtain rfl := Entry.message.inj hm'
          omega
        · rename_i hgt
          rw [UInt64.le_iff_toNat_le, not_le] at hgt
          refine ⟨le_rfl, hs, fun m' hm' => ?_⟩
          obtain rfl := Entry.message.inj hm'
          exact hgt
      | _ => exact ⟨le_rfl, hs, fun m hm => by cases hm⟩
    obtain ⟨hle, hge, hmem⟩ := ih (fun m hm => hlt m (List.mem_cons_of_mem _ hm)) hraise.2.1
    refine ⟨hraise.1.trans hle, hge, fun m hm => ?_⟩
    rcases List.mem_cons.mp hm with heq | hm
    · exact (hraise.2.2 m heq.symm).trans_le hle
    · exact hmem m hm

theorem wal_run {st : MessageStore} {ops : List StoreOp} (hc : .compactIfNeeded ∉ ops) :
    (st.run ops).wal = st.wal ++ writeEntries (st.history ops) := by
  induction ops using List.reverseRecOn with
  | nil => simp [run, history, writeEntries]
  | append_singleton ops op ih =>
    rw [List.mem_append, not_or, List.mem_singleton] at hc
    rw [run_concat, history_concat, writeEntries, List.flatMap_append, ← writeEntries, ← List.append_assoc,
      ← ih hc.1]
    cases h : (st.run ops).written op with
    | some e => simp [(step_appends h).wal]
    | none =>
      obtain rfl | rfl := written_eq_none h
      · exact absurd rfl hc.2
      · simp [step, restart_wal]

theorem length_le_writeEntries (h : List Entry) : h.length ≤ (writeEntries h).length := by
  induction h with
  | nil => exact Nat.zero_le _
  | cons e h ih =>
    rw [writeEntries, List.flatMap_cons, List.length_append, ← writeEntries, Entry.write, length_writeEntry,
      List.length_cons]
    omega

/-- The counter is above every id returned so far, and the ids are distinct. --/
structure FreshIds (st : MessageStore) (h : List Entry) : Prop where
  lt : ∀ m, .message m ∈ h → m.id.toNat < st.nextMsgId.toNat
  nodup : (returnedIds h).Nodup
  pos : 1 ≤ st.nextMsgId.toNat
  le : st.nextMsgId.toNat ≤ 1 + (returnedIds h).length

theorem returnedIds_length_le (h : List Entry) : (returnedIds h).length ≤ h.length := by
  rw [returnedIds, List.length_map]
  exact List.length_filterMap_le _ _

namespace FreshIds

variable {st st' : MessageStore} {h : List Entry}

theorem appends {e : Entry} (hf : FreshIds st h) (happ : Appends st st' e)
    (hlt : 1 + (returnedIds h).length < 2 ^ 64 - 1) : FreshIds st' (h ++ [e]) := by
  have hle := hf.le
  cases e with
  | message m =>
    obtain ⟨hid, hnext⟩ := happ.id m rfl
    have hsucc : st'.nextMsgId.toNat = st.nextMsgId.toNat + 1 := by
      rw [hnext, UInt64.toNat_add]
      exact Nat.mod_eq_of_lt (show st.nextMsgId.toNat + 1 < 2 ^ 64 by omega)
    refine ⟨fun m' hm' => ?_, ?_, by omega, ?_⟩
    · rw [hsucc]
      rcases List.mem_append.mp hm' with hm' | hm'
      · exact (hf.lt m' hm').trans (Nat.lt_succ_self _)
      · obtain rfl := Entry.message.inj (List.mem_singleton.mp hm')
        rw [hid]
        exact Nat.lt_succ_self _
    · rw [returnedIds_concat, List.nodup_append]
      refine ⟨hf.nodup, by simp [Entry.message?], fun a ha b hb heq => ?_⟩
      obtain rfl : b = m.id := List.mem_singleton.mp hb
      obtain ⟨m', hm', hm'id⟩ := mem_returnedIds.mp ha
      have hlt := hf.lt m' hm'
      rw [hm'id, heq, hid] at hlt
      exact lt_irrefl _ hlt
    · rw [hsucc, returnedIds_concat, List.length_append]
      simp only [Entry.message?, Option.toList_some, List.map_cons, List.map_nil, List.length_singleton]
      omega
  | _ =>
    have hnext := happ.keep rfl
    have hids := returnedIds_concat h
    refine ⟨fun m hm => ?_, ?_, hnext ▸ hf.pos, ?_⟩
    · rw [hnext]
      rcases List.mem_append.mp hm with hm | hm
      · exact hf.lt m hm
      · cases List.mem_singleton.mp hm
    · simpa [hids, Entry.message?] using hf.nodup
    · simpa [hids, hnext, Entry.message?] using hf.le

/-- A new process counts up from 1 again, over the whole log. --/
theorem restart (hf : FreshIds st h) (hlog : (parse st.wal).1 = h) : FreshIds st.restart.2 h := by
  have hone : (1 : UInt64).toNat ≤ st.nextMsgId.toNat := hf.pos
  have hraise := foldl_raiseMsgId st.nextMsgId.toNat_lt hf.lt hone
  have hnext : st.restart.2.nextMsgId = h.foldl raiseMsgId 1 := by
    rw [MessageStore.restart, recover, recoverLocked_eq, ← hlog]
  rw [← hnext] at hraise
  exact ⟨hraise.2.2, hf.nodup, hraise.1, hraise.2.1.trans hf.le⟩

end FreshIds

theorem freshIds_run {ops : List StoreOp} (hc : .compactIfNeeded ∉ ops) (h : Admissible {} ops)
    (hlen : (run {} ops).wal.length < 2 ^ 63) : FreshIds (run {} ops) (history {} ops) := by
  induction ops using List.reverseRecOn with
  | nil => exact ⟨fun m hm => (by cases hm), List.nodup_nil, le_rfl, le_rfl⟩
  | append_singleton ops op ih =>
    have hc' : .compactIfNeeded ∉ ops := fun hmem => hc (List.mem_append_left _ hmem)
    have hwal : (run {} ops).wal = writeEntries (history {} ops) := wal_run hc'
    have hshort : (run {} ops).wal.length < 2 ^ 63 := by
      rw [wal_run hc, history_concat, writeEntries, List.flatMap_append, ← writeEntries, List.nil_append,
        List.length_append, ← hwal] at hlen
      omega
    have hops := ih hc' h.left hshort
    rw [run_concat, history_concat]
    cases hwritten : (run {} ops).written op with
    | none =>
      obtain rfl | rfl := written_eq_none hwritten
      · exact absurd (List.mem_append_right _ List.mem_cons_self) hc
      · rw [Option.toList_none, List.append_nil]
        exact hops.restart (by rw [hwal, parse_writeEntries_nil fun e he => h.left.storable he])
    | some e =>
      have hcount := (returnedIds_length_le (history {} ops)).trans (length_le_writeEntries _)
      rw [← hwal] at hcount
      exact hops.appends (step_appends hwritten) (by omega)

/-- Every ack of the history names an id that `storeMessage` returned before it. --/
def AcksReturned (h : List Entry) : Prop :=
  ∀ pre id queue post, h = pre ++ .ack id queue :: post → id ∈ returnedIds pre

theorem AcksReturned.mem {h : List Entry} {id : UInt64} {queue : Bytes} (hacks : AcksReturned h)
    (hmem : .ack id queue ∈ h) : id ∈ returnedIds h := by
  obtain ⟨pre, post, rfl⟩ := List.append_of_mem hmem
  have hpre := hacks pre id queue post rfl
  rw [mem_returnedIds] at hpre ⊢
  obtain ⟨m, hm, hid⟩ := hpre
  exact ⟨m, List.mem_append_left _ hm, hid⟩

/-- An ack of an id that is still to come would be in the log before its message: there is none. --/
theorem contents_run {ops : List StoreOp} (hc : .compactIfNeeded ∉ ops) (h : Admissible {} ops)
    (hacks : AcksReturned (history {} ops)) (hlen : (run {} ops).wal.length < 2 ^ 63) :
    (run {} ops).recover.1.contents = Contents.ofHistory (history {} ops) := by
  refine run_empty_contents ?_ fun e he => h.storable he
  rintro pre op post rfl e hwritten
  have hc' : .compactIfNeeded ∉ pre := fun hmem => hc (List.mem_append_left _ hmem)
  have hwal : (run {} pre).wal = writeEntries (history {} pre) := wal_run hc'
  refine ⟨whole_run whole_empty fun e he => h.left.storable he, fresh_iff.mpr ?_⟩
  rintro m rfl x hx
  rw [hwal, parse_writeEntries_nil fun e he => h.left.storable he] at hx
  -- An ack in the log names an id that is already below the counter.
  cases x with
  | ack id queue =>
    have hle : (run {} pre).wal.length ≤ (run {} (pre ++ op :: post)).wal.length := by
      rw [hwal, wal_run hc, history_append, writeEntries, writeEntries, List.flatMap_append, List.nil_append,
        List.length_append]
      omega
    have hids := freshIds_run hc' h.left (hle.trans_lt hlen)
    have hknown : AcksReturned (history {} pre) := fun p i q r heq => by
      rw [history_append] at hacks
      exact hacks p i q (r ++ _) (by rw [heq, List.append_assoc]; rfl)
    obtain ⟨m', hm', hid⟩ := mem_returnedIds.mp (hknown.mem hx)
    have hlt := hids.lt m' hm'
    rw [← ((step_appends hwritten).id m rfl).1, hid] at hlt
    have hne : m.id ≠ id := fun heq => lt_irrefl _ (heq ▸ hlt)
    simp [Entry.acks, hne]
  | _ => rfl

/-- Replay refines the abstract store. Without compaction, the bytes written are replayed as exactly what
    the history of calls leaves, and no id is returned twice. A file has less than 2 ^ 63 bytes. --/
theorem recover_run {ops : List StoreOp} (hc : .compactIfNeeded ∉ ops) (h : Admissible {} ops)
    (hacks : AcksReturned (history {} ops)) (hlen : (run {} ops).wal.length < 2 ^ 63) :
    (run {} ops).recover.1.contents = Contents.ofHistory (history {} ops) ∧
      (returnedIds (history {} ops)).Nodup :=
  ⟨contents_run hc h hacks hlen, (freshIds_run hc h hlen).nodup⟩

theorem recover_run_ackedRun :
    (run {} ackedRun).recover.1.contents = Contents.ofHistory (history {} ackedRun) ∧
      (returnedIds (history {} ackedRun)).Nodup := by
  refine recover_run (by simp [ackedRun]) admissible_ackedRun ?_ (by decide +kernel)
  rw [history_ackedRun]
  intro pre id queue post heq
  rcases pre with _ | ⟨e₁, _ | ⟨e₂, _ | ⟨e₃, pre⟩⟩⟩ <;>
    simp only [List.nil_append, List.cons_append, List.cons.injEq, reduceCtorEq, false_and, and_false,
      List.nil_eq, List.append_eq_nil_iff] at heq
  obtain ⟨rfl, hack, -⟩ := heq
  obtain ⟨rfl, rfl⟩ := Entry.ack.inj hack
  exact List.mem_cons_self

end Broko.Storage
