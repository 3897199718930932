import Broko.Theorems.StoreRuns

/-! A crash in the middle of `writeEntry`. Replay of the cut file gives the entries that stand whole before
    the cut. `open` appends after the torn bytes, so a call made before the next compaction is out of
    replay's reach; once the file ends on an entry boundary, calls take effect again. -/

namespace Broko.Storage
open Amqp Broker MessageStore

/-! ### The cut file -/

/-- The entries of a log that stand whole in its first `k` bytes. --/
def wholeEntries : List Entry → Nat → List Entry
  | [], _ => []
  | e :: es, k => if e.write.length ≤ k then e :: wholeEntries es (k - e.write.length) else []

theorem take_four_writeEntry (t : UInt8) (p rest : Bytes) :
    (writeEntry t p ++ rest).take 4 = writeUint32 (1 + UInt32.ofNat p.length + 4) := by
  rw [writeEntry, List.append_assoc, List.take_left' (length_writeUint32 _)]

/-- An entry that the cut tore is not accepted: the size field promises more bytes than are there. --/
theorem nextRecord_take {t : UInt8} {p : Bytes} {k : Nat} (hf : 1 + p.length + 4 ≤ MAX_ENTRY_SIZE)
    (hk : k < (writeEntry t p).length) : nextRecord ((writeEntry t p).take k) = none := by
  cases hrec : nextRecord ((writeEntry t p).take k) with
  | none => rfl
  | some r =>
    obtain ⟨t', p', rest⟩ := r
    obtain ⟨hfile, hfit⟩ := nextRecord_eq_some hrec
    have hlen := congrArg List.length hfile
    rw [List.length_take, List.length_append, length_writeEntry, length_writeEntry] at hlen
    have hsize : writeUint32 (1 + UInt32.ofNat p'.length + 4) = writeUint32 (1 + UInt32.ofNat p.length + 4) := by
      have hhead : ((writeEntry t p).take k).take 4 = (writeEntry t p).take 4 := by
        rw [List.take_take, Nat.min_eq_left (by omega)]
      rw [hfile, take_four_writeEntry] at hhead
      rw [hhead, ← List.append_nil (writeEntry t p), take_four_writeEntry]
    have heq := congrArg BigEndian.decode hsize
    rw [decode_writeUint32, decode_writeUint32, totalSize_toNat (lt_of_le_maxEntrySize hfit),
      totalSize_toNat (lt_of_le_maxEntrySize hf)] at heq
    rw [length_writeEntry] at hk
    omega

theorem parse_cut {es : List Entry} (h : ∀ e ∈ es, e.Storable) (k : Nat) :
    (parse ((writeEntries es).take k)).1 = wholeEntries es k := by
  induction es generalizing k with
  | nil => simp [writeEntries, wholeEntries]
  | cons e es ih =>
    have he := h e List.mem_cons_self
    have hes := ih (fun x hx => h x (List.mem_cons_of_mem _ hx)) (k - e.write.length)
    rw [writeEntries, List.flatMap_cons, ← writeEntries, List.take_append, wholeEntries]
    split
    · rename_i hle
      rw [List.take_of_length_le hle, parse_write he, hes]
    · rename_i hgt
      rw [not_le] at hgt
      have htorn : nextRecord (e.write.take k) = none := nextRecord_take he.fits hgt
      rw [Nat.sub_eq_zero_of_le hgt.le, List.take_zero, List.append_nil, parse_of_none htorn]

theorem wholeEntries_storable {es : List Entry} (h : ∀ e ∈ es, e.Storable) (k : Nat) :
    ∀ e ∈ wholeEntries es k, e.Storable := by
  rw [← parse_cut h k]
  exact fun e he => storable_of_parse he

/-- The process that is started on the cut file. --/
def afterCrash (es : List Entry) (k : Nat) : MessageStore :=
  ({ wal := (writeEntries es).take k } : MessageStore).restart.2

theorem afterCrash_contents {es : List Entry} (h : ∀ e ∈ es, e.Storable) (k : Nat) :
    (afterCrash es k).recover.1.contents =
      ({ wal := writeEntries (wholeEntries es k) } : MessageStore).recover.1.contents := by
  rw [afterCrash, restart_contents, recover_contents, recover_contents, parse_cut h,
    parse_writeEntries_nil (wholeEntries_storable h k)]

/-- The cut falls between two entries. --/
def OnBoundary (es : List Entry) (k : Nat) : Prop := (writeEntries es).take k = writeEntries (wholeEntries es k)

theorem whole_afterCrash {es : List Entry} {k : Nat} (h : ∀ e ∈ es, e.Storable) (hk : OnBoundary es k) :
    Whole (afterCrash es k) := by
  rw [whole_iff, afterCrash, restart_wal]
  rw [OnBoundary] at hk
  rw [hk, parse_writeEntries_nil (wholeEntries_storable h k)]

/-! ### Bytes after the last whole entry -/

/-- The first entry read of these bytes fails: the size field is cut or out of bounds, there are fewer bytes than
    it announces, or the checksum does not match. --/
def FirstReadFails (file : Bytes) : Prop :=
  let totalSize := BigEndian.decode (file.take 4)
  file.length < 4 ∨ (totalSize < 5 ∨ MAX_ENTRY_SIZE < totalSize) ∨ file.length < 4 + totalSize ∨
    BigEndian.decode ((file.drop totalSize).take 4) ≠ (crc32 ((file.drop 5).take (totalSize - 5))).toNat

theorem nextRecord_eq_none_iff {file : Bytes} : nextRecord file = none ↔ FirstReadFails file := by
  rw [nextRecord, FirstReadFails]
  by_cases hfour : file.length < 4
  · exact iff_of_true (if_pos hfour) (.inl hfour)
  rw [if_neg hfour, or_iff_right hfour]
  dsimp only
  by_cases hsize : BigEndian.decode (file.take 4) < 5 ∨ MAX_ENTRY_SIZE < BigEndian.decode (file.take 4)
  · exact iff_of_true (if_pos hsize) (.inl hsize)
  rw [if_neg hsize, or_iff_right hsize]
  generalize BigEndian.decode (file.take 4) = totalSize at *
  by_cases hlen : file.length < 4 + totalSize
  · refine iff_of_true (if_pos ?_) (.inl hlen)
    rw [List.length_take, List.length_drop]
    omega
  have hentry : ((file.drop 4).take totalSize).length = totalSize := by
    rw [List.length_take, List.length_drop]
    omega
  rw [if_neg (fun h => h hentry), or_iff_right hlen]
  have hpayload : (((file.drop 4).take totalSize).drop 1).take (totalSize - 5) = (file.drop 5).take (totalSize - 5) := by
    rw [List.drop_take, List.drop_drop, List.take_take, Nat.min_eq_left (by omega)]
  have hcrc : ((file.drop 4).take totalSize).drop (totalSize - 4) = (file.drop totalSize).take 4 := by
    rw [List.drop_take, List.drop_drop]
    congr 1
    · omega
    · congr 1
      omega
  rw [hpayload, hcrc]
  constructor
  · intro h heq
    rw [if_neg (fun hne => hne heq)] at h
    cases h
  · exact fun h => if_pos h

/-- Every entry of the file passes the checks on size, length and checksum. --/
inductive WholeRecords : Bytes → Prop
  | nil : WholeRecords []
  | cons {file p rest : Bytes} {t : UInt8} (head : nextRecord file = some (t, p, rest)) (tail : WholeRecords rest) :
    WholeRecords file

theorem nextRecord_append {file p rest : Bytes} {t : UInt8} (h : nextRecord file = some (t, p, rest)) (tail : Bytes) :
    nextRecord (file ++ tail) = some (t, p, rest ++ tail) := by
  obtain ⟨rfl, hfit⟩ := nextRecord_eq_some h
  rw [List.append_assoc, nextRecord_writeEntry hfit]

/-- What the loop has recovered when it gets to the bytes that fail is what it recovers without them. --/
theorem recoverLoop_append {file torn : Bytes} (hfile : WholeRecords file) (htorn : nextRecord torn = none)
    {fuel fuel' : Nat} (hfuel : file.length < fuel) (hfuel' : file.length < fuel') (data : RecoveryData)
    (next : UInt64) :
    (recoverLoop fuel (file ++ torn) data next).1 = (recoverLoop fuel' file data next).1 ∧
      (recoverLoop fuel (file ++ torn) data next).2.1 = (recoverLoop fuel' file data next).2.1 := by
  induction hfile generalizing fuel fuel' data next with
  | nil =>
    obtain ⟨n, rfl⟩ := Nat.exists_eq_succ_of_ne_zero (Nat.ne_of_gt hfuel)
    obtain ⟨n', rfl⟩ := Nat.exists_eq_succ_of_ne_zero (Nat.ne_of_gt hfuel')
    rw [List.nil_append, recoverLoop, htorn, recoverLoop]
    exact ⟨rfl, rfl⟩
  | @cons file p rest t head tail ih =>
    obtain ⟨n, rfl⟩ := Nat.exists_eq_succ_of_ne_zero (Nat.ne_zero_of_lt hfuel)
    obtain ⟨n', rfl⟩ := Nat.exists_eq_succ_of_ne_zero (Nat.ne_zero_of_lt hfuel')
    have hlen := nextRecord_length head
    have hrest := fun data next => @ih n n' (by omega) (by omega) data next
    rw [recoverLoop, nextRecord_append head, recoverLoop, head]
    dsimp only
    cases hread : readEntry t (Buffer.ofBytes p) with
    | error err => exact ⟨rfl, rfl⟩
    | ok r =>
      obtain ⟨o, b⟩ := r
      cases o with
      | none => exact hrest data next
      | some e => exact hrest (data.apply e) (raiseMsgId next e)

/-- The loop ends before its fuel does. --/
theorem recoverLoop_fuel {fuel fuel' : Nat} {file : Bytes} (h : file.length < fuel) (h' : file.length < fuel')
    (data : RecoveryData) (next : UInt64) : recoverLoop fuel file data next = recoverLoop fuel' file data next := by
  rw [recoverLoop_eq, recoverLoop_eq, parseLoop_fuel h h']

/-- Bytes that fail the first read, such as a strict prefix of an entry, change nothing of what is recovered from
    the whole entries before them; the loop ends at them. --/
theorem recover_append_torn {log : Bytes} (hlog : WholeRecords log) (next : UInt64) :
    (∀ torn, FirstReadFails torn →
      (∀ fuel, (log ++ torn).length < fuel →
        recoverLoop fuel (log ++ torn) {} next = ({ wal := log ++ torn, nextMsgId := next } : MessageStore).replay) ∧
      ({ wal := log ++ torn, nextMsgId := next } : MessageStore).recover.1 =
        ({ wal := log, nextMsgId := next } : MessageStore).recover.1 ∧
      ({ wal := log ++ torn, nextMsgId := next } : MessageStore).recover.2.nextMsgId =
        ({ wal := log, nextMsgId := next } : MessageStore).recover.2.nextMsgId) ∧
    ∀ t p k, 1 + p.length + 4 ≤ MAX_ENTRY_SIZE → k < (writeEntry t p).length →
      FirstReadFails ((writeEntry t p).take k) := by
  refine ⟨fun torn htorn => ?_, fun t p k hfit hk => nextRecord_eq_none_iff.mp (nextRecord_take hfit hk)⟩
  have hlen : log.length < (log ++ torn).length + 1 := by
    rw [List.length_append]
    omega
  obtain ⟨hdata, hnext⟩ := recoverLoop_append hlog (nextRecord_eq_none_iff.mpr htorn) hlen (Nat.lt_succ_self _) {} next
  refine ⟨fun fuel hfuel => recoverLoop_fuel hfuel (Nat.lt_succ_self _) _ _, ?_, hnext⟩
  exact congrArg RecoveryData.applyAcks hdata

/-! ### Runs after the crash -/

theorem whole_run_compacted {st : MessageStore} {ops : List StoreOp} (h : Admissible st ops)
    (hc : .compactIfNeeded ∈ ops) : Whole (st.run ops) := by
  obtain ⟨pre, post, rfl⟩ := List.append_of_mem hc
  have hsplit : pre ++ StoreOp.compactIfNeeded :: post = (pre ++ [.compactIfNeeded]) ++ post := by simp
  rw [hsplit, run, List.foldl_append, ← run, ← run, run_concat]
  refine whole_run (whole_compactIfNeeded _) fun e he => h.storable ?_
  rw [hsplit, history_append, run_concat]
  exact List.mem_append_right _ he

/-- After a crash at any byte, a restart and a run in which each call of a `store` function comes when the
    cut was on a boundary or a compaction has run, and no message is stored while the log holds an ack of
    its queue and id, what is recovered is what the whole entries before the cut and then the calls of the
    run describe. --/
theorem recover_after_crash {es : List Entry} {k : Nat} {ops : List StoreOp} (hes : ∀ e ∈ es, e.Storable)
    (h : Admissible (afterCrash es k) ops)
    (hcut : ∀ pre op post, ops = pre ++ op :: post → op ≠ .compactIfNeeded → op ≠ .restart →
      OnBoundary es k ∨ .compactIfNeeded ∈ pre)
    (hfresh : ∀ pre queueName msg post, ops = pre ++ .storeMessage queueName msg :: post →
      ∀ p ∈ ((afterCrash es k).run pre).recover.1.ackedMessages,
        ¬(queueName = p.1 ∧ ((afterCrash es k).run pre).nextMsgId ∈ p.2)) :
    ((afterCrash es k).run ops).recover.1.contents =
      ((afterCrash es k).history ops).foldl Contents.apply
        ({ wal := writeEntries (wholeEntries es k) } : MessageStore).recover.1.contents := by
  have hsound : SoundRun (afterCrash es k) ops := by
    rintro pre op post rfl e hwritten
    constructor
    · rcases hcut pre op post rfl (by rintro rfl; cases hwritten) (by rintro rfl; cases hwritten) with hk | hc
      · exact whole_run (whole_afterCrash hes hk) fun x hx => h.left.storable hx
      · exact whole_run_compacted h.left hc
    · rintro m rfl p hp
      cases op with
      | storeMessage queueName msg =>
        obtain rfl := Entry.message.inj (Option.some.inj hwritten)
        exact hfresh pre queueName msg post rfl p hp
      | _ => cases hwritten
  rw [run_contents hsound fun e he => h.storable he, afterCrash_contents hes]

/-- A log of one declaration, of which a crash leaves five bytes. --/
def tornLog : List Entry := [.queueDeclare { name := ascii "a", durable := true, auto_delete := false }]

def declareRun : List StoreOp := [.storeQueueDeclare (ascii "b") true false]

theorem storable_tornLog : ∀ e ∈ tornLog, e.Storable := by
  intro e he
  obtain rfl := List.mem_singleton.mp he
  exact ⟨trivial, by decide +kernel⟩

theorem admissible_declareRun (st : MessageStore) (ops : List StoreOp) (hops : ops = declareRun ∨
    ops = .compactIfNeeded :: declareRun) : Admissible st ops := by
  refine ⟨fun queueName msg hmem => ?_, fun e he => ?_⟩
  · rcases hops with rfl | rfl <;> simp [declareRun] at hmem
  · obtain rfl : e = .queueDeclare { name := ascii "b", durable := true, auto_delete := false } := by
      rcases hops with rfl | rfl <;> simpa [declareRun, history, written] using he
    decide +kernel

/-- The log of the declaration, followed by the first five bytes of its entry. --/
theorem recover_append_tornLog :
    ({ wal := writeEntries tornLog ++ (writeEntries tornLog).take 5, nextMsgId := 1 } : MessageStore).recover.1 =
      ({ wal := writeEntries tornLog, nextMsgId := 1 } : MessageStore).recover.1 := by
  have hrecord : nextRecord (writeEntries tornLog) =
      some (ENTRY_QUEUE_DECLARE, writeString (ascii "a") ++ [1, 0], []) := by decide +kernel
  have htorn : FirstReadFails ((writeEntries tornLog).take 5) := nextRecord_eq_none_iff.mp (by decide +kernel)
  exact ((recover_append_torn (.cons hrecord .nil) 1).1 _ htorn).2.1

/-- A queue declared after the restart is not recovered: its entry stands after the torn bytes. --/
theorem declaration_after_torn_entry_lost :
    (∀ e ∈ tornLog, e.Storable) ∧ Admissible (afterCrash tornLog 5) declareRun ∧
      ((afterCrash tornLog 5).run declareRun).recover.1.contents ≠
        ((afterCrash tornLog 5).history declareRun).foldl Contents.apply
          ({ wal := writeEntries (wholeEntries tornLog 5) } : MessageStore).recover.1.contents := by
  refine ⟨storable_tornLog, admissible_declareRun _ _ (.inl rfl), fun heq => ?_⟩
  have hqueues := congrArg Contents.queues heq
  revert hqueues
  decide +kernel

/-- The same crash with a compaction before the declaration. --/
theorem declaration_after_compaction_recovered :
    ((afterCrash tornLog 5).run (.compactIfNeeded :: declareRun)).recover.1.contents =
      ((afterCrash tornLog 5).history (.compactIfNeeded :: declareRun)).foldl Contents.apply
        ({ wal := writeEntries (wholeEntries tornLog 5) } : MessageStore).recover.1.contents := by
  refine recover_after_crash storable_tornLog (admissible_declareRun _ _ (.inr rfl)) ?_ ?_
  · intro pre op post heq hop _
    rcases pre with _ | ⟨x, pre⟩
    · exact absurd (List.cons.inj heq).1.symm hop
    · exact .inr ((List.cons.inj heq).1 ▸ List.mem_cons_self)
  · intro pre queueName msg post heq
    have hmem : StoreOp.storeMessage queueName msg ∈ StoreOp.compactIfNeeded :: declareRun :=
      heq ▸ List.mem_append_right _ List.mem_cons_self
    simp [declareRun] at hmem

end Broko.Storage
