import Broko.Storage.Failure
import Broko.Theorems.Crash

/-! Compaction that fails half way. A temporary file that lacks its last bytes is a cut log: replay gets to the
    entries that stand whole in it, and these are fewer than were recovered before. The rename puts it in the
    place of the log all the same. -/

namespace Broko.Storage
open Amqp Broker MessageStore

theorem flatten_entryWrites (t : UInt8) (p : Bytes) : (entryWrites t p).flatten = writeEntry t p := by
  simp [entryWrites, writeEntry]

theorem flatten_liveWrites (data : RecoveryData) : (liveWrites data).flatten = writeEntries (liveEntries data) := by
  rw [liveWrites, writeEntries]
  induction liveEntries data with
  | nil => rfl
  | cons e es ih =>
    rw [List.flatMap_cons, List.flatten_append, flatten_entryWrites, ih, List.flatMap_cons]
    rfl

/-- If no write stops short, the compaction is the one that cannot fail. --/
theorem compactIfNeededOn_complete {st : MessageStore} {tmp : TmpFile} (hopens : tmp.opens)
    (h : OutputStream.Complete tmp.takes (liveWrites st.recover.1)) : st.compactIfNeededOn tmp = st.compactIfNeeded := by
  have hfile := OutputStream.writeAll_complete (s := {}) rfl h
  rw [List.nil_append, flatten_liveWrites] at hfile
  simp only [compactIfNeededOn, compactIfNeeded, hopens, if_true]
  rw [← recover, hfile]

/-! ### What a torn compaction holds -/

def Contents.size (c : Contents) : Nat :=
  c.exchanges.length + c.queues.length + c.bindings.length + c.messages.length

theorem size_apply {data : RecoveryData} {e : Entry} (h : e ∈ liveEntries data) (c : Contents) :
    (c.apply e).size = c.size + 1 := by
  simp only [liveEntries, List.mem_append, List.mem_map] at h
  obtain ⟨d, -, rfl⟩ | ⟨d, -, rfl⟩ | ⟨b, -, rfl⟩ | ⟨m, -, rfl⟩ := h <;>
    simp [Contents.size, Contents.apply, Entry.removesExchange, Entry.removesQueue, Entry.removesBinding,
      Entry.removesMessage, Entry.acks, Entry.deletesQueueOf, Entry.exchange?, Entry.queue?, Entry.binding?,
      Entry.message?] <;> omega

/-- Each entry of a compacted log adds one thing. --/
theorem size_recovered {data : RecoveryData} {es : List Entry} (h : ∀ e ∈ es, e ∈ liveEntries data) :
    (recovered es).contents.size = es.length := by
  induction es using List.reverseRecOn with
  | nil => rfl
  | append_singleton es e ih =>
    have hes : ∀ x ∈ es, x ∈ liveEntries data := fun x hx => h x (List.mem_append_left _ hx)
    have he := h e (List.mem_append_right _ List.mem_cons_self)
    rw [recovered_concat fun m _ x hx => acks_liveEntries (hes x hx) m, size_apply he, ih hes, List.length_append,
      List.length_singleton]

theorem wholeEntries_sublist (es : List Entry) (k : Nat) : (wholeEntries es k).Sublist es := by
  induction es generalizing k with
  | nil => exact List.Sublist.refl _
  | cons e es ih =>
    rw [wholeEntries]
    split
    · exact (ih _).cons_cons e
    · exact List.nil_sublist _

theorem length_wholeEntries_lt {es : List Entry} {k : Nat} (h : k < (writeEntries es).length) :
    (wholeEntries es k).length < es.length := by
  induction es generalizing k with
  | nil => cases h
  | cons e es ih =>
    rw [writeEntries, List.flatMap_cons, List.length_append, ← writeEntries] at h
    rw [wholeEntries]
    split
    · have hlt := ih (k := k - e.write.length) (by omega)
      rw [List.length_cons, List.length_cons]
      omega
    · rw [List.length_nil, List.length_cons]
      omega

theorem liveEntries_storable (st : MessageStore) : ∀ e ∈ liveEntries st.recover.1, e.Storable := by
  intro e he
  rw [recover, recoverLocked_eq] at he
  exact storable_of_parse (mem_of_liveEntries he)

/-- A cut in the compacted log loses something. --/
theorem contents_cut_ne {st : MessageStore} {k : Nat} (h : k < (writeEntries (liveEntries st.recover.1)).length)
    (next : UInt64) :
    ({ wal := (writeEntries (liveEntries st.recover.1)).take k, nextMsgId := next } : MessageStore).recover.1.contents ≠
      st.recover.1.contents := by
  intro heq
  have hcut := congrArg Contents.size heq
  rw [recover_contents, parse_cut (liveEntries_storable st), ← contents_liveEntries st.recover.1,
    size_recovered fun e he => (wholeEntries_sublist _ _).mem he, size_recovered fun e he => he] at hcut
  exact absurd hcut (length_wholeEntries_lt h).ne

/-! ### Failing compactions -/

/-- For every content of the log and every way in which opening and writing the temporary file can go, the log
    yields the same data after the compaction as before exactly if the file was opened and no write stopped short,
    or it was not opened and there is no older temporary file, or only one that yields the same data. --/
theorem compaction_atomic_iff (st : MessageStore) (tmp : TmpFile) :
    (st.compactIfNeededOn tmp).recover.1.contents = st.recover.1.contents ↔
      (tmp.opens → OutputStream.Complete tmp.takes (liveWrites st.recover.1)) ∧
      (tmp.opens = false → ∀ bytes, tmp.before = some bytes →
        ({ wal := bytes } : MessageStore).recover.1.contents = st.recover.1.contents) := by
  cases hopens : tmp.opens with
  | true =>
    simp only [forall_true_left, reduceCtorEq, false_implies, and_true]
    constructor
    · intro hsame
      by_contra hcut
      obtain ⟨k, hk, hfile⟩ := OutputStream.writeAll_cut (s := {}) rfl hcut
      rw [flatten_liveWrites] at hk hfile
      refine contents_cut_ne hk st.recover.2.nextMsgId ?_
      rw [← hsame, compactIfNeededOn]
      simp only [hopens, if_true]
      rw [← recover, hfile]
      rfl
    · intro h
      rw [compactIfNeededOn_complete hopens h, compactIfNeeded_contents]
  | false =>
    simp only [reduceCtorEq, false_implies, true_and, forall_true_left]
    cases hbefore : tmp.before with
    | none =>
      simp only [reduceCtorEq, false_implies, implies_true, iff_true]
      rw [compactIfNeededOn]
      simp only [hopens, hbefore, Bool.false_eq_true, if_false]
      rw [recover_contents, recover_contents, recoverLocked_eq]
    | some bytes =>
      simp only [Option.some.injEq, forall_eq']
      rw [compactIfNeededOn]
      simp only [hopens, hbefore, Bool.false_eq_true, if_false]
      rw [recover_contents, recover_contents { wal := bytes }]

/-- The disk is full when the temporary file is written. --/
def fullDisk : TmpFile := { takes := fun _ => 0 }

/-- An empty file replaces the log, and the queue declared in it is gone. --/
theorem compaction_on_full_disk_loses :
    ({ wal := writeEntries tornLog } : MessageStore).recover.1.queues.length = 1 ∧
      (({ wal := writeEntries tornLog } : MessageStore).compactIfNeededOn fullDisk).wal = [] ∧
      (({ wal := writeEntries tornLog } : MessageStore).compactIfNeededOn fullDisk).recover.1.contents ≠
        ({ wal := writeEntries tornLog } : MessageStore).recover.1.contents := by
  refine ⟨by decide +kernel, by decide +kernel, fun heq => ?_⟩
  have hqueues := congrArg (fun c : Contents => c.queues.length) heq
  revert hqueues
  decide +kernel

end Broko.Storage
