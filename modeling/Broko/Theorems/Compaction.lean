import Broko.Theorems.Replay

/-! Compaction writes down what replay found. Whatever bytes the file held, the entries written are
    entries that replay decoded, so they are within the size limit and are read back as they are; the new
    log holds no ack, and replaying it gives the same data. -/

namespace Broko.Storage
open Amqp MessageStore

/-! ### Replay of a compacted log -/

theorem foldl_apply_exchanges (ds : List StoredExchangeDecl) (data : RecoveryData) :
    (ds.map Entry.exchangeDeclare).foldl RecoveryData.apply data =
      { data with exchanges := data.exchanges ++ ds } := by
  induction ds generalizing data with
  | nil => simp
  | cons d ds ih => simp [ih, RecoveryData.apply]

theorem foldl_apply_queues (ds : List StoredQueueDecl) (data : RecoveryData) :
    (ds.map Entry.queueDeclare).foldl RecoveryData.apply data = { data with queues := data.queues ++ ds } := by
  induction ds generalizing data with
  | nil => simp
  | cons d ds ih => simp [ih, RecoveryData.apply]

theorem foldl_apply_bindings (bs : List StoredBinding) (data : RecoveryData) :
    (bs.map Entry.binding).foldl RecoveryData.apply data = { data with bindings := data.bindings ++ bs } := by
  induction bs generalizing data with
  | nil => simp
  | cons b bs ih => simp [ih, RecoveryData.apply]

theorem foldl_apply_messages (ms : List StoredMessage) (data : RecoveryData) :
    (ms.map Entry.message).foldl RecoveryData.apply data = { data with messages := data.messages ++ ms } := by
  induction ms generalizing data with
  | nil => simp
  | cons m ms ih => simp [ih, RecoveryData.apply]

/-- The entries written for some data are replayed as that data, with no acks. --/
theorem recovered_liveEntries (data : RecoveryData) :
    recovered (liveEntries data) = { data with ackedMessages := [] } := by
  rw [recovered, liveEntries, List.foldl_append, List.foldl_append, List.foldl_append, foldl_apply_exchanges,
    foldl_apply_queues, foldl_apply_bindings, foldl_apply_messages]
  rfl

theorem contents_liveEntries (data : RecoveryData) : (recovered (liveEntries data)).contents = data.contents := by
  rw [recovered_liveEntries]
  rfl

/-- No ack is left in a compacted log. --/
theorem acks_liveEntries {data : RecoveryData} {e : Entry} (h : e ∈ liveEntries data) (m : StoredMessage) :
    e.acks m = false := by
  simp only [liveEntries, List.mem_append, List.mem_map] at h
  obtain ⟨d, -, rfl⟩ | ⟨d, -, rfl⟩ | ⟨b, -, rfl⟩ | ⟨x, -, rfl⟩ := h <;> rfl

/-! ### Where the compacted entries come from -/

theorem liveEntries_apply {data : RecoveryData} {e x : Entry} (h : x ∈ liveEntries (data.apply e)) :
    x ∈ liveEntries data ∨ x = e := by
  simp only [liveEntries, List.mem_append, List.mem_map] at h ⊢
  cases e <;> simp only [RecoveryData.apply, List.mem_append, List.mem_filter, List.mem_singleton] at h <;> grind

theorem liveEntries_applyAcks {data : RecoveryData} {x : Entry} (h : x ∈ liveEntries data.applyAcks) :
    x ∈ liveEntries data := by
  simp only [liveEntries, List.mem_append, List.mem_map, applyAcks_messages, List.mem_filter] at h ⊢
  rcases h with h | h | h | ⟨m, ⟨hm, -⟩, rfl⟩
  · exact .inl h
  · exact .inr (.inl h)
  · exact .inr (.inr (.inl h))
  · exact .inr (.inr (.inr ⟨m, hm, rfl⟩))

/-- What compaction writes for a log are entries of that log. --/
theorem mem_of_liveEntries {log : List Entry} {e : Entry} (h : e ∈ liveEntries (recovered log)) : e ∈ log := by
  have hloop : ∀ log : List Entry, e ∈ liveEntries (log.foldl RecoveryData.apply {}) → e ∈ log := by
    intro log
    induction log using List.reverseRecOn with
    | nil => exact id
    | append_singleton log x ih =>
      intro hmem
      rw [foldl_apply_concat] at hmem
      rw [List.mem_append, List.mem_singleton]
      exact (liveEntries_apply hmem).imp_left ih
  exact hloop log (liveEntries_applyAcks h)

theorem parse_compactIfNeeded (st : MessageStore) :
    parse st.compactIfNeeded.wal = (liveEntries (recovered (parse st.wal).1), []) := by
  rw [compactIfNeeded, recoverLocked_eq]
  exact parse_writeEntries_nil fun e he => storable_of_parse (mem_of_liveEntries he)

theorem recover_contents (st : MessageStore) : st.recover.1.contents = (recovered (parse st.wal).1).contents := by
  rw [recover, recoverLocked_eq]

theorem compactIfNeeded_contents (st : MessageStore) :
    st.compactIfNeeded.recover.1.contents = st.recover.1.contents := by
  rw [recover_contents, recover_contents, parse_compactIfNeeded, contents_liveEntries]

theorem liveEntries_congr {d₁ d₂ : RecoveryData} (h : d₁.contents = d₂.contents) :
    liveEntries d₁ = liveEntries d₂ := by
  simp only [RecoveryData.contents, Contents.mk.injEq] at h
  simp only [liveEntries, h]

/-- Compaction is invisible to recovery, and idempotent on the file. --/
theorem recover_compactIfNeeded (st : MessageStore) :
    (st.compactIfNeeded.recover.1.exchanges = st.recover.1.exchanges ∧
      st.compactIfNeeded.recover.1.queues = st.recover.1.queues ∧
      st.compactIfNeeded.recover.1.bindings = st.recover.1.bindings ∧
      st.compactIfNeeded.recover.1.messages = st.recover.1.messages) ∧
    st.compactIfNeeded.compactIfNeeded.wal = st.compactIfNeeded.wal := by
  have hcontents := compactIfNeeded_contents st
  constructor
  · simpa only [RecoveryData.contents, Contents.mk.injEq] using hcontents
  · have hwal : ∀ st : MessageStore, st.compactIfNeeded.wal = writeEntries (liveEntries st.recover.1) := fun _ => rfl
    rw [hwal, hwal st, liveEntries_congr hcontents]

end Broko.Storage
