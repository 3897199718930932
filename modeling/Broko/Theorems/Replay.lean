import Mathlib.Data.List.Basic
import Mathlib.Data.List.Induction
import Broko.Storage.Contents
import Broko.Theorems.Entries

/-! Replay of a whole file. `parse` gives the entries that replay gets to and the bytes it leaves; all
    that `recover` returns is a function of these entries (`recovered`). A file that starts with entries
    written by the store is parsed past them. One more entry changes what is recovered as the operation
    should (`Contents.apply`), with one exception: acks are applied after the whole log, so a message
    is lost when the log already holds an ack of its queue and id. -/

namespace Broko.Storage
open Amqp Reader

/-! ### Parsing -/

/-- The entries that the loop of `recoverLocked` decodes, and the bytes that it leaves. --/
def parseLoop : Nat → Bytes → List Entry × Bytes
  | 0, file => ([], file)
  | fuel + 1, file =>
    match nextRecord file with
    | none => ([], file)
    | some (entryType, payload, rest) =>
      match readEntry entryType (Buffer.ofBytes payload) with
      | .error _ => ([], file)
      | .ok (none, _) => parseLoop fuel rest
      | .ok (some e, _) => (e :: (parseLoop fuel rest).1, (parseLoop fuel rest).2)

def parse (file : Bytes) : List Entry × Bytes := parseLoop (file.length + 1) file

theorem recoverLoop_eq (fuel : Nat) (file : Bytes) (data : RecoveryData) (next : UInt64) :
    recoverLoop fuel file data next = ((parseLoop fuel file).1.foldl RecoveryData.apply data,
      (parseLoop fuel file).1.foldl raiseMsgId next, (parseLoop fuel file).2) := by
  induction fuel generalizing file data next with
  | zero => rfl
  | succ fuel ih =>
    rw [recoverLoop, parseLoop]
    cases hrec : nextRecord file with
    | none => rfl
    | some r =>
      obtain ⟨entryType, payload, rest⟩ := r
      dsimp only
      cases hread : readEntry entryType (Buffer.ofBytes payload) with
      | error err => rfl
      | ok p =>
        obtain ⟨o, b⟩ := p
        cases o with
        | none => exact ih rest data next
        | some e => exact ih rest (data.apply e) (raiseMsgId next e)

theorem nextRecord_length {file p rest : Bytes} {t : UInt8} (h : nextRecord file = some (t, p, rest)) :
    rest.length < file.length := by
  rw [(nextRecord_eq_some h).1, List.length_append, length_writeEntry]
  omega

/-- Fuel beyond the length of the file makes no difference. --/
theorem parseLoop_fuel {fuel₁ fuel₂ : Nat} {file : Bytes} (h₁ : file.length < fuel₁) (h₂ : file.length < fuel₂) :
    parseLoop fuel₁ file = parseLoop fuel₂ file := by
  induction fuel₁ generalizing fuel₂ file with
  | zero => omega
  | succ n ih =>
    obtain ⟨m, rfl⟩ : ∃ m, fuel₂ = m + 1 := ⟨fuel₂ - 1, by omega⟩
    rw [parseLoop, parseLoop]
    cases hrec : nextRecord file with
    | none => rfl
    | some r =>
      obtain ⟨entryType, payload, rest⟩ := r
      have hlen := nextRecord_length hrec
      have htail : parseLoop n rest = parseLoop m rest := ih (by omega) (by omega)
      dsimp only
      rw [htail]

theorem parse_of_none {file : Bytes} (h : nextRecord file = none) : parse file = ([], file) := by
  rw [parse, parseLoop, h]

@[simp] theorem parse_nil : parse [] = ([], []) := rfl

namespace Entry

/-- An entry that replay gives back as it was written. --/
structure Storable (e : Entry) : Prop where
  wellFormed : e.WellFormed
  fits : e.Fits

theorem Fits.payload_lt {e : Entry} (h : e.Fits) : e.payload.length < 2 ^ 32 := by
  simp only [Fits, MAX_ENTRY_SIZE] at h
  omega

theorem nextRecord_write {e : Entry} (h : e.Fits) (rest : Bytes) :
    nextRecord (e.write ++ rest) = some (e.type, e.payload, rest) :=
  nextRecord_writeEntry h rest

end Entry

theorem parse_write {e : Entry} (h : e.Storable) (rest : Bytes) :
    parse (e.write ++ rest) = (e :: (parse rest).1, (parse rest).2) := by
  have hread := (reads_entry h.wellFormed h.fits.payload_lt) 0 []
  rw [List.append_nil] at hread
  rw [parse, parseLoop, e.nextRecord_write h.fits]
  dsimp only
  rw [Buffer.ofBytes, hread]
  dsimp only
  have hlen : rest.length < (e.write ++ rest).length := by
    rw [List.length_append, Entry.write, length_writeEntry]
    omega
  have htail : parseLoop (e.write ++ rest).length rest = parse rest := parseLoop_fuel hlen (Nat.lt_succ_self _)
  rw [htail]

theorem parse_writeEntries {es : List Entry} (h : ∀ e ∈ es, e.Storable) (rest : Bytes) :
    parse (writeEntries es ++ rest) = (es ++ (parse rest).1, (parse rest).2) := by
  induction es with
  | nil => rfl
  | cons e es ih =>
    have hes := ih fun x hx => h x (List.mem_cons_of_mem _ hx)
    rw [writeEntries, List.flatMap_cons, List.append_assoc, parse_write (h e List.mem_cons_self), ← writeEntries,
      hes, List.cons_append]

theorem parse_writeEntries_nil {es : List Entry} (h : ∀ e ∈ es, e.Storable) :
    parse (writeEntries es) = (es, []) := by
  have hes := parse_writeEntries h []
  rwa [List.append_nil, parse_nil, List.append_nil] at hes

/-- Whatever the file holds, the entries that replay gets to would be read back from their own encoding. --/
theorem storable_of_parse {file : Bytes} {e : Entry} (h : e ∈ (parse file).1) : e.Storable := by
  suffices hloop : ∀ fuel file, e ∈ (parseLoop fuel file).1 → e.Storable from hloop _ _ h
  intro fuel
  induction fuel with
  | zero => intro file hmem; cases hmem
  | succ fuel ih =>
    intro file hmem
    rw [parseLoop] at hmem
    cases hrec : nextRecord file with
    | none => rw [hrec] at hmem; cases hmem
    | some r =>
      obtain ⟨entryType, payload, rest⟩ := r
      rw [hrec] at hmem
      dsimp only at hmem
      cases hread : readEntry entryType (Buffer.ofBytes payload) with
      | error err => rw [hread] at hmem; cases hmem
      | ok p =>
        obtain ⟨o, b⟩ := p
        rw [hread] at hmem
        cases o with
        | none => exact ih rest hmem
        | some x =>
          rcases List.mem_cons.mp hmem with rfl | htail
          · obtain ⟨used, hused, -, hacc⟩ := accepts_entry _ _ _ _ hread
            obtain ⟨-, hw, hlen⟩ := hacc e rfl
            have hle := congrArg List.length hused
            have hfit := (nextRecord_eq_some hrec).2
            simp only [Buffer.ofBytes, List.length_append] at hle
            exact ⟨hw, by rw [Entry.Fits]; omega⟩
          · exact ih rest htail

/-- Entries appended to a file that ends on an entry boundary are parsed after those it holds. --/
theorem parse_append {file rest : Bytes} (h : (parse file).2 = []) :
    parse (file ++ rest) = ((parse file).1 ++ (parse rest).1, (parse rest).2) := by
  suffices hloop : ∀ fuel file, file.length < fuel → (parseLoop fuel file).2 = [] →
      parse (file ++ rest) = ((parseLoop fuel file).1 ++ (parse rest).1, (parse rest).2) from
    hloop _ file (by omega) h
  intro fuel
  induction fuel with
  | zero => intro file hlt; omega
  | succ fuel ih =>
    intro file hlt hleft
    rw [parseLoop] at hleft ⊢
    cases hrec : nextRecord file with
    | none =>
      rw [hrec] at hleft
      obtain rfl : file = [] := hleft
      rfl
    | some r =>
      obtain ⟨entryType, payload, tail⟩ := r
      have hlen := nextRecord_length hrec
      obtain ⟨hfile, hfit⟩ := nextRecord_eq_some hrec
      -- The record is found again in the longer file, with more bytes after it.
      have hnext : nextRecord (file ++ rest) = some (entryType, payload, tail ++ rest) := by
        rw [hfile, List.append_assoc, nextRecord_writeEntry hfit]
      have hfuel : parseLoop (file ++ rest).length (tail ++ rest) = parse (tail ++ rest) :=
        parseLoop_fuel (by simp only [List.length_append]; omega) (by omega)
      rw [hrec] at hleft
      rw [parse, parseLoop, hnext]
      dsimp only at hleft ⊢
      cases hread : readEntry entryType (Buffer.ofBytes payload) with
      | error err =>
        rw [hread] at hleft
        dsimp only at hleft
        rw [hleft] at hlen
        cases hlen
      | ok p =>
        obtain ⟨o, b⟩ := p
        rw [hread] at hleft
        have htail := ih tail (by omega)
        cases o with
        | none => exact hfuel.trans (htail hleft)
        | some e =>
          dsimp only at hleft ⊢
          rw [hfuel, htail hleft, List.cons_append]

/-! ### What is recovered -/

/-- The data that `recover` returns for a log. --/
def recovered (log : List Entry) : RecoveryData := (log.foldl RecoveryData.apply {}).applyAcks

theorem recoverLocked_eq (st : MessageStore) :
    st.recoverLocked = (recovered (parse st.wal).1, { st with nextMsgId := (parse st.wal).1.foldl raiseMsgId st.nextMsgId }) := by
  rw [MessageStore.recoverLocked, MessageStore.replay, recoverLoop_eq, ← parse, recovered]

theorem mem_pushAck {queue q : Bytes} {id i : UInt64} {acked : List (Bytes × List UInt64)} :
    (∃ p ∈ pushAck queue id acked, q = p.1 ∧ i ∈ p.2) ↔
      (∃ p ∈ acked, q = p.1 ∧ i ∈ p.2) ∨ (q = queue ∧ i = id) := by
  induction acked with
  | nil => simp [pushAck]
  | cons head rest ih =>
    rw [pushAck]
    split
    · rename_i hq
      subst hq
      simp only [List.mem_cons, exists_eq_or_imp, List.mem_append, List.not_mem_nil, or_false, and_or_left]
      rw [or_right_comm]
    · simp only [List.mem_cons, exists_eq_or_imp, ih, or_assoc]

/-- After the loop `ackedMessages` holds the acks of the log, wherever they stand in it. --/
theorem mem_ackedMessages {log : List Entry} {m : StoredMessage} :
    (∃ p ∈ (log.foldl RecoveryData.apply {}).ackedMessages, m.queue_name = p.1 ∧ m.id ∈ p.2) ↔
      ∃ e ∈ log, e.acks m := by
  induction log using List.reverseRecOn with
  | nil => simp
  | append_singleton log e ih =>
    rw [List.foldl_append, List.foldl_cons, List.foldl_nil]
    have hlast : (∃ x ∈ log ++ [e], x.acks m) ↔ (∃ x ∈ log, x.acks m) ∨ e.acks m := by
      simp only [List.mem_append, List.mem_singleton, or_and_right, exists_or, exists_eq_left]
    rw [hlast, ← ih]
    cases e with
    | ack id queue => simpa only [RecoveryData.apply, Entry.acks, decide_eq_true_eq] using mem_pushAck
    | _ => simp [RecoveryData.apply, Entry.acks]

theorem applyAcks_messages (data : RecoveryData) :
    data.applyAcks.messages =
      data.messages.filter fun m => ¬∃ p ∈ data.ackedMessages, m.queue_name = p.1 ∧ m.id ∈ p.2 := by
  rw [RecoveryData.applyAcks]
  dsimp only
  generalize data.messages = ms
  induction data.ackedMessages generalizing ms with
  | nil => simp
  | cons p rest ih =>
    rw [List.foldl_cons, ih, List.filter_filter]
    refine List.filter_congr fun m _ => ?_
    simp only [← Bool.decide_and, decide_eq_decide, List.mem_cons, exists_eq_or_imp, not_or]
    exact and_comm

theorem recovered_messages (log : List Entry) :
    (recovered log).messages =
      (log.foldl RecoveryData.apply {}).messages.filter fun m => !log.any fun e => e.acks m := by
  rw [recovered, applyAcks_messages]
  refine List.filter_congr fun m _ => ?_
  rw [Bool.eq_iff_iff, decide_eq_true_eq, mem_ackedMessages, Bool.not_eq_true', List.any_eq_false]
  simp

/-- The loop without its `ackedMessages`: an ack changes nothing until the end of the log. --/
theorem foldl_apply_concat (log : List Entry) (e : Entry) :
    (log ++ [e]).foldl RecoveryData.apply {} = (log.foldl RecoveryData.apply {}).apply e := by
  rw [List.foldl_append, List.foldl_cons, List.foldl_nil]

theorem apply_messages (data : RecoveryData) (e : Entry) :
    (data.apply e).messages = data.messages.filter (fun m => !e.deletesQueueOf m) ++ e.message?.toList := by
  cases e <;> simp [RecoveryData.apply, Entry.deletesQueueOf, Entry.message?]

/-- One more message is recovered after the others, unless an ack earlier in the log names it. --/
theorem recovered_messages_concat (log : List Entry) (m : StoredMessage) :
    (recovered (log ++ [.message m])).messages =
      (recovered log).messages ++ [m].filter fun m => !log.any fun e => e.acks m := by
  have hall : ∀ m' : StoredMessage, (log ++ [Entry.message m]).any (fun e => e.acks m') = log.any fun e => e.acks m' := by
    intro m'
    have hnot : (Entry.message m).acks m' = false := rfl
    rw [List.any_append, List.any_cons, hnot, List.any_nil, Bool.or_false, Bool.or_false]
  have hold : ∀ messages : List StoredMessage,
      messages.filter (fun m' => !(Entry.message m).deletesQueueOf m') = messages := by
    simp [Entry.deletesQueueOf]
  rw [recovered_messages, recovered_messages, foldl_apply_concat, apply_messages, hold]
  simp only [hall]
  exact List.filter_append ..

/-- One more entry changes what is recovered as the abstract call does, unless it is a message that an
    ack earlier in the log names. --/
theorem recovered_concat {log : List Entry} {e : Entry}
    (h : ∀ m, e = .message m → ∀ x ∈ log, x.acks m = false) :
    (recovered (log ++ [e])).contents = (recovered log).contents.apply e := by
  have hmessages : (recovered (log ++ [e])).messages =
      (recovered log).messages.filter (fun m => !e.removesMessage m) ++ e.message?.toList := by
    rw [recovered_messages, recovered_messages, foldl_apply_concat, apply_messages, List.filter_append,
      List.filter_filter, List.filter_filter]
    congr 1
    · refine List.filter_congr fun m _ => ?_
      simp only [List.any_append, List.any_cons, List.any_nil, Bool.or_false, Bool.not_or, Entry.removesMessage]
      cases log.any fun x => x.acks m <;> cases e.acks m <;> cases e.deletesQueueOf m <;> rfl
    · refine List.filter_eq_self.mpr fun m hm => ?_
      cases e with
      | message m' =>
        obtain rfl : m = m' := by simpa [Entry.message?] using hm
        simpa [Entry.acks] using h m rfl
      | _ => simp [Entry.message?] at hm
  simp only [Contents.apply, RecoveryData.contents, hmessages, Contents.mk.injEq, and_true]
  rw [recovered, foldl_apply_concat]
  cases e <;> simp [recovered, RecoveryData.applyAcks, RecoveryData.apply, Entry.removesExchange, Entry.exchange?,
    Entry.removesQueue, Entry.queue?, Entry.removesBinding, Entry.binding?]

/-- A message that an ack earlier in the log names is not recovered. --/
theorem not_mem_recovered {log : List Entry} {e : Entry} {m : StoredMessage} (he : e ∈ log) (h : e.acks m) :
    m ∉ (recovered log).messages := by
  rw [recovered_messages, List.mem_filter]
  rintro ⟨-, hnone⟩
  rw [Bool.not_eq_true', List.any_eq_false] at hnone
  exact hnone e he h

end Broko.Storage
