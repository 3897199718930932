import Broko.Storage.MessageStore
import Broko.Theorems.Properties

/-! Entries of the log, one at a time. An entry within the size limit is framed and decoded back from
    the bytes written for it; and an entry that replay accepts stands in the file exactly as
    `writeEntry` frames its payload, is well formed, and has a payload no shorter than its own encoding. -/

namespace Broko.Storage
open Amqp Reader

namespace Entry

/-- The properties of a message entry are such as the decoder returns. --/
def WellFormed : Entry → Prop
  | .message m => m.properties.WellFormed
  | _ => True

/-- The entry is at most `MAX_ENTRY_SIZE`, counted as `writeEntry` counts it. --/
def Fits (e : Entry) : Prop := 1 + e.payload.length + 4 ≤ MAX_ENTRY_SIZE

instance (e : Entry) : Decidable e.Fits := inferInstanceAs (Decidable (_ ≤ _))

end Entry

/-! ### Fields -/

theorem reads_string {s : Bytes} (h : s.length < 2 ^ 32) : Reads readString (writeString s) s :=
  reads_longString h

theorem accepts_string : Accepts readString fun s used => (writeString s).length = used.length :=
  accepts_longString.mono fun s used h => by rw [h]; exact length_writeLongString s

@[simp] theorem length_writeString (s : Bytes) : (writeString s).length = 4 + s.length := length_writeLongString s

@[simp] theorem length_writeFlag (v : Bool) : (writeFlag v).length = 1 := rfl

theorem reads_flag (v : Bool) : Reads readFlag (writeFlag v) v := by
  have h := (reads_uint8 (if v then 1 else 0)).map (g := fun x => x != 0)
  cases v <;> exact h

theorem accepts_flag : Accepts readFlag fun _ used => used.length = 1 := accepts_uint8.map fun _ _ h => h

/-! ### Payloads -/

theorem reads_binding {b : StoredBinding} (h : (Entry.binding b).payload.length < 2 ^ 32) :
    Reads readBinding (Entry.binding b).payload b := by
  simp only [Entry.payload, List.length_append, length_writeString] at h
  exact (reads_string (by omega)).bind ((reads_string (by omega)).bind (reads_string (by omega)).map)

theorem reads_queueDecl {d : StoredQueueDecl} (h : (Entry.queueDeclare d).payload.length < 2 ^ 32) :
    Reads readQueueDecl (Entry.queueDeclare d).payload d := by
  simp only [Entry.payload, List.length_append, length_writeString] at h
  exact (reads_string (by omega)).bind ((reads_flag d.durable).bind (reads_flag d.auto_delete).map)

theorem reads_exchangeDecl {d : StoredExchangeDecl} (h : (Entry.exchangeDeclare d).payload.length < 2 ^ 32) :
    Reads readExchangeDecl (Entry.exchangeDeclare d).payload d := by
  simp only [Entry.payload, List.length_append, length_writeString] at h
  exact (reads_string (by omega)).bind ((reads_string (by omega)).bind
    ((reads_flag d.durable).bind ((reads_flag d.auto_delete).bind (reads_flag d.internal).map)))

theorem reads_ack {id : UInt64} {queue : Bytes} (h : (Entry.ack id queue).payload.length < 2 ^ 32) :
    Reads readAck (Entry.ack id queue).payload (.ack id queue) := by
  simp only [Entry.payload, List.length_append, length_writeString] at h
  exact (reads_uint64 id).bind (reads_string (by omega)).map

theorem readInner_of_reads {α : Type} {read : Read α} {bs : Bytes} {a : α} (h : Reads read bs a) :
    readInner read bs = pure a := by
  have h0 := h 0 []
  rw [List.append_nil] at h0
  rw [readInner, Buffer.ofBytes, h0]

theorem reads_message {m : StoredMessage} (hw : m.properties.WellFormed)
    (h : (Entry.message m).payload.length < 2 ^ 32) : Reads readMessage (Entry.message m).payload m := by
  simp only [Entry.payload, List.length_append, length_writeString, length_writeUint64] at h
  have hprops := readInner_of_reads (BasicProperties.reads_properties hw (by omega))
  refine (reads_uint64 m.id).bind ((reads_string (by omega)).bind ((reads_string (by omega)).bind
    ((reads_string (by omega)).bind ?_)))
  -- The properties are cut out by their length and decoded in a buffer of their own.
  have hbytes : ∀ {α : Type} {f : Bytes → Read α} {s cs : Bytes} {a : α}, s.length < 2 ^ 32 → Reads (f s) cs a →
      Reads (readUint32 >>= fun len => readBytes len.toNat >>= f) (writeString s ++ cs) a := by
    intro α f s cs a hs hf
    rw [writeString, List.append_assoc]
    refine (reads_uint32 _).bind ?_
    rw [UInt32.toNat_ofNat_of_lt' hs]
    exact (reads_bytes s).bind hf
  refine hbytes (by omega) ?_
  rw [hprops]
  have hlast : Reads (pure m : Read StoredMessage) [] m := Reads.pure m
  have hbody := hbytes (f := fun body => (pure { m with body } : Read StoredMessage)) (s := m.body) (by omega) hlast
  rw [List.append_nil] at hbody
  exact hbody

/-- The payload written for an entry is decoded back as that entry. --/
theorem reads_entry {e : Entry} (hw : e.WellFormed) (h : e.payload.length < 2 ^ 32) :
    Reads (readEntry e.type) e.payload (some e) := by
  cases e with
  | message m => exact (reads_message hw h).map
  | ack id queue => exact (reads_ack h).map
  | queueDeclare d => exact (reads_queueDecl h).map
  | exchangeDeclare d => exact (reads_exchangeDecl h).map
  | binding b => exact (reads_binding h).map
  | queueDelete name =>
    simp only [Entry.payload, length_writeString] at h
    exact (reads_string (by omega)).map
  | exchangeDelete name =>
    simp only [Entry.payload, length_writeString] at h
    exact (reads_string (by omega)).map
  | unbind b => exact (reads_binding (b := b) h).map

/-! What the decoder of an entry accepts. -/

theorem accepts_binding : Accepts readBinding fun b used => (Entry.binding b).payload.length ≤ used.length :=
  accepts_string.bind fun _ u1 h1 => accepts_string.bind fun _ u2 h2 => accepts_string.map fun _ u3 h3 => by
    simp only [Entry.payload, List.length_append] at h1 h2 h3 ⊢
    omega

theorem accepts_queueDecl :
    Accepts readQueueDecl fun d used => (Entry.queueDeclare d).payload.length ≤ used.length :=
  accepts_string.bind fun _ u1 h1 => accepts_flag.bind fun _ u2 h2 => accepts_flag.map fun _ u3 h3 => by
    simp only [Entry.payload, List.length_append, length_writeFlag] at h1 h2 h3 ⊢
    omega

theorem accepts_exchangeDecl :
    Accepts readExchangeDecl fun d used => (Entry.exchangeDeclare d).payload.length ≤ used.length :=
  accepts_string.bind fun _ u1 h1 => accepts_string.bind fun _ u2 h2 => accepts_flag.bind fun _ u3 h3 =>
    accepts_flag.bind fun _ u4 h4 => accepts_flag.map fun _ u5 h5 => by
      simp only [Entry.payload, List.length_append, length_writeFlag] at h1 h2 h3 h4 h5 ⊢
      omega

theorem accepts_ack :
    Accepts readAck fun e used => (∃ id queue, e = .ack id queue) ∧ e.payload.length ≤ used.length :=
  accepts_uint64.bind fun _ u1 h1 => accepts_string.map fun _ u2 h2 => ⟨⟨_, _, rfl⟩, by
    simp only [Entry.payload, List.length_append, length_writeUint64] at h1 h2 ⊢
    omega⟩

theorem accepts_inner {α : Type} {read : Read α} {P : α → Bytes → Prop} (h : Accepts read P) (bs : Bytes) :
    Accepts (readInner read bs) fun a used => used = [] ∧ ∃ part, P a part ∧ part.length ≤ bs.length := by
  unfold readInner
  split
  · rename_i a b' heq
    obtain ⟨part, hpart, -, ha⟩ := h _ _ _ heq
    refine .pure ⟨rfl, part, ha, ?_⟩
    have hlen := congrArg List.length hpart
    simp only [Buffer.ofBytes, List.length_append] at hlen
    omega
  · exact .throw _

theorem accepts_message : Accepts readMessage fun m used =>
    m.properties.WellFormed ∧ (Entry.message m).payload.length ≤ used.length :=
  accepts_uint64.bind fun _ u1 h1 => accepts_string.bind fun _ u2 h2 => accepts_string.bind fun _ u3 h3 =>
    accepts_string.bind fun _ u4 h4 => accepts_uint32.bind fun _ u5 h5 => (accepts_bytes _).bind fun _ u6 h6 =>
    (accepts_inner BasicProperties.accepts_properties _).bind fun _ u7 h7 =>
    accepts_uint32.bind fun _ u8 h8 => (accepts_bytes _).map fun _ u9 h9 => by
      obtain ⟨hnil, part, ⟨hw, henc⟩, hpart⟩ := h7
      refine ⟨hw, ?_⟩
      rw [h6.1] at hpart
      simp only [Entry.payload, List.length_append, length_writeUint64, length_writeString, hnil, List.length_nil,
        h9.1] at h1 h2 h3 h4 ⊢
      omega

/-- An accepted payload was read as an entry of its type that is well formed and whose own encoding is
    no longer. --/
theorem accepts_entry (t : UInt8) : Accepts (readEntry t) fun o used =>
    ∀ e ∈ o, e.type = t ∧ e.WellFormed ∧ e.payload.length ≤ used.length := by
  unfold readEntry
  split
  · rename_i ht
    refine accepts_message.map fun m used h e he => ?_
    cases he
    exact ⟨ht.symm, h.1, h.2⟩
  split
  · rename_i ht
    refine accepts_ack.map fun a used h e he => ?_
    obtain ⟨⟨id, queue, rfl⟩, hlen⟩ := h
    cases he
    exact ⟨ht.symm, trivial, hlen⟩
  split
  · rename_i ht
    refine accepts_queueDecl.map fun d used h e he => ?_
    cases he
    exact ⟨ht.symm, trivial, h⟩
  split
  · rename_i ht
    refine accepts_exchangeDecl.map fun d used h e he => ?_
    cases he
    exact ⟨ht.symm, trivial, h⟩
  split
  · rename_i ht
    refine accepts_binding.map fun b used h e he => ?_
    cases he
    exact ⟨ht.symm, trivial, h⟩
  split
  · rename_i ht
    refine accepts_string.map fun s used h e he => ?_
    cases he
    exact ⟨ht.symm, trivial, h.le⟩
  split
  · rename_i ht
    refine accepts_string.map fun s used h e he => ?_
    cases he
    exact ⟨ht.symm, trivial, h.le⟩
  split
  · rename_i ht
    refine accepts_binding.map fun b used h e he => ?_
    cases he
    exact ⟨ht.symm, trivial, h⟩
  · exact .pure (by simp)

/-! ### Framing -/

theorem length_writeEntry (t : UInt8) (p : Bytes) : (writeEntry t p).length = 9 + p.length := by
  simp [writeEntry]
  omega

theorem decode_writeUint32 (v : UInt32) : BigEndian.decode (writeUint32 v) = v.toNat :=
  BigEndian.decode_encode_of_lt (by simpa using v.toNat_lt)

theorem lt_of_le_maxEntrySize {n : Nat} (h : n ≤ MAX_ENTRY_SIZE) : n < 2 ^ 32 := h.trans_lt (by decide)

/-- The size field of a payload that it can count. --/
theorem totalSize_toNat {n : Nat} (h : 1 + n + 4 < 2 ^ 32) : (1 + UInt32.ofNat n + 4 : UInt32).toNat = 1 + n + 4 := by
  simp only [UInt32.toNat_add, UInt32.toNat_ofNat', UInt32.toNat_ofNat]
  omega

/-- A payload within the limit is framed so that `nextRecord` finds it again. --/
theorem nextRecord_writeEntry {t : UInt8} {p : Bytes} (h : 1 + p.length + 4 ≤ MAX_ENTRY_SIZE) (rest : Bytes) :
    nextRecord (writeEntry t p ++ rest) = some (t, p, rest) := by
  have hsize := totalSize_toNat (lt_of_le_maxEntrySize h)
  have hbody : (t :: (p ++ writeUint32 (crc32 p))).length = 1 + p.length + 4 := by simp; omega
  have hfile : writeEntry t p ++ rest =
      writeUint32 (1 + UInt32.ofNat p.length + 4) ++ (t :: (p ++ writeUint32 (crc32 p)) ++ rest) := by
    simp [writeEntry]
  have htake : (writeEntry t p ++ rest).take 4 = writeUint32 (1 + UInt32.ofNat p.length + 4) := by
    rw [hfile, List.take_left' (length_writeUint32 _)]
  have hdrop : (writeEntry t p ++ rest).drop 4 = t :: (p ++ writeUint32 (crc32 p)) ++ rest := by
    rw [hfile, List.drop_left' (length_writeUint32 _)]
  have hentry : ((writeEntry t p ++ rest).drop 4).take (1 + p.length + 4) = t :: (p ++ writeUint32 (crc32 p)) := by
    rw [hdrop, List.take_left' hbody]
  have hrest : (writeEntry t p ++ rest).drop (4 + (1 + p.length + 4)) = rest := by
    rw [← List.drop_drop, hdrop, List.drop_left' hbody]
  have hcrc : (t :: (p ++ writeUint32 (crc32 p))).drop (1 + p.length + 4 - 4) = writeUint32 (crc32 p) := by
    rw [show 1 + p.length + 4 - 4 = p.length + 1 by omega, List.drop_succ_cons, List.drop_left' rfl]
  have hpay : ((t :: (p ++ writeUint32 (crc32 p))).drop 1).take (1 + p.length + 4 - 5) = p := by
    rw [show 1 + p.length + 4 - 5 = p.length by omega, List.drop_succ_cons, List.drop_zero, List.take_left' rfl]
  rw [nextRecord, if_neg (by rw [List.length_append, length_writeEntry]; omega)]
  simp only [htake, decode_writeUint32, hsize, hentry, hcrc, hpay, hrest]
  rw [if_neg (by omega), if_neg (by rw [hbody]; simp), if_neg (by simp)]
  rfl

/-- A payload beyond the limit stops replay. --/
theorem nextRecord_oversize {t : UInt8} {p : Bytes} (h : MAX_ENTRY_SIZE < 1 + p.length + 4) (hlt : 1 + p.length + 4 < 2 ^ 32)
    (rest : Bytes) : nextRecord (writeEntry t p ++ rest) = none := by
  have htake : (writeEntry t p ++ rest).take 4 = writeUint32 (1 + UInt32.ofNat p.length + 4) := by
    rw [writeEntry, List.append_assoc, List.take_left' (length_writeUint32 _)]
  rw [nextRecord, if_neg (by rw [List.length_append, length_writeEntry]; omega)]
  simp only [htake, decode_writeUint32, totalSize_toNat hlt]
  rw [if_pos (.inr h)]

/-- What `nextRecord` accepts stands in the file as `writeEntry` writes it. --/
theorem nextRecord_eq_some {file p rest : Bytes} {t : UInt8} (h : nextRecord file = some (t, p, rest)) :
    file = writeEntry t p ++ rest ∧ 1 + p.length + 4 ≤ MAX_ENTRY_SIZE := by
  rw [nextRecord] at h
  split at h
  · cases h
  rename_i hlen
  dsimp only at h
  split at h
  · cases h
  rename_i hsize
  split at h
  · cases h
  rename_i hentry
  split at h
  · cases h
  rename_i hcrc
  simp only [Option.some.injEq, Prod.mk.injEq] at h
  obtain ⟨ht, hp, hrest⟩ := h
  rw [not_or, not_lt, not_lt] at hsize
  rw [not_lt] at hlen
  rw [ne_eq, not_not] at hentry hcrc
  have hhead : (file.take 4).length = 4 := by rw [List.length_take]; omega
  generalize hn : BigEndian.decode (file.take 4) = n at *
  generalize he : (file.drop 4).take n = entry at *
  -- The entry is its type byte, the payload and the four bytes of the checksum.
  cases entry with
  | nil => simp at hentry; omega
  | cons a tail =>
    rw [List.length_cons] at hentry
    obtain rfl : a = t := ht
    rw [List.drop_succ_cons, List.drop_zero] at hp
    have hplen : p.length = n - 5 := by rw [← hp, List.length_take]; omega
    have hsplit : tail = p ++ tail.drop (n - 5) := by rw [← hp, List.take_append_drop]
    have hcrcBytes : tail.drop (n - 5) = writeUint32 (crc32 p) := by
      have hlen4 : (tail.drop (n - 5)).length = 4 := by rw [List.length_drop]; omega
      have hdrop : (a :: tail).drop (n - 4) = tail.drop (n - 5) := by
        rw [show n - 4 = n - 5 + 1 by omega, List.drop_succ_cons]
      rw [List.drop_succ_cons, List.drop_zero, hp, hdrop] at hcrc
      rw [writeUint32, ← hcrc, ← hlen4, BigEndian.encode_decode]
    have hsizeBytes : file.take 4 = writeUint32 (1 + UInt32.ofNat p.length + 4) := by
      have hback := BigEndian.encode_decode (file.take 4)
      rw [hhead, hn] at hback
      rw [writeUint32, totalSize_toNat (lt_of_le_maxEntrySize (by omega)), show 1 + p.length + 4 = n by omega, hback]
    refine ⟨?_, by omega⟩
    have hrest' : (file.drop 4).drop n = rest := by rw [List.drop_drop, hrest]
    calc file = file.take 4 ++ ((file.drop 4).take n ++ (file.drop 4).drop n) := by
          rw [List.take_append_drop, List.take_append_drop]
      _ = writeEntry a p ++ rest := by
          rw [he, hrest', hsizeBytes, hsplit, hcrcBytes, writeEntry]
          simp only [List.append_assoc, List.cons_append]

end Broko.Storage
