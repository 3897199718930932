import Broko.Lib.Checksum
import Broko.Theorems.Replay

/-! A record of the log with one byte changed behind its size. The checksum covers the payload alone: a change there or in
    the checksum itself stops replay, a change of the type byte makes it another record. -/

namespace Broko.Storage
open Amqp Checksum

/-! ### The checksum -/

theorem neg_and_one (crc : UInt32) :
    (-(crc &&& 1)).toBitVec = if crc.toBitVec.getLsbD 0 then BitVec.allOnes 32 else 0#32 := by
  have h : (crc &&& 1).toBitVec = BitVec.setWidth 32 (BitVec.ofBool (crc.toBitVec.getLsbD 0)) := by
    rw [UInt32.toBitVec_and]
    exact BitVec.and_one_eq_setWidth_ofBool_getLsbD
  rw [UInt32.toBitVec_neg, h]
  cases crc.toBitVec.getLsbD 0 <;> rfl

/-- A round moves the bits down, and adds the polynomial if the lowest one was set. --/
theorem getLsbD_crcRound (crc : UInt32) {i : Nat} (hi : i < 32) : (crcRound crc).toBitVec.getLsbD i =
    (crc.toBitVec.getLsbD (1 + i) ^^ ((0xEDB88320#32).getLsbD i && crc.toBitVec.getLsbD 0)) := by
  have hshift : (crc >>> 1).toBitVec = crc.toBitVec >>> 1 := rfl
  have hpoly : (0xEDB88320 : UInt32).toBitVec = 0xEDB88320#32 := rfl
  rw [crcRound, UInt32.toBitVec_xor, UInt32.toBitVec_and, neg_and_one, BitVec.getLsbD_xor, BitVec.getLsbD_and, hshift,
    hpoly, BitVec.getLsbD_ushiftRight]
  cases crc.toBitVec.getLsbD 0 with
  | true => rw [if_pos rfl, BitVec.getLsbD_allOnes, decide_eq_true hi]
  | false => rw [if_neg Bool.false_ne_true, BitVec.getLsbD_zero]

/-- The highest bit of the polynomial is set, so the result shows whether it was added. --/
theorem getLsbD_crcRound_top (crc : UInt32) : (crcRound crc).toBitVec.getLsbD 31 = crc.toBitVec.getLsbD 0 := by
  have hpoly : (0xEDB88320#32).getLsbD 31 = true := by decide
  rw [getLsbD_crcRound crc (by decide), hpoly, Bool.true_and, BitVec.getLsbD_of_ge crc.toBitVec _ (Nat.le_refl 32),
    Bool.false_xor]

theorem crcRound_injective : Function.Injective crcRound := by
  intro a b h
  have hbit : ∀ i < 32, (crcRound a).toBitVec.getLsbD i = (crcRound b).toBitVec.getLsbD i := fun i _ => by rw [h]
  have hlow : a.toBitVec.getLsbD 0 = b.toBitVec.getLsbD 0 := by
    rw [← getLsbD_crcRound_top, ← getLsbD_crcRound_top, h]
  apply UInt32.toBitVec_inj.mp
  apply BitVec.eq_of_getLsbD_eq
  intro i hi
  cases i with
  | zero => exact hlow
  | succ i =>
    have hnext := hbit i (by omega)
    rw [getLsbD_crcRound a (by omega), getLsbD_crcRound b (by omega), hlow, Bool.xor_left_inj, Nat.add_comm] at hnext
    exact hnext

theorem crcByte_injective_state (b : UInt8) : Function.Injective fun crc => crcByte crc b := by
  intro c d h
  exact (UInt32.xor_left_inj _).mp (crcRound_injective.iterate 8 h)

theorem crcByte_injective_byte (crc : UInt32) : Function.Injective (crcByte crc) := by
  intro a b h
  exact UInt8.toUInt32_inj.mp ((UInt32.xor_right_inj _).mp (crcRound_injective.iterate 8 h))

/-- A changed byte is detected. --/
theorem crc32_ne {p p' : Bytes} (h : OneChanged p p') : crc32 p ≠ crc32 p' := fun heq =>
  foldl_ne crcByte_injective_state crcByte_injective_byte h _ (UInt32.not_inj.mp heq)

/-! ### The record -/

/-- The four bytes of the size that `writeEntry` gives a payload. --/
def sizeBytes (p : Bytes) : Bytes := writeUint32 (1 + UInt32.ofNat p.length + 4)

/-- What `writeEntry` writes behind the size: the type byte, the payload and the checksum. --/
def entryBody (t : UInt8) (p : Bytes) : Bytes := t :: (p ++ writeUint32 (crc32 p))

theorem writeEntry_eq (t : UInt8) (p : Bytes) : writeEntry t p = sizeBytes p ++ entryBody t p := rfl

theorem length_entryBody (t : UInt8) (p : Bytes) : (entryBody t p).length = 1 + p.length + 4 := by
  rw [entryBody, List.length_cons, List.length_append, length_writeUint32]
  omega

section Damage
variable {t t' : UInt8} {p p' ys rest rest' : Bytes}

/-- Bytes that are read behind the size of `p` are themselves what `writeEntry` writes. --/
theorem body_of_nextRecord (hsize : 1 + p.length + 4 < 2 ^ 32) (hlen : ys.length = 1 + p.length + 4)
    (h : nextRecord (sizeBytes p ++ ys ++ rest) = some (t', p', rest')) :
    ys = entryBody t' p' ∧ p'.length = p.length ∧ rest' = rest := by
  obtain ⟨hfile, hfits⟩ := nextRecord_eq_some h
  rw [writeEntry_eq, List.append_assoc, List.append_assoc] at hfile
  have hfour : ∀ q : Bytes, (sizeBytes q).length = 4 := fun q => length_writeUint32 _
  obtain ⟨hsizes, hbody⟩ := List.append_inj hfile ((hfour p).trans (hfour p').symm)
  have hp : p'.length = p.length := by
    have htotal := congrArg BigEndian.decode hsizes
    rw [sizeBytes, sizeBytes, decode_writeUint32, decode_writeUint32, totalSize_toNat hsize,
      totalSize_toNat (lt_of_le_maxEntrySize hfits)] at htotal
    omega
  obtain ⟨hys, hrest⟩ := List.append_inj hbody (by rw [hlen, length_entryBody, hp])
  exact ⟨hys, hp, hrest.symm⟩

/-- Two records of one length that differ in one byte differ in their types. --/
theorem type_of_oneChanged (h : OneChanged (entryBody t p) (entryBody t' p')) (hp : p'.length = p.length) :
    p' = p ∧ t' ≠ t := by
  rw [entryBody, entryBody] at h
  generalize hys : p' ++ writeUint32 (crc32 p') = ys at h
  cases h with
  | head _ hne => exact ⟨(List.append_inj hys hp).1, hne.symm⟩
  | tail _ h =>
    rcases h.append with ⟨p'', hchanged, rfl⟩ | ⟨crc', hchanged, rfl⟩
    · -- the payload has changed, and the checksum has not
      obtain ⟨rfl, hcrc⟩ := List.append_inj hys (hp.trans hchanged.length_eq.symm)
      have hsame := congrArg BigEndian.decode hcrc
      rw [decode_writeUint32, decode_writeUint32] at hsame
      exact absurd (UInt32.toNat_inj.mp hsame).symm (crc32_ne hchanged)
    · obtain ⟨rfl, hcrc⟩ := List.append_inj hys hp
      exact absurd hcrc hchanged.ne

/-- The change is not in the type byte, or nothing is read from the record: it is too large, or what stands in the type
    byte now is a type whose fields are not found in the payload. --/
def Detected (t : UInt8) (p ys : Bytes) : Prop :=
  ys.head? = some t ∨ MAX_ENTRY_SIZE < 1 + p.length + 4 ∨ ∃ e, readEntry (ys.headD 0) (Buffer.ofBytes p) = .error e

theorem length_parseLoop (fuel : Nat) (file : Bytes) : (parseLoop fuel file).2.length ≤ file.length := by
  induction fuel generalizing file with
  | zero => exact Nat.le_refl _
  | succ fuel ih =>
    rw [parseLoop]
    cases hrec : nextRecord file with
    | none => exact Nat.le_refl _
    | some r =>
      obtain ⟨entryType, payload, rest⟩ := r
      have hle := (ih rest).trans (Nat.le_of_lt (nextRecord_length hrec))
      dsimp only
      cases hread : readEntry entryType (Buffer.ofBytes payload) with
      | error err => exact Nat.le_refl _
      | ok a =>
        obtain ⟨o, b⟩ := a
        cases o with
        | none => exact hle
        | some e => exact hle

/-- There is no next record, or its fields cannot be read. --/
def NothingRead (file : Bytes) : Prop :=
  ∀ t p rest, nextRecord file = some (t, p, rest) → ∃ e, readEntry t (Buffer.ofBytes p) = .error e

theorem NothingRead.parse {file : Bytes} (h : NothingRead file) : parse file = ([], file) := by
  cases hrec : nextRecord file with
  | none => exact parse_of_none hrec
  | some r =>
    obtain ⟨t, p, rest⟩ := r
    obtain ⟨e, he⟩ := h t p rest hrec
    rw [Storage.parse, parseLoop, hrec]
    dsimp only
    rw [he]

/-- A record that is read is not left over. --/
theorem nothingRead_of_parse {file : Bytes} (h : (parse file).2 = file) : NothingRead file := by
  intro t p rest hrec
  cases hread : readEntry t (Buffer.ofBytes p) with
  | error e => exact ⟨e, rfl⟩
  | ok a =>
    obtain ⟨o, b⟩ := a
    have hshort : (parseLoop file.length rest).2 ≠ file := fun hsame => by
      have hle := length_parseLoop file.length rest
      have hlt := nextRecord_length hrec
      rw [hsame] at hle
      omega
    rw [parse, parseLoop, hrec] at h
    dsimp only at h
    rw [hread] at h
    cases o with
    | none => exact absurd h hshort
    | some e => exact absurd h hshort

theorem nothingRead_iff_detected (hsize : 1 + p.length + 4 < 2 ^ 32) (h : OneChanged (entryBody t p) ys) :
    NothingRead (sizeBytes p ++ ys ++ rest) ↔ Detected t p ys := by
  have hlen : ys.length = 1 + p.length + 4 := h.length_eq.trans (length_entryBody t p)
  constructor
  · intro hall
    rw [entryBody] at h
    cases h with
    | tail _ _ => exact .inl rfl
    | @head _ y _ hne =>
      by_cases hfits : 1 + p.length + 4 ≤ MAX_ENTRY_SIZE
      · exact .inr (.inr (hall y p rest (nextRecord_writeEntry hfits rest)))
      · exact .inr (.inl (Nat.lt_of_not_le hfits))
  · intro hdet t' p' rest' hrec
    obtain ⟨rfl, hp, -⟩ := body_of_nextRecord hsize hlen hrec
    obtain ⟨rfl, hne⟩ := type_of_oneChanged h hp
    rcases hdet with hhead | hlarge | hfails
    · exact absurd (Option.some.inj hhead) hne
    · exact absurd (nextRecord_eq_some hrec).2 (Nat.not_le.mpr hlarge)
    · exact hfails

/-- Replay stops behind `front`: it makes of the file what it makes of `front` alone, and leaves the other bytes. --/
def StopsBehind (st : MessageStore) (front left : Bytes) : Prop :=
  st.replay = (({ st with wal := front } : MessageStore).replay.1, ({ st with wal := front } : MessageStore).replay.2.1, left)

/-- A record behind a file that is read to its end, with one byte changed in its type, its payload or its checksum: replay
    stops there exactly if the change is detected. --/
theorem stopsBehind_iff_detected {front : Bytes} (hfront : (parse front).2 = []) (hsize : 1 + p.length + 4 < 2 ^ 32)
    (h : OneChanged (entryBody t p) ys) (st : MessageStore) (hst : st.wal = front ++ (sizeBytes p ++ ys ++ rest)) :
    StopsBehind st front (sizeBytes p ++ ys ++ rest) ↔ Detected t p ys := by
  have hiff : NothingRead (sizeBytes p ++ ys ++ rest) ↔ Detected t p ys := nothingRead_iff_detected hsize h
  have hreplay : st.replay = ((parse st.wal).1.foldl RecoveryData.apply {}, (parse st.wal).1.foldl raiseMsgId st.nextMsgId,
      (parse st.wal).2) := recoverLoop_eq _ _ _ _
  have hbefore : ({ st with wal := front } : MessageStore).replay = ((parse front).1.foldl RecoveryData.apply {},
      (parse front).1.foldl raiseMsgId st.nextMsgId, (parse front).2) := recoverLoop_eq _ _ _ _
  rw [StopsBehind, hreplay, hbefore, hst, parse_append hfront]
  constructor
  · intro hstops
    exact hiff.mp (nothingRead_of_parse (congrArg (fun r => r.2.2) hstops))
  · intro hdet
    rw [(hiff.mpr hdet).parse, List.append_nil]

end Damage

/-! A log in which a queue is declared and an exchange of the same name deleted, and the type byte of the second record
    changed from 7 to 6. --/

def declared : Bytes := (Entry.queueDeclare { name := ascii "q", durable := true, auto_delete := false }).write

def damagedType : Bytes := ENTRY_QUEUE_DELETE :: (writeString (ascii "q") ++ writeUint32 (crc32 (writeString (ascii "q"))))

def damagedStore : MessageStore := { wal := declared ++ (sizeBytes (writeString (ascii "q")) ++ damagedType ++ []) }

theorem oneChanged_damagedType : OneChanged (entryBody ENTRY_EXCHANGE_DELETE (writeString (ascii "q"))) damagedType :=
  .head _ (by decide)

/-- Replay does not stop there: it deletes the queue. --/
theorem damaged_type_applied :
    (Entry.exchangeDelete (ascii "q")).write = sizeBytes (writeString (ascii "q")) ++
      entryBody ENTRY_EXCHANGE_DELETE (writeString (ascii "q")) ∧
    OneChanged (entryBody ENTRY_EXCHANGE_DELETE (writeString (ascii "q"))) damagedType ∧
    ({ wal := declared } : MessageStore).recover.1.queues.length = 1 ∧ damagedStore.recover.1.queues.length = 0 ∧
    ¬StopsBehind damagedStore declared (sizeBytes (writeString (ascii "q")) ++ damagedType ++ []) := by
  refine ⟨rfl, oneChanged_damagedType, by decide +kernel, by decide +kernel, fun hstops => ?_⟩
  have hqueues := congrArg (fun r => r.1.queues.length) hstops
  revert hqueues
  decide +kernel

/-- The same change of a byte of the payload is detected. --/
theorem damaged_payload_stops :
    OneChanged (entryBody ENTRY_EXCHANGE_DELETE (writeString (ascii "q")))
      (ENTRY_EXCHANGE_DELETE :: (writeString (ascii "r") ++ writeUint32 (crc32 (writeString (ascii "q"))))) ∧
    StopsBehind { wal := declared ++ (sizeBytes (writeString (ascii "q")) ++
        (ENTRY_EXCHANGE_DELETE :: (writeString (ascii "r") ++ writeUint32 (crc32 (writeString (ascii "q"))))) ++ []) } declared
      (sizeBytes (writeString (ascii "q")) ++
        (ENTRY_EXCHANGE_DELETE :: (writeString (ascii "r") ++ writeUint32 (crc32 (writeString (ascii "q"))))) ++ []) := by
  have hchange : OneChanged (entryBody ENTRY_EXCHANGE_DELETE (writeString (ascii "q")))
      (ENTRY_EXCHANGE_DELETE :: (writeString (ascii "r") ++ writeUint32 (crc32 (writeString (ascii "q"))))) :=
    .tail _ (.tail _ (.tail _ (.tail _ (.tail _ (.head _ (by decide))))))
  exact ⟨hchange, (stopsBehind_iff_detected (by decide +kernel) (by decide) hchange _ rfl).mpr (.inl rfl)⟩

end Broko.Storage
