import Broko.Sdk.Types
import Broko.Theorems.Codec

/-! Field tables from the JavaScript client. The broker knows every tag that the client writes except the one for a
    `Buffer`, and it gets the value that was meant except where an integer was cut to 32 bits or a lone surrogate was
    replaced. -/

namespace Broko.Sdk
open Amqp Reader

/-! ### What the broker receives -/

mutual

/-- The value that the broker reads; none where it throws. --/
def received : JsValue → Option FieldValue
  | .null => some .voidVal
  | .boolean v => some (.boolean v)
  | .bigint v => some (.longLongUint (UInt64.ofNat v.toNat))
  | .number bits =>
    match integerOf bits with
    | some n => some (.longInt (Int32.ofInt n))
    | none => some (.doubleVal bits)
  | .string v => some (.longString (bufferFrom v))
  | .buffer _ => none
  | .array a => (receivedElements a).map .array
  | .object t => (receivedEntries t []).map .table

/-- The entries on top of those read so far. --/
def receivedEntries : JsTable → FieldTable → Option FieldTable
  | [], table => some table
  | (name, value) :: rest, table =>
    (received value).bind fun val => receivedEntries rest (FieldTable.emplace (bufferFrom name) val table)

def receivedElements : List JsValue → Option FieldArray
  | [] => some []
  | e :: rest => (received e).bind fun val => (receivedElements rest).map (val :: ·)

end

theorem writeShort_eq (buf : Bytes) : writeShort buf = Amqp.writeShortString buf := rfl

theorem writeSized_eq_some {buf bs : Bytes} (h : writeSized buf = some bs) :
    buf.length < 2 ^ 32 ∧ bs = writeUint32 (UInt32.ofNat buf.length) ++ buf := by
  rw [writeSized, writeUInt32] at h
  split at h
  · rename_i hlen
    exact ⟨hlen, (Option.some.inj h).symm⟩
  · cases h

theorem length_writeSized {buf bs : Bytes} (h : writeSized buf = some bs) : bs.length = 4 + buf.length := by
  obtain ⟨-, rfl⟩ := writeSized_eq_some h
  simp

/-- A tag byte in front of something that is read on. --/
theorem gives_tagged {fuel depth : Nat} {c : Char} {bs : Bytes} {o : Option FieldValue} {x : Read FieldValue}
    (h : ∀ b b', readUint8 b = .ok (tagByte c, b') → readFieldValueLoop (fuel + 1) depth b = x b') (hx : Gives x bs o) :
    Gives (readFieldValueLoop (fuel + 1) depth) (tagByte c :: bs) o := by
  intro pos rest
  have hread : readFieldValueLoop (fuel + 1) depth ⟨pos, (tagByte c :: bs) ++ rest⟩ = x ⟨pos + 1, bs ++ rest⟩ :=
    h _ _ (reads_uint8 (tagByte c) pos (bs ++ rest))
  have hlen : pos + (tagByte c :: bs).length = pos + 1 + bs.length := by
    rw [List.length_cons]
    omega
  rw [hlen, hread]
  exact hx (pos + 1) rest

theorem gives_fieldTableLoop {fuel depth : Nat} {inner : Bytes} {o : Option FieldTable}
    (hd : depth ≤ MAX_FIELD_TABLE_DEPTH) (hlen : inner.length < 2 ^ 32)
    (h : ∀ pos rest, Answers (readFieldEntries fuel depth (pos + inner.length) [] ⟨pos, inner ++ rest⟩)
      ⟨pos + inner.length, rest⟩ o) :
    Gives (readFieldTableLoop (fuel + 1) depth) (writeUint32 (UInt32.ofNat inner.length) ++ inner) o := by
  rw [readFieldTableLoop, if_neg (by omega)]
  refine Gives.bind (reads_uint32 _) fun pos rest => ?_
  rw [UInt32.toNat_ofNat_of_lt' hlen]
  exact h pos rest

theorem gives_fieldArrayLoop {fuel depth : Nat} {inner : Bytes} {o : Option FieldArray}
    (hd : depth ≤ MAX_FIELD_TABLE_DEPTH) (hlen : inner.length < 2 ^ 32)
    (h : ∀ pos rest, Answers (readFieldElements fuel depth (pos + inner.length) [] ⟨pos, inner ++ rest⟩)
      ⟨pos + inner.length, rest⟩ o) :
    Gives (readFieldArrayLoop (fuel + 1) depth) (writeUint32 (UInt32.ofNat inner.length) ++ inner) o := by
  rw [readFieldArrayLoop, if_neg (by omega)]
  refine Gives.bind (reads_uint32 _) fun pos rest => ?_
  rw [UInt32.toNat_ofNat_of_lt' hlen]
  exact h pos rest

theorem writeFieldValue_pos {v : JsValue} {bs : Bytes} (h : writeFieldValue v = some bs) : 0 < bs.length := by
  have hcons : ∀ {tag : UInt8} {o : Option Bytes}, o.map (tag :: ·) = some bs → 0 < bs.length := by
    intro tag o ho
    obtain ⟨cs, -, rfl⟩ := Option.map_eq_some_iff.mp ho
    exact Nat.succ_pos _
  cases v with
  | null => exact Option.some.inj h ▸ Nat.succ_pos _
  | boolean v => exact Option.some.inj h ▸ Nat.succ_pos _
  | bigint v => exact hcons h
  | number bits =>
    rw [writeFieldValue] at h
    split at h <;> exact Option.some.inj h ▸ Nat.succ_pos _
  | string v => exact hcons h
  | buffer v => exact hcons h
  | array a =>
    obtain ⟨inner, -, h⟩ := Option.bind_eq_some_iff.mp h
    exact hcons h
  | object t =>
    obtain ⟨inner, -, h⟩ := Option.bind_eq_some_iff.mp h
    exact hcons h

mutual

/-- The broker reads a value as `received` says, or throws. --/
theorem gives_fieldValue {depth : Nat} : ∀ (v : JsValue) (fuel : Nat) (bs : Bytes), v.Admissible depth →
    writeFieldValue v = some bs → bs.length < fuel → Gives (readFieldValueLoop fuel depth) bs (received v)
  | _, 0, _, _, _, hf => by omega
  | .null, fuel + 1, bs, _, hw, _ => by
    obtain rfl := Option.some.inj hw
    refine gives_tagged (fun b b' h => ?_) (Reads.pure _).gives
    rw [readFieldValueLoop, bind_eq_of_ok h]
    rfl
  | .boolean v, fuel + 1, bs, _, hw, _ => by
    obtain rfl := Option.some.inj hw
    have hread := (reads_uint8 (if v then 1 else 0)).map (g := fun x => FieldValue.boolean (x != 0))
    refine gives_tagged (fun b b' h => ?_) (o := some (.boolean v))
      (x := readUint8 >>= fun x => pure (.boolean (x != 0))) ?_
    · rw [readFieldValueLoop, bind_eq_of_ok h]
      rfl
    · cases v <;> exact hread.gives
  | .bigint v, fuel + 1, bs, _, hw, _ => by
    obtain ⟨cs, hcs, rfl⟩ := Option.map_eq_some_iff.mp hw
    rw [writeUInt64] at hcs
    split at hcs
    · obtain rfl := Option.some.inj hcs
      refine gives_tagged (fun b b' h => ?_) (reads_uint64 _).map.gives
      rw [readFieldValueLoop, bind_eq_of_ok h]
      rfl
    · cases hcs
  | .number bits, fuel + 1, bs, _, hw, _ => by
    rw [writeFieldValue] at hw
    split at hw
    · rename_i n hn
      obtain rfl := Option.some.inj hw
      rw [received, hn]
      refine gives_tagged (fun b b' h => ?_) (reads_int32 _).map.gives
      rw [readFieldValueLoop, bind_eq_of_ok h]
      rfl
    · rename_i hn
      obtain rfl := Option.some.inj hw
      rw [received, hn]
      refine gives_tagged (fun b b' h => ?_) (reads_uint64 _).map.gives
      rw [readFieldValueLoop, bind_eq_of_ok h]
      rfl
  | .string v, fuel + 1, bs, _, hw, _ => by
    obtain ⟨cs, hcs, rfl⟩ := Option.map_eq_some_iff.mp hw
    obtain ⟨hlen, rfl⟩ := writeSized_eq_some hcs
    refine gives_tagged (fun b b' h => ?_) (reads_longString hlen).map.gives
    rw [readFieldValueLoop, bind_eq_of_ok h]
    rfl
  | .buffer v, fuel + 1, bs, _, hw, _ => by
    obtain ⟨cs, hcs, rfl⟩ := Option.map_eq_some_iff.mp hw
    -- the broker has no case for this tag
    refine gives_tagged (x := throw (.unknownFieldType (tagByte 'x'))) (fun b b' h => ?_) fun pos rest => ⟨_, rfl⟩
    rw [readFieldValueLoop, bind_eq_of_ok h]
    rfl
  | .array a, fuel + 1, bs, hadm, hw, hf => by
    obtain ⟨hd, hadm⟩ := hadm
    obtain ⟨inner, hinner, hw⟩ := Option.bind_eq_some_iff.mp hw
    obtain ⟨cs, hcs, rfl⟩ := Option.map_eq_some_iff.mp hw
    have hsize := length_writeSized hcs
    obtain ⟨hlen, rfl⟩ := writeSized_eq_some hcs
    rw [List.length_cons, hsize] at hf
    obtain ⟨fuel, rfl⟩ : ∃ n, fuel = n + 1 := ⟨fuel - 1, by omega⟩
    have hloop := gives_fieldArrayLoop hd hlen
      (gives_fieldElements a fuel inner hadm hinner (by omega) [])
    refine gives_tagged (fun b b' h => ?_) (o := received (.array a))
      (x := readFieldArrayLoop (fuel + 1) depth >>= fun x => pure (.array x)) ?_
    · rw [readFieldValueLoop, bind_eq_of_ok h]
      rfl
    · have hmap := hloop.map (g := FieldValue.array)
      simpa [received] using hmap
  | .object t, fuel + 1, bs, hadm, hw, hf => by
    obtain ⟨hd, hadm⟩ := hadm
    obtain ⟨inner, hinner, hw⟩ := Option.bind_eq_some_iff.mp hw
    obtain ⟨cs, hcs, rfl⟩ := Option.map_eq_some_iff.mp hw
    have hsize := length_writeSized hcs
    obtain ⟨hlen, rfl⟩ := writeSized_eq_some hcs
    rw [List.length_cons, hsize] at hf
    obtain ⟨fuel, rfl⟩ : ∃ n, fuel = n + 1 := ⟨fuel - 1, by omega⟩
    have hloop := gives_fieldTableLoop hd hlen (gives_fieldEntries t fuel inner hadm hinner (by omega) [])
    refine gives_tagged (fun b b' h => ?_) (o := received (.object t))
      (x := readFieldTableLoop (fuel + 1) (depth + 1) >>= fun x => pure (.table x)) ?_
    · rw [readFieldValueLoop, bind_eq_of_ok h]
      rfl
    · exact hloop.map

theorem gives_fieldEntries {depth : Nat} : ∀ (t : JsTable) (fuel : Nat) (bs : Bytes), entriesAdmissible depth t →
    writeFieldEntries t = some bs → bs.length < fuel → ∀ (table : FieldTable) (pos : Nat) (rest : Bytes),
    Answers (readFieldEntries fuel depth (pos + bs.length) table ⟨pos, bs ++ rest⟩) ⟨pos + bs.length, rest⟩
      (receivedEntries t table)
  | _, 0, _, _, _, hf => by omega
  | [], fuel + 1, bs, _, hw, _ => by
    intro table pos rest
    obtain rfl := Option.some.inj hw
    rw [readFieldEntries_of_le (by simp)]
    rfl
  | (name, value) :: t, fuel + 1, bs, hadm, hw, hf => by
    intro table pos rest
    obtain ⟨hname, hvalue, -, ht⟩ := hadm
    obtain ⟨v, hv, hw⟩ := Option.bind_eq_some_iff.mp hw
    obtain ⟨more, hmore, rfl⟩ := Option.map_eq_some_iff.mp hw
    have hnpos := length_writeShortString_pos (bufferFrom name)
    have hvpos := writeFieldValue_pos hv
    rw [writeShort_eq] at hf ⊢
    rw [List.length_append, List.length_append] at hf ⊢
    have hfin : pos + ((Amqp.writeShortString (bufferFrom name)).length + (v.length + more.length)) =
        pos + (Amqp.writeShortString (bufferFrom name)).length + v.length + more.length := by omega
    rw [readFieldEntries_of_lt (by show pos < _; omega), List.append_assoc, List.append_assoc,
      bind_eq_of_ok (reads_shortString hname pos _), hfin, receivedEntries]
    refine answers_bind (gives_fieldValue value fuel v hvalue hv (by omega) _ _) (fun val hval => ?_) (fun h => ?_)
    · rw [hval]
      exact gives_fieldEntries t fuel more ht hmore (by omega) _ _ rest
    · rw [h]
      rfl

theorem gives_fieldElements {depth : Nat} : ∀ (a : List JsValue) (fuel : Nat) (bs : Bytes),
    elementsAdmissible (depth + 1) a → writeFieldElements a = some bs → bs.length + 1 < fuel →
    ∀ (arr : FieldArray) (pos : Nat) (rest : Bytes),
    Answers (readFieldElements fuel depth (pos + bs.length) arr ⟨pos, bs ++ rest⟩) ⟨pos + bs.length, rest⟩
      ((receivedElements a).map (arr ++ ·))
  | _, 0, _, _, _, hf => by omega
  | [], fuel + 1, bs, _, hw, _ => by
    intro arr pos rest
    obtain rfl := Option.some.inj hw
    rw [readFieldElements_of_le (by simp)]
    simp [receivedElements, Answers]
  | e :: a, fuel + 1, bs, hadm, hw, hf => by
    intro arr pos rest
    obtain ⟨he, ha⟩ := hadm
    obtain ⟨v, hv, hw⟩ := Option.bind_eq_some_iff.mp hw
    obtain ⟨more, hmore, rfl⟩ := Option.map_eq_some_iff.mp hw
    have hvpos := writeFieldValue_pos hv
    rw [List.length_append] at hf ⊢
    have hfin : pos + (v.length + more.length) = pos + v.length + more.length := by omega
    rw [readFieldElements_of_lt (by show pos < _; omega), List.append_assoc, hfin, receivedElements]
    refine answers_bind (gives_fieldValue e fuel v he hv (by omega) _ _) (fun val hval => ?_) (fun h => ?_)
    · have hrest := gives_fieldElements a fuel more ha hmore (by omega) (arr ++ [val]) (pos + v.length) rest
      rw [hval]
      simpa [Option.map_map, Function.comp_def] using hrest
    · rw [h]
      rfl

end

/-! ### Buffers -/

mutual

theorem received_isNone : ∀ v : JsValue, (received v).isNone = v.hasBuffer
  | .null => rfl
  | .boolean _ => rfl
  | .bigint _ => rfl
  | .number bits => by
    rw [received]
    split <;> rfl
  | .string _ => rfl
  | .buffer _ => rfl
  | .array a => by
    rw [received, Option.isNone_map, receivedElements_isNone a, JsValue.hasBuffer]
  | .object t => by
    rw [received, Option.isNone_map, receivedEntries_isNone t [], JsValue.hasBuffer]

theorem receivedEntries_isNone : ∀ (t : JsTable) (table : FieldTable),
    (receivedEntries t table).isNone = entriesHaveBuffer t
  | [], _ => rfl
  | (name, value) :: rest, table => by
    have hvalue := received_isNone value
    rw [receivedEntries, entriesHaveBuffer, ← hvalue]
    cases received value with
    | none => rfl
    | some val => exact receivedEntries_isNone rest _

theorem receivedElements_isNone : ∀ a : List JsValue, (receivedElements a).isNone = elementsHaveBuffer a
  | [] => rfl
  | e :: rest => by
    have he := received_isNone e
    have hrest := receivedElements_isNone rest
    rw [receivedElements, elementsHaveBuffer, ← he, ← hrest]
    cases received e with
    | none => rfl
    | some val => exact Option.isNone_map

end

/-! ### Data -/

/-- Keys rise, as in the iteration of a map. --/
def Sorted (t : FieldTable) : Prop := t.Pairwise fun a b => a.1 < b.1

theorem fieldEntryData_cons (name : Bytes) (val : FieldValue) (t : FieldTable) (key : Text) :
    fieldEntryData ((name, val) :: t) key = if key = .bytes name then some (fieldDatum val) else fieldEntryData t key := rfl

theorem entryData_cons (name : JsString) (value : JsValue) (t : JsTable) (key : Text) :
    entryData ((name, value) :: t) key = if key = textOf name then some value.datum else entryData t key := rfl

theorem fieldEntryData_eq_none {t : FieldTable} {name : Bytes} (h : ∀ e ∈ t, e.1 ≠ name) :
    fieldEntryData t (.bytes name) = none := by
  induction t with
  | nil => rfl
  | cons e t ih =>
    obtain ⟨n, val⟩ := e
    have hne : Text.bytes name ≠ .bytes n := fun heq => h _ List.mem_cons_self (Text.bytes.inj heq).symm
    rw [fieldEntryData_cons, if_neg hne]
    exact ih fun e he => h e (List.mem_cons_of_mem _ he)

theorem sorted_emplace {t : FieldTable} (h : Sorted t) (name : Bytes) (val : FieldValue) :
    Sorted (FieldTable.emplace name val t) := by
  induction t with
  | nil => exact List.pairwise_singleton _ _
  | cons e t ih =>
    obtain ⟨n, v⟩ := e
    obtain ⟨hn, ht⟩ := List.pairwise_cons.mp h
    rw [FieldTable.emplace]
    split
    · rename_i hlt
      refine List.pairwise_cons.mpr ⟨fun a ha => ?_, h⟩
      rcases List.mem_cons.mp ha with rfl | ha
      · exact hlt
      · exact List.lt_trans hlt (hn a ha)
    · split
      · rename_i hlt
        refine List.pairwise_cons.mpr ⟨fun a ha => ?_, ih ht⟩
        rcases mem_emplace ha with rfl | ha
        · exact hlt
        · exact hn a ha
      · exact h

/-- An entry that is there stays; a new one adds its own key. --/
theorem fieldEntryData_emplace {t : FieldTable} (h : Sorted t) (name : Bytes) (val : FieldValue) (key : Text) :
    fieldEntryData (FieldTable.emplace name val t) key =
      (fieldEntryData t key).or (if key = .bytes name then some (fieldDatum val) else none) := by
  induction t with
  | nil => rfl
  | cons e t ih =>
    obtain ⟨n, v⟩ := e
    obtain ⟨hn, ht⟩ := List.pairwise_cons.mp h
    rw [FieldTable.emplace]
    split
    · rename_i hlt
      rw [fieldEntryData_cons]
      by_cases heq : key = .bytes name
      · have hnone : fieldEntryData ((n, v) :: t) key = none := by
          rw [heq]
          refine fieldEntryData_eq_none fun a ha hkey => ?_
          have hlt' : name < a.1 := by
            rcases List.mem_cons.mp ha with rfl | ha
            · exact hlt
            · exact List.lt_trans hlt (hn a ha)
          rw [hkey] at hlt'
          exact List.lt_irrefl _ hlt'
        rw [if_pos heq, hnone, if_pos heq, Option.none_or]
      · rw [if_neg heq, if_neg heq, Option.or_none]
    · split
      · rw [fieldEntryData_cons, fieldEntryData_cons]
        by_cases heq : key = .bytes n
        · rw [if_pos heq, if_pos heq, Option.some_or]
        · rw [if_neg heq, if_neg heq]
          exact ih ht
      · rename_i hge hle
        obtain rfl : n = name := List.le_antisymm hge hle
        rw [fieldEntryData_cons]
        by_cases heq : key = .bytes n
        · rw [if_pos heq, Option.some_or]
        · rw [if_neg heq, if_neg heq, Option.or_none]

/-- What the entries are received as, by key. --/
def receivedData : JsTable → Text → Option Datum
  | [] => fun _ => none
  | (name, value) :: rest => fun key =>
    if key = .bytes (bufferFrom name) then (received value).map fieldDatum else receivedData rest key

theorem receivedData_cons (name : JsString) (value : JsValue) (t : JsTable) (key : Text) :
    receivedData ((name, value) :: t) key =
      if key = .bytes (bufferFrom name) then (received value).map fieldDatum else receivedData t key := rfl

theorem fieldEntryData_received {t : JsTable} {table table' : FieldTable} (hs : Sorted table)
    (h : receivedEntries t table = some table') (key : Text) :
    fieldEntryData table' key = (fieldEntryData table key).or (receivedData t key) := by
  induction t generalizing table with
  | nil =>
    obtain rfl := Option.some.inj h
    exact Option.or_none.symm
  | cons e t ih =>
    obtain ⟨name, value⟩ := e
    obtain ⟨val, hval, h⟩ := Option.bind_eq_some_iff.mp h
    rw [ih (sorted_emplace hs _ _) h, fieldEntryData_emplace hs, Option.or_assoc, receivedData_cons, hval]
    split <;> rfl

/-! ### Lone surrogates -/

theorem textOf_of_wellFormed {s : JsString} (h : Utf16.wellFormed s = true) : textOf s = .bytes (bufferFrom s) := if_pos h

theorem textOf_of_lone {s : JsString} (h : Utf16.wellFormed s = false) : textOf s = .lone s := by
  rw [textOf, h, if_neg Bool.false_ne_true]

theorem textOf_eq_iff (s : JsString) : Text.bytes (bufferFrom s) = textOf s ↔ Utf16.wellFormed s = true := by
  cases h : Utf16.wellFormed s with
  | true => exact iff_of_true (textOf_of_wellFormed h).symm rfl
  | false =>
    rw [textOf_of_lone h]
    exact iff_of_false (by simp) Bool.false_ne_true

theorem bufferFrom_eq_encode (s : JsString) : bufferFrom s = Utf8.encode (String.ofList (Utf16.chars s)) := by
  rw [bufferFrom, Utf8.encode, String.toList_ofList]

theorem textOf_injective : Function.Injective textOf := by
  intro s s' h
  cases hs : Utf16.wellFormed s with
  | false =>
    rw [textOf_of_lone hs] at h
    cases hs' : Utf16.wellFormed s' with
    | false => exact Text.lone.inj (h.trans (textOf_of_lone hs'))
    | true => cases h.trans (textOf_of_wellFormed hs')
  | true =>
    rw [textOf_of_wellFormed hs] at h
    cases hs' : Utf16.wellFormed s' with
    | false => cases h.trans (textOf_of_lone hs')
    | true =>
      have hbytes := Text.bytes.inj (h.trans (textOf_of_wellFormed hs'))
      rw [bufferFrom_eq_encode, bufferFrom_eq_encode] at hbytes
      exact (Utf16.chars_inj hs hs').mp (String.ofList_injective (Utf8.encode_injective hbytes))

/-- The broker gets no key with a lone surrogate. --/
theorem receivedData_lone (t : JsTable) (s : JsString) : receivedData t (.lone s) = none := by
  induction t with
  | nil => rfl
  | cons e t ih =>
    obtain ⟨name, value⟩ := e
    rw [receivedData_cons, if_neg (by simp), ih]

theorem entryData_isSome {t : JsTable} {e : JsString × JsValue} (h : e ∈ t) : (entryData t (textOf e.1)).isSome = true := by
  induction t with
  | nil => cases h
  | cons e' t ih =>
    obtain ⟨name, value⟩ := e'
    rw [entryData_cons]
    split
    · rfl
    · rename_i hne
      rcases List.mem_cons.mp h with rfl | h
      · exact absurd rfl hne
      · exact ih h

/-- Where the keys that are received are those that were meant, no key has a lone surrogate. --/
theorem wellFormed_of_data {t : JsTable} (h : receivedData t = entryData t) : ∀ e ∈ t, Utf16.wellFormed e.1 = true := by
  intro e he
  by_contra hlone
  rw [Bool.not_eq_true] at hlone
  have hsome := entryData_isSome he
  rw [← h, textOf_of_lone hlone, receivedData_lone] at hsome
  cases hsome

theorem entryData_eq_none {t : JsTable} {name : JsString} (h : ∀ e ∈ t, e.1 ≠ name) : entryData t (textOf name) = none := by
  induction t with
  | nil => rfl
  | cons e t ih =>
    obtain ⟨n, v⟩ := e
    have hne : textOf name ≠ textOf n := fun heq => h _ List.mem_cons_self (textOf_injective heq).symm
    rw [entryData_cons, if_neg hne]
    exact ih fun e he => h e (List.mem_cons_of_mem _ he)

theorem receivedData_eq_none {t : JsTable} {name : JsString} (ht : ∀ e ∈ t, Utf16.wellFormed e.1 = true)
    (h : ∀ e ∈ t, e.1 ≠ name) : receivedData t (textOf name) = none := by
  induction t with
  | nil => rfl
  | cons e t ih =>
    obtain ⟨n, v⟩ := e
    have hne : textOf name ≠ textOf n := fun heq => h _ List.mem_cons_self (textOf_injective heq).symm
    rw [receivedData_cons, (textOf_eq_iff n).mpr (ht _ List.mem_cons_self), if_neg hne]
    exact ih (fun e he => ht e (List.mem_cons_of_mem _ he)) fun e he => h e (List.mem_cons_of_mem _ he)

theorem datum_number (bits : UInt64) {f : FieldValue} (h : received (.number bits) = some f) :
    fieldDatum f = (JsValue.number bits).datum ↔ inInt32 bits = true := by
  rw [received] at h
  rw [JsValue.datum, inInt32]
  split at h
  · rename_i n hn
    obtain rfl := Option.some.inj h
    have hcut : (Int32.ofInt n).toInt = n ↔ -2 ^ 31 ≤ n ∧ n < 2 ^ 31 := by
      constructor
      · intro heq
        have hle := Int32.le_toInt (Int32.ofInt n)
        have hlt := Int32.toInt_lt (Int32.ofInt n)
        rw [heq] at hle hlt
        exact ⟨hle, hlt⟩
      · rintro ⟨hle, hlt⟩
        exact Int32.toInt_ofInt_of_le hle hlt
    simpa [hn, fieldDatum] using hcut
  · rename_i hn
    obtain rfl := Option.some.inj h
    simp [hn, fieldDatum]

mutual

/-- The value arrives as it was meant exactly when no integer in it is cut and no surrogate replaced. --/
theorem datum_received {depth : Nat} : ∀ (v : JsValue) (f : FieldValue) (bs : Bytes), v.Admissible depth →
    writeFieldValue v = some bs → received v = some f →
    (fieldDatum f = v.datum ↔ v.inRange = true ∧ v.isText = true)
  | .null, f, _, _, _, h => by
    obtain rfl := Option.some.inj h
    exact iff_of_true rfl ⟨rfl, rfl⟩
  | .boolean v, f, _, _, _, h => by
    obtain rfl := Option.some.inj h
    exact iff_of_true rfl ⟨rfl, rfl⟩
  | .bigint v, f, _, _, hw, h => by
    obtain rfl := Option.some.inj h
    obtain ⟨cs, hcs, -⟩ := Option.map_eq_some_iff.mp hw
    rw [writeUInt64] at hcs
    split at hcs
    · rename_i hv
      have hlt : v.toNat < 2 ^ 64 := by omega
      refine iff_of_true ?_ ⟨rfl, rfl⟩
      rw [fieldDatum, JsValue.datum, UInt64.toNat_ofNat_of_lt' hlt, Int.toNat_of_nonneg hv.1]
    · cases hcs
  | .number bits, f, _, _, _, h => (datum_number bits h).trans (and_iff_left rfl).symm
  | .string v, f, _, _, _, h => by
    obtain rfl := Option.some.inj h
    rw [fieldDatum, JsValue.datum, Datum.text.injEq, JsValue.isText, textOf_eq_iff]
    exact (and_iff_right rfl).symm
  | .buffer _, f, _, _, _, h => by cases h
  | .array a, f, bs, hadm, hw, h => by
    obtain ⟨inner, hinner, -⟩ := Option.bind_eq_some_iff.mp hw
    obtain ⟨a', ha', rfl⟩ := Option.map_eq_some_iff.mp h
    have ih := data_receivedElements a a' inner hadm.2 hinner ha'
    rw [fieldDatum, JsValue.datum, Datum.array.injEq, JsValue.inRange, JsValue.isText]
    exact ih
  | .object t, f, bs, hadm, hw, h => by
    obtain ⟨inner, hinner, -⟩ := Option.bind_eq_some_iff.mp hw
    obtain ⟨t', ht', rfl⟩ := Option.map_eq_some_iff.mp h
    have hnone := receivedEntries_isNone t []
    rw [ht'] at hnone
    have ih := data_receivedEntries t inner hadm.2 hinner hnone.symm
    have hdata : fieldEntryData t' = receivedData t := funext fun key =>
      fieldEntryData_received List.Pairwise.nil ht' key
    rw [fieldDatum, JsValue.datum, Datum.table.injEq, JsValue.inRange, JsValue.isText, hdata]
    exact ih

theorem data_receivedEntries {depth : Nat} : ∀ (t : JsTable) (bs : Bytes), entriesAdmissible depth t →
    writeFieldEntries t = some bs → entriesHaveBuffer t = false →
    (receivedData t = entryData t ↔ entriesInRange t = true ∧ entriesAreText t = true)
  | [], _, _, _, _ => iff_of_true rfl ⟨rfl, rfl⟩
  | (name, value) :: t, bs, hadm, hw, hb => by
    obtain ⟨-, hvalue, hdistinct, ht⟩ := hadm
    obtain ⟨v, hv, hw⟩ := Option.bind_eq_some_iff.mp hw
    obtain ⟨more, hmore, rfl⟩ := Option.map_eq_some_iff.mp hw
    rw [entriesHaveBuffer, Bool.or_eq_false_iff] at hb
    obtain ⟨hbv, hbt⟩ := hb
    obtain ⟨f, hf⟩ : ∃ f, received value = some f := by
      have hnone := received_isNone value
      rw [hbv] at hnone
      exact Option.isSome_iff_exists.mp (by simpa using hnone)
    have ihv := datum_received value f v hvalue hv hf
    have iht := data_receivedEntries t more ht hmore hbt
    rw [entriesInRange, entriesAreText, Bool.and_eq_true, Bool.and_eq_true, Bool.and_eq_true]
    have hparts : receivedData ((name, value) :: t) = entryData ((name, value) :: t) ↔
        Utf16.wellFormed name = true ∧ fieldDatum f = value.datum ∧ receivedData t = entryData t := by
      constructor
      · intro h
        have hnames := wellFormed_of_data h
        have hname := hnames (name, value) List.mem_cons_self
        refine ⟨hname, ?_, funext fun key => ?_⟩
        · have hkey := congrFun h (textOf name)
          simpa [receivedData_cons, entryData_cons, hf, (textOf_eq_iff name).mpr hname] using hkey
        · by_cases hkey : key = textOf name
          · have hrest : ∀ e ∈ t, Utf16.wellFormed e.1 = true := fun e he => hnames e (List.mem_cons_of_mem _ he)
            rw [hkey, receivedData_eq_none hrest hdistinct, entryData_eq_none hdistinct]
          · have hat := congrFun h key
            simpa [receivedData_cons, entryData_cons, (textOf_eq_iff name).mpr hname, hkey] using hat
      · rintro ⟨hname, hdatum, hrest⟩
        funext key
        rw [receivedData_cons, entryData_cons, (textOf_eq_iff name).mpr hname, hf, hrest, ← hdatum]
        rfl
    rw [hparts, ihv, iht]
    tauto

theorem data_receivedElements {depth : Nat} : ∀ (a : List JsValue) (a' : FieldArray) (bs : Bytes),
    elementsAdmissible depth a → writeFieldElements a = some bs → receivedElements a = some a' →
    (fieldElementData a' = elementData a ↔ elementsInRange a = true ∧ elementsAreText a = true)
  | [], _, _, _, _, h => by
    obtain rfl := Option.some.inj h
    exact iff_of_true rfl ⟨rfl, rfl⟩
  | e :: a, a', bs, hadm, hw, h => by
    obtain ⟨v, hv, hw⟩ := Option.bind_eq_some_iff.mp hw
    obtain ⟨more, hmore, rfl⟩ := Option.map_eq_some_iff.mp hw
    obtain ⟨f, hf, h⟩ := Option.bind_eq_some_iff.mp h
    obtain ⟨rest, hrest, rfl⟩ := Option.map_eq_some_iff.mp h
    have ihe := datum_received e f v hadm.1 hv hf
    have iha := data_receivedElements a rest more hadm.2 hmore hrest
    rw [fieldElementData, elementData, List.cons.injEq, elementsInRange, elementsAreText, Bool.and_eq_true,
      Bool.and_eq_true, ihe, iha, and_and_and_comm]

end

/-! ### Tables -/

theorem gives_fieldTable {t : JsTable} {bs : Bytes} (hadm : entriesAdmissible 0 t) (hw : writeFieldTable t = some bs) :
    Answers (readFieldTable 0 (Buffer.ofBytes bs)) ⟨bs.length, []⟩ (receivedEntries t []) := by
  obtain ⟨inner, hinner, hw⟩ := Option.bind_eq_some_iff.mp hw
  have hsize := length_writeSized hw
  obtain ⟨hlen, rfl⟩ := writeSized_eq_some hw
  have hentries := gives_fieldEntries t (writeUint32 (UInt32.ofNat inner.length) ++ inner).length inner hadm hinner
    (by omega) []
  have hloop := gives_fieldTableLoop (Nat.zero_le _) hlen hentries 0 []
  rw [List.append_nil, Nat.zero_add] at hloop
  exact hloop

/-- The broker reads the table that the client has written, up to its last byte and with the values that were meant,
    exactly when the table has no `Buffer` in it, no integer that does not fit 32 bits and no lone surrogate. --/
theorem tables_agree_iff {t : JsTable} {bs : Bytes} (hadm : entriesAdmissible 0 t) (hw : writeFieldTable t = some bs) :
    (∃ table, readFieldTable 0 (Buffer.ofBytes bs) = .ok (table, ⟨bs.length, []⟩) ∧ fieldEntryData table = entryData t) ↔
      entriesHaveBuffer t = false ∧ entriesInRange t = true ∧ entriesAreText t = true := by
  have hread := gives_fieldTable hadm hw
  have hnone := receivedEntries_isNone t []
  obtain ⟨inner, hinner, -⟩ := Option.bind_eq_some_iff.mp hw
  cases hr : receivedEntries t [] with
  | none =>
    rw [hr] at hread hnone
    obtain ⟨e, he⟩ := hread
    refine iff_of_false ?_ fun h => ?_
    · rintro ⟨table, hok, -⟩
      rw [he] at hok
      cases hok
    · rw [h.1] at hnone
      cases hnone
  | some table =>
    rw [hr] at hread hnone
    have hdata : fieldEntryData table = receivedData t := funext fun key =>
      fieldEntryData_received List.Pairwise.nil hr key
    have hiff := data_receivedEntries t inner hadm hinner hnone.symm
    constructor
    · rintro ⟨table', hok, heq⟩
      obtain rfl : table' = table := congrArg Prod.fst (Except.ok.inj (hok.symm.trans hread))
      exact ⟨hnone.symm, hiff.mp (hdata.symm.trans heq)⟩
    · rintro ⟨-, hrange⟩
      exact ⟨table, hread, hdata.trans (hiff.mpr hrange)⟩

/-- The number 5 and a nested array, with a key outside ASCII and a string outside the basic plane. --/
def nestedTable : JsTable :=
  [(text "é", .number 0x4014000000000000), (text "a", .array [.bigint 7, .string (text "x😀"), .null])]

theorem tables_agree_nested :
    ∃ bs table, writeFieldTable nestedTable = some bs ∧ readFieldTable 0 (Buffer.ofBytes bs) = .ok (table, ⟨bs.length, []⟩) ∧
      fieldEntryData table = entryData nestedTable := by
  have hadm : entriesAdmissible 0 nestedTable := by
    simp [nestedTable, entriesAdmissible, JsValue.Admissible, elementsAdmissible]
    decide +kernel
  obtain ⟨bs, hw⟩ : ∃ bs, writeFieldTable nestedTable = some bs := Option.isSome_iff_exists.mp (by decide +kernel)
  obtain ⟨table, hread, hdata⟩ := (tables_agree_iff hadm hw).mpr (by decide +kernel)
  exact ⟨bs, table, hw, hread, hdata⟩

/-- The time to live of 2^31 milliseconds, which `v | 0` makes negative, a `Buffer`, which the broker throws on, and the
    keys U+D800 and U+D801, of which the broker gets one. --/
theorem tables_disagree :
    (∃ bs, writeFieldTable [(text "x-message-ttl", .number 0x41E0000000000000)] = some bs ∧
      entryData [(text "x-message-ttl", .number 0x41E0000000000000)] (textOf (text "x-message-ttl")) =
        some (.integer (2 ^ 31)) ∧
      readFieldTable 0 (Buffer.ofBytes bs) =
        .ok ([(ascii "x-message-ttl", .longInt (-2147483648))], ⟨bs.length, []⟩)) ∧
    (∃ bs, writeFieldTable [(text "key", .buffer [1, 2])] = some bs ∧
      ∃ e, readFieldTable 0 (Buffer.ofBytes bs) = .error e) ∧
    ∃ bs, writeFieldTable [([0xD800], .null), ([0xD801], .boolean true)] = some bs ∧
      readFieldTable 0 (Buffer.ofBytes bs) = .ok ([([0xEF, 0xBF, 0xBD], .voidVal)], ⟨bs.length, []⟩) := by
  have httl : entriesAdmissible 0 [(text "x-message-ttl", .number 0x41E0000000000000)] := by
    simp [entriesAdmissible, JsValue.Admissible]
    decide +kernel
  have hkey : entriesAdmissible 0 [(text "key", .buffer [1, 2])] := by
    simp [entriesAdmissible, JsValue.Admissible]
    decide +kernel
  have hlone : entriesAdmissible 0 [([0xD800], .null), ([0xD801], .boolean true)] := by
    simp [entriesAdmissible, JsValue.Admissible]
    decide +kernel
  obtain ⟨bs₁, hbs₁⟩ : ∃ bs, writeFieldTable [(text "x-message-ttl", .number 0x41E0000000000000)] = some bs :=
    Option.isSome_iff_exists.mp (by decide +kernel)
  obtain ⟨bs₂, hbs₂⟩ : ∃ bs, writeFieldTable [(text "key", .buffer [1, 2])] = some bs :=
    Option.isSome_iff_exists.mp (by decide +kernel)
  obtain ⟨bs₃, hbs₃⟩ : ∃ bs, writeFieldTable [([0xD800], .null), ([0xD801], .boolean true)] = some bs :=
    Option.isSome_iff_exists.mp (by decide +kernel)
  exact ⟨⟨bs₁, hbs₁, rfl, gives_fieldTable httl hbs₁⟩, ⟨bs₂, hbs₂, gives_fieldTable hkey hbs₂⟩, bs₃, hbs₃,
    gives_fieldTable hlone hbs₃⟩

end Broko.Sdk
