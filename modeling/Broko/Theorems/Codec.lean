import Broko.Amqp.Content

/-! The field table codec. A value that fits the decoder (`WellFormed`) is read back from the bytes
    written for it, whatever follows them; and whatever the decoder returns fits it and is written
    again in no more bytes than were read. Lengths that a table or an array announces do not matter for
    the second half: entries that overrun them are part of the value, and of its new encoding. -/

namespace Broko.Amqp
open Reader

/-! ### Numbers and strings -/

theorem reads_bytes (bs : Bytes) : Reads (readBytes bs.length) bs bs := Reads.take rfl

theorem reads_uint8 (v : UInt8) : Reads readUint8 (writeUint8 v) v := by
  have h := (reads_bytes (writeUint8 v)).map (g := fun bs => UInt8.ofNat (BigEndian.decode bs))
  have hv : UInt8.ofNat (BigEndian.decode (writeUint8 v)) = v := by simp [writeUint8, BigEndian.decode]
  rwa [hv] at h

theorem reads_uint16 (v : UInt16) : Reads readUint16 (writeUint16 v) v := by
  have htake : Reads (readBytes 2) (writeUint16 v) (writeUint16 v) := Reads.take (BigEndian.length_encode 2 v.toNat)
  have h := htake.map (g := fun bs => UInt16.ofNat (BigEndian.decode bs))
  rw [writeUint16] at h
  rwa [BigEndian.decode_encode_of_lt (by simpa using v.toNat_lt), UInt16.ofNat_toNat] at h

theorem reads_uint32 (v : UInt32) : Reads readUint32 (writeUint32 v) v := by
  have htake : Reads (readBytes 4) (writeUint32 v) (writeUint32 v) := Reads.take (BigEndian.length_encode 4 v.toNat)
  have h := htake.map (g := fun bs => UInt32.ofNat (BigEndian.decode bs))
  rw [writeUint32] at h
  rwa [BigEndian.decode_encode_of_lt (by simpa using v.toNat_lt), UInt32.ofNat_toNat] at h

theorem reads_uint64 (v : UInt64) : Reads readUint64 (writeUint64 v) v := by
  have htake : Reads (readBytes 8) (writeUint64 v) (writeUint64 v) := Reads.take (BigEndian.length_encode 8 v.toNat)
  have h := htake.map (g := fun bs => UInt64.ofNat (BigEndian.decode bs))
  rw [writeUint64] at h
  rwa [BigEndian.decode_encode_of_lt (by simpa using v.toNat_lt), UInt64.ofNat_toNat] at h

theorem reads_int8 (v : Int8) : Reads readInt8 (writeInt8 v) v := (reads_uint8 v.toUInt8).map

theorem reads_int16 (v : Int16) : Reads readInt16 (writeInt16 v) v := (reads_uint16 v.toUInt16).map

theorem reads_int32 (v : Int32) : Reads readInt32 (writeInt32 v) v := (reads_uint32 v.toUInt32).map

theorem reads_int64 (v : Int64) : Reads readInt64 (writeInt64 v) v := (reads_uint64 v.toUInt64).map

theorem reads_shortString {s : Bytes} (h : s.length ≤ 255) : Reads readShortString (writeShortString s) s := by
  unfold writeShortString
  rw [Nat.min_eq_left h, List.take_length]
  refine (reads_uint8 _).bind ?_
  rw [UInt8.toNat_ofNat_of_lt' (by simp only [UInt8.size]; omega)]
  exact reads_bytes s

theorem reads_longString {s : Bytes} (h : s.length < 2 ^ 32) : Reads readLongString (writeLongString s) s := by
  refine (reads_uint32 _).bind ?_
  rw [UInt32.toNat_ofNat_of_lt' h]
  exact reads_bytes s

@[simp] theorem length_writeUint8 (v : UInt8) : (writeUint8 v).length = 1 := rfl
@[simp] theorem length_writeUint16 (v : UInt16) : (writeUint16 v).length = 2 := BigEndian.length_encode _ _
@[simp] theorem length_writeUint32 (v : UInt32) : (writeUint32 v).length = 4 := BigEndian.length_encode _ _
@[simp] theorem length_writeUint64 (v : UInt64) : (writeUint64 v).length = 8 := BigEndian.length_encode _ _

theorem length_writeShortString_le (s : Bytes) : (writeShortString s).length ≤ 1 + s.length := by
  simp [writeShortString]

theorem length_writeShortString_pos (s : Bytes) : 0 < (writeShortString s).length := by
  simp [writeShortString]

@[simp] theorem length_writeLongString (s : Bytes) : (writeLongString s).length = 4 + s.length := by
  simp [writeLongString]

/-! What the readers of numbers and strings accept. -/

theorem accepts_bytes (n : Nat) : Accepts (readBytes n) fun bs used => bs = used ∧ used.length = n := Accepts.take

theorem accepts_uint8 : Accepts readUint8 fun _ used => used.length = 1 := (accepts_bytes 1).map fun _ _ h => h.2
theorem accepts_uint16 : Accepts readUint16 fun _ used => used.length = 2 := (accepts_bytes 2).map fun _ _ h => h.2
theorem accepts_uint32 : Accepts readUint32 fun _ used => used.length = 4 := (accepts_bytes 4).map fun _ _ h => h.2
theorem accepts_uint64 : Accepts readUint64 fun _ used => used.length = 8 := (accepts_bytes 8).map fun _ _ h => h.2

theorem accepts_shortString :
    Accepts readShortString fun s used => s.length ≤ 255 ∧ used.length = 1 + s.length :=
  accepts_uint8.bind fun len used hu => (accepts_bytes len.toNat).mono fun s more hs => by
    have := len.toNat_lt
    rw [List.length_append, hu, hs.1, hs.2]
    omega

theorem accepts_longString : Accepts readLongString fun s used => used.length = 4 + s.length :=
  accepts_uint32.bind fun len used hu => (accepts_bytes len.toNat).mono fun s more hs => by
    rw [List.length_append, hu, hs.1]

/-! ### Values that fit the decoder -/

mutual

/-- A value that the decoder can return at `depth`: short strings and names fit their length byte, the
    keys of a table ascend, and tables and arrays do not nest too deeply. -/
def FieldValue.WellFormed (depth : Nat) : FieldValue → Prop
  | .shortString v => v.length ≤ 255
  | .table t => depth + 1 ≤ MAX_FIELD_TABLE_DEPTH ∧ entriesWellFormed (depth + 1) t
  | .array a => depth ≤ MAX_FIELD_TABLE_DEPTH ∧ elementsWellFormed (depth + 1) a
  | _ => True

def entriesWellFormed (depth : Nat) : FieldTable → Prop
  | [] => True
  | (name, val) :: rest =>
    name.length ≤ 255 ∧ val.WellFormed depth ∧ (∀ e ∈ rest, name < e.1) ∧ entriesWellFormed depth rest

def elementsWellFormed (depth : Nat) : FieldArray → Prop
  | [] => True
  | elem :: rest => elem.WellFormed depth ∧ elementsWellFormed depth rest

end

theorem writeFieldValue_pos (v : FieldValue) : 0 < (writeFieldValue v).length := by
  cases v <;> simp [writeFieldValue]

/-- A key above all keys of the table goes to its end. --/
theorem emplace_of_lt {name : Bytes} {val : FieldValue} {t : FieldTable} (h : ∀ e ∈ t, e.1 < name) :
    FieldTable.emplace name val t = t ++ [(name, val)] := by
  induction t with
  | nil => rfl
  | cons e t ih =>
    obtain ⟨n, v⟩ := e
    have hn : n < name := h (n, v) List.mem_cons_self
    rw [FieldTable.emplace, if_neg (List.lt_asymm hn), if_pos hn, ih fun e he => h e (List.mem_cons_of_mem _ he)]
    rfl

/-! ### The loops -/

section Loops
variable {fuel depth finish : Nat} {b : Buffer}

theorem readFieldEntries_of_lt {table : FieldTable} (h : b.position < finish) :
    readFieldEntries (fuel + 1) depth finish table b = (readShortString >>= fun name =>
      readFieldValueLoop fuel depth >>= fun val =>
        readFieldEntries fuel depth finish (FieldTable.emplace name val table)) b := by
  rw [readFieldEntries, bind_apply]
  show (if b.position < finish then _ else _ : Read FieldTable) b = _
  rw [if_pos h]

theorem readFieldEntries_of_le {table : FieldTable} (h : finish ≤ b.position) :
    readFieldEntries (fuel + 1) depth finish table b = .ok (table, b) := by
  rw [readFieldEntries, bind_apply]
  show (if b.position < finish then _ else _ : Read FieldTable) b = _
  rw [if_neg (by omega), pure_apply]

theorem readFieldElements_of_lt {arr : FieldArray} (h : b.position < finish) :
    readFieldElements (fuel + 1) depth finish arr b = (readFieldValueLoop fuel (depth + 1) >>= fun val =>
      readFieldElements fuel depth finish (arr ++ [val])) b := by
  rw [readFieldElements, bind_apply]
  show (if b.position < finish then _ else _ : Read FieldArray) b = _
  rw [if_pos h]

theorem readFieldElements_of_le {arr : FieldArray} (h : finish ≤ b.position) :
    readFieldElements (fuel + 1) depth finish arr b = .ok (arr, b) := by
  rw [readFieldElements, bind_apply]
  show (if b.position < finish then _ else _ : Read FieldArray) b = _
  rw [if_neg (by omega), pure_apply]

end Loops

/-- Reading back the entries of a table behind the entries read so far. --/
def ReadsEntries (fuel depth : Nat) (t : FieldTable) : Prop :=
  ∀ (table : FieldTable) (pos : Nat) (rest : Bytes), (∀ a ∈ table, ∀ e ∈ t, a.1 < e.1) →
    readFieldEntries fuel depth (pos + (writeFieldEntries t).length) table ⟨pos, writeFieldEntries t ++ rest⟩ =
      .ok (table ++ t, ⟨pos + (writeFieldEntries t).length, rest⟩)

/-- Reading back the elements of an array behind the elements read so far. --/
def ReadsElements (fuel depth : Nat) (a : FieldArray) : Prop :=
  ∀ (arr : FieldArray) (pos : Nat) (rest : Bytes),
    readFieldElements fuel depth (pos + (writeFieldElements a).length) arr ⟨pos, writeFieldElements a ++ rest⟩ =
      .ok (arr ++ a, ⟨pos + (writeFieldElements a).length, rest⟩)

theorem reads_fieldTableLoop {fuel depth : Nat} {t : FieldTable} (hd : depth ≤ MAX_FIELD_TABLE_DEPTH)
    (hs : (writeFieldEntries t).length < 2 ^ 32) (ht : ReadsEntries fuel depth t) :
    Reads (readFieldTableLoop (fuel + 1) depth) (writeFieldTable t) t := by
  rw [readFieldTableLoop, if_neg (by omega)]
  refine (reads_uint32 _).bind fun pos rest => ?_
  rw [UInt32.toNat_ofNat_of_lt' hs]
  exact ht [] pos rest (by simp)

theorem reads_fieldArrayLoop {fuel depth : Nat} {a : FieldArray} (hd : depth ≤ MAX_FIELD_TABLE_DEPTH)
    (hs : (writeFieldElements a).length < 2 ^ 32) (ha : ReadsElements fuel depth a) :
    Reads (readFieldArrayLoop (fuel + 1) depth)
      (writeUint32 (UInt32.ofNat (writeFieldElements a).length) ++ writeFieldElements a) a := by
  rw [readFieldArrayLoop, if_neg (by omega)]
  refine (reads_uint32 _).bind fun pos rest => ?_
  rw [UInt32.toNat_ofNat_of_lt' hs]
  exact ha [] pos rest

mutual

/-- The bytes written for a well-formed value are read back as that value. --/
theorem reads_fieldValueLoop {depth : Nat} : ∀ (v : FieldValue) (fuel : Nat), v.WellFormed depth →
    (writeFieldValue v).length < 2 ^ 32 → (writeFieldValue v).length < fuel →
    Reads (readFieldValueLoop fuel depth) (writeFieldValue v) v
  | v, 0, _, _, hf => by omega
  | v, fuel + 1, hw, hs, hf => by
    rw [readFieldValueLoop]
    cases v with
    | boolean v =>
      refine (reads_uint8 (tagByte 't')).bind ?_
      have h := (reads_uint8 (if v then 1 else 0)).map (g := fun x => FieldValue.boolean (x != 0))
      cases v <;> exact h
    | shortShortInt v => exact (reads_uint8 (tagByte 'b')).bind (reads_int8 v).map
    | shortShortUint v => exact (reads_uint8 (tagByte 'B')).bind (reads_uint8 v).map
    | shortInt v => exact (reads_uint8 (tagByte 'U')).bind (reads_int16 v).map
    | shortUint v => exact (reads_uint8 (tagByte 'u')).bind (reads_uint16 v).map
    | longInt v => exact (reads_uint8 (tagByte 'I')).bind (reads_int32 v).map
    | longUint v => exact (reads_uint8 (tagByte 'i')).bind (reads_uint32 v).map
    | longLongInt v => exact (reads_uint8 (tagByte 'L')).bind (reads_int64 v).map
    | longLongUint v => exact (reads_uint8 (tagByte 'l')).bind (reads_uint64 v).map
    | floatVal bits => exact (reads_uint8 (tagByte 'f')).bind (reads_uint32 bits).map
    | doubleVal bits => exact (reads_uint8 (tagByte 'd')).bind (reads_uint64 bits).map
    | shortString v => exact (reads_uint8 (tagByte 's')).bind (reads_shortString hw).map
    | longString v =>
      have hv : v.length < 2 ^ 32 := by
        simp only [writeFieldValue, List.length_cons, length_writeLongString] at hs
        omega
      exact (reads_uint8 (tagByte 'S')).bind (reads_longString hv).map
    | timestamp v => exact (reads_uint8 (tagByte 'T')).bind (reads_uint64 v).map
    | table t =>
      obtain ⟨hd, ht⟩ := hw
      simp only [writeFieldValue, List.length_cons, List.length_append, length_writeUint32] at hs hf
      obtain ⟨fuel, rfl⟩ : ∃ n, fuel = n + 1 := ⟨fuel - 1, by omega⟩
      exact (reads_uint8 (tagByte 'F')).bind
        (reads_fieldTableLoop hd (by omega) (reads_fieldEntries t fuel ht (by omega) (by omega))).map
    | array a =>
      obtain ⟨hd, ha⟩ := hw
      simp only [writeFieldValue, List.length_cons, List.length_append, length_writeUint32] at hs hf
      obtain ⟨fuel, rfl⟩ : ∃ n, fuel = n + 1 := ⟨fuel - 1, by omega⟩
      exact (reads_uint8 (tagByte 'A')).bind
        (reads_fieldArrayLoop hd (by omega) (reads_fieldElements a fuel ha (by omega) (by omega))).map
    | voidVal => exact (reads_uint8 (tagByte 'V')).bind (Reads.pure _)

theorem reads_fieldEntries {depth : Nat} : ∀ (t : FieldTable) (fuel : Nat), entriesWellFormed depth t →
    (writeFieldEntries t).length < 2 ^ 32 → (writeFieldEntries t).length < fuel → ReadsEntries fuel depth t
  | _, 0, _, _, hf => by omega
  | [], fuel + 1, _, _, _ => fun table pos rest _ => by
    rw [readFieldEntries_of_le (by simp [writeFieldEntries])]
    simp [writeFieldEntries]
  | (name, val) :: t, fuel + 1, hw, hs, hf => fun table pos rest hlt => by
    obtain ⟨hn, hv, hord, ht⟩ := hw
    have hnpos := length_writeShortString_pos name
    have hvpos := writeFieldValue_pos val
    simp only [writeFieldEntries, List.length_append] at hs hf ⊢
    have hname := reads_shortString hn pos (writeFieldValue val ++ (writeFieldEntries t ++ rest))
    have hval := reads_fieldValueLoop val fuel hv (by omega) (by omega) (pos + (writeShortString name).length)
      (writeFieldEntries t ++ rest)
    have hrest := reads_fieldEntries t fuel ht (by omega) (by omega) (table ++ [(name, val)])
      (pos + (writeShortString name).length + (writeFieldValue val).length) rest (by
        intro a ha e he
        rcases List.mem_append.mp ha with ha | ha
        · exact hlt a ha e (List.mem_cons_of_mem _ he)
        · rw [List.mem_singleton.mp ha]
          exact hord e he)
    have hfin : pos + ((writeShortString name).length + (writeFieldValue val).length + (writeFieldEntries t).length)
        = pos + (writeShortString name).length + (writeFieldValue val).length + (writeFieldEntries t).length := by
      omega
    rw [readFieldEntries_of_lt (by show pos < _; omega), List.append_assoc, List.append_assoc,
      bind_eq_of_ok hname, bind_eq_of_ok hval,
      emplace_of_lt fun a ha => hlt a ha (name, val) List.mem_cons_self, hfin, hrest, List.append_assoc]
    rfl

theorem reads_fieldElements {depth : Nat} : ∀ (a : FieldArray) (fuel : Nat), elementsWellFormed (depth + 1) a →
    (writeFieldElements a).length < 2 ^ 32 → (writeFieldElements a).length + 1 < fuel → ReadsElements fuel depth a
  | _, 0, _, _, hf => by omega
  | [], fuel + 1, _, _, _ => fun arr pos rest => by
    rw [readFieldElements_of_le (by simp [writeFieldElements])]
    simp [writeFieldElements]
  | elem :: a, fuel + 1, hw, hs, hf => fun arr pos rest => by
    obtain ⟨hv, ha⟩ := hw
    have hvpos := writeFieldValue_pos elem
    simp only [writeFieldElements, List.length_append] at hs hf ⊢
    have hval := reads_fieldValueLoop elem fuel hv (by omega) (by omega) pos (writeFieldElements a ++ rest)
    have hrest := reads_fieldElements a fuel ha (by omega) (by omega) (arr ++ [elem])
      (pos + (writeFieldValue elem).length) rest
    have hfin : pos + ((writeFieldValue elem).length + (writeFieldElements a).length)
        = pos + (writeFieldValue elem).length + (writeFieldElements a).length := by omega
    rw [readFieldElements_of_lt (by show pos < _; omega), List.append_assoc, bind_eq_of_ok hval, hfin, hrest,
      List.append_assoc]
    rfl

end

/-! ### What the decoder returns -/

theorem mem_emplace {name : Bytes} {val : FieldValue} {t : FieldTable} {e : Bytes × FieldValue}
    (h : e ∈ FieldTable.emplace name val t) : e = (name, val) ∨ e ∈ t := by
  induction t with
  | nil => exact Or.inl (by simpa [FieldTable.emplace] using h)
  | cons a t ih =>
    rw [FieldTable.emplace] at h
    split at h
    · exact List.mem_cons.mp h
    · split at h
      · rcases List.mem_cons.mp h with rfl | h
        · exact Or.inr List.mem_cons_self
        · exact (ih h).imp id (List.mem_cons_of_mem _)
      · exact Or.inr h

theorem entriesWellFormed_emplace {depth : Nat} {name : Bytes} {val : FieldValue} (hn : name.length ≤ 255)
    (hv : val.WellFormed depth) {t : FieldTable} (ht : entriesWellFormed depth t) :
    entriesWellFormed depth (FieldTable.emplace name val t) := by
  induction t with
  | nil => exact ⟨hn, hv, by simp, trivial⟩
  | cons a t ih =>
    obtain ⟨n, v⟩ := a
    obtain ⟨hn', hv', hord, ht'⟩ := ht
    rw [FieldTable.emplace]
    split
    · rename_i hlt
      refine ⟨hn, hv, fun e he => ?_, hn', hv', hord, ht'⟩
      rcases List.mem_cons.mp he with rfl | he
      · exact hlt
      · exact List.lt_trans hlt (hord e he)
    · split
      · rename_i hlt
        refine ⟨hn', hv', fun e he => ?_, ih ht'⟩
        rcases mem_emplace he with rfl | he
        · exact hlt
        · exact hord e he
      · exact ⟨hn', hv', hord, ht'⟩

theorem mem_assign {name : Bytes} {val : FieldValue} {t : FieldTable} {e : Bytes × FieldValue}
    (h : e ∈ FieldTable.assign name val t) : e.1 = name ∨ ∃ v, (e.1, v) ∈ t := by
  induction t with
  | nil => exact .inl (congrArg Prod.fst (List.mem_singleton.mp h))
  | cons a t ih =>
    rw [FieldTable.assign] at h
    split at h
    · rcases List.mem_cons.mp h with rfl | h
      · exact .inl rfl
      · exact .inr ⟨e.2, h⟩
    · split at h
      · rcases List.mem_cons.mp h with rfl | h
        · exact .inr ⟨_, List.mem_cons_self⟩
        · exact (ih h).imp id fun ⟨v, hv⟩ => ⟨v, List.mem_cons_of_mem _ hv⟩
      · rcases List.mem_cons.mp h with rfl | h
        · exact .inr ⟨_, List.mem_cons_self⟩
        · exact .inr ⟨e.2, List.mem_cons_of_mem _ h⟩

theorem entriesWellFormed_assign {depth : Nat} {name : Bytes} {val : FieldValue} (hn : name.length ≤ 255)
    (hv : val.WellFormed depth) {t : FieldTable} (ht : entriesWellFormed depth t) :
    entriesWellFormed depth (FieldTable.assign name val t) := by
  induction t with
  | nil => exact ⟨hn, hv, by simp, trivial⟩
  | cons a t ih =>
    obtain ⟨n, v⟩ := a
    obtain ⟨hn', hv', hord, ht'⟩ := ht
    rw [FieldTable.assign]
    split
    · rename_i hlt
      refine ⟨hn, hv, fun e he => ?_, hn', hv', hord, ht'⟩
      rcases List.mem_cons.mp he with rfl | he
      · exact hlt
      · exact List.lt_trans hlt (hord e he)
    · split
      · rename_i hlt
        refine ⟨hn', hv', fun e he => ?_, ih ht'⟩
        rcases mem_assign he with heq | ⟨v', hv'⟩
        · rwa [heq]
        · exact hord (e.1, v') hv'
      · exact ⟨hn', hv, hord, ht'⟩

theorem length_emplace_le (name : Bytes) (val : FieldValue) (t : FieldTable) :
    (writeFieldEntries (FieldTable.emplace name val t)).length ≤
      (writeFieldEntries t).length + ((writeShortString name).length + (writeFieldValue val).length) := by
  induction t with
  | nil => simp [FieldTable.emplace, writeFieldEntries]
  | cons a t ih =>
    obtain ⟨n, v⟩ := a
    rw [FieldTable.emplace]
    split
    · simp only [writeFieldEntries, List.length_append]
      omega
    · split
      · simp only [writeFieldEntries, List.length_append] at ih ⊢
        omega
      · omega

theorem writeFieldElements_append (a b : FieldArray) :
    writeFieldElements (a ++ b) = writeFieldElements a ++ writeFieldElements b := by
  induction a with
  | nil => rfl
  | cons v a ih => simp [writeFieldElements, ih]

theorem elementsWellFormed_append {depth : Nat} {a b : FieldArray} (ha : elementsWellFormed depth a)
    (hb : elementsWellFormed depth b) : elementsWellFormed depth (a ++ b) := by
  induction a with
  | nil => exact hb
  | cons v a ih => exact ⟨ha.1, ih ha.2⟩

/-- What the five mutually recursive readers accept on the same fuel: the value fits the decoder, and
    its encoding is no longer than what was read. The loops are counted against what they start from. -/
structure LoopsAccept (fuel : Nat) : Prop where
  value : ∀ depth, Accepts (readFieldValueLoop fuel depth) fun v used =>
    v.WellFormed depth ∧ (writeFieldValue v).length ≤ used.length
  table : ∀ depth, Accepts (readFieldTableLoop fuel depth) fun t used =>
    depth ≤ MAX_FIELD_TABLE_DEPTH ∧ entriesWellFormed depth t ∧ (writeFieldTable t).length ≤ used.length
  entries : ∀ depth finish t₀, entriesWellFormed depth t₀ →
    Accepts (readFieldEntries fuel depth finish t₀) fun t used =>
      entriesWellFormed depth t ∧ (writeFieldEntries t).length ≤ (writeFieldEntries t₀).length + used.length
  array : ∀ depth, Accepts (readFieldArrayLoop fuel depth) fun a used =>
    depth ≤ MAX_FIELD_TABLE_DEPTH ∧ elementsWellFormed (depth + 1) a ∧ 4 + (writeFieldElements a).length ≤ used.length
  elements : ∀ depth finish a₀, elementsWellFormed (depth + 1) a₀ →
    Accepts (readFieldElements fuel depth finish a₀) fun a used =>
      elementsWellFormed (depth + 1) a ∧
        (writeFieldElements a).length ≤ (writeFieldElements a₀).length + used.length

theorem length_writeFieldTable (t : FieldTable) : (writeFieldTable t).length = 4 + (writeFieldEntries t).length := by
  simp [writeFieldTable]

/-- A value of fixed width behind its tag. --/
theorem accepts_scalar {α : Type} {x : Read α} {n depth : Nat} {g : α → FieldValue} {tag : Bytes}
    (htag : tag.length = 1) (hx : Accepts x fun _ used => used.length = n)
    (hg : ∀ a, (g a).WellFormed depth ∧ (writeFieldValue (g a)).length = 1 + n) :
    Accepts (x >>= fun a => pure (g a)) fun v used =>
      v.WellFormed depth ∧ (writeFieldValue v).length ≤ (tag ++ used).length :=
  hx.map fun a used hu => ⟨(hg a).1, by rw [(hg a).2, List.length_append, htag, hu]⟩

namespace LoopsAccept
variable {fuel : Nat}

theorem value_succ (ih : LoopsAccept fuel) (depth : Nat) :
    Accepts (readFieldValueLoop (fuel + 1) depth) fun v used =>
      v.WellFormed depth ∧ (writeFieldValue v).length ≤ used.length := by
  rw [readFieldValueLoop]
  refine accepts_uint8.bind fun tag used hu => ?_
  split
  case h_12 =>
    refine accepts_shortString.map fun s more hs => ⟨hs.1, ?_⟩
    have := length_writeShortString_le s
    simp only [writeFieldValue, List.length_cons, List.length_append, hu, hs.2]
    omega
  case h_13 =>
    refine accepts_longString.map fun s more hs => ⟨trivial, ?_⟩
    simp only [writeFieldValue, List.length_cons, List.length_append, length_writeLongString, hu, hs]
    omega
  case h_15 =>
    refine (ih.table (depth + 1)).map fun t more ht => ⟨⟨ht.1, ht.2.1⟩, ?_⟩
    have := ht.2.2
    rw [length_writeFieldTable] at this
    simp only [writeFieldValue, List.length_cons, List.length_append, length_writeUint32, hu]
    omega
  case h_16 =>
    refine (ih.array depth).map fun a more ha => ⟨⟨ha.1, ha.2.1⟩, ?_⟩
    have := ha.2.2
    simp only [writeFieldValue, List.length_cons, List.length_append, length_writeUint32, hu]
    omega
  case h_17 => exact .pure ⟨trivial, by simp [writeFieldValue, hu]⟩
  case h_18 => exact .throw _
  case h_1 | h_3 => exact accepts_scalar hu accepts_uint8 fun _ => ⟨trivial, rfl⟩
  case h_2 => exact accepts_scalar hu (accepts_uint8.map fun _ _ h => h) fun _ => ⟨trivial, rfl⟩
  case h_5 => exact accepts_scalar hu accepts_uint16 fun _ => ⟨trivial, rfl⟩
  case h_4 => exact accepts_scalar hu (accepts_uint16.map fun _ _ h => h) fun _ => ⟨trivial, rfl⟩
  case h_7 | h_10 => exact accepts_scalar hu accepts_uint32 fun _ => ⟨trivial, rfl⟩
  case h_6 => exact accepts_scalar hu (accepts_uint32.map fun _ _ h => h) fun _ => ⟨trivial, rfl⟩
  case h_9 | h_11 | h_14 => exact accepts_scalar hu accepts_uint64 fun _ => ⟨trivial, rfl⟩
  case h_8 => exact accepts_scalar hu (accepts_uint64.map fun _ _ h => h) fun _ => ⟨trivial, rfl⟩

theorem table_succ (ih : LoopsAccept fuel) (depth : Nat) :
    Accepts (readFieldTableLoop (fuel + 1) depth) fun t used =>
      depth ≤ MAX_FIELD_TABLE_DEPTH ∧ entriesWellFormed depth t ∧ (writeFieldTable t).length ≤ used.length := by
  rw [readFieldTableLoop]
  split
  · exact .throw _
  · rename_i hd
    refine accepts_uint32.bind fun len used hu => Accepts.position.bind fun start none hnone => ?_
    refine (ih.entries depth _ [] trivial).mono fun t more ht => ⟨by omega, ht.1, ?_⟩
    have hlen := ht.2
    simp only [length_writeFieldTable, List.length_append, hu, hnone, writeFieldEntries, List.length_nil] at hlen ⊢
    omega

theorem entries_succ (ih : LoopsAccept fuel) (depth finish : Nat) (t₀ : FieldTable) (ht₀ : entriesWellFormed depth t₀) :
    Accepts (readFieldEntries (fuel + 1) depth finish t₀) fun t used =>
      entriesWellFormed depth t ∧ (writeFieldEntries t).length ≤ (writeFieldEntries t₀).length + used.length := by
  rw [readFieldEntries]
  refine Accepts.position.bind fun start none hnone => ?_
  subst hnone
  split
  · refine accepts_shortString.bind fun name used hn => (ih.value depth).bind fun val more hv => ?_
    refine (ih.entries depth finish _ (entriesWellFormed_emplace hn.1 hv.1 ht₀)).mono fun t rest ht => ⟨ht.1, ?_⟩
    have h1 := ht.2
    have h2 := length_emplace_le name val t₀
    have h3 := length_writeShortString_le name
    have h4 := hv.2
    simp only [List.nil_append, List.length_append, hn.2]
    omega
  · exact .pure ⟨ht₀, by simp⟩

theorem array_succ (ih : LoopsAccept fuel) (depth : Nat) :
    Accepts (readFieldArrayLoop (fuel + 1) depth) fun a used =>
      depth ≤ MAX_FIELD_TABLE_DEPTH ∧ elementsWellFormed (depth + 1) a ∧
        4 + (writeFieldElements a).length ≤ used.length := by
  rw [readFieldArrayLoop]
  split
  · exact .throw _
  · rename_i hd
    refine accepts_uint32.bind fun len used hu => Accepts.position.bind fun start none hnone => ?_
    refine (ih.elements depth _ [] trivial).mono fun a more ha => ⟨by omega, ha.1, ?_⟩
    have hlen := ha.2
    simp only [List.length_append, hu, hnone, writeFieldElements, List.length_nil] at hlen ⊢
    omega

theorem elements_succ (ih : LoopsAccept fuel) (depth finish : Nat) (a₀ : FieldArray)
    (ha₀ : elementsWellFormed (depth + 1) a₀) :
    Accepts (readFieldElements (fuel + 1) depth finish a₀) fun a used =>
      elementsWellFormed (depth + 1) a ∧
        (writeFieldElements a).length ≤ (writeFieldElements a₀).length + used.length := by
  rw [readFieldElements]
  refine Accepts.position.bind fun start none hnone => ?_
  subst hnone
  split
  · refine (ih.value (depth + 1)).bind fun val used hv => ?_
    refine (ih.elements depth finish (a₀ ++ [val])
      (elementsWellFormed_append ha₀ ⟨hv.1, trivial⟩)).mono fun a more ha => ⟨ha.1, ?_⟩
    have h1 := ha.2
    have h2 := hv.2
    simp only [writeFieldElements_append, writeFieldElements, List.append_nil, List.nil_append,
      List.length_append] at h1 ⊢
    omega
  · exact .pure ⟨ha₀, by simp⟩

end LoopsAccept

theorem loopsAccept (fuel : Nat) : LoopsAccept fuel := by
  induction fuel with
  | zero =>
    refine ⟨fun _ => ?_, fun _ => ?_, fun _ _ _ _ => ?_, fun _ => ?_, fun _ _ _ _ => ?_⟩
    · rw [readFieldValueLoop]; exact .throw _
    · rw [readFieldTableLoop]; exact .throw _
    · rw [readFieldEntries]; exact .throw _
    · rw [readFieldArrayLoop]; exact .throw _
    · rw [readFieldElements]; exact .throw _
  | succ fuel ih => exact ⟨ih.value_succ, ih.table_succ, ih.entries_succ, ih.array_succ, ih.elements_succ⟩

/-! ### Tables -/

/-- A table written by `writeFieldTable` is read back, whatever follows it. --/
theorem reads_fieldTable {depth : Nat} {t : FieldTable} (hd : depth ≤ MAX_FIELD_TABLE_DEPTH)
    (ht : entriesWellFormed depth t) (hs : (writeFieldTable t).length < 2 ^ 32) :
    Reads (readFieldTable depth) (writeFieldTable t) t := by
  intro pos rest
  rw [length_writeFieldTable] at hs
  have hlen : (writeFieldTable t ++ rest).length = (writeFieldTable t).length + rest.length := List.length_append
  have hread := reads_fieldTableLoop hd (by omega)
    (reads_fieldEntries t (writeFieldTable t ++ rest).length ht (by omega) (by rw [hlen, length_writeFieldTable]; omega))
  exact hread pos rest

/-- A table that `readFieldTable` returns can be written again, in no more bytes than it was read from. --/
theorem accepts_fieldTable (depth : Nat) : Accepts (readFieldTable depth) fun t used =>
    depth ≤ MAX_FIELD_TABLE_DEPTH ∧ entriesWellFormed depth t ∧ (writeFieldTable t).length ≤ used.length :=
  fun b t b' h => (loopsAccept (b.unread.length + 1)).table depth b t b' h

end Broko.Amqp
