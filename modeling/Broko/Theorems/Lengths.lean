import Broko.Theorems.Codec

/-! The length that a field table or an array announces, against what its readers consume. They go on as long as the cursor
    stands before the announced end and do not look where the last entry ends. -/

namespace Broko.Amqp
open Reader

variable {fuel depth finish : Nat} {b b' : Buffer}

/-! ### Fuel -/

theorem length_unread_lt {α : Type} {x : Read α} {P : α → Bytes → Prop} {a : α} (hx : Accepts x P)
    (hpos : ∀ a used, P a used → 0 < used.length) (h : x b = .ok (a, b')) : b'.unread.length < b.unread.length := by
  obtain ⟨used, hused, -, hP⟩ := hx b a b' h
  have := hpos a used hP
  rw [hused, List.length_append]
  omega

theorem uint8_lt {tag : UInt8} (h : readUint8 b = .ok (tag, b')) : b'.unread.length < b.unread.length :=
  length_unread_lt accepts_uint8 (fun _ _ hu => hu ▸ Nat.one_pos) h

theorem uint32_lt {len : UInt32} (h : readUint32 b = .ok (len, b')) : b'.unread.length < b.unread.length :=
  length_unread_lt accepts_uint32 (fun _ _ hu => hu ▸ Nat.succ_pos 3) h

theorem shortString_lt {name : Bytes} (h : readShortString b = .ok (name, b')) : b'.unread.length < b.unread.length :=
  length_unread_lt accepts_shortString (fun _ _ hu => by omega) h

theorem value_lt {val : FieldValue} (h : readFieldValueLoop fuel depth b = .ok (val, b')) :
    b'.unread.length < b.unread.length :=
  length_unread_lt ((loopsAccept fuel).value depth)
    (fun v _ hu => Nat.lt_of_lt_of_le (writeFieldValue_pos v) hu.2) h

/-- More fuel than there are unread bytes makes no difference; the elements of an array need one more, since reading a
    value is no progress yet. --/
structure FuelSettled (fuel : Nat) : Prop where
  value : ∀ depth (b : Buffer), b.unread.length < fuel → readFieldValueLoop (fuel + 1) depth b = readFieldValueLoop fuel depth b
  table : ∀ depth (b : Buffer), b.unread.length < fuel → readFieldTableLoop (fuel + 1) depth b = readFieldTableLoop fuel depth b
  entries : ∀ depth finish table (b : Buffer), b.unread.length < fuel →
    readFieldEntries (fuel + 1) depth finish table b = readFieldEntries fuel depth finish table b
  array : ∀ depth (b : Buffer), b.unread.length < fuel → readFieldArrayLoop (fuel + 1) depth b = readFieldArrayLoop fuel depth b
  elements : ∀ depth finish arr (b : Buffer), b.unread.length + 1 < fuel →
    readFieldElements (fuel + 1) depth finish arr b = readFieldElements fuel depth finish arr b

/-- The value behind its tag, with the readers for the two nested kinds. --/
def readTagged (table : Read FieldTable) (array : Read FieldArray) (tag : UInt8) : Read FieldValue :=
  match Char.ofNat tag.toNat with
  | 't' => return .boolean ((← readUint8) != 0)
  | 'b' => return .shortShortInt (← readInt8)
  | 'B' => return .shortShortUint (← readUint8)
  | 'U' => return .shortInt (← readInt16)
  | 'u' => return .shortUint (← readUint16)
  | 'I' => return .longInt (← readInt32)
  | 'i' => return .longUint (← readUint32)
  | 'L' => return .longLongInt (← readInt64)
  | 'l' => return .longLongUint (← readUint64)
  | 'f' => return .floatVal (← readUint32)
  | 'd' => return .doubleVal (← readUint64)
  | 's' => return .shortString (← readShortString)
  | 'S' => return .longString (← readLongString)
  | 'T' => return .timestamp (← readUint64)
  | 'F' => return .table (← table)
  | 'A' => return .array (← array)
  | 'V' => return .voidVal
  | _ => throw (.unknownFieldType tag)

theorem readFieldValueLoop_succ (fuel depth : Nat) :
    readFieldValueLoop (fuel + 1) depth =
      readUint8 >>= readTagged (readFieldTableLoop fuel (depth + 1)) (readFieldArrayLoop fuel depth) := by
  rw [readFieldValueLoop]
  rfl

section Tagged
variable {table table' : Read FieldTable} {array array' : Read FieldArray} {tag : UInt8}

theorem readTagged_table (h : Char.ofNat tag.toNat = 'F') :
    readTagged table array tag = table >>= fun t => pure (.table t) := by
  rw [readTagged, h]
  rfl

theorem readTagged_array (h : Char.ofNat tag.toNat = 'A') :
    readTagged table array tag = array >>= fun a => pure (.array a) := by
  rw [readTagged, h]
  rfl

theorem readTagged_scalar (hF : Char.ofNat tag.toNat ≠ 'F') (hA : Char.ofNat tag.toNat ≠ 'A') :
    readTagged table array tag = readTagged table' array' tag := by
  rw [readTagged, readTagged]
  split
  case h_15 hF' => exact absurd hF' hF
  case h_16 hA' => exact absurd hA' hA
  all_goals rfl

theorem readTagged_congr (htable : table b = table' b) (harray : array b = array' b) :
    readTagged table array tag b = readTagged table' array' tag b := by
  by_cases hF : Char.ofNat tag.toNat = 'F'
  · rw [readTagged_table hF, readTagged_table hF, bind_apply, bind_apply, htable]
  · by_cases hA : Char.ofNat tag.toNat = 'A'
    · rw [readTagged_array hA, readTagged_array hA, bind_apply, bind_apply, harray]
    · rw [readTagged_scalar hF hA]

end Tagged

namespace FuelSettled

theorem value_succ (ih : FuelSettled fuel) (depth : Nat) (b : Buffer) (h : b.unread.length < fuel + 1) :
    readFieldValueLoop (fuel + 2) depth b = readFieldValueLoop (fuel + 1) depth b := by
  rw [readFieldValueLoop_succ, readFieldValueLoop_succ]
  refine bind_congr_ok rfl fun tag b₁ htag => ?_
  have hlt : b₁.unread.length < fuel := Nat.lt_of_lt_of_le (uint8_lt htag) (Nat.lt_succ_iff.mp h)
  exact readTagged_congr (ih.table (depth + 1) b₁ hlt) (ih.array depth b₁ hlt)

theorem table_succ (ih : FuelSettled fuel) (depth : Nat) (b : Buffer) (h : b.unread.length < fuel + 1) :
    readFieldTableLoop (fuel + 2) depth b = readFieldTableLoop (fuel + 1) depth b := by
  rw [readFieldTableLoop, readFieldTableLoop]
  split
  · rfl
  · refine bind_congr_ok rfl fun len b₁ hlen => ?_
    exact ih.entries depth _ [] b₁ (Nat.lt_of_lt_of_le (uint32_lt hlen) (Nat.lt_succ_iff.mp h))

theorem entries_succ (ih : FuelSettled fuel) (depth finish : Nat) (table : FieldTable) (b : Buffer)
    (h : b.unread.length < fuel + 1) :
    readFieldEntries (fuel + 2) depth finish table b = readFieldEntries (fuel + 1) depth finish table b := by
  by_cases hlt : b.position < finish
  · rw [readFieldEntries_of_lt hlt, readFieldEntries_of_lt hlt]
    refine bind_congr_ok rfl fun name b₁ hname => ?_
    have h₁ : b₁.unread.length < fuel := Nat.lt_of_lt_of_le (shortString_lt hname) (Nat.lt_succ_iff.mp h)
    refine bind_congr_ok (ih.value depth b₁ h₁) fun val b₂ hval => ?_
    exact ih.entries depth finish _ b₂ (Nat.lt_trans (value_lt hval) h₁)
  · rw [readFieldEntries_of_le (Nat.le_of_not_lt hlt), readFieldEntries_of_le (Nat.le_of_not_lt hlt)]

theorem array_succ (ih : FuelSettled fuel) (depth : Nat) (b : Buffer) (h : b.unread.length < fuel + 1) :
    readFieldArrayLoop (fuel + 2) depth b = readFieldArrayLoop (fuel + 1) depth b := by
  rw [readFieldArrayLoop, readFieldArrayLoop]
  split
  · rfl
  · refine bind_congr_ok rfl fun len b₁ hlen => ?_
    obtain ⟨used, hused, -, hu⟩ := accepts_uint32 b len b₁ hlen
    refine ih.elements depth _ [] b₁ ?_
    rw [hused, List.length_append, hu] at h
    omega

theorem elements_succ (ih : FuelSettled fuel) (depth finish : Nat) (arr : FieldArray) (b : Buffer)
    (h : b.unread.length + 1 < fuel + 1) :
    readFieldElements (fuel + 2) depth finish arr b = readFieldElements (fuel + 1) depth finish arr b := by
  have hb : b.unread.length < fuel := Nat.lt_of_succ_lt_succ h
  by_cases hlt : b.position < finish
  · rw [readFieldElements_of_lt hlt, readFieldElements_of_lt hlt]
    refine bind_congr_ok (ih.value (depth + 1) b hb) fun val b₁ hval => ?_
    exact ih.elements depth finish _ b₁ (Nat.lt_of_le_of_lt (value_lt hval) hb)
  · rw [readFieldElements_of_le (Nat.le_of_not_lt hlt), readFieldElements_of_le (Nat.le_of_not_lt hlt)]

end FuelSettled

theorem fuelSettled (fuel : Nat) : FuelSettled fuel := by
  induction fuel with
  | zero => exact ⟨nofun, nofun, nofun, nofun, nofun⟩
  | succ fuel ih => exact ⟨ih.value_succ, ih.table_succ, ih.entries_succ, ih.array_succ, ih.elements_succ⟩

theorem readFieldValueLoop_eq (h : b.unread.length < fuel) : readFieldValueLoop fuel depth b = readFieldValue depth b := by
  obtain ⟨n, rfl⟩ := Nat.exists_eq_add_of_le h
  clear h
  induction n with
  | zero => rfl
  | succ n ih => exact ((fuelSettled _).value depth b (Nat.le_add_right _ _)).trans ih

/-! ### The loops -/

/-- An entry of a table: its name and its value. --/
def readEntry (depth : Nat) : Read (Bytes × FieldValue) := do
  let name ← readShortString
  let val ← readFieldValue depth
  return (name, val)

theorem readEntry_eq_ok {name : Bytes} {val : FieldValue} :
    readEntry depth b = .ok ((name, val), b') ↔
      ∃ b₁, readShortString b = .ok (name, b₁) ∧ readFieldValue depth b₁ = .ok (val, b') := by
  constructor
  · intro h
    obtain ⟨name', b₁, hname, h⟩ := bind_eq_ok.mp h
    obtain ⟨val', b₂, hval, h⟩ := bind_eq_ok.mp h
    cases pure_eq_ok.mp h
    exact ⟨b₁, hname, hval⟩
  · rintro ⟨b₁, hname, hval⟩
    exact bind_eq_ok.mpr ⟨name, b₁, hname, bind_eq_ok.mpr ⟨val, b', hval, rfl⟩⟩

/-- The loop over a table stops where entries that are read until the end of the table stop. --/
theorem exists_entries (table : FieldTable) (h : b.unread.length < fuel) :
    (∃ t, readFieldEntries fuel depth finish table b = .ok (t, b')) ↔ Until (readEntry depth) finish b b' := by
  induction fuel generalizing b table with
  | zero => exact absurd h (Nat.not_lt_zero _)
  | succ fuel ih =>
    by_cases hlt : b.position < finish
    · rw [readFieldEntries_of_lt hlt]
      constructor
      · rintro ⟨t, ht⟩
        obtain ⟨name, b₁, hname, ht⟩ := bind_eq_ok.mp ht
        obtain ⟨val, b₂, hval, ht⟩ := bind_eq_ok.mp ht
        have h₁ : b₁.unread.length < fuel := Nat.lt_of_lt_of_le (shortString_lt hname) (Nat.lt_succ_iff.mp h)
        have h₂ := Nat.lt_trans (value_lt hval) h₁
        rw [readFieldValueLoop_eq h₁] at hval
        exact .item hlt (readEntry_eq_ok.mpr ⟨b₁, hname, hval⟩) ((ih _ h₂).mp ⟨t, ht⟩)
      · intro huntil
        cases huntil with
        | stop hle => exact absurd hlt (Nat.not_lt.mpr hle)
        | @item _ b₂ _ entry _ hentry hrest =>
          obtain ⟨b₁, hname, hval⟩ := readEntry_eq_ok.mp hentry
          have h₁ : b₁.unread.length < fuel := Nat.lt_of_lt_of_le (shortString_lt hname) (Nat.lt_succ_iff.mp h)
          rw [← readFieldValueLoop_eq h₁] at hval
          have h₂ := Nat.lt_trans (value_lt hval) h₁
          obtain ⟨t, ht⟩ := (ih (FieldTable.emplace entry.1 entry.2 table) h₂).mpr hrest
          exact ⟨t, bind_eq_ok.mpr ⟨_, b₁, hname, bind_eq_ok.mpr ⟨_, b₂, hval, ht⟩⟩⟩
    · have hle := Nat.le_of_not_lt hlt
      rw [readFieldEntries_of_le hle]
      constructor
      · rintro ⟨t, ht⟩
        cases ht
        exact .stop hle
      · intro huntil
        cases huntil with
        | stop _ => exact ⟨table, rfl⟩
        | item hpos _ _ => exact absurd hpos hlt

/-- The loop over an array stops where values that are read until the end of the array stop. --/
theorem exists_elements (arr : FieldArray) (h : b.unread.length + 1 < fuel) :
    (∃ a, readFieldElements fuel depth finish arr b = .ok (a, b')) ↔ Until (readFieldValue (depth + 1)) finish b b' := by
  induction fuel generalizing b arr with
  | zero => exact absurd h (Nat.not_lt_zero _)
  | succ fuel ih =>
    have hb : b.unread.length < fuel := Nat.lt_of_succ_lt_succ h
    by_cases hlt : b.position < finish
    · rw [readFieldElements_of_lt hlt]
      constructor
      · rintro ⟨a, ha⟩
        obtain ⟨val, b₁, hval, ha⟩ := bind_eq_ok.mp ha
        have h₁ := Nat.lt_of_le_of_lt (Nat.succ_le_of_lt (value_lt hval)) hb
        rw [readFieldValueLoop_eq hb] at hval
        exact .item hlt hval ((ih _ h₁).mp ⟨a, ha⟩)
      · intro huntil
        cases huntil with
        | stop hle => exact absurd hlt (Nat.not_lt.mpr hle)
        | @item _ b₁ _ val _ hval hrest =>
          rw [← readFieldValueLoop_eq hb] at hval
          have h₁ := Nat.lt_of_le_of_lt (Nat.succ_le_of_lt (value_lt hval)) hb
          obtain ⟨a, ha⟩ := (ih (arr ++ [val]) h₁).mpr hrest
          exact ⟨a, bind_eq_ok.mpr ⟨val, b₁, hval, ha⟩⟩
    · have hle := Nat.le_of_not_lt hlt
      rw [readFieldElements_of_le hle]
      constructor
      · rintro ⟨a, ha⟩
        cases ha
        exact .stop hle
      · intro huntil
        cases huntil with
        | stop _ => exact ⟨arr, rfl⟩
        | item hpos _ _ => exact absurd hpos hlt

/-! ### Announced lengths -/

/-- The number that the next four bytes announce. --/
def announcedLength (b : Buffer) : Nat := BigEndian.decode (b.unread.take 4)

/-- The cursor behind these four bytes. --/
def behindLength (b : Buffer) : Buffer := ⟨b.position + 4, b.unread.drop 4⟩

/-- An item that begins inside the length announced at `b` ends behind it. --/
def ItemOverruns {α : Type} (x : Read α) (b : Buffer) : Prop :=
  4 ≤ b.unread.length ∧ Overruns x (b.position + 4 + announcedLength b) (behindLength b)

theorem exists_announced (b : Buffer) : ∃ len : UInt32, len.toNat = announcedLength b := by
  have hlt : announcedLength b < 2 ^ 32 :=
    Nat.lt_of_lt_of_le (BigEndian.decode_lt _)
      (Nat.pow_le_pow_right (Nat.succ_pos 255) (List.length_take_le 4 b.unread))
  exact ⟨UInt32.ofNat (announcedLength b), by rw [UInt32.toNat_ofNat', Nat.mod_eq_of_lt hlt]⟩

theorem readUint32_eq_ok {len : UInt32} :
    readUint32 b = .ok (len, b') ↔ 4 ≤ b.unread.length ∧ len.toNat = announcedLength b ∧ b' = behindLength b := by
  obtain ⟨n, hn⟩ := exists_announced b
  have hofNat : UInt32.ofNat (announcedLength b) = n := by rw [← hn, UInt32.ofNat_toNat]
  constructor
  · intro h
    obtain ⟨bs, b₁, hbs, h⟩ := bind_eq_ok.mp h
    obtain ⟨hle, hbs⟩ := take_eq_ok.mp hbs
    cases hbs
    cases pure_eq_ok.mp h
    exact ⟨hle, (congrArg UInt32.toNat hofNat).trans hn, rfl⟩
  · rintro ⟨hle, hlen, rfl⟩
    obtain rfl := UInt32.toNat_inj.mp (hlen.trans hn.symm)
    rw [← hofNat]
    exact bind_eq_ok.mpr ⟨_, _, take_eq_ok.mpr ⟨hle, rfl⟩, rfl⟩

/-- `r` reads a length, and then items until the end that it announces. --/
def ReadsItems {α β : Type} (r : Read β) (x : Read α) (allowed : Prop) (b : Buffer) : Prop :=
  ∀ b', (∃ v, r b = .ok (v, b')) ↔ allowed ∧ 4 ≤ b.unread.length ∧
    Until x (b.position + 4 + announcedLength b) (behindLength b) b'

/-- Whatever `r` returns at `b`, it has moved past the length and as many bytes as it announces, and items that overrun the
    length are not accepted. --/
def LengthBinds {α β : Type} (r : Read β) (x : Read α) (b : Buffer) : Prop :=
  (∀ v b', r b = .ok (v, b') → b'.position = b.position + (4 + announcedLength b)) ∧
  (ItemOverruns x b → ∃ e, r b = .error e)

theorem ReadsItems.lengthBinds_iff {α β : Type} {r : Read β} {x : Read α} {allowed : Prop} (h : ReadsItems r x allowed b) :
    LengthBinds r x b ↔ (allowed → ¬ItemOverruns x b) := by
  constructor
  · rintro ⟨hexact, -⟩ hallowed ⟨hle, hover⟩
    obtain ⟨b', huntil, hbehind⟩ := hover.exists_until
    obtain ⟨v, hv⟩ := (h b').mpr ⟨hallowed, hle, huntil⟩
    rw [hexact v b' hv, Nat.add_assoc] at hbehind
    exact Nat.lt_irrefl _ hbehind
  · intro hno
    refine ⟨fun v b' hv => ?_, fun hover => ?_⟩
    · obtain ⟨hallowed, hle, huntil⟩ := (h b').mp ⟨v, hv⟩
      rw [huntil.position (Nat.le_add_right _ _) fun hover => hno hallowed ⟨hle, hover⟩, Nat.add_assoc]
    · cases hr : r b with
      | error e => exact ⟨e, rfl⟩
      | ok p => exact absurd hover (hno ((h p.2).mp ⟨p.1, hr⟩).1)

theorem exists_throw {α : Type} {e : ReadError} : ¬∃ v, (throw e : Read α) b = .ok (v, b') := fun ⟨_, h⟩ => throw_ne_ok h

/-- A reader that checks the depth, reads the length, and then loops until the end that it computes. --/
theorem readsItems_of_loop {α β : Type} {r : Read β} {x : Read α} {loop : Nat → Read β}
    (hr : r b = (if depth > MAX_FIELD_TABLE_DEPTH then throw .depthExceeded else do
      let len ← readUint32
      let start ← Reader.position
      loop (start + len.toNat) : Read β) b)
    (hloop : ∀ finish b', 4 ≤ b.unread.length →
      ((∃ v, loop finish (behindLength b) = .ok (v, b')) ↔ Until x finish (behindLength b) b')) :
    ReadsItems r x (depth ≤ MAX_FIELD_TABLE_DEPTH) b := by
  intro b'
  rw [hr]
  by_cases hd : depth > MAX_FIELD_TABLE_DEPTH
  · rw [if_pos hd]
    exact ⟨fun h => absurd h exists_throw, fun h => absurd h.1 (Nat.not_le.mpr hd)⟩
  · rw [if_neg hd]
    constructor
    · rintro ⟨v, hv⟩
      obtain ⟨len, b₁, hlen, hv⟩ := bind_eq_ok.mp hv
      obtain ⟨start, b₂, hstart, hv⟩ := bind_eq_ok.mp hv
      obtain ⟨hle, hannounced, rfl⟩ := readUint32_eq_ok.mp hlen
      cases hstart
      rw [hannounced] at hv
      exact ⟨Nat.le_of_not_lt hd, hle, (hloop _ _ hle).mp ⟨v, hv⟩⟩
    · rintro ⟨-, hle, huntil⟩
      obtain ⟨len, hlen⟩ := exists_announced b
      obtain ⟨v, hv⟩ := (hloop _ _ hle).mpr huntil
      rw [← hlen] at hv
      exact ⟨v, bind_eq_ok.mpr ⟨len, _, readUint32_eq_ok.mpr ⟨hle, hlen, rfl⟩, bind_eq_ok.mpr ⟨_, _, rfl, hv⟩⟩⟩

theorem length_behindLength (hle : 4 ≤ b.unread.length) : (behindLength b).unread.length + 4 = b.unread.length := by
  rw [behindLength, List.length_drop]
  omega

theorem readsItems_table (depth : Nat) (b : Buffer) :
    ReadsItems (readFieldTable depth) (readEntry depth) (depth ≤ MAX_FIELD_TABLE_DEPTH) b := by
  refine readsItems_of_loop (by rw [readFieldTable, readFieldTableLoop]) fun finish b' hle => exists_entries [] ?_
  have := length_behindLength hle
  omega

theorem readsItems_array (depth : Nat) (b : Buffer) :
    ReadsItems (readFieldArray depth) (readFieldValue (depth + 1)) (depth ≤ MAX_FIELD_TABLE_DEPTH) b := by
  refine readsItems_of_loop (by rw [readFieldArray, readFieldArrayLoop]) fun finish b' hle => exists_elements [] ?_
  have := length_behindLength hle
  omega

theorem readFieldValue_array (depth pos : Nat) (rest : Bytes) :
    readFieldValue depth ⟨pos, tagByte 'A' :: rest⟩ =
      (readFieldArray depth >>= fun a => pure (.array a)) ⟨pos + 1, rest⟩ := by
  have htag : readUint8 ⟨pos, tagByte 'A' :: rest⟩ = .ok (tagByte 'A', ⟨pos + 1, rest⟩) :=
    reads_uint8 (tagByte 'A') pos rest
  rw [readFieldValue, readFieldValueLoop_succ, bind_eq_of_ok htag, readTagged_array (by decide)]
  rfl

/-- The announced length binds what is returned exactly if no entry of the table, and no element of the array, begins
    inside it and ends behind it. --/
theorem announced_length_binds (depth : Nat) (b : Buffer) :
    (LengthBinds (readFieldTable depth) (readEntry depth) b ↔
      (depth ≤ MAX_FIELD_TABLE_DEPTH → ¬ItemOverruns (readEntry depth) b)) ∧
    (LengthBinds (readFieldArray depth) (readFieldValue (depth + 1)) b ↔
      (depth ≤ MAX_FIELD_TABLE_DEPTH → ¬ItemOverruns (readFieldValue (depth + 1)) b)) ∧
    ∀ pos rest, readFieldValue depth ⟨pos, tagByte 'A' :: rest⟩ =
      (readFieldArray depth >>= fun a => pure (.array a)) ⟨pos + 1, rest⟩ :=
  ⟨(readsItems_table depth b).lengthBinds_iff, (readsItems_array depth b).lengthBinds_iff, readFieldValue_array depth⟩

/-- A table of one byte with an entry of two. --/
def longEntry : Buffer := Buffer.ofBytes [0, 0, 0, 1, 0, tagByte 'V']

/-- It is accepted, and the cursor ends one byte behind the table. --/
theorem overrun_accepted :
    announcedLength longEntry = 1 ∧ (∃ t, readFieldTable 0 longEntry = .ok (t, ⟨6, []⟩)) ∧
    ItemOverruns (readEntry 0) longEntry ∧ ¬LengthBinds (readFieldTable 0) (readEntry 0) longEntry := by
  have hvalue : readFieldValue 0 ⟨5, [tagByte 'V']⟩ = .ok (.voidVal, ⟨6, []⟩) := by
    rw [readFieldValue, readFieldValueLoop_succ]
    rfl
  have hentry : readEntry 0 (behindLength longEntry) = .ok (([], .voidVal), ⟨6, []⟩) :=
    readEntry_eq_ok.mpr ⟨⟨5, [tagByte 'V']⟩, rfl, hvalue⟩
  have hover : ItemOverruns (readEntry 0) longEntry := ⟨by decide, .here (by decide) hentry (by decide)⟩
  refine ⟨rfl, ?_, hover, fun h => (readsItems_table 0 longEntry).lengthBinds_iff.mp h (by decide) hover⟩
  exact (readsItems_table 0 longEntry ⟨6, []⟩).mpr ⟨by decide, by decide, .item (by decide) hentry (.stop (by decide))⟩

end Broko.Amqp
