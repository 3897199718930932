import Broko.Amqp.Buffer
import Broko.Theorems.Lengths

/-! The readers of field tables, access by access. They refine the readers of unread bytes, so every access is inside the
    buffer and the position only moves forward; they come to an end, and what they return is not nested deeper than the
    limit on the depth allows. -/

namespace Broko.Amqp
open Indexed

/-! ### Numbers from bytes -/

theorem or_eq_add {x y : Nat} (i : Nat) (hx : 2 ^ i ∣ x) (hy : y < 2 ^ i) : x ||| y = x + y := by
  obtain ⟨k, rfl⟩ := hx
  exact (Nat.two_pow_add_eq_or_of_lt hy k).symm

theorem uint16_of_bytes (b₀ b₁ : UInt8) :
    (b₀.toUInt16 <<< 8) ||| b₁.toUInt16 = UInt16.ofNat (BigEndian.decode [b₀, b₁]) := by
  have h₀ := b₀.toNat_lt
  have h₁ := b₁.toNat_lt
  apply UInt16.toNat_inj.mp
  simp only [UInt16.toNat_or, UInt16.toNat_shiftLeft, UInt8.toNat_toUInt16, UInt16.toNat_ofNat', BigEndian.decode,
    List.foldl_cons, List.foldl_nil, UInt16.toNat_ofNat, Nat.shiftLeft_eq, Nat.reducePow, Nat.reduceMod]
  rw [or_eq_add 8 (by omega) (by omega)]
  omega

theorem uint32_of_bytes (b₀ b₁ b₂ b₃ : UInt8) :
    (b₀.toUInt32 <<< 24) ||| (b₁.toUInt32 <<< 16) ||| (b₂.toUInt32 <<< 8) ||| b₃.toUInt32 =
      UInt32.ofNat (BigEndian.decode [b₀, b₁, b₂, b₃]) := by
  have h₀ := b₀.toNat_lt
  have h₁ := b₁.toNat_lt
  have h₂ := b₂.toNat_lt
  have h₃ := b₃.toNat_lt
  apply UInt32.toNat_inj.mp
  simp only [UInt32.toNat_or, UInt32.toNat_shiftLeft, UInt8.toNat_toUInt32, UInt32.toNat_ofNat', BigEndian.decode,
    List.foldl_cons, List.foldl_nil, UInt32.toNat_ofNat, Nat.shiftLeft_eq, Nat.reducePow, Nat.reduceMod]
  rw [or_eq_add (x := b₀.toNat * 16777216 % 4294967296) 24 (by omega) (by omega),
    or_eq_add (y := b₂.toNat * 256 % 4294967296) 16 (by omega) (by omega), or_eq_add 8 (by omega) (by omega)]
  omega

theorem uint64_shiftIn (n : Nat) (b : UInt8) : (UInt64.ofNat n <<< 8) ||| b.toUInt64 = UInt64.ofNat (n * 256 + b.toNat) := by
  have hb := b.toNat_lt
  apply UInt64.toNat_inj.mp
  simp only [UInt64.toNat_or, UInt64.toNat_shiftLeft, UInt8.toNat_toUInt64, UInt64.toNat_ofNat',
    UInt64.toNat_ofNat, Nat.shiftLeft_eq, Nat.reducePow, Nat.reduceMod]
  rw [or_eq_add 8 (by omega) (by omega)]
  omega
/-! ### Primitive readers -/

theorem start_ensure (n : Nat) (b : Store) :
    start (Buffer.ensure n) b =
      if b.data.length < b.pos + n then (.error (.thrown .underflow), b) else (.ok (), b) := by
  have hcases : start (Buffer.ensure n) b = start
      (if n > b.data.length ∨ b.pos > b.data.length - n then raise .underflow else pure () : Buffer.Access Unit) b := rfl
  rw [hcases]
  by_cases h : b.data.length < b.pos + n
  · rw [if_pos h, if_pos (by omega)]
    rfl
  · rw [if_neg h, if_neg (by omega)]
    rfl

/-- A reader that ensures `n` bytes, makes a value of them and moves behind them. --/
theorem refines_of_ensure {α : Type} {n : Nat} {x : Buffer.Access α} {f : Bytes → α}
    (hx : ∀ b : Store, b.pos + n ≤ b.data.length →
      start x b = (.ok (f ((b.data.drop b.pos).take n)), { b with pos := b.pos + n })) :
    Refines (Buffer.ensure n >>= fun _ => x) (readBytes n >>= fun bs => pure (f bs)) := by
  refine .of_take (fun b hb => ?_) fun b hb => ?_
  · exact bind_of_error (by rw [start_ensure, if_pos hb])
  · rw [bind_of_ok (by rw [start_ensure, if_neg (Nat.not_lt.mpr hb)]), hx b hb]

theorem start_byteAt_of_lt {i : Nat} {b : Store} (h : i < b.data.length) :
    start (byteAt i : Buffer.Access UInt8) b = (.ok b.data[i], b) :=
  start_byteAt (List.getElem?_eq_getElem h)

theorem take_drop_succ {i n : Nat} {data : Bytes} (h : i < data.length) :
    (data.drop i).take (n + 1) = data[i] :: (data.drop (i + 1)).take n := by
  rw [List.drop_eq_getElem_cons h, List.take_succ_cons]

theorem start_position (b : Store) : start (position : Buffer.Access Nat) b = (.ok b.pos, b) := rfl

theorem start_advance (n : Nat) (b : Store) :
    start (advance n : Buffer.Access Unit) b = (.ok (), { b with pos := b.pos + n }) := rfl

theorem refines_bytes (n : Nat) : Refines (Buffer.readBytes n) (readBytes n) := by
  have h : Refines (Buffer.readBytes n) (readBytes n >>= fun bs => pure (id bs)) := by
    refine refines_of_ensure fun b hb => ?_
    rw [bind_of_ok (start_position b), bind_of_ok (start_bytesFrom hb), bind_of_ok (start_advance n b)]
    rfl
  rwa [show (readBytes n >>= fun bs => pure (id bs)) = readBytes n from bind_pure _] at h

theorem refines_uint8 : Refines Buffer.readUint8 readUint8 := by
  refine refines_of_ensure fun b hb => ?_
  rw [bind_of_ok (start_position b), bind_of_ok (start_byteAt_of_lt hb), bind_of_ok (start_advance 1 b),
    take_drop_succ hb, List.take_zero]
  have hdecode : BigEndian.decode [b.data[b.pos]] = b.data[b.pos].toNat := by rw [BigEndian.decode_cons]; simp [BigEndian.decode]
  rw [hdecode, UInt8.ofNat_toNat]
  rfl

theorem refines_uint16 : Refines Buffer.readUint16 readUint16 := by
  refine refines_of_ensure fun b hb => ?_
  have h₀ : b.pos < b.data.length := by omega
  have h₁ : b.pos + 1 < b.data.length := by omega
  rw [bind_of_ok (start_position b), bind_of_ok (start_byteAt_of_lt h₀), bind_of_ok (start_byteAt_of_lt h₁),
    bind_of_ok (start_advance 2 b), take_drop_succ h₀, take_drop_succ h₁, List.take_zero, ← uint16_of_bytes]
  rfl

theorem refines_uint32 : Refines Buffer.readUint32 readUint32 := by
  refine refines_of_ensure fun b hb => ?_
  have h₀ : b.pos < b.data.length := by omega
  have h₁ : b.pos + 1 < b.data.length := by omega
  have h₂ : b.pos + 2 < b.data.length := by omega
  have h₃ : b.pos + 3 < b.data.length := by omega
  rw [bind_of_ok (start_position b), bind_of_ok (start_byteAt_of_lt h₀), bind_of_ok (start_byteAt_of_lt h₁),
    bind_of_ok (start_byteAt_of_lt h₂), bind_of_ok (start_byteAt_of_lt h₃), bind_of_ok (start_advance 4 b),
    take_drop_succ h₀, take_drop_succ h₁, take_drop_succ h₂, take_drop_succ h₃, List.take_zero, ← uint32_of_bytes]
  rfl

theorem start_uint64Loop {n i m : Nat} {b : Store} (h : i + n ≤ b.data.length) :
    start (Buffer.readUint64Loop (UInt64.ofNat m) i n) b =
      (.ok (UInt64.ofNat (((b.data.drop i).take n).foldl (fun v b => v * 256 + b.toNat) m)), b) := by
  induction n generalizing i m with
  | zero => rfl
  | succ n ih =>
    have hi : i < b.data.length := by omega
    rw [Buffer.readUint64Loop, bind_of_ok (start_byteAt_of_lt hi), uint64_shiftIn, ih (by omega), take_drop_succ hi,
      List.foldl_cons]

theorem refines_uint64 : Refines Buffer.readUint64 readUint64 := by
  refine refines_of_ensure fun b hb => ?_
  have hloop : start (Buffer.readUint64Loop 0 b.pos 8) b = _ := start_uint64Loop (m := 0) hb
  rw [bind_of_ok (start_position b), bind_of_ok hloop, bind_of_ok (start_advance 8 b)]
  rfl

theorem refines_int8 : Refines Buffer.readInt8 readInt8 := refines_uint8.map _
theorem refines_int16 : Refines Buffer.readInt16 readInt16 := refines_uint16.map _
theorem refines_int32 : Refines Buffer.readInt32 readInt32 := refines_uint32.map _
theorem refines_int64 : Refines Buffer.readInt64 readInt64 := refines_uint64.map _

theorem refines_shortString : Refines Buffer.readShortString readShortString :=
  refines_uint8.bind fun len => refines_bytes len.toNat

theorem refines_longString : Refines Buffer.readLongString readLongString :=
  refines_uint32.bind fun len => refines_bytes len.toNat

/-! ### Field tables -/

/-- With the same fuel, the readers by index refine those of unread bytes. --/
structure LoopsRefine (fuel : Nat) : Prop where
  value : ∀ depth, Refines (Buffer.readFieldValue fuel depth) (readFieldValueLoop fuel depth)
  table : ∀ depth, Refines (Buffer.readFieldTable fuel depth) (readFieldTableLoop fuel depth)
  entries : ∀ depth finish t, Refines (Buffer.readFieldEntries fuel depth finish t) (readFieldEntries fuel depth finish t)
  array : ∀ depth, Refines (Buffer.readFieldArray fuel depth) (readFieldArrayLoop fuel depth)
  elements : ∀ depth finish a, Refines (Buffer.readFieldElements fuel depth finish a) (readFieldElements fuel depth finish a)

namespace LoopsRefine
variable {fuel : Nat}

theorem value_succ (ih : LoopsRefine fuel) (depth : Nat) :
    Refines (Buffer.readFieldValue (fuel + 1) depth) (readFieldValueLoop (fuel + 1) depth) := by
  rw [Buffer.readFieldValue, readFieldValueLoop]
  refine refines_uint8.bind fun tag => ?_
  generalize Char.ofNat tag.toNat = c
  split
  · exact refines_uint8.map (fun v : UInt8 => FieldValue.boolean (v != 0))
  · exact refines_int8.map FieldValue.shortShortInt
  · exact refines_uint8.map FieldValue.shortShortUint
  · exact refines_int16.map FieldValue.shortInt
  · exact refines_uint16.map FieldValue.shortUint
  · exact refines_int32.map FieldValue.longInt
  · exact refines_uint32.map FieldValue.longUint
  · exact refines_int64.map FieldValue.longLongInt
  · exact refines_uint64.map FieldValue.longLongUint
  · exact refines_uint32.map FieldValue.floatVal
  · exact refines_uint64.map FieldValue.doubleVal
  · exact refines_shortString.map FieldValue.shortString
  · exact refines_longString.map FieldValue.longString
  · exact refines_uint64.map FieldValue.timestamp
  · exact (ih.table (depth + 1)).map FieldValue.table
  · exact (ih.array depth).map FieldValue.array
  · exact .pure FieldValue.voidVal
  -- an unknown tag, where the reader of unread bytes may be left with its own cases
  · try split
    all_goals first | contradiction | exact .raise _

theorem table_succ (ih : LoopsRefine fuel) (depth : Nat) :
    Refines (Buffer.readFieldTable (fuel + 1) depth) (readFieldTableLoop (fuel + 1) depth) := by
  rw [Buffer.readFieldTable, readFieldTableLoop]
  refine .ite (fun _ => .raise _) fun _ => ?_
  exact refines_uint32.bind fun len => .bind .position fun start => ih.entries depth _ []

theorem entries_succ (ih : LoopsRefine fuel) (depth finish : Nat) (t : FieldTable) :
    Refines (Buffer.readFieldEntries (fuel + 1) depth finish t) (readFieldEntries (fuel + 1) depth finish t) := by
  rw [Buffer.readFieldEntries, readFieldEntries]
  refine .bind .position fun pos => .ite (fun _ => ?_) fun _ => .pure t
  exact refines_shortString.bind fun name => (ih.value depth).bind fun val => ih.entries depth finish _

theorem array_succ (ih : LoopsRefine fuel) (depth : Nat) :
    Refines (Buffer.readFieldArray (fuel + 1) depth) (readFieldArrayLoop (fuel + 1) depth) := by
  rw [Buffer.readFieldArray, readFieldArrayLoop]
  refine .ite (fun _ => .raise _) fun _ => ?_
  exact refines_uint32.bind fun len => .bind .position fun start => ih.elements depth _ []

theorem elements_succ (ih : LoopsRefine fuel) (depth finish : Nat) (a : FieldArray) :
    Refines (Buffer.readFieldElements (fuel + 1) depth finish a) (readFieldElements (fuel + 1) depth finish a) := by
  rw [Buffer.readFieldElements, readFieldElements]
  refine .bind .position fun pos => .ite (fun _ => ?_) fun _ => .pure a
  exact (ih.value (depth + 1)).bind fun val => ih.elements depth finish _

end LoopsRefine

theorem loopsRefine (fuel : Nat) : LoopsRefine fuel := by
  induction fuel with
  | zero =>
    constructor
    · intro depth
      rw [Buffer.readFieldValue, readFieldValueLoop]
      exact .raise _
    · intro depth
      rw [Buffer.readFieldTable, readFieldTableLoop]
      exact .raise _
    · intro depth finish t
      rw [Buffer.readFieldEntries, readFieldEntries]
      exact .raise _
    · intro depth
      rw [Buffer.readFieldArray, readFieldArrayLoop]
      exact .raise _
    · intro depth finish a
      rw [Buffer.readFieldElements, readFieldElements]
      exact .raise _
  | succ fuel ih => exact ⟨ih.value_succ, ih.table_succ, ih.entries_succ, ih.array_succ, ih.elements_succ⟩

/-! ### Fuel -/

/-- A run that is over stays as it is with more fuel. --/
structure LoopsExtend (fuel : Nat) : Prop where
  value : ∀ depth, Extends .outOfFuel (Buffer.readFieldValue fuel depth) (Buffer.readFieldValue (fuel + 1) depth)
  table : ∀ depth, Extends .outOfFuel (Buffer.readFieldTable fuel depth) (Buffer.readFieldTable (fuel + 1) depth)
  entries : ∀ depth finish t,
    Extends .outOfFuel (Buffer.readFieldEntries fuel depth finish t) (Buffer.readFieldEntries (fuel + 1) depth finish t)
  array : ∀ depth, Extends .outOfFuel (Buffer.readFieldArray fuel depth) (Buffer.readFieldArray (fuel + 1) depth)
  elements : ∀ depth finish a,
    Extends .outOfFuel (Buffer.readFieldElements fuel depth finish a) (Buffer.readFieldElements (fuel + 1) depth finish a)

namespace LoopsExtend
variable {fuel : Nat}

theorem value_succ (ih : LoopsExtend fuel) (depth : Nat) :
    Extends .outOfFuel (Buffer.readFieldValue (fuel + 1) depth) (Buffer.readFieldValue (fuel + 2) depth) := by
  rw [Buffer.readFieldValue, Buffer.readFieldValue]
  refine .bind (.refl _) fun tag => ?_
  split
  case h_15 => exact .bind (ih.table (depth + 1)) fun _ => .refl _
  case h_16 => exact .bind (ih.array depth) fun _ => .refl _
  all_goals exact .refl _

theorem table_succ (ih : LoopsExtend fuel) (depth : Nat) :
    Extends .outOfFuel (Buffer.readFieldTable (fuel + 1) depth) (Buffer.readFieldTable (fuel + 2) depth) := by
  rw [Buffer.readFieldTable, Buffer.readFieldTable]
  exact .ite (.refl _) (.bind (.refl _) fun len => .bind (.refl _) fun start => ih.entries depth _ [])

theorem entries_succ (ih : LoopsExtend fuel) (depth finish : Nat) (t : FieldTable) :
    Extends .outOfFuel (Buffer.readFieldEntries (fuel + 1) depth finish t)
      (Buffer.readFieldEntries (fuel + 2) depth finish t) := by
  rw [Buffer.readFieldEntries, Buffer.readFieldEntries]
  refine .bind (.refl _) fun pos => .ite (.bind (.refl _) fun name => ?_) (.refl _)
  exact .bind (ih.value depth) fun val => ih.entries depth finish _

theorem array_succ (ih : LoopsExtend fuel) (depth : Nat) :
    Extends .outOfFuel (Buffer.readFieldArray (fuel + 1) depth) (Buffer.readFieldArray (fuel + 2) depth) := by
  rw [Buffer.readFieldArray, Buffer.readFieldArray]
  exact .ite (.refl _) (.bind (.refl _) fun len => .bind (.refl _) fun start => ih.elements depth _ [])

theorem elements_succ (ih : LoopsExtend fuel) (depth finish : Nat) (a : FieldArray) :
    Extends .outOfFuel (Buffer.readFieldElements (fuel + 1) depth finish a)
      (Buffer.readFieldElements (fuel + 2) depth finish a) := by
  rw [Buffer.readFieldElements, Buffer.readFieldElements]
  refine .bind (.refl _) fun pos => .ite (.bind (ih.value (depth + 1)) fun val => ?_) (.refl _)
  exact ih.elements depth finish _

end LoopsExtend

theorem loopsExtend (fuel : Nat) : LoopsExtend fuel := by
  induction fuel with
  | zero =>
    constructor
    · intro depth
      rw [Buffer.readFieldValue]
      exact .raise _
    · intro depth
      rw [Buffer.readFieldTable]
      exact .raise _
    · intro depth finish t
      rw [Buffer.readFieldEntries]
      exact .raise _
    · intro depth
      rw [Buffer.readFieldArray]
      exact .raise _
    · intro depth finish a
      rw [Buffer.readFieldElements]
      exact .raise _
  | succ fuel ih => exact ⟨ih.value_succ, ih.table_succ, ih.entries_succ, ih.array_succ, ih.elements_succ⟩

/-- `x` does not run on fuel. --/
def Fuelless {α : Type} (x : Read α) : Prop := ∀ b, x b ≠ .error .outOfFuel

namespace Fuelless
variable {α β : Type} {x : Read α} {f : α → Read β}

theorem pure (a : α) : Fuelless (Pure.pure a) := fun _ => nofun

theorem bind (hx : Fuelless x) (hf : ∀ a, Fuelless (f a)) : Fuelless (x >>= f) :=
  fun b => Reader.bind_ne_error (hx b) fun a b' _ => hf a b'

theorem map (g : α → β) (hx : Fuelless x) : Fuelless (x >>= fun a => Pure.pure (g a)) := hx.bind fun a => .pure (g a)

theorem bytes (n : Nat) : Fuelless (readBytes n) := by
  intro b
  rw [readBytes, Reader.take]
  split <;> nofun

theorem uint8 : Fuelless readUint8 := (bytes 1).map _
theorem uint16 : Fuelless readUint16 := (bytes 2).map _
theorem uint32 : Fuelless readUint32 := (bytes 4).map _
theorem uint64 : Fuelless readUint64 := (bytes 8).map _
theorem shortString : Fuelless readShortString := uint8.bind fun _ => bytes _
theorem longString : Fuelless readLongString := uint32.bind fun _ => bytes _

theorem position : Fuelless Reader.position := fun _ => nofun

theorem scalar (tag : UInt8) : Fuelless (readTagged (Pure.pure []) (Pure.pure []) tag) := by
  rw [readTagged]
  split
  · exact uint8.map _
  · exact (uint8.map _).map _
  · exact uint8.map _
  · exact (uint16.map _).map _
  · exact uint16.map _
  · exact (uint32.map _).map _
  · exact uint32.map _
  · exact (uint64.map _).map _
  · exact uint64.map _
  · exact uint32.map _
  · exact uint64.map _
  · exact shortString.map _
  · exact longString.map _
  · exact uint64.map _
  · exact (pure []).map _
  · exact (pure []).map _
  · exact pure _
  · exact fun _ => nofun

end Fuelless

theorem readTagged_ne {table : Read FieldTable} {array : Read FieldArray} {b : Buffer} (tag : UInt8)
    (htable : table b ≠ .error .outOfFuel) (harray : array b ≠ .error .outOfFuel) :
    readTagged table array tag b ≠ .error .outOfFuel := by
  by_cases hF : Char.ofNat tag.toNat = 'F'
  · rw [readTagged_table hF]
    exact Reader.bind_ne_error htable fun _ _ _ => nofun
  · by_cases hA : Char.ofNat tag.toNat = 'A'
    · rw [readTagged_array hA]
      exact Reader.bind_ne_error harray fun _ _ _ => nofun
    · have hscalar : readTagged table array tag = readTagged (Pure.pure []) (Pure.pure []) tag := readTagged_scalar hF hA
      rw [hscalar]
      exact Fuelless.scalar tag b

/-- Fuel for more than the unread bytes is enough. The elements of an array need one more. --/
structure FuelSuffices (fuel : Nat) : Prop where
  value : ∀ depth (b : Buffer), b.unread.length < fuel → readFieldValueLoop fuel depth b ≠ .error .outOfFuel
  table : ∀ depth (b : Buffer), b.unread.length < fuel → readFieldTableLoop fuel depth b ≠ .error .outOfFuel
  entries : ∀ depth finish t (b : Buffer), b.unread.length < fuel → readFieldEntries fuel depth finish t b ≠ .error .outOfFuel
  array : ∀ depth (b : Buffer), b.unread.length < fuel → readFieldArrayLoop fuel depth b ≠ .error .outOfFuel
  elements : ∀ depth finish a (b : Buffer), b.unread.length + 1 < fuel →
    readFieldElements fuel depth finish a b ≠ .error .outOfFuel

namespace FuelSuffices
variable {fuel : Nat}

theorem value_succ (ih : FuelSuffices fuel) (depth : Nat) (b : Buffer) (h : b.unread.length < fuel + 1) :
    readFieldValueLoop (fuel + 1) depth b ≠ .error .outOfFuel := by
  rw [readFieldValueLoop_succ]
  refine Reader.bind_ne_error (Fuelless.uint8 b) fun tag b₁ htag => ?_
  have hlt : b₁.unread.length < fuel := Nat.lt_of_lt_of_le (uint8_lt htag) (Nat.lt_succ_iff.mp h)
  exact readTagged_ne tag (ih.table (depth + 1) b₁ hlt) (ih.array depth b₁ hlt)

theorem table_succ (ih : FuelSuffices fuel) (depth : Nat) (b : Buffer) (h : b.unread.length < fuel + 1) :
    readFieldTableLoop (fuel + 1) depth b ≠ .error .outOfFuel := by
  rw [readFieldTableLoop]
  split
  · intro herror
    cases herror
  · refine Reader.bind_ne_error (Fuelless.uint32 b) fun len b₁ hlen => ?_
    exact ih.entries depth _ [] b₁ (Nat.lt_of_lt_of_le (uint32_lt hlen) (Nat.lt_succ_iff.mp h))

theorem entries_succ (ih : FuelSuffices fuel) (depth finish : Nat) (t : FieldTable) (b : Buffer)
    (h : b.unread.length < fuel + 1) : readFieldEntries (fuel + 1) depth finish t b ≠ .error .outOfFuel := by
  by_cases hlt : b.position < finish
  · rw [readFieldEntries_of_lt hlt]
    refine Reader.bind_ne_error (Fuelless.shortString b) fun name b₁ hname => ?_
    have h₁ : b₁.unread.length < fuel := Nat.lt_of_lt_of_le (shortString_lt hname) (Nat.lt_succ_iff.mp h)
    refine Reader.bind_ne_error (ih.value depth b₁ h₁) fun val b₂ hval => ?_
    exact ih.entries depth finish _ b₂ (Nat.lt_trans (value_lt hval) h₁)
  · rw [readFieldEntries_of_le (Nat.le_of_not_lt hlt)]
    nofun

theorem array_succ (ih : FuelSuffices fuel) (depth : Nat) (b : Buffer) (h : b.unread.length < fuel + 1) :
    readFieldArrayLoop (fuel + 1) depth b ≠ .error .outOfFuel := by
  rw [readFieldArrayLoop]
  split
  · intro herror
    cases herror
  · refine Reader.bind_ne_error (Fuelless.uint32 b) fun len b₁ hlen => ?_
    obtain ⟨used, hused, -, hu⟩ := accepts_uint32 b len b₁ hlen
    refine ih.elements depth _ [] b₁ ?_
    rw [hused, List.length_append, hu] at h
    omega

theorem elements_succ (ih : FuelSuffices fuel) (depth finish : Nat) (a : FieldArray) (b : Buffer)
    (h : b.unread.length + 1 < fuel + 1) : readFieldElements (fuel + 1) depth finish a b ≠ .error .outOfFuel := by
  have hb : b.unread.length < fuel := Nat.lt_of_succ_lt_succ h
  by_cases hlt : b.position < finish
  · rw [readFieldElements_of_lt hlt]
    refine Reader.bind_ne_error (ih.value (depth + 1) b hb) fun val b₁ hval => ?_
    exact ih.elements depth finish _ b₁ (Nat.lt_of_le_of_lt (value_lt hval) hb)
  · rw [readFieldElements_of_le (Nat.le_of_not_lt hlt)]
    nofun

end FuelSuffices

theorem fuelSuffices (fuel : Nat) : FuelSuffices fuel := by
  induction fuel with
  | zero => exact ⟨nofun, nofun, nofun, nofun, nofun⟩
  | succ fuel ih => exact ⟨ih.value_succ, ih.table_succ, ih.entries_succ, ih.array_succ, ih.elements_succ⟩

/-! ### Nesting -/

mutual

/-- How many levels of tables and arrays there are in a value. --/
def FieldValue.nesting : FieldValue → Nat
  | .table t => 1 + nestingEntries t
  | .array a => 1 + nestingElements a
  | _ => 0

def nestingEntries : FieldTable → Nat
  | [] => 0
  | (_, val) :: rest => max val.nesting (nestingEntries rest)

def nestingElements : FieldArray → Nat
  | [] => 0
  | elem :: rest => max elem.nesting (nestingElements rest)

end

/-- A table is a level itself. --/
def FieldTable.nesting (t : FieldTable) : Nat := 1 + nestingEntries t

mutual

/-- A table is refused at a depth above the limit, and so is an array, whose elements are one deeper. --/
theorem FieldValue.nesting_le {depth : Nat} (v : FieldValue) (h : v.WellFormed depth) :
    v.nesting ≤ MAX_FIELD_TABLE_DEPTH + 1 - depth := by
  match v with
  | .table t =>
    rw [FieldValue.WellFormed] at h
    rw [FieldValue.nesting]
    have := nestingEntries_le t h.2
    omega
  | .array a =>
    rw [FieldValue.WellFormed] at h
    rw [FieldValue.nesting]
    have := nestingElements_le a h.2
    omega
  | .boolean _ | .shortShortInt _ | .shortShortUint _ | .shortInt _ | .shortUint _ | .longInt _ | .longUint _
  | .longLongInt _ | .longLongUint _ | .floatVal _ | .doubleVal _ | .shortString _ | .longString _ | .timestamp _
  | .voidVal => exact Nat.zero_le _

theorem nestingEntries_le {depth : Nat} (t : FieldTable) (h : entriesWellFormed depth t) :
    nestingEntries t ≤ MAX_FIELD_TABLE_DEPTH + 1 - depth := by
  match t with
  | [] => exact Nat.zero_le _
  | (name, val) :: rest =>
    rw [entriesWellFormed] at h
    exact Nat.max_le.mpr ⟨val.nesting_le h.2.1, nestingEntries_le rest h.2.2.2⟩

theorem nestingElements_le {depth : Nat} (a : FieldArray) (h : elementsWellFormed depth a) :
    nestingElements a ≤ MAX_FIELD_TABLE_DEPTH + 1 - depth := by
  match a with
  | [] => exact Nat.zero_le _
  | elem :: rest =>
    rw [elementsWellFormed] at h
    exact Nat.max_le.mpr ⟨elem.nesting_le h.1, nestingElements_le rest h.2⟩

end

/-! ### How the readers end -/

/-- On every fuel for more than the unread bytes the reader ends in the same way: it returns a value with `P`, or throws an
    exception of the source, and makes no access outside the buffer. The position has not moved back, nor past the end. --/
def Settles {α : Type} (read : Nat → Buffer.Access α) (P : α → Prop) (b : Store) : Prop :=
  ∃ outcome b', (∀ fuel, b.data.length - b.pos < fuel → start (read fuel) b = (outcome, b')) ∧ Forward b b' ∧
    match outcome with
    | .ok v => P v
    | .error (.thrown e) => e ≠ .outOfFuel
    | .error (.outOfBounds _) => False

theorem settles_of_refines {α : Type} {read : Nat → Buffer.Access α} {readLoop : Nat → Read α} {P : α → Prop} {b : Store}
    (hpos : b.pos ≤ b.data.length) (hrefines : ∀ fuel, Refines (read fuel) (readLoop fuel))
    (hextends : ∀ fuel, Extends .outOfFuel (read fuel) (read (fuel + 1)))
    (hsuffices : ∀ fuel, b.cursor.unread.length < fuel → readLoop fuel b.cursor ≠ .error .outOfFuel)
    (hyields : ∀ fuel, Reader.Yields (readLoop fuel) P) : Settles read P b := by
  have hleft : b.cursor.unread.length = b.data.length - b.pos := List.length_drop
  have hagrees := hrefines (b.data.length - b.pos + 1) b hpos
  have hspent := hsuffices (b.data.length - b.pos + 1) (by omega)
  have hvalue := hyields (b.data.length - b.pos + 1) b.cursor
  have hmore : ∀ outcome b', start (read (b.data.length - b.pos + 1)) b = (outcome, b') →
      outcome ≠ .error (.thrown .outOfFuel) → ∀ fuel, b.data.length - b.pos < fuel → start (read fuel) b = (outcome, b') := by
    intro outcome b' hend hne fuel hfuel
    rw [Extends.of_le hextends (by rwa [hend]) hfuel, hend]
  generalize hread : readLoop (b.data.length - b.pos + 1) b.cursor = r at hagrees hspent hvalue
  generalize hend : start (read (b.data.length - b.pos + 1)) b = o at hagrees
  cases hagrees with
  | ok v hto => exact ⟨.ok v, _, hmore _ _ hend nofun, hto, hvalue v _ rfl⟩
  | thrown e hto =>
    have he : e ≠ .outOfFuel := fun heq => hspent (congrArg Except.error heq)
    exact ⟨.error (.thrown e), _, hmore _ _ hend fun heq => he (Fault.thrown.inj (Except.error.inj heq)), hto, he⟩

/-- From every position in every buffer, whatever lengths it announces, and at every depth. --/
theorem readers_settle (data : Bytes) (pos depth : Nat) (hpos : pos ≤ data.length) :
    Settles (fun fuel => Buffer.readFieldTable fuel depth) (fun t => t.nesting ≤ MAX_FIELD_TABLE_DEPTH + 2 - depth)
      ⟨data, pos⟩ ∧
    Settles (fun fuel => Buffer.readFieldValue fuel depth) (fun v => v.nesting ≤ MAX_FIELD_TABLE_DEPTH + 1 - depth)
      ⟨data, pos⟩ := by
  constructor
  · refine settles_of_refines hpos (fun fuel => (loopsRefine fuel).table depth) (fun fuel => (loopsExtend fuel).table depth)
      (fun fuel => (fuelSuffices fuel).table depth _) fun fuel => ?_
    refine .of_accepts ((loopsAccept fuel).table depth) fun t used ht => ?_
    have hle := nestingEntries_le t ht.2.1
    rw [FieldTable.nesting]
    omega
  · refine settles_of_refines hpos (fun fuel => (loopsRefine fuel).value depth) (fun fuel => (loopsExtend fuel).value depth)
      (fun fuel => (fuelSuffices fuel).value depth _) fun fuel => ?_
    exact .of_accepts ((loopsAccept fuel).value depth) fun v used hv => v.nesting_le hv.1

/-- A table of four bytes that announces as many as it can. --/
theorem readers_settle_huge :
    Settles (fun fuel => Buffer.readFieldTable fuel 0) (fun t => t.nesting ≤ 34) ⟨[255, 255, 255, 255], 0⟩ ∧
    Settles (fun fuel => Buffer.readFieldValue fuel 0) (fun v => v.nesting ≤ 33) ⟨[255, 255, 255, 255], 0⟩ :=
  readers_settle [255, 255, 255, 255] 0 0 (by decide)

end Broko.Amqp
