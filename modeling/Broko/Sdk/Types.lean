import Broko.Amqp.Types
import Broko.Lib.Utf16
import Broko.Lib.Utf8

/-! `sdk/broko-client-js/lib/types.js`: what the JavaScript client writes for the values of a field table, and what it
    reads.

    A string in a table is a sequence of 16-bit units. A number is the bit pattern of its double. A write that throws
    is `none`. -/

namespace Broko.Sdk
open Amqp

abbrev JsString := List UInt16

/-- `Buffer.from(s, 'utf8')`, which replaces a lone surrogate. --/
def bufferFrom (s : JsString) : Bytes := (Utf16.chars s).flatMap String.utf8EncodeChar

/-- The string of a text. --/
def text (s : String) : JsString := Utf16.units s.toList

/-- The values that `writeFieldValue` tells apart. An object has its entries in the order of `Object.entries`. --/
inductive JsValue where
  | null
  | boolean (v : Bool)
  | bigint (v : Int)
  | number (bits : UInt64)
  | string (v : JsString)
  | buffer (v : Bytes)
  | array (a : List JsValue)
  | object (t : List (JsString × JsValue))

abbrev JsTable := List (JsString × JsValue)

/-- The integer that a double stands for; `none` where `Number.isInteger` is false. --/
def integerOf (bits : UInt64) : Option Int :=
  let exponent := bits.toNat / 2 ^ 52 % 2 ^ 11
  let fraction := bits.toNat % 2 ^ 52
  let significand := if exponent = 0 then fraction else 2 ^ 52 + fraction
  let scale := max exponent 1
  let magnitude : Option Nat :=
    if exponent = 2047 then none
    else if 1075 ≤ scale then some (significand * 2 ^ (scale - 1075))
    else if significand % 2 ^ (1075 - scale) = 0 then some (significand / 2 ^ (1075 - scale))
    else none
  magnitude.map fun m => if bits.toNat / 2 ^ 63 = 1 then -(m : Int) else m

/-! ### Writing -/

/-- `writeUInt32BE` takes only what fits. --/
def writeUInt32 (v : Nat) : Option Bytes := if v < 2 ^ 32 then some (writeUint32 (UInt32.ofNat v)) else none

/-- `writeBigUInt64BE` takes only what fits. --/
def writeUInt64 (v : Int) : Option Bytes :=
  if 0 ≤ v ∧ v < 2 ^ 64 then some (writeUint64 (UInt64.ofNat v.toNat)) else none

/-- `writeShortString` from the buffer on. --/
def writeShort (buf : Bytes) : Bytes :=
  let len := min buf.length 255
  writeUint8 (UInt8.ofNat len) ++ buf.take len

/-- `writeShortString` of a text. --/
def writeShortString (s : String) : Bytes := writeShort (Utf8.encode s)

/-- A length of four bytes and as many bytes. --/
def writeSized (buf : Bytes) : Option Bytes := (writeUInt32 buf.length).map (· ++ buf)

/-- `writeLongString` of a text. --/
def writeLongString (s : String) : Option Bytes := writeSized (Utf8.encode s)

mutual

def writeFieldValue : JsValue → Option Bytes
  | .null => some [tagByte 'V']
  | .boolean v => some (tagByte 't' :: writeUint8 (if v then 1 else 0))
  | .bigint v => (writeUInt64 v).map (tagByte 'l' :: ·)
  | .number bits =>
    match integerOf bits with
    | some n => some (tagByte 'I' :: writeInt32 (Int32.ofInt n))
    | none => some (tagByte 'd' :: writeUint64 bits)
  | .string v => (writeSized (bufferFrom v)).map (tagByte 'S' :: ·)
  | .buffer v => (writeSized v).map (tagByte 'x' :: ·)
  | .array a => (writeFieldElements a).bind fun inner => (writeSized inner).map (tagByte 'A' :: ·)
  | .object t => (writeFieldEntries t).bind fun inner => (writeSized inner).map (tagByte 'F' :: ·)

/-- The loop of `writeFieldTable` over the entries. --/
def writeFieldEntries : JsTable → Option Bytes
  | [] => some []
  | (name, value) :: rest =>
    (writeFieldValue value).bind fun v => (writeFieldEntries rest).map fun more => writeShort (bufferFrom name) ++ (v ++ more)

/-- The loop of the array case of `writeFieldValue`. --/
def writeFieldElements : List JsValue → Option Bytes
  | [] => some []
  | e :: rest => (writeFieldValue e).bind fun v => (writeFieldElements rest).map fun more => v ++ more

end

def writeFieldTable (t : JsTable) : Option Bytes := (writeFieldEntries t).bind writeSized

/-! ### Reading

    The readers of integers are those of the broker: they throw where too few bytes are left. A string or a slice of
    bytes is what is there of it. -/

namespace Codec

/-- The double of an integer of at most 32 bits. --/
def doubleOfInt (n : Int) : UInt64 :=
  let magnitude := n.natAbs
  let exponent := Nat.log2 magnitude
  let sign := if n < 0 then 2 ^ 63 else 0
  if magnitude = 0 then 0
  else UInt64.ofNat (sign + (exponent + 1023) * 2 ^ 52 + (magnitude - 2 ^ exponent) * 2 ^ (52 - exponent))

/-- The double of a float of 32 bits. --/
def doubleOfFloat (bits : UInt32) : UInt64 :=
  let sign := bits.toNat / 2 ^ 31 * 2 ^ 63
  let exponent := bits.toNat / 2 ^ 23 % 2 ^ 8
  let fraction := bits.toNat % 2 ^ 23
  let top := Nat.log2 fraction
  if exponent = 255 then UInt64.ofNat (sign + 2047 * 2 ^ 52 + fraction * 2 ^ 29)
  else if exponent = 0 ∧ fraction = 0 then UInt64.ofNat sign
  else if exponent = 0 then
    UInt64.ofNat (sign + (top + 1023 - 149) * 2 ^ 52 + (fraction - 2 ^ top) * 2 ^ (52 - top))
  else UInt64.ofNat (sign + (exponent + 1023 - 127) * 2 ^ 52 + fraction * 2 ^ 29)

/-- `readBytes`. --/
def readSlice (n : Nat) : Read Bytes := fun b => .ok (b.unread.take n, ⟨b.position + n, b.unread.drop n⟩)

def readShortString : Read String := do
  let len ← readUint8
  return Utf8.decode (← readSlice len.toNat)

def readLongString : Read String := do
  let len ← readUint32
  return Utf8.decode (← readSlice len.toNat)

/-- `table[name] = value`. --/
def setEntry (name : JsString) (value : JsValue) : JsTable → JsTable
  | [] => [(name, value)]
  | (n, v) :: rest => if n = name then (n, value) :: rest else (n, v) :: setEntry name value rest

mutual

/-- `readFieldValue`, on fuel. --/
def readFieldValueLoop : Nat → Read JsValue
  | 0 => throw .outOfFuel
  | fuel + 1 => do
    let tag ← readUint8
    match Char.ofNat tag.toNat with
    | 't' => return .boolean ((← readUint8) != 0)
    | 'b' => return .number (doubleOfInt (← readInt8).toInt)
    | 'B' => return .number (doubleOfInt (← readUint8).toNat)
    | 'U' => return .number (doubleOfInt (← readInt16).toInt)
    | 'u' => return .number (doubleOfInt (← readUint16).toNat)
    | 'I' => return .number (doubleOfInt (← readInt32).toInt)
    | 'i' => return .number (doubleOfInt (← readUint32).toNat)
    | 'L' => return .bigint (← readInt64).toInt
    | 'l' => return .bigint (← readUint64).toNat
    | 'f' => return .number (doubleOfFloat (← readUint32))
    | 'd' => return .number (← readUint64)
    | 's' => return .string (text (← readShortString))
    | 'S' => return .string (text (← readLongString))
    | 'T' => return .bigint (← readUint64).toNat
    | 'F' => return .object (← readFieldTableLoop fuel)
    | 'A' => do
      let len ← readUint32
      let start ← Reader.position
      return .array (← readFieldElements fuel (start + len.toNat) [])
    | 'V' => return .null
    | 'x' => do
      let len ← readUint32
      return .buffer (← readSlice len.toNat)
    | _ => throw (.unknownFieldType tag)

def readFieldTableLoop : Nat → Read JsTable
  | 0 => throw .outOfFuel
  | fuel + 1 => do
    let len ← readUint32
    let start ← Reader.position
    readFieldEntries fuel (start + len.toNat) []

/-- The loop of `readFieldTable` until `end`, with the table read so far. --/
def readFieldEntries : (fuel finish : Nat) → JsTable → Read JsTable
  | 0, _, _ => throw .outOfFuel
  | fuel + 1, finish, table => do
    if (← Reader.position) < finish then
      let name ← readShortString
      let value ← readFieldValueLoop fuel
      readFieldEntries fuel finish (setEntry (text name) value table)
    else return table

/-- The loop of the array case of `readFieldValue` until `end`, with the elements read so far. --/
def readFieldElements : (fuel finish : Nat) → List JsValue → Read (List JsValue)
  | 0, _, _ => throw .outOfFuel
  | fuel + 1, finish, arr => do
    if (← Reader.position) < finish then
      let value ← readFieldValueLoop fuel
      readFieldElements fuel finish (arr ++ [value])
    else return arr

end

/-- Each turn of the loops reads at least one byte or throws. --/
def readFieldTable : Read JsTable := fun b => readFieldTableLoop (b.unread.length + 1) b

end Codec

/-! ### What values mean -/

/-- What a string or a buffer stands for. A string with a lone surrogate is the text of no bytes. --/
inductive Text where
  | bytes (v : Bytes)
  | lone (s : JsString)
  deriving DecidableEq

def textOf (s : JsString) : Text := if Utf16.wellFormed s then .bytes (bufferFrom s) else .lone s

/-- The data that a value of either side stands for. A table is what it has under each key. --/
inductive Datum where
  | null
  | boolean (v : Bool)
  | integer (v : Int)
  | float (bits : UInt32)
  | double (bits : UInt64)
  | text (v : Text)
  | array (a : List Datum)
  | table (t : Text → Option Datum)

mutual

def JsValue.datum : JsValue → Datum
  | .null => .null
  | .boolean v => .boolean v
  | .bigint v => .integer v
  | .number bits =>
    match integerOf bits with
    | some n => .integer n
    | none => .double bits
  | .string v => .text (textOf v)
  | .buffer v => .text (.bytes v)
  | .array a => .array (elementData a)
  | .object t => .table (entryData t)

def entryData : JsTable → Text → Option Datum
  | [] => fun _ => none
  | (name, value) :: rest => fun key => if key = textOf name then some value.datum else entryData rest key

def elementData : List JsValue → List Datum
  | [] => []
  | e :: rest => e.datum :: elementData rest

end

mutual

/-- What a value of the broker stands for. --/
def fieldDatum : FieldValue → Datum
  | .boolean v => .boolean v
  | .shortShortInt v => .integer v.toInt
  | .shortShortUint v => .integer v.toNat
  | .shortInt v => .integer v.toInt
  | .shortUint v => .integer v.toNat
  | .longInt v => .integer v.toInt
  | .longUint v => .integer v.toNat
  | .longLongInt v => .integer v.toInt
  | .longLongUint v => .integer v.toNat
  | .floatVal bits => .float bits
  | .doubleVal bits => .double bits
  | .shortString v => .text (.bytes v)
  | .longString v => .text (.bytes v)
  | .timestamp v => .integer v.toNat
  | .table t => .table (fieldEntryData t)
  | .array a => .array (fieldElementData a)
  | .voidVal => .null

def fieldEntryData : FieldTable → Text → Option Datum
  | [] => fun _ => none
  | (name, val) :: rest => fun key => if key = .bytes name then some (fieldDatum val) else fieldEntryData rest key

def fieldElementData : FieldArray → List Datum
  | [] => []
  | e :: rest => fieldDatum e :: fieldElementData rest

end

/-! ### The values at issue -/

mutual

/-- A `Buffer` is in it. --/
def JsValue.hasBuffer : JsValue → Bool
  | .buffer _ => true
  | .array a => elementsHaveBuffer a
  | .object t => entriesHaveBuffer t
  | _ => false

def entriesHaveBuffer : JsTable → Bool
  | [] => false
  | (_, value) :: rest => value.hasBuffer || entriesHaveBuffer rest

def elementsHaveBuffer : List JsValue → Bool
  | [] => false
  | e :: rest => e.hasBuffer || elementsHaveBuffer rest

end

/-- The integer, if the number is one, is one of 32 bits. --/
def inInt32 (bits : UInt64) : Bool := (integerOf bits).all fun n => -2 ^ 31 ≤ n && n < 2 ^ 31

mutual

/-- The integers among its numbers have 32 bits. --/
def JsValue.inRange : JsValue → Bool
  | .number bits => inInt32 bits
  | .array a => elementsInRange a
  | .object t => entriesInRange t
  | _ => true

def entriesInRange : JsTable → Bool
  | [] => true
  | (_, value) :: rest => value.inRange && entriesInRange rest

def elementsInRange : List JsValue → Bool
  | [] => true
  | e :: rest => e.inRange && elementsInRange rest

end

mutual

/-- No key and no string in it has a lone surrogate. --/
def JsValue.isText : JsValue → Bool
  | .string v => Utf16.wellFormed v
  | .array a => elementsAreText a
  | .object t => entriesAreText t
  | _ => true

def entriesAreText : JsTable → Bool
  | [] => true
  | (name, value) :: rest => Utf16.wellFormed name && value.isText && entriesAreText rest

def elementsAreText : List JsValue → Bool
  | [] => true
  | e :: rest => e.isText && elementsAreText rest

end

mutual

/-- Keys of an object are different from each other and at most 255 bytes long, and the nesting is within the limit of
    the broker. --/
def JsValue.Admissible (depth : Nat) : JsValue → Prop
  | .array a => depth ≤ MAX_FIELD_TABLE_DEPTH ∧ elementsAdmissible (depth + 1) a
  | .object t => depth + 1 ≤ MAX_FIELD_TABLE_DEPTH ∧ entriesAdmissible (depth + 1) t
  | _ => True

def entriesAdmissible (depth : Nat) : JsTable → Prop
  | [] => True
  | (name, value) :: rest =>
    (bufferFrom name).length ≤ 255 ∧ value.Admissible depth ∧ (∀ e ∈ rest, e.1 ≠ name) ∧ entriesAdmissible depth rest

def elementsAdmissible (depth : Nat) : List JsValue → Prop
  | [] => True
  | e :: rest => e.Admissible depth ∧ elementsAdmissible depth rest

end

end Broko.Sdk
