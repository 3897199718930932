import Broko.Lib.BigEndian
import Broko.Lib.Reader

/-! `src/amqp/types.h`: the typed values of AMQP field tables and the buffer that reads and writes them.

    A `Buffer` that is read is a cursor: `pos_` and the bytes from there on. `ensure(n)` fails exactly
    when fewer than `n` bytes are left, and every access goes through it. A `Buffer` that is written
    only grows at its end, so a write function returns the bytes that it appends. -/

namespace Broko.Amqp

/-- `std::string` and `std::vector<uint8_t>`. --/
abbrev Bytes := List UInt8

/-- The bytes of an ASCII literal. --/
def ascii (s : String) : Bytes := s.toList.map fun c => UInt8.ofNat c.toNat

/-- `FieldValue`, one constructor for each of its static functions. `int_val` widens the integer
    payloads to 64 bits and the writer narrows them back to the width of the tag, so each value keeps
    the type of its own constructor here. Floats and doubles are their bit patterns. --/
inductive FieldValue where
  | boolean (v : Bool)
  | shortShortInt (v : Int8)
  | shortShortUint (v : UInt8)
  | shortInt (v : Int16)
  | shortUint (v : UInt16)
  | longInt (v : Int32)
  | longUint (v : UInt32)
  | longLongInt (v : Int64)
  | longLongUint (v : UInt64)
  | floatVal (bits : UInt32)
  | doubleVal (bits : UInt64)
  | shortString (v : Bytes)
  | longString (v : Bytes)
  | timestamp (v : UInt64)
  | table (t : List (Bytes × FieldValue))
  | array (a : List FieldValue)
  | voidVal
  deriving Repr, BEq

/-- `std::map<std::string, FieldValue>` in iteration order, that is by key. --/
abbrev FieldTable := List (Bytes × FieldValue)

abbrev FieldArray := List FieldValue

namespace FieldTable

/-- `std::map::emplace`: an entry that is there already stays as it is. --/
def emplace (name : Bytes) (val : FieldValue) : FieldTable → FieldTable
  | [] => [(name, val)]
  | (n, v) :: rest =>
    if name < n then (name, val) :: (n, v) :: rest
    else if n < name then (n, v) :: emplace name val rest
    else (n, v) :: rest

/-- `table[name] = val`. --/
def assign (name : Bytes) (val : FieldValue) : FieldTable → FieldTable
  | [] => [(name, val)]
  | (n, v) :: rest =>
    if name < n then (name, val) :: (n, v) :: rest
    else if n < name then (n, v) :: assign name val rest
    else (n, val) :: rest

/-- `std::map::find`. --/
def find (name : Bytes) (t : FieldTable) : Option FieldValue := t.lookup name

end FieldTable

/-! ### Writing -/

def writeUint8 (v : UInt8) : Bytes := [v]
def writeUint16 (v : UInt16) : Bytes := BigEndian.encode 2 v.toNat
def writeUint32 (v : UInt32) : Bytes := BigEndian.encode 4 v.toNat
def writeUint64 (v : UInt64) : Bytes := BigEndian.encode 8 v.toNat

def writeInt8 (v : Int8) : Bytes := writeUint8 v.toUInt8
def writeInt16 (v : Int16) : Bytes := writeUint16 v.toUInt16
def writeInt32 (v : Int32) : Bytes := writeUint32 v.toUInt32
def writeInt64 (v : Int64) : Bytes := writeUint64 v.toUInt64

/-- Only the first 255 bytes are written. --/
def writeShortString (s : Bytes) : Bytes :=
  writeUint8 (UInt8.ofNat (min s.length 255)) ++ s.take (min s.length 255)

def writeLongString (s : Bytes) : Bytes := writeUint32 (UInt32.ofNat s.length) ++ s

/-- A type tag as it stands on the wire. --/
def tagByte (c : Char) : UInt8 := UInt8.ofNat c.toNat

mutual

def writeFieldValue : FieldValue → Bytes
  | .boolean v => tagByte 't' :: writeUint8 (if v then 1 else 0)
  | .shortShortInt v => tagByte 'b' :: writeInt8 v
  | .shortShortUint v => tagByte 'B' :: writeUint8 v
  | .shortInt v => tagByte 'U' :: writeInt16 v
  | .shortUint v => tagByte 'u' :: writeUint16 v
  | .longInt v => tagByte 'I' :: writeInt32 v
  | .longUint v => tagByte 'i' :: writeUint32 v
  | .longLongInt v => tagByte 'L' :: writeInt64 v
  | .longLongUint v => tagByte 'l' :: writeUint64 v
  | .floatVal bits => tagByte 'f' :: writeUint32 bits
  | .doubleVal bits => tagByte 'd' :: writeUint64 bits
  | .shortString v => tagByte 's' :: writeShortString v
  | .longString v => tagByte 'S' :: writeLongString v
  | .timestamp v => tagByte 'T' :: writeUint64 v
  | .table t =>
    let inner := writeFieldEntries t
    tagByte 'F' :: (writeUint32 (UInt32.ofNat inner.length) ++ inner)
  | .array a =>
    let inner := writeFieldElements a
    tagByte 'A' :: (writeUint32 (UInt32.ofNat inner.length) ++ inner)
  | .voidVal => [tagByte 'V']

/-- The loop of `writeFieldTable` over the entries. --/
def writeFieldEntries : FieldTable → Bytes
  | [] => []
  | (name, val) :: rest => writeShortString name ++ writeFieldValue val ++ writeFieldEntries rest

/-- The loop of the array case of `writeFieldValue`. --/
def writeFieldElements : FieldArray → Bytes
  | [] => []
  | elem :: rest => writeFieldValue elem ++ writeFieldElements rest

end

def writeFieldTable (t : FieldTable) : Bytes :=
  let inner := writeFieldEntries t
  writeUint32 (UInt32.ofNat inner.length) ++ inner

/-! ### Reading -/

/-- What the readers throw. `outOfFuel` is not an exception of the source: the two loops over field
    tables and arrays run on fuel here, and they are given more than they can use. --/
inductive ReadError where
  | underflow
  | depthExceeded
  | unknownFieldType (tag : UInt8)
  | outOfFuel
  deriving DecidableEq, Repr

abbrev Buffer := Reader.Cursor

/-- A buffer over `data`, read from its start. --/
def Buffer.ofBytes (data : Bytes) : Buffer := ⟨0, data⟩

abbrev Read (α : Type) := Reader ReadError α

def readBytes (n : Nat) : Read Bytes := Reader.take .underflow n

def readUint8 : Read UInt8 := do
  let bs ← readBytes 1
  return UInt8.ofNat (BigEndian.decode bs)

def readUint16 : Read UInt16 := do
  let bs ← readBytes 2
  return UInt16.ofNat (BigEndian.decode bs)

def readUint32 : Read UInt32 := do
  let bs ← readBytes 4
  return UInt32.ofNat (BigEndian.decode bs)

def readUint64 : Read UInt64 := do
  let bs ← readBytes 8
  return UInt64.ofNat (BigEndian.decode bs)

def readInt8 : Read Int8 := do return (← readUint8).toInt8
def readInt16 : Read Int16 := do return (← readUint16).toInt16
def readInt32 : Read Int32 := do return (← readUint32).toInt32
def readInt64 : Read Int64 := do return (← readUint64).toInt64

def readShortString : Read Bytes := do
  let len ← readUint8
  readBytes len.toNat

def readLongString : Read Bytes := do
  let len ← readUint32
  readBytes len.toNat

def MAX_FIELD_TABLE_DEPTH : Nat := 32

mutual

/-- `readFieldValue(depth)`, on `fuel`. --/
def readFieldValueLoop : (fuel depth : Nat) → Read FieldValue
  | 0, _ => throw .outOfFuel
  | fuel + 1, depth => do
    let tag ← readUint8
    match Char.ofNat tag.toNat with
    | 't' => return .boolean ((← readUint8) != 0)
    | 'b' => return .shortShortInt (← readInt8)
    | 'B' => return .shortShortUint (← readUint8)
    | 'U' => return .shortInt (← readInt16)
    | 'u' => return .shortUint (← readUint16)
    | 'I' => return .longInt (← readInt32)
    | 'i' => return .longUint (← readUint32)
    | 'L' => return .longLongInt (← readInt64)
    | 'l' => return .longLongUint (← readUint64)
    | 'f' => return .floatVal (← readUint32)
    | 'd' => return .doubleVal (← readUint64)
    | 's' => return .shortString (← readShortString)
    | 'S' => return .longString (← readLongString)
    | 'T' => return .timestamp (← readUint64)
    | 'F' => return .table (← readFieldTableLoop fuel (depth + 1))
    | 'A' => return .array (← readFieldArrayLoop fuel depth)
    | 'V' => return .voidVal
    | _ => throw (.unknownFieldType tag)

/-- `readFieldTable(depth)`, on `fuel`. --/
def readFieldTableLoop : (fuel depth : Nat) → Read FieldTable
  | 0, _ => throw .outOfFuel
  | fuel + 1, depth =>
    if depth > MAX_FIELD_TABLE_DEPTH then throw .depthExceeded
    else do
      let tableLen ← readUint32
      let start ← Reader.position
      readFieldEntries fuel depth (start + tableLen.toNat) []

/-- The loop of `readFieldTable` until `end`, with the table read so far. --/
def readFieldEntries : (fuel depth finish : Nat) → FieldTable → Read FieldTable
  | 0, _, _, _ => throw .outOfFuel
  | fuel + 1, depth, finish, table => do
    if (← Reader.position) < finish then
      let name ← readShortString
      let val ← readFieldValueLoop fuel depth
      readFieldEntries fuel depth finish (FieldTable.emplace name val table)
    else
      return table

/-- The array case of `readFieldValue(depth)`, on `fuel`. --/
def readFieldArrayLoop : (fuel depth : Nat) → Read FieldArray
  | 0, _ => throw .outOfFuel
  | fuel + 1, depth =>
    if depth > MAX_FIELD_TABLE_DEPTH then throw .depthExceeded
    else do
      let arrLen ← readUint32
      let start ← Reader.position
      readFieldElements fuel depth (start + arrLen.toNat) []

/-- The loop of the array case until `end`, with the elements read so far. --/
def readFieldElements : (fuel depth finish : Nat) → FieldArray → Read FieldArray
  | 0, _, _, _ => throw .outOfFuel
  | fuel + 1, depth, finish, arr => do
    if (← Reader.position) < finish then
      let val ← readFieldValueLoop fuel (depth + 1)
      readFieldElements fuel depth finish (arr ++ [val])
    else
      return arr

end

/-- Each turn of the loops reads at least one byte, so one unit of fuel for each unread byte and one
    more is enough. --/
def readFieldTable (depth : Nat) : Read FieldTable := fun b =>
  readFieldTableLoop (b.unread.length + 1) depth b

def readFieldValue (depth : Nat) : Read FieldValue := fun b =>
  readFieldValueLoop (b.unread.length + 1) depth b

/-- The array case of `readFieldValue(depth)`, behind the tag. --/
def readFieldArray (depth : Nat) : Read FieldArray := fun b =>
  readFieldArrayLoop (b.unread.length + 1) depth b

end Broko.Amqp
