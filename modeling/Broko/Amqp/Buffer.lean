import Broko.Amqp.Types
import Broko.Lib.Indexed

/-! `Buffer` of `src/amqp/types.h` as it reads: `data_`, `pos_`, and every access to a byte by its index. -/

namespace Broko.Amqp.Buffer
open Indexed

abbrev Access (α : Type) := Indexed ReadError α

def ensure (n : Nat) : Access Unit := do
  let size ← size
  let pos ← position
  if n > size ∨ pos > size - n then raise .underflow else return ()

def readUint8 : Access UInt8 := do
  ensure 1
  let pos ← position
  let v ← byteAt pos
  advance 1
  return v

def readUint16 : Access UInt16 := do
  ensure 2
  let pos ← position
  let b₀ ← byteAt pos
  let b₁ ← byteAt (pos + 1)
  advance 2
  return (b₀.toUInt16 <<< 8) ||| b₁.toUInt16

def readUint32 : Access UInt32 := do
  ensure 4
  let pos ← position
  let b₀ ← byteAt pos
  let b₁ ← byteAt (pos + 1)
  let b₂ ← byteAt (pos + 2)
  let b₃ ← byteAt (pos + 3)
  advance 4
  return (b₀.toUInt32 <<< 24) ||| (b₁.toUInt32 <<< 16) ||| (b₂.toUInt32 <<< 8) ||| b₃.toUInt32

/-- The loop of `readUint64` over the `n` bytes from `i` on, with the value so far. --/
def readUint64Loop (v : UInt64) (i : Nat) : Nat → Access UInt64
  | 0 => return v
  | n + 1 => do
    let b ← byteAt i
    readUint64Loop ((v <<< 8) ||| b.toUInt64) (i + 1) n

def readUint64 : Access UInt64 := do
  ensure 8
  let pos ← position
  let v ← readUint64Loop 0 pos 8
  advance 8
  return v

def readInt8 : Access Int8 := do return (← readUint8).toInt8
def readInt16 : Access Int16 := do return (← readUint16).toInt16
def readInt32 : Access Int32 := do return (← readUint32).toInt32
def readInt64 : Access Int64 := do return (← readUint64).toInt64

def readBytes (n : Nat) : Access Bytes := do
  ensure n
  let pos ← position
  let v ← bytesFrom pos n
  advance n
  return v

/-- The source repeats the body of `readBytes` here and in `readLongString`. --/
def readShortString : Access Bytes := do
  let len ← readUint8
  readBytes len.toNat

def readLongString : Access Bytes := do
  let len ← readUint32
  readBytes len.toNat

mutual

/-- `readFieldValue(depth)`, for as many calls and rounds deep as there is fuel. --/
def readFieldValue : (fuel depth : Nat) → Access FieldValue
  | 0, _ => raise .outOfFuel
  | fuel + 1, depth => do
    let tag ← readUint8
    match Char.ofNat tag.toNat with
    | 't' => return .boolean ((← readUint8) != 0)
    | 'b' => return .shortShortInt (← readInt8)
    | 'B' => return .shortShortUint (← readUint8)
    | 'U' => return .shortInt (← readInt16)
    | 'u' => return .shortUint (← readUint16)
    | 'I' => return .longInt (← readInt32)
    | 'i' => return .longUint (← readUint32)
    | 'L' => return .longLongInt (← readInt64)
    | 'l' => return .longLongUint (← readUint64)
    | 'f' => return .floatVal (← readUint32)
    | 'd' => return .doubleVal (← readUint64)
    | 's' => return .shortString (← readShortString)
    | 'S' => return .longString (← readLongString)
    | 'T' => return .timestamp (← readUint64)
    | 'F' => return .table (← readFieldTable fuel (depth + 1))
    | 'A' => return .array (← readFieldArray fuel depth)
    | 'V' => return .voidVal
    | _ => raise (.unknownFieldType tag)

/-- `readFieldTable(depth)`. --/
def readFieldTable : (fuel depth : Nat) → Access FieldTable
  | 0, _ => raise .outOfFuel
  | fuel + 1, depth =>
    if depth > MAX_FIELD_TABLE_DEPTH then raise .depthExceeded
    else do
      let tableLen ← readUint32
      let start ← position
      readFieldEntries fuel depth (start + tableLen.toNat) []

/-- The loop of `readFieldTable` until `end`, with the table read so far. --/
def readFieldEntries : (fuel depth finish : Nat) → FieldTable → Access FieldTable
  | 0, _, _, _ => raise .outOfFuel
  | fuel + 1, depth, finish, table => do
    if (← position) < finish then
      let name ← readShortString
      let val ← readFieldValue fuel depth
      readFieldEntries fuel depth finish (FieldTable.emplace name val table)
    else
      return table

/-- The array case of `readFieldValue(depth)`. --/
def readFieldArray : (fuel depth : Nat) → Access FieldArray
  | 0, _ => raise .outOfFuel
  | fuel + 1, depth =>
    if depth > MAX_FIELD_TABLE_DEPTH then raise .depthExceeded
    else do
      let arrLen ← readUint32
      let start ← position
      readFieldElements fuel depth (start + arrLen.toNat) []

/-- The loop of the array case until `end`, with the elements read so far. --/
def readFieldElements : (fuel depth finish : Nat) → FieldArray → Access FieldArray
  | 0, _, _, _ => raise .outOfFuel
  | fuel + 1, depth, finish, arr => do
    if (← position) < finish then
      let val ← readFieldValue fuel (depth + 1)
      readFieldElements fuel depth finish (arr ++ [val])
    else
      return arr

end

end Broko.Amqp.Buffer
