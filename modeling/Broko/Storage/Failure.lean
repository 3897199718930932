import Broko.Lib.OutputStream
import Broko.Storage.MessageStore

/-! `compactIfNeeded` on a file system that may fail while the temporary file is opened or written. -/

namespace Broko.Storage
open Amqp Broker

/-- How the temporary file fares: the bytes that an interrupted compaction left in it, if there is one, whether
    `walStream_.open` succeeds, and how many bytes of each `walStream_.write` reach the disk. --/
structure TmpFile where
  before : Option Bytes := none
  opens : Bool := true
  takes : Nat → Nat

/-- The four writes of `writeEntry`. --/
def entryWrites (entryType : UInt8) (payload : Bytes) : List Bytes :=
  let totalSize : UInt32 := 1 + UInt32.ofNat payload.length + 4
  [writeUint32 totalSize, [entryType], payload, writeUint32 (crc32 payload)]

/-- The writes of `compactIfNeeded`. --/
def liveWrites (data : RecoveryData) : List Bytes :=
  (MessageStore.liveEntries data).flatMap fun e => entryWrites e.type e.payload

/-- `compactIfNeeded` as the file system lets it go. No write is checked, and the temporary file is renamed
    in any case; `rename` throws where there is none, and the log stays. --/
def MessageStore.compactIfNeededOn (st : MessageStore) (tmp : TmpFile) : MessageStore :=
  let (liveData, st) := st.recoverLocked
  if tmp.opens then
    { st with wal := (({} : OutputStream UInt8).writeAll tmp.takes (liveWrites liveData)).file }
  else
    match tmp.before with
    | none => st
    | some bytes => { st with wal := bytes }

end Broko.Storage
