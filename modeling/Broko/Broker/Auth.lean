import Broko.Broker.Connection
import Broko.Lib.Lines

/-! `src/broker/auth.h`: the file of users. -/

namespace Broko.Broker
open Amqp

/-- `std::getline`: the bytes up to the next line feed, which is taken away with them. It fails at the end of the file. --/
def getline (text : Bytes) : Option (Bytes × Bytes) :=
  if text = [] then none
  else some (text.takeWhile (· ≠ tagByte '\n'), (text.dropWhile (· ≠ tagByte '\n')).drop 1)

namespace UserStore

/-- Without a trailing CR. --/
def trimCr (line : Bytes) : Bytes := if line.getLast? = some (tagByte '\r') then line.dropLast else line

/-- A round of the loop of `loadFromFile`. --/
def loadLine (users : Assoc Bytes Bytes) (line : Bytes) : Assoc Bytes Bytes :=
  let line := trimCr line
  if line = [] ∨ line.head? = some (tagByte '#') then users
  else
    match line.findIdx? (· = tagByte ':') with
    | none => users
    | some pos => users.insert (line.take pos) (line.drop (pos + 1))

/-- The loop, on fuel for each byte of the file. --/
def loadLoop : Nat → Bytes → Assoc Bytes Bytes → Assoc Bytes Bytes
  | 0, _, users => users
  | fuel + 1, text, users =>
    match getline text with
    | none => users
    | some (line, rest) => loadLoop fuel rest (loadLine users line)

/-- `UserStore::loadFromFile`, with what the file contains if it can be opened. --/
def loadFromFile (u : UserStore) : Option Bytes → Bool × UserStore
  | none => (false, u)
  | some text => (true, { users := (loadLoop text.length text ∅).entries, loaded := true })

end UserStore
end Broko.Broker
