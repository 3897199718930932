import Broko.Broker.StatsWriter
import Broko.Lib.Json
import Broko.Theorems.GeneratedNames

/-! The snapshot that the broker writes for its web interface is JSON, whatever the names are that clients have chosen. -/

namespace Broko.Broker.StatsWriter
open Amqp JsonString

/-! ### Strings -/

/-- What stands for a character. --/
theorem jsonEscapeChar_cases (c : UInt8) :
    (∃ x, jsonEscapeChar c = [backslash, x] ∧ x ≠ 0x75 ∧ shortEscape x = some c) ∨
      (jsonEscapeChar c = backslash :: 0x75 :: hex04 c.toNat ∧ c < 0x20) ∨
        (jsonEscapeChar c = [c] ∧ 0x20 ≤ c ∧ c ≠ quote ∧ c ≠ backslash) := by
  rw [jsonEscapeChar]
  split
  · subst c
    exact .inl ⟨quote, rfl, by decide, rfl⟩
  rename_i hquote
  split
  · subst c
    exact .inl ⟨backslash, rfl, by decide, rfl⟩
  rename_i hbackslash
  split
  · subst c
    exact .inl ⟨tagByte 'b', rfl, by decide, rfl⟩
  split
  · subst c
    exact .inl ⟨tagByte 'f', rfl, by decide, rfl⟩
  split
  · subst c
    exact .inl ⟨tagByte 'n', rfl, by decide, rfl⟩
  split
  · subst c
    exact .inl ⟨tagByte 'r', rfl, by decide, rfl⟩
  split
  · subst c
    exact .inl ⟨tagByte 't', rfl, by decide, rfl⟩
  split
  · exact .inr (.inl ⟨rfl, ‹_›⟩)
  · exact .inr (.inr ⟨rfl, UInt8.not_lt.mp ‹_›, hquote, hbackslash⟩)

/-- The digits of `\u` give a control character back. --/
theorem hexNumber_hex04 : ∀ n < 0x20, hexNumber? (hexDigit (n / 4096 % 16)) (hexDigit (n / 256 % 16)) (hexDigit (n / 16 % 16))
    (hexDigit (n % 16)) = some n ∧ utf8 n = [UInt8.ofNat n] := by
  decide

theorem unescape_jsonEscapeChar (c : UInt8) {rest s : Bytes} (h : unescape rest = some s) :
    unescape (jsonEscapeChar c ++ rest) = some (c :: s) := by
  rcases jsonEscapeChar_cases c with ⟨x, heq, hx, hshort⟩ | ⟨heq, hlt⟩ | ⟨heq, hle, hquote, hbackslash⟩
  · rw [heq]
    exact unescape_piece (pieces_short hx hshort rest) (fun _ => rfl) h
  · obtain ⟨hnumber, hutf8⟩ := hexNumber_hex04 c.toNat hlt
    have hp : ∀ ps, assemble (.unit c.toNat :: ps) = (assemble ps).map (c :: ·) := by
      intro ps
      have hbasic : c.toNat < 0xD800 ∨ 0xE000 ≤ c.toNat := .inl (Nat.lt_trans hlt (by decide))
      rw [assemble.eq_def]
      dsimp only
      rw [if_pos hbasic, hutf8, UInt8.ofNat_toNat]
      rfl
    rw [heq]
    exact unescape_piece (pieces_unit hnumber rest) hp h
  · rw [heq]
    exact unescape_piece (pieces_plain hle hquote hbackslash rest) (fun _ => rfl) h

theorem unescape_jsonEscape (s : Bytes) : unescape (jsonEscape s) = some s := by
  induction s with
  | nil => rfl
  | cons c s ih =>
    rw [jsonEscape, List.flatMap_cons]
    exact unescape_jsonEscapeChar c ih

/-- A name that looks like an escape. --/
example : jsonEscape (ascii "\\u0022\x01") = ascii "\\\\u0022\\u0001" := rfl

def jsonEscaping : Json.Escaping := ⟨jsonEscape, unescape_jsonEscape⟩

/-! ### Numbers -/

/-- Only zero starts with a zero. --/
theorem head_toDigits {n : Nat} (h : 0 < n) : (Nat.toDigits 10 n).head? ≠ some '0' := by
  induction n using Nat.strongRecOn with
  | _ n ih =>
    rcases Nat.lt_or_ge n 10 with hlt | hge
    · rw [Nat.toDigits_of_lt_base hlt]
      exact (by decide : ∀ n < 10, 0 < n → [n.digitChar].head? ≠ some '0') n hlt h
    · have hdiv : 0 < n / 10 := Nat.div_pos hge (by decide)
      rw [Nat.toDigits_of_base_le (by decide) hge, List.head?_append_of_ne_nil _ Nat.toDigits_ne_nil]
      exact ih (n / 10) (Nat.div_lt_self h (by decide)) hdiv

theorem isDigit_of_mem_decimal {n : Nat} {b : UInt8} (h : b ∈ decimal n) : Json.isDigit b = true := by
  rw [decimal, ascii, Nat.toString_eq_repr, Nat.toList_repr] at h
  obtain ⟨c, hc, rfl⟩ := List.mem_map.mp h
  have hdigit := Char.isDigit_iff_toNat.mp (Nat.isDigit_of_mem_toDigits (by decide) (by decide) hc)
  have hbytes : ∀ k < 58, 48 ≤ k → Json.isDigit (UInt8.ofNat k) = true := by decide
  exact hbytes c.toNat (Nat.lt_succ_of_le hdigit.2) hdigit.1

theorem head_decimal {n : Nat} (h : 0 < n) : (decimal n).head? ≠ some 0x30 := by
  intro hhead
  refine head_toDigits h ?_
  rw [← map_decimal, List.head?_map, hhead]
  rfl

theorem isInt_decimal (n : Nat) : Json.isInt (decimal n) = true := by
  rcases Nat.eq_zero_or_pos n with rfl | hpos
  · rfl
  · have hne : decimal n ≠ [] := by
      intro hnil
      have hdigits := map_decimal n
      rw [hnil] at hdigits
      exact Nat.toDigits_ne_nil hdigits.symm
    have hall : (decimal n).all Json.isDigit = true := List.all_eq_true.mpr fun _ => isDigit_of_mem_decimal
    simp [Json.isInt, Json.isDigits, hne, hall, head_decimal hpos]

theorem isNumber_intText (n : Int) : Json.isNumber (intText n) = true := by
  rw [intText]
  split
  · exact Json.isNumber_minus (isInt_decimal _)
  · exact Json.isNumber_of_isInt (isInt_decimal _)

def natJson (n : Nat) : Json := .num ⟨decimal n, Json.isNumber_of_isInt (isInt_decimal n)⟩

def intJson (n : Int) : Json := .num ⟨intText n, isNumber_intText n⟩

/-! ### The value that is written -/

def queueJson (q : QueueSnapshot) : Json := .obj
  [(ascii "name", .str q.name),
    (ascii "durable", .bool q.durable),
    (ascii "exclusive", .bool q.exclusive),
    (ascii "auto_delete", .bool q.auto_delete),
    (ascii "messages", natJson q.message_count.toNat),
    (ascii "consumers", natJson q.consumer_count.toNat)]

def exchangeJson (ex : ExchangeSnapshot) : Json := .obj
  [(ascii "name", .str (if ex.name = [] then ascii "(default)" else ex.name)),
    (ascii "type", .str ex.type),
    (ascii "durable", .bool ex.durable),
    (ascii "auto_delete", .bool ex.auto_delete),
    (ascii "bindings", natJson ex.binding_count)]

def connectionJson (c : ConnectionInfo) : Json := .obj
  [(ascii "id", natJson c.id.toNat),
    (ascii "user", .str c.user),
    (ascii "peer", .str c.peer),
    (ascii "connected_at_ms", intJson c.connectedAtMs.toInt),
    (ascii "channels", natJson c.channels)]

def snapshotJson (now uptimeMs : Int64) (queues : List QueueSnapshot) (exchanges : List ExchangeSnapshot)
    (conns : List ConnectionInfo) : Json := .obj
  [(ascii "version", .str (ascii "1.0")),
    (ascii "timestamp_ms", intJson now.toInt),
    (ascii "uptime_ms", intJson uptimeMs.toInt),
    (ascii "stats", .obj
      [(ascii "connections", natJson conns.length),
        (ascii "queues", natJson queues.length),
        (ascii "exchanges", natJson exchanges.length),
        (ascii "messages_ready", natJson (totalMessages queues).toNat)]),
    (ascii "queues", .arr (queues.map queueJson)),
    (ascii "exchanges", .arr (exchanges.map exchangeJson)),
    (ascii "connections", .arr (conns.map connectionJson))]

/-! ### The text -/

section Write
open Json.Escaping

theorem ascii_append (a b : String) : ascii a ++ ascii b = ascii (a ++ b) := by
  rw [ascii, ascii, ascii, String.toList_append, List.map_append]

theorem ascii_append_assoc (a b : String) (bs : Bytes) : ascii a ++ (ascii b ++ bs) = ascii (a ++ b) ++ bs := by
  rw [← List.append_assoc, ascii_append]

theorem jsonEscape_ascii {k : String} (h : ((ascii k).all fun b => jsonEscapeChar b = [b]) = true) :
    jsonEscape (ascii k) = ascii k := by
  have hchars : ∀ b ∈ ascii k, jsonEscapeChar b = [b] := fun b hb => of_decide_eq_true (List.all_eq_true.mp h b hb)
  rw [jsonEscape, List.flatMap_congr hchars, List.flatMap_singleton']

theorem literal_eq (s : Bytes) : jsonEscaping.literal s = ascii "\"" ++ (jsonEscape s ++ ascii "\"") := rfl

theorem write_natJson (n : Nat) : jsonEscaping.write (natJson n) = decimal n := by rw [natJson, write]

theorem write_intJson (n : Int) : jsonEscaping.write (intJson n) = intText n := by rw [intJson, write]

theorem write_str (s : Bytes) : jsonEscaping.write (.str s) = jsonEscaping.literal s := by rw [write]

theorem write_bool (b : Bool) : jsonEscaping.write (.bool b) = boolText b := by
  cases b <;> rw [write] <;> rfl

theorem write_arr (vs : List Json) : jsonEscaping.write (.arr vs) = ascii "[" ++ (jsonEscaping.writeElements vs ++ ascii "]") := by
  rw [write]
  rfl

theorem write_obj (ms : List (Bytes × Json)) :
    jsonEscaping.write (.obj ms) = ascii "\x7b" ++ (jsonEscaping.writeMembers ms ++ ascii "\x7d") := by
  rw [write]
  rfl

theorem writeMembers_one (k : Bytes) (v : Json) :
    jsonEscaping.writeMembers [(k, v)] = jsonEscaping.literal k ++ (ascii ":" ++ jsonEscaping.write v) := by
  rw [writeMembers, if_pos rfl, List.append_nil]
  rfl

theorem writeMembers_cons (k : Bytes) (v : Json) (m : Bytes × Json) (ms : List (Bytes × Json)) :
    jsonEscaping.writeMembers ((k, v) :: m :: ms) =
      jsonEscaping.literal k ++ (ascii ":" ++ (jsonEscaping.write v ++ (ascii "," ++ jsonEscaping.writeMembers (m :: ms)))) := by
  rw [writeMembers, if_neg (List.cons_ne_nil _ _)]
  rfl

theorem write_queueJson (q : QueueSnapshot) : jsonEscaping.write (queueJson q) = queueText q := by
  delta queueText
  simp (disch := decide) only [queueJson, write_obj, writeMembers_cons, writeMembers_one, literal_eq, jsonEscape_ascii, write_str,
    write_bool, write_natJson, List.append_assoc, ascii_append_assoc, ascii_append, String.reduceAppend]

theorem write_exchangeJson (ex : ExchangeSnapshot) : jsonEscaping.write (exchangeJson ex) = exchangeText ex := by
  delta exchangeText
  simp (disch := decide) only [exchangeJson, write_obj, writeMembers_cons, writeMembers_one, literal_eq, jsonEscape_ascii,
    write_str, write_bool, write_natJson, List.append_assoc, ascii_append_assoc, ascii_append, String.reduceAppend]

theorem write_connectionJson (c : ConnectionInfo) : jsonEscaping.write (connectionJson c) = connectionText c := by
  delta connectionText
  simp (disch := decide) only [connectionJson, write_obj, writeMembers_cons, writeMembers_one, literal_eq, jsonEscape_ascii,
    write_str, write_natJson, write_intJson, List.append_assoc, ascii_append_assoc, ascii_append, String.reduceAppend]

theorem textLoop_cons {α : Type} (text : α → Bytes) (x : α) (xs : List α) :
    textLoop text (x :: xs) = text x ++ (if xs = [] then [] else ascii "," ++ textLoop text xs) := by
  cases xs with
  | nil => simp [textLoop]
  | cons x' xs => simp [textLoop, List.mapIdx_cons]

/-- A loop writes the elements of an array. --/
theorem writeElements_map {α : Type} {json : α → Json} {text : α → Bytes} (h : ∀ x, jsonEscaping.write (json x) = text x)
    (xs : List α) : jsonEscaping.writeElements (xs.map json) = textLoop text xs := by
  induction xs with
  | nil => rfl
  | cons x xs ih =>
    rw [List.map_cons, writeElements, h, ih, textLoop_cons]
    simp only [List.map_eq_nil_iff]
    rfl

theorem write_snapshotJson (now uptimeMs : Int64) (queues : List QueueSnapshot) (exchanges : List ExchangeSnapshot)
    (conns : List ConnectionInfo) :
    jsonEscaping.write (snapshotJson now uptimeMs queues exchanges conns) = snapshotText now uptimeMs queues exchanges conns := by
  delta snapshotText
  simp (disch := decide) only [snapshotJson, write_obj, writeMembers_cons, writeMembers_one, literal_eq, jsonEscape_ascii,
    write_str, write_natJson, write_intJson, write_arr, writeElements_map write_queueJson, writeElements_map write_exchangeJson,
    writeElements_map write_connectionJson, List.append_assoc, ascii_append_assoc, ascii_append, String.reduceAppend]

end Write

/-! ### What a reader gets -/

theorem jsonEscapeChar_of_le {c : UInt8} (h : 0x80 ≤ c) : jsonEscapeChar c = [c] := by
  rcases jsonEscapeChar_cases c with ⟨x, -, -, hshort⟩ | ⟨-, hlt⟩ | ⟨heq, -⟩
  · exact absurd (lt_of_shortEscape hshort) (UInt8.not_lt.mpr h)
  · exact absurd (UInt8.lt_trans hlt (by decide)) (UInt8.not_lt.mpr h)
  · exact heq

/-- An escaped string is the body of a literal that means the string, and a snapshot is JSON in which every name is a literal of
    its own. --/
theorem parse_writeSnapshot :
    (∀ text : Bytes,
      (∀ b ∈ jsonEscape text, 0x20 ≤ b) ∧
        (∀ before after, jsonEscape text = before ++ quote :: after → escaping before = true) ∧
        escaping (jsonEscape text) = false ∧
        unescape (jsonEscape text) = some text ∧
        ∀ before after c, text = before ++ c :: after → 0x80 ≤ c →
          jsonEscape text = jsonEscape before ++ c :: jsonEscape after) ∧
      ∀ startedAtMs now peers (atQueues atExchanges atConnections : AmqpServer),
        Json.parse (writeSnapshot startedAtMs now peers atQueues atExchanges atConnections) =
          some (snapshotJson now (now - startedAtMs) atQueues.snapshotQueues atExchanges.snapshotExchanges
            (atConnections.snapshotConnections peers)) := by
  refine ⟨fun text => ?_, fun startedAtMs now peers atQueues atExchanges atConnections => ?_⟩
  · have hread := unescape_jsonEscape text
    have hbody := body_of_unescape hread
    refine ⟨hbody.le, fun _ _ => hbody.escaping_of_quote, hbody.not_escaping, hread, ?_⟩
    rintro before after c rfl hc
    rw [jsonEscape, List.flatMap_append, List.flatMap_cons, jsonEscapeChar_of_le hc]
    rfl
  · rw [writeSnapshot, ← write_snapshotJson]
    exact Json.parse_write jsonEscaping _

end Broko.Broker.StatsWriter
