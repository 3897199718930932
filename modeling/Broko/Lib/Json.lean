import Broko.Lib.JsonString
import Mathlib.Data.List.TakeWhile

/-! JSON texts. A text is read as tokens, and these as a value. What is written without blanks, with any way to escape strings
    that the reader of literals undoes, is read back. -/

namespace Json
open JsonString

/-! ### Tokens -/

inductive Token where
  | openBrace
  | closeBrace
  | openBracket
  | closeBracket
  | colon
  | comma
  | literal (s : List UInt8)
  | word (w : List UInt8)
  deriving DecidableEq, Repr

def punctuation? (b : UInt8) : Option Token :=
  if b = 0x7B then some .openBrace
  else if b = 0x7D then some .closeBrace
  else if b = 0x5B then some .openBracket
  else if b = 0x5D then some .closeBracket
  else if b = 0x3A then some .colon
  else if b = 0x2C then some .comma
  else none

def isBlank (b : UInt8) : Bool := b = 0x20 || b = 0x09 || b = 0x0A || b = 0x0D

/-- Where the reader of tokens stands: outside literals, with the word so far; in a literal, with its body so far; or behind a
    backslash in a literal. --/
inductive Mode where
  | text (word : List UInt8)
  | inside (body : List UInt8)
  | escape (body : List UInt8)

/-- A word that is over comes before the tokens behind it. --/
def flush (word : List UInt8) (ts : List Token) : List Token := if word = [] then ts else .word word :: ts

def tokensFrom : Mode → List UInt8 → Option (List Token)
  | .text word, [] => some (flush word [])
  | .text word, b :: rest =>
    if b = quote then (tokensFrom (.inside []) rest).map (flush word)
    else
      match punctuation? b with
      | some t => (tokensFrom (.text []) rest).map fun ts => flush word (t :: ts)
      | none =>
        if isBlank b then (tokensFrom (.text []) rest).map (flush word)
        else tokensFrom (.text (word ++ [b])) rest
  | .inside _, [] => none
  | .inside body, b :: rest =>
    if b = quote then (unescape body).bind fun s => (tokensFrom (.text []) rest).map (.literal s :: ·)
    else if b = backslash then tokensFrom (.escape (body ++ [b])) rest
    else tokensFrom (.inside (body ++ [b])) rest
  | .escape _, [] => none
  | .escape body, b :: rest => tokensFrom (.inside (body ++ [b])) rest

def tokens (text : List UInt8) : Option (List Token) := tokensFrom (.text []) text

/-! ### Numbers -/

def isDigit (b : UInt8) : Bool := 0x30 ≤ b && b ≤ 0x39

def isDigits (bs : List UInt8) : Bool := bs ≠ [] && bs.all isDigit

/-- No leading zero. --/
def isInt (bs : List UInt8) : Bool := isDigits bs && (bs.head? ≠ some 0x30 || bs.length = 1)

def isExponent : List UInt8 → Bool
  | [] => true
  | e :: rest => (e = 0x65 || e = 0x45) && isDigits (if rest.head? = some 0x2B ∨ rest.head? = some 0x2D then rest.tail else rest)

def isFraction (bs : List UInt8) : Bool :=
  if bs.head? = some 0x2E then isDigits (bs.tail.takeWhile isDigit) && isExponent (bs.tail.dropWhile isDigit)
  else isExponent bs

def isNumber (bs : List UInt8) : Bool :=
  let bs := if bs.head? = some 0x2D then bs.tail else bs
  isInt (bs.takeWhile isDigit) && isFraction (bs.dropWhile isDigit)

section Integers
variable {bs : List UInt8}

theorem isDigit_of_isInt (h : isInt bs = true) : ∀ b ∈ bs, isDigit b = true := by
  rw [isInt, isDigits, Bool.and_eq_true, Bool.and_eq_true, List.all_eq_true] at h
  exact h.1.2

theorem isFraction_of_isInt (h : isInt bs = true) :
    (isInt (bs.takeWhile isDigit) && isFraction (bs.dropWhile isDigit)) = true := by
  have htake : bs.takeWhile isDigit = bs := List.takeWhile_eq_self_iff.mpr (isDigit_of_isInt h)
  have hdrop : bs.dropWhile isDigit = [] := List.dropWhile_eq_nil_iff.mpr (isDigit_of_isInt h)
  rw [htake, hdrop, h]
  rfl

theorem isNumber_of_isInt (h : isInt bs = true) : isNumber bs = true := by
  have hsign : bs.head? ≠ some 0x2D := by
    intro hhead
    cases isDigit_of_isInt h _ (List.mem_of_mem_head? hhead)
  rw [isNumber, if_neg hsign]
  exact isFraction_of_isInt h

theorem isNumber_minus (h : isInt bs = true) : isNumber (0x2D :: bs) = true := isFraction_of_isInt h

end Integers

/-- A number as it is written. --/
structure Number where
  text : List UInt8
  valid : isNumber text = true
  deriving DecidableEq

end Json

/-! ### Values -/

inductive Json where
  | null
  | bool (b : Bool)
  | num (n : Json.Number)
  | str (s : List UInt8)
  | arr (elems : List Json)
  | obj (members : List (List UInt8 × Json))

namespace Json
open JsonString

def chars (s : String) : List UInt8 := s.toList.map fun c => UInt8.ofNat c.toNat

def atom? (w : List UInt8) : Option Json :=
  if w = chars "null" then some .null
  else if w = chars "true" then some (.bool true)
  else if w = chars "false" then some (.bool false)
  else if h : isNumber w = true then some (.num ⟨w, h⟩)
  else none

mutual

def value : Nat → List Token → Option (Json × List Token)
  | 0, _ => none
  | _ + 1, .literal s :: ts => some (.str s, ts)
  | _ + 1, .word w :: ts => (atom? w).map fun v => (v, ts)
  | n + 1, .openBracket :: ts =>
    if ts.head? = some .closeBracket then some (.arr [], ts.tail) else (elements n ts).map fun r => (.arr r.1, r.2)
  | n + 1, .openBrace :: ts =>
    if ts.head? = some .closeBrace then some (.obj [], ts.tail) else (members n ts).map fun r => (.obj r.1, r.2)
  | _ + 1, _ => none

/-- The elements of an array up to its end, of which there is one at least. --/
def elements : Nat → List Token → Option (List Json × List Token)
  | 0, _ => none
  | n + 1, ts =>
    match value n ts with
    | some (v, .comma :: ts) => (elements n ts).map fun r => (v :: r.1, r.2)
    | some (v, .closeBracket :: ts) => some ([v], ts)
    | _ => none

/-- The members of an object up to its end. --/
def members : Nat → List Token → Option (List (List UInt8 × Json) × List Token)
  | 0, _ => none
  | n + 1, .literal k :: .colon :: ts =>
    match value n ts with
    | some (v, .comma :: ts) => (members n ts).map fun r => ((k, v) :: r.1, r.2)
    | some (v, .closeBrace :: ts) => some ([(k, v)], ts)
    | _ => none
  | _ + 1, _ => none

end

/-- The value of a text, which has to stand there alone. --/
def parse (text : List UInt8) : Option Json :=
  (tokens text).bind fun ts =>
    match value ts.length ts with
    | some (v, []) => some v
    | _ => none

/-! ### Writing -/

/-- A way to escape strings that the reader of literals undoes. --/
structure Escaping where
  escape : List UInt8 → List UInt8
  unescape_escape : ∀ s, unescape (escape s) = some s

namespace Escaping

def literal (E : Escaping) (s : List UInt8) : List UInt8 := quote :: (E.escape s ++ [quote])

mutual

/-- The text of a value, without blanks. --/
def write (E : Escaping) : Json → List UInt8
  | .null => chars "null"
  | .bool b => if b then chars "true" else chars "false"
  | .num n => n.text
  | .str s => E.literal s
  | .arr elems => 0x5B :: (E.writeElements elems ++ [0x5D])
  | .obj members => 0x7B :: (E.writeMembers members ++ [0x7D])

def writeElements (E : Escaping) : List Json → List UInt8
  | [] => []
  | v :: vs => E.write v ++ (if vs = [] then [] else 0x2C :: E.writeElements vs)

def writeMembers (E : Escaping) : List (List UInt8 × Json) → List UInt8
  | [] => []
  | (k, v) :: ms => E.literal k ++ 0x3A :: (E.write v ++ (if ms = [] then [] else 0x2C :: E.writeMembers ms))

end

end Escaping

variable {E : Escaping}

/-! ### Tokens of what is written -/

mutual

def tokensOf : Json → List Token
  | .null => [.word (chars "null")]
  | .bool b => [.word (if b then chars "true" else chars "false")]
  | .num n => [.word n.text]
  | .str s => [.literal s]
  | .arr elems => .openBracket :: (tokensOfElements elems ++ [.closeBracket])
  | .obj members => .openBrace :: (tokensOfMembers members ++ [.closeBrace])

def tokensOfElements : List Json → List Token
  | [] => []
  | v :: vs => tokensOf v ++ (if vs = [] then [] else .comma :: tokensOfElements vs)

def tokensOfMembers : List (List UInt8 × Json) → List Token
  | [] => []
  | (k, v) :: ms => .literal k :: .colon :: (tokensOf v ++ (if ms = [] then [] else .comma :: tokensOfMembers ms))

end

/-- The byte does not end a word. --/
def IsWordByte (b : UInt8) : Prop := b ≠ quote ∧ punctuation? b = none ∧ isBlank b = false

instance (b : UInt8) : Decidable (IsWordByte b) :=
  inferInstanceAs (Decidable (b ≠ quote ∧ punctuation? b = none ∧ isBlank b = false))

/-- A word ends here. --/
def Stops (rest : List UInt8) : Prop := ∀ b ∈ rest.head?, b ≠ quote ∧ (punctuation? b).isSome

theorem stops_punctuation {b : UInt8} (h : b ≠ quote ∧ (punctuation? b).isSome) (rest : List UInt8) : Stops (b :: rest) := by
  intro b' hb'
  obtain rfl := Option.some.inj hb'
  exact h

theorem tokensFrom_word {w : List UInt8} (hw : ∀ b ∈ w, IsWordByte b) (acc rest : List UInt8) :
    tokensFrom (.text acc) (w ++ rest) = tokensFrom (.text (acc ++ w)) rest := by
  induction w generalizing acc with
  | nil => rw [List.nil_append, List.append_nil]
  | cons b w ih =>
    obtain ⟨⟨hquote, hpunct, hblank⟩, hw⟩ := List.forall_mem_cons.mp hw
    rw [List.cons_append, tokensFrom, if_neg hquote, hpunct]
    dsimp only
    rw [hblank, if_neg Bool.false_ne_true, ih hw, List.append_assoc]
    rfl

theorem tokensFrom_stops {rest : List UInt8} (h : Stops rest) (w : List UInt8) :
    tokensFrom (.text w) rest = (tokensFrom (.text []) rest).map (flush w) := by
  cases rest with
  | nil => rfl
  | cons b rest =>
    obtain ⟨hquote, hpunct⟩ := h b rfl
    obtain ⟨t, ht⟩ := Option.isSome_iff_exists.mp hpunct
    rw [tokensFrom, tokensFrom, if_neg hquote, if_neg hquote, ht]
    dsimp only
    rw [Option.map_map]
    rfl

theorem forall_isWordByte {w : List UInt8} (h : w.all (fun b => decide (IsWordByte b)) = true) : ∀ b ∈ w, IsWordByte b :=
  fun b hb => of_decide_eq_true (List.all_eq_true.mp h b hb)

theorem tokensFrom_atom {w rest : List UInt8} (hw : ∀ b ∈ w, IsWordByte b) (hne : w ≠ []) (h : Stops rest) :
    tokensFrom (.text []) (w ++ rest) = (tokensFrom (.text []) rest).map (Token.word w :: ·) := by
  have hflush : flush w = (Token.word w :: ·) := funext fun ts => if_neg hne
  rw [tokensFrom_word hw, List.nil_append, tokensFrom_stops h, hflush]

theorem tokensFrom_punctuation {b : UInt8} {t : Token} (hquote : b ≠ quote) (h : punctuation? b = some t)
    (rest : List UInt8) : tokensFrom (.text []) (b :: rest) = (tokensFrom (.text []) rest).map (t :: ·) := by
  rw [tokensFrom, if_neg hquote, h]
  rfl

theorem tokensFrom_body {body : List UInt8} (h : Body body) (acc rest : List UInt8) :
    tokensFrom (.inside acc) (body ++ quote :: rest) =
      (unescape (acc ++ body)).bind fun s => (tokensFrom (.text []) rest).map (.literal s :: ·) := by
  induction h generalizing acc with
  | nil => rw [List.nil_append, tokensFrom, if_pos rfl, List.append_nil]
  | @plain b body _ hquote hbackslash _ ih =>
    rw [List.cons_append, tokensFrom, if_neg hquote, if_neg hbackslash, ih, List.append_assoc]
    rfl
  | @escape c body _ _ ih =>
    have hquote : backslash ≠ quote := by decide
    rw [List.cons_append, tokensFrom, if_neg hquote, if_pos rfl, List.cons_append, tokensFrom, ih, List.append_assoc,
      List.append_assoc]
    rfl

theorem tokensFrom_literal (s rest : List UInt8) :
    tokensFrom (.text []) (E.literal s ++ rest) = (tokensFrom (.text []) rest).map (Token.literal s :: ·) := by
  have hbody := tokensFrom_body (body_of_unescape (E.unescape_escape s)) [] rest
  rw [List.nil_append, E.unescape_escape] at hbody
  rw [Escaping.literal, List.cons_append, tokensFrom, if_pos rfl, List.append_assoc]
  have hflush : flush [] = id := rfl
  rw [hflush, Option.map_id]
  exact hbody

/-! ### Words -/

/-- The bytes that numbers are made of. --/
def isNumberByte (b : UInt8) : Bool := isDigit b || b = 0x2B || b = 0x2D || b = 0x2E || b = 0x45 || b = 0x65

theorem isWordByte_of_number {b : UInt8} (h : isNumberByte b = true) : IsWordByte b := by
  have hno : b ∉ [quote, 0x7B, 0x7D, 0x5B, 0x5D, 0x3A, 0x2C, 0x20, 0x09, 0x0A, 0x0D] := by
    intro hmem
    have hall : [quote, 0x7B, 0x7D, 0x5B, 0x5D, 0x3A, 0x2C, 0x20, 0x09, 0x0A, 0x0D].all (fun b => !isNumberByte b) = true := rfl
    have hfalse := List.all_eq_true.mp hall b hmem
    rw [h] at hfalse
    cases hfalse
  simp only [List.mem_cons, List.not_mem_nil, or_false, not_or] at hno
  refine ⟨hno.1, ?_, ?_⟩
  · simp [punctuation?, hno]
  · simp [isBlank, hno]

section Numbers
variable {bs : List UInt8}

theorem numbers_of_tail {x : UInt8} (hhead : bs.head? = some x) (hx : isNumberByte x = true)
    (htail : ∀ b ∈ bs.tail, isNumberByte b = true) : ∀ b ∈ bs, isNumberByte b = true := by
  cases bs with
  | nil => nofun
  | cons y bs =>
    obtain rfl := Option.some.inj hhead
    exact List.forall_mem_cons.mpr ⟨hx, htail⟩

theorem numbers_of_digit {b : UInt8} (h : isDigit b = true) : isNumberByte b = true := by simp [isNumberByte, h]

theorem numbers_of_isDigits (h : isDigits bs = true) : ∀ b ∈ bs, isNumberByte b = true := by
  intro b hb
  rw [isDigits, Bool.and_eq_true, List.all_eq_true] at h
  exact numbers_of_digit (h.2 b hb)

theorem numbers_of_takeWhile (bs : List UInt8) : ∀ b ∈ bs.takeWhile isDigit, isNumberByte b = true := fun _ hb =>
  numbers_of_digit (List.mem_takeWhile_imp hb)

theorem numbers_of_split (h : ∀ b ∈ bs.dropWhile isDigit, isNumberByte b = true) : ∀ b ∈ bs, isNumberByte b = true := by
  intro b hb
  rw [← List.takeWhile_append_dropWhile (p := isDigit) (l := bs)] at hb
  exact (List.mem_append.mp hb).elim (numbers_of_takeWhile bs b) (h b)

theorem numbers_of_isExponent (h : isExponent bs = true) : ∀ b ∈ bs, isNumberByte b = true := by
  cases bs with
  | nil => nofun
  | cons e bs =>
    rw [isExponent, Bool.and_eq_true, Bool.or_eq_true, decide_eq_true_iff, decide_eq_true_iff] at h
    obtain ⟨he, hdigits⟩ := h
    refine List.forall_mem_cons.mpr ⟨by rcases he with rfl | rfl <;> rfl, ?_⟩
    split at hdigits
    · rename_i hsign
      rcases hsign with hsign | hsign
      · exact numbers_of_tail hsign rfl (numbers_of_isDigits hdigits)
      · exact numbers_of_tail hsign rfl (numbers_of_isDigits hdigits)
    · exact numbers_of_isDigits hdigits

theorem numbers_of_isFraction (h : isFraction bs = true) : ∀ b ∈ bs, isNumberByte b = true := by
  rw [isFraction] at h
  split at h
  · rename_i hpoint
    rw [Bool.and_eq_true] at h
    exact numbers_of_tail hpoint rfl (numbers_of_split (numbers_of_isExponent h.2))
  · exact numbers_of_isExponent h

theorem numbers_of_isNumber (h : isNumber bs = true) : ∀ b ∈ bs, isNumberByte b = true := by
  rw [isNumber, Bool.and_eq_true] at h
  have hrest := numbers_of_split (numbers_of_isFraction h.2)
  split at hrest
  · rename_i hminus
    exact numbers_of_tail hminus rfl hrest
  · exact hrest

theorem ne_nil_of_isNumber (h : isNumber bs = true) : bs ≠ [] := by
  rintro rfl
  cases h

end Numbers

/-! ### Reading back -/

mutual

theorem tokensFrom_write (v : Json) {rest : List UInt8} (h : Stops rest) :
    tokensFrom (.text []) (E.write v ++ rest) = (tokensFrom (.text []) rest).map (tokensOf v ++ ·) := by
  match v with
  | .null =>
    rw [Escaping.write, tokensFrom_atom (forall_isWordByte rfl) (by decide) h, tokensOf]
    rfl
  | .bool true =>
    rw [Escaping.write, if_pos rfl, tokensFrom_atom (forall_isWordByte rfl) (by decide) h, tokensOf, if_pos rfl]
    rfl
  | .bool false =>
    rw [Escaping.write, if_neg Bool.false_ne_true, tokensFrom_atom (forall_isWordByte rfl) (by decide) h, tokensOf,
      if_neg Bool.false_ne_true]
    rfl
  | .num n =>
    have hword : ∀ b ∈ n.text, IsWordByte b := fun b hb => isWordByte_of_number (numbers_of_isNumber n.valid b hb)
    rw [Escaping.write, tokensFrom_atom hword (ne_nil_of_isNumber n.valid) h, tokensOf]
    rfl
  | .str s =>
    rw [Escaping.write, tokensFrom_literal, tokensOf]
    rfl
  | .arr elems =>
    have hstop : Stops (0x5D :: rest) := stops_punctuation (by decide) rest
    rw [Escaping.write, List.cons_append, tokensFrom_punctuation (t := .openBracket) (by decide) rfl, List.append_assoc,
      List.singleton_append, tokensFrom_writeElements elems hstop,
      tokensFrom_punctuation (t := .closeBracket) (by decide) rfl, Option.map_map, Option.map_map, tokensOf]
    refine congrArg (Option.map · _) (funext fun ts => ?_)
    simp
  | .obj members =>
    have hstop : Stops (0x7D :: rest) := stops_punctuation (by decide) rest
    rw [Escaping.write, List.cons_append, tokensFrom_punctuation (t := .openBrace) (by decide) rfl, List.append_assoc,
      List.singleton_append, tokensFrom_writeMembers members hstop,
      tokensFrom_punctuation (t := .closeBrace) (by decide) rfl, Option.map_map, Option.map_map, tokensOf]
    refine congrArg (Option.map · _) (funext fun ts => ?_)
    simp

theorem tokensFrom_writeElements (vs : List Json) {rest : List UInt8} (h : Stops rest) :
    tokensFrom (.text []) (E.writeElements vs ++ rest) = (tokensFrom (.text []) rest).map (tokensOfElements vs ++ ·) := by
  match vs with
  | [] =>
    rw [Escaping.writeElements, List.nil_append, tokensOfElements]
    exact Option.map_id'.symm
  | [v] =>
    rw [Escaping.writeElements, if_pos rfl, List.append_nil, tokensFrom_write v h, tokensOfElements, if_pos rfl, List.append_nil]
  | v :: v' :: vs =>
    have hstop : Stops (0x2C :: (E.writeElements (v' :: vs) ++ rest)) := stops_punctuation (by decide) _
    have htokens : tokensOfElements (v :: v' :: vs) = tokensOf v ++ .comma :: tokensOfElements (v' :: vs) := by
      rw [tokensOfElements, if_neg (List.cons_ne_nil _ _)]
    rw [Escaping.writeElements, if_neg (List.cons_ne_nil _ _), List.append_assoc, List.cons_append, tokensFrom_write v hstop,
      tokensFrom_punctuation (t := .comma) (by decide) rfl, tokensFrom_writeElements (v' :: vs) h, Option.map_map,
      Option.map_map, htokens]
    refine congrArg (Option.map · _) (funext fun ts => ?_)
    simp

theorem tokensFrom_writeMembers (ms : List (List UInt8 × Json)) {rest : List UInt8} (h : Stops rest) :
    tokensFrom (.text []) (E.writeMembers ms ++ rest) = (tokensFrom (.text []) rest).map (tokensOfMembers ms ++ ·) := by
  match ms with
  | [] =>
    rw [Escaping.writeMembers, List.nil_append, tokensOfMembers]
    exact Option.map_id'.symm
  | [(k, v)] =>
    rw [Escaping.writeMembers, if_pos rfl, List.append_nil, List.append_assoc, List.cons_append, tokensFrom_literal,
      tokensFrom_punctuation (t := .colon) (by decide) rfl, tokensFrom_write v h, tokensOfMembers, if_pos rfl,
      List.append_nil, Option.map_map, Option.map_map]
    rfl
  | (k, v) :: m :: ms =>
    have hstop : Stops (0x2C :: (E.writeMembers (m :: ms) ++ rest)) := stops_punctuation (by decide) _
    have htokens : tokensOfMembers ((k, v) :: m :: ms) =
        .literal k :: .colon :: (tokensOf v ++ .comma :: tokensOfMembers (m :: ms)) := by
      rw [tokensOfMembers, if_neg (List.cons_ne_nil _ _)]
    rw [Escaping.writeMembers, if_neg (List.cons_ne_nil _ _), List.append_assoc, List.cons_append, tokensFrom_literal,
      tokensFrom_punctuation (t := .colon) (by decide) rfl, List.append_assoc, List.cons_append, tokensFrom_write v hstop,
      tokensFrom_punctuation (t := .comma) (by decide) rfl, tokensFrom_writeMembers (m :: ms) h, Option.map_map,
      Option.map_map, Option.map_map, Option.map_map, htokens]
    refine congrArg (Option.map · _) (funext fun ts => ?_)
    simp

end

theorem atom_number (n : Number) : atom? n.text = some (.num n) := by
  have hne : ∀ w, isNumber w = false → n.text ≠ w := by
    rintro w hw rfl
    rw [n.valid] at hw
    cases hw
  rw [atom?, if_neg (hne _ (by decide)), if_neg (hne _ (by decide)), if_neg (hne _ (by decide)), dif_pos n.valid]

/-- No value starts with the end of an array. --/
theorem head_tokensOf (v : Json) (ts : List Token) : (tokensOf v ++ ts).head? ≠ some .closeBracket := by
  cases v <;> rw [tokensOf] <;> simp

theorem head_tokensOfElements (v : Json) (vs : List Json) (ts : List Token) :
    (tokensOfElements (v :: vs) ++ ts).head? ≠ some .closeBracket := by
  rw [tokensOfElements, List.append_assoc]
  exact head_tokensOf v _

theorem head_tokensOfMembers (m : List UInt8 × Json) (ms : List (List UInt8 × Json)) (ts : List Token) :
    (tokensOfMembers (m :: ms) ++ ts).head? ≠ some .closeBrace := by
  rw [tokensOfMembers]
  simp

mutual

theorem value_tokensOf (v : Json) {n : Nat} (hn : (tokensOf v).length ≤ n) (ts : List Token) :
    value n (tokensOf v ++ ts) = some (v, ts) := by
  match v, n with
  | .null, 0 => cases hn
  | .null, n + 1 => rfl
  | .bool b, 0 => cases hn
  | .bool true, n + 1 => rfl
  | .bool false, n + 1 => rfl
  | .num k, 0 => cases hn
  | .num k, n + 1 =>
    rw [tokensOf, List.singleton_append, value, atom_number]
    rfl
  | .str s, 0 => cases hn
  | .str s, n + 1 => rfl
  | .arr elems, 0 => 
    rw [tokensOf] at hn
    cases hn
  | .arr [], n + 1 => rfl
  | .arr (v :: vs), n + 1 =>
    have hlen : (tokensOfElements (v :: vs)).length < n := by
      simp only [tokensOf, List.length_cons, List.length_append, List.length_nil] at hn
      omega
    rw [tokensOf, List.cons_append, List.append_assoc, List.singleton_append, value,
      if_neg (head_tokensOfElements v vs _), elements_tokensOf v vs hlen]
    rfl
  | .obj _, 0 =>
    rw [tokensOf] at hn
    cases hn
  | .obj [], n + 1 => rfl
  | .obj (m :: ms), n + 1 =>
    have hlen : (tokensOfMembers (m :: ms)).length < n := by
      simp only [tokensOf, List.length_cons, List.length_append, List.length_nil] at hn
      omega
    rw [tokensOf, List.cons_append, List.append_assoc, List.singleton_append, value,
      if_neg (head_tokensOfMembers m ms _), members_tokensOf m ms hlen]
    rfl

theorem elements_tokensOf (v : Json) (vs : List Json) {n : Nat} (hn : (tokensOfElements (v :: vs)).length < n)
    (ts : List Token) : elements n (tokensOfElements (v :: vs) ++ .closeBracket :: ts) = some (v :: vs, ts) := by
  match vs, n with
  | _, 0 => cases hn
  | [], n + 1 =>
    rw [tokensOfElements, if_pos rfl, List.append_nil] at hn ⊢
    rw [elements, value_tokensOf v (Nat.le_of_lt_succ hn)]
  | v' :: vs, n + 1 =>
    have htokens : tokensOfElements (v :: v' :: vs) = tokensOf v ++ .comma :: tokensOfElements (v' :: vs) := by
      rw [tokensOfElements, if_neg (List.cons_ne_nil _ _)]
    rw [htokens, List.length_append, List.length_cons] at hn
    have hv : (tokensOf v).length ≤ n := by omega
    have hvs : (tokensOfElements (v' :: vs)).length < n := by omega
    rw [htokens, List.append_assoc, List.cons_append, elements, value_tokensOf v hv]
    dsimp only
    rw [elements_tokensOf v' vs hvs]
    rfl

theorem members_tokensOf (m : List UInt8 × Json) (ms : List (List UInt8 × Json)) {n : Nat}
    (hn : (tokensOfMembers (m :: ms)).length < n) (ts : List Token) :
    members n (tokensOfMembers (m :: ms) ++ .closeBrace :: ts) = some (m :: ms, ts) := by
  match m, ms, n with
  | _, _, 0 => cases hn
  | (k, v), [], n + 1 =>
    rw [tokensOfMembers, if_pos rfl, List.append_nil] at hn ⊢
    have hv : (tokensOf v).length ≤ n := by
      simp only [List.length_cons] at hn
      omega
    rw [List.cons_append, List.cons_append, members, value_tokensOf v hv]
  | (k, v), m :: ms, n + 1 =>
    have htokens : tokensOfMembers ((k, v) :: m :: ms) =
        .literal k :: .colon :: (tokensOf v ++ .comma :: tokensOfMembers (m :: ms)) := by
      rw [tokensOfMembers, if_neg (List.cons_ne_nil _ _)]
    rw [htokens, List.length_cons, List.length_cons, List.length_append, List.length_cons] at hn
    have hv : (tokensOf v).length ≤ n := by omega
    have hms : (tokensOfMembers (m :: ms)).length < n := by omega
    rw [htokens, List.cons_append, List.cons_append, List.append_assoc, List.cons_append, members, value_tokensOf v hv]
    dsimp only
    rw [members_tokensOf m ms hms]
    rfl

end

/-- What is written is read back. --/
theorem parse_write (E : Escaping) (v : Json) : parse (E.write v) = some v := by
  have htokens : tokens (E.write v) = some (tokensOf v) := by
    have hstop : Stops [] := nofun
    have hwrite := tokensFrom_write (E := E) v hstop
    rw [List.append_nil] at hwrite
    rw [tokens, hwrite, tokensFrom]
    simp [flush]
  have hvalue := value_tokensOf v (Nat.le_refl (tokensOf v).length) []
  rw [List.append_nil] at hvalue
  rw [parse, htokens, Option.bind_some, hvalue]

end Json
