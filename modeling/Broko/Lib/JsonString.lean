import Mathlib.Tactic.Common

/-! The bodies of JSON string literals: what stands between the quotes, and the bytes that it means. An escape is a backslash
    with a letter, or with four hexadecimal digits that are a unit of UTF-16; every other byte means itself. -/

namespace JsonString

def quote : UInt8 := 0x22
def backslash : UInt8 := 0x5C

/-! ### Meaning -/

/-- The byte that a backslash with this letter means. --/
def shortEscape (c : UInt8) : Option UInt8 :=
  if c = quote then some quote
  else if c = backslash then some backslash
  else if c = 0x2F then some 0x2F
  else if c = 0x62 then some 0x08
  else if c = 0x66 then some 0x0C
  else if c = 0x6E then some 0x0A
  else if c = 0x72 then some 0x0D
  else if c = 0x74 then some 0x09
  else none

def hexDigit? (d : UInt8) : Option Nat :=
  if 0x30 ≤ d ∧ d ≤ 0x39 then some (d.toNat - 0x30)
  else if 0x61 ≤ d ∧ d ≤ 0x66 then some (d.toNat - 0x61 + 10)
  else if 0x41 ≤ d ∧ d ≤ 0x46 then some (d.toNat - 0x41 + 10)
  else none

def hexNumber? (d₃ d₂ d₁ d₀ : UInt8) : Option Nat := do
  let n₃ ← hexDigit? d₃
  let n₂ ← hexDigit? d₂
  let n₁ ← hexDigit? d₁
  let n₀ ← hexDigit? d₀
  return ((n₃ * 16 + n₂) * 16 + n₁) * 16 + n₀

/-- A byte, or a unit of UTF-16 that was escaped. --/
inductive Piece where
  | byte (b : UInt8)
  | unit (n : Nat)
  deriving DecidableEq, Repr

/-- The pieces of a body. --/
def pieces : List UInt8 → Option (List Piece)
  | [] => some []
  | b :: rest =>
    if b < 0x20 ∨ b = quote then none
    else if b = backslash then
      match rest with
      | [] => none
      | c :: rest =>
        if c = 0x75 then
          match rest with
          | d₃ :: d₂ :: d₁ :: d₀ :: rest => (hexNumber? d₃ d₂ d₁ d₀).bind fun n => (pieces rest).map (.unit n :: ·)
          | _ => none
        else (shortEscape c).bind fun v => (pieces rest).map (.byte v :: ·)
    else (pieces rest).map (.byte b :: ·)

/-- The UTF-8 of a character. --/
def utf8 (n : Nat) : List UInt8 := String.utf8EncodeChar (Char.ofNat n)

/-- The bytes that the pieces mean. A character outside the basic plane is a pair of units; half a pair means nothing. --/
def assemble : List Piece → Option (List UInt8)
  | [] => some []
  | .byte b :: rest => (assemble rest).map (b :: ·)
  | .unit n :: rest =>
    if n < 0xD800 ∨ 0xE000 ≤ n then (assemble rest).map (utf8 n ++ ·)
    else
      match rest with
      | .unit m :: rest =>
        if n < 0xDC00 ∧ 0xDC00 ≤ m ∧ m < 0xE000 then
          (assemble rest).map (utf8 (0x10000 + (n - 0xD800) * 0x400 + (m - 0xDC00)) ++ ·)
        else none
      | _ => none

/-- The bytes that a body means. --/
def unescape (body : List UInt8) : Option (List UInt8) := (pieces body).bind assemble

section Pieces
variable {b c v : UInt8} {body rest s : List UInt8}

theorem pieces_plain (hle : 0x20 ≤ b) (hquote : b ≠ quote) (hbackslash : b ≠ backslash) (rest : List UInt8) :
    pieces (b :: rest) = (pieces rest).map (.byte b :: ·) := by
  have hbad : ¬(b < 0x20 ∨ b = quote) := not_or.mpr ⟨UInt8.not_lt.mpr hle, hquote⟩
  rw [pieces.eq_def]
  dsimp only
  rw [if_neg hbad, if_neg hbackslash]

theorem pieces_short (hc : c ≠ 0x75) (h : shortEscape c = some v) (rest : List UInt8) :
    pieces (backslash :: c :: rest) = (pieces rest).map (.byte v :: ·) := by
  have hbad : ¬(backslash < 0x20 ∨ backslash = quote) := by decide
  rw [pieces.eq_def]
  dsimp only
  rw [if_neg hbad, if_pos rfl, if_neg hc, h, Option.bind_some]

theorem pieces_unit {d₃ d₂ d₁ d₀ : UInt8} {n : Nat} (h : hexNumber? d₃ d₂ d₁ d₀ = some n) (rest : List UInt8) :
    pieces (backslash :: 0x75 :: d₃ :: d₂ :: d₁ :: d₀ :: rest) = (pieces rest).map (.unit n :: ·) := by
  have hbad : ¬(backslash < 0x20 ∨ backslash = quote) := by decide
  rw [pieces.eq_def]
  dsimp only
  rw [if_neg hbad, if_pos rfl, if_pos rfl, h, Option.bind_some]

/-- The first character of what was escaped, by its piece. --/
theorem unescape_piece {p : Piece} (hpieces : pieces body = (pieces rest).map (p :: ·))
    (hp : ∀ ps, assemble (p :: ps) = (assemble ps).map (c :: ·)) (h : unescape rest = some s) :
    unescape body = some (c :: s) := by
  obtain ⟨ps, hps, hs⟩ := Option.bind_eq_some_iff.mp h
  rw [unescape, hpieces, hps, Option.map_some, Option.bind_some, hp, hs]
  rfl

end Pieces

/-! ### Bodies -/

/-- Whether the last of the bytes is a backslash that escapes the next one. --/
def escaping (bs : List UInt8) : Bool := bs.foldl (fun e b => !e && b == backslash) false

/-- A body: no control character, no quote but behind a backslash, and no backslash at the end. --/
inductive Body : List UInt8 → Prop
  | nil : Body []
  | plain {b : UInt8} {rest : List UInt8} : 0x20 ≤ b → b ≠ quote → b ≠ backslash → Body rest → Body (b :: rest)
  | escape {c : UInt8} {rest : List UInt8} : 0x20 ≤ c → Body rest → Body (backslash :: c :: rest)

namespace Body
variable {body : List UInt8}

theorem le (h : Body body) : ∀ b ∈ body, 0x20 ≤ b := by
  induction h with
  | nil => nofun
  | plain hb _ _ _ ih => exact List.forall_mem_cons.mpr ⟨hb, ih⟩
  | escape hc _ ih => exact List.forall_mem_cons.mpr ⟨by decide, List.forall_mem_cons.mpr ⟨hc, ih⟩⟩

theorem not_escaping (h : Body body) : escaping body = false := by
  induction h with
  | nil => rfl
  | @plain b rest _ _ hb _ ih =>
    have hstep : (!false && b == backslash) = false := by simp [hb]
    rw [escaping, List.foldl_cons, hstep]
    exact ih
  | @escape c rest _ _ ih =>
    have hstep : (!(!false && backslash == backslash) && c == backslash) = false := by simp
    rw [escaping, List.foldl_cons, List.foldl_cons, hstep]
    exact ih

/-- A quote stands behind a backslash that escapes it. --/
theorem escaping_of_quote (h : Body body) {before after : List UInt8} (heq : body = before ++ quote :: after) :
    escaping before = true := by
  induction h generalizing before with
  | nil => exact absurd heq.symm (List.append_ne_nil_of_right_ne_nil _ (List.cons_ne_nil _ _))
  | @plain b rest _ hquote hb _ ih =>
    cases before with
    | nil => exact absurd (List.cons.inj heq).1 hquote
    | cons b' before =>
      obtain ⟨rfl, hrest⟩ := List.cons.inj heq
      have hstep : (!false && b == backslash) = false := by simp [hb]
      rw [escaping, List.foldl_cons, hstep]
      exact ih hrest
  | @escape c rest _ _ ih =>
    match before, heq with
    | [b'], heq =>
      obtain ⟨rfl, -⟩ := List.cons.inj heq
      rfl
    | b' :: c' :: before, heq =>
      obtain ⟨rfl, htail⟩ := List.cons.inj heq
      obtain ⟨rfl, hrest⟩ := List.cons.inj (htail : c :: rest = c' :: (before ++ quote :: after))
      have hstep : (!(!false && backslash == backslash) && c == backslash) = false := by simp
      rw [escaping, List.foldl_cons, List.foldl_cons, hstep]
      exact ih hrest

end Body

theorem Body.digit {d : UInt8} {n : Nat} {rest : List UInt8} (h : hexDigit? d = some n) (hrest : Body rest) :
    Body (d :: rest) := by
  have hquote : d ≠ quote := by
    rintro rfl
    cases h
  have hbackslash : d ≠ backslash := by
    rintro rfl
    cases h
  have hle : 0x20 ≤ d := by
    rw [hexDigit?] at h
    split at h
    · exact UInt8.le_trans (by decide) (‹0x30 ≤ d ∧ d ≤ 0x39›).1
    · split at h
      · exact UInt8.le_trans (by decide) (‹0x61 ≤ d ∧ d ≤ 0x66›).1
      · split at h
        · exact UInt8.le_trans (by decide) (‹0x41 ≤ d ∧ d ≤ 0x46›).1
        · cases h
  exact .plain hle hquote hbackslash hrest

/-- The letters of the short escapes. --/
def shortLetters : List UInt8 := [quote, backslash, 0x2F, 0x62, 0x66, 0x6E, 0x72, 0x74]

theorem mem_of_shortEscape {c v : UInt8} (h : shortEscape c = some v) : c ∈ shortLetters := by
  by_contra hno
  simp only [shortLetters, List.mem_cons, List.not_mem_nil, or_false, not_or] at hno
  simp [shortEscape, hno] at h

theorem le_of_shortEscape {c v : UInt8} (h : shortEscape c = some v) : 0x20 ≤ c := by
  have hall : shortLetters.all (fun c => 0x20 ≤ c) = true := rfl
  exact of_decide_eq_true (List.all_eq_true.mp hall c (mem_of_shortEscape h))

theorem lt_of_shortEscape {c v : UInt8} (h : shortEscape c = some v) : v < 0x80 := by
  have hall : shortLetters.all (fun c => (shortEscape c).all fun v => v < 0x80) = true := rfl
  have hv := List.all_eq_true.mp hall c (mem_of_shortEscape h)
  rw [h] at hv
  exact of_decide_eq_true hv

/-- What has pieces is a body. --/
theorem body_of_pieces {body : List UInt8} {ps : List Piece} (h : pieces body = some ps) : Body body := by
  fun_induction pieces body generalizing ps with
  | case1 => exact .nil
  | case2 => cases h
  | case3 => cases h
  | case4 d₃ d₂ d₁ d₀ rest _ ih =>
    obtain ⟨n, hn, h⟩ := Option.bind_eq_some_iff.mp h
    obtain ⟨ps', hps, -⟩ := Option.map_eq_some_iff.mp h
    obtain ⟨n₃, h₃, hn⟩ := Option.bind_eq_some_iff.mp hn
    obtain ⟨n₂, h₂, hn⟩ := Option.bind_eq_some_iff.mp hn
    obtain ⟨n₁, h₁, hn⟩ := Option.bind_eq_some_iff.mp hn
    obtain ⟨n₀, h₀, -⟩ := Option.bind_eq_some_iff.mp hn
    exact .escape (by decide) (.digit h₃ (.digit h₂ (.digit h₁ (.digit h₀ (ih hps)))))
  | case5 => cases h
  | case6 c rest _ _ ih =>
    obtain ⟨v, hv, h⟩ := Option.bind_eq_some_iff.mp h
    obtain ⟨ps', hps, -⟩ := Option.map_eq_some_iff.mp h
    exact .escape (le_of_shortEscape hv) (ih hps)
  | case7 b rest hbad hb ih =>
    obtain ⟨ps', hps, -⟩ := Option.map_eq_some_iff.mp h
    obtain ⟨hlt, hquote⟩ := not_or.mp hbad
    exact .plain (UInt8.not_lt.mp hlt) hquote hb (ih hps)

theorem body_of_unescape {body s : List UInt8} (h : unescape body = some s) : Body body := by
  obtain ⟨ps, hps, -⟩ := Option.bind_eq_some_iff.mp h
  exact body_of_pieces hps

end JsonString
