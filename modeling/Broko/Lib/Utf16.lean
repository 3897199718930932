import Mathlib.Tactic.Common

/-! Strings of 16-bit units. Two surrogates, a high and a low one, make a character; a surrogate without its other half
    makes none, and reading replaces it. A string without such is made up from its characters again. -/

namespace Utf16

def isHigh (u : UInt16) : Bool := 0xD800 ≤ u.toNat && u.toNat < 0xDC00

def isLow (u : UInt16) : Bool := 0xDC00 ≤ u.toNat && u.toNat < 0xE000

def isSurrogate (u : UInt16) : Bool := isHigh u || isLow u

/-- The character of two surrogates. --/
def pair (u v : UInt16) : Char := Char.ofNat (0x10000 + (u.toNat - 0xD800) * 0x400 + (v.toNat - 0xDC00))

/-- The character of one unit; U+FFFD for a surrogate. --/
def single (u : UInt16) : Char := if isSurrogate u then '\uFFFD' else Char.ofNat u.toNat

def chars : List UInt16 → List Char
  | [] => []
  | [u] => [single u]
  | u :: v :: rest => if isHigh u && isLow v then pair u v :: chars rest else single u :: chars (v :: rest)

/-- Every surrogate has its other half. --/
def wellFormed : List UInt16 → Bool
  | [] => true
  | [u] => !isSurrogate u
  | u :: v :: rest => if isHigh u && isLow v then wellFormed rest else !isSurrogate u && wellFormed (v :: rest)

def unitsOf (c : Char) : List UInt16 :=
  if c.toNat < 0x10000 then [UInt16.ofNat c.toNat]
  else [UInt16.ofNat (0xD800 + (c.toNat - 0x10000) / 0x400), UInt16.ofNat (0xDC00 + (c.toNat - 0x10000) % 0x400)]

def units (cs : List Char) : List UInt16 := cs.flatMap unitsOf

theorem toNat_ofNat {n : Nat} (h : n < 0xD800 ∨ 0xDFFF < n ∧ n < 0x110000) : (Char.ofNat n).toNat = n := by
  rw [Char.ofNat, dif_pos h]
  rfl

theorem units_single {u : UInt16} (h : isSurrogate u = false) : unitsOf (single u) = [u] := by
  have hlt := u.toNat_lt
  have hval : (Char.ofNat u.toNat).toNat = u.toNat := by
    simp only [isSurrogate, isHigh, isLow, Bool.or_eq_false_iff, Bool.and_eq_false_iff, decide_eq_false_iff_not] at h
    exact toNat_ofNat (by omega)
  rw [single, h, if_neg Bool.false_ne_true, unitsOf, hval, if_pos (by omega), UInt16.ofNat_toNat]

theorem units_pair {u v : UInt16} (hu : isHigh u = true) (hv : isLow v = true) : unitsOf (pair u v) = [u, v] := by
  simp only [isHigh, isLow, Bool.and_eq_true, decide_eq_true_eq] at hu hv
  have hval : (pair u v).toNat = 0x10000 + (u.toNat - 0xD800) * 0x400 + (v.toNat - 0xDC00) := toNat_ofNat (by omega)
  have hhigh : 0xD800 + ((pair u v).toNat - 0x10000) / 0x400 = u.toNat := by omega
  have hlow : 0xDC00 + ((pair u v).toNat - 0x10000) % 0x400 = v.toNat := by omega
  rw [unitsOf, if_neg (by omega), hhigh, hlow, UInt16.ofNat_toNat, UInt16.ofNat_toNat]

theorem units_chars {s : List UInt16} (h : wellFormed s = true) : units (chars s) = s := by
  fun_induction chars s with
  | case1 => rfl
  | case2 u =>
    rw [wellFormed, Bool.not_eq_true'] at h
    rw [units, List.flatMap_singleton, units_single h]
  | case3 u v rest hpair ih =>
    rw [wellFormed, if_pos hpair] at h
    obtain ⟨hu, hv⟩ := Bool.and_eq_true_iff.mp hpair
    rw [units, List.flatMap_cons, units_pair hu hv, ← units, ih h]
    rfl
  | case4 u v rest hpair ih =>
    rw [wellFormed, if_neg hpair, Bool.and_eq_true, Bool.not_eq_true'] at h
    rw [units, List.flatMap_cons, units_single h.1, ← units, ih h.2]
    rfl

/-- Strings without lone surrogates are told apart by their characters. --/
theorem chars_inj {s s' : List UInt16} (h : wellFormed s = true) (h' : wellFormed s' = true) :
    chars s = chars s' ↔ s = s' := by
  refine ⟨fun heq => ?_, fun heq => by rw [heq]⟩
  rw [← units_chars h, heq, units_chars h']

end Utf16
