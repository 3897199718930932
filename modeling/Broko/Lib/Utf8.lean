import Mathlib.Tactic.Common

/-! UTF-8 as a list of bytes. Decoding replaces what is not UTF-8, byte by byte, so it is total; a string is decoded
    back from its encoding, whatever follows it. -/

namespace Utf8

def encode (s : String) : List UInt8 := s.toList.flatMap String.utf8EncodeChar

/-- The first character and how many bytes it takes; a byte that begins no character stands for U+FFFD. --/
def next (bs : List UInt8) : Char × Nat :=
  match bs.toByteArray.utf8DecodeChar? 0 with
  | some c => (c, c.utf8Size)
  | none => ('\uFFFD', 1)

/-- The characters, on fuel. --/
def decodeChars : Nat → List UInt8 → List Char
  | 0, _ => []
  | _, [] => []
  | fuel + 1, b :: bs => (next (b :: bs)).1 :: decodeChars fuel ((b :: bs).drop (next (b :: bs)).2)

def decode (bs : List UInt8) : String := String.ofList (decodeChars bs.length bs)

theorem next_encodeChar (c : Char) (bs : List UInt8) :
    next (String.utf8EncodeChar c ++ bs) = (c, (String.utf8EncodeChar c).length) := by
  have hfirst : (String.utf8EncodeChar c ++ bs).toByteArray.utf8DecodeChar? 0 = some c := by
    rw [List.toByteArray_append]
    exact ByteArray.utf8DecodeChar?_utf8EncodeChar_append
  rw [next, hfirst, String.length_utf8EncodeChar]

theorem decodeChars_flatMap (cs : List Char) (fuel : Nat) (hfuel : (cs.flatMap String.utf8EncodeChar).length ≤ fuel) :
    decodeChars fuel (cs.flatMap String.utf8EncodeChar) = cs := by
  induction cs generalizing fuel with
  | nil => cases fuel <;> rfl
  | cons c cs ih =>
    have hne : String.utf8EncodeChar c ++ cs.flatMap String.utf8EncodeChar ≠ [] := by
      simp [String.utf8EncodeChar_ne_nil]
    have hpos : 0 < (String.utf8EncodeChar c).length := List.length_pos_iff.mpr String.utf8EncodeChar_ne_nil
    rw [List.flatMap_cons] at hfuel ⊢
    rw [List.length_append] at hfuel
    obtain ⟨fuel, rfl⟩ : ∃ n, fuel = n + 1 := ⟨fuel - 1, by omega⟩
    obtain ⟨b, bs, hbs⟩ := List.exists_cons_of_ne_nil hne
    have hnext := next_encodeChar c (cs.flatMap String.utf8EncodeChar)
    rw [hbs] at hnext
    rw [hbs, decodeChars, hnext, ← hbs, List.drop_left, ih fuel (by omega)]

theorem decode_encode (s : String) : decode (encode s) = s := by
  rw [decode, encode, decodeChars_flatMap _ _ (Nat.le_refl _), String.ofList_toList]

theorem encode_injective : Function.Injective encode :=
  Function.LeftInverse.injective decode_encode

end Utf8
