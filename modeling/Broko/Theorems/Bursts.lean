import Broko.Theorems.Damage
import Mathlib.Data.Nat.Digits.Defs

/-! Bursts. Up to four bytes enter the checksum as one word: what the rounds make of them is what as many rounds make of the
    state with that word added, and rounds lose nothing. -/

namespace Broko.Storage
open Amqp Checksum

/-- The bytes as one word, the first one lowest. --/
def windowWord (w : Bytes) : Nat := Nat.ofDigits 256 (w.map UInt8.toNat)

theorem windowWord_cons (b : UInt8) (w : Bytes) : windowWord (b :: w) = b.toNat + 256 * windowWord w := by
  rw [windowWord, List.map_cons, Nat.ofDigits_cons]
  rfl

theorem windowWord_lt (w : Bytes) : windowWord w < 256 ^ w.length := by
  have hlt := Nat.ofDigits_lt_base_pow_length (b := 256) (l := w.map UInt8.toNat) (by decide) fun x hx => by
    obtain ⟨b, -, rfl⟩ := List.mem_map.mp hx
    exact b.toNat_lt
  rwa [List.length_map] at hlt

theorem windowWord_injective {w w' : Bytes} (hlen : w'.length = w.length) (h : windowWord w = windowWord w') : w = w' := by
  have hdigit : ∀ v : Bytes, ∀ x ∈ v.map UInt8.toNat, x < 256 := by
    intro v x hx
    obtain ⟨b, -, rfl⟩ := List.mem_map.mp hx
    exact b.toNat_lt
  have hdigits := Nat.ofDigits_inj_of_len_eq (by decide) (by rw [List.length_map, List.length_map, hlen]) (hdigit w) (hdigit w') h
  exact List.map_injective_iff.mpr (fun _ _ => UInt8.toNat_inj.mp) hdigits

/-! ### Rounds over a word -/

theorem getLsbD_ofNat (m : Nat) {i : Nat} (hi : i < 32) : (UInt32.ofNat m).toBitVec.getLsbD i = m.testBit i := by
  rw [UInt32.toBitVec_ofNat', BitVec.getLsbD_ofNat, decide_eq_true hi, Bool.true_and]

/-- What has not reached the lowest bit only moves down. --/
theorem crcRound_double (x : UInt32) {m : Nat} (hm : m < 2 ^ 31) :
    crcRound (x ^^^ UInt32.ofNat (2 * m)) = crcRound x ^^^ UInt32.ofNat m := by
  apply UInt32.toBitVec_inj.mp
  apply BitVec.eq_of_getLsbD_eq
  intro i hi
  have hlow : (UInt32.ofNat (2 * m)).toBitVec.getLsbD 0 = false := by
    rw [getLsbD_ofNat _ (by decide)]
    simp
  have hnext : (UInt32.ofNat (2 * m)).toBitVec.getLsbD (1 + i) = (UInt32.ofNat m).toBitVec.getLsbD i := by
    rw [getLsbD_ofNat m hi]
    by_cases htop : 1 + i < 32
    · rw [getLsbD_ofNat _ htop, Nat.add_comm, Nat.testBit_add_one, Nat.mul_div_cancel_left m (by decide)]
    · obtain rfl : i = 31 := by omega
      rw [BitVec.getLsbD_of_ge _ _ (by decide), Nat.testBit_lt_two_pow hm]
  rw [UInt32.toBitVec_xor, BitVec.getLsbD_xor, getLsbD_crcRound _ hi, getLsbD_crcRound _ hi, UInt32.toBitVec_xor,
    BitVec.getLsbD_xor, BitVec.getLsbD_xor, hlow, hnext, Bool.xor_false, Bool.xor_right_comm]

theorem crcRound_iterate (x : UInt32) {m : Nat} (n : Nat) (hm : 2 ^ n * m < 2 ^ 32) :
    crcRound^[n] (x ^^^ UInt32.ofNat (2 ^ n * m)) = crcRound^[n] x ^^^ UInt32.ofNat m := by
  induction n generalizing x with
  | zero => rw [Nat.pow_zero, Nat.one_mul, Function.iterate_zero, id, id]
  | succ n ih =>
    have hdouble : 2 ^ (n + 1) * m = 2 * (2 ^ n * m) := by rw [Nat.pow_succ, Nat.mul_comm (2 ^ n) 2, Nat.mul_assoc]
    rw [hdouble] at hm ⊢
    rw [Function.iterate_succ_apply, Function.iterate_succ_apply, crcRound_double x (by omega), ih _ (by omega)]

/-- A byte and a word that stands above it. --/
theorem ofNat_add_mul (b : UInt8) (m : Nat) :
    UInt32.ofNat (b.toNat + 256 * m) = b.toUInt32 ^^^ UInt32.ofNat (2 ^ 8 * m) := by
  have hbyte : b.toUInt32 = UInt32.ofNat b.toNat := (UInt32.ofNat_uInt8ToNat b).symm
  have hlt : b.toNat < 2 ^ 8 := b.toNat_lt
  apply UInt32.toBitVec_inj.mp
  apply BitVec.eq_of_getLsbD_eq
  intro i hi
  rw [hbyte, UInt32.toBitVec_xor, BitVec.getLsbD_xor, getLsbD_ofNat _ hi, getLsbD_ofNat _ hi, getLsbD_ofNat _ hi,
    Nat.add_comm, Nat.testBit_two_pow_mul_add m hlt, Nat.testBit_two_pow_mul]
  by_cases h8 : i < 8
  · rw [if_pos h8, decide_eq_false (Nat.not_le.mpr h8), Bool.false_and, Bool.xor_false]
  · have hpow : 2 ^ 8 ≤ 2 ^ i := Nat.pow_le_pow_right (by decide) (Nat.le_of_not_lt h8)
    rw [if_neg h8, Nat.testBit_lt_two_pow (Nat.lt_of_lt_of_le hlt hpow), decide_eq_true (Nat.le_of_not_lt h8), Bool.true_and,
      Bool.false_xor]

theorem crcByte_eq_iterate (crc : UInt32) (b : UInt8) : crcByte crc b = crcRound^[8] (crc ^^^ b.toUInt32) := rfl

/-- Up to four bytes enter as one word. --/
theorem foldl_crcByte (crc : UInt32) (w : Bytes) (hw : w.length ≤ 4) :
    w.foldl crcByte crc = crcRound^[8 * w.length] (crc ^^^ UInt32.ofNat (windowWord w)) := by
  induction w generalizing crc with
  | nil => exact (UInt32.xor_zero (a := crc)).symm
  | cons b w ih =>
    rw [List.length_cons] at hw
    have hfits : 2 ^ 8 * windowWord w < 2 ^ 32 := by
      have hlt := windowWord_lt w
      have hpow : 256 ^ w.length ≤ 256 ^ 3 := Nat.pow_le_pow_right (by decide) (Nat.le_of_succ_le_succ hw)
      omega
    rw [List.foldl_cons, ih _ (Nat.le_of_succ_le hw), crcByte_eq_iterate, ← crcRound_iterate _ 8 hfits,
      UInt32.xor_assoc, ← ofNat_add_mul, ← windowWord_cons, ← Function.iterate_add_apply, List.length_cons, Nat.mul_succ]

/-- No two windows of one length lead to the same checksum. --/
theorem window_injective (crc : UInt32) (w w' : Bytes) (hw : w.length ≤ 4) (hlen : w'.length = w.length)
    (h : w.foldl crcByte crc = w'.foldl crcByte crc) : w = w' := by
  have hlt : ∀ v : Bytes, v.length = w.length → windowWord v < 2 ^ 32 := by
    intro v hv
    have hpow : 256 ^ v.length ≤ 256 ^ 4 := Nat.pow_le_pow_right (by decide) (hv ▸ hw)
    exact Nat.lt_of_lt_of_le (windowWord_lt v) hpow
  rw [foldl_crcByte crc w hw, foldl_crcByte crc w' (hlen ▸ hw), hlen] at h
  have hword := (UInt32.xor_right_inj crc).mp (crcRound_injective.iterate (8 * w.length) h)
  have hnat := congrArg UInt32.toNat hword
  rw [UInt32.toNat_ofNat_of_lt' (hlt w rfl), UInt32.toNat_ofNat_of_lt' (hlt w' hlen)] at hnat
  exact windowWord_injective hlen hnat

/-- A burst is detected: two payloads of one length that differ, and agree outside four bytes. --/
theorem crc32_ne_of_burst {p p' : Bytes} {i : Nat} (h : ChangedWithin 4 i p p') (hne : p ≠ p') : crc32 p ≠ crc32 p' :=
  fun heq => foldl_ne_within crcByte_injective_state window_injective h hne _ (UInt32.not_inj.mp heq)

theorem crc32_ne_of_burst_four : crc32 (ascii "queue") ≠ crc32 (ascii "qUEUE") :=
  crc32_ne_of_burst (i := 1) (changedWithin_of_window (u := ascii "ueue") (v := ascii "UEUE") (ascii "q") [] (by decide) rfl)
    (by decide)

end Broko.Storage
