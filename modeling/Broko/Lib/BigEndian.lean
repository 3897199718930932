import Mathlib.Tactic.Ring
import Mathlib.Algebra.Order.Ring.Nat

/-! Fixed-width big-endian numbers in byte strings. `encode k n` cuts off what does not fit into `k`
    bytes, so it is the unsigned conversion to `8 * k` bits followed by the byte order; `decode` reads
    any byte string. The two are inverse to each other on `k` bytes and below `256 ^ k`. -/

namespace BigEndian

/-- The `k` low bytes of `n`, the most significant one first. --/
def encode : Nat → Nat → List UInt8
  | 0, _ => []
  | k + 1, n => UInt8.ofNat (n / 256 ^ k) :: encode k n

/-- The number whose big-endian bytes are `bs`. --/
def decode (bs : List UInt8) : Nat :=
  bs.foldl (fun v b => v * 256 + b.toNat) 0

@[simp] theorem length_encode (k n : Nat) : (encode k n).length = k := by
  induction k with
  | zero => rfl
  | succ k ih => simp [encode, ih]

theorem foldl_eq (bs : List UInt8) (v : Nat) :
    bs.foldl (fun v b => v * 256 + b.toNat) v = v * 256 ^ bs.length + decode bs := by
  induction bs generalizing v with
  | nil => simp [decode]
  | cons b bs ih =>
    have h0 : decode (b :: bs) = b.toNat * 256 ^ bs.length + decode bs := by
      rw [decode, List.foldl_cons, ih]
      simp
    rw [List.foldl_cons, ih, h0, List.length_cons]
    ring

theorem decode_cons (b : UInt8) (bs : List UInt8) :
    decode (b :: bs) = b.toNat * 256 ^ bs.length + decode bs := by
  rw [decode, List.foldl_cons, foldl_eq]
  simp

theorem decode_lt (bs : List UInt8) : decode bs < 256 ^ bs.length := by
  induction bs with
  | nil => simp [decode]
  | cons b bs ih =>
    have hb : b.toNat < 256 := b.toNat_lt
    rw [decode_cons, List.length_cons, Nat.pow_succ]
    calc b.toNat * 256 ^ bs.length + decode bs < b.toNat * 256 ^ bs.length + 256 ^ bs.length := by omega
      _ = (b.toNat + 1) * 256 ^ bs.length := by ring
      _ ≤ 256 * 256 ^ bs.length := Nat.mul_le_mul_right _ hb
      _ = 256 ^ bs.length * 256 := Nat.mul_comm _ _

/-- Writing and reading back keeps the value modulo the width. --/
theorem decode_encode (k n : Nat) : decode (encode k n) = n % 256 ^ k := by
  induction k with
  | zero => simp [encode, decode, Nat.mod_one]
  | succ k ih =>
    have hsplit : n % 256 ^ (k + 1) = n % 256 ^ k + 256 ^ k * (n / 256 ^ k % 256) := by
      rw [Nat.pow_succ, Nat.mod_mul]
    rw [encode, decode_cons, ih, length_encode, UInt8.toNat_ofNat', hsplit, Nat.mul_comm, Nat.add_comm]

theorem decode_encode_of_lt {k n : Nat} (h : n < 256 ^ k) : decode (encode k n) = n := by
  rw [decode_encode, Nat.mod_eq_of_lt h]

/-- Reading and writing back gives the bytes that were read. --/
theorem encode_decode (bs : List UInt8) : encode bs.length (decode bs) = bs := by
  have keep : ∀ (bs : List UInt8) (m : Nat), encode bs.length (m * 256 ^ bs.length + decode bs) = bs := by
    intro bs
    induction bs with
    | nil => intro m; rfl
    | cons b bs ih =>
      intro m
      have hlt := decode_lt bs
      have hpos : 0 < 256 ^ bs.length := Nat.pow_pos (by decide)
      have hsum : m * 256 ^ (bs.length + 1) + (b.toNat * 256 ^ bs.length + decode bs)
          = (m * 256 + b.toNat) * 256 ^ bs.length + decode bs := by ring
      have hdiv : ((m * 256 + b.toNat) * 256 ^ bs.length + decode bs) / 256 ^ bs.length
          = m * 256 + b.toNat := by
        rw [Nat.mul_comm, Nat.mul_add_div hpos, Nat.div_eq_of_lt hlt, Nat.add_zero]
      have hbyte : UInt8.ofNat (m * 256 + b.toNat) = b := by
        apply UInt8.toNat_inj.mp
        rw [UInt8.toNat_ofNat', Nat.mul_comm, Nat.mul_add_mod]
        exact Nat.mod_eq_of_lt b.toNat_lt
      rw [List.length_cons, encode, decode_cons, hsum, hdiv, hbyte, ih]
  simpa using keep bs 0

end BigEndian
