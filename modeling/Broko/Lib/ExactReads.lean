import Mathlib.Tactic.Common

/-! A party that reads a stream in pieces whose lengths it fixes beforehand, one outstanding read at a time. The stream
    comes in chunks; a read completes as soon as there is enough for it, and its handler chooses the next one. -/

namespace ExactReads
variable {σ α : Type}

/-- `wants s` is how much the outstanding read is for, `none` if there is none; `took s piece` is the handler. --/
structure Party (σ α : Type) where
  wants : σ → Option Nat
  took : σ → List α → σ
  /-- No read is for nothing. -/
  pos : ∀ {s n}, wants s = some n → 0 < n

namespace Party
variable (R : Party σ α)

/-- The outstanding read completes, if there is enough. --/
def read (s : σ) (buf : List α) : Option (σ × List α) :=
  match R.wants s with
  | none => none
  | some n => if n ≤ buf.length then some (R.took s (buf.take n), buf.drop n) else none

/-- At most `n` reads, until one has to wait. --/
def reads : Nat → σ → List α → σ × List α
  | 0, s, buf => (s, buf)
  | n + 1, s, buf =>
    match R.read s buf with
    | none => (s, buf)
    | some (s', rest) => reads n s' rest

/-- Reads until one has to wait. Each takes something, so there are no more of them than there is in the buffer. --/
def pump (s : σ) (buf : List α) : σ × List α := R.reads (buf.length + 1) s buf

/-- The chunks arrive one by one, and after each of them everything is read that can be. --/
def feed (s : σ) (buf : List α) (chunks : List (List α)) : σ × List α :=
  chunks.foldl (fun (s, buf) chunk => R.pump s (buf ++ chunk)) (s, buf)

variable {R} {s s' : σ} {buf rest more : List α} {n : Nat}

theorem read_some (h : R.wants s = some n) (hlen : n ≤ buf.length) :
    R.read s buf = some (R.took s (buf.take n), buf.drop n) := by
  rw [read, h]
  exact if_pos hlen

theorem read_eq_some (h : R.read s buf = some (s', rest)) :
    ∃ n, R.wants s = some n ∧ n ≤ buf.length ∧ s' = R.took s (buf.take n) ∧ rest = buf.drop n := by
  rw [read] at h
  split at h
  · cases h
  · rename_i n hn
    split at h
    · rename_i hlen
      obtain ⟨rfl, rfl⟩ := Prod.mk.inj (Option.some.inj h)
      exact ⟨n, hn, hlen, rfl, rfl⟩
    · cases h

theorem read_shorter (h : R.read s buf = some (s', rest)) : rest.length < buf.length := by
  obtain ⟨n, hn, hlen, -, rfl⟩ := read_eq_some h
  have hpos := R.pos hn
  rw [List.length_drop]
  omega

/-- What comes later does not change a read that completes. --/
theorem read_append (h : R.read s buf = some (s', rest)) (more : List α) :
    R.read s (buf ++ more) = some (s', rest ++ more) := by
  obtain ⟨n, hn, hlen, rfl, rfl⟩ := read_eq_some h
  rw [read_some hn (by rw [List.length_append]; omega), List.take_append_of_le_length hlen,
    List.drop_append_of_le_length hlen]

/-- More rounds than there are elements make no difference. --/
theorem reads_eq : ∀ (n m : Nat) (s : σ) (buf : List α), buf.length < n → buf.length < m →
    R.reads n s buf = R.reads m s buf
  | n + 1, m + 1, s, buf, hn, hm => by
    rw [reads, reads]
    cases hread : R.read s buf with
    | none => rfl
    | some r =>
      obtain ⟨s', rest⟩ := r
      have hlt := read_shorter hread
      exact reads_eq n m s' rest (by omega) (by omega)

theorem reads_wait (h : R.read s buf = none) (n : Nat) : R.reads n s buf = (s, buf) := by
  cases n with
  | zero => rfl
  | succ n => rw [reads, h]

theorem reads_read (h : R.read s buf = some (s', rest)) (n : Nat) : R.reads (n + 1) s buf = R.reads n s' rest := by
  rw [reads, h]

theorem pump_wait (h : R.read s buf = none) : R.pump s buf = (s, buf) := reads_wait h _

theorem pump_read (h : R.read s buf = some (s', rest)) : R.pump s buf = R.pump s' rest := by
  rw [pump, reads_read h, pump]
  exact reads_eq _ _ s' rest (read_shorter h) (Nat.lt_succ_self _)

/-- A piece of the awaited length at the front. --/
theorem pump_piece {piece : List α} (h : R.wants s = some piece.length) (rest : List α) :
    R.pump s (piece ++ rest) = R.pump (R.took s piece) rest := by
  rw [pump_read (read_some h (by rw [List.length_append]; omega)), List.take_left, List.drop_left]

theorem pump_stopped (h : R.wants s = none) (buf : List α) : R.pump s buf = (s, buf) :=
  pump_wait (by rw [read, h])

/-- Reading a part first makes no difference. --/
theorem pump_append (s : σ) (buf more : List α) :
    R.pump s (buf ++ more) = R.pump (R.pump s buf).1 ((R.pump s buf).2 ++ more) := by
  cases hread : R.read s buf with
  | none => rw [pump_wait hread]
  | some r =>
    obtain ⟨s', rest⟩ := r
    have hlt := read_shorter hread
    rw [pump_read hread, pump_read (read_append hread more)]
    exact pump_append s' rest more
termination_by buf.length

/-- After reading, the outstanding read has to wait. --/
theorem read_pump (s : σ) (buf : List α) : R.read (R.pump s buf).1 (R.pump s buf).2 = none := by
  cases hread : R.read s buf with
  | none => rw [pump_wait hread, hread]
  | some r =>
    obtain ⟨s', rest⟩ := r
    have hlt := read_shorter hread
    rw [pump_read hread]
    exact read_pump s' rest
termination_by buf.length

/-- A stream in chunks is read as if it came at once. --/
theorem feed_eq (hwait : R.read s buf = none) (chunks : List (List α)) :
    R.feed s buf chunks = R.pump s (buf ++ chunks.flatten) := by
  induction chunks generalizing s buf with
  | nil => rw [List.flatten_nil, List.append_nil, pump_wait hwait, feed, List.foldl_nil]
  | cons chunk chunks ih =>
    rw [List.flatten_cons, ← List.append_assoc, pump_append, ← ih (read_pump s (buf ++ chunk))]
    rfl

/-- Two cuttings of one stream. --/
theorem feed_congr (hwait : R.read s buf = none) {chunks chunks' : List (List α)}
    (hflat : chunks.flatten = chunks'.flatten) : R.feed s buf chunks = R.feed s buf chunks' := by
  rw [feed_eq hwait, feed_eq hwait, hflat]

end Party
end ExactReads
