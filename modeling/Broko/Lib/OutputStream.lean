import Mathlib.Data.List.Basic

/-! An output stream on a device that may stop taking data: each write gets out a part of its data, and once
    a write has stopped short the stream is bad and writes nothing more. -/

namespace Broko

structure OutputStream (α : Type) where
  file : List α := []
  good : Bool := true

namespace OutputStream
variable {α : Type}

/-- One write, of which the device takes at most `n` elements. --/
def write (s : OutputStream α) (data : List α) (n : Nat) : OutputStream α :=
  if s.good then { file := s.file ++ data.take n, good := data.length ≤ n } else s

/-- A sequence of writes, the `i`-th of which is given `takes i`. --/
def writeAll (s : OutputStream α) (takes : Nat → Nat) : List (List α) → OutputStream α
  | [] => s
  | data :: rest => writeAll (s.write data (takes 0)) (fun i => takes (i + 1)) rest

/-- No write stops short. --/
def Complete (takes : Nat → Nat) (writes : List (List α)) : Prop :=
  ∀ i data, writes[i]? = some data → data.length ≤ takes i

theorem complete_cons {takes : Nat → Nat} {data : List α} {rest : List (List α)} :
    Complete takes (data :: rest) ↔ data.length ≤ takes 0 ∧ Complete (fun i => takes (i + 1)) rest := by
  constructor
  · intro h
    exact ⟨h 0 data rfl, fun i w hw => h (i + 1) w hw⟩
  · rintro ⟨hhead, htail⟩ i w hw
    cases i with
    | zero =>
      obtain rfl := Option.some.inj hw
      exact hhead
    | succ i => exact htail i w hw

theorem writeAll_bad {s : OutputStream α} (h : s.good = false) (takes : Nat → Nat) (writes : List (List α)) :
    s.writeAll takes writes = s := by
  induction writes generalizing takes with
  | nil => rfl
  | cons data rest ih =>
    have hwrite : s.write data (takes 0) = s := by simp [write, h]
    rw [writeAll, hwrite, ih]

theorem writeAll_complete {s : OutputStream α} (hs : s.good) {takes : Nat → Nat} {writes : List (List α)}
    (h : Complete takes writes) : (s.writeAll takes writes).file = s.file ++ writes.flatten := by
  induction writes generalizing s takes with
  | nil => simp [writeAll]
  | cons data rest ih =>
    obtain ⟨hhead, htail⟩ := complete_cons.mp h
    have hwrite : s.write data (takes 0) = { file := s.file ++ data, good := true } := by
      simp [write, hs, hhead, List.take_of_length_le hhead]
    rw [writeAll, hwrite, ih rfl htail, List.flatten_cons, List.append_assoc]

/-- After a write that stopped short the file lacks a part of the end of what should have been written. --/
theorem writeAll_cut {s : OutputStream α} (hs : s.good) {takes : Nat → Nat} {writes : List (List α)}
    (h : ¬Complete takes writes) :
    ∃ k < writes.flatten.length, (s.writeAll takes writes).file = s.file ++ writes.flatten.take k := by
  induction writes generalizing s takes with
  | nil => exact absurd (fun i data hdata => by simp at hdata) h
  | cons data rest ih =>
    rw [complete_cons] at h
    rw [List.flatten_cons, List.length_append, writeAll]
    by_cases hhead : data.length ≤ takes 0
    · have hwrite : s.write data (takes 0) = { file := s.file ++ data, good := true } := by
        simp [write, hs, hhead, List.take_of_length_le hhead]
      obtain ⟨k, hk, hfile⟩ := ih (s := { file := s.file ++ data, good := true }) rfl fun htail => h ⟨hhead, htail⟩
      refine ⟨data.length + k, by omega, ?_⟩
      rw [hwrite, hfile, List.take_length_add_append, List.append_assoc]
    · have hwrite : s.write data (takes 0) = { file := s.file ++ data.take (takes 0), good := false } := by
        simp [write, hs, hhead]
      rw [Nat.not_le] at hhead
      refine ⟨takes 0, by omega, ?_⟩
      rw [hwrite, writeAll_bad rfl, List.take_append_of_le_length (Nat.le_of_lt hhead)]

end OutputStream
end Broko
