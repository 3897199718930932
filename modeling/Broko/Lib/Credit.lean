import Mathlib.Algebra.Order.Ring.Nat
import Mathlib.Tactic.Common

/-! Credit that is counted. A counter goes up when an item is handed out and down when its credit is given back. The books
    compare it with the items that are out: some have had their credit given back already, and others went away without
    giving theirs back. With a limit that is checked at each hand-out, the counter does not wrap. -/

namespace Credit

/-- The counter stands at the items that are out and those that are lost, less those whose credit came back early. A limit
    of 0 is none. --/
structure Books (limit : Nat) (counter : UInt32) (items early lost : Nat) : Prop where
  counter_eq : counter + UInt32.ofNat early = UInt32.ofNat (items + lost)
  exact : 0 < limit → counter.toNat + early = items + lost
  le : 0 < limit → counter.toNat ≤ limit

namespace Books
variable {limit : Nat} {counter : UInt32} {items early lost : Nat}

theorem new (limit : Nat) : Books limit 0 0 0 0 := ⟨rfl, fun _ => rfl, fun _ => Nat.zero_le _⟩

/-- An item is handed out below the limit. --/
theorem take (h : Books limit counter items early lost) (hlimit : limit < 2 ^ 32) (hfree : 0 < limit → counter.toNat < limit) :
    Books limit (counter + 1) (items + 1) early lost := by
  have hadd : 0 < limit → (counter + 1).toNat = counter.toNat + 1 := by
    intro hpos
    have := hfree hpos
    rw [UInt32.toNat_add]
    exact Nat.mod_eq_of_lt (by simp; omega)
  constructor
  · have hone : items + 1 + lost = items + lost + 1 := by omega
    rw [hone, UInt32.ofNat_add, ← h.counter_eq, UInt32.add_assoc, UInt32.add_comm 1, ← UInt32.add_assoc]
    rfl
  · intro hpos
    have := h.exact hpos
    have := hadd hpos
    omega
  · intro hpos
    have := hfree hpos
    have := hadd hpos
    omega

/-- The credit of an item that is still out is given back. --/
theorem giveBack (h : Books limit counter items early lost) (hout : early < items) :
    Books limit (counter - 1) items (early + 1) lost := by
  have hsub : 0 < limit → (counter - 1).toNat = counter.toNat - 1 ∧ 0 < counter.toNat := by
    intro hpos
    have := h.exact hpos
    have hcounter : 0 < counter.toNat := by omega
    exact ⟨UInt32.toNat_sub_of_le _ _ (UInt32.le_iff_toNat_le.mpr hcounter), hcounter⟩
  constructor
  · have hone : UInt32.ofNat (early + 1) = UInt32.ofNat early + 1 := UInt32.ofNat_add ..
    rw [hone, UInt32.add_comm (UInt32.ofNat early), ← UInt32.add_assoc, UInt32.sub_add_cancel]
    exact h.counter_eq
  · intro hpos
    have := h.exact hpos
    have := hsub hpos
    omega
  · intro hpos
    have := h.le hpos
    have := hsub hpos
    omega

/-- Items go whose credit was given back. --/
theorem settle {n : Nat} (h : Books limit counter (items + n) (early + n) lost) : Books limit counter items early lost := by
  have hn : ∀ a : Nat, UInt32.ofNat (a + n) = UInt32.ofNat a + UInt32.ofNat n := fun a => UInt32.ofNat_add ..
  constructor
  · have heq := h.counter_eq
    have hcomm : items + n + lost = items + lost + n := by omega
    rw [hcomm, hn, hn, ← UInt32.add_assoc] at heq
    exact (UInt32.add_left_inj _).mp heq
  · intro hpos
    have := h.exact hpos
    omega
  · exact h.le

/-- Items go without their credit. --/
theorem lose {n : Nat} (h : Books limit counter (items + n) early lost) : Books limit counter items early (lost + n) := by
  have hcomm : items + (lost + n) = items + n + lost := by omega
  refine ⟨?_, fun hpos => ?_, h.le⟩
  · rw [hcomm]
    exact h.counter_eq
  · rw [hcomm]
    exact h.exact hpos

/-- An item that is still out is written off. --/
theorem writeOff (h : Books limit counter items early lost) : Books limit counter items (early + 1) (lost + 1) := by
  have hone : ∀ a : Nat, UInt32.ofNat (a + 1) = UInt32.ofNat a + 1 := fun a => UInt32.ofNat_add ..
  refine ⟨?_, fun hpos => ?_, h.le⟩
  · rw [hone, ← Nat.add_assoc, hone, ← UInt32.add_assoc, h.counter_eq]
  · have := h.exact hpos
    omega

/-- With a limit, the items that are out are within the counter and the counter within the limit. --/
theorem bounds (h : Books limit counter items 0 lost) (hpos : 0 < limit) : items ≤ counter.toNat ∧ counter.toNat ≤ limit := by
  have := h.exact hpos
  exact ⟨by omega, h.le hpos⟩

/-- As long as nothing is lost, the counter is within the items that are out. --/
theorem le_items (h : Books limit counter items 0 0) : counter.toNat ≤ items := by
  have heq : counter = UInt32.ofNat items := by
    have := h.counter_eq
    simpa using this
  rw [heq]
  exact Nat.mod_le ..

end Books
end Credit
