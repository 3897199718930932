import Mathlib.Algebra.BigOperators.Group.Multiset.Basic
import Mathlib.Algebra.Order.Group.Multiset
import Broko.Lib.Assoc

/-! What the entries of a map hold, taken together. -/

namespace Assoc
variable {κ α β : Type} [DecidableEq κ] {w : κ → α → Multiset β} {m : Assoc κ α} {k : κ} {v : α} {f : α → α}

omit [DecidableEq κ] in
/-- All that the entries hold. --/
def gather (w : κ → α → Multiset β) (m : Assoc κ α) : Multiset β := (m.entries.map fun e => w e.1 e.2).sum

omit [DecidableEq κ] in
@[simp] theorem gather_empty : (∅ : Assoc κ α).gather w = 0 := rfl

omit [DecidableEq κ] in
theorem gather_of_perm {m' : Assoc κ α} (h : m'.entries.Perm m.entries) : m'.gather w = m.gather w :=
  (h.map _).sum_eq

theorem gather_reorder (order : List κ) : (m.reorder order).gather w = m.gather w :=
  gather_of_perm (reorder_perm m order)

theorem gather_eq_add (h : m.lookup k = some v) : m.gather w = w k v + (m.erase k).gather w := by
  rw [gather, ((entries_perm_of_lookup h).map _).sum_eq, List.map_cons, List.sum_cons, gather]

theorem gather_insert (m : Assoc κ α) (k : κ) (v : α) : (m.insert k v).gather w = w k v + (m.erase k).gather w := by
  rw [gather, ((insert_perm m k v).map _).sum_eq, List.map_cons, List.sum_cons, gather]

theorem gather_erase_le (m : Assoc κ α) (k : κ) : (m.erase k).gather w ≤ m.gather w := by
  cases h : m.lookup k with
  | none => rw [erase_eq_self h]
  | some v =>
    rw [gather_eq_add h]
    exact Multiset.le_add_left _ _

/-- The other entries are as they were. --/
theorem gather_modify (h : m.lookup k = some v) : (m.modify k f).gather w = w k (f v) + (m.erase k).gather w := by
  rw [gather, ((modify_perm h).map _).sum_eq, List.map_cons, List.sum_cons, gather]

theorem gather_modify_eq (h : ∀ v, m.lookup k = some v → w k (f v) = w k v) : (m.modify k f).gather w = m.gather w := by
  cases hv : m.lookup k with
  | none => rw [modify_of_lookup_eq_none hv]
  | some v => rw [gather_modify hv, h v hv, gather_eq_add hv]

theorem mem_gather {x : β} : x ∈ m.gather w ↔ ∃ k v, m.lookup k = some v ∧ x ∈ w k v := by
  have hlist : ∀ l : List (κ × α), x ∈ (l.map fun e => w e.1 e.2).sum ↔ ∃ e ∈ l, x ∈ w e.1 e.2 := by
    intro l
    induction l with
    | nil => simp
    | cons e l ih => simp [ih]
  rw [gather, hlist]
  constructor
  · rintro ⟨e, he, hx⟩
    exact ⟨e.1, e.2, mem_entries.mp he, hx⟩
  · rintro ⟨k, v, hv, hx⟩
    exact ⟨(k, v), mem_entries.mpr hv, hx⟩

end Assoc
