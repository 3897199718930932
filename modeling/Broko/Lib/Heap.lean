import Mathlib.Tactic.Common

/-! Objects that are shared by reference. References are handed out in order, and an object is changed in
    place through its reference. -/

/-- Objects at the references below `size`. --/
structure Heap (α : Type) where
  size : Nat
  cell : Nat → α

/-- A reference. --/
abbrev Ref := Nat

namespace Heap
variable {α : Type}

def empty [Inhabited α] : Heap α := ⟨0, fun _ => default⟩

/-- A new object, at reference `h.size`. --/
def alloc (h : Heap α) (x : α) : Heap α := ⟨h.size + 1, fun r => if r = h.size then x else h.cell r⟩

def modify (h : Heap α) (r : Ref) (f : α → α) : Heap α :=
  ⟨h.size, fun r' => if r' = r then f (h.cell r) else h.cell r'⟩

@[simp] theorem size_alloc (h : Heap α) (x : α) : (h.alloc x).size = h.size + 1 := rfl

@[simp] theorem size_modify (h : Heap α) (r : Ref) (f : α → α) : (h.modify r f).size = h.size := rfl

@[simp] theorem cell_alloc_self (h : Heap α) (x : α) : (h.alloc x).cell h.size = x := if_pos rfl

theorem cell_alloc_of_ne {h : Heap α} {x : α} {r : Ref} (hr : r ≠ h.size) : (h.alloc x).cell r = h.cell r :=
  if_neg hr

@[simp] theorem cell_modify_self (h : Heap α) (r : Ref) (f : α → α) : (h.modify r f).cell r = f (h.cell r) :=
  if_pos rfl

theorem cell_modify_of_ne {h : Heap α} {r r' : Ref} {f : α → α} (hr : r' ≠ r) :
    (h.modify r f).cell r' = h.cell r' :=
  if_neg hr

/-- A new object that is changed at once. --/
theorem modify_alloc_self (h : Heap α) (x : α) (f : α → α) : (h.alloc x).modify h.size f = h.alloc (f x) := by
  rw [modify, cell_alloc_self, alloc, alloc]
  congr 1
  funext r
  split
  · rfl
  · rename_i hr
    exact if_neg hr

/-- What a change keeps of one object, it keeps of all. --/
theorem cell_modify_congr {β : Type} (g : α → β) {h : Heap α} {r : Ref} {f : α → α}
    (hf : ∀ x, g (f x) = g x) (r' : Ref) : g ((h.modify r f).cell r') = g (h.cell r') := by
  by_cases hr : r' = r
  · rw [hr, cell_modify_self, hf]
  · rw [cell_modify_of_ne hr]

end Heap
