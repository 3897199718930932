import Mathlib.Data.List.Sort

/-! Queues by key. A list in lanes has its elements by falling keys, and the elements of each key in the order of a lane
    of their own. -/

namespace Lanes
variable {α κ : Type} [LE κ] [DecidableEq κ] {key key' : α → κ} {lane : κ → List α} {l taken rest : List α} {a : α}

structure InLanes (key : α → κ) (lane : κ → List α) (l : List α) : Prop where
  sorted : l.Pairwise fun a b => key b ≤ key a
  lane : ∀ k, l.filter (fun a => key a = k) = lane k

/-- A new element goes to the end of its lane. --/
def append (key : α → κ) (lane : κ → List α) (a : α) (k : κ) : List α := if key a = k then lane k ++ [a] else lane k

/-- An element that comes back goes to the front of its lane. --/
def push (key : α → κ) (lane : κ → List α) (a : α) (k : κ) : List α := if key a = k then a :: lane k else lane k

/-- Each lane without its part of what was taken. --/
def drop (key : α → κ) (lane : κ → List α) (taken : List α) (k : κ) : List α :=
  (lane k).drop (taken.filter fun a => key a = k).length

theorem InLanes.nil : InLanes key (fun _ => []) [] := ⟨.nil, fun _ => rfl⟩

section
variable [DecidableLE κ] [Std.IsLinearPreorder κ]

theorem filter_orderedInsert (a : α) (l : List α) (k : κ) :
    (l.orderedInsert (fun a b => key b ≤ key a) a).filter (fun a => key a = k) =
      (a :: l).filter fun a => key a = k := by
  induction l with
  | nil => rfl
  | cons b l ih =>
    rw [List.orderedInsert_cons]
    split
    · rfl
    · rename_i hlt
      -- The element goes behind `b`, which is in another lane.
      have hne : ¬(key a = k ∧ key b = k) := fun ⟨ha, hb⟩ => hlt (by rw [ha, hb]; exact Std.le_refl k)
      rw [List.filter_cons, ih, List.filter_cons, List.filter_cons, List.filter_cons]
      by_cases ha : key a = k
      · have hb : ¬key b = k := fun hb => hne ⟨ha, hb⟩
        simp [ha, hb]
      · simp [ha]

/-- Sorting by key is stable: it changes no lane. --/
theorem filter_insertionSort (l : List α) (k : κ) :
    (l.insertionSort fun a b => key b ≤ key a).filter (fun a => key a = k) = l.filter fun a => key a = k := by
  induction l with
  | nil => rfl
  | cons a l ih =>
    rw [List.insertionSort_cons, filter_orderedInsert, List.filter_cons, List.filter_cons, ih]

theorem InLanes.sort (h : InLanes key lane l) (a : α) :
    InLanes key (append key lane a) ((l ++ [a]).insertionSort fun a b => key b ≤ key a) where
  sorted := by
    have : Std.Total fun a b : α => key b ≤ key a := ⟨fun a b => Std.le_total⟩
    have : IsTrans α fun a b => key b ≤ key a := ⟨fun _ _ _ hab hbc => Std.le_trans hbc hab⟩
    exact List.pairwise_insertionSort _ _
  lane k := by
    rw [filter_insertionSort, List.filter_append, h.lane, append]
    by_cases ha : key a = k
    · simp [ha]
    · simp [ha]

end

namespace InLanes

theorem push (h : InLanes key lane l) (ha : ∀ b ∈ l, key b ≤ key a) : InLanes key (Lanes.push key lane a) (a :: l) where
  sorted := List.pairwise_cons.mpr ⟨ha, h.sorted⟩
  lane k := by
    rw [List.filter_cons, h.lane, Lanes.push]
    by_cases hk : key a = k
    · simp [hk]
    · simp [hk]

theorem drop (h : InLanes key lane (taken ++ rest)) : InLanes key (Lanes.drop key lane taken) rest where
  sorted := (List.pairwise_append.mp h.sorted).2.1
  lane k := by rw [Lanes.drop, ← h.lane, List.filter_append, List.drop_left]

/-- Only the keys of the elements matter. --/
theorem congr (h : InLanes key lane l) (hkey : ∀ a ∈ l, key' a = key a) : InLanes key' lane l where
  sorted := h.sorted.imp_of_mem fun ha hb hle => by rwa [hkey _ ha, hkey _ hb]
  lane k := by
    rw [← h.lane]
    exact List.filter_congr fun a ha => by rw [hkey a ha]

end InLanes
end Lanes
