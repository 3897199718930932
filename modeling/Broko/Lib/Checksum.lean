import Mathlib.Logic.Function.Basic

/-! Checksums that take in a list element by element. If one step is injective in the state and in the element, then changing
    one element of the list changes the checksum. If the steps over a short list are injective in that list, then so is any
    change that lies within so many elements. -/

namespace Checksum
variable {σ α : Type}

/-- The second list is the first one with exactly one element changed. --/
inductive OneChanged : List α → List α → Prop
  | head {x y : α} (xs : List α) : x ≠ y → OneChanged (x :: xs) (y :: xs)
  | tail (x : α) {xs ys : List α} : OneChanged xs ys → OneChanged (x :: xs) (x :: ys)

namespace OneChanged
variable {xs ys zs : List α}

theorem length_eq (h : OneChanged xs ys) : ys.length = xs.length := by
  induction h with
  | head => rfl
  | tail x _ ih => rw [List.length_cons, List.length_cons, ih]

theorem ne (h : OneChanged xs ys) : xs ≠ ys := by
  induction h with
  | head xs hne => exact fun heq => hne (List.head_eq_of_cons_eq heq)
  | tail x _ ih => exact fun heq => ih (List.tail_eq_of_cons_eq heq)

/-- The change is in one of two parts. --/
theorem append (h : OneChanged (xs ++ zs) ys) :
    (∃ xs', OneChanged xs xs' ∧ ys = xs' ++ zs) ∨ ∃ zs', OneChanged zs zs' ∧ ys = xs ++ zs' := by
  induction xs generalizing ys with
  | nil => exact .inr ⟨ys, h, rfl⟩
  | cons x xs ih =>
    cases h with
    | @head _ y _ hne => exact .inl ⟨y :: xs, .head xs hne, rfl⟩
    | @tail _ _ ys h =>
      rcases ih h with ⟨xs', hxs, rfl⟩ | ⟨zs', hzs, rfl⟩
      · exact .inl ⟨x :: xs', .tail x hxs, rfl⟩
      · exact .inr ⟨zs', hzs, rfl⟩

end OneChanged

variable {step : σ → α → σ}

theorem foldl_injective (hstate : ∀ a, Function.Injective fun s => step s a) :
    ∀ xs : List α, Function.Injective fun s => xs.foldl step s
  | [] => fun _ _ h => h
  | x :: xs => fun _ _ h => hstate x (foldl_injective hstate xs h)

theorem foldl_ne (hstate : ∀ a, Function.Injective fun s => step s a) (helem : ∀ s, Function.Injective (step s))
    {xs ys : List α} (h : OneChanged xs ys) (s : σ) : xs.foldl step s ≠ ys.foldl step s := by
  induction h generalizing s with
  | head xs hne => exact fun heq => hne (helem s (foldl_injective hstate xs heq))
  | tail x _ ih => exact ih (step s x)

/-! ### Windows -/

/-- The lists have one length, and agree outside the `n` places from `i` on. --/
structure ChangedWithin (n i : Nat) (xs ys : List α) : Prop where
  length_eq : ys.length = xs.length
  outside : ∀ j, j < i ∨ i + n ≤ j → ys[j]? = xs[j]?

/-- The window with what stands before and after it. --/
theorem ChangedWithin.exists_window {n i : Nat} {xs ys : List α} (h : ChangedWithin n i xs ys) :
    ∃ front u v back, xs = front ++ (u ++ back) ∧ ys = front ++ (v ++ back) ∧ u.length ≤ n ∧ v.length = u.length := by
  have hfront : ys.take i = xs.take i := by
    refine List.ext_getElem? fun j => ?_
    rw [List.getElem?_take, List.getElem?_take]
    split
    · exact h.outside j (.inl ‹_›)
    · rfl
  have hback : (ys.drop i).drop n = (xs.drop i).drop n := by
    refine List.ext_getElem? fun j => ?_
    rw [List.drop_drop, List.drop_drop, List.getElem?_drop, List.getElem?_drop]
    exact h.outside _ (.inr (Nat.le_add_right _ _))
  refine ⟨xs.take i, (xs.drop i).take n, (ys.drop i).take n, (xs.drop i).drop n, ?_, ?_, List.length_take_le _ _, ?_⟩
  · rw [List.take_append_drop, List.take_append_drop]
  · rw [← hfront, ← hback, List.take_append_drop, List.take_append_drop]
  · rw [List.length_take, List.length_take, List.length_drop, List.length_drop, h.length_eq]

theorem changedWithin_of_window {n : Nat} {u v : List α} (front back : List α) (hn : u.length ≤ n) (hlen : v.length = u.length) :
    ChangedWithin n front.length (front ++ (u ++ back)) (front ++ (v ++ back)) := by
  refine ⟨by simp only [List.length_append, hlen], fun j hj => ?_⟩
  rcases hj with hbefore | hbehind
  · rw [List.getElem?_append_left hbefore, List.getElem?_append_left hbefore]
  · have hfront : front.length ≤ j := Nat.le_trans (Nat.le_add_right _ _) hbehind
    have hu : u.length ≤ j - front.length := by omega
    rw [List.getElem?_append_right hfront, List.getElem?_append_right hfront, List.getElem?_append_right hu,
      List.getElem?_append_right (hlen ▸ hu), hlen]

/-- A change within a window that the steps tell apart. --/
theorem foldl_ne_within {n i : Nat} (hstate : ∀ a, Function.Injective fun s => step s a)
    (hwindow : ∀ s (u v : List α), u.length ≤ n → v.length = u.length → u.foldl step s = v.foldl step s → u = v)
    {xs ys : List α} (h : ChangedWithin n i xs ys) (hne : xs ≠ ys) (s : σ) : xs.foldl step s ≠ ys.foldl step s := by
  obtain ⟨front, u, v, back, rfl, rfl, hn, hlen⟩ := h.exists_window
  intro heq
  rw [List.foldl_append, List.foldl_append, List.foldl_append, List.foldl_append] at heq
  obtain rfl := hwindow _ u v hn hlen (foldl_injective hstate back heq)
  exact hne rfl

end Checksum
