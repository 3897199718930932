import Mathlib.Data.List.Forall2

/-! A list cut into consecutive segments, one for each element of a pattern. -/

namespace Segments
variable {π α : Type} {R : π → List α → Prop} {p : π} {ps : List π} {xs : List α}

/-- `xs` is cut into consecutive segments, one for each element of `ps`, each in relation `R` to its element. --/
def Cut (R : π → List α → Prop) (ps : List π) (xs : List α) : Prop :=
  ∃ segments : List (List α), segments.flatten = xs ∧ List.Forall₂ R ps segments

theorem cut_nil : Cut R [] xs ↔ xs = [] := by
  constructor
  · rintro ⟨segments, rfl, hall⟩
    rw [List.forall₂_nil_left_iff.mp hall, List.flatten_nil]
  · rintro rfl
    exact ⟨[], rfl, .nil⟩

/-- The last element takes a segment at the end. --/
theorem cut_concat : Cut R (ps ++ [p]) xs ↔ ∃ front last, xs = front ++ last ∧ Cut R ps front ∧ R p last := by
  constructor
  · rintro ⟨segments, rfl, hall⟩
    have hfront := List.forall₂_take_append _ _ _ hall.flip
    have hlast := List.forall₂_drop_append _ _ _ hall.flip
    obtain ⟨last, rest, hp, hnil, hdrop⟩ := List.forall₂_cons_right_iff.mp hlast
    obtain rfl := List.forall₂_nil_right_iff.mp hnil
    refine ⟨(segments.take ps.length).flatten, last, ?_, ⟨_, rfl, hfront.flip⟩, hp⟩
    conv_lhs => rw [← List.take_append_drop ps.length segments, hdrop]
    simp
  · rintro ⟨front, last, rfl, ⟨segments, rfl, hall⟩, hlast⟩
    exact ⟨segments ++ [last], by simp, List.rel_append hall (.cons hlast .nil)⟩

end Segments
