import Mathlib.Data.List.TakeWhile

/-! Texts as lines. Every line ends at a separator, or at the end of the text; what stands behind the last separator is a
    line if it is not empty. -/

namespace Lines
variable {α : Type} [DecidableEq α] {sep : α} {l rest : List α} {ls : List (List α)}

/-- The lines of a text. --/
def split (sep : α) : List α → List (List α)
  | [] => []
  | c :: rest =>
    if c = sep then [] :: split sep rest
    else
      match split sep rest with
      | [] => [[c]]
      | l :: ls => (c :: l) :: ls

/-- The text with these lines. --/
def join (sep : α) (ls : List (List α)) : List α := ls.flatMap fun l => l ++ [sep]

theorem split_sep (rest : List α) : split sep (sep :: rest) = [] :: split sep rest := by rw [split, if_pos rfl]

theorem split_line (h : sep ∉ l) (rest : List α) : split sep (l ++ sep :: rest) = l :: split sep rest := by
  induction l with
  | nil => exact split_sep rest
  | cons c l ih =>
    have hc : c ≠ sep := fun heq => h (heq ▸ List.mem_cons_self)
    rw [List.cons_append, split, if_neg hc, ih fun hmem => h (List.mem_cons_of_mem _ hmem)]

/-- A line without a separator is the last one. --/
theorem split_last (h : sep ∉ l) (hne : l ≠ []) : split sep l = [l] := by
  induction l with
  | nil => exact absurd rfl hne
  | cons c l ih =>
    have hc : c ≠ sep := fun heq => h (heq ▸ List.mem_cons_self)
    rw [split, if_neg hc]
    cases l with
    | nil => rfl
    | cons d l => rw [ih (fun hmem => h (List.mem_cons_of_mem _ hmem)) (List.cons_ne_nil _ _)]

theorem split_join (h : ∀ l ∈ ls, sep ∉ l) : split sep (join sep ls) = ls := by
  induction ls with
  | nil => rfl
  | cons l ls ih =>
    have hjoin : join sep (l :: ls) = l ++ sep :: join sep ls := by
      rw [join, List.flatMap_cons, List.append_assoc]
      rfl
    rw [hjoin, split_line (h l List.mem_cons_self), ih fun l' hl' => h l' (List.mem_cons_of_mem _ hl')]

/-- A text that is not empty begins with a line, and goes on behind the separator. --/
theorem split_cons {text : List α} (hne : text ≠ []) :
    split sep text = text.takeWhile (· ≠ sep) :: split sep ((text.dropWhile (· ≠ sep)).drop 1) := by
  have htext : text.takeWhile (· ≠ sep) ++ text.dropWhile (· ≠ sep) = text := List.takeWhile_append_dropWhile
  have hline : sep ∉ text.takeWhile (· ≠ sep) := by
    intro hmem
    simpa using List.mem_takeWhile_imp hmem
  cases hdrop : text.dropWhile (· ≠ sep) with
  | nil =>
    rw [hdrop, List.append_nil] at htext
    rw [htext] at hline ⊢
    exact split_last hline hne
  | cons c rest =>
    have hc : c = sep := by
      have hfirst := List.head?_dropWhile_not (fun x => decide (x ≠ sep)) text
      rw [hdrop] at hfirst
      simpa using hfirst
    rw [hdrop, hc] at htext
    have hsplit := split_line hline rest
    rwa [htext] at hsplit

end Lines
