import Mathlib.Data.List.Induction

/-! Induction along a run. What holds of the empty prefix of a list, and of a prefix with one more element if it
    holds of the prefix, holds of every prefix. -/

namespace Prefix
variable {α β σ : Type}

/-- `pre` is what comes before some point of `l`. --/
theorem induction {l : List α} {P : List α → Prop} (nil : P [])
    (step : ∀ pre a post, l = pre ++ a :: post → P pre → P (pre ++ [a])) {pre post : List α} (h : l = pre ++ post) :
    P pre := by
  induction pre using List.reverseRecOn generalizing post with
  | nil => exact nil
  | append_singleton pre a ih =>
    rw [List.append_assoc, List.singleton_append] at h
    exact step pre a post h (ih h)

/-- A point of `l₁ ++ l₂` is in `l₁`, or comes after all of it. --/
theorem mem_or_extends {l₁ l₂ pre post : List α} {a : α} (h : l₁ ++ l₂ = pre ++ a :: post) :
    a ∈ l₁ ∨ ∃ rest, pre = l₁ ++ rest := by
  rcases List.append_eq_append_iff.mp h with ⟨rest, hpre, -⟩ | ⟨rest, rfl, hpost⟩
  · exact .inr ⟨rest, hpre⟩
  · rcases rest with _ | ⟨b, rest⟩
    · exact .inr ⟨[], by simp⟩
    · obtain ⟨rfl, -⟩ := List.cons.inj hpost
      exact .inl (by simp)

/-- The state after one more step. --/
theorem foldl_concat (f : σ → α → σ) (s : σ) (l : List α) (a : α) : (l ++ [a]).foldl f s = f (l.foldl f s) a := by
  rw [List.foldl_append, List.foldl_cons, List.foldl_nil]

/-- Every step of a list with one more has it. --/
theorem forall_concat {P : List α → α → Prop} {l : List α} {a : α} (h : ∀ pre b post, l = pre ++ b :: post → P pre b)
    (ha : P l a) : ∀ pre b post, l ++ [a] = pre ++ b :: post → P pre b := by
  intro pre b post heq
  rcases List.eq_nil_or_concat post with rfl | ⟨post, x, rfl⟩
  · obtain ⟨rfl, hb⟩ := List.append_inj' heq rfl
    obtain rfl := List.head_eq_of_cons_eq hb
    exact ha
  · rw [List.concat_eq_append, ← List.cons_append, ← List.append_assoc] at heq
    exact h pre b post (List.append_inj_left' heq rfl)

/-- What the steps of a run put out, in their order. --/
def trace (f : σ → α → σ) (out : σ → α → List β) : σ → List α → List β
  | _, [] => []
  | s, a :: l => out s a ++ trace f out (f s a) l

/-- The steps of a run, each with the state that it is taken in. --/
def visits (f : σ → α → σ) (s : σ) (l : List α) : List (σ × α) := trace f (fun s a => [(s, a)]) s l

theorem map_snd_visits (f : σ → α → σ) (s : σ) (l : List α) : (visits f s l).map Prod.snd = l := by
  induction l generalizing s with
  | nil => rfl
  | cons a l ih => exact congrArg (a :: ·) (ih (f s a))

theorem trace_append (f : σ → α → σ) (out : σ → α → List β) (s : σ) (l l' : List α) :
    trace f out s (l ++ l') = trace f out s l ++ trace f out (l.foldl f s) l' := by
  induction l generalizing s with
  | nil => rfl
  | cons a l ih => rw [List.cons_append, trace, trace, ih, List.append_assoc, List.foldl_cons]

theorem trace_concat (f : σ → α → σ) (out : σ → α → List β) (s : σ) (l : List α) (a : α) :
    trace f out s (l ++ [a]) = trace f out s l ++ out (l.foldl f s) a := by
  rw [trace_append, trace, trace, List.append_nil]

end Prefix
