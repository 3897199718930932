import Mathlib.Data.List.Forall2
import Broko.Lib.Prefix

/-! Requests and answers along a run. A machine that puts out, at each step, one answer to each of the requests of that
    step has put out, after a run, the answers to all of them in their order. -/

namespace Transcript
variable {σ α β γ : Type} {f : σ → α → σ} {ask : σ → α → List β} {out : σ → List γ} {R : β → List γ → Prop}

/-- What is put out from `s` to `s'` answers the requests `asked` one by one, each with a piece that `R` allows. --/
def Answered (R : β → List γ → Prop) (out : σ → List γ) (asked : List β) (s s' : σ) : Prop :=
  ∃ answers, List.Forall₂ R asked answers ∧ out s' = out s ++ answers.flatten

theorem Answered.refl (s : σ) : Answered R out [] s s := ⟨[], .nil, (List.append_nil _).symm⟩

theorem Answered.trans {asked asked' : List β} {s s₁ s' : σ} (h : Answered R out asked s s₁)
    (h' : Answered R out asked' s₁ s') : Answered R out (asked ++ asked') s s' := by
  obtain ⟨answers, hall, hout⟩ := h
  obtain ⟨answers', hall', hout'⟩ := h'
  refine ⟨answers ++ answers', List.rel_append hall hall', ?_⟩
  rw [hout', hout, List.flatten_append, List.append_assoc]

/-- As long as the machine is live at the end, and so was all along, a run answers what its steps asked. --/
theorem answered_run {Inv Live : σ → Prop} {l : List α} (hinv : ∀ s, ∀ a ∈ l, Inv s → Inv (f s a))
    (hback : ∀ s, ∀ a ∈ l, Inv s → Live (f s a) → Live s)
    (hstep : ∀ s, ∀ a ∈ l, Inv s → Live s → Live (f s a) → Answered R out (ask s a) s (f s a)) {s : σ} (hs : Inv s)
    (hlive : Live (l.foldl f s)) : Live s ∧ Answered R out (Prefix.trace f ask s l) s (l.foldl f s) := by
  induction l generalizing s with
  | nil => exact ⟨hlive, .refl s⟩
  | cons a l ih =>
    have hmem : a ∈ a :: l := List.mem_cons_self
    obtain ⟨hnext, hrest⟩ := ih (fun s b hb => hinv s b (List.mem_cons_of_mem _ hb))
      (fun s b hb => hback s b (List.mem_cons_of_mem _ hb)) (fun s b hb => hstep s b (List.mem_cons_of_mem _ hb))
      (hinv s a hmem hs) hlive
    have hfirst : Live s := hback s a hmem hs hnext
    exact ⟨hfirst, (hstep s a hmem hs hfirst hnext).trans hrest⟩

end Transcript
