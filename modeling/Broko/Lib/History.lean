import Mathlib.Tactic.Common

/-! What a history of events leaves behind, when each event may add a thing and remove things that
    earlier events added. -/

namespace History
variable {ε α : Type}

/-- Each thing that an event adds, unless a later event removes it. --/
def surviving (adds : ε → Option α) (removes : ε → α → Bool) : List ε → List α
  | [] => []
  | e :: later =>
    ((adds e).toList.filter fun a => later.all fun x => !removes x a) ++ surviving adds removes later

variable {adds : ε → Option α} {removes : ε → α → Bool}

/-- One more event: what it removes goes, and what it adds stands last. --/
theorem surviving_concat (h : List ε) (e : ε) :
    surviving adds removes (h ++ [e]) =
      (surviving adds removes h).filter (fun a => !removes e a) ++ (adds e).toList := by
  induction h with
  | nil => simp [surviving]
  | cons x h ih =>
    rw [List.cons_append, surviving, surviving, ih, List.filter_append, List.append_assoc, List.filter_filter]
    simp only [List.all_append, List.all_cons, List.all_nil, Bool.and_comm, Bool.true_and]

end History
