import Mathlib.Data.List.Nodup

/-! Lists from which the first element with a key is taken out, once for each key of another list. An element stays as
    long as no more of these keys are its own than there are elements with its key before it. -/

namespace Broko.FirstMatch

variable {α κ : Type} [DecidableEq α] [DecidableEq κ] (key : α → κ)

/-- For each key in turn, the first element with it goes. --/
def eraseKeys (l : List α) (ks : List κ) : List α := ks.foldl (fun l t => l.eraseP fun a => key a = t) l

/-- How many elements with the key of `a` stand before it. --/
def rank (a : α) (l : List α) : Nat := (l.takeWhile fun b => b ≠ a).countP fun b => key b = key a

variable {key} {a b : α} {l : List α} {t : κ} {ks : List κ}

omit [DecidableEq α] in
/-- What goes is the first element with the property. --/
theorem mem_eraseP_of_find? {p : α → Bool} (hl : l.Nodup) (h : l.find? p = some a) : b ∈ l.eraseP p ↔ b ∈ l ∧ b ≠ a := by
  induction l with
  | nil => cases h
  | cons x l ih =>
    obtain ⟨hx, hl⟩ := List.nodup_cons.mp hl
    by_cases hp : p x = true
    · rw [List.find?_cons_of_pos hp] at h
      obtain rfl := Option.some.inj h
      rw [List.eraseP_cons_of_pos hp, List.mem_cons]
      constructor
      · exact fun hb => ⟨.inr hb, fun heq => hx (heq ▸ hb)⟩
      · exact fun hb => hb.1.resolve_left hb.2
    · rw [List.find?_cons_of_neg hp] at h
      have hxa : x ≠ a := fun heq => hx (heq ▸ List.mem_of_find?_eq_some h)
      rw [List.eraseP_cons_of_neg hp, List.mem_cons, List.mem_cons, ih hl h]
      constructor
      · rintro (rfl | hb)
        · exact ⟨.inl rfl, hxa⟩
        · exact ⟨.inr hb.1, hb.2⟩
      · rintro ⟨rfl | hb, hne⟩
        · exact .inl rfl
        · exact .inr ⟨hb, hne⟩

theorem rank_cons_self : rank key a (a :: l) = 0 := by simp [rank]

theorem rank_cons_of_ne (h : b ≠ a) : rank key a (b :: l) = (if key b = key a then 1 else 0) + rank key a l := by
  rw [rank, List.takeWhile_cons_of_pos (by simpa using h), List.countP_cons, rank, Nat.add_comm]
  simp

theorem mem_eraseP (hl : l.Nodup) (ha : a ∈ l) : a ∈ l.eraseP (fun b => key b = t) ↔ (t = key a → 0 < rank key a l) := by
  induction l with
  | nil => cases ha
  | cons b l ih =>
    obtain ⟨hb, hl⟩ := List.nodup_cons.mp hl
    by_cases hab : b = a
    · subst hab
      rw [rank_cons_self]
      by_cases hkey : key b = t
      · rw [List.eraseP_cons_of_pos (by simpa using hkey)]
        exact ⟨fun h => absurd h hb, fun h => absurd (h hkey.symm) (Nat.lt_irrefl 0)⟩
      · rw [List.eraseP_cons_of_neg (by simpa using hkey)]
        exact ⟨fun _ h => absurd h.symm hkey, fun _ => List.mem_cons_self⟩
    · have hal : a ∈ l := (List.mem_cons.mp ha).resolve_left (Ne.symm hab)
      rw [rank_cons_of_ne hab]
      by_cases hkey : key b = t
      · rw [List.eraseP_cons_of_pos (by simpa using hkey)]
        refine ⟨fun _ ht => ?_, fun _ => hal⟩
        rw [if_pos (hkey.trans ht)]
        omega
      · rw [List.eraseP_cons_of_neg (by simpa using hkey), List.mem_cons, ih hl hal]
        constructor
        · rintro (h | h) ht
          · exact absurd h (Ne.symm hab)
          · have := h ht
            omega
        · refine fun h => .inr fun ht => ?_
          have hrank := h ht
          rwa [if_neg (fun h => hkey (h.trans ht.symm)), Nat.zero_add] at hrank

theorem rank_eraseP (hl : l.Nodup) (ha : a ∈ l.eraseP fun b => key b = t) :
    rank key a (l.eraseP fun b => key b = t) + (if t = key a then 1 else 0) = rank key a l := by
  induction l with
  | nil => cases ha
  | cons b l ih =>
    obtain ⟨hb, hl⟩ := List.nodup_cons.mp hl
    by_cases hkey : key b = t
    · rw [List.eraseP_cons_of_pos (by simpa using hkey)] at ha ⊢
      have hab : b ≠ a := fun h => hb (h ▸ ha)
      rw [rank_cons_of_ne hab, hkey, Nat.add_comm]
    · rw [List.eraseP_cons_of_neg (by simpa using hkey)] at ha ⊢
      by_cases hab : b = a
      · subst hab
        rw [rank_cons_self, rank_cons_self, if_neg (Ne.symm hkey)]
      · rw [rank_cons_of_ne hab, rank_cons_of_ne hab, Nat.add_assoc,
          ih hl ((List.mem_cons.mp ha).resolve_left (Ne.symm hab))]

omit [DecidableEq α] in
theorem eraseKeys_sublist : (eraseKeys key l ks).Sublist l := by
  induction ks generalizing l with
  | nil => exact .refl l
  | cons t ks ih => exact ih.trans List.eraseP_sublist

omit [DecidableEq α] in
/-- A list from which nothing goes has no element with one of the keys. --/
theorem ne_of_eraseKeys_eq (h : eraseKeys key l ks = l) (ht : t ∈ ks) (ha : a ∈ l) : key a ≠ t := by
  induction ks generalizing l with
  | nil => cases ht
  | cons t' ks ih =>
    change eraseKeys key (l.eraseP fun b => key b = t') ks = l at h
    have hsub : (eraseKeys key (l.eraseP fun b => key b = t') ks).Sublist (l.eraseP fun b => key b = t') :=
      eraseKeys_sublist
    have hsame : l.eraseP (fun b => key b = t') = l := by
      rw [h] at hsub
      exact List.eraseP_sublist.antisymm hsub
    rcases List.mem_cons.mp ht with rfl | ht
    · exact fun hkey => List.eraseP_eq_self_iff.mp hsame a ha (decide_eq_true hkey)
    · rw [hsame] at h
      exact ih h ht ha

/-- An element stays if, and only if, enough others go in its place. --/
theorem mem_eraseKeys (hl : l.Nodup) :
    a ∈ eraseKeys key l ks ↔ a ∈ l ∧ ks.countP (fun t => t = key a) ≤ rank key a l := by
  induction ks generalizing l with
  | nil => simp [eraseKeys]
  | cons t ks ih =>
    have hnodup : (l.eraseP fun b => key b = t).Nodup := hl.sublist List.eraseP_sublist
    change a ∈ eraseKeys key (l.eraseP fun b => key b = t) ks ↔ _
    rw [ih hnodup, List.countP_cons]
    by_cases hal : a ∈ l
    · by_cases ha : a ∈ l.eraseP fun b => key b = t
      · have hrank := rank_eraseP hl ha
        simp only [ha, hal, true_and, decide_eq_true_eq]
        omega
      · rw [mem_eraseP hl hal, not_forall] at ha
        obtain ⟨ht, hzero⟩ := ha
        have hgone : a ∉ l.eraseP fun b => key b = t := by
          rw [mem_eraseP hl hal]
          exact fun h => hzero (h ht)
        simp only [hgone, hal, true_and, false_and, decide_eq_true_eq, if_pos ht, false_iff]
        omega
    · have hgone : a ∉ l.eraseP fun b => key b = t := fun h => hal (List.mem_of_mem_eraseP h)
      simp only [hal, hgone, false_and]

/-- Of two elements, one stands before the other. --/
theorem mem_takeWhile_of_notMem (hb : b ∈ l) (hne : a ≠ b) (h : b ∉ l.takeWhile fun x => x ≠ a) :
    a ∈ l.takeWhile fun x => x ≠ b := by
  induction l with
  | nil => cases hb
  | cons x l ih =>
    by_cases hxa : x = a
    · rw [List.takeWhile_cons_of_pos (by simpa [hxa] using hne), hxa]
      exact List.mem_cons_self
    · rw [List.takeWhile_cons_of_pos (by simpa using hxa), List.mem_cons, not_or] at h
      have hbl : b ∈ l := (List.mem_cons.mp hb).resolve_left h.1
      rw [List.takeWhile_cons_of_pos (by simpa using Ne.symm h.1)]
      exact List.mem_cons_of_mem x (ih hbl h.2)

omit [DecidableEq α] in
theorem countP_eq_one (hks : ks.Nodup) (ht : t ∈ ks) : ks.countP (fun t' => t' = t) = 1 := by
  have hcount := List.count_eq_one_of_mem hks ht
  rw [← hcount, List.count]
  exact List.countP_congr fun x _ => by simp

end Broko.FirstMatch
