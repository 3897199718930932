import Mathlib.Data.List.Perm.Basic
import Mathlib.Data.List.Nodup

/-! `List.eraseDups` keeps the first occurrence of each element. Here it is applied to the names of the elements of a list
    that pass a test, and two lists are alike if no test tells them apart. -/

namespace FirstOccurrence
variable {α β : Type} [BEq β]

section Lawful
variable [LawfulBEq β]

theorem nodup_eraseDups : ∀ l : List β, l.eraseDups.Nodup
  | [] => List.nodup_nil
  | a :: l => by
    have hlt : (l.filter fun b => !b == a).length < l.length + 1 := Nat.lt_succ_of_le (List.length_filter_le _ _)
    rw [List.eraseDups_cons, List.nodup_cons]
    exact ⟨fun h => by simp [List.mem_eraseDups] at h, nodup_eraseDups _⟩
termination_by l => l.length

theorem eraseDups_filter (p : β → Bool) : ∀ l : List β, (l.filter p).eraseDups = l.eraseDups.filter p
  | [] => rfl
  | a :: l => by
    have hlt : (l.filter fun b => !b == a).length < l.length + 1 := Nat.lt_succ_of_le (List.length_filter_le _ _)
    have ih := eraseDups_filter p (l.filter fun b => !b == a)
    rw [List.eraseDups_cons, List.filter_cons, List.filter_cons]
    split
    · rename_i ha
      rw [List.eraseDups_cons, List.filter_comm, ih]
    · rename_i ha
      rw [← ih, List.filter_comm]
      congr 1
      refine (List.filter_eq_self.mpr fun b hb => ?_).symm
      rw [Bool.not_eq_true', beq_eq_false_iff_ne]
      rintro rfl
      exact ha (List.mem_filter.mp hb).2
termination_by l => l.length

theorem eraseDups_concat (l : List β) (a : β) : (l ++ [a]).eraseDups = if a ∈ l then l.eraseDups else l.eraseDups ++ [a] := by
  rw [List.eraseDups_append]
  split
  · rename_i h
    have hnil : [a].removeAll l = [] := by simp [List.removeAll, h]
    rw [hnil, List.eraseDups_nil, List.append_nil]
  · rename_i h
    have hone : [a].removeAll l = [a] := by simp [List.removeAll, h]
    rw [hone, List.eraseDups_cons]
    rfl

theorem eraseDups_perm {l l' : List β} (h : l.Perm l') : l.eraseDups.Perm l'.eraseDups := by
  refine (List.perm_ext_iff_of_nodup (nodup_eraseDups l) (nodup_eraseDups l')).mpr fun a => ?_
  rw [List.mem_eraseDups, List.mem_eraseDups, h.mem_iff]

end Lawful

/-! ### Names -/

section Names
variable (name : α → β)

/-- The names of the elements that pass the test, each at its first occurrence. --/
def names (p : α → Bool) (l : List α) : List β := ((l.filter p).map name).eraseDups

/-- The position of the first element that passes the test and has the name. --/
def firstIdx (p : α → Bool) (l : List α) (b : β) : Nat := l.findIdx fun a => p a && name a == b

/-- Whatever test is applied, the same names come out in the same order. --/
def Alike (l l' : List α) : Prop := ∀ p, names name p l = names name p l'

end Names

variable {name : α → β} {p : α → Bool} {l l' : List α} {b : β}

namespace Alike

theorem refl (l : List α) : Alike name l l := fun _ => rfl

theorem trans {l'' : List α} (h : Alike name l l') (h' : Alike name l' l'') : Alike name l l'' := fun p => (h p).trans (h' p)

theorem filter (h : Alike name l l') (q : α → Bool) : Alike name (l.filter q) (l'.filter q) := fun p => by
  have hp := h fun a => p a && q a
  simpa only [names, List.filter_filter] using hp

end Alike

variable [LawfulBEq β]

theorem nodup_names : (names name p l).Nodup := nodup_eraseDups _

theorem mem_names : b ∈ names name p l ↔ ∃ a ∈ l, p a ∧ name a = b := by
  rw [names, List.mem_eraseDups, List.mem_map]
  simp only [List.mem_filter, and_assoc]

theorem names_perm (h : l.Perm l') : (names name p l).Perm (names name p l') :=
  eraseDups_perm ((h.filter p).map name)

/-- A test of the names themselves. --/
theorem names_filter_name (keep : β → Bool) : names name p (l.filter fun a => keep (name a)) = (names name p l).filter keep := by
  rw [names, names, ← eraseDups_filter, List.filter_map, List.filter_comm]
  rfl

/-- The names stand in the order of the elements that they first occur at. --/
theorem names_ordered (l : List α) : (names name p l).Pairwise fun b c => firstIdx name p l b < firstIdx name p l c := by
  induction l with
  | nil => exact .nil
  | cons a l ih =>
    rw [names, List.filter_cons]
    by_cases ha : p a = true
    · have hrest : ((l.filter p).map name).eraseDups.filter (fun b => !b == name a) =
          (((l.filter p).map name).filter fun b => !b == name a).eraseDups := (eraseDups_filter _ _).symm
      rw [if_pos ha, List.map_cons, List.eraseDups_cons, ← hrest, List.pairwise_cons]
      have hzero : firstIdx name p (a :: l) (name a) = 0 := by simp [firstIdx, List.findIdx_cons, ha]
      have hsucc : ∀ b, (!b == name a) = true → firstIdx name p (a :: l) b = firstIdx name p l b + 1 := fun b hb => by
        have hne : (name a == b) = false := by
          rw [Bool.not_eq_true', beq_eq_false_iff_ne] at hb
          rw [beq_eq_false_iff_ne]
          exact hb.symm
        simp [firstIdx, List.findIdx_cons, hne]
      refine ⟨fun b hb => ?_, ?_⟩
      · rw [hzero, hsucc b (List.mem_filter.mp hb).2]
        exact Nat.succ_pos _
      · refine (ih.filter _).imp_of_mem fun hb hc hlt => ?_
        rw [hsucc _ (List.mem_filter.mp hb).2, hsucc _ (List.mem_filter.mp hc).2]
        exact Nat.succ_lt_succ hlt
    · have hsucc : ∀ b, firstIdx name p (a :: l) b = firstIdx name p l b + 1 := fun b => by
        simp [firstIdx, List.findIdx_cons, ha]
      rw [if_neg ha]
      refine ih.imp fun hlt => ?_
      rw [hsucc, hsucc]
      exact Nat.succ_lt_succ hlt

/-! ### Lists that no test tells apart -/

namespace Alike

theorem names_concat (l : List α) (a : α) : names name p (l ++ [a]) =
    if p a then (if name a ∈ names name p l then names name p l else names name p l ++ [name a]) else names name p l := by
  rw [names, List.filter_append, List.map_append]
  by_cases ha : p a = true
  · simp only [List.filter_cons, ha, if_true, List.filter_nil, List.map_cons, List.map_nil, eraseDups_concat, names,
      List.mem_eraseDups]
  · simp only [List.filter_cons, ha, if_false, List.filter_nil, List.map_nil, List.append_nil, names, Bool.false_eq_true]

theorem concat (h : Alike name l l') (a : α) : Alike name (l ++ [a]) (l' ++ [a]) := fun p => by
  rw [names_concat, names_concat, h p]

/-- A name comes first in the front, or in the back if the front does not have it. --/
theorem names_append (front back : List α) : names name p (front ++ back) =
    names name p front ++ (names name p back).filter fun b => !(names name p front).contains b := by
  have hmem : (fun b => !(names name p front).contains b) = fun b => !((front.filter p).map name).contains b := by
    funext b
    rw [List.contains_eq_mem, List.contains_eq_mem, names]
    simp only [List.mem_eraseDups]
  rw [hmem, names, names, names, ← eraseDups_filter, List.filter_append, List.map_append, List.eraseDups_append]
  rfl

theorem append {m m' : List α} (h : Alike name l l') (hm : Alike name m m') : Alike name (l ++ m) (l' ++ m') := fun p => by
  rw [names_append, names_append, h p, hm p]

omit [LawfulBEq β] in
/-- What is made of the elements has their names. --/
theorem map {γ : Type} {f : α → γ} {name' : γ → β} (h : Alike name l l') (hf : ∀ a, name' (f a) = name a) :
    Alike name' (l.map f) (l'.map f) := fun p => by
  have hnames : ∀ l : List α, names name' p (l.map f) = names name (p ∘ f) l := fun l => by
    rw [names, names, List.filter_map, List.map_map, show name' ∘ f = name from funext hf]
  rw [hnames, hnames, h]

/-- A repetition of an element. --/
theorem again {a : α} (ha : a ∈ l) : Alike name l (l ++ [a]) := fun p => by
  rw [names_concat]
  by_cases hp : p a = true
  · rw [if_pos hp, if_pos (mem_names.mpr ⟨a, ha, hp, rfl⟩)]
  · rw [if_neg hp]

end Alike
/-! ### Elements that go

Elements of one name are taken out of a list. The other names are still first met where they were; the name itself is not,
if its first element goes, unless another of its elements comes before any other new name. -/

section Removal
variable {goes : α → Bool}

omit [LawfulBEq β] in
theorem eraseDups_map_cons (a : α) (l : List α) :
    ((a :: l).map name).eraseDups = name a :: ((l.filter fun x => !name x == name a).map name).eraseDups := by
  rw [List.map_cons, List.eraseDups_cons, List.filter_map]
  rfl

theorem eraseDups_map_append (front back : List α) : ((front ++ back).map name).eraseDups =
    (front.map name).eraseDups ++ ((back.filter fun a => !(front.map name).contains (name a)).map name).eraseDups := by
  rw [List.map_append, List.eraseDups_append, List.removeAll, List.filter_map]
  rfl

theorem filter_stay_others (hgoes : ∀ a ∈ l, goes a → name a = b) :
    (l.filter fun a => !goes a).filter (fun a => !name a == b) = l.filter fun a => !name a == b := by
  rw [List.filter_filter]
  refine List.filter_congr fun a ha => ?_
  by_cases hab : name a = b
  · simp [hab]
  · simp [Bool.eq_false_iff.mpr fun h => hab (hgoes a ha h)]

/-- The first element with the name has gone: what stays has to begin with that name. --/
theorem eraseDups_eq_cons_iff (hgoes : ∀ a ∈ l, goes a → name a = b) :
    ((l.filter fun a => !goes a).map name).eraseDups = b :: ((l.filter fun a => !name a == b).map name).eraseDups ↔
      ∃ a rest, l.filter (fun a => !goes a) = a :: rest ∧ name a = b := by
  rw [← filter_stay_others hgoes]
  cases l.filter fun a => !goes a with
  | nil => exact iff_of_false nofun nofun
  | cons a rest =>
    rw [eraseDups_map_cons, List.cons.injEq]
    constructor
    · exact fun h => ⟨a, rest, rfl, h.1⟩
    · rintro ⟨a', rest', heq, hname⟩
      rw [List.cons.injEq] at heq
      obtain ⟨rfl, rfl⟩ := heq
      subst hname
      exact ⟨rfl, by rw [List.filter_cons_of_neg (by simp)]⟩

/-- Where the first element of the name goes, another one stays, and what stays before it has names that were met. --/
def Spared (name : α → β) (goes : α → Bool) (b : β) (l : List α) : Prop :=
  ∀ front a back, l = front ++ a :: back → goes a → (∀ x ∈ front, name x ≠ b) →
    ∃ mid a' back', back = mid ++ a' :: back' ∧ goes a' = false ∧ name a' = b ∧
      ∀ x ∈ mid, goes x ∨ name x ∈ front.map name

omit [BEq β] [LawfulBEq β] in
theorem spared_of_none (h : ∀ a ∈ l, goes a = false) : Spared name goes b l := by
  rintro front a back rfl ha
  rw [h a (List.mem_append_right _ List.mem_cons_self)] at ha
  cases ha

theorem takeWhile_front {front back : List α} {a : α} (hfront : ∀ x ∈ front, name x ≠ b) (ha : name a = b) :
    (front ++ a :: back).takeWhile (fun x => !name x == b) = front := by
  rw [List.takeWhile_append_of_pos fun x hx => by simpa using hfront x hx, List.takeWhile_cons_of_neg (by simp [ha]),
    List.append_nil]

/-- There is only one first element of the name to look at. --/
theorem spared_iff_of_first {front back : List α} {a : α} (hfront : ∀ x ∈ front, name x ≠ b) (ha : name a = b)
    (hgoes : ∀ x ∈ front ++ a :: back, goes x → name x = b) : Spared name goes b (front ++ a :: back) ↔
      (goes a → ∃ mid a' back', back = mid ++ a' :: back' ∧ goes a' = false ∧ name a' = b ∧
        ∀ x ∈ mid, goes x ∨ name x ∈ front.map name) := by
  refine ⟨fun h hgo => h front a back rfl hgo hfront, fun h front' a' back' heq hgo hfront' => ?_⟩
  have ha' : name a' = b := hgoes a' (heq ▸ List.mem_append_right _ List.mem_cons_self) hgo
  have hsame : front = front' := by
    have htake := congrArg (List.takeWhile fun x => !name x == b) heq
    rwa [takeWhile_front hfront ha, takeWhile_front hfront' ha'] at htake
  subst hsame
  rw [List.append_cancel_left_eq, List.cons.injEq] at heq
  obtain ⟨rfl, rfl⟩ := heq
  exact h hgo

/-- The names stay as they were if and only if the one whose elements go is spared. --/
theorem eraseDups_map_filter_iff (hgoes : ∀ a ∈ l, goes a → name a = b) :
    ((l.filter fun a => !goes a).map name).eraseDups = (l.map name).eraseDups ↔ Spared name goes b l := by
  cases hfind : l.find? fun a => name a == b with
  | none =>
    have hnone : ∀ a ∈ l, goes a = false := fun a ha => by
      rw [List.find?_eq_none] at hfind
      exact Bool.eq_false_iff.mpr fun hgo => hfind a ha (by simp [hgoes a ha hgo])
    refine iff_of_true ?_ (spared_of_none hnone)
    rw [List.filter_eq_self.mpr fun a ha => by simp [hnone a ha]]
  | some a =>
    obtain ⟨ha, front, back, rfl, hfront⟩ := List.find?_eq_some_iff_append.mp hfind
    replace ha : name a = b := by simpa using ha
    replace hfront : ∀ x ∈ front, name x ≠ b := fun x hx => by simpa using hfront x hx
    have hstays : front.filter (fun x => !goes x) = front := List.filter_eq_self.mpr fun x hx => by
      simp [Bool.eq_false_iff.mpr fun hgo => hfront x hx (hgoes x (List.mem_append_left _ hx) hgo)]
    have hmet : (!(front.map name).contains (name a)) = true := by
      rw [List.contains_eq_mem, Bool.not_eq_true', decide_eq_false_iff_not, List.mem_map]
      rintro ⟨x, hx, hname⟩
      exact hfront x hx (hname.trans ha)
    -- Both sides begin with the names before the first element.
    have hrest : ∀ l' : List α, ((front ++ l').map name).eraseDups = (front.map name).eraseDups ++
        ((l'.filter fun x => !(front.map name).contains (name x)).map name).eraseDups := eraseDups_map_append front
    have hnew : (a :: back).filter (fun x => !(front.map name).contains (name x)) =
        a :: back.filter fun x => !(front.map name).contains (name x) := List.filter_cons_of_pos hmet
    have hgoes' : ∀ x ∈ back.filter (fun x => !(front.map name).contains (name x)), goes x → name x = b := fun x hx =>
      hgoes x (List.mem_append_right _ (List.mem_cons_of_mem _ (List.mem_filter.mp hx).1))
    rw [spared_iff_of_first hfront ha hgoes, List.filter_append, hstays, hrest, hrest, List.append_cancel_left_eq,
      List.filter_comm, hnew, eraseDups_map_cons, ha]
    cases hgo : goes a with
    | false =>
      refine iff_of_true ?_ nofun
      rw [List.filter_cons_of_pos (by simp [hgo]), eraseDups_map_cons, ha, filter_stay_others hgoes']
    | true =>
      rw [List.filter_cons_of_neg (by simp [hgo]), eraseDups_eq_cons_iff hgoes', List.filter_filter]
      simp only [true_implies, List.filter_eq_cons_iff]
      constructor
      · rintro ⟨a', -, ⟨mid, back', hback, hmid, hstay, -⟩, hname⟩
        rw [Bool.and_eq_true, Bool.not_eq_true', Bool.not_eq_true'] at hstay
        refine ⟨mid, a', back', hback, hstay.1, hname, fun x hx => ?_⟩
        have hgone := hmid x hx
        rw [Bool.and_eq_true, not_and_or] at hgone
        simpa using hgone
      · rintro ⟨mid, a', back', hback, hstay, hname, hmid⟩
        refine ⟨a', _, ⟨mid, back', hback, fun x hx => ?_, ?_, rfl⟩, hname⟩
        · have hgone := hmid x hx
          rw [Bool.and_eq_true, not_and_or]
          simpa using hgone
        · rw [Bool.and_eq_true, hname, ← ha]
          exact ⟨by simp [hstay], hmet⟩

theorem names_filter_iff (hgoes : ∀ a ∈ l, goes a → name a = b) :
    names name p (l.filter fun a => !goes a) = names name p l ↔ Spared name goes b (l.filter p) := by
  rw [names, names, List.filter_comm]
  exact eraseDups_map_filter_iff fun a ha => hgoes a (List.mem_filter.mp ha).1

end Removal
end FirstOccurrence
