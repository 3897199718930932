import Mathlib.Algebra.Order.Ring.Nat
import Mathlib.Data.List.Nodup
import Mathlib.Data.List.Perm.Basic
import Mathlib.Data.List.Basic
import Mathlib.Tactic.Common

/-! Finite maps that are iterated: entries in some order, with distinct keys. The order is that of an
    iteration over the map; `reorder` changes it and nothing else. -/

/-- A map from `κ` to `α`. --/
@[ext] structure Assoc (κ α : Type) where
  entries : List (κ × α)
  nodup : (entries.map Prod.fst).Nodup

namespace Assoc
variable {κ α β : Type} [DecidableEq κ]

def empty : Assoc κ α := ⟨[], List.nodup_nil⟩

instance : EmptyCollection (Assoc κ α) := ⟨empty⟩

instance : Inhabited (Assoc κ α) := ⟨empty⟩

def keys (m : Assoc κ α) : List κ := m.entries.map Prod.fst

def lookup (m : Assoc κ α) (k : κ) : Option α := m.entries.lookup k

/-- The entries with another key than `k`. --/
def erase (m : Assoc κ α) (k : κ) : Assoc κ α where
  entries := m.entries.filter fun p => p.1 ≠ k
  nodup := m.nodup.sublist (List.filter_sublist.map _)

/-- Changes the value at `k`, if there is one. --/
def modify (m : Assoc κ α) (k : κ) (f : α → α) : Assoc κ α where
  entries := m.entries.map fun p => if p.1 = k then (p.1, f p.2) else p
  nodup := by
    have hkeys : (m.entries.map fun p => if p.1 = k then (p.1, f p.2) else p).map Prod.fst =
        m.entries.map Prod.fst := by
      rw [List.map_map]
      refine List.map_congr_left fun p _ => ?_
      dsimp only [Function.comp]
      split <;> rfl
    rw [hkeys]
    exact m.nodup

/-- Changes every value. --/
def map (m : Assoc κ α) (f : α → α) : Assoc κ α where
  entries := m.entries.map fun p => (p.1, f p.2)
  nodup := by
    rw [List.map_map]
    exact m.nodup

/-- Puts `v` at `k`, over what is there. --/
def insert (m : Assoc κ α) (k : κ) (v : α) : Assoc κ α where
  entries := (m.erase k).entries ++ [(k, v)]
  nodup := by
    rw [List.map_append, List.nodup_append]
    refine ⟨(m.erase k).nodup, by simp, fun a ha b hb hab => ?_⟩
    obtain ⟨p, hp, rfl⟩ := List.mem_map.mp ha
    have hne : p.1 ≠ k := by simpa using (List.mem_filter.mp hp).2
    obtain rfl : b = k := by simpa using hb
    exact hne hab

/-- The same map, iterated in the given order of its keys. --/
def reorder (m : Assoc κ α) (order : List κ) : Assoc κ α :=
  if h : order.Perm m.keys then
    { entries := order.filterMap fun k => (m.lookup k).map fun v => (k, v)
      nodup := by
        have hsub : ((order.filterMap fun k => (m.lookup k).map fun v => (k, v)).map Prod.fst).Sublist order := by
          rw [List.map_filterMap]
          have hle : ∀ l : List κ, (l.filterMap fun k => ((m.lookup k).map fun v => (k, v)).map Prod.fst).Sublist l := by
            intro l
            induction l with
            | nil => exact List.Sublist.refl _
            | cons k l ih =>
              cases hk : m.lookup k with
              | none => simpa [hk] using ih.cons k
              | some v => simpa [hk] using ih.cons_cons k
          exact hle order
        exact (h.nodup_iff.mpr m.nodup).sublist hsub }
  else m

/-! ### Entries and lookups -/

theorem lookup_of_mem {l : List (κ × α)} (hl : (l.map Prod.fst).Nodup) {k : κ} {v : α} (h : (k, v) ∈ l) :
    l.lookup k = some v := by
  induction l with
  | nil => cases h
  | cons p l ih =>
    obtain ⟨k', v'⟩ := p
    rw [List.map_cons, List.nodup_cons] at hl
    rcases List.mem_cons.mp h with heq | hmem
    · cases heq
      simp
    · have hne : k ≠ k' := by
        rintro rfl
        exact hl.1 (List.mem_map.mpr ⟨_, hmem, rfl⟩)
      rw [List.lookup_cons, beq_false_of_ne hne]
      exact ih hl.2 hmem

theorem mem_of_lookup {l : List (κ × α)} {k : κ} {v : α} (h : l.lookup k = some v) : (k, v) ∈ l := by
  obtain ⟨l₁, l₂, rfl, -⟩ := List.lookup_eq_some_iff.mp h
  exact List.mem_append_right _ List.mem_cons_self

theorem mem_entries {m : Assoc κ α} {k : κ} {v : α} : (k, v) ∈ m.entries ↔ m.lookup k = some v :=
  ⟨lookup_of_mem m.nodup, mem_of_lookup⟩

theorem mem_erase {m : Assoc κ α} {k k' : κ} {v : α} :
    (k', v) ∈ (m.erase k).entries ↔ k' ≠ k ∧ (k', v) ∈ m.entries := by
  rw [erase, List.mem_filter, and_comm]
  simp

theorem mem_insert {m : Assoc κ α} {k k' : κ} {v v' : α} :
    (k', v') ∈ (m.insert k v).entries ↔ (k' = k ∧ v' = v) ∨ (k' ≠ k ∧ (k', v') ∈ m.entries) := by
  rw [insert, List.mem_append, mem_erase, List.mem_singleton, Prod.mk.injEq, or_comm]

theorem mem_modify {m : Assoc κ α} {k k' : κ} {f : α → α} {v : α} :
    (k', v) ∈ (m.modify k f).entries ↔
      (k' = k ∧ ∃ u, (k, u) ∈ m.entries ∧ f u = v) ∨ (k' ≠ k ∧ (k', v) ∈ m.entries) := by
  rw [modify, List.mem_map]
  constructor
  · rintro ⟨⟨k'', u⟩, hmem, heq⟩
    dsimp only at heq
    split at heq
    · rename_i hk
      cases heq
      exact .inl ⟨hk, u, hk ▸ hmem, rfl⟩
    · rename_i hk
      cases heq
      exact .inr ⟨hk, hmem⟩
  · rintro (⟨rfl, u, hmem, rfl⟩ | ⟨hne, hmem⟩)
    · exact ⟨(k', u), hmem, if_pos rfl⟩
    · exact ⟨(k', v), hmem, if_neg hne⟩

theorem lookup_ext {m₁ m₂ : Assoc κ α} {k : κ} (h : ∀ v, (k, v) ∈ m₁.entries ↔ (k, v) ∈ m₂.entries) :
    m₁.lookup k = m₂.lookup k := by
  ext v
  rw [← mem_entries, ← mem_entries, h]

@[simp] theorem lookup_map (m : Assoc κ α) (f : α → α) (k : κ) : (m.map f).lookup k = (m.lookup k).map f := by
  ext v
  rw [← mem_entries, map, List.mem_map, Option.map_eq_some_iff]
  constructor
  · rintro ⟨⟨k', u⟩, hmem, heq⟩
    cases heq
    exact ⟨u, mem_entries.mp hmem, rfl⟩
  · rintro ⟨u, hlook, rfl⟩
    exact ⟨(k, u), mem_entries.mpr hlook, rfl⟩

@[simp] theorem lookup_empty (k : κ) : (∅ : Assoc κ α).lookup k = none := rfl

@[simp] theorem lookup_erase_self (m : Assoc κ α) (k : κ) : (m.erase k).lookup k = none := by
  cases h : (m.erase k).lookup k with
  | none => rfl
  | some v => exact absurd rfl (mem_erase.mp (mem_entries.mpr h)).1

theorem lookup_erase_of_ne {m : Assoc κ α} {k k' : κ} (h : k' ≠ k) : (m.erase k).lookup k' = m.lookup k' :=
  lookup_ext fun v => by rw [mem_erase, and_iff_right h]

@[simp] theorem lookup_insert_self (m : Assoc κ α) (k : κ) (v : α) : (m.insert k v).lookup k = some v :=
  mem_entries.mp (mem_insert.mpr (.inl ⟨rfl, rfl⟩))

theorem lookup_insert_of_ne {m : Assoc κ α} {k k' : κ} {v : α} (h : k' ≠ k) :
    (m.insert k v).lookup k' = m.lookup k' :=
  lookup_ext fun v => by rw [mem_insert]; simp [h]

@[simp] theorem lookup_modify_self (m : Assoc κ α) (k : κ) (f : α → α) :
    (m.modify k f).lookup k = (m.lookup k).map f := by
  ext v
  rw [← mem_entries, mem_modify]
  simp [mem_entries]

theorem lookup_modify_of_ne {m : Assoc κ α} {k k' : κ} {f : α → α} (h : k' ≠ k) :
    (m.modify k f).lookup k' = m.lookup k' :=
  lookup_ext fun v => by rw [mem_modify]; simp [h]

theorem lookup_modify (m : Assoc κ α) (k k' : κ) (f : α → α) :
    (m.modify k f).lookup k' = if k' = k then (m.lookup k).map f else m.lookup k' := by
  split
  · rename_i h
    rw [h, lookup_modify_self]
  · rename_i h
    exact lookup_modify_of_ne h

theorem modify_modify (m : Assoc κ α) (k : κ) (f g : α → α) : (m.modify k f).modify k g = m.modify k fun v => g (f v) := by
  refine Assoc.ext (List.map_map.trans (List.map_congr_left fun p _ => ?_))
  dsimp only [Function.comp]
  split <;> simp [*]

theorem modify_eq_self {m : Assoc κ α} {k : κ} {f : α → α} (h : ∀ v, m.lookup k = some v → f v = v) :
    m.modify k f = m := by
  refine Assoc.ext ((List.map_congr_left fun p hp => ?_).trans (List.map_id _))
  split
  · rename_i hk
    rw [h p.2 (hk ▸ mem_entries.mp hp)]
    rfl
  · rfl

/-- A change that a projection of the values does not see. --/
theorem map_modify_of_eq {m : Assoc κ α} {k : κ} {f g : α → α} (h : ∀ v, g (f v) = g v) :
    (m.modify k f).map g = m.map g := by
  refine Assoc.ext ?_
  simp only [map, modify, List.map_map]
  refine List.map_congr_left fun p _ => ?_
  dsimp only [Function.comp]
  split
  · rw [h]
  · rfl

theorem mem_keys {m : Assoc κ α} {k : κ} : k ∈ m.keys ↔ ∃ v, m.lookup k = some v := by
  simp only [keys, List.mem_map, Prod.exists, mem_entries]
  constructor
  · rintro ⟨_, v, h, rfl⟩
    exact ⟨v, h⟩
  · rintro ⟨v, h⟩
    exact ⟨k, v, h, rfl⟩

/-! ### Order -/

omit [DecidableEq κ] in
theorem nodup_entries (m : Assoc κ α) : m.entries.Nodup := List.Nodup.of_map Prod.fst m.nodup

omit [DecidableEq κ] in
/-- Maps with the same entries differ in the order of iteration only. --/
theorem perm_ext {m₁ m₂ : Assoc κ α} (h : ∀ k v, (k, v) ∈ m₁.entries ↔ (k, v) ∈ m₂.entries) :
    m₁.entries.Perm m₂.entries :=
  (List.perm_ext_iff_of_nodup m₁.nodup_entries m₂.nodup_entries).mpr fun p => h p.1 p.2

theorem insert_perm (m : Assoc κ α) (k : κ) (v : α) :
    (m.insert k v).entries.Perm ((k, v) :: (m.erase k).entries) :=
  List.perm_append_comm

theorem entries_perm_of_lookup {m : Assoc κ α} {k : κ} {v : α} (h : m.lookup k = some v) :
    m.entries.Perm ((k, v) :: (m.erase k).entries) := by
  refine (perm_ext fun k' v' => ?_).trans (insert_perm m k v)
  rw [mem_insert, mem_entries]
  by_cases hk : k' = k
  · subst hk
    simp [h, eq_comm]
  · simp [hk]

theorem modify_perm {m : Assoc κ α} {k : κ} {v : α} {f : α → α} (h : m.lookup k = some v) :
    (m.modify k f).entries.Perm ((k, f v) :: (m.erase k).entries) := by
  refine (perm_ext fun k' v' => ?_).trans (insert_perm m k (f v))
  rw [mem_insert, mem_modify]
  simp [mem_entries, h, eq_comm]

theorem reorder_perm (m : Assoc κ α) (order : List κ) : (m.reorder order).entries.Perm m.entries := by
  refine perm_ext fun k v => ?_
  rw [reorder]
  split
  · rename_i h
    have hmem : (k, v) ∈ order.filterMap (fun k => (m.lookup k).map fun v => (k, v)) ↔ m.lookup k = some v := by
      simp only [List.mem_filterMap, Option.map_eq_some_iff, Prod.mk.injEq]
      constructor
      · rintro ⟨_, -, _, hlook, rfl, rfl⟩
        exact hlook
      · intro hlook
        exact ⟨k, h.mem_iff.mpr (mem_keys.mpr ⟨v, hlook⟩), v, hlook, rfl, rfl⟩
    exact hmem.trans mem_entries.symm
  · exact Iff.rfl

theorem lookup_reorder (m : Assoc κ α) (order : List κ) (k : κ) : (m.reorder order).lookup k = m.lookup k :=
  lookup_ext fun _ => (reorder_perm m order).mem_iff

/-! ### Properties of all entries -/

/-- `P` holds of every key with its value. --/
def All (P : κ → α → Prop) (m : Assoc κ α) : Prop := ∀ k v, m.lookup k = some v → P k v

namespace All
variable {P Q : κ → α → Prop} {m : Assoc κ α} {k : κ} {v : α} {f : α → α}

theorem empty : (∅ : Assoc κ α).All P := nofun

theorem mono (h : m.All P) (hPQ : ∀ k v, P k v → Q k v) : m.All Q := fun k v hv => hPQ k v (h k v hv)

/-- The changed value has the new property, and so has any other that has the old one. --/
theorem modify_of (h : m.All P) (hne : ∀ k' v, k' ≠ k → P k' v → Q k' v)
    (hf : ∀ v, m.lookup k = some v → P k v → Q k (f v)) : (m.modify k f).All Q := by
  intro k' v' hv'
  rw [lookup_modify] at hv'
  split at hv'
  · rename_i hk
    obtain ⟨v, hv, rfl⟩ := Option.map_eq_some_iff.mp hv'
    rw [hk]
    exact hf v hv (h k v hv)
  · rename_i hk
    exact hne k' v' hk (h k' v' hv')

theorem modify (h : m.All P) (hf : ∀ v, m.lookup k = some v → P k v → P k (f v)) : (m.modify k f).All P :=
  h.modify_of (fun _ _ _ hv => hv) hf

theorem insert (h : m.All P) (hv : P k v) : (m.insert k v).All P := by
  intro k' v' hv'
  rcases mem_insert.mp (mem_entries.mpr hv') with ⟨rfl, rfl⟩ | ⟨-, hmem⟩
  · exact hv
  · exact h k' v' (mem_entries.mp hmem)

theorem erase (h : m.All P) (k : κ) : (m.erase k).All P := fun k' v' hv' =>
  h k' v' (mem_entries.mp (mem_erase.mp (mem_entries.mpr hv')).2)

theorem reorder (h : m.All P) (order : List κ) : (m.reorder order).All P := fun k' v' hv' =>
  h k' v' (lookup_reorder m order k' ▸ hv')

end All

/-! ### Sums -/

/-- The sum of what the entries weigh. --/
def total (w : κ → α → Nat) (m : Assoc κ α) : Nat := (m.entries.map fun e => w e.1 e.2).sum

variable {w : κ → α → Nat} {m : Assoc κ α} {k : κ} {v : α} {f : α → α}

omit [DecidableEq κ] in
theorem total_of_perm {m' : Assoc κ α} (h : m'.entries.Perm m.entries) : m'.total w = m.total w :=
  (h.map _).sum_nat

omit [DecidableEq κ] in
@[simp] theorem total_empty : (∅ : Assoc κ α).total w = 0 := rfl

theorem total_reorder (order : List κ) : (m.reorder order).total w = m.total w := total_of_perm (reorder_perm m order)

theorem total_eq_add (h : m.lookup k = some v) : m.total w = w k v + (m.erase k).total w := by
  rw [total, ((entries_perm_of_lookup h).map _).sum_nat, List.map_cons, List.sum_cons, total]

theorem total_insert (m : Assoc κ α) (k : κ) (v : α) : (m.insert k v).total w = w k v + (m.erase k).total w := by
  rw [total, ((insert_perm m k v).map _).sum_nat, List.map_cons, List.sum_cons, total]

theorem erase_eq_self (h : m.lookup k = none) : m.erase k = m := by
  ext1
  refine List.filter_eq_self.mpr fun e he => decide_eq_true fun hk => ?_
  have hlook := mem_entries.mp (show (e.1, e.2) ∈ m.entries from he)
  rw [hk, h] at hlook
  cases hlook

theorem modify_of_lookup_eq_none (h : m.lookup k = none) : m.modify k f = m :=
  modify_eq_self fun v hv => by
    rw [h] at hv
    cases hv

/-- A change of one value. --/
theorem total_modify (h : m.lookup k = some v) : (m.modify k f).total w + w k v = m.total w + w k (f v) := by
  rw [total_eq_add h, total, ((modify_perm h).map _).sum_nat, List.map_cons, List.sum_cons, ← total]
  dsimp only
  omega

/-- A change that keeps the weight. --/
theorem total_modify_eq (h : ∀ v, m.lookup k = some v → w k (f v) = w k v) : (m.modify k f).total w = m.total w := by
  cases hv : m.lookup k with
  | none => rw [modify_of_lookup_eq_none hv]
  | some v =>
    have heq := total_modify (w := w) (f := f) hv
    rw [h v hv] at heq
    exact Nat.add_right_cancel heq

theorem total_eq_zero (h : ∀ k v, m.lookup k = some v → w k v = 0) : m.total w = 0 := by
  have hzero : m.entries.map (fun e => w e.1 e.2) = m.entries.map fun _ => 0 :=
    List.map_congr_left fun e he => h e.1 e.2 (mem_entries.mp he)
  rw [total, hzero, List.map_const']
  exact List.sum_replicate_nat.trans (Nat.mul_zero _)

theorem le_total (h : m.lookup k = some v) : w k v ≤ m.total w := by
  rw [total_eq_add h]
  exact Nat.le_add_right ..

end Assoc
