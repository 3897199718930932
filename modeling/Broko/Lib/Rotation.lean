import Mathlib.Data.List.Nodup
import Mathlib.Data.Nat.ModEq

/-! Round robin. A position goes round the places of a list for ever. A turn serves the first fit place from the position
    on and leaves the position behind it; when there is nothing to serve, the position may go round any number of times.
    How far it is from the position to a place is what fairness is about. -/

namespace Rotation
variable {n i j b d : Nat} {κ : Type} {l : List κ} {k k' : κ} {ok : κ → Bool}

/-! ### Positions -/

/-- The steps from a position to a place. --/
def distance (n i b : Nat) : Nat := (b + (n - i % n)) % n

theorem distance_lt (hn : 0 < n) : distance n i b < n := Nat.mod_lt _ hn

theorem distance_congr (h : i % n = j % n) : distance n i b = distance n j b := by rw [distance, distance, h]

theorem add_distance (hb : b < n) : (i + distance n i b) % n = b := by
  have hi : i % n < n := Nat.mod_lt _ (Nat.zero_lt_of_lt hb)
  have hsum : i % n + (b + (n - i % n)) = b + n := by omega
  rw [distance, Nat.add_mod_mod, ← Nat.mod_add_mod, hsum, Nat.add_mod_right, Nat.mod_eq_of_lt hb]

/-- There is only one way of less than a round to a place. --/
theorem distance_eq (hd : d < n) (h : (i + d) % n = b) : distance n i b = d := by
  have hb : b < n := h ▸ Nat.mod_lt _ (Nat.zero_lt_of_lt hd)
  have hmod : i + distance n i b ≡ i + d [MOD n] := (add_distance hb).trans h.symm
  have heq := Nat.ModEq.add_left_cancel' i hmod
  rwa [Nat.ModEq, Nat.mod_eq_of_lt (distance_lt (Nat.zero_lt_of_lt hd)), Nat.mod_eq_of_lt hd] at heq

theorem distance_add (hb : b < n) (h : d ≤ distance n i b) : distance n (i + d) b = distance n i b - d := by
  have hlt : distance n i b < n := distance_lt (Nat.zero_lt_of_lt hb)
  refine distance_eq (Nat.lt_of_le_of_lt (Nat.sub_le _ _) hlt) ?_
  rw [Nat.add_assoc, Nat.add_sub_cancel' h, add_distance hb]

/-- One step from a place it is a whole round to it, less the step. --/
theorem distance_succ_self (hb : b < n) (h : distance n i b = 0) : distance n (i + 1) b = n - 1 := by
  have hi := add_distance (i := i) hb
  rw [h, Nat.add_zero] at hi
  refine distance_eq (Nat.sub_lt (Nat.zero_lt_of_lt hb) Nat.one_pos) ?_
  have hround : i + 1 + (n - 1) = i + n := by omega
  rw [hround, Nat.add_mod_right, hi]

/-! ### A turn -/

/-- From position `i`, place `k` is served when `d` places were passed over. --/
structure Serves (l : List κ) (ok : κ → Bool) (i : Nat) (k : κ) (d : Nat) : Prop where
  place : l[(i + d) % l.length]? = some k
  fit : ok k = true
  passed : ∀ d' < d, ∀ k', l[(i + d') % l.length]? = some k' → ok k' = false

namespace Serves

theorem pos (h : Serves l ok i k d) : 0 < l.length := by
  obtain ⟨hlt, -⟩ := List.getElem?_eq_some_iff.mp h.place
  exact Nat.zero_lt_of_lt hlt

/-- A fit place that is not the one served is still to come. --/
theorem lt_distance (h : Serves l ok i k d) (hb : l[b]? = some k') (hfit : ok k' = true) (hne : k ≠ k') :
    d < distance l.length i b := by
  obtain ⟨hlt, -⟩ := List.getElem?_eq_some_iff.mp hb
  have hat : l[(i + distance l.length i b) % l.length]? = some k' := by rw [add_distance hlt, hb]
  refine Nat.lt_of_not_le fun hle => ?_
  rcases Nat.lt_or_eq_of_le hle with hlt | heq
  · rw [h.passed _ hlt k' hat] at hfit
    cases hfit
  · rw [heq, h.place] at hat
    exact hne (Option.some.inj hat)

/-- If every place is fit, none is passed over. --/
theorem eq_zero (h : Serves l ok i k d) (hall : ∀ k' ∈ l, ok k' = true) : d = 0 := by
  refine Nat.eq_zero_of_not_pos fun hpos => ?_
  have hlt : (i + 0) % l.length < l.length := Nat.mod_lt _ h.pos
  have hunfit := h.passed 0 hpos _ (List.getElem?_eq_getElem hlt)
  rw [hall _ (List.getElem_mem hlt)] at hunfit
  cases hunfit

end Serves

/-! ### Runs -/

/-- From position `i` to position `j`, with what was fit and what was served in each turn. --/
inductive Run (l : List κ) (i : Nat) : List ((κ → Bool) × κ) → Nat → Prop
  | nil : Run l i [] i
  | idle {log j j'} (run : Run l i log j) (h : j' % l.length = j % l.length) : Run l i log j'
  | serve {log j ok k d} (run : Run l i log j) (h : Serves l ok j k d) : Run l i (log ++ [(ok, k)]) (j + d + 1)

namespace Run
variable {log log' : List ((κ → Bool) × κ)} {x y : (κ → Bool) × κ}

theorem append {m : Nat} (h : Run l i log m) (h' : Run l m log' j) : Run l i (log ++ log') j := by
  induction h' with
  | nil => rwa [List.append_nil]
  | idle _ hmod ih => exact ih.idle hmod
  | serve _ hserves ih =>
    rw [← List.append_assoc]
    exact ih.serve hserves

theorem split (h : Run l i (log ++ log') j) : ∃ m, Run l i log m ∧ Run l m log' j := by
  generalize hall : log ++ log' = all at h
  induction h generalizing log' with
  | nil =>
    obtain ⟨rfl, rfl⟩ := List.append_eq_nil_iff.mp hall
    exact ⟨i, .nil, .nil⟩
  | idle _ hmod ih =>
    obtain ⟨m, h₁, h₂⟩ := ih hall
    exact ⟨m, h₁, h₂.idle hmod⟩
  | @serve before m ok k d run hserves ih =>
    rcases List.eq_nil_or_concat log' with rfl | ⟨rest, z, rfl⟩
    · rw [List.append_nil] at hall
      rw [hall]
      exact ⟨_, run.serve hserves, .nil⟩
    · rw [List.concat_eq_append, ← List.append_assoc] at hall
      obtain ⟨hbefore, hz⟩ := List.append_inj' hall rfl
      obtain rfl := List.singleton_inj.mp hz
      obtain ⟨m', h₁, h₂⟩ := ih hbefore
      rw [List.concat_eq_append]
      exact ⟨m', h₁, h₂.serve hserves⟩

/-- The position is left behind the place that was served last. --/
theorem last (h : Run l i (log ++ [x]) j) : ∃ p, l[p % l.length]? = some x.2 ∧ j % l.length = (p + 1) % l.length := by
  generalize hall : log ++ [x] = all at h
  induction h with
  | nil => cases List.append_ne_nil_of_right_ne_nil log (List.cons_ne_nil x []) hall
  | idle _ hmod ih =>
    obtain ⟨p, hp, hj⟩ := ih hall
    exact ⟨p, hp, hmod.trans hj⟩
  | @serve before m ok k d run hserves =>
    obtain ⟨-, hx⟩ := List.append_inj' hall rfl
    obtain rfl := List.singleton_inj.mp hx
    exact ⟨m + d, hserves.place, rfl⟩

/-- While a place is fit in every turn and is not served, the position comes closer to it. --/
theorem closer (h : Run l i log j) (hb : l[b]? = some k) (hfit : ∀ z ∈ log, z.1 k = true) (hne : ∀ z ∈ log, z.2 ≠ k) :
    ∃ w, log.length ≤ w ∧ w ≤ distance l.length i b ∧ j % l.length = (i + w) % l.length := by
  obtain ⟨hlt, -⟩ := List.getElem?_eq_some_iff.mp hb
  induction h with
  | nil => exact ⟨0, le_rfl, Nat.zero_le _, rfl⟩
  | idle _ hmod ih =>
    obtain ⟨w, hlen, hw, hj⟩ := ih hfit hne
    exact ⟨w, hlen, hw, hmod.trans hj⟩
  | @serve before m ok k' d run hserves ih =>
    obtain ⟨w, hlen, hw, hm⟩ := ih (fun z hz => hfit z (List.mem_append_left _ hz)) fun z hz =>
      hne z (List.mem_append_left _ hz)
    have hlast : (ok, k') ∈ before ++ [(ok, k')] := List.mem_append_right _ List.mem_cons_self
    have hd := hserves.lt_distance hb (hfit _ hlast) (hne _ hlast)
    rw [distance_congr hm, distance_add hlt hw] at hd
    refine ⟨w + (d + 1), ?_, by omega, ?_⟩
    · rw [List.length_append, List.length_singleton]
      omega
    · rw [Nat.add_assoc, ← Nat.add_assoc i, ← Nat.mod_add_mod m, hm, Nat.mod_add_mod]

/-- Between two turns that serve one place, every other place that is fit from after the first one to the second one is
    served. --/
theorem fair {first mid last : List ((κ → Bool) × κ)} (h : Run l i (first ++ x :: mid ++ y :: last) j) (hnd : l.Nodup)
    (hxy : x.2 = y.2) (hk : k ∈ l) (hne : k ≠ x.2) (hfit : ∀ z ∈ mid ++ [y], z.1 k = true) : ∃ z ∈ mid, z.2 = k := by
  by_contra hnone
  have hlog : first ++ x :: mid ++ y :: last = (first ++ [x]) ++ ((mid ++ [y]) ++ last) := by simp
  rw [hlog] at h
  obtain ⟨m₁, h₁, hrest⟩ := h.split
  obtain ⟨m₂, h₂, -⟩ := hrest.split
  obtain ⟨p, hp, hm₁⟩ := h₁.last
  obtain ⟨p', hp', hm₂⟩ := h₂.last
  obtain ⟨b, hlt, hb⟩ := List.getElem_of_mem hk
  obtain ⟨w, hlen, hw, hm⟩ := h₂.closer (b := b) (by rw [List.getElem?_eq_getElem hlt, hb]) hfit fun z hz => by
    rcases List.mem_append.mp hz with hz | hz
    · exact fun heq => hnone ⟨z, hz, heq⟩
    · rw [List.mem_singleton.mp hz, ← hxy]
      exact hne.symm
  -- both turns end behind the same place, but the way between them is less than a round
  have hpos : 0 < l.length := Nat.zero_lt_of_lt hlt
  have hplace : p % l.length = p' % l.length := by
    obtain ⟨hp₁, hget₁⟩ := List.getElem?_eq_some_iff.mp hp
    obtain ⟨hp₂, hget₂⟩ := List.getElem?_eq_some_iff.mp hp'
    exact hnd.getElem_inj_iff.mp (hget₁.trans (hxy.trans hget₂.symm))
  have hsame : m₂ % l.length = m₁ % l.length := by rw [hm₂, hm₁, Nat.add_mod, ← hplace, ← Nat.add_mod]
  have hround : m₁ + w ≡ m₁ + 0 [MOD l.length] := hm.symm.trans hsame
  have hzero := Nat.ModEq.add_left_cancel' m₁ hround
  have hwlt : w < l.length := Nat.lt_of_le_of_lt hw (distance_lt hpos)
  rw [Nat.ModEq, Nat.mod_eq_of_lt hwlt, Nat.zero_mod] at hzero
  rw [List.length_append, List.length_singleton] at hlen
  omega

section
variable [DecidableEq κ]

/-- If every place is always fit, the turns that served a place say how far it is to it. --/
theorem count_eq (h : Run l i log j) (hnd : l.Nodup) (hall : ∀ z ∈ log, ∀ k' ∈ l, z.1 k' = true) (hb : l[b]? = some k) :
    l.length * (log.countP fun z => z.2 = k) + distance l.length i b = log.length + distance l.length j b := by
  obtain ⟨hlt, hget⟩ := List.getElem?_eq_some_iff.mp hb
  induction h with
  | nil => rw [List.countP_nil, List.length_nil, Nat.mul_zero]
  | idle _ hmod ih => rw [ih hall, distance_congr hmod]
  | @serve before m ok k' d run hserves ih =>
    have hlast : (ok, k') ∈ before ++ [(ok, k')] := List.mem_append_right _ List.mem_cons_self
    have hd : d = 0 := hserves.eq_zero (hall _ hlast)
    have hplace := hserves.place
    rw [hd, Nat.add_zero] at hplace
    have hstep := ih fun z hz => hall z (List.mem_append_left _ hz)
    rw [hd, Nat.add_zero, List.countP_append, List.countP_singleton, List.length_append, List.length_singleton]
    by_cases hk : k' = k
    · -- the place is served, and it is a whole round to it again
      obtain ⟨hm, hgetm⟩ := List.getElem?_eq_some_iff.mp hplace
      have hat : m % l.length = b := hnd.getElem_inj_iff.mp (hgetm.trans (hk.trans hget.symm))
      have hzero : distance l.length m b = 0 := distance_eq (Nat.zero_lt_of_lt hlt) (by rw [Nat.add_zero, hat])
      rw [distance_succ_self hlt hzero, if_pos (decide_eq_true hk), Nat.mul_add, Nat.mul_one]
      omega
    · have hpos := (hd ▸ hserves).lt_distance hb (hall _ hlast k (List.mem_of_getElem? hb)) hk
      rw [distance_add hlt hpos, if_neg (by simpa using hk), Nat.add_zero]
      omega

/-- If every place is always fit, all places are served equally often, up to one time. --/
theorem balanced (h : Run l i log j) (hnd : l.Nodup) (hall : ∀ z ∈ log, ∀ k' ∈ l, z.1 k' = true) (hk : k ∈ l)
    (hk' : k' ∈ l) : (log.countP fun z => z.2 = k) ≤ (log.countP fun z => z.2 = k') + 1 := by
  obtain ⟨b, hlt, hb⟩ := List.getElem_of_mem hk
  obtain ⟨b', hlt', hb'⟩ := List.getElem_of_mem hk'
  have hpos : 0 < l.length := Nat.zero_lt_of_lt hlt
  have hcount := h.count_eq hnd hall (b := b) (by rw [List.getElem?_eq_getElem hlt, hb])
  have hcount' := h.count_eq hnd hall (b := b') (by rw [List.getElem?_eq_getElem hlt', hb'])
  have hj : distance l.length j b < l.length := distance_lt hpos
  have hi' : distance l.length i b' < l.length := distance_lt hpos
  by_contra hmore
  have hmul : l.length * ((log.countP fun z => z.2 = k') + 2) ≤ l.length * (log.countP fun z => z.2 = k) :=
    Nat.mul_le_mul_left _ (by omega)
  rw [Nat.mul_add] at hmul
  omega

end
end Run
end Rotation
