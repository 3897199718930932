import Broko.Broker.Exchange
import Broko.Lib.Segments

/-! Topic patterns. The row of the dynamic program after some words of the pattern says which prefixes of the key's
    words they match; the scans in place compute the rows. -/

namespace Broko.Broker.Exchange
open Amqp Segments

/-! ### Words -/

/-- `words` are the dot-free parts that give `s` when they are joined with dots. --/
structure IsWords (s : Bytes) (words : List Bytes) : Prop where
  parts : words ≠ []
  dotFree : ∀ word ∈ words, tagByte '.' ∉ word
  join : [tagByte '.'].intercalate words = s

theorem splitDotLoop_eq (part rest : Bytes) :
    splitDotLoop part rest = (rest.splitOn (tagByte '.')).modifyHead (part ++ ·) := by
  induction rest generalizing part with
  | nil => simp [splitDotLoop]
  | cons b rest ih =>
    rw [splitDotLoop, List.splitOn_cons_eq_if_modifyHead]
    by_cases hb : b = tagByte '.'
    · rw [if_pos hb, if_pos (beq_iff_eq.mpr hb), ih, List.modifyHead_cons, List.append_nil]
      congr 1
      exact congrFun List.modifyHead_id _
    · rw [if_neg hb, if_neg (fun h => hb (beq_iff_eq.mp h)), ih, List.modifyHead_modifyHead]
      congr 1
      funext word
      exact List.append_assoc ..

theorem splitDot_eq (s : Bytes) : splitDot s = s.splitOn (tagByte '.') := by
  rw [splitDot, splitDotLoop_eq]
  exact congrFun List.modifyHead_id _

theorem dotFree_splitDotLoop {part rest word : Bytes} (hpart : tagByte '.' ∉ part)
    (h : word ∈ splitDotLoop part rest) : tagByte '.' ∉ word := by
  induction rest generalizing part with
  | nil => exact List.mem_singleton.mp h ▸ hpart
  | cons b rest ih =>
    rw [splitDotLoop] at h
    split at h
    · rcases List.mem_cons.mp h with rfl | h
      · exact hpart
      · exact ih List.not_mem_nil h
    · rename_i hb
      refine ih ?_ h
      rw [List.mem_append, List.mem_singleton]
      rintro (hmem | hmem)
      · exact hpart hmem
      · exact hb hmem.symm

theorem isWords_splitDot (s : Bytes) : IsWords s (splitDot s) where
  parts := by
    rw [splitDot_eq]
    exact List.splitOn_ne_nil (tagByte '.') s
  dotFree _ h := dotFree_splitDotLoop List.not_mem_nil h
  join := by rw [splitDot_eq, List.intercalate_splitOn]

theorem IsWords.eq_splitDot {s : Bytes} {words : List Bytes} (h : IsWords s words) : words = splitDot s := by
  rw [splitDot_eq, ← h.join, List.splitOn_intercalate _ h.dotFree h.parts]

/-! ### One word of the pattern -/

/-- The segment that a word of the pattern takes: `#` any, `*` one word, any other word one equal word. --/
def Takes (word : Bytes) (segment : List Bytes) : Prop :=
  if word = ascii "#" then True
  else if word = ascii "*" then segment.length = 1
  else segment = [word]

theorem takes_word {pat : Bytes} {segment : List Bytes} (hpat : pat ≠ ascii "#") :
    Takes pat segment ↔ ∃ word, segment = [word] ∧ (pat = ascii "*" ∨ pat = word) := by
  rw [Takes, if_neg hpat]
  split
  · rename_i hstar
    rw [List.length_eq_one_iff]
    exact exists_congr fun word => ⟨fun h => ⟨h, .inl hstar⟩, And.left⟩
  · rename_i hstar
    constructor
    · rintro rfl
      exact ⟨pat, rfl, .inr rfl⟩
    · rintro ⟨word, rfl, h⟩
      rw [h.resolve_left hstar]

/-! ### The rows -/

/-- The row after the words `ps`: cell `j` says whether they match the first `j` words of the key. --/
structure Row (kp ps : List Bytes) (dp : List Bool) : Prop where
  length : dp.length = kp.length + 1
  cell : ∀ j ≤ kp.length, dp.getD j false = true ↔ Cut Takes ps (kp.take j)

variable {kp ps : List Bytes} {dp dp' : List Bool} {pat : Bytes}

theorem row_nil : Row kp [] (true :: kp.map fun _ => false) where
  length := by rw [List.length_cons, List.length_map]
  cell j hj := by
    rw [cut_nil, List.take_eq_nil_iff]
    cases j with
    | zero => exact iff_of_true rfl (.inl rfl)
    | succ j =>
      have hfalse : (kp.map fun _ => false).getD j false = false := by
        simp only [List.map_const', List.getD_eq_getElem?_getD, List.getElem?_replicate]
        split <;> rfl
      refine iff_of_false (by rw [List.getD_cons_succ, hfalse]; exact Bool.false_ne_true) ?_
      rintro (h | rfl)
      · omega
      · exact Nat.not_succ_le_zero _ hj

/-- A `#` extends the matches to the right: it takes what lies between. --/
theorem Row.hash (h : Row kp ps dp) (hlength : dp'.length = dp.length)
    (hcell : ∀ j ≤ kp.length, dp'.getD j false = true ↔ ∃ i ≤ j, dp.getD i false = true) :
    Row kp (ps ++ [ascii "#"]) dp' where
  length := hlength.trans h.length
  cell j hj := by
    rw [hcell j hj, cut_concat]
    constructor
    · rintro ⟨i, hi, hdp⟩
      refine ⟨kp.take i, (kp.take j).drop i, ?_, (h.cell i (hi.trans hj)).mp hdp, ?_⟩
      · conv_lhs => rw [← List.take_append_drop i (kp.take j), List.take_take, Nat.min_eq_left hi]
      · rw [Takes, if_pos rfl]
        trivial
    · rintro ⟨front, last, heq, hcut, -⟩
      have hle : front.length ≤ j := by
        have := congrArg List.length heq
        rw [List.length_append, List.length_take] at this
        omega
      refine ⟨front.length, hle, (h.cell _ (hle.trans hj)).mpr ?_⟩
      have hfront : kp.take front.length = front := by
        have := congrArg (List.take front.length) heq
        rwa [List.take_take, Nat.min_eq_left hle, List.take_left'] at this
        rfl
      rwa [hfront]

/-- Any other word moves the matches one word to the right. --/
theorem Row.word (h : Row kp ps dp) (hpat : pat ≠ ascii "#") (hlength : dp'.length = dp.length)
    (hzero : dp'.getD 0 false = false)
    (hsucc : ∀ j < kp.length, dp'.getD (j + 1) false =
      (dp.getD j false && (pat = ascii "*" || pat = kp.getD j []))) :
    Row kp (ps ++ [pat]) dp' where
  length := hlength.trans h.length
  cell j hj := by
    rw [cut_concat]
    cases j with
    | zero =>
      refine iff_of_false (by rw [hzero]; exact Bool.false_ne_true) ?_
      rintro ⟨front, last, heq, -, htakes⟩
      obtain ⟨word, rfl, -⟩ := (takes_word hpat).mp htakes
      simp at heq
    | succ j =>
      have htake : kp.take (j + 1) = kp.take j ++ [kp.getD j []] := by
        rw [List.take_add_one, List.getD_eq_getElem?_getD, List.getElem?_eq_getElem hj]
        rfl
      rw [hsucc j hj, htake, Bool.and_eq_true, Bool.or_eq_true, decide_eq_true_iff, decide_eq_true_iff,
        h.cell j (Nat.le_of_succ_le hj)]
      constructor
      · rintro ⟨hcut, hword⟩
        exact ⟨_, _, rfl, hcut, (takes_word hpat).mpr ⟨_, rfl, hword⟩⟩
      · rintro ⟨front, last, heq, hcut, htakes⟩
        obtain ⟨word, rfl, hword⟩ := (takes_word hpat).mp htakes
        obtain ⟨rfl, hlast⟩ := List.append_inj' heq rfl
        obtain rfl := List.head_eq_of_cons_eq hlast
        exact ⟨hcut, hword⟩

/-! ### The rows of `topicMatch` -/

theorem length_hashRow (prev : Bool) (dp : List Bool) : (hashRow prev dp).length = dp.length := by
  induction dp generalizing prev with
  | nil => rfl
  | cons d dp ih => rw [hashRow, List.length_cons, ih, List.length_cons]

theorem or_exists_le (d : Bool) (dp : List Bool) (j : Nat) :
    (d = true ∨ ∃ i ≤ j, dp.getD i false = true) ↔ ∃ i ≤ j + 1, (d :: dp).getD i false = true := by
  constructor
  · rintro (h | ⟨i, hi, h⟩)
    · exact ⟨0, Nat.zero_le _, h⟩
    · exact ⟨i + 1, Nat.succ_le_succ hi, h⟩
  · rintro ⟨_ | i, hi, h⟩
    · exact .inl h
    · exact .inr ⟨i, Nat.le_of_succ_le_succ hi, h⟩

theorem getD_hashRow (prev : Bool) (dp : List Bool) {j : Nat} (hj : j < dp.length) :
    (hashRow prev dp).getD j false = true ↔ prev = true ∨ ∃ i ≤ j, dp.getD i false = true := by
  induction dp generalizing prev j with
  | nil => exact absurd hj (Nat.not_lt_zero _)
  | cons d dp ih =>
    rw [hashRow]
    cases j with
    | zero => simp [or_comm]
    | succ j =>
      rw [List.getD_cons_succ, ih _ (Nat.lt_of_succ_lt_succ hj), Bool.or_eq_true, @or_comm (d = true), or_assoc]
      exact or_congr_right (or_exists_le d dp j)

theorem row_topicRow (h : Row kp ps dp) : Row kp (ps ++ [pat]) (topicRow kp dp pat) := by
  have hlength := h.length
  unfold topicRow
  split
  · rename_i hpat
    cases dp with
    | nil => exact absurd hlength (Nat.succ_ne_zero _).symm
    | cons d dp =>
      rw [hpat]
      refine h.hash (by rw [List.length_cons, length_hashRow, List.length_cons]) fun j hj => ?_
      cases j with
      | zero => simp
      | succ j =>
        rw [List.getD_cons_succ, getD_hashRow _ _ (by rw [List.length_cons] at hlength; omega), or_exists_le]
  · rename_i hpat
    refine h.word hpat ?_ rfl fun j hj => ?_
    · rw [wordRow, List.length_cons, List.length_map, List.length_zip, hlength]
      omega
    · have hdp : j < dp.length := hlength ▸ Nat.lt_succ_of_lt hj
      rw [wordRow, List.getD_cons_succ]
      have hzip : (dp.zip kp)[j]? = some (dp[j], kp[j]) :=
        List.getElem?_zip_eq_some.mpr ⟨List.getElem?_eq_getElem hdp, List.getElem?_eq_getElem hj⟩
      simp only [List.getD_eq_getElem?_getD, List.getElem?_map, List.getElem?_eq_getElem hj,
        List.getElem?_eq_getElem hdp, hzip, Option.map_some, Option.getD_some]

/-! ### The scans of `topicMatchInPlace` -/

theorem getD_set (dp : List Bool) (j : Nat) (d : Bool) (i : Nat) :
    (dp.set j d).getD i false = if j = i ∧ i < dp.length then d else dp.getD i false := by
  simp only [List.getD_eq_getElem?_getD, List.getElem?_set]
  by_cases hi : i < dp.length
  · by_cases hj : j = i <;> simp [hi, hj]
  · by_cases hj : j = i <;> simp [hi, hj]

theorem length_hashScan (dp : List Bool) (n : Nat) : (hashScan dp n).length = dp.length := by
  induction n with
  | zero => rfl
  | succ n ih => rw [hashScan, List.length_set, ih]

/-- The cells up to `n` are written, the others are not yet. --/
theorem getD_hashScan (dp : List Bool) {n : Nat} (hn : n < dp.length) (j : Nat) :
    (hashScan dp n).getD j false = true ↔
      (if j ≤ n then ∃ i ≤ j, dp.getD i false = true else dp.getD j false = true) := by
  induction n generalizing j with
  | zero =>
    rw [hashScan]
    by_cases hj : j ≤ 0
    · obtain rfl := Nat.le_zero.mp hj
      simp
    · rw [if_neg hj]
  | succ n ih =>
    have ih := ih (Nat.lt_of_succ_lt hn)
    rw [hashScan, getD_set, length_hashScan]
    by_cases hj : n + 1 = j
    · subst hj
      rw [if_pos ⟨rfl, hn⟩, if_pos le_rfl, Bool.or_eq_true, ih, ih, if_neg (Nat.not_succ_le_self n), if_pos le_rfl]
      constructor
      · rintro (h | ⟨i, hi, h⟩)
        · exact ⟨_, le_rfl, h⟩
        · exact ⟨i, Nat.le_succ_of_le hi, h⟩
      · rintro ⟨i, hi, h⟩
        rcases Nat.le_succ_iff.mp hi with hi | rfl
        · exact .inr ⟨i, hi, h⟩
        · exact .inl h
    · rw [if_neg (fun h => hj h.1), ih]
      exact iff_of_eq (if_congr (by omega) rfl rfl)

theorem length_wordScan (pat : Bytes) (kp : List Bytes) (n : Nat) (dp : List Bool) :
    (wordScan pat kp n dp).length = dp.length := by
  induction n generalizing dp with
  | zero => rfl
  | succ n ih => rw [wordScan, ih, List.length_set]

/-- From the right to the left: a cell is written after the one to its right has read it. --/
theorem getD_wordScan (pat : Bytes) (kp : List Bytes) {n : Nat} (dp : List Bool) (hn : n < dp.length) (j : Nat) :
    (wordScan pat kp n dp).getD (j + 1) false =
      if j < n then dp.getD j false && (pat = ascii "*" || pat = kp.getD j []) else dp.getD (j + 1) false := by
  induction n generalizing dp j with
  | zero => rfl
  | succ n ih =>
    rw [wordScan, ih _ (by rw [List.length_set]; exact Nat.lt_of_succ_lt hn), getD_set, getD_set]
    by_cases hj : j = n
    · subst hj
      simp [hn]
    · rw [if_neg (c := n + 1 = j + 1 ∧ _) (fun h => hj (Nat.succ.inj h.1).symm)]
      by_cases hlt : j < n
      · rw [if_pos hlt, if_pos (Nat.lt_succ_of_lt hlt), if_neg (fun h => by omega)]
      · rw [if_neg hlt, if_neg (by omega)]

theorem row_topicScan (h : Row kp ps dp) : Row kp (ps ++ [pat]) (topicScan kp dp pat) := by
  have hlt : kp.length < dp.length := by
    rw [h.length]
    exact Nat.lt_succ_self _
  rw [topicScan]
  split
  · rename_i hpat
    rw [hpat]
    refine h.hash (length_hashScan ..) fun j hj => ?_
    rw [getD_hashScan _ hlt, if_pos hj]
  · rename_i hpat
    refine h.word hpat (by rw [List.length_set, length_wordScan]) ?_ fun j hj => ?_
    · rw [getD_set, if_pos ⟨rfl, by rw [length_wordScan]; omega⟩]
    · rw [getD_set, if_neg (fun h => Nat.succ_ne_zero _ h.1.symm), getD_wordScan _ _ _ hlt, if_pos hj]

/-! ### The pattern -/

theorem Row.foldl {f : List Bool → Bytes → List Bool} (hf : ∀ ps dp pat, Row kp ps dp → Row kp (ps ++ [pat]) (f dp pat))
    (pats : List Bytes) (h : Row kp ps dp) : Row kp (ps ++ pats) (pats.foldl f dp) := by
  induction pats generalizing ps dp with
  | nil => rwa [List.append_nil]
  | cons pat pats ih =>
    have hrow := ih (hf ps dp pat h)
    rwa [List.append_assoc] at hrow

/-- The last cell answers for the whole key. --/
theorem Row.last (h : Row kp ps dp) : dp.getD kp.length false = true ↔ Cut Takes ps kp := by
  rw [h.cell _ le_rfl, List.take_length]

theorem topicMatch_cut (pattern key : Bytes) :
    topicMatch pattern key = true ↔ Cut Takes (splitDot pattern) (splitDot key) := by
  have hrow := Row.foldl (fun _ _ _ => row_topicRow) (splitDot pattern) (@row_nil (splitDot key))
  rw [List.nil_append] at hrow
  rw [← hrow.last, topicMatch, List.getLastD_eq_getLast?, List.getLast?_eq_getElem?, hrow.length, Nat.add_sub_cancel,
    List.getD_eq_getElem?_getD]

theorem topicMatchInPlace_cut (pattern key : Bytes) :
    topicMatchInPlace pattern key = true ↔ Cut Takes (splitDot pattern) (splitDot key) := by
  have hrow := Row.foldl (fun _ _ _ => row_topicScan) (splitDot pattern) (@row_nil (splitDot key))
  rw [List.nil_append] at hrow
  rw [← hrow.last, topicMatchInPlace, List.replicate_succ, List.set_cons_zero, List.map_const']

/-- A pattern matches a key iff the key's words can be cut into segments that the pattern's words take. --/
theorem topicMatch_iff_segments (pattern key : Bytes) :
    topicMatch pattern key = topicMatchInPlace pattern key ∧
      ∃ pat kp, (IsWords pattern pat ∧ ∀ words, IsWords pattern words → words = pat) ∧
        (IsWords key kp ∧ ∀ words, IsWords key words → words = kp) ∧
        (topicMatchInPlace pattern key = true ↔
          ∃ segments : List (List Bytes), segments.flatten = kp ∧ List.Forall₂ Takes pat segments) := by
  refine ⟨?_, splitDot pattern, splitDot key, ⟨isWords_splitDot _, fun _ h => h.eq_splitDot⟩,
    ⟨isWords_splitDot _, fun _ h => h.eq_splitDot⟩, topicMatchInPlace_cut pattern key⟩
  rw [Bool.eq_iff_iff, topicMatch_cut, topicMatchInPlace_cut]

example : topicMatch (ascii "#.b.#.*") (ascii "a.b.b.c") = true := by decide +kernel

end Broko.Broker.Exchange
