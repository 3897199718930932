import Broko.Broker.Auth

/-! The file of users against `verify`. A pair is accepted if the last line for its user has its password; a file that a map
    of users was written to accepts the pairs of the map. -/

namespace Broko.Broker
open Amqp

namespace UserStore

variable {line : Bytes} {user user' pass pass' : Bytes} {users : Assoc Bytes Bytes} {lines : List Bytes}

/-! ### Lines -/

/-- The lines of a file, each without a trailing CR. --/
def fileLines (text : Bytes) : List Bytes := (Lines.split (tagByte '\n') text).map trimCr

/-- The line is no comment, and has the user before its first colon and the password behind it. --/
structure Gives (line user pass : Bytes) : Prop where
  comment : line.head? ≠ some (tagByte '#')
  first : tagByte ':' ∉ user
  eq : line = user ++ tagByte ':' :: pass

/-- The last of the lines for the user has the password. --/
def LastGives (lines : List Bytes) (user pass : Bytes) : Prop :=
  ∃ before line after, lines = before ++ line :: after ∧ Gives line user pass ∧ ∀ l ∈ after, ∀ pass', ¬Gives l user pass'

theorem append_colon_inj (hu : tagByte ':' ∉ user) (hu' : tagByte ':' ∉ user')
    (h : user ++ tagByte ':' :: pass = user' ++ tagByte ':' :: pass') : user = user' ∧ pass = pass' := by
  have htake : ∀ {u p : Bytes}, tagByte ':' ∉ u → (u ++ tagByte ':' :: p).takeWhile (· ≠ tagByte ':') = u := by
    intro u p hu
    have hall : ∀ b ∈ u, decide (b ≠ tagByte ':') = true := fun b hb => decide_eq_true fun heq => hu (heq ▸ hb)
    rw [List.takeWhile_append_of_pos hall, List.takeWhile_cons_of_neg (by simp), List.append_nil]
  have huser : user = user' := by
    have := congrArg (List.takeWhile (· ≠ tagByte ':')) h
    rwa [htake hu, htake hu'] at this
  subst huser
  exact ⟨rfl, List.tail_eq_of_cons_eq (List.append_cancel_left h)⟩

theorem Gives.unique (h : Gives line user pass) (h' : Gives line user' pass') : user = user' ∧ pass = pass' :=
  append_colon_inj h.first h'.first (h.eq.symm.trans h'.eq)

/-! ### A round -/

/-- What the first colon splits is given. --/
theorem gives_of_findIdx {pos : Nat} (hcomment : line.head? ≠ some (tagByte '#'))
    (h : line.findIdx? (· = tagByte ':') = some pos) : Gives line (line.take pos) (line.drop (pos + 1)) := by
  obtain ⟨hpos, hcolon, hbefore⟩ := List.findIdx?_eq_some_iff_getElem.mp h
  have hcolon := of_decide_eq_true hcolon
  refine ⟨hcomment, fun hmem => ?_, ?_⟩
  · obtain ⟨i, hi, heq⟩ := List.mem_take_iff_getElem.mp hmem
    exact hbefore i (by omega) (decide_eq_true heq)
  · rw [← hcolon, ← List.drop_eq_getElem_cons hpos, List.take_append_drop]

/-- A line that gives nothing is passed over. --/
theorem loadLine_of_not (h : ∀ user pass, ¬Gives (trimCr line) user pass) : loadLine users line = users := by
  rw [loadLine]
  split
  · rfl
  · rename_i hskip
    cases hpos : (trimCr line).findIdx? (· = tagByte ':') with
    | none => rfl
    | some pos => exact absurd (gives_of_findIdx (fun hhead => hskip (.inr hhead)) hpos) (h _ _)

theorem loadLine_of_gives (h : Gives (trimCr line) user pass) : loadLine users line = users.insert user pass := by
  have hskip : ¬(trimCr line = [] ∨ (trimCr line).head? = some (tagByte '#')) := by
    rintro (hempty | hhead)
    · have heq := h.eq
      rw [hempty] at heq
      exact List.append_ne_nil_of_right_ne_nil _ (List.cons_ne_nil _ _) heq.symm
    · exact h.comment hhead
  rw [loadLine, if_neg hskip]
  cases hpos : (trimCr line).findIdx? (· = tagByte ':') with
  | none =>
    have hmem : tagByte ':' ∈ trimCr line := by
      rw [h.eq]
      exact List.mem_append_right _ List.mem_cons_self
    exact absurd (List.findIdx?_eq_none_iff.mp hpos _ hmem) (by simp)
  | some pos =>
    obtain ⟨huser, hpass⟩ := h.unique (gives_of_findIdx h.comment hpos)
    rw [huser, hpass]

/-- Each round takes the password of its line, if it is one for the user. --/
theorem lookup_loadLine : (loadLine users line).lookup user = some pass ↔
    Gives (trimCr line) user pass ∨ (∀ pass', ¬Gives (trimCr line) user pass') ∧ users.lookup user = some pass := by
  by_cases hgives : ∃ user' pass', Gives (trimCr line) user' pass'
  · obtain ⟨user', pass', h⟩ := hgives
    rw [loadLine_of_gives h]
    by_cases hu : user = user'
    · subst hu
      rw [Assoc.lookup_insert_self]
      constructor
      · intro heq
        obtain rfl := Option.some.inj heq
        exact .inl h
      · rintro (h' | ⟨hno, -⟩)
        · rw [(h.unique h').2]
        · exact absurd h (hno _)
    · have hno : ∀ p, ¬Gives (trimCr line) user p := fun p h' => hu (h'.unique h).1
      rw [Assoc.lookup_insert_of_ne hu]
      exact ⟨fun heq => .inr ⟨hno, heq⟩, fun hor => (hor.resolve_left (hno _)).2⟩
  · have hno : ∀ user' p, ¬Gives (trimCr line) user' p := fun user' p h => hgives ⟨user', p, h⟩
    rw [loadLine_of_not hno]
    exact ⟨fun heq => .inr ⟨hno _, heq⟩, fun hor => (hor.resolve_left (hno _ _)).2⟩

/-! ### The loop -/

/-- The loop goes over all lines of the file. --/
theorem loadLoop_eq (fuel : Nat) (text : Bytes) (hfuel : text.length ≤ fuel) :
    loadLoop fuel text users = (Lines.split (tagByte '\n') text).foldl loadLine users := by
  induction fuel generalizing text users with
  | zero =>
    obtain rfl := List.eq_nil_of_length_eq_zero (Nat.le_zero.mp hfuel)
    rfl
  | succ fuel ih =>
    rw [loadLoop, getline]
    by_cases hne : text = []
    · rw [if_pos hne, hne]
      rfl
    · have hshort : ((text.dropWhile (· ≠ tagByte '\n')).drop 1).length ≤ fuel := by
        have hdrop := (List.dropWhile_sublist (p := (· ≠ tagByte '\n')) (l := text)).length_le
        have hpos := List.length_pos_iff.mpr hne
        rw [List.length_drop]
        omega
      rw [if_neg hne]
      dsimp only
      rw [ih _ hshort, Lines.split_cons hne, List.foldl_cons]

theorem lastGives_cons {l : Bytes} : LastGives (l :: lines) user pass ↔
    LastGives lines user pass ∨ Gives l user pass ∧ ∀ l' ∈ lines, ∀ pass', ¬Gives l' user pass' := by
  constructor
  · rintro ⟨before, line, after, heq, hgives, hafter⟩
    cases before with
    | nil =>
      obtain ⟨rfl, rfl⟩ := List.cons.inj heq
      exact .inr ⟨hgives, hafter⟩
    | cons b before =>
      obtain ⟨-, rfl⟩ := List.cons.inj heq
      exact .inl ⟨before, line, after, rfl, hgives, hafter⟩
  · rintro (⟨before, line, after, rfl, hgives, hafter⟩ | ⟨hgives, hafter⟩)
    · exact ⟨l :: before, line, after, rfl, hgives, hafter⟩
    · exact ⟨[], l, lines, rfl, hgives, hafter⟩

/-- What the rounds leave for a user is the password of the last line for it, or the one from before. --/
theorem lookup_foldl_loadLine : (lines.foldl loadLine users).lookup user = some pass ↔
    LastGives (lines.map trimCr) user pass ∨
      (∀ l ∈ lines.map trimCr, ∀ pass', ¬Gives l user pass') ∧ users.lookup user = some pass := by
  induction lines generalizing users with
  | nil =>
    refine ⟨fun h => .inr ⟨nofun, h⟩, ?_⟩
    rintro (⟨before, line, after, heq, -⟩ | ⟨-, h⟩)
    · exact absurd heq.symm (List.append_ne_nil_of_right_ne_nil _ (List.cons_ne_nil _ _))
    · exact h
  | cons l lines ih =>
    rw [List.foldl_cons, ih, lookup_loadLine, List.map_cons, lastGives_cons, List.forall_mem_cons]
    tauto

/-- Every reading of a file counts by itself. --/
theorem verify_loadFromFile_iff (s : UserStore) (text : Bytes) (user pass : Bytes) :
    (s.loadFromFile (some text)).2.verify user pass = true ↔ LastGives (fileLines text) user pass := by
  have hlookup : (loadLoop text.length text ∅).lookup user = some pass ↔ LastGives (fileLines text) user pass := by
    rw [loadLoop_eq _ _ (Nat.le_refl _), lookup_foldl_loadLine, Assoc.lookup_empty]
    constructor
    · exact fun h => h.resolve_right fun h => nomatch h.2
    · exact .inl
  rw [← hlookup, Assoc.lookup, loadFromFile, verify, if_pos rfl, beq_iff_eq]
  -- the two lookups compare bytes by different instances
  have hbeq : (instBEqOfDecidableEq : BEq Bytes) = List.instBEq := lawful_beq_subsingleton _ _
  rw [hbeq]

/-! ### Files of a map -/

end UserStore

/-- A map of users that a file can hold: no colon and no line end in a name, no name that begins like a comment, no line feed
    in a password, and no CR at its end. --/
structure UserMap extends Assoc Bytes Bytes where
  names : ∀ e ∈ entries, tagByte ':' ∉ e.1 ∧ tagByte '\r' ∉ e.1 ∧ tagByte '\n' ∉ e.1 ∧ e.1.head? ≠ some (tagByte '#')
  passwords : ∀ e ∈ entries, tagByte '\n' ∉ e.2 ∧ e.2.getLast? ≠ some (tagByte '\r')

namespace UserMap
open UserStore

variable {m : UserMap} {e : Bytes × Bytes}

def line (e : Bytes × Bytes) : Bytes := e.1 ++ tagByte ':' :: e.2

/-- One line for each user. --/
def file (m : UserMap) : Bytes := Lines.join (tagByte '\n') (m.entries.map line)

/-- The CR that a line may end with is not taken from a password. --/
theorem trimCr_line (he : e ∈ m.entries) : trimCr (line e) = line e := by
  refine if_neg fun hlast => ?_
  rw [line, List.getLast?_append_of_ne_nil _ (List.cons_ne_nil _ _), List.getLast?_cons] at hlast
  cases hpass : e.2.getLast? with
  | none =>
    rw [hpass] at hlast
    exact absurd hlast (by decide)
  | some b =>
    rw [hpass] at hlast
    exact (m.passwords e he).2 (hpass.trans hlast)

theorem gives_line (he : e ∈ m.entries) : Gives (line e) e.1 e.2 := by
  obtain ⟨hcolon, -, -, hcomment⟩ := m.names e he
  refine ⟨fun hhead => ?_, hcolon, rfl⟩
  cases hname : e.1 with
  | nil =>
    rw [line, hname] at hhead
    exact absurd (Option.some.inj hhead) (by decide)
  | cons b rest =>
    rw [line, hname] at hhead
    rw [hname] at hcomment
    exact hcomment hhead

theorem fileLines_file (m : UserMap) : fileLines m.file = m.entries.map line := by
  have hline : ∀ l ∈ m.entries.map line, tagByte '\n' ∉ l := by
    intro l hl
    obtain ⟨e, he, rfl⟩ := List.mem_map.mp hl
    have hcolon : tagByte '\n' ≠ tagByte ':' := by decide
    rw [line, List.mem_append, List.mem_cons]
    rintro (hname | hsep | hpass)
    · exact (m.names e he).2.2.1 hname
    · exact hcolon hsep
    · exact (m.passwords e he).1 hpass
  rw [fileLines, file, Lines.split_join hline, List.map_map]
  exact List.map_congr_left fun e he => trimCr_line he

/-- No two lines are for one user. --/
theorem lastGives_file {user pass : Bytes} : LastGives (fileLines m.file) user pass ↔ (user, pass) ∈ m.entries := by
  rw [fileLines_file]
  constructor
  · rintro ⟨before, l, after, heq, hgives, -⟩
    have hl : l ∈ m.entries.map line := by
      rw [heq]
      exact List.mem_append_right _ List.mem_cons_self
    obtain ⟨e, he, rfl⟩ := List.mem_map.mp hl
    obtain ⟨rfl, rfl⟩ := hgives.unique (gives_line he)
    exact he
  · intro hmem
    obtain ⟨before, after, heq⟩ := List.append_of_mem hmem
    refine ⟨before.map line, line (user, pass), after.map line, ?_, gives_line hmem, ?_⟩
    · rw [heq, List.map_append, List.map_cons]
    · intro l hl pass' hgives
      obtain ⟨e, he, rfl⟩ := List.mem_map.mp hl
      have hentry : e ∈ m.entries := by
        rw [heq]
        exact List.mem_append_right _ (List.mem_cons_of_mem _ he)
      have hnodup := m.nodup
      rw [heq, List.map_append, List.map_cons] at hnodup
      have hfresh := (List.nodup_cons.mp (List.nodup_append.mp hnodup).2.1).1
      exact hfresh (List.mem_map.mpr ⟨e, he, (hgives.unique (gives_line hentry)).1.symm⟩)

end UserMap

/-- After `loadFromFile` has succeeded `verify` goes by the last line for the user; the file of a map accepts the pairs of the
    map, and `guest:guest` is accepted only where a line has it. --/
theorem verify_loadFromFile (s : UserStore) (text : Bytes) :
    (s.loadFromFile (some text)).1 = true ∧
    (∀ user pass, (s.loadFromFile (some text)).2.verify user pass = true ↔
      UserStore.LastGives (UserStore.fileLines text) user pass) ∧
    (∀ m : UserMap, ∀ user pass, (s.loadFromFile (some m.file)).2.verify user pass = true ↔ (user, pass) ∈ m.entries) ∧
    ((s.loadFromFile (some text)).2.verify (ascii "guest") (ascii "guest") = true →
      ascii "guest:guest" ∈ UserStore.fileLines text) := by
  refine ⟨rfl, s.verify_loadFromFile_iff text, fun m user pass => ?_, fun hguest => ?_⟩
  · exact (s.verify_loadFromFile_iff m.file user pass).trans UserMap.lastGives_file
  · obtain ⟨before, line, after, heq, hgives, -⟩ := (s.verify_loadFromFile_iff text _ _).mp hguest
    rw [heq]
    have hline : line = ascii "guest:guest" := hgives.eq
    exact hline ▸ List.mem_append_right _ List.mem_cons_self

end Broko.Broker
