import Broko.Broker.Exchange

/-! The match of a headers exchange. The loop asks whether the arguments of the binding are among the headers of the message;
    it does not look at their values. -/

namespace Broko.Broker.Exchange
open Amqp

variable {bindArgs msgHeaders : FieldTable}

/-- The arguments that the loop does not pass over. --/
def Considered (name : Bytes) : Prop := ¬(ascii "x-").isPrefixOf name

/-- The argument is among the headers with its value, or just among them if it is void. --/
def AgreesWith (msgHeaders : FieldTable) (e : Bytes × FieldValue) : Prop :=
  ∃ v, msgHeaders.find e.1 = some v ∧ (e.2 = .voidVal ∨ v = e.2)

/-- The text of `x-match`, `none` if it is not there. --/
def xMatch (bindArgs : FieldTable) : Option Bytes := (bindArgs.find (ascii "x-match")).map stringVal

/-- A match by name and value: of all the arguments, or of one of them. --/
structure MatchesByValue (bindArgs msgHeaders : FieldTable) : Prop where
  all : xMatch bindArgs = none ∨ xMatch bindArgs = some (ascii "all") →
    (matchHeaders bindArgs msgHeaders = true ↔ ∀ e ∈ bindArgs, Considered e.1 → AgreesWith msgHeaders e)
  any : xMatch bindArgs = some (ascii "any") →
    (matchHeaders bindArgs msgHeaders = true ↔ ∃ e ∈ bindArgs, Considered e.1 ∧ AgreesWith msgHeaders e)

/-- The argument is among the headers with another value. --/
def DiffersFrom (msgHeaders : FieldTable) (e : Bytes × FieldValue) : Prop :=
  ∃ v, msgHeaders.find e.1 = some v ∧ e.2 ≠ .voidVal ∧ v ≠ e.2

/-- Values do not matter: for all the arguments, one is missing or none differs; for one of them, none is there or one
    agrees. --/
structure DecidedByName (bindArgs msgHeaders : FieldTable) : Prop where
  all : xMatch bindArgs = none ∨ xMatch bindArgs = some (ascii "all") →
    (∃ e ∈ bindArgs, Considered e.1 ∧ msgHeaders.find e.1 = none) ∨
      ∀ e ∈ bindArgs, Considered e.1 → ¬DiffersFrom msgHeaders e
  any : xMatch bindArgs = some (ascii "any") →
    (∀ e ∈ bindArgs, Considered e.1 → msgHeaders.find e.1 = none) ∨
      ∃ e ∈ bindArgs, Considered e.1 ∧ AgreesWith msgHeaders e

theorem AgreesWith.isSome {e : Bytes × FieldValue} (h : AgreesWith msgHeaders e) : (msgHeaders.find e.1).isSome := by
  obtain ⟨v, hv, -⟩ := h
  rw [hv]
  rfl

theorem agreesWith_of_not_differs {e : Bytes × FieldValue} (h : (msgHeaders.find e.1).isSome)
    (hno : ¬DiffersFrom msgHeaders e) : AgreesWith msgHeaders e := by
  obtain ⟨v, hv⟩ := Option.isSome_iff_exists.mp h
  by_contra hdis
  refine hno ⟨v, hv, fun hvoid => hdis ⟨v, hv, .inl hvoid⟩, fun hsame => hdis ⟨v, hv, .inr hsame⟩⟩

theorem AgreesWith.not_differs {e : Bytes × FieldValue} (h : AgreesWith msgHeaders e) : ¬DiffersFrom msgHeaders e := by
  rintro ⟨v, hv, hvoid, hne⟩
  obtain ⟨v', hv', hagree⟩ := h
  rw [hv] at hv'
  obtain rfl := Option.some.inj hv'
  exact hagree.elim hvoid hne

/-! ### The loop -/

theorem loop_all (args : FieldTable) : matchHeadersLoop true msgHeaders args = true ↔
    ∀ e ∈ args, Considered e.1 → (msgHeaders.find e.1).isSome := by
  induction args with
  | nil => simp [matchHeadersLoop]
  | cons e rest ih =>
    obtain ⟨name, val⟩ := e
    rw [matchHeadersLoop, List.forall_mem_cons]
    by_cases hx : (ascii "x-").isPrefixOf name = true
    · rw [if_pos hx, ih]
      exact ⟨fun h => ⟨fun hc => absurd hx hc, h⟩, fun h => h.2⟩
    · rw [if_neg hx]
      cases hfound : (msgHeaders.find name).isSome with
      | true => exact ih.trans ⟨fun h => ⟨fun _ => rfl, h⟩, fun h => h.2⟩
      | false => exact iff_of_false Bool.false_ne_true fun h => absurd (h.1 hx) Bool.false_ne_true

theorem loop_any (args : FieldTable) : matchHeadersLoop false msgHeaders args = true ↔
    ∃ e ∈ args, Considered e.1 ∧ (msgHeaders.find e.1).isSome := by
  induction args with
  | nil => simp [matchHeadersLoop]
  | cons e rest ih =>
    obtain ⟨name, val⟩ := e
    simp only [matchHeadersLoop, List.mem_cons, exists_eq_or_imp]
    by_cases hx : (ascii "x-").isPrefixOf name = true
    · rw [if_pos hx, ih]
      exact ⟨.inr, fun h => h.elim (fun hc => absurd hx hc.1) id⟩
    · rw [if_neg hx]
      cases hfound : (msgHeaders.find name).isSome with
      | true => exact iff_of_true rfl (.inl ⟨hx, rfl⟩)
      | false => exact ih.trans ⟨.inr, fun h => h.elim (fun hc => absurd hc.2 Bool.false_ne_true) id⟩

theorem matchHeaders_all (h : xMatch bindArgs = none ∨ xMatch bindArgs = some (ascii "all")) :
    matchHeaders bindArgs msgHeaders = true ↔ ∀ e ∈ bindArgs, Considered e.1 → (msgHeaders.find e.1).isSome := by
  rw [← loop_all, matchHeaders]
  rw [xMatch] at h
  cases hfind : bindArgs.find (ascii "x-match") with
  | none => rfl
  | some v =>
    rw [hfind, Option.map_some] at h
    have hall : stringVal v = ascii "all" := by simpa using h
    dsimp only
    rw [hall]
    rfl

theorem matchHeaders_any (h : xMatch bindArgs = some (ascii "any")) :
    matchHeaders bindArgs msgHeaders = true ↔ ∃ e ∈ bindArgs, Considered e.1 ∧ (msgHeaders.find e.1).isSome := by
  rw [← loop_any, matchHeaders]
  obtain ⟨v, hv, hany⟩ := Option.map_eq_some_iff.mp h
  rw [hv]
  dsimp only
  rw [hany]
  rfl

/-- The match is by name and value exactly if the values do not matter. --/
theorem matchesByValue_iff (bindArgs msgHeaders : FieldTable) :
    MatchesByValue bindArgs msgHeaders ↔ DecidedByName bindArgs msgHeaders := by
  constructor
  · rintro ⟨hall, hany⟩
    refine ⟨fun hmode => ?_, fun hmode => ?_⟩
    · have hiff := (matchHeaders_all hmode).symm.trans (hall hmode)
      by_cases hpresent : ∀ e ∈ bindArgs, Considered e.1 → (msgHeaders.find e.1).isSome
      · exact .inr fun e he hc => (hiff.mp hpresent e he hc).not_differs
      · push Not at hpresent
        obtain ⟨e, he, hc, hmissing⟩ := hpresent
        exact .inl ⟨e, he, hc, Option.not_isSome_iff_eq_none.mp hmissing⟩
    · have hiff := (matchHeaders_any hmode).symm.trans (hany hmode)
      by_cases hpresent : ∃ e ∈ bindArgs, Considered e.1 ∧ (msgHeaders.find e.1).isSome
      · exact .inr (hiff.mp hpresent)
      · push Not at hpresent
        exact .inl fun e he hc => Option.not_isSome_iff_eq_none.mp (hpresent e he hc)
  · rintro ⟨hall, hany⟩
    refine ⟨fun hmode => (matchHeaders_all hmode).trans ⟨fun hpresent e he hc => ?_, fun h e he hc => (h e he hc).isSome⟩,
      fun hmode => (matchHeaders_any hmode).trans ⟨fun hpresent => ?_, fun ⟨e, he, hc, hagree⟩ => ⟨e, he, hc, hagree.isSome⟩⟩⟩
    · rcases hall hmode with ⟨e', he', hc', hmissing⟩ | hsame
      · have hsome := hpresent e' he' hc'
        rw [hmissing] at hsome
        cases hsome
      · exact agreesWith_of_not_differs (hpresent e he hc) (hsame e he hc)
    · rcases hany hmode with hnone | hagree
      · obtain ⟨e, he, hc, hsome⟩ := hpresent
        rw [hnone e he hc] at hsome
        cases hsome
      · exact hagree

/-- A binding for one format. --/
def pdfOnly : FieldTable := [(ascii "format", .longString (ascii "pdf"))]

def zipHeaders : FieldTable := [(ascii "format", .longString (ascii "zip"))]

/-- It matches a message in another format. --/
theorem other_value_matches : matchHeaders pdfOnly zipHeaders = true ∧ ¬MatchesByValue pdfOnly zipHeaders := by
  have hmatch : matchHeaders pdfOnly zipHeaders = true := by decide +kernel
  have hmode : xMatch pdfOnly = none := by decide +kernel
  have hconsidered : Considered (ascii "format") := by
    unfold Considered
    decide +kernel
  refine ⟨hmatch, fun h => ?_⟩
  obtain ⟨v, hv, hagree⟩ := (h.all (.inl hmode)).mp hmatch _ (List.mem_singleton_self _) hconsidered
  have hzip : zipHeaders.find (ascii "format") = some (.longString (ascii "zip")) := rfl
  rw [hzip] at hv
  obtain rfl := Option.some.inj hv
  rcases hagree with hvoid | hsame
  · cases hvoid
  · exact absurd (FieldValue.longString.inj hsame) (by decide)

end Broko.Broker.Exchange
