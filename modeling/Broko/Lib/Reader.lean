import Mathlib.Tactic.Common

/-! Readers over a byte string with a cursor. A reader either fails or returns a value and the cursor
    after it. `Reads x bs a` says that `x` reads `bs` as `a` whatever stands before and after it; it
    composes along `bind`, so that a round trip is proved piece by piece. `Accepts x P` is the converse:
    whatever `x` accepts is a piece of the input, the cursor moves exactly past it, and `P` holds. -/

namespace Reader

/-- A position in a byte string, with the bytes from there on. --/
structure Cursor where
  position : Nat
  unread : List UInt8
  deriving DecidableEq, Repr

end Reader

/-- A reader with errors of type `ε`. --/
abbrev Reader (ε α : Type) := StateT Reader.Cursor (Except ε) α

namespace Reader
variable {ε α β : Type}

/-- The next `n` bytes; the error `short` when fewer are left. --/
def take (short : ε) (n : Nat) : Reader ε (List UInt8) := fun b =>
  if n ≤ b.unread.length then .ok (b.unread.take n, ⟨b.position + n, b.unread.drop n⟩) else .error short

/-- The cursor's position, which nothing is read for. --/
def position : Reader ε Nat := fun b => .ok (b.position, b)

theorem bind_apply (x : Reader ε α) (f : α → Reader ε β) (b : Cursor) :
    (x >>= f) b = (x b).bind fun r => f r.1 r.2 := rfl

theorem pure_apply (a : α) (b : Cursor) : (pure a : Reader ε α) b = .ok (a, b) := rfl

theorem throw_apply (e : ε) (b : Cursor) : (throw e : Reader ε α) b = .error e := rfl

theorem bind_eq_ok {x : Reader ε α} {f : α → Reader ε β} {b : Cursor} {r : β × Cursor} :
    (x >>= f) b = .ok r ↔ ∃ a b', x b = .ok (a, b') ∧ f a b' = .ok r := by
  rw [bind_apply]
  cases hx : x b with
  | error e => simp [Except.bind]
  | ok p =>
    obtain ⟨a, b'⟩ := p
    simp [Except.bind]

theorem bind_eq_of_ok {x : Reader ε α} {f : α → Reader ε β} {b b' : Cursor} {a : α} (h : x b = .ok (a, b')) :
    (x >>= f) b = f a b' := by
  rw [bind_apply, h]
  rfl

/-- Two readers that agree at `b`, and then on what they return there. --/
theorem bind_congr_ok {x y : Reader ε α} {f g : α → Reader ε β} {b : Cursor} (hxy : x b = y b)
    (h : ∀ a b', y b = .ok (a, b') → f a b' = g a b') : (x >>= f) b = (y >>= g) b := by
  rw [bind_apply, bind_apply, hxy]
  cases hx : y b with
  | error e => rfl
  | ok r => exact h r.1 r.2 hx

/-- An error that is met neither at `b` nor behind what is read there. --/
theorem bind_ne_error {x : Reader ε α} {f : α → Reader ε β} {b : Cursor} {e : ε} (hx : x b ≠ .error e)
    (hf : ∀ a b', x b = .ok (a, b') → f a b' ≠ .error e) : (x >>= f) b ≠ .error e := by
  rw [bind_apply]
  cases h : x b with
  | error e' => exact fun heq => hx (h.trans (congrArg Except.error (Except.error.inj heq)))
  | ok r => exact hf r.1 r.2 h

theorem pure_eq_ok {a : α} {b : Cursor} {r : α × Cursor} :
    (pure a : Reader ε α) b = .ok r ↔ r = (a, b) := by
  rw [pure_apply, Except.ok.injEq, eq_comm]

theorem throw_ne_ok {e : ε} {b : Cursor} {r : α × Cursor} : (throw e : Reader ε α) b ≠ .ok r := by
  simp [throw_apply]

theorem take_eq_ok {short : ε} {n : Nat} {b : Cursor} {r : List UInt8 × Cursor} :
    take short n b = .ok r ↔
      n ≤ b.unread.length ∧ r = (b.unread.take n, ⟨b.position + n, b.unread.drop n⟩) := by
  unfold take
  split
  · rename_i h
    simp [h, eq_comm]
  · rename_i h
    simp [h]

/-! ### Reading back what was written -/

/-- `x` reads the bytes `bs` as `a` and stops right after them. --/
def Reads (x : Reader ε α) (bs : List UInt8) (a : α) : Prop :=
  ∀ pos rest, x ⟨pos, bs ++ rest⟩ = .ok (a, ⟨pos + bs.length, rest⟩)

namespace Reads
variable {x : Reader ε α} {f : α → Reader ε β} {bs cs : List UInt8} {a : α} {c : β}

theorem pure (a : α) : Reads (ε := ε) (Pure.pure a) [] a := fun _ _ => rfl

theorem bind (hx : Reads x bs a) (hf : Reads (f a) cs c) : Reads (x >>= f) (bs ++ cs) c := fun pos rest => by
  rw [bind_apply, List.append_assoc, hx]
  show f a ⟨pos + bs.length, cs ++ rest⟩ = _
  rw [hf, List.length_append, Nat.add_assoc]

/-- A last step that reads nothing. --/
theorem map {g : α → β} (hx : Reads x bs a) : Reads (x >>= fun a => Pure.pure (g a)) bs (g a) := by
  have := hx.bind (f := fun a => (Pure.pure (g a) : Reader ε β)) (Reads.pure (g a))
  rwa [List.append_nil] at this

theorem take {short : ε} {n : Nat} (h : bs.length = n) : Reads (take short n) bs bs := fun pos rest => by
  subst h
  exact take_eq_ok.mpr ⟨by simp, by simp⟩

end Reads

/-! ### Reading back or failing -/

/-- The answer of a reader that should return `o` and stop at `b`, and fail where `o` is none. --/
def Answers (r : Except ε (α × Cursor)) (b : Cursor) : Option α → Prop
  | some a => r = .ok (a, b)
  | none => ∃ e, r = .error e

/-- `x` reads the bytes `bs` as `o`; if `o` is none it fails on them, whatever follows. --/
def Gives (x : Reader ε α) (bs : List UInt8) (o : Option α) : Prop :=
  ∀ pos rest, Answers (x ⟨pos, bs ++ rest⟩) ⟨pos + bs.length, rest⟩ o

theorem Reads.gives {x : Reader ε α} {bs : List UInt8} {a : α} (h : Reads x bs a) : Gives x bs (some a) := h

theorem answers_bind {x : Reader ε α} {f : α → Reader ε β} {b b' b'' : Cursor} {o : Option α} {p : Option β}
    (hx : Answers (x b) b' o) (hsome : ∀ a, o = some a → Answers (f a b') b'' p) (hnone : o = none → p = none) :
    Answers ((x >>= f) b) b'' p := by
  cases o with
  | some a =>
    rw [bind_eq_of_ok hx]
    exact hsome a rfl
  | none =>
    obtain ⟨e, he⟩ := hx
    rw [hnone rfl, bind_apply, he]
    exact ⟨e, rfl⟩

theorem Gives.bind {x : Reader ε α} {f : α → Reader ε β} {bs cs : List UInt8} {a : α} {o : Option β} (hx : Reads x bs a)
    (hf : Gives (f a) cs o) : Gives (x >>= f) (bs ++ cs) o := by
  intro pos rest
  rw [List.append_assoc, List.length_append, ← Nat.add_assoc]
  refine answers_bind (hx.gives pos (cs ++ rest)) (fun a' ha' => ?_) (fun h => by cases h)
  obtain rfl := Option.some.inj ha'
  exact hf _ rest

theorem Gives.map {x : Reader ε α} {g : α → β} {bs : List UInt8} {o : Option α} (hx : Gives x bs o) :
    Gives (x >>= fun a => Pure.pure (g a)) bs (o.map g) := by
  intro pos rest
  refine answers_bind (hx pos rest) (fun a ha => ?_) (fun h => by rw [h]; rfl)
  rw [ha]
  rfl

/-! ### What a reader accepts -/

/-- Whatever `x` accepts is the front part of the unread bytes, the cursor stops behind it, and `P` holds
    of the value and of the bytes it was read from. --/
def Accepts (x : Reader ε α) (P : α → List UInt8 → Prop) : Prop :=
  ∀ b a b', x b = .ok (a, b') →
    ∃ used, b.unread = used ++ b'.unread ∧ b'.position = b.position + used.length ∧ P a used

namespace Accepts
variable {x : Reader ε α} {f : α → Reader ε β} {P : α → List UInt8 → Prop} {Q : β → List UInt8 → Prop}

theorem pure {a : α} (h : P a []) : Accepts (ε := ε) (Pure.pure a) P := fun b _ b' hb => by
  rw [pure_eq_ok] at hb
  cases hb
  exact ⟨[], rfl, rfl, h⟩

theorem throw (e : ε) : Accepts (throw e : Reader ε α) P := fun _ _ _ h => absurd h throw_ne_ok

theorem bind (hx : Accepts x P) (hf : ∀ a used, P a used → Accepts (f a) fun c more => Q c (used ++ more)) :
    Accepts (x >>= f) Q := fun b c b'' h => by
  obtain ⟨a, b', h1, h2⟩ := bind_eq_ok.mp h
  obtain ⟨u, hu, hp, ha⟩ := hx b a b' h1
  obtain ⟨v, hv, hq, hc⟩ := hf a u ha b' c b'' h2
  exact ⟨u ++ v, by rw [hu, hv, List.append_assoc], by rw [hq, hp, List.length_append, Nat.add_assoc], hc⟩

/-- A last step that reads nothing. --/
theorem map {g : α → β} (hx : Accepts x P) (hg : ∀ a used, P a used → Q (g a) used) :
    Accepts (x >>= fun a => Pure.pure (g a)) Q :=
  hx.bind fun a used ha => .pure (by rw [List.append_nil]; exact hg a used ha)

theorem mono {R : α → List UInt8 → Prop} (hx : Accepts x P) (h : ∀ a used, P a used → R a used) :
    Accepts x R := fun b a b' hb => by
  obtain ⟨u, hu, hp, ha⟩ := hx b a b' hb
  exact ⟨u, hu, hp, h a u ha⟩

theorem position : Accepts (Reader.position : Reader ε Nat) fun _ used => used = [] := fun b _ b' h => by
  cases h
  exact ⟨[], rfl, rfl, rfl⟩

theorem take {short : ε} {n : Nat} : Accepts (take short n) fun bs used => bs = used ∧ used.length = n :=
  fun b _ b' h => by
    obtain ⟨hn, h⟩ := take_eq_ok.mp h
    cases h
    have hlen : (b.unread.take n).length = n := by rw [List.length_take, Nat.min_eq_left hn]
    exact ⟨b.unread.take n, (List.take_append_drop n _).symm, by rw [hlen], rfl, hlen⟩

end Accepts

/-! ### What a reader returns -/

/-- `P` holds of every value that `x` returns. --/
def Yields (x : Reader ε α) (P : α → Prop) : Prop := ∀ b a b', x b = .ok (a, b') → P a

namespace Yields
variable {x : Reader ε α} {f : α → Reader ε β} {P : α → Prop} {Q : β → Prop}

theorem any (x : Reader ε α) : Yields x fun _ => True := fun _ _ _ _ => trivial

theorem pure {a : α} (h : P a) : Yields (ε := ε) (Pure.pure a) P := fun b _ b' hb => by
  rw [pure_eq_ok] at hb
  cases hb
  exact h

theorem bind (hx : Yields x P) (hf : ∀ a, P a → Yields (f a) Q) : Yields (x >>= f) Q := fun b c b'' h => by
  obtain ⟨a, b', h1, h2⟩ := bind_eq_ok.mp h
  exact hf a (hx b a b' h1) b' c b'' h2

theorem of_accepts {R : α → List UInt8 → Prop} (hx : Accepts x R) (h : ∀ a used, R a used → P a) : Yields x P :=
  fun b a b' hb => by
    obtain ⟨used, -, -, ha⟩ := hx b a b' hb
    exact h a used ha

end Yields

/-! ### Readers of a part -/

/-- What `x` returns tells what `y` returns at the same place. --/
def Follows (x : Reader ε α) (g : α → β) (y : Reader ε β) : Prop :=
  ∀ b a b', x b = .ok (a, b') → ∃ b'', y b = .ok (g a, b'')

namespace Follows
variable {γ : Type} {x : Reader ε α} {f : α → Reader ε β} {f' : α → Reader ε γ} {g : β → γ}

/-- A step that both take. --/
theorem bind (h : ∀ a, Follows (f a) g (f' a)) : Follows (x >>= f) g (x >>= f') := fun b c b' hc => by
  obtain ⟨a, b₁, hx, hf⟩ := bind_eq_ok.mp hc
  obtain ⟨b₂, hf'⟩ := h a b₁ c b' hf
  exact ⟨b₂, by rw [bind_eq_of_ok hx, hf']⟩

/-- The part ends here. --/
theorem done {g : β → α} (h : ∀ a, Yields (f a) fun c => g c = a) : Follows (x >>= f) g x := fun b c b' hc => by
  obtain ⟨a, b₁, hx, hf⟩ := bind_eq_ok.mp hc
  exact ⟨b₁, by rw [hx, h a b₁ c b' hf]⟩

end Follows

/-! ### Items up to a position -/

/-- Items are read one after another, as long as the cursor stands before `finish`. --/
inductive Until (x : Reader ε α) (finish : Nat) : Cursor → Cursor → Prop
  | stop {b : Cursor} : finish ≤ b.position → Until x finish b b
  | item {b b₁ b' : Cursor} {a : α} :
    b.position < finish → x b = .ok (a, b₁) → Until x finish b₁ b' → Until x finish b b'

/-- One of these items begins before `finish` and ends behind it. --/
inductive Overruns (x : Reader ε α) (finish : Nat) : Cursor → Prop
  | here {b b' : Cursor} {a : α} :
    b.position < finish → x b = .ok (a, b') → finish < b'.position → Overruns x finish b
  | later {b b' : Cursor} {a : α} :
    b.position < finish → x b = .ok (a, b') → Overruns x finish b' → Overruns x finish b

namespace Until
variable {x : Reader ε α} {finish : Nat} {b b' b'' : Cursor}

theorem unique (h : Until x finish b b') (h' : Until x finish b b'') : b' = b'' := by
  induction h with
  | stop hstop =>
    cases h' with
    | stop _ => rfl
    | item hlt _ _ => exact absurd hlt (Nat.not_lt.mpr hstop)
  | item hlt hx _ ih =>
    cases h' with
    | stop hstop => exact absurd hlt (Nat.not_lt.mpr hstop)
    | item _ hx' hrest =>
      rw [hx] at hx'
      cases hx'
      exact ih hrest

/-- Without an overrun the last item ends at `finish`. --/
theorem position (h : Until x finish b b') (hle : b.position ≤ finish) (hno : ¬Overruns x finish b) :
    b'.position = finish := by
  induction h with
  | stop hstop => exact Nat.le_antisymm hle hstop
  | item hlt hx _ ih =>
    exact ih (Nat.le_of_not_lt fun hover => hno (.here hlt hx hover)) fun hover => hno (.later hlt hx hover)

end Until

/-- An overrun is the last item, so the cursor ends behind `finish`. --/
theorem Overruns.exists_until {x : Reader ε α} {finish : Nat} {b : Cursor} (h : Overruns x finish b) :
    ∃ b', Until x finish b b' ∧ finish < b'.position := by
  induction h with
  | here hlt hx hover => exact ⟨_, .item hlt hx (.stop (Nat.le_of_lt hover)), hover⟩
  | later hlt hx _ ih =>
    obtain ⟨b', huntil, hover⟩ := ih
    exact ⟨b', .item hlt hx huntil, hover⟩

end Reader
