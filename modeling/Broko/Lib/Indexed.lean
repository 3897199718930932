import Broko.Lib.Reader

/-! Readers of a byte vector that go by an index. An access outside the vector is an outcome of its own; an exception leaves
    the vector and the index behind as they are. `Refines x y` says that `x`, started with the index inside the vector, ends
    as the reader `y` of the bytes from there on does. Such a reader makes no access outside, and moves the index only
    forward and not past the end. -/

namespace Indexed
open Reader

/-- A vector and the index of the next byte. --/
structure Store where
  data : List UInt8
  pos : Nat
  deriving DecidableEq, Repr

/-- Why a reader does not return: it throws, or it accesses a byte that is not there. --/
inductive Fault (ε : Type) where
  | thrown (e : ε)
  | outOfBounds (i : Nat)
  deriving DecidableEq, Repr

end Indexed

/-- A reader by index with errors of type `ε`. --/
abbrev Indexed (ε α : Type) := ExceptT (Indexed.Fault ε) (StateM Indexed.Store) α

namespace Indexed
open Reader
variable {ε α β : Type}

/-- How a reader ends: what it returns, and the vector and the index as it leaves them. --/
abbrev Outcome (ε α : Type) := Except (Fault ε) α × Store

def start (x : Indexed ε α) (b : Store) : Outcome ε α := x b

def position : Indexed ε Nat := fun b => (.ok b.pos, b)

def size : Indexed ε Nat := fun b => (.ok b.data.length, b)

def raise (e : ε) : Indexed ε α := fun b => (.error (.thrown e), b)

/-- The byte at `i`, which need not be there. --/
def byteAt (i : Nat) : Indexed ε UInt8 := fun b =>
  match b.data[i]? with
  | some v => (.ok v, b)
  | none => (.error (.outOfBounds i), b)

/-- The `n` bytes from `i` on, one after the other. --/
def bytesFrom (i : Nat) : Nat → Indexed ε (List UInt8)
  | 0 => pure []
  | n + 1 => do
    let v ← byteAt i
    let vs ← bytesFrom (i + 1) n
    return v :: vs

def advance (n : Nat) : Indexed ε Unit := fun b => (.ok (), { b with pos := b.pos + n })

theorem pure_apply (a : α) (b : Store) : start (pure a : Indexed ε α) b = (.ok a, b) := rfl

theorem bind_of_ok {x : Indexed ε α} {f : α → Indexed ε β} {b b' : Store} {a : α} (h : start x b = (.ok a, b')) :
    start (x >>= f) b = start (f a) b' := by
  have hrun : start (x >>= f) b = (match start x b with
    | (.ok a, b') => start (f a) b'
    | (.error e, b') => (.error e, b') : Outcome ε β) := by
    show ExceptT.bindCont f (start x b).1 (start x b).2 = _
    rcases start x b with ⟨_ | _, _⟩ <;> rfl
  rw [hrun, h]

theorem bind_of_error {x : Indexed ε α} {f : α → Indexed ε β} {b b' : Store} {e : Fault ε} (h : start x b = (.error e, b')) :
    start (x >>= f) b = (.error e, b') := by
  have hrun : start (x >>= f) b = (match start x b with
    | (.ok a, b') => start (f a) b'
    | (.error e, b') => (.error e, b') : Outcome ε β) := by
    show ExceptT.bindCont f (start x b).1 (start x b).2 = _
    rcases start x b with ⟨_ | _, _⟩ <;> rfl
  rw [hrun, h]

/-! ### Accesses inside -/

theorem start_byteAt {i : Nat} {v : UInt8} {b : Store} (h : b.data[i]? = some v) :
    start (byteAt i : Indexed ε UInt8) b = (.ok v, b) := by
  rw [start, byteAt, h]

theorem start_bytesFrom {i n : Nat} {b : Store} (h : i + n ≤ b.data.length) :
    start (bytesFrom i n : Indexed ε (List UInt8)) b = (.ok ((b.data.drop i).take n), b) := by
  induction n generalizing i with
  | zero => rw [bytesFrom, pure_apply, List.take_zero]
  | succ n ih =>
    have hi : i < b.data.length := by omega
    rw [bytesFrom, bind_of_ok (start_byteAt (List.getElem?_eq_getElem hi)), bind_of_ok (ih (by omega)), pure_apply,
      List.drop_eq_getElem_cons hi, List.take_succ_cons]

/-! ### Refinement -/

/-- The bytes from the index on. --/
def Store.cursor (b : Store) : Cursor := ⟨b.pos, b.data.drop b.pos⟩

/-- The vector is the same, and the index has moved forward inside it. --/
structure Forward (b b' : Store) : Prop where
  data : b'.data = b.data
  le : b.pos ≤ b'.pos
  inside : b'.pos ≤ b.data.length

namespace Forward
variable {b b' b'' : Store}

theorem refl (h : b.pos ≤ b.data.length) : Forward b b := ⟨rfl, Nat.le_refl _, h⟩

theorem trans (h : Forward b b') (h' : Forward b' b'') : Forward b b'' :=
  ⟨h'.data.trans h.data, Nat.le_trans h.le h'.le, h.data ▸ h'.inside⟩

theorem pos_le (h : Forward b b') : b'.pos ≤ b'.data.length := by
  rw [h.data]
  exact h.inside

end Forward

/-- An outcome of a reader by index, and one of a reader of the bytes from the index on. --/
inductive Agrees (b : Store) : Outcome ε α → Except ε (α × Cursor) → Prop
  | ok (a : α) {b' : Store} : Forward b b' → Agrees b (.ok a, b') (.ok (a, b'.cursor))
  | thrown (e : ε) {b' : Store} : Forward b b' → Agrees b (.error (.thrown e), b') (.error e)

def Refines (x : Indexed ε α) (y : Reader ε α) : Prop :=
  ∀ b : Store, b.pos ≤ b.data.length → Agrees b (start x b) (y b.cursor)

namespace Refines
variable {x : Indexed ε α} {y : Reader ε α} {f : α → Indexed ε β} {g : α → Reader ε β}

theorem pure (a : α) : Refines (Pure.pure a : Indexed ε α) (Pure.pure a) := fun _ hb => .ok a (.refl hb)

theorem raise (e : ε) : Refines (raise e : Indexed ε α) (throw e) := fun _ hb => .thrown e (.refl hb)

theorem position : Refines (position : Indexed ε Nat) Reader.position := fun b hb => .ok b.pos (.refl hb)

theorem bind (hx : Refines x y) (hf : ∀ a, Refines (f a) (g a)) : Refines (x >>= f) (y >>= g) := by
  intro b hb
  have hagrees := hx b hb
  rw [Reader.bind_apply]
  generalize hy : y b.cursor = r at hagrees
  generalize ho : start x b = o at hagrees
  cases hagrees with
  | ok a hto =>
    rw [bind_of_ok ho]
    have hrest := hf a _ hto.pos_le
    show Agrees b _ (g a _)
    generalize g a _ = r at hrest
    generalize start (f a) _ = o at hrest
    cases hrest with
    | ok c hto' => exact .ok c (hto.trans hto')
    | thrown e hto' => exact .thrown e (hto.trans hto')
  | thrown e hto =>
    rw [bind_of_error ho]
    exact .thrown e hto

/-- A last step that reads nothing. --/
theorem map (h : α → β) (hx : Refines x y) : Refines (x >>= fun a => Pure.pure (h a)) (y >>= fun a => Pure.pure (h a)) :=
  hx.bind fun a => .pure (h a)

theorem ite {c : Prop} [Decidable c] {x' : Indexed ε α} {y' : Reader ε α} (hx : c → Refines x y) (hx' : ¬c → Refines x' y') :
    Refines (if c then x else x') (if c then y else y') := by
  split
  · exact hx ‹_›
  · exact hx' ‹_›

/-- A reader that raises when fewer than `n` bytes are left, and else makes a value of them and moves behind them. --/
theorem of_take {short : ε} {n : Nat} {h : List UInt8 → α}
    (hshort : ∀ b : Store, b.data.length < b.pos + n → start x b = (.error (.thrown short), b))
    (henough : ∀ b : Store, b.pos + n ≤ b.data.length →
      start x b = (.ok (h ((b.data.drop b.pos).take n)), { b with pos := b.pos + n })) :
    Refines x (Reader.take short n >>= fun bs => Pure.pure (h bs)) := by
  intro b hb
  have hleft : (b.data.drop b.pos).length = b.data.length - b.pos := List.length_drop
  by_cases hn : b.pos + n ≤ b.data.length
  · have htake : Reader.take short n b.cursor =
        .ok ((b.data.drop b.pos).take n, (⟨b.data, b.pos + n⟩ : Store).cursor) := by
      refine take_eq_ok.mpr ⟨?_, ?_⟩
      · show n ≤ (b.data.drop b.pos).length
        omega
      · show _ = (_, (⟨b.pos + n, (b.data.drop b.pos).drop n⟩ : Cursor))
        rw [List.drop_drop]
        rfl
    rw [henough b hn, Reader.bind_eq_of_ok htake]
    exact .ok _ ⟨rfl, Nat.le_add_right _ _, hn⟩
  · have htake : Reader.take short n b.cursor = .error short := by
      refine if_neg fun hle => ?_
      have hle : n ≤ (b.data.drop b.pos).length := hle
      omega
    rw [hshort b (Nat.lt_of_not_le hn), Reader.bind_apply, htake]
    exact .thrown short (.refl hb)

end Refines

/-! ### Fuel -/

/-- Where `x` does not fail with `e`, `x'` ends in the same way. --/
def Extends (e : ε) (x x' : Indexed ε α) : Prop :=
  ∀ b, (start x b).1 ≠ .error (.thrown e) → start x' b = start x b

namespace Extends
variable {e : ε} {x x' : Indexed ε α} {f f' : α → Indexed ε β}

theorem refl (x : Indexed ε α) : Extends e x x := fun _ _ => rfl

theorem raise (x : Indexed ε α) : Extends e (Indexed.raise e) x := fun _ h => absurd rfl h

theorem bind (hx : Extends e x x') (hf : ∀ a, Extends e (f a) (f' a)) : Extends e (x >>= f) (x' >>= f') := by
  intro b h
  match ho : start x b with
  | (.ok a, b') =>
    have ho' : start x' b = (.ok a, b') := by rw [hx b (by rw [ho]; nofun), ho]
    rw [bind_of_ok ho] at h ⊢
    rw [bind_of_ok ho', hf a b' h]
  | (.error e', b') =>
    rw [bind_of_error ho] at h ⊢
    have hne : e' ≠ .thrown e := fun heq => h (congrArg Except.error heq)
    have ho' : start x' b = (.error e', b') := by rw [hx b (by rw [ho]; exact fun heq => hne (Except.error.inj heq)), ho]
    rw [bind_of_error ho']

theorem ite {c : Prop} [Decidable c] {y y' : Indexed ε α} (hx : Extends e x x') (hy : Extends e y y') :
    Extends e (if c then x else y) (if c then x' else y') := by
  split
  · exact hx
  · exact hy

/-- Once there is enough fuel, more makes no difference. --/
theorem of_le {read : Nat → Indexed ε α} (hsucc : ∀ fuel, Extends e (read fuel) (read (fuel + 1))) {b : Store} {fuel : Nat}
    (h : (start (read fuel) b).1 ≠ .error (.thrown e)) {fuel' : Nat} (hle : fuel ≤ fuel') :
    start (read fuel') b = start (read fuel) b := by
  induction hle with
  | refl => rfl
  | step _ ih => rw [hsucc _ b (by rwa [ih]), ih]

end Extends

end Indexed
