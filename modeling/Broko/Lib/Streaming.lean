import Mathlib.Tactic.Common

/-! A parser that is fed a stream in chunks. What it has not used stays in a buffer, and after each chunk it is asked for
    items until it wants more or fails. -/

namespace Streaming
variable {α β ε : Type}

/-- The items that came out, the failure if there was one, and the buffer that is left. --/
structure Result (ε α β : Type) where
  items : List β
  error : Option ε
  buffer : List α
  deriving DecidableEq, Repr

/-- Items that came out before. --/
def Result.after (items : List β) (r : Result ε α β) : Result ε α β := { r with items := items ++ r.items }

/-- Asks for items until the parser wants more or fails, at most `n` times. --/
def drain (next : List α → Except ε (Option (β × List α))) : Nat → List α → Result ε α β
  | 0, buf => ⟨[], none, buf⟩
  | n + 1, buf =>
    match next buf with
    | .error e => ⟨[], some e, buf⟩
    | .ok none => ⟨[], none, buf⟩
    | .ok (some (b, rest)) => (drain next n rest).after [b]

/-- An item takes something from the buffer, so one more time than there is in it is enough. --/
def pull (next : List α → Except ε (Option (β × List α))) (buf : List α) : Result ε α β :=
  drain next (buf.length + 1) buf

/-- Feeds the chunks one by one; nothing is fed after a failure. --/
def run (next : List α → Except ε (Option (β × List α))) : List α → List (List α) → Result ε α β
  | buf, [] => ⟨[], none, buf⟩
  | buf, chunk :: chunks =>
    let r := pull next (buf ++ chunk)
    match r.error with
    | some _ => r
    | none => (run next r.buffer chunks).after r.items

/-- What the parser finds does not depend on what comes later, and an item is not empty. --/
structure Stable (next : List α → Except ε (Option (β × List α))) : Prop where
  nil : next [] = .ok none
  error : ∀ {buf e}, next buf = .error e → ∀ more, next (buf ++ more) = .error e
  item : ∀ {buf b rest}, next buf = .ok (some (b, rest)) → ∀ more, next (buf ++ more) = .ok (some (b, rest ++ more))
  shorter : ∀ {buf b rest}, next buf = .ok (some (b, rest)) → rest.length < buf.length

@[simp] theorem Result.after_items (items : List β) (r : Result ε α β) : (r.after items).items = items ++ r.items := rfl
@[simp] theorem Result.after_error (items : List β) (r : Result ε α β) : (r.after items).error = r.error := rfl
@[simp] theorem Result.after_buffer (items : List β) (r : Result ε α β) : (r.after items).buffer = r.buffer := rfl
@[simp] theorem Result.after_nil (r : Result ε α β) : r.after [] = r := rfl

theorem Result.after_after (xs ys : List β) (r : Result ε α β) : (r.after ys).after xs = r.after (xs ++ ys) := by
  simp only [Result.after, List.append_assoc]

namespace Stable
variable {next : List α → Except ε (Option (β × List α))} {buf rest more : List α} {b : β} {e : ε}

/-- More rounds than there are elements make no difference. --/
theorem drain_eq (h : Stable next) : ∀ (n m : Nat) (buf : List α), buf.length < n → buf.length < m →
    drain next n buf = drain next m buf
  | n + 1, m + 1, buf, hn, hm => by
    rw [drain, drain]
    cases hnext : next buf with
    | error e => rfl
    | ok o =>
      cases o with
      | none => rfl
      | some r =>
        obtain ⟨b, rest⟩ := r
        have hlt := h.shorter hnext
        dsimp only
        rw [h.drain_eq n m rest (by omega) (by omega)]

theorem pull_error (hnext : next buf = .error e) : pull next buf = ⟨[], some e, buf⟩ := by
  rw [pull, drain, hnext]

theorem pull_more (hnext : next buf = .ok none) : pull next buf = ⟨[], none, buf⟩ := by
  rw [pull, drain, hnext]

theorem pull_item (h : Stable next) (hnext : next buf = .ok (some (b, rest))) :
    pull next buf = (pull next rest).after [b] := by
  have hlt := h.shorter hnext
  rw [pull, drain, hnext, pull]
  dsimp only
  rw [h.drain_eq buf.length (rest.length + 1) rest hlt (Nat.lt_succ_self _)]

/-- A stream that ends inside the buffer: the items and the failure stay when more comes, and without a failure what is
    left stands before it. --/
theorem pull_append (h : Stable next) (buf more : List α) :
    (∀ e, (pull next buf).error = some e → (pull next (buf ++ more)).items = (pull next buf).items ∧
      (pull next (buf ++ more)).error = some e) ∧
    ((pull next buf).error = none →
      pull next (buf ++ more) = (pull next ((pull next buf).buffer ++ more)).after (pull next buf).items) := by
  cases hnext : next buf with
  | error e =>
    rw [pull_error hnext, pull_error (h.error hnext more)]
    exact ⟨fun e' he' => ⟨rfl, he'⟩, nofun⟩
  | ok o =>
    cases o with
    | none =>
      rw [pull_more hnext]
      exact ⟨nofun, fun _ => (Result.after_nil _).symm⟩
    | some r =>
      obtain ⟨b, rest⟩ := r
      have hlt := h.shorter hnext
      obtain ⟨herror, hnone⟩ := h.pull_append rest more
      rw [h.pull_item hnext, h.pull_item (h.item hnext more)]
      constructor
      · intro e he
        obtain ⟨hitems, herr⟩ := herror e he
        exact ⟨by rw [Result.after_items, Result.after_items, hitems], herr⟩
      · intro he
        rw [hnone he, Result.after_after]
        rfl
termination_by buf.length

/-- The buffer of a parser that wants more holds no item. --/
theorem pull_buffer (h : Stable next) (buf : List α) (hnone : (pull next buf).error = none) :
    next (pull next buf).buffer = .ok none := by
  cases hnext : next buf with
  | error e =>
    rw [pull_error hnext] at hnone
    cases hnone
  | ok o =>
    cases o with
    | none =>
      rw [pull_more hnext]
      exact hnext
    | some r =>
      obtain ⟨b, rest⟩ := r
      have hlt := h.shorter hnext
      rw [h.pull_item hnext] at hnone ⊢
      exact h.pull_buffer rest hnone
termination_by buf.length

/-- Feeding a stream in chunks gives the items and the failure of the whole stream, and without a failure what it leaves. --/
theorem run_eq (h : Stable next) {buf : List α} (hbuf : next buf = .ok none) (chunks : List (List α)) :
    (run next buf chunks).items = (pull next (buf ++ chunks.flatten)).items ∧
    (run next buf chunks).error = (pull next (buf ++ chunks.flatten)).error ∧
    ((run next buf chunks).error = none → run next buf chunks = pull next (buf ++ chunks.flatten)) := by
  induction chunks generalizing buf with
  | nil =>
    rw [List.flatten_nil, List.append_nil, pull_more hbuf]
    exact ⟨rfl, rfl, fun _ => rfl⟩
  | cons chunk chunks ih =>
    obtain ⟨herror, hnone⟩ := h.pull_append (buf ++ chunk) chunks.flatten
    rw [List.flatten_cons, ← List.append_assoc, run]
    cases herr : (pull next (buf ++ chunk)).error with
    | some e =>
      obtain ⟨hitems, he⟩ := herror e herr
      dsimp only
      rw [hitems, he, herr]
      exact ⟨rfl, rfl, nofun⟩
    | none =>
      obtain ⟨hitems, he, hall⟩ := ih (h.pull_buffer _ herr)
      dsimp only
      rw [hnone herr, Result.after_items, Result.after_items, Result.after_error, Result.after_error, hitems, he]
      exact ⟨rfl, rfl, fun hno => by rw [hall (he.trans hno)]⟩

/-- Two cuttings of one stream. --/
theorem run_congr (h : Stable next) {chunks chunks' : List (List α)} (hflat : chunks.flatten = chunks'.flatten) :
    (run next [] chunks).items = (run next [] chunks').items ∧ (run next [] chunks).error = (run next [] chunks').error := by
  obtain ⟨hitems, herror, -⟩ := h.run_eq h.nil chunks
  obtain ⟨hitems', herror', -⟩ := h.run_eq h.nil chunks'
  rw [hitems, herror, hitems', herror', hflat]
  exact ⟨rfl, rfl⟩

/-- A stream of encoded items comes out item by item. --/
theorem pull_flatMap (h : Stable next) {encode : β → List α} :
    ∀ items : List β, (∀ b ∈ items, ∀ rest, next (encode b ++ rest) = .ok (some (b, rest))) →
      pull next (items.flatMap encode) = ⟨items, none, []⟩
  | [], _ => pull_more h.nil
  | b :: items, hitems => by
    rw [List.flatMap_cons, h.pull_item (hitems b List.mem_cons_self _),
      h.pull_flatMap items fun c hc => hitems c (List.mem_cons_of_mem _ hc)]
    rfl

end Stable
end Streaming
