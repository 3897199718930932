import Broko.Broker.WriteQueue

/-! Outgoing frames keep their order. While `writing_` is set there is one writer, which is in one of three places: a
    call of `doWrite` before its section, one after it, or an outstanding write. It hands on to itself, or unsets
    `writing_` when it finds the queue empty; only a failed write leaves the flag set with no writer. -/

namespace Broko.Broker
open Amqp

namespace WriteState

/-- Where the one writer of a connection is; what it has taken stands between the socket and the queue. --/
inductive Orderly : WriteState → Prop
  | idle {entered socket} (order : socket = entered.flatten) : Orderly { entered, socket }
  | entering {writeQueue entered socket} (order : socket ++ writeQueue.flatten = entered.flatten) :
    Orderly { writeQueue, writing := true, calls := [.entering], entered, socket }
  | starting {writeQueue entered socket} (data : Bytes)
      (order : socket ++ (data ++ writeQueue.flatten) = entered.flatten) :
    Orderly { writeQueue, writing := true, calls := [.starting data], entered, socket }
  | outstanding {writeQueue entered socket} (left : Bytes)
      (order : socket ++ (left ++ writeQueue.flatten) = entered.flatten) :
    Orderly { writeQueue, writing := true, outstanding := [left], entered, socket }
  | dead {writeQueue entered socket} (lost : Bytes)
      (order : socket ++ (lost ++ writeQueue.flatten) = entered.flatten) :
    Orderly { writeQueue, writing := true, failed := true, entered, socket }

variable {w : WriteState}

/-! ### One step -/

/-- A frame that enters the queue comes after all that is on its way. --/
theorem order_concat {writeQueue entered : List Bytes} {socket taken : Bytes}
    (h : socket ++ (taken ++ writeQueue.flatten) = entered.flatten) (data : Bytes) :
    socket ++ (taken ++ (writeQueue ++ [data]).flatten) = (entered ++ [data]).flatten := by
  rw [List.flatten_concat, List.flatten_concat, ← h, List.append_assoc, List.append_assoc]

theorem orderly_sendFrame (h : Orderly w) (data : Bytes) : Orderly (w.sendFrame data) := by
  cases h with
  | idle order => exact .entering (by rw [order]; simp)
  | entering order => exact .entering (@order_concat _ _ _ [] order data)
  | starting taken order => exact .starting taken (order_concat order data)
  | outstanding left order => exact .outstanding left (order_concat order data)
  | dead lost order => exact .dead lost (order_concat order data)

theorem orderly_doWrite (h : Orderly w) (i : Nat) : Orderly (w.doWrite i) := by
  cases h with
  | @entering writeQueue entered socket order =>
    cases i with
    | zero =>
      cases writeQueue with
      | nil => exact .idle (by rw [← order]; simp)
      | cons data rest => exact .starting data order
    | succ i => exact .entering order
  | idle order => exact .idle order
  | starting taken order =>
    cases i with
    | zero => exact .starting taken order
    | succ i => exact .starting taken order
  | outstanding left order => exact .outstanding left order
  | dead lost order => exact .dead lost order

theorem orderly_asyncWrite (h : Orderly w) (i : Nat) : Orderly (w.asyncWrite i) := by
  cases h with
  | starting taken order =>
    cases i with
    | zero => exact .outstanding taken order
    | succ i => exact .starting taken order
  | idle order => exact .idle order
  | entering order =>
    cases i with
    | zero => exact .entering order
    | succ i => exact .entering order
  | outstanding left order => exact .outstanding left order
  | dead lost order => exact .dead lost order

theorem orderly_progress (h : Orderly w) (i n : Nat) : Orderly (w.progress i n) := by
  cases h with
  | @outstanding writeQueue entered socket left order =>
    cases i with
    | zero =>
      refine .outstanding (left.drop n) ?_
      rw [List.append_assoc, ← List.append_assoc (left.take n), List.take_append_drop, order]
    | succ i => exact .outstanding left order
  | idle order => exact .idle order
  | entering order => exact .entering order
  | starting taken order => exact .starting taken order
  | dead lost order => exact .dead lost order

theorem orderly_complete (h : Orderly w) (i : Nat) : Orderly (w.complete i) := by
  cases h with
  | outstanding left order =>
    cases i with
    | zero =>
      cases left with
      | nil => exact .entering order
      | cons b left => exact .outstanding (b :: left) order
    | succ i => exact .outstanding left order
  | idle order => exact .idle order
  | entering order => exact .entering order
  | starting taken order => exact .starting taken order
  | dead lost order => exact .dead lost order

theorem orderly_fail (h : Orderly w) (i : Nat) : Orderly (w.fail i) := by
  cases h with
  | outstanding left order =>
    cases i with
    | zero => exact .dead left order
    | succ i => exact .outstanding left order
  | idle order => exact .idle order
  | entering order => exact .entering order
  | starting taken order => exact .starting taken order
  | dead lost order => exact .dead lost order

theorem orderly_handle (h : Orderly w) (e : WriteEvent) : Orderly (w.handle e) := by
  cases e with
  | sendFrame data => exact orderly_sendFrame h data
  | doWrite i => exact orderly_doWrite h i
  | asyncWrite i => exact orderly_asyncWrite h i
  | progress i n => exact orderly_progress h i n
  | complete i => exact orderly_complete h i
  | fail i => exact orderly_fail h i

/-! ### Runs -/

theorem orderly_run (events : List WriteEvent) : Orderly (run events) :=
  List.foldlRecOn (motive := Orderly) events handle (.idle rfl) fun _ h e _ => orderly_handle h e

/-- In every run, the bytes on the socket are a prefix of the frames in the order in which they entered the queue, at
    most one write is outstanding, and as long as no write has failed a queue that is not empty has a write outstanding or
    a call of `doWrite` under way. --/
theorem frames_in_order (events : List WriteEvent) :
    (run events).socket <+: (run events).entered.flatten ∧
      (run events).outstanding.length ≤ 1 ∧
      ((run events).failed = false → (run events).writeQueue ≠ [] →
        (run events).outstanding ≠ [] ∨ (run events).calls ≠ []) := by
  have h := orderly_run events
  generalize run events = w at *
  cases h with
  | idle order => exact ⟨⟨[], by rw [order, List.append_nil]⟩, Nat.zero_le _, fun _ hne => absurd rfl hne⟩
  | entering order => exact ⟨⟨_, order⟩, Nat.zero_le _, fun _ _ => .inr (List.cons_ne_nil _ _)⟩
  | starting taken order => exact ⟨⟨_, order⟩, Nat.zero_le _, fun _ _ => .inr (List.cons_ne_nil _ _)⟩
  | outstanding left order => exact ⟨⟨_, order⟩, le_rfl, fun _ _ => .inl (List.cons_ne_nil _ _)⟩
  | dead lost order => exact ⟨⟨_, order⟩, Nat.zero_le _, fun h => absurd h.symm Bool.false_ne_true⟩

/-- Two threads send while the first frame is being written. --/
example : (run [.sendFrame [1, 2], .doWrite 0, .sendFrame [3], .asyncWrite 0, .progress 0 1, .sendFrame [4],
    .progress 0 1, .complete 0, .doWrite 0, .asyncWrite 0, .progress 0 1]).socket = [1, 2, 3] := by decide

end WriteState
end Broko.Broker
