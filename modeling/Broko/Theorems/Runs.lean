import Broko.Lib.Prefix
import Broko.Theorems.Sends
import Broko.Theorems.Steps

/-! Runs of the server. In every state of a run no reference dangles. -/

namespace Broko.Broker
open Amqp Storage MessageStore

namespace AmqpServer

variable {s : AmqpServer} {store : Option MessageStore} {userStore : UserStore} {clock : Nat → Int} {readings : Nat}

theorem run_concat (s : AmqpServer) (events : List Event) (e : Event) :
    s.run (events ++ [e]) = (s.run events).handle e :=
  Prefix.foldl_concat ..

/-- The frame gets to `handleFrame`. --/
def Served (c : Nat) (s : AmqpServer) (frame : Frame) (frameEnd : UInt8) : Prop :=
  ∃ conn, s.connection c = some conn ∧ conn.reading = true ∧ conn.state ≠ .AWAITING_PROTOCOL_HEADER ∧
    frame.payload.length ≤ effectiveMax conn ∧ frameEnd = FRAME_END

instance (c : Nat) (s : AmqpServer) (frame : Frame) (frameEnd : UInt8) : Decidable (Served c s frame frameEnd) :=
  match h : s.connection c with
  | none => isFalse (by rintro ⟨conn, hconn, -⟩; rw [h] at hconn; cases hconn)
  | some conn =>
    decidable_of_iff (conn.reading = true ∧ conn.state ≠ .AWAITING_PROTOCOL_HEADER ∧
        frame.payload.length ≤ effectiveMax conn ∧ frameEnd = FRAME_END)
      ⟨fun hs => ⟨conn, h, hs⟩, fun ⟨conn', hconn', hs⟩ => Option.some.inj (h.symm.trans hconn') ▸ hs⟩

/-- A frame that arrives is dropped, stops the reading, or gets to `handleFrame`. --/
theorem handle_frame_cases (c : Nat) (s : AmqpServer) (frame : Frame) (frameEnd : UInt8) :
    (¬Served c s frame frameEnd ∧
      (s.handle (.frame c frame frameEnd) = s ∨ ∃ text, s.handle (.frame c frame frameEnd) = s.stopReading c text)) ∨
    (Served c s frame frameEnd ∧
      (s.handleFrame c frame = .ok (s.handle (.frame c frame frameEnd)) ∨
        ∃ s' text, s.handleFrame c frame = .error s' ∧ s.handle (.frame c frame frameEnd) = s'.stopReading c text)) := by
  rw [handle]
  split
  · rename_i hnone
    refine .inl ⟨?_, .inl rfl⟩
    rintro ⟨conn, hconn, -⟩
    rw [hnone] at hconn
    cases hconn
  · rename_i conn hconn
    by_cases hread : conn.reading = true ∧ conn.state ≠ .AWAITING_PROTOCOL_HEADER
    · rw [if_pos hread, receiveFrame]
      generalize hmax : effectiveMax conn = effectiveMax
      have hof : Served c s frame frameEnd → frame.payload.length ≤ effectiveMax ∧ frameEnd = FRAME_END := by
        rintro ⟨conn', hconn', -, -, hlen, hend⟩
        obtain rfl := Option.some.inj (hconn.symm.trans hconn')
        exact ⟨hmax ▸ hlen, hend⟩
      split
      · rename_i hlen
        exact .inl ⟨fun hserved => absurd (hof hserved).1 (not_le.mpr hlen), .inr ⟨_, rfl⟩⟩
      · rename_i hlen
        split
        · rename_i hend
          exact .inl ⟨fun hserved => hend (hof hserved).2, .inr ⟨_, rfl⟩⟩
        · rename_i hend
          refine .inr ⟨⟨conn, hconn, hread.1, hread.2, hmax ▸ not_lt.mp hlen, not_not.mp hend⟩, ?_⟩
          cases s.handleFrame c frame with
          | ok s' => exact .inl rfl
          | error s' => exact .inr ⟨s', _, rfl, rfl⟩
    · rw [if_neg hread]
      refine .inl ⟨?_, .inl rfl⟩
      rintro ⟨conn', hconn', hreading, hstate, -⟩
      obtain rfl := Option.some.inj (hconn.symm.trans hconn')
      exact hread ⟨hreading, hstate⟩

/-- A process that has not read its log. --/
theorem valid_blank : Valid { store, userStore, clock, readings, exchanges := defaultExchanges } := by
  refine ⟨Assoc.All.empty, Assoc.All.empty, fun r => ?_, nofun, nofun⟩
  exact BasicProperties.wellFormed_empty

theorem valid_start : Valid (start store userStore clock readings) := by
  cases store with
  | none => exact valid_blank
  | some st => exact ((does_recoverFromStore (c := 0) rfl).moves valid_blank).valid valid_blank

/-- A new process on an empty log, with the built-in user. --/
def freshServer : AmqpServer := start (some {}) {} (fun _ => 0) 0

/-- An event is about one connection or none. --/
theorem exists_actor (e : Event) (c : Nat) : ∃ c', (∀ x, e.connection? = some x → x = c') ∧ (e.connection? ≠ some c → c' ≠ c) := by
  cases hx : e.connection? with
  | none => exact ⟨c + 1, fun x hx => (by cases hx), fun _ => Nat.succ_ne_self c⟩
  | some x => exact ⟨x, fun y hy => (Option.some.inj hy).symm, fun h heq => h (heq ▸ rfl)⟩

theorem valid_handle (hv : Valid s) (e : Event) : Valid (s.handle e) := by
  by_cases he : e = .restart
  · rw [he]
    exact valid_start
  · obtain ⟨c, hc, -⟩ := exists_actor e 0
    have hdoes : Does c (.oversize :: allKinds) s (s.handle e) :=
      does_handle hc he (fun _ => List.mem_cons_of_mem _) (.inl List.mem_cons_self)
    exact (hdoes.moves hv).valid hv

/-- What other connections do leaves what a connection has. --/
theorem own_handle_of_ne {c : Nat} {conn : Connection} (hv : Valid s) (hconn : s.connection c = some conn) {e : Event}
    (he : e ≠ .restart) (hc : e.connection? ≠ some c) : (s.handle e).own c = s.own c := by
  obtain ⟨c', hactor, hne⟩ := exists_actor e c
  have hdoes : Does c' (.oversize :: allKinds) s (s.handle e) :=
    does_handle hactor he (fun _ => List.mem_cons_of_mem _) (.inl List.mem_cons_self)
  have hkeep := (hdoes.moves hv).keeps (P := fun s' : AmqpServer => Valid s' ∧ s'.own c = s.own c) ?_ ⟨hv, rfl⟩
  · exact hkeep.2
  · rintro k - s₁ s₂ hm ⟨hv₁, hown⟩
    have hsome : s₁.own c = some { conn with strand := [] } := by rw [hown, own, hconn, Option.map_some]
    obtain ⟨conn₁, hconn₁, -⟩ := Option.map_eq_some_iff.mp hsome
    exact ⟨hv₁.move hm, (own_move hv₁ hconn₁ hm (Ne.symm (hne hc))).trans hown⟩

theorem valid_run (hv : Valid s) (events : List Event) : Valid (s.run events) := by
  induction events generalizing s with
  | nil => exact hv
  | cons e events ih => exact ih (valid_handle hv e)

end AmqpServer
end Broko.Broker
