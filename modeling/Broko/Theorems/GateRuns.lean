import Mathlib.Data.List.Infix
import Broko.Broker.Client
import Broko.Theorems.Gate

/-! Whole runs through the gate: a client has an effect only after its Start-Ok and its Open were accepted, if it
    opens no channel before and does not close the connection while an abandoned queue, or something of another
    connection with the same id, is there. -/

namespace Broko.Broker
open Amqp Storage

namespace AmqpServer

variable {c : Nat} {s : AmqpServer}

/-! ### The start -/

theorem outsider_start (store : Option MessageStore) (userStore : UserStore) (clock : Nat → Int) (readings : Nat) :
    Outsider c (start store userStore clock readings) ∧ ¬AuthIn c (start store userStore clock readings) := by
  have hblank : ∀ store, Outsider c { store, userStore, clock, readings, exchanges := defaultExchanges } ∧
      ¬AuthIn c { store, userStore, clock, readings, exchanges := defaultExchanges } := fun store =>
    ⟨⟨nofun, nofun, nofun⟩, nofun⟩
  rw [start]
  cases store with
  | none => exact hblank none
  | some st =>
    refine ((does_recoverFromStore (c := c + 1) rfl).moves valid_blank).keeps
      (P := fun s => Outsider c s ∧ ¬AuthIn c s) ?_ (hblank (some st.recover.2))
    rintro k - s₁ s₂ hm ⟨hout, hauth⟩
    have hne : c + 1 ≠ c := Nat.succ_ne_self c
    exact ⟨hout.move hne hm, fun h => hauth (authIn_of_move hne hm h)⟩

/-! ### Runs -/

/-- A Start-Ok that `UserStore::verify` accepted is among the events. --/
def Verified (c : Nat) (s : AmqpServer) (events : List Event) : Prop :=
  ∃ pre frame frameEnd post, events = pre ++ .frame c frame frameEnd :: post ∧
    Served c (s.run pre) frame frameEnd ∧ StartOkPasses c (s.run pre) frame

/-- At some point of the run the connection was open, after such a Start-Ok. --/
def Opened (c : Nat) (s : AmqpServer) (events : List Event) : Prop :=
  ∃ pre post, events = pre ++ post ∧ Verified c s pre ∧ ((s.run pre).connection c).map Connection.state = some .OPEN

/-- The connection is not open at any point of the run. --/
def Unopened (c : Nat) (s : AmqpServer) (events : List Event) : Prop :=
  ∀ pre post, events = pre ++ post → ((s.run pre).connection c).map Connection.state ≠ some .OPEN

theorem Verified.concat {events : List Event} (h : Verified c s events) (e : Event) : Verified c s (events ++ [e]) := by
  obtain ⟨pre, frame, frameEnd, post, rfl, hpass⟩ := h
  exact ⟨pre, frame, frameEnd, post ++ [e], by rw [List.append_assoc, List.cons_append], hpass⟩

theorem Opened.concat {events : List Event} (h : Opened c s events) (e : Event) : Opened c s (events ++ [e]) := by
  obtain ⟨pre, post, rfl, hopen⟩ := h
  exact ⟨pre, post ++ [e], by rw [List.append_assoc], hopen⟩

theorem Unopened.concat {events : List Event} (h : Unopened c s events) {e : Event}
    (he : ((s.run (events ++ [e])).connection c).map Connection.state ≠ some .OPEN) : Unopened c s (events ++ [e]) := by
  intro pre post heq
  rcases List.eq_nil_or_concat' post with rfl | ⟨post, a, rfl⟩
  · rw [List.append_nil] at heq
    rwa [← heq]
  · rw [← List.append_assoc] at heq
    exact h pre post (List.append_inj_left' heq rfl)

/-- Before the connection is open nothing belongs to it, and it is past its Start-Ok only if that was accepted. --/
structure Shut (c : Nat) (s : AmqpServer) (events : List Event) : Prop where
  outsider : Outsider c (s.run events)
  verified : AuthIn c (s.run events) → Verified c s events
  unopened : Unopened c s events

theorem Shut.concat {events : List Event} {e : Event} (hv : Valid s) (h : Shut c s events) (he : e ≠ .restart)
    (hgate : ∀ frame frameEnd, e = .frame c frame frameEnd → Gated c (s.run events) frame) :
    Opened c s (events ++ [e]) ∨ Shut c s (events ++ [e]) := by
  -- One event, and in the case of a frame the silence of the gate.
  have hstep : Outsider c ((s.run events).handle e) ∧
      (AuthIn c ((s.run events).handle e) → Verified c s (events ++ [e])) := by
    by_cases hframe : ∃ frame frameEnd, e = .frame c frame frameEnd
    · obtain ⟨frame, frameEnd, rfl⟩ := hframe
      have hsilent := Silent.handle_frame h.outsider (hgate frame frameEnd rfl) frameEnd
      refine ⟨hsilent.outsider h.outsider, fun hauth => ?_⟩
      rcases hsilent.authIn hauth with hauth | hpass
      · exact (h.verified hauth).concat _
      · exact ⟨events, frame, frameEnd, [], rfl, hpass⟩
    · obtain ⟨hout, hauth⟩ := h.outsider.handle (valid_run hv events) he fun frame frameEnd heq => hframe ⟨frame, frameEnd, heq⟩
      exact ⟨hout, fun hnext => (h.verified (hauth hnext)).concat _⟩
  rw [← run_concat] at hstep
  by_cases hopen : ((s.run (events ++ [e])).connection c).map Connection.state = some .OPEN
  · obtain ⟨conn, hconn, hstate⟩ := Option.map_eq_some_iff.mp hopen
    exact .inl ⟨events ++ [e], [], by rw [List.append_nil], hstep.2 ⟨conn, hconn, by rw [hstate]; rfl⟩, hopen⟩
  · exact .inr ⟨hstep.1, hstep.2, h.unopened.concat hopen⟩

/-- A frame that changes the virtual host, or for which the client is sent a message, comes after an accepted
    Start-Ok and an accepted Open, in every run of a process in which the frames that come before the Open
    are `Gated`. --/
theorem effect_after_open {store : Option MessageStore} {userStore : UserStore} {clock : Nat → Int} {readings : Nat}
    {events pre post : List Event} {frame : Frame} {frameEnd : UInt8} (hrestart : .restart ∉ events)
    (hgate : ∀ pre frame frameEnd post, events = pre ++ .frame c frame frameEnd :: post →
      Unopened c (start store userStore clock readings) pre →
      Gated c ((start store userStore clock readings).run pre) frame)
    (hsplit : events = pre ++ .frame c frame frameEnd :: post)
    (heffect : Affects c ((start store userStore clock readings).run pre)
      ((start store userStore clock readings).run (pre ++ [.frame c frame frameEnd]))) :
    Opened c (start store userStore clock readings) pre := by
  have hinv : Opened c (start store userStore clock readings) pre ∨
      Shut c (start store userStore clock readings) pre := by
    refine Prefix.induction (P := fun pre => Opened c (start store userStore clock readings) pre ∨
      Shut c (start store userStore clock readings) pre) (.inr ?_) ?_ hsplit
    · obtain ⟨hout, hauth⟩ := outsider_start (c := c) store userStore clock readings
      refine ⟨hout, fun h => absurd h hauth, fun pre post heq hopen => hauth ?_⟩
      obtain ⟨rfl, -⟩ := List.append_eq_nil_iff.mp heq.symm
      obtain ⟨conn, hconn, hstate⟩ := Option.map_eq_some_iff.mp hopen
      exact ⟨conn, hconn, by rw [hstate]; rfl⟩
    · rintro pre e post heq (hopen | hshut)
      · exact .inl (hopen.concat e)
      · refine hshut.concat valid_start ?_ ?_
        · rintro rfl
          exact hrestart (heq ▸ List.mem_append_right _ List.mem_cons_self)
        · rintro frame frameEnd rfl
          exact hgate pre frame frameEnd post heq hshut.unopened
  rcases hinv with hopen | hshut
  · exact hopen
  · rw [run_concat] at heffect
    have hsilent := Silent.handle_frame hshut.outsider (hgate pre frame frameEnd post hsplit hshut.unopened) frameEnd
    exact absurd heffect hsilent.not_affects

/-- A client that opens a channel right after the protocol header declares a queue. --/
theorem unauthenticated_declare :
    Affects 1 (freshServer.run [.accept, .protocolHeader 1 PROTOCOL_HEADER, Client.openChannel 1 1])
        (freshServer.run [.accept, .protocolHeader 1 PROTOCOL_HEADER, Client.openChannel 1 1,
          Client.assertQueue 1 1 (ascii "q") false true false false []]) ∧
      ¬Opened 1 freshServer [.accept, .protocolHeader 1 PROTOCOL_HEADER, Client.openChannel 1 1] := by
  constructor
  · refine .inr (.inl fun heq => ?_)
    have hkeys := congrArg Assoc.keys heq
    revert hkeys
    decide +kernel
  · rintro ⟨pre, post, heq, -, hopen⟩
    have hstates : ∀ pre ∈ [.accept, .protocolHeader 1 PROTOCOL_HEADER, Client.openChannel 1 1].inits,
        ((freshServer.run pre).connection 1).map Connection.state ≠ some .OPEN := by decide +kernel
    exact hstates pre ((List.mem_inits _ _).mpr ⟨post, heq.symm⟩) hopen

/-- A frame that is no Channel.Open and no close of the connection. --/
theorem gated_of_methodIds {frame : Frame} (hopen : methodIds frame ≠ some (class_id.CHANNEL, channel_method.OPEN))
    (hclose : methodIds frame ≠ some (class_id.CONNECTION, connection_method.CLOSE))
    (hok : methodIds frame ≠ some (class_id.CONNECTION, connection_method.CLOSE_OK)) : Gated c s frame :=
  ⟨fun h => absurd h hopen, fun h => absurd h (not_or.mpr ⟨hclose, hok⟩)⟩

/-- The same declaration after the handshake. --/
theorem authenticated_declare :
    Opened 1 freshServer (Client.connect 1 ++ [Client.openChannel 1 1]) := by
  have hsplit : Client.connect 1 ++ [Client.openChannel 1 1, Client.assertQueue 1 1 (ascii "q") false true false false []]
      = (Client.connect 1 ++ [Client.openChannel 1 1]) ++
        Client.assertQueue 1 1 (ascii "q") false true false false [] :: [] := rfl
  refine effect_after_open ?_ ?_ hsplit ?_
  · simp [Client.connect, Client.openChannel, Client.assertQueue, Client.startOk, Client.tuneOk, Client.openConnection,
      Client.sendMethod]
  · intro pre frame frameEnd post heq hun
    rcases Prefix.mem_or_extends heq with hmem | ⟨rest, hrest⟩
    · -- The frames of the handshake.
      simp only [Client.connect, Client.startOk, Client.tuneOk, Client.openConnection, Client.sendMethod, List.mem_cons,
        List.not_mem_nil, Event.frame.injEq, reduceCtorEq, or_false, false_or] at hmem
      rcases hmem with ⟨-, rfl, -⟩ | ⟨-, rfl, -⟩ | ⟨-, rfl, -⟩ <;>
        exact gated_of_methodIds (by decide +kernel) (by decide +kernel) (by decide +kernel)
    · -- The connection was open after the handshake.
      exact absurd (by decide +kernel) (hun _ rest hrest)
  · refine .inr (.inl fun heq => ?_)
    have hkeys := congrArg Assoc.keys heq
    revert hkeys
    decide +kernel

end AmqpServer
end Broko.Broker
