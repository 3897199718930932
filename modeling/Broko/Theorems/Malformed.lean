import Broko.Broker.Client
import Broko.Theorems.Registry
import Broko.Theorems.Runs

/-! Frames whose decoding throws. A handler reads all its arguments before its first effect, with two exceptions that
    stay inside the channel: `handleBasicQos` sets the prefetch as it reads it, and `handleContentHeader` the size of
    the publish that is begun. The one `catch` then closes the connection. -/

namespace Broko.Broker
open Amqp Storage

/-- A channel object with its consumers and unacked messages. --/
def Channel.tables (ch : Channel) : Ref × Assoc Bytes Ref × Assoc Nat UnackedMessage :=
  (ch.ref, ch.consumers, ch.unackedMessages)

namespace AmqpServer

variable {c : Nat} {num : UInt16} {s s' s₁ : AmqpServer}

/-! ### What is kept -/

/-- Exchanges with their bindings, queues with their messages and consumers, the message and consumer objects, the log,
    and the consumers, unacked messages and posted deliveries of every channel are as before. --/
structure Intact (s s' : AmqpServer) : Prop where
  exchanges : s'.exchanges = s.exchanges
  queues : s'.queues = s.queues
  heap : s'.heap = s.heap
  consumerHeap : s'.consumerHeap = s.consumerHeap
  store : s'.store = s.store
  strand : ∀ c, (s'.connection c).map Connection.strand = (s.connection c).map Connection.strand
  tables : ∀ c num, (s'.channel c num).map Channel.tables = (s.channel c num).map Channel.tables

namespace Intact

theorem refl : Intact s s := ⟨rfl, rfl, rfl, rfl, rfl, fun _ => rfl, fun _ _ => rfl⟩

theorem trans (h₁ : Intact s s₁) (h₂ : Intact s₁ s') : Intact s s' :=
  ⟨h₂.exchanges.trans h₁.exchanges, h₂.queues.trans h₁.queues, h₂.heap.trans h₁.heap,
    h₂.consumerHeap.trans h₁.consumerHeap, h₂.store.trans h₁.store, fun c => (h₂.strand c).trans (h₁.strand c),
    fun c num => (h₂.tables c num).trans (h₁.tables c num)⟩

theorem modifyConnection {f : Connection → Connection} (hstrand : ∀ conn, (f conn).strand = conn.strand)
    (htables : ∀ conn num, ((f conn).channels.lookup num).map Channel.tables =
      (conn.channels.lookup num).map Channel.tables) : Intact s (s.modifyConnection c f) := by
  have hlookup : ∀ c', (s.modifyConnection c f).connection c' =
      if c' = c then (s.connection c).map f else s.connection c' := fun _ => Assoc.lookup_modify ..
  refine ⟨rfl, rfl, rfl, rfl, rfl, fun c' => ?_, fun c' num => ?_⟩
  · rw [hlookup]
    split
    · rename_i h
      subst h
      cases s.connection c' with
      | none => rfl
      | some conn => exact congrArg some (hstrand conn)
    · rfl
  · rw [channel, channel, hlookup]
    split
    · rename_i h
      subst h
      cases s.connection c' with
      | none => rfl
      | some conn => exact htables conn num
    · rfl

theorem modifyChannel {f : Channel → Channel} (hf : ∀ ch, (f ch).tables = ch.tables) :
    Intact s (s.modifyChannel c num f) := by
  refine modifyConnection (fun _ => rfl) fun conn num' => ?_
  rw [Assoc.lookup_modify]
  split
  · rename_i h
    subst h
    cases conn.channels.lookup num' with
    | none => rfl
    | some ch => exact congrArg some (hf ch)
  · rfl

theorem stopReading (replyText : Bytes) : Intact s (s.stopReading c replyText) := by
  refine @trans _ _ (s.sendConnectionClose c reply_code.FRAME_ERROR replyText 0 0) ?_
    (modifyConnection (fun _ => rfl) fun _ _ => rfl)
  rw [sendConnectionClose]
  split
  · exact refl
  · split
    · exact refl
    · refine @trans _ _ (s.modifyConnection c fun conn => { conn with state := .CLOSING }) ?_ ?_
      · exact modifyConnection (fun _ => rfl) fun _ _ => rfl
      · exact modifyConnection (fun _ => rfl) fun _ _ => rfl

end Intact

/-- Nothing but what a channel has read of its arguments has changed. --/
structure Unread (s s' : AmqpServer) : Prop where
  intact : Intact s s'
  state : ∀ c, (s'.connection c).map Connection.state = (s.connection c).map Connection.state

namespace Unread

theorem refl : Unread s s := ⟨.refl, fun _ => rfl⟩

theorem trans (h₁ : Unread s s₁) (h₂ : Unread s₁ s') : Unread s s' :=
  ⟨h₁.intact.trans h₂.intact, fun c => (h₂.state c).trans (h₁.state c)⟩

theorem modifyChannel {f : Channel → Channel} (hf : ∀ ch, (f ch).tables = ch.tables) :
    Unread s (s.modifyChannel c num f) := by
  refine ⟨.modifyChannel hf, fun c' => ?_⟩
  rw [connection, AmqpServer.modifyChannel, modifyConnection, Assoc.lookup_modify, connection]
  split
  · rename_i h
    subst h
    cases s.connections.lookup c' <;> rfl
  · rfl

end Unread

/-! ### Handlers that throw -/

/-- If the handler throws, it throws out of a state with the property. --/
def Throws (P : AmqpServer → Prop) (o : Outcome) : Prop := ∀ s', o = .error s' → P s'

namespace Throws

variable {P : AmqpServer → Prop}

theorem ok (s : AmqpServer) : Throws P (.ok s) := nofun

theorem error (h : P s) : Throws P (.error s) := fun _ heq => Except.error.inj heq ▸ h

theorem withArgs {α : Type} {read : Read α} {buf : Buffer} {k : α → AmqpServer} (h : P s) :
    Throws P (withArgs read buf s k) := by
  rw [AmqpServer.withArgs]
  split
  · exact error h
  · exact ok _

theorem ite {p : Prop} [Decidable p] {a b : Outcome} (ha : Throws P a) (hb : Throws P b) :
    Throws P (if p then a else b) := by
  split
  · exact ha
  · exact hb

end Throws

theorem throws_handleBasicQos (buf : Buffer) : Throws (Unread s) (s.handleBasicQos c num buf) := by
  rw [handleBasicQos]
  split
  · exact .error .refl
  · rename_i prefetchSize _ _
    have hsize : Unread s (s.modifyChannel c num fun ch => { ch with prefetchSize }) := .modifyChannel fun _ => rfl
    dsimp only
    split
    · exact .error hsize
    · refine .withArgs (hsize.trans ?_)
      exact .modifyChannel fun _ => rfl

theorem throws_handleContentHeader (buf : Buffer) : Throws (Unread s) (s.handleContentHeader c num buf) := by
  rw [handleContentHeader]
  split
  · exact .ok _
  · split
    · exact .error .refl
    · dsimp only
      split
      · exact .ok _
      · split
        · exact .error (.modifyChannel fun _ => rfl)
        · exact .ok _

theorem throws_handleMethod (classId methodId : UInt16) (buf : Buffer) :
    Throws (Unread s) (s.handleMethod c num classId methodId buf) := by
  have hread : ∀ {α : Type} {read : Read α} {k : α → AmqpServer}, Throws (Unread s) (withArgs read buf s k) :=
    .withArgs .refl
  unfold handleMethod
  refine .ite ?exchange (.ite ?queue (.ite ?basic (.ite ?confirm (.ite ?tx (.ok _)))))
  case exchange => exact .ite hread (.ite hread (.ok _))
  case queue => exact .ite hread (.ite hread (.ite hread (.ite hread (.ite hread (.ok _)))))
  case basic =>
    refine .ite (throws_handleBasicQos buf) (.ite hread (.ite hread (.ite hread (.ite hread (.ite hread (.ite hread ?_))))))
    exact .ite hread (.ite hread (.ite hread (.ok _)))
  case confirm => exact .ite hread (.ok _)
  case tx => exact .ite (.ok _) (.ite (.ok _) (.ite (.ok _) (.ok _)))

theorem throws_handleConnectionMethod (methodId : UInt16) (buf : Buffer) :
    Throws (Unread s) (s.handleConnectionMethod c methodId buf) := by
  unfold handleConnectionMethod
  refine .ite ?startOk (.ite ?tuneOk (.ite ?opening (.ite ?close (.ite (.ok _) (.ok _)))))
  case startOk => exact .ite (.ok _) (.withArgs .refl)
  case tuneOk => exact .ite (.ok _) (.withArgs .refl)
  case opening => exact .ite (.ok _) (.withArgs .refl)
  case close => exact .withArgs .refl

theorem throws_handleMethodFrame (buf : Buffer) : Throws (Unread s) (s.handleMethodFrame c num buf) := by
  rw [handleMethodFrame]
  split
  · exact .error .refl
  · rename_i classId methodId buf hids
    refine .ite (.ite (.ok _) (throws_handleConnectionMethod methodId buf)) (.ite ?opening (.ite ?close (.ite (.ok _)
      (.ite ?flow ?channel))))
    case opening => exact .withArgs .refl
    case close => exact .withArgs .refl
    case flow => exact .withArgs .refl
    case channel =>
      rw [handleOnChannel]
      split
      · exact .ok _
      · exact throws_handleMethod classId methodId buf

theorem throws_handleFrame (frame : Frame) : Throws (Unread s) (s.handleFrame c frame) := by
  rw [handleFrame]
  refine .ite ?closing (.ite (throws_handleMethodFrame _) (.ite ?header (.ite ?body (.ite (.ok _) (.ok _)))))
  case closing =>
    rw [handleClosing]
    split
    · exact .error .refl
    · exact .ok _
  case header =>
    split
    · exact .ok _
    · exact throws_handleContentHeader _
  case body =>
    split
    · exact .ok _
    · exact .ok _

/-! ### The end of the connection -/

/-- A connection that was not shut down is closing after `stopReading`. --/
theorem state_stopReading {st : State} (hst : (s.connection c).map Connection.state = some st) (hne : st ≠ .CLOSED)
    (replyText : Bytes) : ((s.stopReading c replyText).connection c).map Connection.state = some .CLOSING := by
  obtain ⟨conn, hconn, rfl⟩ := Option.map_eq_some_iff.mp hst
  have hself : ∀ (s : AmqpServer) f, (s.modifyConnection c f).connection c = (s.connection c).map f :=
    fun _ _ => Assoc.lookup_modify_self ..
  rw [stopReading, sendConnectionClose, hconn]
  dsimp only
  split
  · rename_i hstate
    rw [hself, hconn]
    exact congrArg some (hstate.resolve_right hne)
  · rw [hself, sendMethodFrame, sendFrame, send, hself, hself, hconn]
    rfl

variable {store : Option MessageStore} {userStore : UserStore} {clock : Nat → Int} {readings : Nat}

/-- In a run, a frame whose handling throws changes nothing of the broker's state, and its connection is closing
    after it. --/
theorem malformed_frame_atomic (events : List Event) {frame : Frame} {frameEnd : UInt8}
    (hserved : Served c ((start store userStore clock readings).run events) frame frameEnd)
    (hthrows : ((start store userStore clock readings).run events).handleFrame c frame = .error s') :
    Intact ((start store userStore clock readings).run events)
        ((start store userStore clock readings).run (events ++ [.frame c frame frameEnd])) ∧
      (((start store userStore clock readings).run (events ++ [.frame c frame frameEnd])).connection c).map
        Connection.state = some .CLOSING := by
  have hreg : Registered ((start store userStore clock readings).run events) := registered_run events
  rw [run_concat]
  generalize (start store userStore clock readings).run events = s at *
  have hunread := throws_handleFrame frame s' hthrows
  rcases handle_frame_cases c s frame frameEnd with ⟨hn, -⟩ | ⟨-, hok | ⟨s₁, text, herror, heq⟩⟩
  · exact absurd hserved hn
  · rw [hthrows] at hok
    cases hok
  · rw [hthrows] at herror
    obtain rfl := Except.error.inj herror
    obtain ⟨conn, hconn, hreading, -⟩ := hserved
    have hstate : (s'.connection c).map Connection.state = some conn.state := by rw [hunread.state, hconn]; rfl
    rw [heq]
    exact ⟨hunread.intact.trans (.stopReading text),
      state_stopReading hstate ((hreg.connections c conn hconn).reading hreading) text⟩

/-- A publish of which the header is cut in the properties. --/
def cutHeader : Frame :=
  { type := FRAME_HEADER, channel := 1,
    payload := writeUint16 class_id.BASIC ++ writeUint16 0 ++ writeUint64 3 ++ [0x80] }

def publishBegun : List Event :=
  Client.connect 1 ++ [Client.openChannel 1 1, Client.assertQueue 1 1 (ascii "q") false true false false []] ++
    (Client.sendToQueue 1 1 (ascii "q") (ascii "abc") {}).take 1

theorem cutHeader_atomic :
    Intact (freshServer.run publishBegun) (freshServer.run (publishBegun ++ [.frame 1 cutHeader FRAME_END])) ∧
      ((freshServer.run (publishBegun ++ [.frame 1 cutHeader FRAME_END])).connection 1).map Connection.state =
        some .CLOSING := by
  have hserved : Served 1 (freshServer.run publishBegun) cutHeader FRAME_END := by decide +kernel
  cases hframe : (freshServer.run publishBegun).handleFrame 1 cutHeader with
  | ok s' =>
    have herror : ((freshServer.run publishBegun).handleFrame 1 cutHeader).isOk = false := by decide +kernel
    rw [hframe] at herror
    cases herror
  | error s' => exact malformed_frame_atomic publishBegun hserved hframe

end AmqpServer
end Broko.Broker
