import Broko.Broker.Client
import Broko.Theorems.Gate

/-! The handshake. What a connection has negotiated is its `Session`; channels, deliveries and other connections do not
    touch it, and each frame of the connection moves it forward along one of a few steps. -/

namespace Broko.Broker
open Amqp Storage MessageStore

/-- What the handshake sets. --/
structure Session where
  state : State
  channelMax : UInt16
  frameMax : UInt32
  heartbeatInterval : UInt16
  authUser : Bytes
  deriving DecidableEq, Repr

def Connection.session (conn : Connection) : Session :=
  { state := conn.state, channelMax := conn.channelMax, frameMax := conn.frameMax,
    heartbeatInterval := conn.heartbeatInterval, authUser := conn.authUser }

/-- The place of a state in the order of the handshake. --/
def State.rank : State → Nat
  | .AWAITING_PROTOCOL_HEADER => 0
  | .AWAITING_START_OK => 1
  | .AWAITING_TUNE_OK => 2
  | .AWAITING_OPEN => 3
  | .OPEN => 4
  | .CLOSING => 5
  | .CLOSED => 6

namespace Session

def withState (x : Session) (state : State) : Session := { x with state }

/-- `sendConnectionClose`. --/
def closing (x : Session) : Session :=
  if x.state = .CLOSING ∨ x.state = .CLOSED then x else x.withState .CLOSING

/-- The limits are not zero, and not higher than the offered ones. --/
structure Within (x offer : Session) : Prop where
  channelMax : 0 < x.channelMax ∧ x.channelMax ≤ offer.channelMax
  frameMax : 0 < x.frameMax ∧ x.frameMax ≤ offer.frameMax
  heartbeatInterval : 0 < x.heartbeatInterval ∧ x.heartbeatInterval ≤ offer.heartbeatInterval

end Session

namespace AmqpServer

theorem within_min {α : Type} [LE α] [LT α] [Min α] [Std.IsLinearOrder α] [Std.LawfulOrderMin α] {z a b o : α}
    (ha : z < a ∧ a ≤ o) (hb : z < b) : z < min a b ∧ min a b ≤ o := by
  refine ⟨?_, Std.le_trans Std.min_le_left ha.2⟩
  rcases Std.min_eq_or (a := a) (b := b) with h | h
  · rw [h]
    exact ha.1
  · rw [h]
    exact hb

theorem within_tune (conn : Connection) (channelMax : UInt16) (frameMax : UInt32) (heartbeat : UInt16) {offer : Session}
    (h : conn.session.Within offer) : (tune conn channelMax frameMax heartbeat).session.Within offer := by
  obtain ⟨hchannel, hframe, hbeat⟩ := h
  refine ⟨?_, ?_, ?_⟩ <;> dsimp only [Connection.session, tune]
  · split
    · rename_i hpos
      exact within_min hchannel hpos
    · exact hchannel
  · split
    · rename_i hpos
      exact within_min hframe hpos
    · exact hframe
  · split
    · rename_i hpos
      exact within_min hbeat hpos.1
    · rename_i hzero
      -- Our own interval is never zero.
      rw [if_neg fun hpos => hzero ⟨hpos, hbeat.1⟩]
      exact hbeat

def session (s : AmqpServer) (c : Nat) : Option Session := (s.connection c).map Connection.session

variable {c c' : Nat} {num : UInt16} {s s' : AmqpServer}

/-! ### What leaves sessions alone -/

theorem session_congr (h : s'.connections = s.connections) : s'.session c = s.session c := by
  rw [session, session, connection, h, connection]

theorem session_of_own (h : s'.own c = s.own c) : s'.session c = s.session c := by
  have hmap : ∀ s : AmqpServer, s.session c = (s.own c).map Connection.session := by
    intro s
    rw [session, own, Option.map_map]
    rfl
  rw [hmap, hmap, h]

theorem session_modifyConnection (f : Connection → Connection) (g : Session → Session)
    (hf : ∀ conn, (f conn).session = g conn.session) :
    (s.modifyConnection c f).session c = (s.session c).map g := by
  rw [session, connection, modifyConnection, Assoc.lookup_modify_self, session, connection, Option.map_map, Option.map_map]
  exact congrArg (fun f => Option.map f (s.connections.lookup c)) (funext hf)

theorem session_modifyConnection_same (c' : Nat) {f : Connection → Connection}
    (hf : ∀ conn, (f conn).session = conn.session) : (s.modifyConnection c' f).session c = s.session c := by
  by_cases h : c = c'
  · subst h
    rw [session_modifyConnection f id hf, Option.map_id, id]
  · rw [session, connection, modifyConnection, Assoc.lookup_modify_of_ne h, session, connection]

theorem session_modifyChannel (c' : Nat) (num : UInt16) (f : Channel → Channel) :
    (s.modifyChannel c' num f).session c = s.session c :=
  session_modifyConnection_same c' fun _ => rfl

theorem session_sendMethodFrame (num classId methodId : UInt16) (args : Bytes) :
    (s.sendMethodFrame c' num classId methodId args).session c = s.session c :=
  session_modifyConnection_same c' fun _ => rfl

theorem session_move {k : Kind} (hm : Move c' k s s') (hk : k ∉ [Kind.handshake, .closeChannel, .server]) :
    s'.session c = s.session c := by
  cases hm with
  | handOver idx => exact session_of_own (own_handOver _ _ _ _)
  | purge name =>
    rw [AmqpServer.purge]
    split <;> exact session_congr rfl
  | store m => exact session_congr (connections_storeMessage ..)
  | oversize m => exact session_congr (connections_storeMessage ..)
  | send out => exact session_modifyConnection_same _ fun _ => rfl
  | note num f => exact session_modifyChannel ..
  | pending num p => exact session_modifyChannel ..
  | handshake f => exact absurd (by decide) hk
  | hold num u => exact (session_modifyChannel ..).trans (session_modifyChannel ..)
  | takeTag num => exact session_modifyChannel ..
  | releaseCredit u => exact session_congr (connections_releaseCredit u)
  | eraseUnacked num tag => exact session_modifyChannel ..
  | clearUnacked num => exact session_modifyChannel ..
  | settle u => exact session_congr (connections_persistAck u)
  | mapConsumer num tag k counter => exact session_modifyChannel ..
  | removeConsumer name tag => exact session_congr (connections_removeConsumer name tag)
  | unmapConsumer num tag => exact session_modifyChannel ..
  | unmapConsumers num => exact session_modifyChannel ..
  | removeConsumersByConnection name => exact session_congr (connections_removeConsumersByConnection name c')
  | openChannel num => exact session_modifyConnection_same _ fun _ => rfl
  | setClosed num => exact absurd (by decide) hk
  | dropChannel num => exact absurd (by decide) hk
  | shut => exact absurd (by decide) hk
  | dropChannels => exact absurd (by decide) hk
  | popTask hc hs => exact session_modifyConnection_same _ fun _ => rfl
  | accept => exact absurd (by decide) hk
  | reorderChannels order => exact absurd (by decide) hk
  | reorderConsumers num order => exact absurd (by decide) hk
  | reorderUnacked num order => exact absurd (by decide) hk
  | _ => exact session_congr rfl

theorem session_does {K : List Kind} (hv : Valid s) (h : Does c' K s s')
    (hK : ∀ k ∈ K, k ∉ [Kind.handshake, .closeChannel, .server]) : s'.session c = s.session c := by
  refine (h.moves hv).keeps (P := fun s' => s'.session c = s.session c) ?_ rfl
  intro k hk s₁ s₂ hm hs
  exact (session_move hm (hK k hk)).trans hs

/-! ### Channels -/

theorem session_closeChannel (hv : Valid s) (num : UInt16) : (s.closeChannel c num).session c' = s.session c' := by
  have hset : Valid (s.modifyChannel c num fun ch => { ch with isOpen := false }) := hv.move (c := c) (.setClosed num)
  exact (session_does hset does_removeAllConsumers (by decide)).trans (session_modifyChannel ..)

theorem session_cleanupChannel (hv : Valid s) : (s.cleanupChannel c num).session c' = s.session c' := by
  rw [cleanupChannel]
  split
  · rfl
  · rw [session_modifyConnection_same c (f := fun conn => { conn with channels := conn.channels.erase num }) fun _ => rfl]
    exact session_closeChannel hv num

theorem session_closeChannels (nums : List UInt16) (hv : Valid s) : (nums.foldl (closeChannel c) s).session c' = s.session c' := by
  induction nums generalizing s with
  | nil => rfl
  | cons num nums ih =>
    have hnext : Valid (s.closeChannel c num) := ((does_closeChannel num).moves hv).valid hv
    exact (ih hnext).trans (session_closeChannel hv num)

theorem session_cleanupAllChannels (hv : Valid s) : (s.cleanupAllChannels c).session c' = s.session c' := by
  rw [cleanupAllChannels]
  split
  · rfl
  · rw [session_modifyConnection_same c (f := fun conn => { conn with channels := ∅ }) fun _ => rfl]
    exact session_closeChannels _ hv

/-! ### The end of a connection -/

theorem session_shutdown (hv : Valid s) : (s.shutdown c).session c = (s.session c).map (·.withState .CLOSED) := by
  rw [shutdown]
  split
  · rename_i hnone
    rw [session, hnone]
    rfl
  · rename_i conn hconn
    split
    · rename_i hclosed
      rw [session, hconn, Option.map_some, Option.map_some, Session.withState, Connection.session, hclosed]
    · have hshut : Valid (s.modifyConnection c fun conn => { conn with state := .CLOSED, reading := false }) :=
        hv.move (c := c) .shut
      have hclean := ((does_cleanupAllChannels (c := c)).moves hshut).valid hshut
      rw [session_does hclean does_removeConnectionQueues (by decide), session_cleanupAllChannels hshut]
      exact session_modifyConnection _ _ fun _ => rfl

theorem session_sendConnectionClose (replyCode : UInt16) (replyText : Bytes) (classId methodId : UInt16) :
    (s.sendConnectionClose c replyCode replyText classId methodId).session c = (s.session c).map Session.closing := by
  rw [sendConnectionClose]
  split
  · rename_i hnone
    rw [session, hnone]
    rfl
  · rename_i conn hconn
    split
    · rename_i hdone
      rw [session, hconn, Option.map_some, Option.map_some, Session.closing]
      exact congrArg some (if_pos hdone).symm
    · rename_i hlive
      rw [session_sendMethodFrame, session_modifyConnection _ (·.withState .CLOSING) fun _ => rfl, session, hconn,
        Option.map_some, Option.map_some, Option.map_some, Session.closing]
      exact congrArg some (if_neg hlive).symm

theorem session_stopReading (replyText : Bytes) :
    (s.stopReading c replyText).session c = (s.session c).map Session.closing := by
  rw [stopReading, session_modifyConnection_same c (f := fun conn => { conn with reading := false }) fun _ => rfl,
    session_sendConnectionClose]

/-! ### The methods of the handshake -/

/-- A Start-Ok with credentials of `user` that the user store accepts. --/
structure StartsAs (u : UserStore) (frame : Frame) (user : Bytes) : Prop where
  method : methodIds frame = some (class_id.CONNECTION, connection_method.START_OK)
  verified : ∃ args rest mechanism pass,
    readMethodIds (Buffer.ofBytes frame.payload) = .ok ((class_id.CONNECTION, connection_method.START_OK), args) ∧
      readStartOk args = .ok (.ok (mechanism, user, pass), rest) ∧ u.verify user pass = true

/-- A Tune-Ok. --/
def Tunes (frame : Frame) : Prop := methodIds frame = some (class_id.CONNECTION, connection_method.TUNE_OK)

/-- An Open for the one virtual host, by its name or by none. --/
structure Opens (frame : Frame) : Prop where
  method : methodIds frame = some (class_id.CONNECTION, connection_method.OPEN)
  virtualHost : ∃ args rest virtualHost,
    readMethodIds (Buffer.ofBytes frame.payload) = .ok ((class_id.CONNECTION, connection_method.OPEN), args) ∧
      readOpen args = .ok (virtualHost, rest) ∧ (virtualHost = ascii "/" ∨ virtualHost = [])

/-- A Start-Ok, a Tune-Ok or an Open. --/
def IsHandshake (frame : Frame) : Prop :=
  methodIds frame = some (class_id.CONNECTION, connection_method.START_OK) ∨
    methodIds frame = some (class_id.CONNECTION, connection_method.TUNE_OK) ∨
      methodIds frame = some (class_id.CONNECTION, connection_method.OPEN)

instance (frame : Frame) : Decidable (IsHandshake frame) :=
  inferInstanceAs (Decidable (_ ∨ _))

def handshakeOf (frame : Frame) : List Frame := if IsHandshake frame then [frame] else []

/-- The method of the handshake that the event has the server process. --/
def processed (c : Nat) (s : AmqpServer) : Event → List Frame
  | .frame c' frame frameEnd => if c' = c ∧ Served c s frame frameEnd then handshakeOf frame else []
  | _ => []

/-- The methods of the handshake that were processed in a run, in their order. --/
def handshakes (c : Nat) (s : AmqpServer) (events : List Event) : List Frame := Prefix.trace handle (processed c) s events

theorem handshakes_concat (events : List Event) (e : Event) :
    handshakes c s (events ++ [e]) = handshakes c s events ++ processed c (s.run events) e :=
  Prefix.trace_concat ..

/-! ### One event -/

/-- The Tune that offers the limits of the session. --/
def tuneFrame (x : Session) : Frame :=
  methodFrame 0 class_id.CONNECTION connection_method.TUNE
    (writeUint16 x.channelMax ++ writeUint32 x.frameMax ++ writeUint16 x.heartbeatInterval)

/-- What an event that has the server process `frames` can do to the session. --/
inductive Advance (c : Nat) (s s' : AmqpServer) (x : Session) : List Frame → Session → Prop
  | stay : Advance c s s' x [] x
  | header (hx : x.state = .AWAITING_PROTOCOL_HEADER) : Advance c s s' x [] (x.withState .AWAITING_START_OK)
  | startOk {frame : Frame} {user : Bytes} (hx : x.state = .AWAITING_START_OK) (hframe : StartsAs s.userStore frame user)
      (hsent : Sends c s s' [.frame (tuneFrame x)]) :
      Advance c s s' x [frame] { x with authUser := user, state := .AWAITING_TUNE_OK }
  | tuneOk {frame : Frame} {y : Session} (hx : x.state = .AWAITING_TUNE_OK) (hframe : Tunes frame)
      (hy : y.state = .AWAITING_OPEN) (huser : y.authUser = x.authUser) (hlimits : ∀ offer, x.Within offer → y.Within offer) :
      Advance c s s' x [frame] y
  | opens {frame : Frame} (hx : x.state = .AWAITING_OPEN) (hframe : Opens frame) :
      Advance c s s' x [frame] (x.withState .OPEN)
  | close {frames : List Frame} : Advance c s s' x frames x.closing
  | shut {frames : List Frame} : Advance c s s' x frames (x.withState .CLOSED)

/-- A handler that throws has not touched the session. --/
def Leads (c : Nat) (s : AmqpServer) (x : Session) (frames : List Frame) : Outcome → Prop
  | .ok s' => ∃ y, s'.session c = some y ∧ Advance c s s' x frames y
  | .error s' => s'.session c = some x

variable {x : Session} {frames : List Frame}

namespace Leads

theorem withArgs {α : Type} {read : Read α} {buf : Buffer} {k : α → AmqpServer} (hx : s.session c = some x)
    (hk : ∀ args rest, read buf = .ok (args, rest) → Leads c s x frames (.ok (k args))) :
    Leads c s x frames (withArgs read buf s k) := by
  rw [AmqpServer.withArgs]
  split
  · exact hx
  · rename_i args rest hread
    exact hk args rest hread

theorem stay {o : Outcome} (hx : s.session c = some x) (h : (outcome o).session c = s.session c) : Leads c s x [] o := by
  cases o with
  | ok s' => exact ⟨x, h.trans hx, .stay⟩
  | error s' => exact h.trans hx

theorem sendConnectionClose (hx : s.session c = some x) (replyCode : UInt16) (replyText : Bytes) (classId methodId : UInt16) :
    Leads c s x frames (.ok (s.sendConnectionClose c replyCode replyText classId methodId)) := by
  refine ⟨x.closing, ?_, .close⟩
  rw [session_sendConnectionClose, hx, Option.map_some]

theorem shutdown (hv : Valid s) (hx : s.session c = some x) : Leads c s x frames (.ok (s.shutdown c)) := by
  refine ⟨x.withState .CLOSED, ?_, .shut⟩
  rw [session_shutdown hv, hx, Option.map_some]

theorem handleStartOk {frame : Frame} {args : Buffer} (hx : s.session c = some x) (htype : frame.type = FRAME_METHOD)
    (hids : readMethodIds (Buffer.ofBytes frame.payload) = .ok ((class_id.CONNECTION, connection_method.START_OK), args)) :
    Leads c s x [frame] (s.handleStartOk c args) := by
  obtain ⟨conn, hconn, rfl⟩ := Option.map_eq_some_iff.mp hx
  rw [AmqpServer.handleStartOk]
  split
  · exact sendConnectionClose hx ..
  · rename_i hstate
    rw [ne_eq, not_not, hconn, Option.map_some, Option.some.injEq] at hstate
    refine withArgs hx fun args rest hread => ?_
    split
    · exact sendConnectionClose hx ..
    · rename_i mechanism user pass
      split
      · rename_i hverify
        have hauth : (s.modifyConnection c fun conn =>
            { conn with authUser := user, state := .AWAITING_TUNE_OK }).connection c =
            some { conn with authUser := user, state := .AWAITING_TUNE_OK } := by
          rw [connection, AmqpServer.modifyConnection, Assoc.lookup_modify_self, ← connection, hconn, Option.map_some]
        have hframe : StartsAs s.userStore frame user := by
          refine ⟨?_, _, rest, mechanism, pass, hids, hread, hverify⟩
          rw [methodIds, if_pos htype, hids]
        rw [sendConnectionTune, hauth]
        refine ⟨{ conn.session with authUser := user, state := .AWAITING_TUNE_OK }, ?_, .startOk hstate hframe ?_⟩
        · rw [session_sendMethodFrame, session, hauth, Option.map_some]
          rfl
        · refine Sends.after ?_ (.sendMethodFrame _ _ _ _)
          exact .modifyConnection fun _ => rfl
      · exact sendConnectionClose hx ..

theorem handleTuneOk {frame : Frame} (args : Buffer) (hx : s.session c = some x) (hframe : Tunes frame) :
    Leads c s x [frame] (s.handleTuneOk c args) := by
  obtain ⟨conn, hconn, rfl⟩ := Option.map_eq_some_iff.mp hx
  rw [AmqpServer.handleTuneOk]
  split
  · exact sendConnectionClose hx ..
  · rename_i hstate
    rw [ne_eq, not_not, hconn, Option.map_some, Option.some.injEq] at hstate
    refine withArgs hx fun args rest hread => ?_
    refine ⟨(tune conn args.1 args.2.1 args.2.2).session, ?_, .tuneOk hstate hframe rfl rfl fun _ h => within_tune _ _ _ _ h⟩
    rw [session, connection]
    simp only [AmqpServer.modifyConnection, Assoc.lookup_modify_self]
    rw [← connection, hconn, Option.map_some, Option.map_some]

theorem handleConnectionOpen {frame : Frame} {args : Buffer} (hx : s.session c = some x) (htype : frame.type = FRAME_METHOD)
    (hids : readMethodIds (Buffer.ofBytes frame.payload) = .ok ((class_id.CONNECTION, connection_method.OPEN), args)) :
    Leads c s x [frame] (s.handleConnectionOpen c args) := by
  rw [AmqpServer.handleConnectionOpen]
  split
  · exact sendConnectionClose hx ..
  · rename_i hstate
    refine withArgs hx fun virtualHost rest hread => ?_
    split
    · exact sendConnectionClose hx ..
    · rename_i hhost
      have hname : virtualHost = ascii "/" ∨ virtualHost = [] := by
        by_contra h
        exact hhost (not_or.mp h)
      have hawait : x.state = .AWAITING_OPEN := by
        obtain ⟨conn, hconn, rfl⟩ := Option.map_eq_some_iff.mp hx
        rw [ne_eq, not_not, hconn, Option.map_some, Option.some.injEq] at hstate
        exact hstate
      refine ⟨x.withState .OPEN, ?_, .opens hawait ⟨?_, _, rest, virtualHost, hids, hread, hname⟩⟩
      · rw [session_sendMethodFrame, session_modifyConnection _ (·.withState .OPEN) fun _ => rfl, hx, Option.map_some]
      · rw [methodIds, if_pos htype, hids]

theorem handleConnectionMethod {frame : Frame} {methodId : UInt16} {args : Buffer} (hv : Valid s) (hx : s.session c = some x)
    (htype : frame.type = FRAME_METHOD)
    (hids : readMethodIds (Buffer.ofBytes frame.payload) = .ok ((class_id.CONNECTION, methodId), args)) :
    Leads c s x (handshakeOf frame) (s.handleConnectionMethod c methodId args) := by
  have hmethod : methodIds frame = some (class_id.CONNECTION, methodId) := by rw [methodIds, if_pos htype, hids]
  rw [AmqpServer.handleConnectionMethod]
  split
  · rename_i hm
    obtain rfl := hm
    rw [handshakeOf, if_pos (.inl hmethod)]
    exact handleStartOk hx htype hids
  · split
    · rename_i hm
      obtain rfl := hm
      rw [handshakeOf, if_pos (.inr (.inl hmethod))]
      exact handleTuneOk args hx hmethod
    · split
      · rename_i hm
        obtain rfl := hm
        rw [handshakeOf, if_pos (.inr (.inr hmethod))]
        exact handleConnectionOpen hx htype hids
      · split
        · refine withArgs hx fun _ _ _ => ?_
          have hsent : Does c [.output] s (s.sendMethodFrame c 0 class_id.CONNECTION connection_method.CLOSE_OK []) :=
            does_sendMethodFrame _ _ _ rfl
          refine ⟨x.withState .CLOSED, ?_, .shut⟩
          rw [session_shutdown ((hsent.moves hv).valid hv), session_sendMethodFrame, hx, Option.map_some]
        · split
          · exact shutdown hv hx
          · exact sendConnectionClose hx ..

theorem handleMethodFrame {frame : Frame} (hv : Valid s) (hx : s.session c = some x) (htype : frame.type = FRAME_METHOD) :
    Leads c s x (handshakeOf frame)
      (s.handleMethodFrame c frame.channel (Buffer.ofBytes frame.payload)) := by
  rw [AmqpServer.handleMethodFrame]
  split
  · exact hx
  · rename_i classId methodId args hids
    split
    · rename_i hclass
      obtain rfl := hclass
      split
      · exact sendConnectionClose hx ..
      · exact handleConnectionMethod hv hx htype hids
    · rename_i hclass
      have hmethod : methodIds frame = some (classId, methodId) := by rw [methodIds, if_pos htype, hids]
      have hnone : ¬IsHandshake frame := by
        rw [IsHandshake, hmethod]
        rintro (h | h | h) <;> exact hclass (Prod.mk.inj (Option.some.inj h)).1
      rw [handshakeOf, if_neg hnone]
      split
      · refine withArgs hx fun _ _ _ => ?_
        split
        · exact ⟨x, hx, .stay⟩
        · split
          · exact sendConnectionClose hx ..
          · refine stay (o := .ok _) hx ?_
            dsimp only [outcome]
            rw [session_sendMethodFrame]
            rename_i hnum
            exact session_move (.openChannel frame.channel (not_or.mp hnum).1) (by decide)
      · split
        · refine withArgs hx fun _ _ _ => stay (o := .ok _) hx ?_
          dsimp only [outcome]
          rw [session_sendMethodFrame, session_cleanupChannel hv]
        · split
          · exact stay (o := .ok _) hx (session_cleanupChannel hv)
          · split
            · exact withArgs hx fun _ _ _ => stay (o := .ok _) hx (session_sendMethodFrame ..)
            · rw [handleOnChannel]
              split
              · exact sendConnectionClose hx ..
              · exact stay hx (session_does hv (does_handleMethod ..) (by decide))

/-- A frame that gets to `handleFrame`. --/
theorem handleFrame {frame : Frame} (hv : Valid s) (hx : s.session c = some x) :
    Leads c s x (handshakeOf frame) (s.handleFrame c frame) := by
  rw [AmqpServer.handleFrame]
  split
  · rename_i hclosing
    have hstay : x.closing = x := by
      obtain ⟨conn, hconn, rfl⟩ := Option.map_eq_some_iff.mp hx
      rw [hconn, Option.map_some, Option.some.injEq] at hclosing
      exact if_pos (.inl hclosing.1)
    rw [handleClosing]
    split
    · exact hx
    · split
      · exact shutdown hv hx
      · refine ⟨x, hx, ?_⟩
        nth_rewrite 2 [← hstay]
        exact .close
  · split
    · rename_i htype
      exact handleMethodFrame hv hx htype
    · rename_i htype
      have hnone : ¬IsHandshake frame := by
        rw [IsHandshake, methodIds, if_neg htype]
        rintro (h | h | h) <;> cases h
      have hsame : ∀ {s' : AmqpServer}, Does c (.oversize :: contentKinds) s s' → s'.session c = s.session c :=
        fun h => session_does hv h (by decide)
      rw [handshakeOf, if_neg hnone]
      split
      · split
        · exact ⟨x, hx, .stay⟩
        · exact stay hx (hsame (does_handleContentHeader (by decide) (.inl List.mem_cons_self)))
      · split
        · split
          · exact ⟨x, hx, .stay⟩
          · exact stay (o := .ok _) hx (hsame (does_handleContentBody (by decide) (.inl List.mem_cons_self)))
        · split
          · exact ⟨x, hx, .stay⟩
          · exact sendConnectionClose hx ..

end Leads

theorem advance_frame (hv : Valid s) (hx : s.session c = some x) (frame : Frame) (frameEnd : UInt8) :
    ∃ y, (s.handle (.frame c frame frameEnd)).session c = some y ∧
      Advance c s (s.handle (.frame c frame frameEnd)) x (processed c s (.frame c frame frameEnd)) y := by
  have hstop : ∀ {frames : List Frame} {s₁ : AmqpServer} (text : Bytes), s₁.session c = some x →
      ∃ y, (s₁.stopReading c text).session c = some y ∧ Advance c s (s₁.stopReading c text) x frames y := by
    intro frames s₁ text h₁
    refine ⟨x.closing, ?_, .close⟩
    rw [session_stopReading, h₁, Option.map_some]
  rcases handle_frame_cases c s frame frameEnd with ⟨hserved, heq | ⟨text, heq⟩⟩ | ⟨hserved, hframe⟩
  · rw [heq, processed, if_neg fun h => hserved h.2]
    exact ⟨x, hx, .stay⟩
  · rw [heq]
    exact hstop text hx
  · have hleads : Leads c s x (handshakeOf frame) (s.handleFrame c frame) := .handleFrame hv hx
    rw [processed, if_pos ⟨rfl, hserved⟩]
    rcases hframe with hok | ⟨s', text, herror, heq⟩
    · rw [hok] at hleads
      exact hleads
    · rw [herror] at hleads
      rw [heq]
      exact hstop text hleads

/-- Every event but a restart moves the session along one of the steps. --/
theorem advance_handle (hv : Valid s) (hx : s.session c = some x) {e : Event} (he : e ≠ .restart) :
    ∃ y, (s.handle e).session c = some y ∧ Advance c s (s.handle e) x (processed c s e) y := by
  by_cases hc : e.connection? = some c
  · cases e with
    | frame c' frame frameEnd =>
      obtain rfl := Option.some.inj hc
      exact advance_frame hv hx frame frameEnd
    | protocolHeader c' header =>
      obtain rfl := Option.some.inj hc
      obtain ⟨conn, hconn, rfl⟩ := Option.map_eq_some_iff.mp hx
      rw [handle, hconn]
      dsimp only
      split
      · rename_i hstate
        rw [receiveProtocolHeader]
        split
        · refine ⟨conn.session.withState .AWAITING_START_OK, ?_, .header hstate.2⟩
          rw [sendConnectionStart, session_sendMethodFrame,
            session_modifyConnection _ (·.withState .AWAITING_START_OK) fun _ => rfl, hx, Option.map_some]
        · have hsend : Valid (s.send c' .protocolHeader) := hv.move (c := c') (.send _)
          refine ⟨conn.session.withState .CLOSED, ?_, .shut⟩
          rw [session_shutdown hsend, send, session_modifyConnection_same, hx, Option.map_some]
          exact fun _ => rfl
      · exact ⟨_, hx, .stay⟩
    | runTask c' =>
      obtain rfl := Option.some.inj hc
      exact ⟨x, (session_does hv does_runTask (by decide)).trans hx, .stay⟩
    | disconnect c' =>
      obtain rfl := Option.some.inj hc
      refine ⟨x.withState .CLOSED, ?_, .shut⟩
      rw [handle, session_shutdown hv, hx, Option.map_some]
    | reorderChannels c' order =>
      obtain rfl := Option.some.inj hc
      refine ⟨x, ?_, .stay⟩
      rw [handle, session_modifyConnection_same, hx]
      exact fun _ => rfl
    | reorderConsumers c' num order =>
      obtain rfl := Option.some.inj hc
      exact ⟨x, (session_modifyChannel ..).trans hx, .stay⟩
    | reorderUnacked c' num order =>
      obtain rfl := Option.some.inj hc
      exact ⟨x, (session_modifyChannel ..).trans hx, .stay⟩
    | _ => cases hc
  · have hnone : processed c s e = [] := by
      cases e with
      | frame c' frame frameEnd => exact if_neg fun h => hc (congrArg some h.1)
      | _ => rfl
    obtain ⟨conn, hconn, -⟩ := Option.map_eq_some_iff.mp hx
    rw [hnone]
    exact ⟨x, (session_of_own (own_handle_of_ne hv hconn he hc)).trans hx, .stay⟩

theorem userStore_move {k : Kind} (hm : Move c k s s') : s'.userStore = s.userStore := by
  have hstore : ∀ (s : AmqpServer) (name : Bytes) (r : Ref), (s.storeMessage name r).userStore = s.userStore := by
    intro s name r
    rw [storeMessage]
    split <;> rfl
  have hcredit : ∀ u, (s.releaseCredit u).userStore = s.userStore := by
    intro u
    rw [releaseCredit]
    split <;> rfl
  cases hm with
  | handOver idx =>
    rw [handOver, onDeliver]
    split <;> split <;> rfl
  | purge name =>
    rw [AmqpServer.purge]
    split <;> rfl
  | store m => exact hstore ..
  | oversize m => exact hstore ..
  | releaseCredit u => exact hcredit u
  | settle u =>
    rw [persistAck]
    split
    · exact hcredit u
    · split <;> exact hcredit u
  | removeConsumer name tag =>
    rw [AmqpServer.removeConsumer]
    split
    · rfl
    · split <;> rfl
  | removeConsumersByConnection name =>
    rw [AmqpServer.removeConsumersByConnection]
    split
    · rfl
    · exact List.foldlRecOn (motive := fun s' : AmqpServer => s'.userStore = s.userStore) _ _ rfl fun _ h _ _ => h
  | _ => rfl

theorem userStore_handle (hv : Valid s) {e : Event} (he : e ≠ .restart) : (s.handle e).userStore = s.userStore := by
  obtain ⟨c, hactor, -⟩ := exists_actor e 0
  have hdoes : Does c (.oversize :: allKinds) s (s.handle e) :=
    does_handle hactor he (fun _ => List.mem_cons_of_mem _) (.inl List.mem_cons_self)
  refine (hdoes.moves hv).keeps (P := fun s' : AmqpServer => s'.userStore = s.userStore) ?_ rfl
  exact fun _ _ _ _ hm h => (userStore_move hm).trans h

/-! ### Runs -/

/-- What has been processed when a connection is in its state. --/
def Progress (u : UserStore) (x : Session) (frames : List Frame) : Prop :=
  match x.state with
  | .AWAITING_PROTOCOL_HEADER => frames = []
  | .AWAITING_START_OK => frames = []
  | .AWAITING_TUNE_OK => ∃ startOk, frames = [startOk] ∧ StartsAs u startOk x.authUser
  | .AWAITING_OPEN => ∃ startOk tuneOk, frames = [startOk, tuneOk] ∧ StartsAs u startOk x.authUser ∧ Tunes tuneOk
  | .OPEN =>
    ∃ startOk tuneOk opens, frames = [startOk, tuneOk, opens] ∧ StartsAs u startOk x.authUser ∧ Tunes tuneOk ∧ Opens opens
  | .CLOSING => True
  | .CLOSED => True

/-- The limits are the offered ones until the client has answered the Tune. --/
structure Negotiates (offer x : Session) : Prop where
  within : x.Within offer
  offered : x.state.rank < 3 → tuneFrame x = tuneFrame offer

theorem Advance.rank_le {y : Session} (h : Advance c s s' x frames y) : x.state.rank ≤ y.state.rank := by
  cases h with
  | stay => exact le_rfl
  | header hx => simp [hx, State.rank, Session.withState]
  | startOk hx => simp [hx, State.rank]
  | tuneOk hx _ hy => simp [hx, hy, State.rank]
  | opens hx => simp [hx, State.rank, Session.withState]
  | close =>
    rw [Session.closing]
    split
    · exact le_rfl
    · cases hst : x.state <;> simp_all [State.rank, Session.withState]
  | shut => cases hst : x.state <;> simp [State.rank, Session.withState]

theorem Progress.advance {u : UserStore} {y : Session} {before : List Frame} (hu : s.userStore = u)
    (h : Progress u x before) (hy : Advance c s s' x frames y) : Progress u y (before ++ frames) := by
  subst hu
  cases hy with
  | stay => rwa [List.append_nil]
  | header hx =>
    rw [Progress, hx] at h
    rw [List.append_nil]
    exact h
  | startOk hx hframe =>
    rw [Progress, hx] at h
    subst h
    exact ⟨_, rfl, hframe⟩
  | tuneOk hx hframe hstate huser =>
    rw [Progress, hx] at h
    obtain ⟨startOk, rfl, hstart⟩ := h
    rw [Progress, hstate]
    exact ⟨startOk, _, rfl, huser ▸ hstart, hframe⟩
  | opens hx hframe =>
    rw [Progress, hx] at h
    obtain ⟨startOk, tuneOk, rfl, hstart, htune⟩ := h
    exact ⟨startOk, tuneOk, _, rfl, hstart, htune, hframe⟩
  | close =>
    rw [Session.closing]
    split
    · rename_i hx
      rcases hx with hx | hx <;> rw [Progress, hx] <;> trivial
    · trivial
  | shut => trivial

theorem Negotiates.advance {offer y : Session} (h : Negotiates offer x) (hy : Advance c s s' x frames y) :
    Negotiates offer y := by
  have hwithin : ∀ state user, ({ x with state := state, authUser := user } : Session).Within offer :=
    fun _ _ => ⟨h.within.channelMax, h.within.frameMax, h.within.heartbeatInterval⟩
  have hlate : ∀ {y : Session}, y.Within offer → 3 ≤ y.state.rank → Negotiates offer y :=
    fun hy hrank => ⟨hy, fun hlt => absurd hlt (not_lt.mpr hrank)⟩
  cases hy with
  | stay => exact h
  | header hx => exact ⟨hwithin _ _, fun _ => h.offered (by rw [hx]; decide)⟩
  | startOk hx => exact ⟨hwithin _ _, fun _ => h.offered (by rw [hx]; decide)⟩
  | tuneOk hx _ hy _ hlimits => exact hlate (hlimits offer h.within) (by rw [hy]; decide)
  | opens hx => exact hlate (hwithin _ _) (Nat.le_succ 3)
  | close =>
    rw [Session.closing]
    split
    · exact h
    · exact hlate (hwithin _ _) (show 3 ≤ 5 by decide)
  | shut => exact hlate (hwithin _ _) (show 3 ≤ 6 by decide)

section Runs

variable {store : Option MessageStore} {userStore : UserStore} {clock : Nat → Int} {readings : Nat}

/-- What a connection is made with, and offers in its Tune. --/
def offered : Session := ({} : Connection).session

theorem session_accept : s.accept.session s.nextConnectionId = some offered := by
  rw [session, connection, accept]
  exact congrArg (Option.map Connection.session) (Assoc.lookup_insert_self ..)

/-- The handshake of a connection, from when it is accepted to the end of the process. --/
structure Orderly (u : UserStore) (s₀ : AmqpServer) (c : Nat) (events : List Event) (x : Session) : Prop where
  valid : Valid (s₀.run events)
  userStore : (s₀.run events).userStore = u
  session : (s₀.run events).session c = some x
  progress : Progress u x (handshakes c s₀ events)
  limits : Negotiates offered x

theorem Orderly.concat {u : UserStore} {s₀ : AmqpServer} {events : List Event} {e : Event} (h : Orderly u s₀ c events x)
    (he : e ≠ .restart) :
    ∃ y, Orderly u s₀ c (events ++ [e]) y ∧
      Advance c (s₀.run events) (s₀.run (events ++ [e])) x (processed c (s₀.run events) e) y := by
  obtain ⟨y, hy, hstep⟩ := advance_handle h.valid h.session he
  rw [run_concat]
  refine ⟨y, ⟨?_, ?_, ?_, ?_, h.limits.advance hstep⟩, hstep⟩
  · rw [run_concat]
    exact valid_handle h.valid e
  · rw [run_concat, userStore_handle h.valid he]
    exact h.userStore
  · rw [run_concat]
    exact hy
  · rw [handshakes_concat]
    exact h.progress.advance h.userStore hstep

theorem orderly_accept (hv : Valid s) : Orderly s.userStore s.accept s.nextConnectionId [] offered := by
  refine ⟨valid_handle hv .accept, rfl, session_accept, rfl, ⟨?_, fun _ => rfl⟩⟩
  exact ⟨by decide, by decide, by decide⟩

/-- In every run the session is there, and each prefix has got no further than the whole. --/
theorem exists_orderly {u : UserStore} {s₀ : AmqpServer} (h : Orderly u s₀ c [] x) (events : List Event)
    (hrestart : .restart ∉ events) :
    ∃ y, Orderly u s₀ c events y ∧ ∀ before after, events = before ++ after →
      ∃ z, (s₀.run before).session c = some z ∧ z.state.rank ≤ y.state.rank := by
  induction events using List.reverseRecOn with
  | nil =>
    refine ⟨x, h, fun before after heq => ⟨x, ?_, le_rfl⟩⟩
    obtain ⟨rfl, -⟩ := List.append_eq_nil_iff.mp heq.symm
    exact h.session
  | append_singleton events e ih =>
    rw [List.mem_append, List.mem_singleton, not_or] at hrestart
    obtain ⟨y, hy, hbefore⟩ := ih hrestart.1
    obtain ⟨z, hz, hstep⟩ := hy.concat (Ne.symm hrestart.2)
    refine ⟨z, hz, fun before after heq => ?_⟩
    rcases List.eq_nil_or_concat' after with rfl | ⟨after, a, rfl⟩
    · rw [List.append_nil] at heq
      subst heq
      exact ⟨z, hz.session, le_rfl⟩
    · rw [← List.append_assoc] at heq
      obtain ⟨w, hw, hle⟩ := hbefore before after (List.append_inj_left' heq rfl)
      exact ⟨w, hw, hle.trans hstep.rank_le⟩

/-- The handshake of a connection, in every run from when it is accepted to the end of the process: it only moves
    forward, it is open only after one accepted Start-Ok, one Tune-Ok and one Open, and what it has negotiated is not
    zero and not more than what the Tune offered. --/
theorem handshake_in_order {pre events : List Event} (hrestart : .restart ∉ events) :
    let s := (start store userStore clock readings).run pre
    let c := s.nextConnectionId
    ∃ x, (s.accept.run events).session c = some x ∧
      (∀ before after, events = before ++ after →
        ∃ y, (s.accept.run before).session c = some y ∧ y.state.rank ≤ x.state.rank) ∧
      (x.state = .OPEN → ∃ startOk tuneOk opens, handshakes c s.accept events = [startOk, tuneOk, opens] ∧
        StartsAs s.userStore startOk x.authUser ∧ Tunes tuneOk ∧ Opens opens) ∧
      x.Within offered ∧
      ∀ before e after y z, events = before ++ e :: after → (s.accept.run before).session c = some y →
        (s.accept.run (before ++ [e])).session c = some z → y.state = .AWAITING_START_OK → z.state = .AWAITING_TUNE_OK →
        Sends c (s.accept.run before) (s.accept.run (before ++ [e])) [.frame (tuneFrame offered)] := by
  intro s c
  have hstart : Orderly s.userStore s.accept c [] offered := orderly_accept (valid_run valid_start pre)
  obtain ⟨x, hx, hforward⟩ := exists_orderly hstart events hrestart
  refine ⟨x, hx.session, hforward, fun hopen => ?_, hx.limits.within, ?_⟩
  · have hprogress := hx.progress
    rwa [Progress, hopen] at hprogress
  · rintro before e after y z rfl hy hz hfrom hto
    rw [List.mem_append, List.mem_cons, not_or, not_or] at hrestart
    obtain ⟨y', hy', -⟩ := exists_orderly hstart before hrestart.1
    obtain rfl := Option.some.inj (hy'.session.symm.trans hy)
    obtain ⟨z', hz', hstep⟩ := hy'.concat (Ne.symm hrestart.2.1)
    obtain rfl := Option.some.inj (hz'.session.symm.trans hz)
    have hoffer : tuneFrame y' = tuneFrame offered := hy'.limits.offered (by rw [hfrom]; decide)
    -- Only an accepted Start-Ok leads from the one state to the other.
    generalize processed c (s.accept.run before) e = frames at hstep
    cases hstep with
    | stay => rw [hfrom] at hto; cases hto
    | header h => rw [hfrom] at h; cases h
    | startOk _ _ hsent => rwa [hoffer] at hsent
    | tuneOk h => rw [hfrom] at h; cases h
    | opens h => rw [hfrom] at h; cases h
    | close =>
      rw [Session.closing, if_neg (by rw [hfrom]; decide)] at hto
      cases hto
    | shut => cases hto

/-- The handshake of the client library. --/
theorem handshake_of_client :
    ∃ x, (freshServer.accept.run (Client.connect 1).tail).session 1 = some x ∧ x.state = .OPEN ∧
      x.authUser = ascii "guest" ∧ x.Within offered := by
  obtain ⟨x, hx, -, -, hlimits, -⟩ := @handshake_in_order (some {}) {} (fun _ => 0) 0 [] (Client.connect 1).tail
    (by simp [Client.connect, Client.startOk, Client.tuneOk, Client.openConnection, Client.sendMethod])
  have hopen : (freshServer.accept.run (Client.connect 1).tail).session 1 =
      some { offered with state := .OPEN, authUser := ascii "guest" } := by decide +kernel
  have heq : x = { offered with state := .OPEN, authUser := ascii "guest" } :=
    Option.some.inj (Eq.trans (Eq.symm hx) hopen)
  exact ⟨x, hx, by rw [heq], by rw [heq], hlimits⟩

end Runs

end AmqpServer
end Broko.Broker
