import Broko.Theorems.Connections
import Broko.Theorems.Handshake

/-! The broker's side of the handshake of a connection that has no channels yet: what each frame does to what the client
    gets to see of it. -/

namespace Broko.Broker
open Amqp Storage MessageStore

namespace Session

/-- Once the client is known. --/
def knownAs (x : Session) (user : Bytes) : Session := { x with authUser := user, state := .AWAITING_TUNE_OK }

/-- Once the client has answered the Tune. --/
def agreed (x : Session) (channelMax : UInt16) (frameMax : UInt32) (heartbeat : UInt16) : Session :=
  { x with
    channelMax := if 0 < channelMax then min x.channelMax channelMax else x.channelMax
    frameMax := if 0 < frameMax then min x.frameMax frameMax else x.frameMax
    heartbeatInterval :=
      if 0 < heartbeat ∧ 0 < x.heartbeatInterval then min x.heartbeatInterval heartbeat
      else if 0 < heartbeat then heartbeat
      else x.heartbeatInterval
    state := .AWAITING_OPEN }

end Session

/-- What a client without channels gets to see of its connection. --/
structure Face where
  session : Session
  reading : Bool
  sent : List Outgoing
  channels : Assoc UInt16 Channel

def Connection.face (conn : Connection) : Face :=
  { session := conn.session, reading := conn.reading, sent := conn.sent, channels := conn.channels }

namespace AmqpServer

variable {c c' : Nat} {s s' : AmqpServer} {conn : Connection} {x : Session} {outs : List Outgoing}

def face (s : AmqpServer) (c : Nat) : Option Face := (s.connection c).map Connection.face

/-! ### What the handlers of the handshake do to a connection without channels -/

theorem face_of_own (h : s'.own c = s.own c) : s'.face c = s.face c := by
  have hmap : ∀ s : AmqpServer, s.face c = (s.own c).map Connection.face := by
    intro s
    rw [face, own, Option.map_map]
    rfl
  rw [hmap, hmap, h]

theorem face_modifyConnection {f : Connection → Connection} {g : Face → Face} (hf : ∀ conn, (f conn).face = g conn.face) :
    (s.modifyConnection c f).face c = (s.face c).map g := by
  rw [face, connection, modifyConnection, Assoc.lookup_modify_self, face, connection, Option.map_map, Option.map_map]
  exact congrArg (fun f => Option.map f (s.connections.lookup c)) (funext hf)

theorem face_send (h : s.face c = some ⟨x, reading, outs, chs⟩) (out : Outgoing) :
    (s.send c out).face c = some ⟨x, reading, outs ++ [out], chs⟩ := by
  rw [send, face_modifyConnection (g := fun y => { y with sent := y.sent ++ [out] }) fun _ => rfl, h]
  rfl

theorem face_sendMethodFrame (h : s.face c = some ⟨x, reading, outs, chs⟩) (num classId methodId : UInt16) (args : Bytes) :
    (s.sendMethodFrame c num classId methodId args).face c =
      some ⟨x, reading, outs ++ [.frame (methodFrame num classId methodId args)], chs⟩ :=
  face_send h _

/-- A step of the handshake. --/
theorem face_session (h : s.face c = some ⟨x, reading, outs, chs⟩) {f : Connection → Connection} {g : Session → Session}
    (hf : ∀ conn, (f conn).face = { conn.face with session := g conn.face.session }) :
    (s.modifyConnection c f).face c = some ⟨g x, reading, outs, chs⟩ := by
  rw [face_modifyConnection (g := fun y => { y with session := g y.session }) hf, h]
  rfl

theorem face_sendConnectionClose (h : s.face c = some ⟨x, reading, outs, chs⟩)
    (hlive : ¬(x.state = .CLOSING ∨ x.state = .CLOSED)) (replyCode : UInt16) (replyText : Bytes) (classId methodId : UInt16) :
    (s.sendConnectionClose c replyCode replyText classId methodId).face c =
      some ⟨x.withState .CLOSING, reading, outs ++ [.frame (methodFrame 0 class_id.CONNECTION connection_method.CLOSE
        (writeUint16 replyCode ++ writeShortString replyText ++ writeUint16 classId ++ writeUint16 methodId))], chs⟩ := by
  obtain ⟨conn, hconn, hface⟩ := Option.map_eq_some_iff.mp h
  have hstate : conn.state = x.state := congrArg (fun y => y.session.state) hface
  rw [sendConnectionClose, hconn]
  dsimp only
  rw [hstate, if_neg hlive]
  exact face_sendMethodFrame (face_session h (g := (·.withState .CLOSING)) fun _ => rfl) ..

theorem connections_removeConnectionQueues : (s.removeConnectionQueues c').connections = s.connections := by
  have hfold : ∀ {α : Type} (f : AmqpServer → α → AmqpServer) (l : List α) (s : AmqpServer),
      (∀ s a, (f s a).connections = s.connections) → (l.foldl f s).connections = s.connections := by
    intro α f l s hf
    exact List.foldlRecOn (motive := fun s' : AmqpServer => s'.connections = s.connections) l _ rfl
      fun s' hs' a _ => (hf s' a).trans hs'
  rw [removeConnectionQueues]
  dsimp only
  rw [hfold, hfold, hfold]
  · exact fun s name => connections_removeConsumersByConnection name c'
  · exact fun _ _ => rfl
  · exact fun _ _ => rfl

/-- The end of a connection without channels. --/
theorem face_shutdown (h : s.face c = some ⟨x, true, outs, ∅⟩) (hlive : x.state ≠ .CLOSED) :
    (s.shutdown c).face c = some ⟨x.withState .CLOSED, false, outs, ∅⟩ := by
  obtain ⟨conn, hconn, hface⟩ := Option.map_eq_some_iff.mp h
  have hstate : conn.state = x.state := congrArg (fun y => y.session.state) hface
  have hchannels : conn.channels = ∅ := congrArg Face.channels hface
  obtain rfl : conn.session = x := congrArg Face.session hface
  obtain rfl : conn.sent = outs := congrArg Face.sent hface
  have hshut : (s.modifyConnection c fun conn => { conn with state := .CLOSED, reading := false }).connection c =
      some { conn with state := .CLOSED, reading := false } := by
    rw [connection, modifyConnection, Assoc.lookup_modify_self, ← connection, hconn]
    rfl
  rw [shutdown, hconn]
  dsimp only
  rw [if_neg (hstate.trans_ne hlive), face, connection, connections_removeConnectionQueues, ← connection, ← face,
    cleanupAllChannels, hshut]
  dsimp only
  rw [hchannels, show (∅ : Assoc UInt16 Channel).keys = [] from rfl, List.foldl_nil, face, connection, modifyConnection,
    Assoc.lookup_modify_self, ← connection, hshut]
  rfl

/-- A frame of the connection class that comes on channel 0, and is not too long. --/
theorem handle_connectionFrame (h : s.face c = some ⟨x, true, outs, chs⟩) (hstate : x.state ≠ .AWAITING_PROTOCOL_HEADER)
    {methodId : UInt16} {args : Bytes} (hlen : 4 + args.length ≤ x.frameMax.toNat)
    (hhandle : s.handleFrame c (methodFrame 0 class_id.CONNECTION methodId args) = .ok s') :
    s.handle (.frame c (methodFrame 0 class_id.CONNECTION methodId args) FRAME_END) = s' := by
  obtain ⟨conn, hconn, hface⟩ := Option.map_eq_some_iff.mp h
  obtain rfl : conn.session = x := congrArg Face.session hface
  have hpayload : (methodFrame 0 class_id.CONNECTION methodId args).payload.length = 4 + args.length := by
    rw [methodFrame, List.length_append, List.length_append, writeUint16, writeUint16, BigEndian.length_encode,
      BigEndian.length_encode]
  have hmax : 4 + args.length ≤ if 0 < conn.frameMax then conn.frameMax.toNat else HARD_FRAME_MAX := by
    split
    · exact hlen
    · rename_i hzero
      have hpos : (0 : UInt32).toNat < conn.frameMax.toNat := lt_of_lt_of_le (by simp) hlen
      exact absurd (UInt32.lt_iff_toNat_lt.mpr hpos) hzero
  rw [handle, hconn]
  dsimp only
  rw [if_pos ⟨congrArg Face.reading hface, hstate⟩, receiveFrame, if_neg (Nat.not_lt.mpr (hpayload ▸ hmax)),
    if_neg (not_not_intro rfl), hhandle]

theorem reads_methodIds (classId methodId : UInt16) :
    Reader.Reads readMethodIds (writeUint16 classId ++ writeUint16 methodId) (classId, methodId) :=
  (reads_uint16 classId).bind (reads_uint16 methodId).map

/-- A method of the connection class, on a connection that is not closing. --/
theorem handle_connectionMethod (h : s.face c = some ⟨x, true, outs, chs⟩)
    (hstate : x.state ≠ .AWAITING_PROTOCOL_HEADER ∧ x.state ≠ .CLOSING) {methodId : UInt16} {args : Bytes}
    (hlen : 4 + args.length ≤ x.frameMax.toNat)
    (hhandle : ∀ pos, s.handleConnectionMethod c methodId ⟨pos, args⟩ = .ok s') :
    s.handle (.frame c (methodFrame 0 class_id.CONNECTION methodId args) FRAME_END) = s' := by
  have htype : (methodFrame 0 class_id.CONNECTION methodId args).type = FRAME_METHOD := rfl
  have hopen : ¬((s.connection c).map Connection.state = some .CLOSING ∧ FRAME_METHOD = FRAME_METHOD) := by
    obtain ⟨conn, hconn, hface⟩ := Option.map_eq_some_iff.mp h
    have hsame : conn.state = x.state := congrArg (fun y => y.session.state) hface
    rintro ⟨hclosing, -⟩
    rw [hconn, Option.map_some, hsame] at hclosing
    exact hstate.2 (Option.some.inj hclosing)
  refine handle_connectionFrame h hstate.1 hlen ?_
  rw [handleFrame, htype, if_neg hopen, if_pos rfl, handleMethodFrame, methodFrame, Buffer.ofBytes,
    reads_methodIds class_id.CONNECTION methodId]
  dsimp only
  rw [if_pos rfl, if_neg (not_not_intro rfl), hhandle]

/-- Close-Ok, on a connection that is closing. --/
theorem handle_closeOk (h : s.face c = some ⟨x, true, outs, chs⟩) (hstate : x.state = .CLOSING)
    (hlen : 4 ≤ x.frameMax.toNat) :
    s.handle (.frame c (methodFrame 0 class_id.CONNECTION connection_method.CLOSE_OK []) FRAME_END) = s.shutdown c := by
  have htype : (methodFrame 0 class_id.CONNECTION connection_method.CLOSE_OK []).type = FRAME_METHOD := rfl
  have hclosing : (s.connection c).map Connection.state = some .CLOSING ∧ FRAME_METHOD = FRAME_METHOD := by
    obtain ⟨conn, hconn, hface⟩ := Option.map_eq_some_iff.mp h
    rw [hconn, Option.map_some, ← hstate]
    exact ⟨congrArg (fun y => some y.session.state) hface, rfl⟩
  refine handle_connectionFrame h (by rw [hstate]; decide) hlen ?_
  rw [handleFrame, htype, if_pos hclosing, handleClosing, methodFrame, Buffer.ofBytes,
    reads_methodIds class_id.CONNECTION connection_method.CLOSE_OK]
  dsimp only
  rw [if_pos ⟨rfl, rfl⟩]

/-! ### What each frame does -/

def startArgs : Bytes :=
  writeUint8 0 ++ writeUint8 9 ++ writeFieldTable serverProps ++ writeLongString (ascii "PLAIN AMQPLAIN") ++
    writeLongString (ascii "en_US")

def tuneArgs (channelMax : UInt16) (frameMax : UInt32) (heartbeat : UInt16) : Bytes :=
  writeUint16 channelMax ++ writeUint32 frameMax ++ writeUint16 heartbeat

def closeArgs (replyCode : UInt16) (replyText : Bytes) (methodId : UInt16) : Bytes :=
  writeUint16 replyCode ++ writeShortString replyText ++ writeUint16 class_id.CONNECTION ++ writeUint16 methodId

def connectionFrame (methodId : UInt16) (args : Bytes) : Frame := methodFrame 0 class_id.CONNECTION methodId args

def refusedLogin (mechanism : Bytes) : Bytes :=
  ascii "ACCESS_REFUSED - Login was refused using authentication mechanism " ++ mechanism

def unknownVhost (virtualHost : Bytes) : Bytes := ascii "Unknown vhost: " ++ virtualHost

theorem state_of_face (h : s.face c = some ⟨x, reading, outs, chs⟩) :
    (s.connection c).map Connection.state = some x.state := by
  obtain ⟨conn, hconn, hface⟩ := Option.map_eq_some_iff.mp h
  rw [hconn]
  exact congrArg (fun y => some y.session.state) hface

theorem withArgs_of_reads {α : Type} {read : Read α} {args : Bytes} {a : α} (h : Reader.Reads read args a) (pos : Nat)
    (k : α → AmqpServer) : withArgs read ⟨pos, args⟩ s k = .ok (k a) := by
  have hread := h pos []
  rw [List.append_nil] at hread
  rw [withArgs, hread]

theorem handle_protocolHeader (h : s.face c = some ⟨x, true, outs, chs⟩) (hstate : x.state = .AWAITING_PROTOCOL_HEADER) :
    (s.handle (.protocolHeader c PROTOCOL_HEADER)).face c =
      some ⟨x.withState .AWAITING_START_OK, true, outs ++ [.frame (connectionFrame connection_method.START startArgs)], chs⟩ := by
  obtain ⟨conn, hconn, hface⟩ := Option.map_eq_some_iff.mp h
  have hsame : conn.state = x.state := congrArg (fun y => y.session.state) hface
  rw [handle, hconn]
  dsimp only
  rw [if_pos ⟨congrArg Face.reading hface, hsame.trans hstate⟩, receiveProtocolHeader, if_pos rfl]
  exact face_sendMethodFrame (face_session h (g := (·.withState .AWAITING_START_OK)) fun _ => rfl) ..

theorem handle_startOk (h : s.face c = some ⟨x, true, outs, chs⟩) (hstate : x.state = .AWAITING_START_OK) {args : Bytes}
    (hlen : 4 + args.length ≤ x.frameMax.toNat) {mechanism user pass : Bytes}
    (hread : Reader.Reads readStartOk args (.ok (mechanism, user, pass))) :
    (s.handle (.frame c (connectionFrame connection_method.START_OK args) FRAME_END)).face c =
      if s.userStore.verify user pass then
        some ⟨x.knownAs user, true,
          outs ++ [.frame (connectionFrame connection_method.TUNE (tuneArgs x.channelMax x.frameMax x.heartbeatInterval))], chs⟩
      else
        some ⟨x.withState .CLOSING, true,
          outs ++ [.frame (connectionFrame connection_method.CLOSE (closeArgs reply_code.ACCESS_REFUSED
            (refusedLogin mechanism) connection_method.START_OK))], chs⟩ := by
  have hopen : x.state ≠ .AWAITING_PROTOCOL_HEADER ∧ x.state ≠ .CLOSING := by
    rw [hstate]
    decide
  have hwaits : ¬(s.connection c).map Connection.state ≠ some .AWAITING_START_OK := by
    rw [state_of_face h, hstate, ne_eq, not_not]
  rw [connectionFrame, handle_connectionMethod h hopen hlen fun pos => by
    rw [handleConnectionMethod, if_pos rfl, handleStartOk, if_neg hwaits, withArgs_of_reads hread]]
  dsimp only
  split
  · rename_i hverify
    have hnext : (s.modifyConnection c fun conn => { conn with authUser := user, state := .AWAITING_TUNE_OK }).face c =
        some ⟨x.knownAs user, true, outs, chs⟩ := face_session h (g := (·.knownAs user)) fun _ => rfl
    obtain ⟨conn, hconn, hface⟩ := Option.map_eq_some_iff.mp hnext
    have hsession : conn.session = x.knownAs user := congrArg Face.session hface
    rw [sendConnectionTune, hconn]
    dsimp only
    rw [show conn.channelMax = x.channelMax from congrArg Session.channelMax hsession,
      show conn.frameMax = x.frameMax from congrArg Session.frameMax hsession,
      show conn.heartbeatInterval = x.heartbeatInterval from congrArg Session.heartbeatInterval hsession]
    exact face_sendMethodFrame hnext ..
  · exact face_sendConnectionClose h (by rw [hstate]; decide) ..

theorem handle_tuneOk (h : s.face c = some ⟨x, true, outs, chs⟩) (hstate : x.state = .AWAITING_TUNE_OK)
    (hlen : 12 ≤ x.frameMax.toNat) (channelMax : UInt16) (frameMax : UInt32) (heartbeat : UInt16) :
    (s.handle (.frame c (connectionFrame connection_method.TUNE_OK (tuneArgs channelMax frameMax heartbeat)) FRAME_END)).face c =
      some ⟨x.agreed channelMax frameMax heartbeat, true, outs, chs⟩ := by
  have hopen : x.state ≠ .AWAITING_PROTOCOL_HEADER ∧ x.state ≠ .CLOSING := by
    rw [hstate]
    decide
  have hwaits : ¬(s.connection c).map Connection.state ≠ some .AWAITING_TUNE_OK := by
    rw [state_of_face h, hstate, ne_eq, not_not]
  have hread : Reader.Reads (do
      let channelMax ← readUint16
      let frameMax ← readUint32
      let heartbeat ← readUint16
      return (channelMax, frameMax, heartbeat)) (tuneArgs channelMax frameMax heartbeat) (channelMax, frameMax, heartbeat) := by
    rw [tuneArgs, List.append_assoc]
    refine (reads_uint16 channelMax).bind ?_
    exact (reads_uint32 frameMax).bind (reads_uint16 heartbeat).map
  have hargs : 4 + (tuneArgs channelMax frameMax heartbeat).length ≤ x.frameMax.toNat := by simpa [tuneArgs] using hlen
  rw [connectionFrame, handle_connectionMethod h hopen hargs fun pos => by
    rw [handleConnectionMethod, if_neg (by decide), if_pos rfl, handleTuneOk, if_neg hwaits, withArgs_of_reads hread]]
  exact face_session h (g := (·.agreed channelMax frameMax heartbeat)) fun _ => rfl

theorem handle_open (h : s.face c = some ⟨x, true, outs, chs⟩) (hstate : x.state = .AWAITING_OPEN) {args : Bytes}
    (hlen : 4 + args.length ≤ x.frameMax.toNat) {virtualHost : Bytes}
    (hread : ∀ pos, ∃ b, readOpen ⟨pos, args⟩ = .ok (virtualHost, b)) :
    (s.handle (.frame c (connectionFrame connection_method.OPEN args) FRAME_END)).face c =
      if virtualHost ≠ ascii "/" ∧ virtualHost ≠ [] then
        some ⟨x.withState .CLOSING, true,
          outs ++ [.frame (connectionFrame connection_method.CLOSE (closeArgs reply_code.INVALID_PATH
            (unknownVhost virtualHost) connection_method.OPEN))], chs⟩
      else
        some ⟨x.withState .OPEN, true,
          outs ++ [.frame (connectionFrame connection_method.OPEN_OK (writeShortString []))], chs⟩ := by
  have hopen : x.state ≠ .AWAITING_PROTOCOL_HEADER ∧ x.state ≠ .CLOSING := by
    rw [hstate]
    decide
  have hwaits : ¬(s.connection c).map Connection.state ≠ some .AWAITING_OPEN := by
    rw [state_of_face h, hstate, ne_eq, not_not]
  have hargs : ∀ pos k, withArgs readOpen ⟨pos, args⟩ s k = .ok (k virtualHost) := by
    intro pos k
    obtain ⟨b, hb⟩ := hread pos
    rw [withArgs, hb]
  rw [connectionFrame, handle_connectionMethod h hopen hlen fun pos => by
    rw [handleConnectionMethod, if_neg (by decide), if_neg (by decide), if_pos rfl, handleConnectionOpen, if_neg hwaits, hargs]]
  split
  · exact face_sendConnectionClose h (by rw [hstate]; decide) ..
  · exact face_sendMethodFrame (face_session h (g := (·.withState .OPEN)) fun _ => rfl) ..

/-! ### What does not come from the client -/

theorem reorder_empty (order : List UInt16) : (∅ : Assoc UInt16 Channel).reorder order = ∅ :=
  Assoc.ext (List.perm_nil.mp (Assoc.reorder_perm ∅ order))

theorem face_modifyChannel (h : s.face c = some ⟨x, reading, outs, ∅⟩) (num : UInt16) (f : Channel → Channel) :
    (s.modifyChannel c num f).face c = some ⟨x, reading, outs, ∅⟩ := by
  rw [modifyChannel, face_modifyConnection (g := fun y => { y with channels := y.channels.modify num f }) fun _ => rfl, h]
  rfl

/-- Without channels there is no task to run. --/
theorem face_runTask (h : s.face c = some ⟨x, reading, outs, ∅⟩) :
    (s.runTask c).face c = some ⟨x, reading, outs, ∅⟩ := by
  rw [runTask]
  split
  · exact h
  · exact h
  · rename_i t rest _
    have hpop : (s.modifyConnection c fun conn => { conn with strand := rest }).face c = some ⟨x, reading, outs, ∅⟩ := by
      rw [face_modifyConnection (f := fun conn => { conn with strand := rest }) (g := id) fun _ => rfl, h]
      rfl
    obtain ⟨conn, hconn, hface⟩ := Option.map_eq_some_iff.mp hpop
    have hchannels : conn.channels = ∅ := congrArg Face.channels hface
    have hnone : (s.modifyConnection c fun conn => { conn with strand := rest }).lockChannel c t = none := by
      rw [lockChannel, channel, hconn, Option.bind_some, hchannels]
      rfl
    dsimp only
    rw [hnone]
    exact hpop

/-- The connection reads nothing and is not ended. --/
theorem face_handle (hv : Valid s) (h : s.face c = some ⟨x, reading, outs, ∅⟩) {e : Event} (he : e ≠ .restart)
    (hread : e.isRead = true → e.connection? = some c → reading = false) (hend : e = .disconnect c → x.state = .CLOSED) :
    (s.handle e).face c = some ⟨x, reading, outs, ∅⟩ := by
  obtain ⟨conn, hconn, hface⟩ := Option.map_eq_some_iff.mp h
  by_cases hc : e.connection? = some c
  · cases e with
    | frame c' frame frameEnd =>
      obtain rfl := Option.some.inj hc
      have hreading : conn.reading = false := (congrArg Face.reading hface).trans (hread rfl rfl)
      rw [handle, hconn]
      dsimp only
      rw [if_neg fun hr => Bool.false_ne_true (hreading.symm.trans hr.1)]
      exact h
    | protocolHeader c' header =>
      obtain rfl := Option.some.inj hc
      have hreading : conn.reading = false := (congrArg Face.reading hface).trans (hread rfl rfl)
      rw [handle, hconn]
      dsimp only
      rw [if_neg fun hr => Bool.false_ne_true (hreading.symm.trans hr.1)]
      exact h
    | runTask c' =>
      obtain rfl := Option.some.inj hc
      exact face_runTask h
    | disconnect c' =>
      obtain rfl := Option.some.inj hc
      have hclosed : conn.state = .CLOSED := (congrArg (fun y => y.session.state) hface).trans (hend rfl)
      rw [handle, shutdown, hconn]
      dsimp only
      rw [if_pos hclosed]
      exact h
    | reorderChannels c' order =>
      obtain rfl := Option.some.inj hc
      rw [handle, face_modifyConnection (g := fun y => { y with channels := y.channels.reorder order }) fun _ => rfl, h,
        Option.map_some, reorder_empty]
    | reorderConsumers c' num order =>
      obtain rfl := Option.some.inj hc
      exact face_modifyChannel h ..
    | reorderUnacked c' num order =>
      obtain rfl := Option.some.inj hc
      exact face_modifyChannel h ..
    | _ => cases hc
  · exact (face_of_own (own_handle_of_ne hv hconn he hc)).trans h

end AmqpServer
end Broko.Broker
