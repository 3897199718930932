import Broko.Sdk.Link
import Broko.Theorems.Opening
import Broko.Theorems.SdkTables
import Broko.Theorems.Transparency

/-! A client of the SDK connects. Both sides go through the handshake in step, in every order in which they read and
    whatever else the broker does, so what the client takes for negotiated is what the broker has, and no order gets them
    stuck. -/

namespace Broko.Sdk
open Amqp Broker AmqpServer Reader Storage

/-! ### What the client reads -/

theorem reads_tune (channelMax : UInt16) (frameMax : UInt32) (heartbeat : UInt16) :
    Reads Connection.readTune (tuneArgs channelMax frameMax heartbeat) (channelMax, frameMax, heartbeat) := by
  rw [tuneArgs, List.append_assoc]
  refine (reads_uint16 channelMax).bind ?_
  exact (reads_uint32 frameMax).bind (reads_uint16 heartbeat).map

theorem reads_close (replyCode : UInt16) (replyText : Bytes) (methodId : UInt16) :
    Reads Connection.readClose (closeArgs replyCode replyText methodId) (replyCode, Utf8.decode (replyText.take 255)) := by
  rw [closeArgs, List.append_assoc, List.append_assoc]
  refine (reads_uint16 replyCode).bind ?_
  refine (reads_text replyText).bind ?_
  exact (reads_uint16 _).bind (reads_uint16 methodId).map

/-! ### What the client does -/

namespace ConnectOptions

variable (opts : ConnectOptions)

/-- The interval that the client uses; the broker offers 60. --/
def interval : Nat := opts.heartbeat.getD 60

/-- What the broker takes from the response. --/
def presented : Bytes × Bytes := plainCredentials (Utf8.encode opts.credentials)

/-- Start-Ok and Tune-Ok can be written (the interval has 16 bits there), and Start-Ok is not longer than a frame may be. --/
structure Fits (args : Bytes) : Prop where
  startOk : Connection.startOkArgs opts = some args
  length : 4 + args.length ≤ 131072
  interval : opts.interval < 2 ^ 16

end ConnectOptions

namespace Connection

variable {κ : Type} {conn conn' : Connection κ} {opts : ConnectOptions} {args : Bytes}

theorem receive_connectionMethod (hsocket : conn.socket ≠ .destroyed) {methodId : UInt16}
    (h : conn.handleConnectionMethod methodId ⟨4, args⟩ = .ok conn') :
    conn.receive (connectionFrame methodId args) = conn' := by
  have htype : (connectionFrame methodId args).type = FRAME_METHOD := rfl
  have hchannel : (connectionFrame methodId args).channel = 0 := rfl
  have hids : Reads decodeMethod (writeUint16 class_id.CONNECTION ++ writeUint16 methodId) (class_id.CONNECTION, methodId) :=
    (reads_uint16 _).bind (reads_uint16 methodId).map
  have hdecode : decodeMethod (Buffer.ofBytes (connectionFrame methodId args).payload) =
      .ok ((class_id.CONNECTION, methodId), ⟨4, args⟩) := hids 0 args
  rw [receive, if_neg hsocket, handleFrame, htype, hchannel, if_neg (by decide), if_pos rfl, hdecode]
  dsimp only
  rw [if_pos rfl, h]

theorem withArgs_of_reads {α : Type} {read : Read α} {a : α} (h : Reads read args a) (pos : Nat) {k : α → Outcome κ} :
    conn.withArgs read ⟨pos, args⟩ k = k a := by
  have hread := h pos []
  rw [List.append_nil] at hread
  rw [withArgs, hread]

/-- After Start-Ok. --/
def answered (opts : ConnectOptions) (args : Bytes) : Connection κ :=
  { connect opts with sent := [.protocolHeader, .frame (connectionFrame connection_method.START_OK args)] }

/-- After Tune-Ok and Open. --/
def tuned (opts : ConnectOptions) (args : Bytes) : Connection κ :=
  { answered opts args with
    heartbeat := opts.interval
    sent := [.protocolHeader, .frame (connectionFrame connection_method.START_OK args),
      .frame (connectionFrame connection_method.TUNE_OK (tuneArgs 2047 131072 (UInt16.ofNat opts.interval))),
      .frame (connectionFrame connection_method.OPEN (openArgs opts))] }

/-- After Open-Ok. --/
def opened (opts : ConnectOptions) (args : Bytes) : Connection κ :=
  { tuned opts args with timers := 0 < opts.interval, opening := .opened }

/-- After Close. --/
def refusedWith (conn : Connection κ) (replyCode : UInt16) (text : String) : Connection κ :=
  { conn with
    opening := .refused replyCode text, socket := .ended
    sent := conn.sent ++ [.frame (connectionFrame connection_method.CLOSE_OK [])] }

theorem receive_start (h : opts.Fits args) :
    (connect opts : Connection κ).receive (connectionFrame connection_method.START startArgs) = answered opts args := by
  obtain ⟨b, hb⟩ : ∃ b, readStart ⟨4, startArgs⟩ = .ok ((), b) := ⟨⟨4 + startArgs.length, []⟩, by decide +kernel⟩
  refine receive_connectionMethod SocketState.noConfusion ?_
  rw [handleConnectionMethod, if_pos rfl, onStart, withArgs, hb]
  dsimp only
  rw [show (connect opts : Connection κ).opts = opts from rfl, h.startOk]
  rfl

theorem receive_tune (h : opts.Fits args) :
    (answered opts args : Connection κ).receive (connectionFrame connection_method.TUNE (tuneArgs 2047 131072 60)) =
      tuned opts args := by
  refine receive_connectionMethod SocketState.noConfusion ?_
  rw [handleConnectionMethod, if_neg (by decide), if_pos rfl, onTune, withArgs_of_reads (reads_tune 2047 131072 60)]
  exact if_pos h.interval

theorem receive_openOk :
    (tuned opts args : Connection κ).receive (connectionFrame connection_method.OPEN_OK (Amqp.writeShortString [])) =
      opened opts args := by
  refine receive_connectionMethod SocketState.noConfusion ?_
  rw [handleConnectionMethod, if_neg (by decide), if_neg (by decide), if_pos rfl]
  rfl

theorem receive_close (hsocket : conn.socket = .up) (hopening : conn.opening = .pending) (replyCode : UInt16)
    (replyText : Bytes) (methodId : UInt16) :
    conn.receive (connectionFrame connection_method.CLOSE (closeArgs replyCode replyText methodId)) =
      conn.refusedWith replyCode (Utf8.decode (replyText.take 255)) := by
  refine receive_connectionMethod (by rw [hsocket]; decide) ?_
  rw [handleConnectionMethod, if_neg (by decide), if_neg (by decide), if_neg (by decide), if_pos rfl, onClose,
    withArgs_of_reads (reads_close replyCode replyText methodId)]
  dsimp only
  rw [sendMethod, send, if_pos hsocket, refuse, if_pos hopening, endSocket, if_pos hsocket]
  rfl

end Connection

/-! ### What the broker reads -/

theorem reads_clientProps {props : Bytes} (h : writeFieldTable clientProps = some props) :
    ∃ table, Reads (Amqp.readFieldTable 0) props table := by
  obtain ⟨table, htable⟩ : ∃ table, receivedEntries clientProps [] = some table :=
    Option.isSome_iff_exists.mp (by decide +kernel)
  have hadm : entriesAdmissible 0 clientProps := by
    simp [clientProps, entriesAdmissible, JsValue.Admissible]
    decide
  obtain ⟨inner, hinner, hw⟩ := Option.bind_eq_some_iff.mp h
  have hsize := length_writeSized hw
  obtain ⟨hlen, rfl⟩ := writeSized_eq_some hw
  refine ⟨table, fun pos rest => ?_⟩
  have hentries := gives_fieldEntries clientProps (writeUint32 (UInt32.ofNat inner.length) ++ inner ++ rest).length inner
    hadm hinner (by rw [List.length_append, hsize]; omega) []
  have hloop := gives_fieldTableLoop (Nat.zero_le _) hlen hentries pos rest
  rw [htable] at hloop
  exact hloop

theorem reads_startOk {opts : ConnectOptions} {args : Bytes} (h : Connection.startOkArgs opts = some args) :
    Reads readStartOk args (.ok (ascii "PLAIN", opts.presented)) := by
  obtain ⟨props, hprops, h⟩ := Option.bind_eq_some_iff.mp h
  obtain ⟨credentials, hcredentials, rfl⟩ := Option.map_eq_some_iff.mp h
  obtain ⟨table, htable⟩ := reads_clientProps hprops
  obtain ⟨hlen, rfl⟩ := writeSized_eq_some hcredentials
  have hmechanism : Reads Amqp.readShortString (writeShortString "PLAIN") (ascii "PLAIN") := by
    rw [show writeShortString "PLAIN" = Amqp.writeShortString (ascii "PLAIN") by decide]
    exact reads_shortString (by decide)
  have hlocale : Reads Amqp.readShortString (writeShortString "en_US") (ascii "en_US") := by
    rw [show writeShortString "en_US" = Amqp.writeShortString (ascii "en_US") by decide]
    exact reads_shortString (by decide)
  rw [List.append_assoc, List.append_assoc]
  refine htable.bind ?_
  refine hmechanism.bind ?_
  refine (reads_longString hlen).bind ?_
  rw [if_pos rfl]
  exact hlocale.map

/-- A short string is cut to 255 bytes. --/
theorem writeShortString_take (bs : Bytes) : Amqp.writeShortString (bs.take 255) = Amqp.writeShortString bs := by
  have hlen : min (min 255 bs.length) 255 = min bs.length 255 := by omega
  have hcut : min (min bs.length 255) 255 = min bs.length 255 := by omega
  rw [Amqp.writeShortString, Amqp.writeShortString, List.length_take, hlen, List.take_take, hcut]

/-- The virtual host that the broker reads. --/
def ConnectOptions.hostRead (opts : ConnectOptions) : Bytes := (Utf8.encode opts.virtualHost).take 255

theorem reads_open (opts : ConnectOptions) (pos : Nat) : ∃ b, readOpen ⟨pos, Connection.openArgs opts⟩ = .ok (opts.hostRead, b) := by
  have hhost : Reads Amqp.readShortString (writeShortString opts.virtualHost) opts.hostRead := by
    have hread := reads_shortString (List.length_take_le 255 (Utf8.encode opts.virtualHost))
    rw [writeShortString_take] at hread
    exact hread
  have hread : Reads readOpen (writeShortString opts.virtualHost ++ writeShortString "") opts.hostRead := by
    refine hhost.bind ?_
    exact (reads_shortString (s := []) (by decide)).map
  exact ⟨_, hread pos (writeUint8 0)⟩

namespace ConnectOptions

variable {opts : ConnectOptions}

theorem virtualHost_ne_nil : opts.hostRead ≠ [] := by
  have hne : opts.virtualHost ≠ "" := by
    rw [virtualHost, orElse]
    cases hfilter : opts.vhost.filter (· ≠ "") with
    | none => decide
    | some text => exact of_decide_eq_true (Option.filter_eq_some_iff.mp hfilter).2
  intro hnil
  rw [hostRead, List.take_eq_nil_iff] at hnil
  refine hne (Utf8.encode_injective ?_)
  exact hnil.resolve_left (by decide)

theorem hostRead_eq_iff : opts.hostRead = ascii "/" ↔ opts.virtualHost = "/" := by
  constructor
  · intro h
    have hlen : min 255 (Utf8.encode opts.virtualHost).length = 1 := by
      rw [← List.length_take, ← hostRead, h]
      rfl
    rw [hostRead, List.take_of_length_le (by omega)] at h
    exact Utf8.encode_injective (h.trans (by decide))
  · intro h
    rw [hostRead, h]
    decide

/-- The broker takes the client in. --/
def Accepted (opts : ConnectOptions) (u : UserStore) : Prop :=
  u.verify opts.presented.1 opts.presented.2 = true ∧ opts.virtualHost = "/"

end ConnectOptions

/-! ### The stages of the handshake -/

namespace Link

variable {κ : Type} {opts : ConnectOptions} {args : Bytes} {u : UserStore}

/-- The session of the broker, from the protocol header on. --/
def asked : Broker.Session := offered.withState .AWAITING_START_OK

def known (opts : ConnectOptions) : Broker.Session := asked.knownAs opts.presented.1

def agreed (opts : ConnectOptions) : Broker.Session := (known opts).agreed 2047 131072 (UInt16.ofNat opts.interval)

def start : Outgoing := .frame (connectionFrame connection_method.START startArgs)

def tune : Outgoing := .frame (connectionFrame connection_method.TUNE (tuneArgs 2047 131072 60))

def openOk : Outgoing := .frame (connectionFrame connection_method.OPEN_OK (Amqp.writeShortString []))

/-- The Close that refuses the login. --/
def denied : Outgoing :=
  .frame (connectionFrame connection_method.CLOSE
    (closeArgs reply_code.ACCESS_REFUSED (refusedLogin (ascii "PLAIN")) connection_method.START_OK))

/-- The Close that refuses the virtual host. --/
def unknown (opts : ConnectOptions) : Outgoing :=
  .frame (connectionFrame connection_method.CLOSE
    (closeArgs reply_code.INVALID_PATH (unknownVhost opts.hostRead) connection_method.OPEN))

def deniedText : String := Utf8.decode ((refusedLogin (ascii "PLAIN")).take 255)

def unknownText (opts : ConnectOptions) : String := Utf8.decode ((unknownVhost opts.hostRead).take 255)

/-- How much the broker and the client have read, the session and what the broker has sent, and the client. --/
inductive Stage (opts : ConnectOptions) (args : Bytes) (u : UserStore) :
    Nat → Nat → Broker.Session → List Outgoing → Connection κ → Prop
  | accepted : Stage opts args u 0 0 offered [] (.connect opts)
  | asked : Stage opts args u 1 0 asked [start] (.connect opts)
  | answered : Stage opts args u 1 1 asked [start] (.answered opts args)
  | known (h : u.verify opts.presented.1 opts.presented.2 = true) :
      Stage opts args u 2 1 (known opts) [start, tune] (.answered opts args)
  | tuned (h : u.verify opts.presented.1 opts.presented.2 = true) :
      Stage opts args u 2 2 (known opts) [start, tune] (.tuned opts args)
  | agreed (h : u.verify opts.presented.1 opts.presented.2 = true) :
      Stage opts args u 3 2 (agreed opts) [start, tune] (.tuned opts args)
  | answeredOpen (h : opts.Accepted u) :
      Stage opts args u 4 2 ((agreed opts).withState .OPEN) [start, tune, openOk] (.tuned opts args)
  | opened (h : opts.Accepted u) :
      Stage opts args u 4 3 ((agreed opts).withState .OPEN) [start, tune, openOk] (.opened opts args)
  | denied (h : u.verify opts.presented.1 opts.presented.2 ≠ true) :
      Stage opts args u 2 1 (asked.withState .CLOSING) [start, denied] (.answered opts args)
  | toldDenied (h : u.verify opts.presented.1 opts.presented.2 ≠ true) :
      Stage opts args u 2 2 (asked.withState .CLOSING) [start, denied]
        ((Connection.answered opts args).refusedWith reply_code.ACCESS_REFUSED deniedText)
  | unknown (h : u.verify opts.presented.1 opts.presented.2 = true) (hhost : opts.virtualHost ≠ "/") :
      Stage opts args u 4 2 ((agreed opts).withState .CLOSING) [start, tune, unknown opts] (.tuned opts args)
  | toldUnknown (h : u.verify opts.presented.1 opts.presented.2 = true) (hhost : opts.virtualHost ≠ "/") :
      Stage opts args u 4 3 ((agreed opts).withState .CLOSING) [start, tune, unknown opts]
        ((Connection.tuned opts args).refusedWith reply_code.INVALID_PATH (unknownText opts))

variable {n m : Nat} {x : Broker.Session} {outs rest : List Outgoing} {client : Connection κ} {out : Outgoing}

/-- What the client reads takes it to the next stage. --/
theorem Stage.clientReads (h : Stage opts args u n m x outs client) (hfits : opts.Fits args)
    (hnext : outs.drop m = out :: rest) : Stage opts args u n (m + 1) x outs (readBy client out) := by
  have hout : ∀ {outs : List Outgoing} {m : Nat} {first : Outgoing}, outs.drop m = [first] → outs.drop m = out :: rest →
      first = out := fun h₁ h₂ => (List.cons.inj (h₁.symm.trans h₂)).1
  cases h with
  | accepted => cases hnext
  | asked =>
    obtain rfl := hout rfl hnext
    rw [start, readBy, Connection.receive_start hfits]
    exact .answered
  | answered => cases hnext
  | known h =>
    obtain rfl := hout rfl hnext
    rw [tune, readBy, Connection.receive_tune hfits]
    exact .tuned h
  | tuned h => cases hnext
  | agreed h => cases hnext
  | answeredOpen h =>
    obtain rfl := hout rfl hnext
    rw [openOk, readBy, Connection.receive_openOk]
    exact .opened h
  | opened h => cases hnext
  | denied h =>
    obtain rfl := hout rfl hnext
    rw [Link.denied, readBy, Connection.receive_close rfl rfl]
    exact .toldDenied h
  | toldDenied h => cases hnext
  | unknown h hhost =>
    obtain rfl := hout rfl hnext
    rw [Link.unknown, readBy, Connection.receive_close rfl rfl]
    exact .toldUnknown h hhost
  | toldUnknown h hhost => cases hnext

/-- How the promise of the client has ended if it was refused. --/
def Refused (client : Connection κ) : Prop := ∃ code text, client.opening = .refused code text

section Server

variable {s : AmqpServer} {c : Nat}

theorem frameMax_asked : asked.frameMax.toNat = 131072 := by decide

theorem frameMax_known (opts : ConnectOptions) : (known opts).frameMax.toNat = 131072 := frameMax_asked

theorem frameMax_agreed (opts : ConnectOptions) : (agreed opts).frameMax.toNat = 131072 := by
  rw [agreed, Broker.Session.agreed]
  dsimp only
  rw [if_pos (by decide), show (known opts).frameMax = 131072 from rfl]
  decide

/-- Open is never too long for a frame. --/
theorem length_openArgs (opts : ConnectOptions) : (Connection.openArgs opts).length ≤ 258 := by
  have hhost := length_writeShortString_le ((Utf8.encode opts.virtualHost).take 255)
  have hcut : ((Utf8.encode opts.virtualHost).take 255).length ≤ 255 := List.length_take_le ..
  rw [writeShortString_take] at hhost
  have hlen : (Connection.openArgs opts).length = (writeShortString opts.virtualHost).length + 1 + 1 := by
    rw [Connection.openArgs, List.length_append, List.length_append]
    rfl
  rw [hlen, writeShortString, writeShort_eq]
  omega

theorem serverReads_closeOk (hface : s.face c = some ⟨x, true, outs, ∅⟩) (hstate : x.state = .CLOSING)
    (hlen : 4 ≤ x.frameMax.toNat) :
    (s.handle (arrival c (.frame (connectionFrame connection_method.CLOSE_OK [])))).face c =
      some ⟨x.withState .CLOSED, false, outs, ∅⟩ := by
  rw [arrival, connectionFrame, handle_closeOk hface hstate hlen]
  exact face_shutdown hface (by rw [hstate]; decide)

/-- What the broker reads takes it to the next stage, or ends the connection with a client that knows that it was
    refused. --/
theorem Stage.serverReads (h : Stage opts args u n m x outs client) (hfits : opts.Fits args) (hu : s.userStore = u)
    (hface : s.face c = some ⟨x, true, outs, ∅⟩) (hnext : client.sent.drop n = out :: rest) :
    (∃ x' outs', (s.handle (arrival c out)).face c = some ⟨x', true, outs', ∅⟩ ∧
      Stage opts args u (n + 1) m x' outs' client) ∨
    ((s.handle (arrival c out)).face c = some ⟨x.withState .CLOSED, false, outs, ∅⟩ ∧ Refused client) := by
  have hout : ∀ {rest' : List Outgoing} {first : Outgoing}, client.sent.drop n = first :: rest' → first = out :=
    fun h => (List.cons.inj (h.symm.trans hnext)).1
  cases h with
  | accepted =>
    obtain rfl := hout rfl
    exact .inl ⟨_, _, handle_protocolHeader hface rfl, .asked⟩
  | asked => cases hnext
  | answered =>
    obtain rfl := hout rfl
    have hread : Reads readStartOk args (.ok (ascii "PLAIN", opts.presented.1, opts.presented.2)) :=
      reads_startOk hfits.startOk
    have hnow := handle_startOk hface rfl (by rw [frameMax_asked]; exact hfits.length) hread
    rw [hu] at hnow
    by_cases hverify : u.verify opts.presented.1 opts.presented.2 = true
    · rw [if_pos hverify] at hnow
      exact .inl ⟨_, _, hnow, .known hverify⟩
    · rw [if_neg hverify] at hnow
      exact .inl ⟨_, _, hnow, .denied hverify⟩
  | known h => cases hnext
  | tuned h =>
    obtain rfl := hout rfl
    exact .inl ⟨_, _, handle_tuneOk hface rfl (by rw [frameMax_known]; decide) .., .agreed h⟩
  | agreed h =>
    obtain rfl := hout rfl
    have hlen : 4 + (Connection.openArgs opts).length ≤ (Link.agreed opts).frameMax.toNat := by
      rw [frameMax_agreed]
      exact le_trans (Nat.add_le_add_left (length_openArgs opts) 4) (by decide)
    have hnow := handle_open hface rfl hlen (reads_open opts)
    by_cases hhost : opts.virtualHost = "/"
    · rw [if_neg fun hne => hne.1 (ConnectOptions.hostRead_eq_iff.mpr hhost)] at hnow
      exact .inl ⟨_, _, hnow, .answeredOpen ⟨h, hhost⟩⟩
    · rw [if_pos ⟨fun heq => hhost (ConnectOptions.hostRead_eq_iff.mp heq), ConnectOptions.virtualHost_ne_nil⟩] at hnow
      exact .inl ⟨_, _, hnow, .unknown h hhost⟩
  | answeredOpen h => cases hnext
  | opened h => cases hnext
  | denied h => cases hnext
  | toldDenied h =>
    obtain rfl := hout rfl
    exact .inr ⟨serverReads_closeOk hface rfl (by decide), _, _, rfl⟩
  | unknown h hhost => cases hnext
  | toldUnknown h hhost =>
    obtain rfl := hout rfl
    exact .inr ⟨serverReads_closeOk hface rfl (show 4 ≤ (Link.agreed opts).frameMax.toNat by rw [frameMax_agreed]; decide), _, _, rfl⟩

end Server

/-! ### Runs -/

/-- Both sides are at one stage, or the broker has ended the connection there and the client goes on with what it can
    still read. --/
inductive Linked (opts : ConnectOptions) (args : Bytes) (u : UserStore) (broken : Prop) (l : Link κ) : Prop
  | up {x : Broker.Session} {outs : List Outgoing}
      (hstage : Stage opts args u l.readByServer l.readByClient x outs l.client)
      (hface : l.server.face l.c = some ⟨x, true, outs, ∅⟩)
  | ended {n : Nat} {x : Broker.Session} {outs : List Outgoing} {client : Connection κ}
      (hstage : Stage opts args u n l.readByClient x outs client)
      (hface : l.server.face l.c = some ⟨x.withState .CLOSED, false, outs, ∅⟩)
      (hclient : l.client = client ∨ l.client = client.onSocketClose) (hwhy : broken ∨ Refused client)

variable {l : Link κ} {broken : Prop}

theorem sentByServer_eq {reading : Bool} {chs : Assoc UInt16 Broker.Channel}
    (hface : l.server.face l.c = some ⟨x, reading, outs, chs⟩) : l.sentByServer = outs := by
  obtain ⟨conn, hconn, hsame⟩ := Option.map_eq_some_iff.mp hface
  rw [sentByServer, hconn]
  exact congrArg Face.sent hsame

theorem Stage.state_ne_closed (h : Stage opts args u n m x outs client) : x.state ≠ .CLOSED := by
  cases h <;> exact State.noConfusion

/-- A client that was refused has nothing more to read. --/
theorem Stage.drop_of_refused (h : Stage opts args u n m x outs client) (hrefused : Refused client) : outs.drop m = [] := by
  obtain ⟨code, text, hopening⟩ := hrefused
  cases h with
  | toldDenied h => rfl
  | toldUnknown h hhost => rfl
  | _ => exact Opening.noConfusion hopening

theorem onSocketClose_twice (client : Connection κ) : client.onSocketClose.onSocketClose = client.onSocketClose := by
  rw [Connection.onSocketClose, Connection.onSocketClose]
  dsimp only
  by_cases hpending : client.opening = .pending
  · rw [if_pos hpending, ite_self]
  · rw [if_neg hpending, if_neg hpending]

theorem other_facts {c : Nat} {e : Broker.Event} (h : isOther c e = true) :
    e ≠ .restart ∧ (e.isRead = true → e.connection? ≠ some c) := by
  cases e with
  | restart => cases h
  | protocolHeader c' header => exact ⟨Broker.Event.noConfusion, fun _ heq => bne_iff_ne.mp h (Option.some.inj heq)⟩
  | frame c' frame frameEnd => exact ⟨Broker.Event.noConfusion, fun _ heq => bne_iff_ne.mp h (Option.some.inj heq)⟩
  | _ => exact ⟨Broker.Event.noConfusion, fun hread => absurd hread Bool.false_ne_true⟩

theorem arrival_ne_restart (c : Nat) (out : Outgoing) : arrival c out ≠ .restart := by
  cases out <;> exact Broker.Event.noConfusion

theorem Linked.weaken {more : Prop} (h : Linked opts args u broken l) : Linked opts args u (broken ∨ more) l := by
  cases h with
  | up hstage hface => exact .up hstage hface
  | ended hstage hface hclient hwhy => exact .ended hstage hface hclient (hwhy.imp_left .inl)

/-- A broker that has ended the connection reads nothing more. --/
theorem Linked.serverEnded {server : AmqpServer} {reads : Nat} {x : Broker.Session}
    (hstage : Stage opts args u n l.readByClient x outs client)
    (hface : server.face l.c = some ⟨x.withState .CLOSED, false, outs, ∅⟩)
    (hclient : l.client = client ∨ l.client = client.onSocketClose) (hwhy : broken ∨ Refused client) :
    Linked opts args u broken { l with server := server, readByServer := reads } :=
  .ended hstage hface hclient hwhy

theorem Linked.step (h : Linked opts args u broken l) (hfits : opts.Fits args) (hv : Valid l.server)
    (hu : l.server.userStore = u) (event : LinkEvent) :
    Linked opts args u (broken ∨ event = .other (.disconnect l.c)) (l.step event) := by
  cases event with
  | serverReads =>
    rw [Link.step]
    split
    · exact h.weaken
    · rename_i out rest hto
      cases h with
      | up hstage hface =>
        rcases hstage.serverReads hfits hu hface hto with ⟨x', outs', hface', hstage'⟩ | ⟨hface', hrefused⟩
        · exact .up hstage' hface'
        · exact .ended hstage hface' (.inl rfl) (.inr hrefused)
      | ended hstage hface hclient hwhy =>
        have hface' := face_handle hv hface (arrival_ne_restart l.c out) (fun _ _ => rfl) fun _ => rfl
        exact .serverEnded hstage hface' hclient (hwhy.imp_left .inl)
  | clientReads =>
    rw [Link.step]
    split
    · exact h.weaken
    · rename_i hopen
      split
      · exact h.weaken
      · rename_i out rest hto
        cases h with
        | up hstage hface =>
          rw [toClient, sentByServer_eq hface] at hto
          exact .up (hstage.clientReads hfits hto) hface
        | ended hstage hface hclient hwhy =>
          rw [toClient, sentByServer_eq hface] at hto
          rcases hclient with rfl | hclient
          · refine .ended (hstage.clientReads hfits hto) hface (.inl rfl) ?_
            rcases hwhy with hbroken | hrefused
            · exact .inl (.inl hbroken)
            · cases hto.symm.trans (hstage.drop_of_refused hrefused)
          · rw [hclient] at hopen
            exact absurd rfl hopen
  | clientLoses =>
    rw [Link.step]
    cases h with
    | up hstage hface =>
      rw [if_neg]
      · exact .up hstage hface
      · rw [state_of_face hface]
        exact fun heq => hstage.state_ne_closed (Option.some.inj heq)
    | ended hstage hface hclient hwhy =>
      have hclosed : (l.server.connection l.c).map Broker.Connection.state = some .CLOSED := state_of_face hface
      rw [if_pos hclosed]
      refine .ended hstage hface (.inr ?_) (hwhy.imp_left .inl)
      rcases hclient with rfl | hclient
      · rfl
      · dsimp only
        rw [hclient, onSocketClose_twice]
  | other e =>
    rw [Link.step]
    split
    · rename_i hother
      obtain ⟨hrestart, hread⟩ := other_facts hother
      cases h with
      | up hstage hface =>
        by_cases hend : e = .disconnect l.c
        · subst hend
          exact .ended hstage (face_shutdown hface hstage.state_ne_closed) (.inl rfl) (.inl (.inr rfl))
        · exact .up hstage (face_handle hv hface hrestart (fun hr hc => absurd hc (hread hr)) fun heq => absurd heq hend)
      | ended hstage hface hclient hwhy =>
        have hface' := face_handle hv hface hrestart (fun _ _ => rfl) fun _ => rfl
        exact .serverEnded hstage hface' hclient (hwhy.imp_left .inl)
    · exact h.weaken

theorem step_c (l : Link κ) (event : LinkEvent) : (l.step event).c = l.c := by
  cases event <;> rw [Link.step]
  · split <;> rfl
  · split
    · rfl
    · split <;> rfl
  · split <;> rfl
  · split <;> rfl

/-- A step lets the broker handle one event, or none. --/
theorem step_server (l : Link κ) (event : LinkEvent) :
    (l.step event).server = l.server ∨ ∃ e ≠ Broker.Event.restart, (l.step event).server = l.server.handle e := by
  cases event with
  | serverReads =>
    rw [Link.step]
    split
    · exact .inl rfl
    · exact .inr ⟨_, arrival_ne_restart l.c _, rfl⟩
  | clientReads =>
    rw [Link.step]
    split
    · exact .inl rfl
    · split <;> exact .inl rfl
  | clientLoses =>
    rw [Link.step]
    split <;> exact .inl rfl
  | other e =>
    rw [Link.step]
    split
    · rename_i hother
      exact .inr ⟨e, (other_facts hother).1, rfl⟩
    · exact .inl rfl

theorem Stage.bounds (h : Stage opts args u n m x outs client) : client.sent.length ≤ 5 ∧ m ≤ 3 := by
  cases h <;> exact ⟨Nat.le_of_ble_eq_true rfl, Nat.le_of_ble_eq_true rfl⟩

theorem Linked.bounds (h : Linked opts args u broken l) : l.client.sent.length ≤ 5 ∧ l.readByClient ≤ 3 := by
  cases h with
  | up hstage => exact hstage.bounds
  | ended hstage hface hclient => rcases hclient with hclient | hclient <;> exact hclient ▸ hstage.bounds

/-- The link as it is after some events, from when the broker has accepted the client. --/
structure Follows (opts : ConnectOptions) (args : Bytes) (u : UserStore) (c : Nat) (events : List LinkEvent)
    (l : Link κ) : Prop where
  valid : Valid l.server
  users : l.server.userStore = u
  same : l.c = c
  linked : Linked opts args u (.other (.disconnect c) ∈ events) l
  reads : l.readByServer ≤ 5

theorem Follows.step {c : Nat} {events : List LinkEvent} (h : Follows opts args u c events l) (hfits : opts.Fits args)
    (event : LinkEvent) : Follows opts args u c (events ++ [event]) (l.step event) := by
  have hbroken : (.other (.disconnect c) ∈ events ∨ event = .other (.disconnect l.c)) ↔
      .other (.disconnect c) ∈ events ++ [event] := by
    rw [List.mem_append, List.mem_singleton, h.same]
    exact or_congr_right eq_comm
  have hlinked := h.linked.step hfits h.valid h.users event
  rw [hbroken] at hlinked
  refine ⟨?_, ?_, (step_c l event).trans h.same, hlinked, ?_⟩
  · rcases step_server l event with heq | ⟨e, -, heq⟩ <;> rw [heq]
    · exact h.valid
    · exact valid_handle h.valid e
  · rcases step_server l event with heq | ⟨e, he, heq⟩ <;> rw [heq]
    · exact h.users
    · exact (userStore_handle h.valid he).trans h.users
  · cases event with
    | serverReads =>
      rw [Link.step]
      split
      · exact h.reads
      · rename_i out rest hto
        have hlt : l.readByServer < l.client.sent.length := by
          refine Nat.lt_of_not_le fun hle => ?_
          rw [toServer, List.drop_of_length_le hle] at hto
          cases hto
        exact hlt.trans_le h.linked.bounds.1
    | clientReads =>
      rw [Link.step]
      split
      · exact h.reads
      · split <;> exact h.reads
    | clientLoses =>
      rw [Link.step]
      split <;> exact h.reads
    | other e =>
      rw [Link.step]
      split <;> exact h.reads

theorem follows_connect {s : AmqpServer} (hv : Valid s) :
    Follows opts args s.userStore s.nextConnectionId [] (connect opts s : Link κ) := by
  refine ⟨valid_handle hv .accept, rfl, rfl, .up .accepted ?_, Nat.zero_le 5⟩
  rw [face, connection, connect, accept]
  exact congrArg (Option.map Broker.Connection.face) (Assoc.lookup_insert_self ..)

theorem follows_run {s : AmqpServer} (hv : Valid s) (hfits : opts.Fits args) (events : List LinkEvent) :
    Follows opts args s.userStore s.nextConnectionId events ((connect opts s : Link κ).run events) := by
  induction events using List.reverseRecOn with
  | nil => exact follows_connect hv
  | append_singleton events event ih =>
    rw [run, List.foldl_append]
    exact ih.step hfits event

/-! ### What both sides know -/

/-- The limits of the client are those of the broker. The interval of the broker is the smaller one of its 60 and that of
    the client, and 60 if the client wants none. --/
structure Agrees (client : Connection κ) (x : Broker.Session) : Prop where
  channelMax : x.channelMax = client.channelMax
  frameMax : x.frameMax = client.frameMax
  heartbeat : x.heartbeatInterval.toNat = if client.heartbeat = 0 then 60 else min 60 client.heartbeat

theorem agrees_tuned (hfits : opts.Fits args) : Agrees (Connection.tuned opts args : Connection κ) (agreed opts) := by
  refine ⟨rfl, rfl, ?_⟩
  have hnat : (UInt16.ofNat opts.interval).toNat = opts.interval := UInt16.toNat_ofNat_of_lt' hfits.interval
  change (if 0 < UInt16.ofNat opts.interval ∧ (0 : UInt16) < 60 then min 60 (UInt16.ofNat opts.interval)
    else if 0 < UInt16.ofNat opts.interval then UInt16.ofNat opts.interval else 60).toNat =
      if opts.interval = 0 then 60 else min 60 opts.interval
  by_cases hzero : opts.interval = 0
  · rw [hzero]
    decide
  · have hpos : 0 < UInt16.ofNat opts.interval := by
      rw [UInt16.lt_iff_toNat_lt, hnat]
      exact Nat.pos_of_ne_zero hzero
    rw [if_pos ⟨hpos, by decide⟩, if_neg hzero, UInt16.toNat_min, hnat]
    rfl

/-- What a client that has got so far knows of the broker, and the other way round. --/
structure Knows (opts : ConnectOptions) (u : UserStore) (client : Connection κ) (x : Broker.Session) : Prop where
  opened : client.opening = .opened →
    opts.Accepted u ∧ (x.state = .OPEN ∨ x.state = .CLOSED) ∧ x.authUser = opts.presented.1 ∧ Agrees client x
  isOpen : x.state = .OPEN → opts.Accepted u ∧ x.authUser = opts.presented.1 ∧ Agrees client x
  refused : ∀ code text, client.opening = .refused code text →
    code = reply_code.ACCESS_REFUSED ∧ u.verify opts.presented.1 opts.presented.2 ≠ true ∨
      code = reply_code.INVALID_PATH ∧ u.verify opts.presented.1 opts.presented.2 = true ∧ opts.virtualHost ≠ "/"

theorem Stage.knows (h : Stage opts args u n m x outs client) (hfits : opts.Fits args) : Knows opts u client x := by
  have hagrees := agrees_tuned (κ := κ) hfits
  cases h with
  | answeredOpen h =>
    exact ⟨Opening.noConfusion, fun _ => ⟨h, rfl, hagrees.1, hagrees.2, hagrees.3⟩, fun _ _ => Opening.noConfusion⟩
  | opened h =>
    have hnow : Agrees (Connection.opened opts args : Connection κ) ((Link.agreed opts).withState .OPEN) :=
      ⟨hagrees.1, hagrees.2, hagrees.3⟩
    exact ⟨fun _ => ⟨h, .inl rfl, rfl, hnow⟩, fun _ => ⟨h, rfl, hnow⟩, fun _ _ => Opening.noConfusion⟩
  | toldDenied h =>
    exact ⟨Opening.noConfusion, State.noConfusion, fun code text heq => .inl ⟨(Opening.refused.inj heq).1.symm, h⟩⟩
  | toldUnknown h hhost =>
    exact ⟨Opening.noConfusion, State.noConfusion, fun code text heq => .inr ⟨(Opening.refused.inj heq).1.symm, h, hhost⟩⟩
  | _ => exact ⟨Opening.noConfusion, State.noConfusion, fun _ _ => Opening.noConfusion⟩

theorem Knows.ended (h : Knows opts u client x) : Knows opts u client (x.withState .CLOSED) := by
  refine ⟨fun hopened => ?_, State.noConfusion, h.refused⟩
  obtain ⟨haccepted, -, huser, hagrees⟩ := h.opened hopened
  exact ⟨haccepted, .inr rfl, huser, hagrees.1, hagrees.2, hagrees.3⟩

theorem opening_onSocketClose {opening : Opening} (h : client.onSocketClose.opening = opening) (hlost : opening ≠ .lost) :
    client.opening = opening := by
  rw [Connection.onSocketClose] at h
  dsimp only at h
  split at h
  · exact absurd h.symm hlost
  · exact h

theorem Knows.lost (h : Knows opts u client x) : Knows opts u client.onSocketClose x := by
  refine ⟨fun hopened => ?_, fun hopen => ?_, fun code text hrefused => ?_⟩
  · obtain ⟨haccepted, hstate, huser, hagrees⟩ := h.opened (opening_onSocketClose hopened Opening.noConfusion)
    exact ⟨haccepted, hstate, huser, hagrees.1, hagrees.2, hagrees.3⟩
  · obtain ⟨haccepted, huser, hagrees⟩ := h.isOpen hopen
    exact ⟨haccepted, huser, hagrees.1, hagrees.2, hagrees.3⟩
  · exact h.refused code text (opening_onSocketClose hrefused Opening.noConfusion)

theorem session_of_face {reading : Bool} {chs : Assoc UInt16 Broker.Channel}
    (hface : l.server.face l.c = some ⟨x, reading, outs, chs⟩) : l.server.session l.c = some x := by
  obtain ⟨conn, hconn, hsame⟩ := Option.map_eq_some_iff.mp hface
  rw [session, hconn]
  exact congrArg (fun y => some (Face.session y)) hsame

theorem Linked.knows (h : Linked opts args u broken l) (hfits : opts.Fits args) :
    ∃ x, l.server.session l.c = some x ∧ Knows opts u l.client x := by
  cases h with
  | up hstage hface => exact ⟨_, session_of_face hface, hstage.knows hfits⟩
  | ended hstage hface hclient hwhy =>
    refine ⟨_, session_of_face hface, ?_⟩
    have hknows := (hstage.knows hfits).ended
    rcases hclient with hclient | hclient <;> rw [hclient]
    · exact hknows
    · exact hknows.lost

/-- A stage at which nothing is on its way is an end of the handshake. --/
theorem Stage.settled (h : Stage opts args u n m x outs client) (hserver : client.sent.drop n = [])
    (hclient : outs.drop m = []) :
    opts.Accepted u ∧ client.opening = .opened ∧ x.state = .OPEN := by
  cases h with
  | opened h => exact ⟨h, rfl, rfl⟩
  | accepted => cases hserver
  | asked => cases hclient
  | answered => cases hserver
  | known h => cases hclient
  | tuned h => cases hserver
  | agreed h => cases hserver
  | answeredOpen h => cases hclient
  | denied h => cases hclient
  | toldDenied h => cases hserver
  | unknown h hhost => cases hclient
  | toldUnknown h hhost => cases hserver

section Main

variable {store : Option MessageStore} {userStore : UserStore} {clock : Nat → Int} {readings : Nat}

/-- A client whose Start-Ok and Tune-Ok can be written and read connects to a broker that has run for any time, and the
    two read in any order. In whatever state that leaves them: if the connection is open to the client then the broker
    has accepted its user, its virtual host is the one that there is, and the two agree on the limits; if it is open to
    the broker then they agree too; and the client is refused with 403 only where the broker does not know its user, with
    402 only where it knows the user but not the virtual host. --/
theorem connect_agrees (hfits : opts.Fits args) (pre : List Broker.Event) (events : List LinkEvent) :
    let s := (AmqpServer.start store userStore clock readings).run pre
    let l := (connect opts s : Link κ).run events
    ∃ x, l.server.session l.c = some x ∧ Knows opts s.userStore l.client x := by
  intro s l
  exact (follows_run (valid_run valid_start pre) hfits events).linked.knows hfits

/-- What the client writes for `guest`. --/
def guestStartOk : Bytes := (Connection.startOkArgs {}).getD []

theorem guest_fits : ({} : ConnectOptions).Fits guestStartOk :=
  ⟨by decide +kernel, by decide +kernel, by decide⟩

/-- Each side reads what there is, until the connection is open. --/
def inTurn : List LinkEvent :=
  [.serverReads, .clientReads, .serverReads, .clientReads, .serverReads, .serverReads, .clientReads]

/-- The default client after that. --/
def guestLink : Link Unit := (connect {} freshServer).run inTurn

theorem guest_agrees :
    ∃ x, guestLink.server.session guestLink.c = some x ∧ x.state = .OPEN ∧ x.authUser = ascii "guest" ∧
      Agrees guestLink.client x := by
  obtain ⟨x, hx, hknows⟩ : ∃ x, guestLink.server.session guestLink.c = some x ∧ Knows {} freshServer.userStore guestLink.client x :=
    @connect_agrees Unit {} guestStartOk (some {}) {} (fun _ => 0) 0 guest_fits [] inTurn
  have hopen : (guestLink.server.session guestLink.c).map Broker.Session.state = some .OPEN := by decide +kernel
  have hstate : x.state = .OPEN := by
    rw [hx] at hopen
    exact Option.some.inj hopen
  obtain ⟨-, huser, hagrees⟩ := hknows.isOpen hstate
  have hguest : ({} : ConnectOptions).presented.1 = ascii "guest" := by decide +kernel
  exact ⟨x, hx, hstate, huser.trans hguest, hagrees⟩

/-- The handshake of a client whose Start-Ok and Tune-Ok can be written and read does not get stuck, and it ends: the
    broker reads at most five times and the client three times, and where nothing is left to be read, and the socket did
    not break, the connection is open on both sides or the client was refused and the broker has ended the connection. --/
theorem connect_settles (hfits : opts.Fits args) (pre : List Broker.Event) (events : List LinkEvent) :
    let s := (AmqpServer.start store userStore clock readings).run pre
    let l := (connect opts s : Link κ).run events
    l.readByServer ≤ 5 ∧ l.readByClient ≤ 3 ∧
      (.other (.disconnect s.nextConnectionId) ∉ events → l.toServer = [] → l.toClient = [] →
        ∃ x, l.server.session l.c = some x ∧
          (opts.Accepted s.userStore ∧ l.client.opening = .opened ∧ x.state = .OPEN ∨
            ¬opts.Accepted s.userStore ∧ Refused l.client ∧ x.state = .CLOSED)) := by
  intro s l
  have h : Follows opts args s.userStore s.nextConnectionId events l := follows_run (valid_run valid_start pre) hfits events
  refine ⟨h.reads, h.linked.bounds.2, fun hbroken hserver hclient => ?_⟩
  obtain ⟨y, hy, hknows⟩ := h.linked.knows hfits
  cases h.linked with
  | up hstage hface =>
    rw [toClient, sentByServer_eq hface] at hclient
    exact ⟨_, session_of_face hface, .inl (hstage.settled hserver hclient)⟩
  | ended hstage hface hlast hwhy =>
    have hrefused : Refused l.client := by
      obtain ⟨code, text, hopening⟩ := hwhy.resolve_left hbroken
      refine ⟨code, text, ?_⟩
      rcases hlast with hlast | hlast <;> rw [hlast]
      · exact hopening
      · rw [Connection.onSocketClose, hopening]
        rfl
    refine ⟨_, session_of_face hface, .inr ⟨?_, hrefused, rfl⟩⟩
    obtain ⟨code, text, hopening⟩ := hrefused
    rintro ⟨hverify, hhost⟩
    rcases hknows.refused code text hopening with ⟨-, hnot⟩ | ⟨-, -, hnot⟩
    · exact hnot hverify
    · exact hnot hhost

/-- A client with a virtual host that there is not. --/
def elsewhere : ConnectOptions := { vhost := some "x" }

def elsewhereLink : Link Unit := (connect elsewhere freshServer).run (inTurn ++ [.serverReads])

theorem elsewhere_settles :
    ∃ x, elsewhereLink.server.session elsewhereLink.c = some x ∧ Refused elsewhereLink.client ∧ x.state = .CLOSED := by
  have hfits : elsewhere.Fits guestStartOk := ⟨by decide +kernel, by decide +kernel, by decide⟩
  have hsettles := @connect_settles Unit elsewhere guestStartOk (some {}) {} (fun _ => 0) 0 hfits [] (inTurn ++ [.serverReads])
  have hlink : ((connect elsewhere ((AmqpServer.start (some {}) {} (fun _ => 0) 0).run [])).run (inTurn ++ [.serverReads]) :
      Link Unit) = elsewhereLink := rfl
  dsimp only at hsettles
  rw [hlink] at hsettles
  have hserver : elsewhereLink.toServer = [] := List.isEmpty_iff.mp (by decide +kernel)
  have hclient : elsewhereLink.toClient = [] := List.isEmpty_iff.mp (by decide +kernel)
  obtain ⟨x, hx, hcases⟩ := hsettles.2.2 (by simp [inTurn]) hserver hclient
  rcases hcases with ⟨haccepted, -⟩ | ⟨-, hrefused⟩
  · exact absurd haccepted.2 (by decide)
  · exact ⟨x, hx, hrefused⟩

end Main

end Link
end Broko.Sdk
