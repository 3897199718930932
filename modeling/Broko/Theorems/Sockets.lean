import Broko.Theorems.BufferReads
import Broko.Theorems.ChannelClose
import Broko.Theorems.Connections

/-! Connections that read bytes. However the bytes of a client are cut, and whatever else happens in between, the broker
    does what it does when the frames in these bytes arrive one by one. -/

namespace Broko.Broker
open Amqp Storage MessageStore

/-! ### Bytes -/

/-- The header of a frame on the wire. --/
def headerBytes (type : UInt8) (channel : UInt16) (size : UInt32) : Bytes :=
  writeUint8 type ++ writeUint16 channel ++ writeUint32 size

/-- What an event reads from the stream of a connection. --/
def Event.bytes (c : Nat) : Event → Bytes
  | .protocolHeader c' header => if c' = c then header else []
  | .frame c' f frameEnd =>
    if c' = c then headerBytes f.type f.channel (UInt32.ofNat f.payload.length) ++ f.payload ++ [frameEnd] else []
  | _ => []

/-- What an event adds to the stream of a connection. --/
def WireEvent.bytes (c : Nat) : WireEvent → Bytes
  | .data c' bytes => if c' = c then bytes else []
  | _ => []

/-- The event, if it is not about the sockets. --/
def WireEvent.event? : WireEvent → Option Event
  | .event e _ => some e
  | _ => none

/-- What was read and has not led to an event yet. --/
def Pending.taken : Pending → Bytes
  | .readFramePayload type channel size => headerBytes type channel size
  | _ => []

def Socket.unread (x : Socket) : Bytes := x.pending.taken ++ x.arrived

theorem bytes_of_ne {c : Nat} {e : Event} (h : e.connection? ≠ some c) : e.bytes c = [] := by
  cases e with
  | protocolHeader c' header => exact if_neg fun hc => h (congrArg some hc)
  | frame c' f frameEnd => exact if_neg fun hc => h (congrArg some hc)
  | _ => rfl

theorem bytes_of_isRead {c : Nat} {e : Event} (h : e.isRead = false) : e.bytes c = [] := by
  cases e with
  | protocolHeader c' header => cases h
  | frame c' f frameEnd => cases h
  | _ => rfl

theorem length_headerBytes (type : UInt8) (channel : UInt16) (size : UInt32) :
    (headerBytes type channel size).length = FRAME_HEADER_SIZE := by
  rw [headerBytes, List.length_append, List.length_append, writeUint16, writeUint32, BigEndian.length_encode,
    BigEndian.length_encode]
  rfl

/-- The header that the seven bytes are. --/
theorem headerBytes_frameHeader {readBuf : Bytes} (h : readBuf.length = FRAME_HEADER_SIZE) :
    headerBytes (frameHeader readBuf).1 (frameHeader readBuf).2.1 (frameHeader readBuf).2.2 = readBuf := by
  obtain ⟨b₀, b₁, b₂, b₃, b₄, b₅, b₆, rfl⟩ : ∃ b₀ b₁ b₂ b₃ b₄ b₅ b₆, readBuf = [b₀, b₁, b₂, b₃, b₄, b₅, b₆] := by
    obtain ⟨b₀, l₀, rfl⟩ := List.exists_of_length_succ _ h
    have h₀ : l₀.length = 6 := Nat.succ.inj h
    obtain ⟨b₁, l₁, rfl⟩ := List.exists_of_length_succ _ h₀
    have h₁ : l₁.length = 5 := Nat.succ.inj h₀
    obtain ⟨b₂, l₂, rfl⟩ := List.exists_of_length_succ _ h₁
    have h₂ : l₂.length = 4 := Nat.succ.inj h₁
    obtain ⟨b₃, l₃, rfl⟩ := List.exists_of_length_succ _ h₂
    obtain ⟨b₄, b₅, b₆, rfl⟩ := List.length_eq_three.mp (Nat.succ.inj h₂)
    exact ⟨b₀, b₁, b₂, b₃, b₄, b₅, b₆, rfl⟩
  have hchannel : BigEndian.decode [b₁, b₂] < 256 ^ 2 := BigEndian.decode_lt [b₁, b₂]
  have hsize : BigEndian.decode [b₃, b₄, b₅, b₆] < 256 ^ 4 := BigEndian.decode_lt [b₃, b₄, b₅, b₆]
  have h16 : writeUint16 ((b₁.toUInt16 <<< 8) ||| b₂.toUInt16) = [b₁, b₂] := by
    rw [uint16_of_bytes, writeUint16, UInt16.toNat_ofNat', Nat.mod_eq_of_lt (lt_of_lt_of_eq hchannel (by norm_num))]
    exact BigEndian.encode_decode [b₁, b₂]
  have h32 : writeUint32 ((b₃.toUInt32 <<< 24) ||| (b₄.toUInt32 <<< 16) ||| (b₅.toUInt32 <<< 8) ||| b₆.toUInt32) =
      [b₃, b₄, b₅, b₆] := by
    rw [uint32_of_bytes, writeUint32, UInt32.toNat_ofNat', Nat.mod_eq_of_lt (lt_of_lt_of_eq hsize (by norm_num))]
    exact BigEndian.encode_decode [b₃, b₄, b₅, b₆]
  simp only [frameHeader, headerBytes, List.getD_cons_zero, List.getD_cons_succ, h16, h32]
  rfl

/-- A header is read as it was written, so no two are the same bytes. --/
theorem frameHeader_headerBytes (type : UInt8) (channel : UInt16) (size : UInt32) :
    frameHeader (headerBytes type channel size) = (type, channel, size) := by
  have heq := headerBytes_frameHeader (length_headerBytes type channel size)
  generalize frameHeader (headerBytes type channel size) = x at heq
  obtain ⟨type', channel', size'⟩ := x
  dsimp only at heq
  rw [headerBytes, headerBytes, List.append_assoc, List.append_assoc] at heq
  obtain ⟨htype, heq⟩ := List.append_inj heq rfl
  obtain ⟨hchannel, hsize⟩ := List.append_inj heq rfl
  have h16 : channel'.toNat = channel.toNat := by
    rw [← BigEndian.decode_encode_of_lt (k := 2) (UInt16.toNat_lt channel'),
      ← BigEndian.decode_encode_of_lt (k := 2) (UInt16.toNat_lt channel)]
    exact congrArg BigEndian.decode hchannel
  have h32 : size'.toNat = size.toNat := by
    rw [← BigEndian.decode_encode_of_lt (k := 4) (UInt32.toNat_lt size'),
      ← BigEndian.decode_encode_of_lt (k := 4) (UInt32.toNat_lt size)]
    exact congrArg BigEndian.decode hsize
  rw [List.singleton_inj.mp htype, UInt16.toNat_inj.mp h16, UInt32.toNat_inj.mp h32]

/-! ### One read -/

/-- The read that is outstanding is one that the state of the connection lets be. --/
def Pending.Fits (conn : Connection) : Pending → Prop
  | .readProtocolHeader => conn.state = .AWAITING_PROTOCOL_HEADER
  | .readFrameHeader => conn.state ≠ .AWAITING_PROTOCOL_HEADER
  | .readFramePayload _ _ size => conn.state ≠ .AWAITING_PROTOCOL_HEADER ∧ size.toNat ≤ effectiveMax conn

theorem Pending.Fits.congr {conn conn' : Connection} {pending : Pending} (h : pending.Fits conn)
    (houter : conn'.outer = conn.outer) : pending.Fits conn' := by
  have hstate : conn'.outer.state = conn.outer.state := by rw [houter]
  have hmax : effectiveMax conn'.outer = effectiveMax conn.outer := by rw [houter]
  change conn'.state = conn.state at hstate
  change effectiveMax conn' = effectiveMax conn at hmax
  cases pending with
  | readProtocolHeader => exact hstate.trans h
  | readFrameHeader => exact hstate.trans_ne h
  | readFramePayload type channel size => exact ⟨hstate.trans_ne h.1, hmax ▸ h.2⟩

/-- The event that a completed read is. A frame that is too large is refused by its header, whatever its payload. --/
def readEvents (c : Nat) (conn : Connection) : Pending → Bytes → List Event
  | .readProtocolHeader, readBuf => [.protocolHeader c readBuf]
  | .readFrameHeader, readBuf =>
    let (type, channel, size) := frameHeader readBuf
    if effectiveMax conn < size.toNat then
      [.frame c { type, channel, payload := List.replicate size.toNat 0 } FRAME_END]
    else []
  | .readFramePayload type channel size, readBuf =>
    [.frame c { type, channel, payload := readBuf.take size.toNat } (readBuf.getD size.toNat 0)]

namespace AmqpServer

variable {c c' : Nat} {s s' : AmqpServer} {conn conn' : Connection} {pending : Pending} {readBuf : Bytes}

theorem handle_frame (hconn : s.connection c = some conn) (hreading : conn.reading = true)
    (hstate : conn.state ≠ .AWAITING_PROTOCOL_HEADER) (f : Frame) (frameEnd : UInt8) :
    s.handle (.frame c f frameEnd) = s.receiveFrame c conn f frameEnd := by
  rw [handle, hconn]
  exact if_pos ⟨hreading, hstate⟩

theorem receiveFrame_oversize {f : Frame} (h : effectiveMax conn < f.payload.length) (frameEnd : UInt8) :
    s.receiveFrame c conn f frameEnd = s.stopReading c (ascii "Frame too large") :=
  if_pos h

theorem receiveFrame_fits {f : Frame} (h : f.payload.length ≤ effectiveMax conn) (frameEnd : UInt8) :
    s.receiveFrame c conn f frameEnd =
      if frameEnd ≠ FRAME_END then s.stopReading c (ascii "Invalid frame-end byte")
      else
        match s.handleFrame c f with
        | .ok s => s
        | .error s => s.stopReading c (ascii "Internal error") :=
  if_neg (Nat.not_lt.mpr h)

/-- The handler of a read does what the event does. --/
theorem onRead_eq (hconn : s.connection c = some conn) (hreading : conn.reading = true) (hfits : pending.Fits conn)
    (hlen : readBuf.length = pending.readBufSize) :
    (s.onRead c conn pending readBuf).1 = s.run (readEvents c conn pending readBuf) := by
  cases pending with
  | readProtocolHeader =>
    change _ = s.handle (.protocolHeader c readBuf)
    rw [handle, hconn]
    exact (if_pos ⟨hreading, hfits⟩).symm
  | readFrameHeader =>
    rw [onRead, onFrameHeader, readEvents]
    obtain ⟨type, channel, size⟩ := frameHeader readBuf
    dsimp only
    split
    · rename_i hlarge
      have hpayload : effectiveMax conn < (List.replicate size.toNat (0 : UInt8)).length := by
        rw [List.length_replicate]
        exact hlarge
      exact ((handle_frame hconn hreading hfits _ _).trans (receiveFrame_oversize hpayload _)).symm
    · rfl
  | readFramePayload type channel size =>
    have hpayload : (readBuf.take size.toNat).length ≤ effectiveMax conn :=
      (List.length_take_le _ _).trans hfits.2
    exact ((handle_frame hconn hreading hfits.1 _ _).trans (receiveFrame_fits hpayload _)).symm

theorem not_reading_stopReading {text : Bytes} (h : (s.stopReading c text).connection c = some conn) :
    conn.reading = false := by
  rw [stopReading, connection, modifyConnection, Assoc.lookup_modify_self] at h
  obtain ⟨conn', -, rfl⟩ := Option.map_eq_some_iff.mp h
  rfl

/-- The bytes of the event are the bytes that were read, but for a header that another read goes on from. --/
theorem onRead_bytes (hreading : ∀ conn', (s.onRead c conn pending readBuf).1.connection c = some conn' →
      conn'.reading = true) (hconn : ∃ conn', (s.onRead c conn pending readBuf).1.connection c = some conn')
    (hlen : readBuf.length = pending.readBufSize) :
    pending.taken ++ readBuf =
      (readEvents c conn pending readBuf).flatMap (Event.bytes c) ++ (s.onRead c conn pending readBuf).2.taken := by
  cases pending with
  | readProtocolHeader =>
    simp only [readEvents, onRead, Pending.taken, List.flatMap_cons, List.flatMap_nil, Event.bytes, if_pos,
      List.append_nil, List.nil_append]
  | readFrameHeader =>
    have hheader := headerBytes_frameHeader hlen
    obtain ⟨conn', hconn'⟩ := hconn
    rw [onRead, onFrameHeader] at hconn' hreading ⊢
    rw [readEvents]
    generalize frameHeader readBuf = x at hheader hconn' hreading ⊢
    obtain ⟨type, channel, size⟩ := x
    dsimp only at hheader hconn' hreading ⊢
    by_cases hlarge : effectiveMax conn < size.toNat
    · rw [if_pos hlarge] at hconn' hreading
      exact absurd (hreading conn' hconn') (by rw [not_reading_stopReading hconn']; exact Bool.false_ne_true)
    · rw [if_neg hlarge, if_neg hlarge]
      exact hheader.symm
  | readFramePayload type channel size =>
    have hsize : size.toNat < readBuf.length := by
      rw [hlen]
      exact Nat.lt_succ_self _
    have hpayload : (readBuf.take size.toNat).length = size.toNat := by
      rw [List.length_take, min_eq_left hsize.le]
    have hend : readBuf = readBuf.take size.toNat ++ [readBuf.getD size.toNat 0] := by
      rw [List.getD_eq_getElem?_getD, List.getElem?_eq_getElem hsize, Option.getD_some, List.take_append_getElem,
        List.take_of_length_le]
      rw [hlen]
      exact le_rfl
    simp only [readEvents, onRead, Pending.taken, List.flatMap_cons, List.flatMap_nil, Event.bytes, if_pos, hpayload,
      UInt32.ofNat_toNat, List.append_nil, List.append_assoc, ← hend]

/-- After the protocol header the connection waits for the first method, or it is closed. --/
theorem state_receiveProtocolHeader (hv : Valid s) (header : Bytes)
    (h : (s.receiveProtocolHeader c header).connection c = some conn) : conn.state ≠ .AWAITING_PROTOCOL_HEADER := by
  have hsession : (s.receiveProtocolHeader c header).session c = some conn.session := by rw [session, h, Option.map_some]
  suffices hstate : conn.session.state = .AWAITING_START_OK ∨ conn.session.state = .CLOSED by
    intro hwait
    rcases hstate with hstate | hstate <;> rw [Connection.session, hwait] at hstate <;> cases hstate
  rw [receiveProtocolHeader] at hsession
  split at hsession
  · rw [sendConnectionStart, session_sendMethodFrame,
      session_modifyConnection _ (·.withState .AWAITING_START_OK) fun _ => rfl] at hsession
    obtain ⟨x, -, hx⟩ := Option.map_eq_some_iff.mp hsession
    exact .inl (hx ▸ rfl)
  · have hsend : Valid (s.send c .protocolHeader) := hv.move (c := c) (.send _)
    rw [session_shutdown hsend] at hsession
    obtain ⟨x, -, hx⟩ := Option.map_eq_some_iff.mp hsession
    exact .inr (hx ▸ rfl)

/-- Nor does it come back to waiting for the protocol header. --/
theorem state_handle (hv : Valid s) (hconn : s.connection c = some conn) {e : Event} (he : e ≠ .restart)
    (hstate : conn.state ≠ .AWAITING_PROTOCOL_HEADER) (h : (s.handle e).connection c = some conn') :
    conn'.state ≠ .AWAITING_PROTOCOL_HEADER := by
  have hsession : s.session c = some conn.session := by rw [session, hconn, Option.map_some]
  obtain ⟨y, hy, hstep⟩ := advance_handle hv hsession he
  obtain rfl : conn'.session = y := by
    rw [session, h, Option.map_some] at hy
    exact Option.some.inj hy
  intro hwait
  have hrank : conn.state.rank ≤ conn'.state.rank := hstep.rank_le
  rw [hwait] at hrank
  generalize conn.state = state at hstate hrank
  cases state <;> first | exact hstate rfl | exact absurd hrank (by decide)

/-- The read that follows fits as well. --/
theorem onRead_fits (hv : Valid s) (hconn : s.connection c = some conn) (hreading : conn.reading = true)
    (hfits : pending.Fits conn) (hlen : readBuf.length = pending.readBufSize)
    (h : (s.onRead c conn pending readBuf).1.connection c = some conn') (hreading' : conn'.reading = true) :
    (s.onRead c conn pending readBuf).2.Fits conn' := by
  have heq := onRead_eq hconn hreading hfits hlen
  cases pending with
  | readProtocolHeader => exact state_receiveProtocolHeader hv _ h
  | readFrameHeader =>
    rw [onRead, onFrameHeader] at h ⊢
    generalize frameHeader readBuf = x at h ⊢
    obtain ⟨type, channel, size⟩ := x
    dsimp only at h ⊢
    by_cases hlarge : effectiveMax conn < size.toNat
    · rw [if_pos hlarge] at h
      exact absurd hreading' (by rw [not_reading_stopReading h]; exact Bool.false_ne_true)
    · rw [if_neg hlarge] at h ⊢
      obtain rfl := Option.some.inj (hconn.symm.trans h)
      exact ⟨hfits, Nat.not_lt.mp hlarge⟩
  | readFramePayload type channel size =>
    rw [heq] at h
    refine state_handle (e := .frame c { type, channel, payload := readBuf.take size.toNat } (readBuf.getD size.toNat 0))
      hv hconn ?_ hfits.1 h
    exact Event.noConfusion

/-- The events of a connection leave the others alone. --/
theorem own_run_of_ne (hv : Valid s) (hconn : s.connection c' = some conn) (hne : c' ≠ c) (events : List Event)
    (he : ∀ e ∈ events, e ≠ .restart ∧ e.connection? = some c) : (s.run events).own c' = s.own c' := by
  induction events generalizing s conn with
  | nil => rfl
  | cons e events ih =>
    rw [List.forall_mem_cons] at he
    have hown : (s.handle e).own c' = s.own c' :=
      own_handle_of_ne hv hconn he.1.1 (by rw [he.1.2]; exact fun h => hne (Option.some.inj h).symm)
    obtain ⟨conn₁, hconn₁⟩ := exists_connection hv hconn he.1.1
    exact (ih (valid_handle hv e) hconn₁ he.2).trans hown

theorem readEvents_own (c : Nat) (conn : Connection) (pending : Pending) (readBuf : Bytes) :
    ∀ e ∈ readEvents c conn pending readBuf,
      e.isRead = true ∧ e ≠ .accept ∧ e ≠ .restart ∧ e.connection? = some c := by
  cases pending with
  | readProtocolHeader => simp [readEvents, Event.isRead, Event.connection?]
  | readFrameHeader =>
    rw [readEvents]
    dsimp only
    split <;> simp [Event.isRead, Event.connection?]
  | readFramePayload type channel size => simp [readEvents, Event.isRead, Event.connection?]

/-! ### What holds of every connection -/

/-- No frame is larger than what was offered. --/
theorem lasting_frameMax : Lasting fun conn => conn.frameMax.toNat ≤ 131072 where
  new := le_rfl
  inner := by
    intro conn conn' houter h
    have hmax : conn'.outer.frameMax = conn.outer.frameMax := by rw [houter]
    exact (congrArg UInt32.toNat hmax).trans_le h
  tuned := fun htuned h => htuned.frameMax.trans h
  shut := fun h => h

/-- A server whose connections keep to their limits. --/
structure Limited (s : AmqpServer) : Prop where
  valid : Valid s
  registered : Registered s
  limits : s.connections.All fun _ conn => conn.frameMax.toNat ≤ 131072

theorem Limited.handle (h : Limited s) (e : Event) : Limited (s.handle e) :=
  ⟨valid_handle h.valid e, registered_handle h.valid h.registered e, lasting_frameMax.handle h.valid h.limits e⟩

theorem Limited.run (h : Limited s) (events : List Event) : Limited (s.run events) :=
  List.foldlRecOn (motive := Limited) events _ h fun _ hs e _ => hs.handle e

theorem limited_start {store : Option MessageStore} {userStore : UserStore} {clock : Nat → Int} {readings : Nat} :
    Limited (start store userStore clock readings) := by
  refine ⟨valid_start, registered_start, ?_⟩
  rw [connections_start]
  exact .empty

theorem Limited.effectiveMax (h : Limited s) (hconn : s.connection c = some conn) : effectiveMax conn ≤ HARD_FRAME_MAX := by
  rw [Broker.effectiveMax]
  split
  · exact (h.limits c conn hconn).trans (by decide)
  · exact le_rfl

theorem absent_modify (hnone : s.connection c = none) (c' : Nat) (f : Connection → Connection) :
    (s.connections.modify c' f).lookup c = none := by
  rw [Assoc.lookup_modify]
  split
  · rename_i heq
    rw [← heq, show s.connections.lookup c = none from hnone]
    rfl
  · exact hnone

theorem absent_does {K : List Kind} (hv : Valid s) (h : Does c' K s s') (hK : Kind.server ∉ K)
    (hnone : s.connection c = none) : s'.connection c = none := by
  refine (h.moves hv).keeps (P := fun s : AmqpServer => s.connection c = none) (fun k hk s₁ s₂ hm hnone => ?_) hnone
  rw [connection]
  cases retouches_move hm with
  | same heq =>
    rw [heq]
    exact hnone
  | inner c' f _ heq =>
    rw [heq]
    exact absent_modify hnone c' f
  | tuned f _ _ heq =>
    rw [heq]
    exact absent_modify hnone _ f
  | shut _ heq =>
    rw [heq]
    exact absent_modify hnone _ _
  | accepted hk' =>
    subst hk'
    exact absurd hk hK

/-- Only `accept` makes a connection. --/
theorem absent_handle (hv : Valid s) {e : Event} (he : e ≠ .accept) (hrestart : e ≠ .restart)
    (hnone : s.connection c = none) : (s.handle e).connection c = none := by
  have hreq : ∀ k ∈ requestKinds, k ∈ Kind.oversize :: requestKinds := fun k => List.mem_cons_of_mem _
  cases e with
  | accept => exact absurd rfl he
  | restart => exact absurd rfl hrestart
  | protocolHeader c' header =>
    rw [AmqpServer.handle]
    split
    · exact hnone
    · rename_i hconn
      split
      · rename_i h
        exact absent_does hv (does_receiveProtocolHeader hconn h.2 header) (by decide) hnone
      · exact hnone
  | frame c' f frameEnd =>
    rw [AmqpServer.handle]
    split
    · exact hnone
    · split
      · exact absent_does hv (does_receiveFrame _ _ hreq (.inl List.mem_cons_self)) (by decide) hnone
      · exact hnone
  | runTask c' => exact absent_does hv does_runTask (by decide) hnone
  | disconnect c' => exact absent_does hv does_shutdown (by decide) hnone
  | tick =>
    have hdoes : Does 0 _ s s.tick := does_tick
    exact absent_does hv hdoes (by decide) hnone
  | compact => exact hnone
  | reorderQueues order => exact hnone
  | reorderExchanges order => exact hnone
  | reorderChannels c' order => exact absent_modify hnone c' _
  | reorderConsumers c' num order => exact absent_modify hnone c' _
  | reorderUnacked c' num order => exact absent_modify hnone c' _

theorem absent_run (hv : Valid s) (events : List Event) (he : ∀ e ∈ events, e ≠ .accept ∧ e ≠ .restart)
    (hnone : s.connection c = none) : (s.run events).connection c = none := by
  induction events generalizing s with
  | nil => exact hnone
  | cons e events ih =>
    rw [List.forall_mem_cons] at he
    exact ih (valid_handle hv e) he.2 (absent_handle hv he.1.1 he.1.2 hnone)

theorem reader_wants {x : AmqpServer × Pending} {n : Nat} (h : (reader c).wants x = some n) :
    ∃ conn, x.1.connection c = some conn ∧ conn.reading = true ∧ n = x.2.readBufSize := by
  obtain ⟨conn, hconn, hn⟩ := Option.map_eq_some_iff.mp h
  obtain ⟨hconn, hreading⟩ := Option.filter_eq_some_iff.mp hconn
  exact ⟨conn, hconn, hreading, hn.symm⟩

end AmqpServer

namespace Wire
open AmqpServer

variable {c c' : Nat} {w w' w₁ : Wire} {conn conn' : Connection}

/-- The outstanding reads fit, and a connection starts with nothing read. --/
structure Sound (w : Wire) : Prop where
  server : Limited w.server
  fresh : ∀ c, w.server.connection c = none → w.sockets c = {}
  pending : ∀ c conn, w.server.connection c = some conn → conn.reading = true → (w.sockets c).pending.Fits conn

/-- What a step does to the stream of a connection that is still read: what the events read and what is left to read is
    what was left before and what came. --/
structure Reads (w w' : Wire) (steps : List WireEvent) (events : List Event) : Prop where
  server : w'.server = w.server.run events
  others : events.filter (fun e => !e.isRead) = steps.filterMap WireEvent.event?
  stream : (∀ x ∈ steps, x.event? ≠ some .restart) → ∀ c conn conn', w.server.connection c = some conn →
    w'.server.connection c = some conn' → conn'.reading = true →
      conn.reading = true ∧ (w.sockets c).unread ++ steps.flatMap (WireEvent.bytes c) =
        events.flatMap (Event.bytes c) ++ (w'.sockets c).unread

theorem Reads.refl : Reads w w [] [] := by
  refine ⟨rfl, rfl, fun _ c conn conn' hconn hconn' hreading => ?_⟩
  obtain rfl := Option.some.inj (hconn.symm.trans hconn')
  exact ⟨hreading, List.append_nil _⟩

/-- No step but a restart takes a connection away. --/
theorem Reads.exists_connection (hw : Sound w) {steps : List WireEvent} {events : List Event}
    (h : Reads w w' steps events) (hrestart : ∀ x ∈ steps, x.event? ≠ some .restart)
    (hconn : w.server.connection c = some conn) : ∃ conn', w'.server.connection c = some conn' := by
  rw [h.server]
  refine exists_connection_run hw.server.valid hconn events fun hmem => ?_
  have hmem' : Event.restart ∈ steps.filterMap WireEvent.event? := h.others ▸ List.mem_filter.mpr ⟨hmem, rfl⟩
  obtain ⟨x, hx, heq⟩ := List.mem_filterMap.mp hmem'
  exact hrestart x hx heq

theorem Reads.trans (hw : Sound w) {steps₁ steps₂ : List WireEvent} {events₁ events₂ : List Event}
    (h₁ : Reads w w₁ steps₁ events₁) (h₂ : Reads w₁ w' steps₂ events₂) :
    Reads w w' (steps₁ ++ steps₂) (events₁ ++ events₂) := by
  refine ⟨?_, ?_, fun hrestart c conn conn' hconn hconn' hreading => ?_⟩
  · rw [h₂.server, h₁.server, AmqpServer.run, AmqpServer.run, AmqpServer.run, List.foldl_append]
  · rw [List.filter_append, h₁.others, h₂.others, List.filterMap_append]
  · rw [List.forall_mem_append] at hrestart
    have hno : .restart ∉ events₁ := by
      intro hmem
      have hmem' : Event.restart ∈ steps₁.filterMap WireEvent.event? := h₁.others ▸ List.mem_filter.mpr ⟨hmem, rfl⟩
      obtain ⟨x, hx, heq⟩ := List.mem_filterMap.mp hmem'
      exact hrestart.1 x hx heq
    obtain ⟨conn₁, hconn₁⟩ := exists_connection_run hw.server.valid hconn events₁ hno
    rw [← h₁.server] at hconn₁
    obtain ⟨hreading₁, hstream₂⟩ := h₂.stream hrestart.2 c conn₁ conn' hconn₁ hconn' hreading
    obtain ⟨hreading₀, hstream₁⟩ := h₁.stream hrestart.1 c conn conn₁ hconn hconn₁ hreading₁
    refine ⟨hreading₀, ?_⟩
    rw [List.flatMap_append, ← List.append_assoc, hstream₁, List.append_assoc, hstream₂, List.flatMap_append,
      List.append_assoc]

/-! ### Steps -/

@[simp] theorem server_setSocket (w : Wire) (c : Nat) (x : Socket) : (w.setSocket c x).server = w.server := rfl

@[simp] theorem sockets_setSocket_self (w : Wire) (c : Nat) (x : Socket) : (w.setSocket c x).sockets c = x :=
  Function.update_self ..

theorem sockets_setSocket_of_ne (w : Wire) (x : Socket) (h : c' ≠ c) : (w.setSocket c x).sockets c' = w.sockets c' :=
  Function.update_of_ne h ..

/-- The read of a connection completes, with what has arrived. --/
structure Completes (w : Wire) (c : Nat) (conn : Connection) (readBuf rest : Bytes) : Prop where
  connection : w.server.connection c = some conn
  reading : conn.reading = true
  arrived : (w.sockets c).arrived = readBuf ++ rest
  length : readBuf.length = (w.sockets c).pending.readBufSize

theorem took_eq {s : AmqpServer} (hconn : s.connection c = some conn) (pending : Pending) (readBuf : Bytes) :
    (reader c).took (s, pending) readBuf = s.onRead c conn pending readBuf := by
  simp only [reader, hconn]

theorem Completes.read (h : Completes w c conn readBuf rest) :
    (reader c).read (w.server, (w.sockets c).pending) (w.sockets c).arrived =
      some (w.server.onRead c conn (w.sockets c).pending readBuf, rest) := by
  have hwants : (reader c).wants (w.server, (w.sockets c).pending) = some readBuf.length := by
    change (((w.server.connection c).filter Connection.reading).map fun _ => (w.sockets c).pending.readBufSize) = _
    rw [h.connection, Option.filter_some, if_pos h.reading, Option.map_some, h.length]
  rw [ExactReads.Party.read_some hwants (by rw [h.arrived, List.length_append]; omega), h.arrived, List.take_left,
    List.drop_left, took_eq h.connection]

theorem handle_read (h : Completes w c conn readBuf rest) :
    w.handle (.read c) =
      { w with server := (w.server.onRead c conn (w.sockets c).pending readBuf).1 }.setSocket c
        { pending := (w.server.onRead c conn (w.sockets c).pending readBuf).2, arrived := rest } := by
  rw [handle, h.read]

/-- A read waits or completes. --/
theorem read_cases (w : Wire) (c : Nat) :
    w.handle (.read c) = w ∨ ∃ conn readBuf rest, Completes w c conn readBuf rest := by
  cases hread : (reader c).read (w.server, (w.sockets c).pending) (w.sockets c).arrived with
  | none =>
    refine .inl ?_
    rw [handle, hread]
  | some x =>
    obtain ⟨n, hwants, hlen, -, -⟩ := ExactReads.Party.read_eq_some (hread.trans (congrArg some (Prod.eta x).symm))
    obtain ⟨conn, hconn, hreading, rfl⟩ := reader_wants hwants
    refine .inr ⟨conn, (w.sockets c).arrived.take (w.sockets c).pending.readBufSize, _, hconn, hreading,
      (List.take_append_drop _ _).symm, ?_⟩
    rw [List.length_take]
    exact min_eq_left hlen

theorem sound_start {store : Option MessageStore} {userStore : UserStore} {clock : Nat → Int} {readings : Nat} :
    Sound (start store userStore clock readings) := by
  refine ⟨limited_start, fun _ _ => rfl, fun c conn hconn => ?_⟩
  rw [start, connection, connections_start] at hconn
  cases hconn

theorem Sound.data (h : Sound w) (c : Nat) (bytes : Bytes) : Sound (w.handle (.data c bytes)) := by
  rw [handle]
  split
  · exact h
  · rename_i conn hconn
    refine ⟨h.server, fun c' hnone => ?_, fun c' conn' hconn' hreading => ?_⟩
    · rw [server_setSocket] at hnone
      have hne : c' ≠ c := by
        rintro rfl
        rw [hconn] at hnone
        cases hnone
      rw [sockets_setSocket_of_ne _ _ hne]
      exact h.fresh c' hnone
    · rw [server_setSocket] at hconn'
      by_cases hc : c' = c
      · rw [hc, sockets_setSocket_self]
        exact hc ▸ h.pending c' conn' hconn' hreading
      · rw [sockets_setSocket_of_ne _ _ hc]
        exact h.pending c' conn' hconn' hreading

theorem Sound.read (h : Sound w) (hread : Completes w c conn readBuf rest) : Sound (w.handle (.read c)) := by
  have hfits := h.pending c conn hread.connection hread.reading
  have heq := onRead_eq hread.connection hread.reading hfits hread.length
  have hown := readEvents_own c conn (w.sockets c).pending readBuf
  rw [handle_read hread]
  refine ⟨?_, fun c' hnone => ?_, fun c' conn' hconn' hreading => ?_⟩
  · change Limited (w.server.onRead c conn (w.sockets c).pending readBuf).1
    rw [heq]
    exact h.server.run _
  · rw [server_setSocket] at hnone
    dsimp only at hnone
    rw [heq] at hnone
    have hnone' : w.server.connection c' = none := by
      by_contra hsome
      obtain ⟨conn', hconn'⟩ := Option.ne_none_iff_exists'.mp hsome
      obtain ⟨conn'', hconn''⟩ := exists_connection_run h.server.valid hconn' _ fun hmem => (hown _ hmem).2.2.1 rfl
      rw [hnone] at hconn''
      cases hconn''
    have hne : c' ≠ c := by
      rintro rfl
      rw [hread.connection] at hnone'
      cases hnone'
    rw [sockets_setSocket_of_ne _ _ hne]
    exact h.fresh c' hnone'
  · rw [server_setSocket] at hconn'
    dsimp only at hconn'
    by_cases hc : c' = c
    · subst hc
      rw [sockets_setSocket_self]
      exact onRead_fits h.server.valid hread.connection hread.reading hfits hread.length hconn' hreading
    · rw [sockets_setSocket_of_ne _ _ hc]
      rw [heq] at hconn'
      cases hbefore : w.server.connection c' with
      | none =>
        rw [absent_run h.server.valid _ (fun e he => ⟨(hown e he).2.1, (hown e he).2.2.1⟩) hbefore] at hconn'
        cases hconn'
      | some conn₀ =>
        have hsame := outer_of_own (own_run_of_ne h.server.valid hbefore hc _ fun e he => (hown e he).2.2)
        rw [outer, outer, hconn', hbefore, Option.map_some, Option.map_some] at hsame
        have houter := Option.some.inj hsame
        have hreads : conn₀.outer.reading = conn'.outer.reading := by rw [houter]
        exact (h.pending c' conn₀ hbefore (hreads.trans hreading)).congr houter

theorem Sound.event (h : Sound w) (e : Event) (he : e.isRead = false) : Sound (w.handle (.event e he)) := by
  rw [handle]
  by_cases hrestart : e = .restart
  · subst hrestart
    refine ⟨h.server.handle .restart, fun _ _ => rfl, fun c conn hconn => ?_⟩
    dsimp only at hconn
    rw [AmqpServer.handle, AmqpServer.restart, connection, connections_start] at hconn
    cases hconn
  · have hsockets : w.socketsAfter e = w.sockets := by
      cases e <;> first | rfl | exact absurd rfl hrestart
    rw [hsockets]
    refine ⟨h.server.handle e, fun c hnone => ?_, fun c conn' hconn' hreading => ?_⟩
    · refine h.fresh c ?_
      by_contra hsome
      obtain ⟨conn, hconn⟩ := Option.ne_none_iff_exists'.mp hsome
      obtain ⟨conn', hconn'⟩ := exists_connection h.server.valid hconn hrestart
      dsimp only at hnone
      rw [hnone] at hconn'
      cases hconn'
    · dsimp only at hconn' ⊢
      cases hbefore : w.server.connection c with
      | some conn =>
        obtain ⟨conn₁, hconn₁, houter⟩ := outer_event h.server.valid h.server.registered hbefore he hrestart
        obtain rfl := Option.some.inj (hconn₁.symm.trans hconn')
        have hreads : conn₁.outer.reading = conn.outer.reading := by rw [houter hreading]
        exact (h.pending c conn hbefore (hreads.symm.trans hreading)).congr (houter hreading)
      | none =>
        by_cases haccept : e = .accept
        · subst haccept
          rw [AmqpServer.handle, accept, connection] at hconn'
          dsimp only at hconn'
          have hnew : c = w.server.nextConnectionId := by
            by_contra hne
            rw [Assoc.lookup_insert_of_ne hne] at hconn'
            rw [connection, hconn'] at hbefore
            cases hbefore
          rw [h.fresh c hbefore]
          rw [hnew, Assoc.lookup_insert_self] at hconn'
          obtain rfl := Option.some.inj hconn'
          rfl
        · rw [absent_handle h.server.valid haccept hrestart hbefore] at hconn'
          cases hconn'

theorem Sound.handle (h : Sound w) (x : WireEvent) : Sound (w.handle x) := by
  cases x with
  | data c bytes => exact h.data c bytes
  | read c =>
    rcases read_cases w c with heq | ⟨conn, readBuf, rest, hread⟩
    · rw [heq]
      exact h
    · exact h.read hread
  | event e he => exact h.event e he

theorem Sound.run (h : Sound w) (steps : List WireEvent) : Sound (w.run steps) :=
  List.foldlRecOn (motive := Sound) steps _ h fun _ hw x _ => hw.handle x

/-! ### Streams -/

theorem reads_data (w : Wire) (c : Nat) (bytes : Bytes) : Reads w (w.handle (.data c bytes)) [.data c bytes] [] := by
  have hserver : (w.handle (.data c bytes)).server = w.server := by
    rw [handle]
    split <;> rfl
  refine ⟨hserver, rfl, fun _ c' conn conn' hconn hconn' hreading => ?_⟩
  rw [hserver] at hconn'
  obtain rfl := Option.some.inj (hconn.symm.trans hconn')
  refine ⟨hreading, ?_⟩
  rw [List.flatMap_nil, List.nil_append, List.flatMap_cons, List.flatMap_nil, List.append_nil, WireEvent.bytes]
  by_cases hc : c = c'
  · subst hc
    rw [if_pos rfl, handle, hconn]
    dsimp only
    rw [sockets_setSocket_self, Socket.unread, Socket.unread, List.append_assoc]
  · rw [if_neg hc, List.append_nil, handle]
    split
    · rfl
    · rw [sockets_setSocket_of_ne _ _ (Ne.symm hc)]

theorem reads_read (hw : Sound w) (hread : Completes w c conn readBuf rest) :
    Reads w (w.handle (.read c)) [.read c] (readEvents c conn (w.sockets c).pending readBuf) := by
  have hfits := hw.pending c conn hread.connection hread.reading
  have heq := onRead_eq hread.connection hread.reading hfits hread.length
  have hown := readEvents_own c conn (w.sockets c).pending readBuf
  have hserver : (w.handle (.read c)).server = (w.server.onRead c conn (w.sockets c).pending readBuf).1 := by
    rw [handle_read hread, server_setSocket]
  refine ⟨hserver.trans heq, ?_, fun _ c' conn₀ conn' hconn hconn' hreading => ?_⟩
  · rw [List.filter_eq_nil_iff.mpr fun e he => ?_]
    · rfl
    · rw [(hown e he).1]
      exact Bool.false_ne_true
  · rw [hserver] at hconn'
    rw [show [WireEvent.read c].flatMap (WireEvent.bytes c') = [] from rfl, List.append_nil]
    by_cases hc : c' = c
    · subst hc
      obtain rfl := Option.some.inj (hread.connection.symm.trans hconn)
      have hbytes := onRead_bytes (fun conn'' hconn'' => by
        obtain rfl := Option.some.inj (hconn'.symm.trans hconn'')
        exact hreading) ⟨conn', hconn'⟩ hread.length
      refine ⟨hread.reading, ?_⟩
      rw [handle_read hread, sockets_setSocket_self, Socket.unread, Socket.unread, hread.arrived, ← List.append_assoc,
        hbytes, List.append_assoc]
    · rw [heq] at hconn'
      have hsame := outer_of_own (own_run_of_ne hw.server.valid hconn hc _ fun e he => (hown e he).2.2)
      rw [outer, outer, hconn', hconn, Option.map_some, Option.map_some] at hsame
      have hreads : conn₀.outer.reading = conn'.outer.reading := by rw [Option.some.inj hsame]
      have hnothing : (readEvents c conn (w.sockets c).pending readBuf).flatMap (Event.bytes c') = [] := by
        rw [List.flatMap_eq_nil_iff]
        exact fun e he => bytes_of_ne (by rw [(hown e he).2.2.2]; exact fun h => hc (Option.some.inj h).symm)
      rw [handle_read hread, sockets_setSocket_of_ne _ _ hc, hnothing]
      exact ⟨hreads.trans hreading, rfl⟩

theorem reads_event (hw : Sound w) (e : Event) (he : e.isRead = false) :
    Reads w (w.handle (.event e he)) [.event e he] [e] := by
  refine ⟨rfl, ?_, fun hrestart c conn conn' hconn hconn' hreading => ?_⟩
  · rw [List.filter_cons, he]
    rfl
  · have hne : e ≠ .restart := fun h => hrestart _ List.mem_cons_self (congrArg some h)
    have hsockets : w.socketsAfter e = w.sockets := by
      cases e <;> first | rfl | exact absurd rfl hne
    obtain ⟨conn₁, hconn₁, houter⟩ := outer_event hw.server.valid hw.server.registered hconn he hne
    obtain rfl := Option.some.inj (hconn₁.symm.trans hconn')
    have hreads : conn₁.outer.reading = conn.outer.reading := by rw [houter hreading]
    refine ⟨hreads.symm.trans hreading, ?_⟩
    rw [List.flatMap_cons, List.flatMap_nil, List.flatMap_cons, List.flatMap_nil, bytes_of_isRead he, handle, hsockets]
    exact List.append_nil _

/-- A run of the wire is a run of the events that it reads and of the others, in some order. --/
theorem exists_reads (hw : Sound w) (steps : List WireEvent) : ∃ events, Reads w (w.run steps) steps events := by
  induction steps generalizing w with
  | nil => exact ⟨[], .refl⟩
  | cons x steps ih =>
    have hstep : ∃ events, Reads w (w.handle x) [x] events := by
      cases x with
      | data c bytes => exact ⟨_, reads_data w c bytes⟩
      | read c =>
        rcases read_cases w c with heq | ⟨conn, readBuf, rest, hread⟩
        · refine ⟨[], ?_⟩
          rw [heq]
          exact ⟨rfl, rfl, fun _ => Reads.refl.stream (List.forall_mem_nil _)⟩
        · exact ⟨_, reads_read hw hread⟩
      | event e he => exact ⟨_, reads_event hw e he⟩
    obtain ⟨events, hstep⟩ := hstep
    obtain ⟨events', hrun⟩ := ih (hw.handle x)
    exact ⟨events ++ events', hstep.trans hw hrun⟩

section Runs

variable {store : Option MessageStore} {userStore : UserStore} {clock : Nat → Int} {readings : Nat}

/-- In every run of the broker on its sockets, whatever pieces the bytes come in, the broker does what it does in some run
    of the same other events and of frames that arrive one by one; and as long as a connection is read, these frames are
    the bytes that have come for it, each once and in their order, up to what is left to read. --/
theorem reads_refine {pre steps : List WireEvent} (hrestart : ∀ x ∈ steps, x.event? ≠ some .restart) :
    let w := (start store userStore clock readings).run pre
    let c := w.server.nextConnectionId
    let w' := (w.handle (.event .accept rfl)).run steps
    ∃ before events : List Event,
      w.server = (AmqpServer.start store userStore clock readings).run before ∧ w'.server = w.server.accept.run events ∧
      events.filter (fun e => !e.isRead) = steps.filterMap WireEvent.event? ∧
      ∀ conn, w'.server.connection c = some conn → conn.reading = true →
        steps.flatMap (WireEvent.bytes c) = events.flatMap (Event.bytes c) ++ (w'.sockets c).unread ∧
        ∀ type channel size, (w'.sockets c).pending = .readFramePayload type channel size →
          (size + 1).toNat = size.toNat + 1 := by
  intro w c w'
  have hw : Sound w := sound_start.run pre
  have haccept : Sound (w.handle (.event .accept rfl)) := hw.handle _
  obtain ⟨before, hbefore⟩ := exists_reads (@sound_start store _ _ _) pre
  obtain ⟨events, hevents⟩ := exists_reads haccept steps
  refine ⟨before, events, hbefore.server, hevents.server, hevents.others, fun conn hconn hreading => ⟨?_, ?_⟩⟩
  · have hnew : (w.handle (.event .accept rfl)).server.connection c = some {} := Assoc.lookup_insert_self ..
    have hnone : w.server.connection c = none := by
      by_contra hsome
      obtain ⟨conn', hconn'⟩ := Option.ne_none_iff_exists'.mp hsome
      exact absurd (hw.server.valid.connections c conn' hconn').1 (Nat.lt_irrefl _)
    have hsocket : (w.handle (.event .accept rfl)).sockets c = {} := hw.fresh c hnone
    obtain ⟨-, hstream⟩ := hevents.stream hrestart c {} conn hnew hconn hreading
    rw [hsocket] at hstream
    exact hstream
  · intro type channel size hpending
    have hw' : Sound w' := haccept.run steps
    have hfits := hw'.pending c conn hconn hreading
    rw [hpending] at hfits
    have hsize : size.toNat ≤ HARD_FRAME_MAX := hfits.2.trans (hw'.server.effectiveMax hconn)
    rw [UInt32.toNat_add, Nat.mod_eq_of_lt]
    · rfl
    · exact lt_of_le_of_lt (Nat.add_le_add_right hsize _) (by decide)

/-- A protocol header that comes in two pieces, on the first connection. --/
def headerSteps : List WireEvent :=
  [.data 1 (PROTOCOL_HEADER.take 3), .read 1, .data 1 (PROTOCOL_HEADER.drop 3), .read 1]

/-- Then a login that comes in two pieces, and a second connection between these. --/
def loginSteps : List WireEvent :=
  headerSteps ++ [.data 1 ((Event.bytes 1 (Client.startOk 1 "guest" "guest")).take 20), .read 1, .event .accept rfl, .read 1,
    .data 1 ((Event.bytes 1 (Client.startOk 1 "guest" "guest")).drop 20), .read 1, .read 1]

def loginWire : Wire := (((start (some {}) {} (fun _ => 0) 0).run []).handle (.event .accept rfl)).run loginSteps

theorem loginSteps_refine :
    (loginWire.server.connection 1).map Connection.state = some .AWAITING_TUNE_OK ∧
      ∃ events : List Event, loginWire.server = freshServer.accept.run events ∧
        events.filter (fun e => !e.isRead) = [.accept] ∧
        PROTOCOL_HEADER ++ Event.bytes 1 (Client.startOk 1 "guest" "guest") = events.flatMap (Event.bytes 1) := by
  obtain ⟨before, events, -, hserver, hothers, hstream⟩ :=
    @reads_refine (some {}) {} (fun _ => 0) 0 [] loginSteps (by simp [loginSteps, headerSteps, WireEvent.event?])
  have hstate : (loginWire.server.connection 1).map Connection.state = some .AWAITING_TUNE_OK := by decide +kernel
  have hreading : (loginWire.server.connection 1).map Connection.reading = some true := by decide +kernel
  have hunread : (loginWire.sockets 1).unread = [] := by decide +kernel
  obtain ⟨conn, hconn, hread⟩ := Option.map_eq_some_iff.mp hreading
  have hbytes : loginSteps.flatMap (WireEvent.bytes 1) = events.flatMap (Event.bytes 1) ++ (loginWire.sockets 1).unread :=
    (hstream conn hconn hread).1
  rw [hunread, List.append_nil] at hbytes
  exact ⟨hstate, events, hserver, hothers, Eq.trans (by decide +kernel) hbytes⟩

end Runs

/-! ### Chunks -/

/-- The wire after reads of one connection. --/
def put (w : Wire) (c : Nat) (x : (AmqpServer × Pending) × Bytes) : Wire :=
  { w with server := x.1.1 }.setSocket c { pending := x.1.2, arrived := x.2 }

def state (w : Wire) (c : Nat) : AmqpServer × Pending := (w.server, (w.sockets c).pending)

theorem put_self (w : Wire) (c : Nat) : w.put c (w.state c, (w.sockets c).arrived) = w := by
  rw [put, setSocket, state]
  dsimp only
  rw [Function.update_eq_self]

theorem put_put (w : Wire) (c : Nat) (x y : (AmqpServer × Pending) × Bytes) : (w.put c x).put c y = w.put c y := by
  simp only [put, setSocket, Function.update_idem]

theorem handle_read_wait (h : (reader c).read (w.state c) (w.sockets c).arrived = none) : w.handle (.read c) = w := by
  rw [state] at h
  rw [handle, h]

theorem handle_read_put {x : (AmqpServer × Pending) × Bytes}
    (h : (reader c).read (w.state c) (w.sockets c).arrived = some x) : w.handle (.read c) = w.put c x := by
  rw [state] at h
  rw [handle, h]
  rfl

theorem state_put (w : Wire) (c : Nat) (x : (AmqpServer × Pending) × Bytes) : (w.put c x).state c = x.1 := by
  rw [state, put, sockets_setSocket_self, server_setSocket]

theorem arrived_put (w : Wire) (c : Nat) (x : (AmqpServer × Pending) × Bytes) :
    ((w.put c x).sockets c).arrived = x.2 := by
  rw [put, sockets_setSocket_self]

theorem iterate_read (n : Nat) (w : Wire) (c : Nat) :
    Nat.iterate (fun w => w.handle (.read c)) n w =
      w.put c ((reader c).reads n (w.state c) (w.sockets c).arrived) := by
  induction n generalizing w with
  | zero => exact (put_self w c).symm
  | succ n ih =>
    rw [Function.iterate_succ_apply, ih]
    cases hread : (reader c).read (w.state c) (w.sockets c).arrived with
    | none => rw [handle_read_wait hread, ExactReads.Party.reads_wait hread, ExactReads.Party.reads_wait hread]
    | some x => rw [handle_read_put hread, put_put, state_put, arrived_put, ExactReads.Party.reads_read hread]

theorem readAll_eq (w : Wire) (c : Nat) :
    w.readAll c = w.put c ((reader c).pump (w.state c) (w.sockets c).arrived) :=
  iterate_read ..

theorem readAll_run (w : Wire) (c : Nat) :
    w.readAll c = w.run (List.replicate ((w.sockets c).arrived.length + 1) (.read c)) := by
  rw [readAll, run]
  generalize (w.sockets c).arrived.length + 1 = n
  induction n generalizing w with
  | zero => rfl
  | succ n ih => exact ih (w.handle (.read c))

theorem Sound.readAll (hw : Sound w) (c : Nat) : Sound (w.readAll c) := by
  rw [readAll_run]
  exact hw.run _

theorem exists_connection_readAll (hw : Sound w) (hconn : w.server.connection c = some conn) :
    ∃ conn', (w.readAll c).server.connection c = some conn' := by
  obtain ⟨events, hreads⟩ := exists_reads hw (List.replicate ((w.sockets c).arrived.length + 1) (.read c))
  rw [readAll_run]
  refine Reads.exists_connection hw hreads (fun x hx => ?_) hconn
  rw [List.eq_of_mem_replicate hx]
  exact (Option.some_ne_none _).symm

/-- What comes in chunks is read as the connection reads a stream. --/
theorem receive_eq (hw : Sound w) (hconn : w.server.connection c = some conn) (chunks : List Bytes) :
    w.receive c chunks = w.put c ((reader c).feed (w.state c) (w.sockets c).arrived chunks) := by
  induction chunks generalizing w conn with
  | nil => exact (put_self w c).symm
  | cons chunk chunks ih =>
    have hdata : w.handle (.data c chunk) = w.put c (w.state c, (w.sockets c).arrived ++ chunk) := by
      rw [handle, hconn]
      rfl
    have hsound : Sound (w.handle (.data c chunk)) := hw.handle _
    have hconn₁ : (w.handle (.data c chunk)).server.connection c = some conn := by
      rw [hdata]
      exact hconn
    obtain ⟨conn₂, hconn₂⟩ := exists_connection_readAll hsound hconn₁
    have hall : (w.handle (.data c chunk)).readAll c =
        w.put c ((reader c).pump (w.state c) ((w.sockets c).arrived ++ chunk)) := by
      rw [readAll_eq, hdata, put_put, state_put, arrived_put]
    rw [receive, List.foldl_cons, ← receive, ih (hsound.readAll c) hconn₂, hall, put_put, state_put, arrived_put,
      ExactReads.Party.feed, ExactReads.Party.feed, List.foldl_cons]

/-! ### Frames -/

theorem wants_eq {s : AmqpServer} (hconn : s.connection c = some conn) (hreading : conn.reading = true)
    (pending : Pending) : (reader c).wants (s, pending) = some pending.readBufSize := by
  change (((s.connection c).filter Connection.reading).map fun _ => pending.readBufSize) = _
  rw [hconn, Option.filter_some, if_pos hreading, Option.map_some]

theorem wants_none {s : AmqpServer} (hconn : s.connection c = some conn) (hreading : conn.reading = false)
    (pending : Pending) : (reader c).wants (s, pending) = none := by
  change (((s.connection c).filter Connection.reading).map fun _ => pending.readBufSize) = _
  rw [hconn, Option.filter_some, hreading]
  rfl

theorem handle_frame_not_reading {s : AmqpServer} (hconn : s.connection c = some conn) (hreading : conn.reading = false)
    (f : Frame) (frameEnd : UInt8) : s.handle (.frame c f frameEnd) = s := by
  rw [AmqpServer.handle, hconn]
  exact if_neg fun h => Bool.false_ne_true (hreading.symm.trans h.1)

/-- A frame at the front of the stream is handled; if the connection is still read, what is behind it is next. --/
theorem pump_frame {s : AmqpServer} (hconn : s.connection c = some conn) (hreading : conn.reading = true)
    (hstate : conn.state ≠ .AWAITING_PROTOCOL_HEADER) {f : Frame} (hlen : f.payload.length < 2 ^ 32) (more : Bytes) :
    ∃ left, (reader c).pump (s, .readFrameHeader) (f.encode ++ more) =
        (reader c).pump (s.handle (.frame c f FRAME_END), .readFrameHeader) left ∧
      ∀ conn', (s.handle (.frame c f FRAME_END)).connection c = some conn' → conn'.reading = true → left = more := by
  set size := UInt32.ofNat f.payload.length with hsize
  have hsizeNat : size.toNat = f.payload.length := by rw [hsize, UInt32.toNat_ofNat', Nat.mod_eq_of_lt hlen]
  have hbytes : f.encode ++ more = headerBytes f.type f.channel size ++ ((f.payload ++ [FRAME_END]) ++ more) := by
    simp only [Frame.encode, headerBytes, writeUint8, hsize, List.append_assoc]
  have hheader : (reader c).wants (s, .readFrameHeader) = some (headerBytes f.type f.channel size).length := by
    rw [wants_eq hconn hreading, length_headerBytes]
    rfl
  rw [hbytes, ExactReads.Party.pump_piece hheader, took_eq hconn, onRead, onFrameHeader, frameHeader_headerBytes]
  dsimp only
  by_cases hlarge : effectiveMax conn < size.toNat
  · rw [if_pos hlarge]
    rw [hsizeNat] at hlarge
    have heq := (handle_frame hconn hreading hstate f FRAME_END).trans (receiveFrame_oversize hlarge _)
    rw [heq]
    refine ⟨_, rfl, fun conn' hconn' hreading' => ?_⟩
    exact absurd hreading' (by rw [not_reading_stopReading hconn']; exact Bool.false_ne_true)
  · rw [if_neg hlarge]
    rw [hsizeNat, Nat.not_lt] at hlarge
    have hpayload : (reader c).wants (s, .readFramePayload f.type f.channel size) =
        some (f.payload ++ [FRAME_END]).length := by
      rw [wants_eq hconn hreading, List.length_append, List.length_singleton, ← hsizeNat]
      rfl
    have hend : (f.payload ++ [FRAME_END]).getD size.toNat 0 = FRAME_END := by
      rw [hsizeNat, List.getD_eq_getElem?_getD, List.getElem?_append_right le_rfl, Nat.sub_self]
      rfl
    have hhandle : s.onFramePayload c f.type f.channel size (f.payload ++ [FRAME_END]) = s.handle (.frame c f FRAME_END) := by
      rw [onFramePayload, hend, hsizeNat, List.take_left' rfl, handle_frame hconn hreading hstate]
      exact (receiveFrame_fits hlarge _).symm
    rw [ExactReads.Party.pump_piece hpayload, took_eq hconn, onRead, hhandle]
    exact ⟨more, rfl, fun _ _ _ => rfl⟩

/-- A stream of frames is read frame by frame. A frame after which the connection is not read any more is the last one
    that has an effect. --/
theorem pump_frames {s : AmqpServer} (hv : Valid s) (hconn : s.connection c = some conn)
    (hstate : conn.state ≠ .AWAITING_PROTOCOL_HEADER) (frames : List Frame)
    (hframes : ∀ f ∈ frames, f.payload.length < 2 ^ 32) {buf : Bytes}
    (hbuf : conn.reading = true → buf = frames.flatMap Frame.encode) :
    ((reader c).pump (s, .readFrameHeader) buf).1.1 = s.run (frames.map fun f => .frame c f FRAME_END) := by
  induction frames generalizing s conn buf with
  | nil =>
    rw [ExactReads.Party.pump_wait]
    · rfl
    · cases hreading : conn.reading with
      | false => rw [ExactReads.Party.read, wants_none hconn hreading]
      | true =>
        rw [hbuf hreading, ExactReads.Party.read, wants_eq hconn hreading]
        rfl
  | cons f frames ih =>
    rw [List.forall_mem_cons] at hframes
    have hne : Event.frame c f FRAME_END ≠ .restart := Event.noConfusion
    obtain ⟨conn₁, hconn₁⟩ := exists_connection hv hconn hne
    have hstate₁ := state_handle hv hconn hne hstate hconn₁
    have hrest := @ih conn₁ (s.handle (.frame c f FRAME_END))
    rw [List.map_cons, AmqpServer.run, List.foldl_cons, ← AmqpServer.run]
    cases hreading : conn.reading with
    | false =>
      rw [ExactReads.Party.pump_stopped (wants_none hconn hreading _)]
      have hsame := handle_frame_not_reading hconn hreading f FRAME_END
      rw [hsame] at hrest hconn₁ ⊢
      obtain rfl := Option.some.inj (hconn.symm.trans hconn₁)
      have hdone : ((reader c).pump (s, .readFrameHeader) buf).1.1 = _ :=
        hrest hv hconn hstate hframes.2 fun h => absurd (hreading.symm.trans h) Bool.false_ne_true
      rwa [ExactReads.Party.pump_stopped (wants_none hconn hreading _)] at hdone
    | true =>
      obtain ⟨left, hpump, hleft⟩ := pump_frame hconn hreading hstate hframes.1 (frames.flatMap Frame.encode)
      rw [hbuf hreading, List.flatMap_cons, hpump]
      exact hrest (valid_handle hv _) hconn₁ hstate₁ hframes.2 (hleft conn₁ hconn₁)

section Chunks

variable {store : Option MessageStore} {userStore : UserStore} {clock : Nat → Int} {readings : Nat}

/-- A connection that has read all that has come: what the next bytes lead to does not depend on how they are cut, and
    frames lead to where they lead one by one. --/
theorem receive_frames {steps : List WireEvent}
    (hconn : ((start store userStore clock readings).run steps).server.connection c = some conn)
    (hread : ((start store userStore clock readings).run steps).sockets c = { pending := .readFrameHeader, arrived := [] })
    (hreading : conn.reading = true) :
    let w := (start store userStore clock readings).run steps
    (∀ chunks chunks' : List Bytes, chunks.flatten = chunks'.flatten → w.receive c chunks = w.receive c chunks') ∧
    ∀ frames : List Frame, (∀ f ∈ frames, f.payload.length < 2 ^ 32) → ∀ chunks : List Bytes,
      chunks.flatten = frames.flatMap Frame.encode →
      (w.receive c chunks).server = w.server.run (frames.map fun f => .frame c f FRAME_END) := by
  intro w
  have hw : Sound w := sound_start.run steps
  have hwait : (reader c).read (w.state c) (w.sockets c).arrived = none := by
    rw [state, hread, ExactReads.Party.read, wants_eq hconn hreading]
    rfl
  refine ⟨fun chunks chunks' hflat => ?_, fun frames hframes chunks hflat => ?_⟩
  · rw [receive_eq hw hconn, receive_eq hw hconn, ExactReads.Party.feed_congr hwait hflat]
  · have hfits := hw.pending c conn hconn hreading
    rw [show w.sockets c = _ from hread] at hfits
    rw [receive_eq hw hconn, ExactReads.Party.feed_eq hwait, state, show w.sockets c = _ from hread, hflat]
    exact pump_frames hw.server.valid hconn hfits frames hframes fun _ => List.nil_append _

/-- The client has been asked to log in, and everything it has sent was read. --/
def askedSteps : List WireEvent := .event .accept rfl :: headerSteps

def askedWire : Wire := (start (some {}) {} (fun _ => 0) 0).run askedSteps

def heartbeats : List Frame := [{ type := FRAME_HEARTBEAT }, { type := FRAME_HEARTBEAT }]

/-- Two heartbeats that come byte by byte. --/
theorem heartbeats_receive :
    (askedWire.receive 1 ((heartbeats.flatMap Frame.encode).map fun b => [b])).server =
      askedWire.server.run (heartbeats.map fun f => .frame 1 f FRAME_END) := by
  have hreading : (askedWire.server.connection 1).map Connection.reading = some true := by decide +kernel
  obtain ⟨conn, hconn, hread⟩ := Option.map_eq_some_iff.mp hreading
  have hpending : (askedWire.sockets 1).pending = .readFrameHeader := by decide +kernel
  have harrived : (askedWire.sockets 1).arrived = [] := by decide +kernel
  have hsocket : askedWire.sockets 1 = { pending := .readFrameHeader, arrived := [] } := congrArg₂ Socket.mk hpending harrived
  exact (@receive_frames 1 conn (some {}) {} (fun _ => 0) 0 askedSteps hconn hsocket hread).2 heartbeats (by simp [heartbeats]) _
    (by decide)

end Chunks

end Wire
end Broko.Broker
