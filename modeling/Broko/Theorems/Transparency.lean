import Broko.Broker.Client
import Broko.Sdk.Channel
import Broko.Theorems.Carried
import Broko.Theorems.Requests
import Broko.Theorems.Runs

/-! A message from the client that publishes it to the client that consumes it. The two chunkers cut the body at their own
    limits; both reassemblers only count bytes, so they stop at the last piece whatever the cuts are. -/

namespace Broko.Sdk
open Amqp BasicProperties Reader

/-! ### Properties -/

namespace Properties

/-- The properties that are strings. --/
def texts (p : Properties) : List (Option String) :=
  [p.contentType, p.contentEncoding, p.correlationId, p.replyTo, p.expiration, p.messageId, p.type, p.userId, p.appId,
    p.clusterId]

/-- They are at most 255 bytes long. --/
def Short (p : Properties) : Prop := ∀ field ∈ p.texts, ∀ text ∈ field, (Utf8.encode text).length ≤ 255

end Properties

namespace Options

/-- The properties that a receiver is to get. --/
def given (p : Options) : Properties := { p.toProperties with deliveryMode := p.mode }

end Options

/-- The properties as the broker has them, where there are no headers: a string is its bytes. --/
def Properties.onBroker (p : Properties) : BasicProperties :=
  { content_type := p.contentType.map Utf8.encode, content_encoding := p.contentEncoding.map Utf8.encode,
    delivery_mode := p.deliveryMode, priority := p.priority, correlation_id := p.correlationId.map Utf8.encode,
    reply_to := p.replyTo.map Utf8.encode, expiration := p.expiration.map Utf8.encode,
    message_id := p.messageId.map Utf8.encode, timestamp := p.timestamp, type := p.type.map Utf8.encode,
    user_id := p.userId.map Utf8.encode, app_id := p.appId.map Utf8.encode, cluster_id := p.clusterId.map Utf8.encode }

theorem Properties.Short.wellFormed {p : Properties} (h : p.Short) : p.onBroker.WellFormed := by
  have hfits : ∀ field ∈ p.texts, FitsShort (field.map Utf8.encode) := by
    intro field hfield bytes hbytes
    obtain ⟨text, htext, rfl⟩ := Option.map_eq_some_iff.mp hbytes
    exact h field hfield text htext
  constructor
  case headers => exact fun _ h => nomatch h
  all_goals exact hfits _ (by simp [Properties.texts])

/-! ### Reading -/

theorem reads_slice {bs : Bytes} {n : Nat} (h : bs.length = n) : Reads (Codec.readSlice n) bs bs := by
  intro pos rest
  rw [Codec.readSlice]
  dsimp only
  rw [← h, List.take_left, List.drop_left]

/-- A short string of the broker, as the client reads it. --/
theorem reads_text (bs : Bytes) : Reads Codec.readShortString (Amqp.writeShortString bs) (Utf8.decode (bs.take 255)) := by
  have hlen : (bs.take (min bs.length 255)).length = (UInt8.ofNat (min bs.length 255)).toNat := by
    rw [UInt8.toNat_ofNat_of_lt' (by simp only [UInt8.size]; omega), List.length_take]
    omega
  have htake : bs.take (min bs.length 255) = bs.take 255 := by
    rw [Nat.min_comm, ← List.take_take, List.take_length]
  refine (reads_uint8 _).bind ?_
  rw [← htake]
  exact (reads_slice hlen).map

/-- The body is cut into these pieces, none of them empty and none larger than the limit. --/
structure Cut (limit : Nat) (body : Bytes) (pieces : List Bytes) : Prop where
  flatten : pieces.flatten = body
  ne_nil : ∀ piece ∈ pieces, piece ≠ []
  le : ∀ piece ∈ pieces, piece.length ≤ limit

theorem Cut.cons {limit : Nat} {body : Bytes} {pieces : List Bytes} (hlimit : 0 < limit) (hne : body ≠ [])
    (h : Cut limit (body.drop limit) pieces) : Cut limit body (body.take limit :: pieces) := by
  constructor
  · rw [List.flatten_cons, h.flatten, List.take_append_drop]
  · refine List.forall_mem_cons.mpr ⟨?_, h.ne_nil⟩
    rw [Ne, List.take_eq_nil_iff, not_or]
    exact ⟨Nat.ne_of_gt hlimit, hne⟩
  · exact List.forall_mem_cons.mpr ⟨List.length_take_le .., h.le⟩

theorem cut_nil (limit : Nat) : Cut limit [] [] := ⟨rfl, nofun, nofun⟩

/-- The `do` loop of the broker, on a body that is not empty. --/
theorem cut_bodyChunks {limit : Nat} (hlimit : 0 < limit) (turns : Nat) (body : Bytes) (hturns : body.length ≤ turns)
    (hne : body ≠ []) : Cut limit body (Broker.bodyChunks limit turns body) := by
  induction turns generalizing body with
  | zero => exact absurd (List.length_eq_zero_iff.mp (Nat.le_zero.mp hturns)) hne
  | succ turns ih =>
    rw [Broker.bodyChunks]
    refine .cons hlimit hne ?_
    split
    · rename_i hle
      rw [List.drop_of_length_le hle]
      exact cut_nil limit
    · rename_i hlt
      have hlen : 0 < (body.drop limit).length := by
        rw [List.length_drop]
        omega
      exact ih _ (by rw [List.length_drop]; omega) (List.length_pos_iff.mp hlen)

/-! ### The client that consumes -/

namespace Channel
variable {κ : Type} {ch : Channel κ}

end Channel

end Broko.Sdk

namespace Broko.Broker
open Amqp Storage Reader

namespace AmqpServer

variable {c : Nat} {num : UInt16} {frameMax : UInt32} {s s' : AmqpServer}

/-! ### The broker that receives -/

/-- The connection is open and reads, and so is the channel. --/
structure Ready (c : Nat) (num : UInt16) (frameMax : UInt32) (s : AmqpServer) : Prop where
  connection : ∃ conn, s.connection c = some conn ∧ conn.reading = true ∧ conn.state = .OPEN ∧ conn.frameMax = frameMax
  channel : ∃ ch, s.channel c num = some ch ∧ ch.isOpen = true

namespace Ready

theorem of_own (h : Ready c num frameMax s) (hown : s'.own c = s.own c) : Ready c num frameMax s' := by
  obtain ⟨⟨conn, hconn, hread, hstate, hmax⟩, hchannel⟩ := h
  rw [← channel_of_own hown num] at hchannel
  rw [own, own, hconn, Option.map_some, Option.map_eq_some_iff] at hown
  obtain ⟨conn', hconn', heq⟩ := hown
  simp only [Connection.mk.injEq] at heq
  obtain ⟨hstate', -, hmax', -, -, -, hread', -⟩ := heq
  exact ⟨⟨conn', hconn', hread'.trans hread, hstate'.trans hstate, hmax'.trans hmax⟩, hchannel⟩

theorem modifyConnection (h : Ready c num frameMax s) {f : Connection → Connection}
    (hf : ∀ conn, (f conn).reading = conn.reading ∧ (f conn).state = conn.state ∧ (f conn).frameMax = conn.frameMax ∧
      ((f conn).channels.lookup num).map Channel.isOpen = (conn.channels.lookup num).map Channel.isOpen) :
    Ready c num frameMax (s.modifyConnection c f) := by
  obtain ⟨⟨conn, hconn, hread, hstate, hmax⟩, ch, hch, hopen⟩ := h
  obtain ⟨hread', hstate', hmax', hopen'⟩ := hf conn
  have hconn' : (s.modifyConnection c f).connection c = some (f conn) := by
    rw [AmqpServer.connection, AmqpServer.modifyConnection, Assoc.lookup_modify_self, ← AmqpServer.connection, hconn]
    rfl
  rw [AmqpServer.channel, hconn, Option.bind_some] at hch
  rw [hch, Option.map_some, hopen, Option.map_eq_some_iff] at hopen'
  refine ⟨⟨f conn, hconn', hread'.trans hread, hstate'.trans hstate, hmax'.trans hmax⟩, ?_⟩
  rw [AmqpServer.channel, hconn']
  exact hopen'

theorem modifyChannel (h : Ready c num frameMax s) {f : Channel → Channel} (hf : ∀ ch, (f ch).isOpen = ch.isOpen) :
    Ready c num frameMax (s.modifyChannel c num f) := by
  refine h.modifyConnection fun conn => ⟨rfl, rfl, rfl, ?_⟩
  rw [Assoc.lookup_modify_self, Option.map_map]
  exact congrArg (fun g => (conn.channels.lookup num).map g) (funext hf)

theorem setPending (h : Ready c num frameMax s) (p : Option PendingPublish) : Ready c num frameMax (s.setPending c num p) :=
  h.modifyChannel fun _ => rfl

theorem pending_setPending (h : Ready c num frameMax s) (p : Option PendingPublish) :
    ((s.setPending c num p).channel c num).bind Channel.pendingPublish = p := by
  obtain ⟨ch, hch, -⟩ := h.channel
  rw [AmqpServer.setPending, channel_modifyChannel_self, hch]
  rfl

theorem sendFrame (h : Ready c num frameMax s) (frame : Frame) : Ready c num frameMax (s.sendFrame c frame) :=
  h.modifyConnection fun _ => ⟨rfl, rfl, rfl, rfl⟩

theorem sendContentFrames (h : Ready c num frameMax s) (classId : UInt16) (props : BasicProperties) (body : Bytes) :
    Ready c num frameMax (s.sendContentFrames c num classId props body) := by
  rw [AmqpServer.sendContentFrames]
  split
  · exact h
  · exact List.foldlRecOn (motive := Ready c num frameMax) _ _ h fun _ h _ _ => h.sendFrame _

theorem publishTo (h : Ready c num frameMax s) (several : Bool) (msg : Ref) (qname : Bytes) :
    Ready c num frameMax (publishTo several msg s qname) := by
  obtain ⟨s₁, r, hs₁, heq⟩ := publishTo_cases several msg s qname
  have h₁ : Ready c num frameMax s₁ := by
    rcases hs₁ with ⟨-, rfl, -⟩ | ⟨-, rfl, -⟩
    · exact h.of_own (own_congr rfl)
    · exact h
  rcases heq with heq | heq
  · rw [heq, deliverToQueue]
    exact h₁.of_own (own_enqueueLoop ..)
  · rw [heq, deliverToQueue]
    exact (h₁.of_own (own_congr (connections_storeMessage ..))).of_own (own_enqueueLoop ..)

/-- A publish leaves the channel ready for the next one. --/
theorem publish (h : Ready c num frameMax s) (p : PendingPublish) : Ready c num frameMax (s.publish c num p) := by
  have hnew : Ready c num frameMax (s.newMessage (messageOf c p)) := h.of_own (own_congr rfl)
  have hdist : Ready c num frameMax (s.distribute c num p) := by
    rw [distribute]
    split
    · exact (hnew.sendFrame _).sendContentFrames ..
    · exact List.foldlRecOn (motive := Ready c num frameMax) _ _ hnew fun _ h _ _ => h.publishTo ..
  rw [publish_eq]
  refine Ready.setPending ?_ none
  rw [sendConfirm]
  split
  · exact hdist
  · split
    · refine Ready.sendFrame (Ready.modifyChannel hdist ?_) _
      exact fun _ => rfl
    · exact hdist

theorem openChannelAt (h : Ready c num frameMax s) : ∃ ch, s.openChannelAt c num = some ch := by
  obtain ⟨ch, hch, hopen⟩ := h.channel
  exact ⟨ch, by rw [AmqpServer.openChannelAt, hch, Option.filter_some, if_pos hopen]⟩

theorem handle (h : Ready c num frameMax s) (hmax : 0 < frameMax) {frame : Frame}
    (hlen : frame.payload.length ≤ frameMax.toNat) (hframe : s.handleFrame c frame = .ok s') :
    s.handle (.frame c frame FRAME_END) = s' := by
  obtain ⟨conn, hconn, hread, hstate, rfl⟩ := h.connection
  have hserved : Served c s frame FRAME_END :=
    ⟨conn, hconn, hread, by rw [hstate]; decide, by rw [effectiveMax, if_pos hmax]; exact hlen, rfl⟩
  rcases handle_frame_cases c s frame FRAME_END with ⟨hnot, -⟩ | ⟨-, hok | ⟨s₁, text, herror, -⟩⟩
  · exact absurd hserved hnot
  · exact Except.ok.inj (hok.symm.trans hframe)
  · rw [herror] at hframe
    cases hframe

end Ready

theorem writeShortString_take (bs : Bytes) : writeShortString (bs.take 255) = writeShortString bs := by
  have hmin : min (min 255 bs.length) 255 = min bs.length 255 := by omega
  have htake : ∀ n, n ≤ 255 → (bs.take 255).take n = bs.take n := fun n hn => by
    rw [List.take_take, Nat.min_eq_left hn]
  rw [writeShortString, List.length_take, hmin, htake _ (Nat.min_le_right ..), writeShortString]

/-- The publish that the method announces. --/
def announced (exchange routingKey : String) (options : Sdk.Options) : PendingPublish :=
  { exchange := (Utf8.encode exchange).take 255, routing_key := (Utf8.encode routingKey).take 255,
    mandatory := options.mandatory }

end AmqpServer
end Broko.Broker
