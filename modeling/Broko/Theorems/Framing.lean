import Broko.Broker.Client
import Broko.Theorems.Sends
import Broko.Theorems.Transparency

/-! The frames of outgoing content: a header frame, and the body in frames that fit the negotiated limit. The body is cut
    by a loop that ends after the piece that is sent, so it cannot send none. -/

namespace Broko.Broker
open Amqp Storage

/-- A frame limit that `handleTuneOk` leaves on a new connection. --/
def Negotiable (frameMax : UInt32) : Prop :=
  ∃ clientChannelMax clientFrameMax clientHeartbeat,
    (AmqpServer.tune {} clientChannelMax clientFrameMax clientHeartbeat).frameMax = frameMax

theorem min_uint32 (a b : UInt32) : min a b = if a ≤ b then a else b := rfl

theorem negotiable_iff {frameMax : UInt32} : Negotiable frameMax ↔ 0 < frameMax ∧ frameMax ≤ 131072 := by
  constructor
  · rintro ⟨channelMax, clientFrameMax, heartbeat, rfl⟩
    rw [AmqpServer.tune]
    dsimp only
    split
    · rename_i hpos
      rw [min_uint32]
      split
      · decide
      · rename_i hlt
        rw [UInt32.le_iff_toNat_le, Nat.not_le] at hlt
        exact ⟨hpos, UInt32.le_iff_toNat_le.mpr (Nat.le_of_lt hlt)⟩
    · decide
  · rintro ⟨hpos, hle⟩
    refine ⟨0, frameMax, 0, ?_⟩
    rw [AmqpServer.tune]
    dsimp only
    rw [if_pos hpos, min_uint32]
    split
    · rename_i hge
      exact UInt32.le_antisymm hge hle
    · rfl

/-- A header frame that declares the size of the body, and body frames that are the body: none of them is empty, is larger
    than the limit, or comes when the whole body has been sent. --/
structure Framed (id classId : UInt16) (frameMax : UInt32) (props : BasicProperties) (body : Bytes) (frames : List Frame) :
    Prop where
  header : frames.head? = some
    { type := FRAME_HEADER, channel := id,
      payload := writeUint16 classId ++ writeUint16 0 ++ writeUint64 (UInt64.ofNat body.length) ++ props.encode }
  bodies : ∀ f ∈ frames.tail, f.type = FRAME_BODY ∧ f.channel = id
  flatten : (frames.tail.map Frame.payload).flatten = body
  ne_nil : ∀ f ∈ frames.tail, f.payload ≠ []
  limit : ∀ f ∈ frames.tail, f.encode.length ≤ frameMax.toNat
  ends : ∀ sent f rest, frames.tail = sent ++ f :: rest → (sent.map Frame.payload).flatten.length < body.length

theorem length_encode_frame (f : Frame) : f.encode.length = f.payload.length + 8 := by
  simp only [Frame.encode, List.length_append, length_writeUint8, length_writeUint16, length_writeUint32]
  omega

namespace AmqpServer

variable {c : Nat} {num classId : UInt16} {s : AmqpServer} {ch : Channel} {props : BasicProperties} {body : Bytes}
  {frameMax : UInt32}

/-- What the loop may put into one frame. --/
def pieceLimit (frameMax : UInt32) : Nat := if 8 < frameMax.toNat then frameMax.toNat - 8 else 131064

theorem pieceLimit_pos (frameMax : UInt32) : 0 < pieceLimit frameMax := by
  rw [pieceLimit]
  split <;> omega

theorem pieceLimit_add (h : 8 < frameMax.toNat) : pieceLimit frameMax + 8 = frameMax.toNat := by
  rw [pieceLimit, if_pos h]
  omega

theorem bodyChunks_ne_nil (limit turns : Nat) (body : Bytes) : bodyChunks limit (turns + 1) body ≠ [] := by
  rw [bodyChunks]
  exact List.cons_ne_nil _ _

/-- The frames of a body that is cut into pieces. --/
theorem framed_of_cut {pieces : List Bytes} (hcut : Sdk.Cut (pieceLimit frameMax) body pieces) (h : 8 < frameMax.toNat) :
    Framed num classId frameMax props body
      ({ type := FRAME_HEADER, channel := num,
          payload := writeUint16 classId ++ writeUint16 0 ++ writeUint64 (UInt64.ofNat body.length) ++ props.encode } ::
        pieces.map fun piece => { type := FRAME_BODY, channel := num, payload := piece }) := by
  have hpayload : (pieces.map fun piece => ({ type := FRAME_BODY, channel := num, payload := piece } : Frame)).map
      Frame.payload = pieces := by
    rw [List.map_map]
    exact List.map_id _
  have hmem : ∀ f ∈ pieces.map fun piece => ({ type := FRAME_BODY, channel := num, payload := piece } : Frame),
      f.type = FRAME_BODY ∧ f.channel = num ∧ f.payload ∈ pieces := by
    intro f hf
    obtain ⟨piece, hpiece, rfl⟩ := List.mem_map.mp hf
    exact ⟨rfl, rfl, hpiece⟩
  refine ⟨rfl, fun f hf => ⟨(hmem f hf).1, (hmem f hf).2.1⟩, ?_, fun f hf => hcut.ne_nil _ (hmem f hf).2.2, ?_, ?_⟩
  · rw [List.tail_cons, hpayload, hcut.flatten]
  · intro f hf
    rw [length_encode_frame, ← pieceLimit_add h]
    exact Nat.add_le_add_right (hcut.le _ (hmem f hf).2.2) 8
  · -- the frame that is still to come is not empty
    intro sent f rest hsplit
    rw [List.tail_cons] at hsplit
    have hne : f.payload ≠ [] := hcut.ne_nil _ (hmem f (hsplit ▸ List.mem_append_right _ List.mem_cons_self)).2.2
    have hbody : body.length = (sent.map Frame.payload).flatten.length +
        (f.payload.length + (rest.map Frame.payload).flatten.length) := by
      rw [← hcut.flatten, ← hpayload, hsplit, List.map_append, List.flatten_append, List.length_append, List.map_cons,
        List.flatten_cons, List.length_append]
    have hpos := List.length_pos_iff.mpr hne
    omega

theorem contentFrames_eq (hne : body ≠ []) :
    contentFrames num classId frameMax props body =
      { type := FRAME_HEADER, channel := num,
        payload := writeUint16 classId ++ writeUint16 0 ++ writeUint64 (UInt64.ofNat body.length) ++ props.encode } ::
      (bodyChunks (pieceLimit frameMax) (body.length + 1) body).map fun piece =>
        { type := FRAME_BODY, channel := num, payload := piece } := by
  rw [contentFrames, if_neg hne, List.append_nil, pieceLimit]

theorem framed_contentFrames :
    Framed num classId frameMax props body (contentFrames num classId frameMax props body) ↔ body ≠ [] ∧ 8 < frameMax.toNat := by
  constructor
  · intro h
    have hne : body ≠ [] := by
      rintro rfl
      refine h.ne_nil { type := FRAME_BODY, channel := num, payload := [] } ?_ rfl
      rw [contentFrames, List.tail_cons, if_pos rfl]
      exact List.mem_append_right _ List.mem_cons_self
    refine ⟨hne, ?_⟩
    obtain ⟨piece, hpiece⟩ := List.exists_mem_of_ne_nil _ (bodyChunks_ne_nil (pieceLimit frameMax) body.length body)
    have hmem : ({ type := FRAME_BODY, channel := num, payload := piece } : Frame) ∈
        (contentFrames num classId frameMax props body).tail := by
      rw [contentFrames_eq hne, List.tail_cons]
      exact List.mem_map_of_mem hpiece
    have hlimit := h.limit _ hmem
    have hpos : 0 < piece.length := List.length_pos_iff.mpr (h.ne_nil _ hmem)
    rw [length_encode_frame] at hlimit
    exact Nat.lt_of_lt_of_le (Nat.lt_add_of_pos_left hpos) hlimit
  · rintro ⟨hne, h⟩
    rw [contentFrames_eq hne]
    exact framed_of_cut (Sdk.cut_bodyChunks (pieceLimit_pos frameMax) _ body (Nat.le_succ _) hne) h

/-- What a channel with a negotiated limit sends for a content is framed, exactly if the body is not empty and a frame has
    room for a byte of it. --/
theorem framed_sendContentFrames (hch : s.channel c num = some ch) (_ : Negotiable ch.frameMax) :
    Sends c s (s.sendContentFrames c num classId props body)
        ((contentFrames num classId ch.frameMax props body).map .frame) ∧
      (Framed num classId ch.frameMax props body (contentFrames num classId ch.frameMax props body) ↔
        body ≠ [] ∧ 8 < ch.frameMax.toNat) :=
  ⟨.sendContentFrames hch classId props body, framed_contentFrames⟩

/-- A server with a connection and a channel. --/
def channelServer : AmqpServer := freshServer.run (Client.connect 1 ++ [Client.openChannel 1 1])

theorem channel_channelServer : ∃ ch, channelServer.channel 1 1 = some ch ∧ ch.frameMax = 131072 := by
  have h : (channelServer.channel 1 1).map Channel.frameMax = some 131072 := by decide +kernel
  exact Option.map_eq_some_iff.mp h

theorem framed_hello : ∃ ch, channelServer.channel 1 1 = some ch ∧
    Sends 1 channelServer (channelServer.sendContentFrames 1 1 class_id.BASIC {} (ascii "hello"))
      ((contentFrames 1 class_id.BASIC ch.frameMax {} (ascii "hello")).map .frame) ∧
    (Framed 1 class_id.BASIC ch.frameMax {} (ascii "hello") (contentFrames 1 class_id.BASIC ch.frameMax {} (ascii "hello")) ↔
      ascii "hello" ≠ [] ∧ 8 < ch.frameMax.toNat) := by
  obtain ⟨ch, hch, hmax⟩ := channel_channelServer
  exact ⟨ch, hch, framed_sendContentFrames hch (negotiable_iff.mpr (by rw [hmax]; decide))⟩

/-- An empty body is sent in two empty frames. --/
theorem empty_not_framed : ∃ ch, channelServer.channel 1 1 = some ch ∧ Negotiable ch.frameMax ∧
    Sends 1 channelServer (channelServer.sendContentFrames 1 1 class_id.BASIC {} [])
      ((contentFrames 1 class_id.BASIC ch.frameMax {} []).map .frame) ∧
    (contentFrames 1 class_id.BASIC ch.frameMax {} []).tail =
      [{ type := FRAME_BODY, channel := 1 }, { type := FRAME_BODY, channel := 1 }] ∧
    ¬Framed 1 class_id.BASIC ch.frameMax {} [] (contentFrames 1 class_id.BASIC ch.frameMax {} []) := by
  obtain ⟨ch, hch, hmax⟩ := channel_channelServer
  refine ⟨ch, hch, negotiable_iff.mpr (by rw [hmax]; decide), .sendContentFrames hch class_id.BASIC {} [], ?_, fun h => ?_⟩
  · rw [hmax]
    decide
  · exact (framed_contentFrames.mp h).1 rfl

end AmqpServer
end Broko.Broker
