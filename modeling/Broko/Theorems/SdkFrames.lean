import Broko.Sdk.Frame

/-! The frame parser of the client on a stream that comes in chunks. `next` looks at the length of the buffer first, so what
    it finds at the front does not change when more bytes come. -/

namespace Broko.Sdk
open Amqp

namespace FrameParser
variable {buf more : Bytes} {f : Frame} {rest : FrameParser} {e : FramingError}

@[simp] theorem feed_eq (buf : FrameParser) (chunk : Bytes) : buf.feed chunk = buf ++ chunk := by
  rw [feed]
  split
  · rename_i h
    rw [List.length_eq_zero_iff.mp h, List.nil_append]
  · rfl

theorem received_eq (buf : FrameParser) (chunks : List Bytes) : buf.received chunks = Streaming.run next buf chunks := by
  induction chunks generalizing buf with
  | nil => rfl
  | cons chunk chunks ih =>
    rw [received, Streaming.run, feed_eq]
    cases (Streaming.pull next (buf ++ chunk)).error with
    | some e => rfl
    | none => simp only [ih]

/-! ### One call -/

/-- The size that the header announces. --/
def announced (buf : Bytes) : Nat := BigEndian.decode ((buf.drop 3).take 4)

/-- The frame of the header and of the bytes behind it. --/
def front (buf : Bytes) : Frame :=
  { type := buf.headD 0, channel := UInt16.ofNat (BigEndian.decode ((buf.drop 1).take 2)),
    payload := (buf.drop 7).take (announced buf) }

/-- The header and the frame that it announces are in the buffer. --/
def Complete (buf : Bytes) : Prop := 7 ≤ buf.length ∧ 7 + announced buf + 1 ≤ buf.length

theorem next_of_incomplete (h : ¬Complete buf) : next buf = .ok none := by
  rw [next]
  split
  · rfl
  · rename_i hlen
    dsimp only
    rw [if_pos]
    exact Nat.lt_of_not_le fun hle => h ⟨Nat.le_of_not_lt hlen, hle⟩

theorem next_of_complete (h : Complete buf) :
    next buf =
      if (buf.drop (7 + announced buf)).headD 0 ≠ FRAME_END then .error ⟨(buf.drop (7 + announced buf)).headD 0⟩
      else .ok (some (front buf, buf.drop (7 + announced buf + 1))) := by
  rw [next, if_neg (Nat.not_lt.mpr h.1)]
  exact if_neg (Nat.not_lt.mpr h.2)

theorem headD_append {xs ys : Bytes} (h : xs ≠ []) : (xs ++ ys).headD 0 = xs.headD 0 := by
  obtain ⟨x, xs, rfl⟩ := List.exists_cons_of_ne_nil h
  rfl

theorem announced_append (h : 7 ≤ buf.length) (more : Bytes) : announced (buf ++ more) = announced buf := by
  rw [announced, List.drop_append_of_le_length (by omega),
    List.take_append_of_le_length (by rw [List.length_drop]; omega), announced]

theorem Complete.append (h : Complete buf) (more : Bytes) : Complete (buf ++ more) := by
  obtain ⟨hhead, hall⟩ := h
  refine ⟨?_, ?_⟩
  · rw [List.length_append]
    omega
  · rw [announced_append hhead, List.length_append]
    omega

theorem Complete.front_append (h : Complete buf) (more : Bytes) : front (buf ++ more) = front buf := by
  obtain ⟨hhead, hall⟩ := h
  have hne : buf ≠ [] := fun hnil => by
    rw [hnil, List.length_nil] at hhead
    exact absurd hhead (by decide)
  rw [front, announced_append hhead, headD_append hne, List.drop_append_of_le_length (by omega),
    List.take_append_of_le_length (by rw [List.length_drop]; omega), List.drop_append_of_le_length (by omega),
    List.take_append_of_le_length (by rw [List.length_drop]; omega), front]

theorem Complete.frameEnd_append (h : Complete buf) (more : Bytes) :
    (((buf ++ more).drop (7 + announced buf)).headD 0) = (buf.drop (7 + announced buf)).headD 0 := by
  obtain ⟨-, hall⟩ := h
  rw [List.drop_append_of_le_length (by omega), headD_append]
  rw [← List.length_pos_iff, List.length_drop]
  omega

theorem next_append (h : Complete buf) (more : Bytes) :
    next (buf ++ more) = (next buf).map (Option.map fun (f, rest) => (f, rest ++ more)) := by
  rw [next_of_complete (h.append more), next_of_complete h, announced_append h.1, h.frameEnd_append, h.front_append,
    List.drop_append_of_le_length h.2]
  split <;> rfl

theorem complete_of_item (hnext : next buf = .ok (some (f, rest))) : Complete buf := by
  by_contra h
  rw [next_of_incomplete h] at hnext
  cases hnext

theorem complete_of_error (hnext : next buf = .error e) : Complete buf := by
  by_contra h
  rw [next_of_incomplete h] at hnext
  cases hnext

theorem stable_next : Streaming.Stable next where
  nil := rfl
  error := by
    intro buf e hnext more
    rw [next_append (complete_of_error hnext), hnext]
    rfl
  item := by
    intro buf f rest hnext more
    rw [next_append (complete_of_item hnext), hnext]
    rfl
  shorter := by
    intro buf f rest hnext
    have h := complete_of_item hnext
    rw [next_of_complete h] at hnext
    split at hnext
    · cases hnext
    · cases hnext
      have hpos : 0 < buf.length := Nat.lt_of_lt_of_le (by decide) h.1
      rw [List.length_drop]
      omega

/-! ### An encoded frame -/

theorem frame_eq (h : f.payload.length < 2 ^ 32) : frame f.type f.channel f.payload = some f.encode := by
  rw [frame, if_pos h]
  rfl

theorem mapM_frame : ∀ frames : List Frame, (∀ f ∈ frames, f.payload.length < 2 ^ 32) →
    frames.mapM (fun f => frame f.type f.channel f.payload) = some (frames.map Frame.encode)
  | [], _ => rfl
  | f :: frames, h => by
    rw [List.mapM_cons, frame_eq (h f List.mem_cons_self), mapM_frame frames fun g hg => h g (List.mem_cons_of_mem _ hg)]
    rfl

theorem next_encode (h : f.payload.length < 2 ^ 32) (rest : Bytes) : next (f.encode ++ rest) = .ok (some (f, rest)) := by
  obtain ⟨type, channel, payload⟩ := f
  set size := writeUint32 (UInt32.ofNat payload.length) with hsize
  have hsizelen : size.length = 4 := BigEndian.length_encode _ _
  have hchannel : (writeUint16 channel).length = 2 := BigEndian.length_encode _ _
  have hbytes : Frame.encode { type, channel, payload } ++ rest =
      type :: (writeUint16 channel ++ (size ++ (payload ++ (FRAME_END :: rest)))) := by
    simp only [Frame.encode, writeUint8, hsize, List.append_assoc, List.cons_append, List.nil_append]
  rw [hbytes]
  set buf := type :: (writeUint16 channel ++ (size ++ (payload ++ (FRAME_END :: rest)))) with hbuf
  -- the parts of the frame, front to back
  have h1 : buf.drop 1 = writeUint16 channel ++ (size ++ (payload ++ (FRAME_END :: rest))) := rfl
  have h3 : buf.drop 3 = size ++ (payload ++ (FRAME_END :: rest)) := by
    rw [show 3 = 1 + 2 by rfl, ← List.drop_drop, h1, List.drop_left' hchannel]
  have h7 : buf.drop 7 = payload ++ (FRAME_END :: rest) := by
    rw [show 7 = 3 + 4 by rfl, ← List.drop_drop, h3, List.drop_left' hsizelen]
  have hann : announced buf = payload.length := by
    rw [announced, h3, List.take_left' hsizelen, hsize, writeUint32,
      BigEndian.decode_encode_of_lt (UInt32.toNat_lt _), UInt32.toNat_ofNat', Nat.mod_eq_of_lt h]
  have hend : buf.drop (7 + payload.length) = FRAME_END :: rest := by
    rw [← List.drop_drop, h7, List.drop_left' rfl]
  have hlen : 7 + payload.length + 1 ≤ buf.length := by
    rw [hbuf, List.length_cons, List.length_append, List.length_append, List.length_append, List.length_cons, hchannel,
      hsizelen]
    omega
  have hfront : front buf = { type, channel, payload } := by
    rw [front, h1, h7, hann, List.take_left' hchannel, List.take_left' rfl, writeUint16,
      BigEndian.decode_encode_of_lt (UInt16.toNat_lt _), UInt16.ofNat_toNat]
    rfl
  have hcomplete : Complete buf := ⟨by omega, by rw [hann]; exact hlen⟩
  rw [next_of_complete hcomplete, hann, hend, hfront, List.headD_cons, if_neg (not_not_intro rfl), ← List.drop_drop, hend]
  rfl

/-- Encoded frames come out again, whatever pieces their bytes come in, and of any stream the frames that come out before
    an error do not depend on the pieces. --/
theorem received_frames :
    (∀ frames : List Frame, (∀ f ∈ frames, f.payload.length < 2 ^ 32) →
      ∃ encoded, frames.mapM (fun f => frame f.type f.channel f.payload) = some encoded ∧
        ∀ chunks : List Bytes, chunks.flatten = encoded.flatten → received [] chunks = ⟨frames, none, []⟩) ∧
    ∀ chunks chunks' : List Bytes, chunks.flatten = chunks'.flatten →
      (received [] chunks).items = (received [] chunks').items ∧ (received [] chunks).error = (received [] chunks').error := by
  refine ⟨fun frames hframes => ⟨frames.map Frame.encode, ?_, fun chunks hchunks => ?_⟩, fun chunks chunks' hflat => ?_⟩
  · exact mapM_frame frames hframes
  · have hpull : Streaming.pull next chunks.flatten = ⟨frames, none, []⟩ := by
      rw [hchunks, ← List.flatMap_def]
      exact stable_next.pull_flatMap frames fun f hf rest => next_encode (hframes f hf) rest
    obtain ⟨-, herror, hall⟩ := stable_next.run_eq stable_next.nil chunks
    rw [List.nil_append, hpull] at herror hall
    rw [received_eq, hall herror]
  · rw [received_eq, received_eq]
    exact stable_next.run_congr hflat

/-- Two heartbeats in four pieces: the first is cut inside its header, the second before its end byte. --/
theorem received_heartbeats :
    received [] [[8, 0, 0], [0, 0, 0, 0, 0xCE, 8], [0, 0, 0, 0, 0, 0], [0xCE]] =
      ⟨[{ type := FRAME_HEARTBEAT }, { type := FRAME_HEARTBEAT }], none, []⟩ := by
  obtain ⟨encoded, hencoded, hreceived⟩ :=
    received_frames.1 [{ type := FRAME_HEARTBEAT }, { type := FRAME_HEARTBEAT }] (by decide)
  refine hreceived _ ?_
  obtain rfl := Option.some.inj hencoded
  decide

end FrameParser
end Broko.Sdk
