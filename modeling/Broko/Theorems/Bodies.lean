import Broko.Theorems.Confirms

/-! The body of a publish, against what the client sent of it. A channel takes the bytes of every body frame since the
    `basic.publish`, and the size of the last header; so a body is what its header announces as long as the client keeps
    the order of the frames. -/

namespace Broko.Broker
open Amqp Storage

/-- What a channel receives of a publish. --/
inductive Part where
  | publish
  | header (bodySize : UInt64)
  | body (payload : Bytes)
  deriving DecidableEq

namespace Part

/-! ### The parts of the last publish

    The part that was received last stands first. -/

/-- The payloads since the `basic.publish`. --/
def payloads : List Part → List Bytes
  | .body payload :: parts => payloads parts ++ [payload]
  | .header _ :: parts => payloads parts
  | _ => []

/-- The size that the last header since the `basic.publish` declared, and the payloads since that header. --/
def sinceHeader : List Part → Option (UInt64 × List Bytes)
  | .body payload :: parts => (sinceHeader parts).map fun x => (x.1, x.2 ++ [payload])
  | .header bodySize :: _ => some (bodySize, [])
  | _ => none

/-- A payload follows a header and goes no further than the size that it declared. --/
def Fits (payload : Bytes) : Option (UInt64 × List Bytes) → Prop
  | none => False
  | some (bodySize, earlier) => earlier.flatten.length + payload.length ≤ bodySize.toNat

instance (payload : Bytes) : ∀ x, Decidable (Fits payload x)
  | none => inferInstanceAs (Decidable False)
  | some (bodySize, earlier) => inferInstanceAs (Decidable (earlier.flatten.length + payload.length ≤ bodySize.toNat))

/-- The frames of the last publish came in order: no header after a part of the body, no part of the body before a
    header, and no more of it than the header declared. --/
def InSequence : List Part → Prop
  | .body payload :: parts => InSequence parts ∧ Fits payload (sinceHeader parts)
  | .header _ :: parts => InSequence parts ∧ (payloads parts).flatten = []
  | _ => True

instance decidableInSequence : ∀ parts, Decidable (InSequence parts)
  | [] => inferInstanceAs (Decidable True)
  | .publish :: _ => inferInstanceAs (Decidable True)
  | .header _ :: parts =>
    have := decidableInSequence parts
    inferInstanceAs (Decidable (InSequence parts ∧ (payloads parts).flatten = []))
  | .body payload :: parts =>
    have := decidableInSequence parts
    inferInstanceAs (Decidable (InSequence parts ∧ Fits payload (sinceHeader parts)))

/-- The body is what was received since a header, of the size that the header declared. --/
def Matches (body : Bytes) : Option (UInt64 × List Bytes) → Prop
  | none => False
  | some (bodySize, payloads) =>
    body = payloads.flatten ∧ body.length = bodySize.toNat ∧ body.length ≤ MAX_BODY_SIZE

instance (body : Bytes) : ∀ x, Decidable (Matches body x)
  | none => inferInstanceAs (Decidable False)
  | some (bodySize, payloads) =>
    inferInstanceAs (Decidable (body = payloads.flatten ∧ body.length = bodySize.toNat ∧ body.length ≤ MAX_BODY_SIZE))

theorem sinceHeader_suffix {parts : List Part} {bodySize : UInt64} {later : List Bytes}
    (h : sinceHeader parts = some (bodySize, later)) : later.flatten <:+ (payloads parts).flatten := by
  induction parts generalizing later with
  | nil => cases h
  | cons part parts ih =>
    cases part with
    | publish => cases h
    | header bodySize' =>
      obtain ⟨-, rfl⟩ := Prod.mk.inj (Option.some.inj h)
      exact List.nil_suffix
    | body payload =>
      obtain ⟨⟨bodySize', earlier⟩, hearlier, heq⟩ := Option.map_eq_some_iff.mp h
      obtain ⟨rfl, rfl⟩ := Prod.mk.inj heq
      obtain ⟨before, hbefore⟩ := ih hearlier
      refine ⟨before, ?_⟩
      rw [payloads, List.flatten_concat, List.flatten_concat, ← hbefore, List.append_assoc]

end Part

open Broko.Broker.Part

/-- The pending publish holds what was received of it. --/
structure PendingPublish.Follows (p : PendingPublish) (parts : List Part) : Prop where
  body : p.body = (payloads parts).flatten
  received : p.bodyReceived = p.body.length
  bodySize : p.bodySize = ((sinceHeader parts).map Prod.fst).getD 0
  small : p.bodySize.toNat ≤ MAX_BODY_SIZE
  sequence : InSequence parts ↔ ∀ bodySize later, sinceHeader parts = some (bodySize, later) → p.body = later.flatten

namespace PendingPublish.Follows
variable {p : PendingPublish} {parts : List Part}

theorem publish (exchange routing_key : Bytes) (mandatory : Bool) (parts : List Part) :
    PendingPublish.Follows { exchange, routing_key, mandatory } (.publish :: parts) :=
  ⟨rfl, rfl, rfl, Nat.zero_le _, iff_of_true trivial (by rintro _ _ ⟨⟩)⟩

/-- The sequence is broken by a header exactly if some of the body was there. --/
theorem inSequence_header (h : p.Follows parts) (bodySize : UInt64) :
    InSequence (.header bodySize :: parts) ↔ p.body = [] := by
  rw [h.body]
  refine ⟨fun hseq => hseq.2, fun hnone => ⟨h.sequence.mpr fun bodySize later hlater => ?_, hnone⟩⟩
  have hsuffix := sinceHeader_suffix hlater
  rw [hnone, List.suffix_nil] at hsuffix
  rw [h.body, hnone, hsuffix]

theorem header (h : p.Follows parts) {bodySize : UInt64} (hsmall : bodySize.toNat ≤ MAX_BODY_SIZE) (properties : BasicProperties) :
    PendingPublish.Follows { p with bodySize, properties } (.header bodySize :: parts) := by
  refine ⟨h.body, h.received, rfl, hsmall, (h.inSequence_header bodySize).trans ⟨?_, fun hall => hall _ _ rfl⟩⟩
  rintro hnone _ _ ⟨⟩
  exact hnone

/-- A payload that leaves something to come. --/
theorem more (h : p.Follows parts) {payload : Bytes} (hmore : p.bodyReceived + payload.length < p.bodySize.toNat) :
    PendingPublish.Follows { p with body := p.body ++ payload, bodyReceived := p.bodyReceived + payload.length }
      (.body payload :: parts) := by
  have hsize := h.bodySize
  cases hlater : sinceHeader parts with
  | none =>
    rw [hlater] at hsize
    rw [hsize] at hmore
    exact absurd hmore (Nat.not_lt_zero _)
  | some x =>
    obtain ⟨bodySize, later⟩ := x
    rw [hlater] at hsize
    have hsize : p.bodySize = bodySize := hsize
    have hlen : later.flatten.length ≤ p.body.length := h.body ▸ (sinceHeader_suffix hlater).length_le
    have hseq := h.sequence
    rw [hlater] at hseq
    refine ⟨?_, ?_, ?_, h.small, ?_⟩
    · rw [payloads, List.flatten_concat, ← h.body]
    · rw [List.length_append, h.received]
    · rw [sinceHeader, hlater]
      exact hsize
    · rw [InSequence, sinceHeader, hlater, hseq]
      constructor
      · rintro ⟨hall, -⟩ _ _ ⟨⟩
        rw [List.flatten_concat, ← hall _ _ rfl]
      · intro hall
        refine ⟨?_, ?_⟩
        · rintro _ _ ⟨⟩
          have heq := hall _ _ rfl
          rw [List.flatten_concat] at heq
          exact List.append_cancel_right heq
        · have hrec := h.received
          rw [← hsize]
          change later.flatten.length + payload.length ≤ _
          omega

/-- The last payload. --/
theorem matches_body (h : p.Follows parts) {payload : Bytes} (hdone : p.bodySize.toNat ≤ p.bodyReceived + payload.length) :
    Matches (p.body ++ payload) (sinceHeader (.body payload :: parts)) ↔ InSequence (.body payload :: parts) := by
  have hsize := h.bodySize
  have hseq := h.sequence
  rw [InSequence, sinceHeader]
  cases hlater : sinceHeader parts with
  | none => exact ⟨False.elim, fun h => h.2⟩
  | some x =>
    obtain ⟨bodySize, later⟩ := x
    rw [hlater] at hsize hseq
    have hsize : p.bodySize = bodySize := hsize
    have hrec := h.received
    have hsmall := h.small
    rw [hseq]
    constructor
    · rintro ⟨hbody, hlen, -⟩
      rw [List.flatten_concat] at hbody
      have hbody := List.append_cancel_right hbody
      refine ⟨?_, ?_⟩
      · rintro _ _ ⟨⟩
        exact hbody
      · rw [List.length_append, hbody] at hlen
        exact hlen.le
    · rintro ⟨hall, hfits⟩
      have hbody : p.body = later.flatten := hall _ _ rfl
      have hfits : later.flatten.length + payload.length ≤ bodySize.toNat := hfits
      have hlen : p.body.length = later.flatten.length := congrArg List.length hbody
      have hexact : (p.body ++ payload).length = bodySize.toNat := by
        rw [List.length_append]
        rw [hsize] at hdone
        omega
      refine ⟨?_, hexact, ?_⟩
      · rw [List.flatten_concat, hbody]
      · rw [hexact, ← hsize]
        exact hsmall

/-- The header of a publish without a body. --/
theorem matches_header (h : p.Follows parts) :
    Matches p.body (sinceHeader (.header 0 :: parts)) ↔ InSequence (.header 0 :: parts) := by
  rw [h.inSequence_header]
  refine ⟨fun hm => hm.1, fun hnone => ⟨hnone, ?_, ?_⟩⟩
  · rw [hnone]
    rfl
  · rw [hnone]
    exact Nat.zero_le _

end PendingPublish.Follows

namespace AmqpServer

variable {c c' : Nat} {num num' : UInt16} {s s' s'' : AmqpServer}

/-! ### What the channel receives -/

/-- The arguments of `basic.publish`, as `handleBasicPublish` reads them. --/
def readBasicPublish : Read (Bytes × Bytes × UInt8) := do
  let _reserved ← readUint16
  let exchange ← readShortString
  let routingKey ← readShortString
  let bits ← readUint8
  return (exchange, routingKey, bits)

/-- The part of a publish that a frame on an open channel is. A `basic.publish` that is refused is none. --/
def partOf (frame : Frame) : Option Part :=
  if frame.type = FRAME_METHOD then
    match readMethodIds (Buffer.ofBytes frame.payload) with
    | .error _ => none
    | .ok (ids, buf) =>
      if ids = (class_id.BASIC, basic_method.PUBLISH) then
        match readBasicPublish buf with
        | .error _ => none
        | .ok ((_, _, bits), _) => if hasBit bits 0x02 then none else some .publish
      else none
  else if frame.type = FRAME_HEADER then
    match readContentHeader (Buffer.ofBytes frame.payload) with
    | .error _ => none
    | .ok (bodySize, _) => some (.header bodySize)
  else if frame.type = FRAME_BODY then some (.body frame.payload)
  else none

/-- The part of a publish that the event brings to the channel. A connection that is closing takes no methods. --/
def receives (c : Nat) (num : UInt16) (s : AmqpServer) : Event → Option Part
  | .frame c' frame frameEnd =>
    if c' = c ∧ frame.channel = num ∧ Served c s frame frameEnd ∧ (s.openChannelAt c num).isSome = true ∧
        ¬((s.connection c).map Connection.state = some .CLOSING ∧ frame.type = FRAME_METHOD) then
      partOf frame
    else none
  | _ => none

theorem receives_of_served {frame : Frame} {frameEnd : UInt8} (hserved : Served c s frame frameEnd)
    (hclosing : ¬((s.connection c).map Connection.state = some .CLOSING ∧ frame.type = FRAME_METHOD)) :
    receives c num s (.frame c frame frameEnd) =
      if frame.channel = num ∧ (s.openChannelAt c num).isSome = true then partOf frame else none := by
  rw [receives]
  refine if_congr ⟨?_, ?_⟩ rfl rfl
  · exact fun hall => ⟨hall.2.1, hall.2.2.2.1⟩
  · exact fun hall => ⟨rfl, hall.1, hserved, hall.2, hclosing⟩

/-- The parts of publishes that the channel receives during a run, the last one first, before those that it had. --/
def received (c : Nat) (num : UInt16) : AmqpServer → List Part → List Event → List Part
  | _, parts, [] => parts
  | s, parts, e :: events => received c num (s.handle e) ((receives c num s e).toList ++ parts) events

theorem received_concat (s : AmqpServer) (parts : List Part) (events : List Event) (e : Event) :
    received c num s parts (events ++ [e]) = (receives c num (s.run events) e).toList ++ received c num s parts events := by
  induction events generalizing s parts with
  | nil => rfl
  | cons x events ih => exact ih ..

/-! ### What leaves the pending publish of a channel alone -/

/-- The channel has no publish pending that was not pending before. --/
def KeepsPending (c : Nat) (num : UInt16) (s s' : AmqpServer) : Prop :=
  ∀ p, (s'.channel c num).bind Channel.pendingPublish = some p → (s.channel c num).bind Channel.pendingPublish = some p

namespace KeepsPending

theorem refl : KeepsPending c num s s := fun _ h => h

theorem trans (h₁ : KeepsPending c num s s') (h₂ : KeepsPending c num s' s'') : KeepsPending c num s s'' :=
  fun p h => h₁ p (h₂ p h)

theorem channelSame (h : s'.channel c num = s.channel c num) : KeepsPending c num s s' := fun _ hp => h ▸ hp

theorem congr (h : s'.connections = s.connections) : KeepsPending c num s s' :=
  channelSame (by rw [channel, connection, h, channel, connection])

theorem modifyConnection (c' : Nat) {f : Connection → Connection}
    (hf : ∀ conn p, ((f conn).channels.lookup num).bind Channel.pendingPublish = some p →
      (conn.channels.lookup num).bind Channel.pendingPublish = some p) :
    KeepsPending c num s (s.modifyConnection c' f) := by
  intro p hp
  rw [channel, connection, AmqpServer.modifyConnection, Assoc.lookup_modify] at hp
  rw [channel, connection]
  split at hp
  · rename_i h
    rw [h]
    cases hconn : s.connections.lookup c' with
    | none =>
      rw [hconn] at hp
      cases hp
    | some conn =>
      rw [hconn] at hp
      exact hf conn p hp
  · exact hp

theorem modifyChannel (c' : Nat) (num' : UInt16) {f : Channel → Channel}
    (hf : num' = num → ∀ ch p, (f ch).pendingPublish = some p → ch.pendingPublish = some p) :
    KeepsPending c num s (s.modifyChannel c' num' f) := by
  refine modifyConnection c' fun conn p hp => ?_
  dsimp only at hp
  rw [Assoc.lookup_modify] at hp
  split at hp
  · rename_i h
    rw [h]
    cases hch : conn.channels.lookup num' with
    | none =>
      rw [hch] at hp
      cases hp
    | some ch =>
      rw [hch] at hp
      exact hf h.symm ch p hp
  · exact hp

theorem setPending_none (c' : Nat) (num' : UInt16) : KeepsPending c num s (s.setPending c' num' none) :=
  modifyChannel c' num' fun _ _ _ h => (by cases h)

theorem setPending_of_ne (c' : Nat) (hne : num' ≠ num) (p : Option PendingPublish) :
    KeepsPending c num s (s.setPending c' num' p) :=
  modifyChannel c' num' fun h => absurd h hne

theorem setPending_of_connection_ne (hne : c' ≠ c) (num' : UInt16) (p : Option PendingPublish) :
    KeepsPending c num s (s.setPending c' num' p) := by
  refine channelSame ?_
  rw [channel, connection, AmqpServer.setPending, AmqpServer.modifyChannel, AmqpServer.modifyConnection,
    Assoc.lookup_modify_of_ne (Ne.symm hne), channel, connection]

theorem move {k : Kind} (hk : k = .pending → c' ≠ c) (hm : Move c' k s s') : KeepsPending c num s s' := by
  cases hm with
  | handOver idx => exact channelSame (channel_of_own (own_handOver _ _ _ _) num)
  | purge name =>
    rw [purge]
    split
    · exact refl
    · exact congr rfl
  | store m => exact congr (connections_storeMessage ..)
  | oversize m => exact congr (connections_storeMessage ..)
  | send out => exact modifyConnection c' fun _ _ h => h
  | note num' f hf =>
    refine modifyChannel c' num' fun _ ch p hp => ?_
    have hframe : (f ch).frame.pendingPublish = ch.frame.pendingPublish := by rw [hf]
    exact hframe.symm.trans hp
  | pending num' p => exact setPending_of_connection_ne (hk rfl) num' _
  | handshake f hf => exact modifyConnection c' fun conn _ h => (hf conn).channels ▸ h
  | hold num' u =>
    have hheld : KeepsPending c num s (s.hold c' num' u) := modifyChannel c' num' fun _ _ _ h => h
    exact hheld.trans (modifyChannel c' num' fun _ _ _ h => h)
  | takeTag num' => exact modifyChannel c' num' fun _ _ _ h => h
  | releaseCredit u => exact congr (connections_releaseCredit u)
  | eraseUnacked num' tag => exact modifyChannel c' num' fun _ _ _ h => h
  | clearUnacked num' => exact modifyChannel c' num' fun _ _ _ h => h
  | settle u => exact congr (connections_persistAck u)
  | mapConsumer num' => exact modifyChannel c' num' fun _ _ _ h => h
  | removeConsumer name tag => exact congr (connections_removeConsumer name tag)
  | unmapConsumer num' => exact modifyChannel c' num' fun _ _ _ h => h
  | unmapConsumers num' => exact modifyChannel c' num' fun _ _ _ h => h
  | removeConsumersByConnection name => exact congr (connections_removeConsumersByConnection name c')
  | openChannel num' =>
    have hnext : KeepsPending c num s { s with nextChannel := s.nextChannel + 1 } := congr rfl
    refine hnext.trans (modifyConnection c' fun conn p hp => ?_)
    by_cases hnum : num = num'
    · rw [hnum, Assoc.lookup_insert_self] at hp
      cases hp
    · rwa [Assoc.lookup_insert_of_ne hnum] at hp
  | setClosed num' => exact modifyChannel c' num' fun _ _ _ h => h
  | dropChannel num' =>
    refine modifyConnection c' fun conn p hp => ?_
    by_cases hnum : num = num'
    · rw [hnum, Assoc.lookup_erase_self] at hp
      cases hp
    · rwa [Assoc.lookup_erase_of_ne hnum] at hp
  | shut => exact modifyConnection c' fun _ _ h => h
  | dropChannels => exact modifyConnection c' fun _ _ h => (by cases h)
  | popTask => exact modifyConnection c' fun _ _ h => h
  | accept =>
    intro p hp
    rw [channel, connection, AmqpServer.accept] at hp
    by_cases hc : c = s.nextConnectionId
    · rw [hc, Assoc.lookup_insert_self] at hp
      cases hp
    · rwa [Assoc.lookup_insert_of_ne hc] at hp
  | reorderChannels order => 
    refine modifyConnection c' fun conn p hp => ?_
    rwa [Assoc.lookup_reorder] at hp
  | reorderConsumers num' order => exact modifyChannel c' num' fun _ _ _ h => h
  | reorderUnacked num' order => exact modifyChannel c' num' fun _ _ _ h => h
  | _ => exact congr rfl

theorem does {K : List Kind} (hv : Valid s) (hd : Does c' K s s') (hK : Kind.pending ∉ K) : KeepsPending c num s s' :=
  (hd.moves hv).keeps (P := KeepsPending c num s) (fun _ hk _ _ hm h => h.trans (move (fun heq => absurd (heq ▸ hk) hK) hm)) refl

theorem does_of_ne {K : List Kind} (hv : Valid s) (hd : Does c' K s s') (hne : c' ≠ c) : KeepsPending c num s s' :=
  (hd.moves hv).keeps (P := KeepsPending c num s) (fun _ _ _ _ hm h => h.trans (move (fun _ => hne) hm)) refl

end KeepsPending

theorem keepsPending_handleBasicPublish_of_ne (hv : Valid s) (hne : num' ≠ num) (buf : Buffer) :
    KeepsPending c num s (outcome (s.handleBasicPublish c' num' buf)) := by
  refine outcome_withArgs .refl fun args => ?_
  dsimp only
  split
  · exact .does hv (does_sendChannelClose ..) (by decide)
  · exact .setPending_of_ne c' hne _

/-- Every method of the channel but `basic.publish`, and every method of another channel. --/
theorem keepsPending_handleMethod (hv : Valid s) {classId methodId : UInt16}
    (h : num' = num → (classId, methodId) ≠ (class_id.BASIC, basic_method.PUBLISH)) (buf : Buffer) :
    KeepsPending c num s (outcome (s.handleMethod c' num' classId methodId buf)) := by
  have hdoes : ∀ {K : List Kind} {s' : AmqpServer} {P : Prop}, Does c' K s s' → Kind.pending ∉ K → P ∨ KeepsPending c num s s' :=
    fun hd hK => .inr (.does hv hd hK)
  have hall : Handlers (fun classId methodId s' =>
      (num' = num ∧ (classId, methodId) = (class_id.BASIC, basic_method.PUBLISH)) ∨ KeepsPending c num s s') c' num' s := by
    constructor
    case basicPublish =>
      intro buf
      by_cases hnum : num' = num
      · exact .inl ⟨hnum, rfl⟩
      · exact .inr (keepsPending_handleBasicPublish_of_ne hv hnum buf)
    case exchangeDeclare => exact fun buf => hdoes (does_handleExchangeDeclare buf) (by decide)
    case exchangeDelete => exact fun buf => hdoes (does_handleExchangeDelete buf) (by decide)
    case queueDeclare => exact fun buf => hdoes (does_handleQueueDeclare buf) (by decide)
    case queueBind => exact fun buf => hdoes (does_handleQueueBind buf) (by decide)
    case queueUnbind => exact fun buf => hdoes (does_handleQueueUnbind buf) (by decide)
    case queuePurge => exact fun buf => hdoes (does_handleQueuePurge buf) (by decide)
    case queueDelete => exact fun buf => hdoes (does_handleQueueDelete buf) (by decide)
    case basicQos => exact fun buf => hdoes (does_handleBasicQos buf) (by decide)
    case basicConsume => exact fun buf => hdoes (does_handleBasicConsume buf) (by decide)
    case basicCancel => exact fun buf => hdoes (does_handleBasicCancel buf) (by decide)
    case basicGet => exact fun buf => hdoes (does_handleBasicGet buf) (by decide)
    case basicAck => exact fun buf => hdoes (does_handleBasicAck buf) (by decide)
    case basicReject => exact fun buf => hdoes (does_handleBasicReject buf) (by decide)
    case basicRecover => exact fun buf => hdoes (does_handleBasicRecover buf) (by decide)
    case basicRecoverAsync => exact fun buf => hdoes (does_handleBasicRecover buf) (by decide)
    case basicNack => exact fun buf => hdoes (does_handleBasicNack buf) (by decide)
    case confirmSelect => exact fun buf => hdoes (does_handleConfirmSelect buf) (by decide)
    case tx => exact fun _ okId => hdoes (does_handleTx okId) (by decide)
    case notImplemented => exact fun _ _ => hdoes (does_sendChannelClose ..) (by decide)
  exact (hall.handleMethod classId methodId buf).resolve_left fun ⟨hnum, hids⟩ => h hnum hids

/-- A method frame, unless it is a `basic.publish` on the channel. --/
theorem keepsPending_handleMethodFrame (hv : Valid s) {buf : Buffer}
    (h : ∀ rest, num' = num → (s.openChannelAt c num').isSome = true →
      readMethodIds buf ≠ .ok ((class_id.BASIC, basic_method.PUBLISH), rest)) :
    KeepsPending c num s (outcome (s.handleMethodFrame c num' buf)) := by
  rw [handleMethodFrame]
  split
  · exact .refl
  · rename_i classId methodId rest hids
    refine outcome_ite (outcome_ite ?_ ?_) (outcome_ite ?_ (outcome_ite ?_ (outcome_ite ?_ (outcome_ite ?_ ?_))))
    · exact .does hv (does_sendConnectionClose ..) (by decide)
    · exact .does hv (does_handleConnectionMethod ..) (by decide)
    · exact .does hv (does_handleChannelOpen _) (by decide)
    · exact .does hv (does_handleChannelClose _) (by decide)
    · exact .does hv does_cleanupChannel (by decide)
    · exact .does hv (does_handleChannelFlow _) (by decide)
    · rw [handleOnChannel]
      split
      · exact .does hv (does_sendConnectionClose ..) (by decide)
      · rename_i ch hopen
        exact keepsPending_handleMethod hv (fun hnum hpub => h rest hnum (by rw [hopen]; rfl) (hpub ▸ hids)) rest

theorem keepsPending_handleContentBody_of_ne (hv : Valid s) (hne : num' ≠ num) (data : Bytes) :
    KeepsPending c num s (s.handleContentBody c' num' data) := by
  cases hp : (s.channel c' num').bind Channel.pendingPublish with
  | none =>
    rw [handleContentBody, hp]
    exact .refl
  | some p =>
    cases hdone : completedBy p data with
    | none =>
      rw [completedBy] at hdone
      rw [handleContentBody, hp]
      dsimp only at hdone ⊢
      split
      · rename_i hall
        rw [if_pos hall] at hdone
        cases hdone
      · exact .setPending_of_ne c' hne _
    | some p' =>
      have hsound := sound_completedBy (hv.pending hp) hdone
      obtain ⟨s₁, heq, hdoes⟩ := does_publish (c := c') (K := .oversize :: (publishKinds ++ [.confirm]))
        (s := s.setPending c' num' (some p')) num' (fun k hk => List.mem_cons_of_mem _ hk) hsound (.inl List.mem_cons_self)
      have hset : Valid (s.setPending c' num' (some p')) := ((does_setPending (c := c') hsound).moves hv).valid hv
      rw [handleContentBody_of_completed hp hdone, heq]
      exact (KeepsPending.setPending_of_ne c' hne _).trans ((KeepsPending.does hset hdoes (by decide)).trans
        (.setPending_none c' num'))

theorem keepsPending_handleContentHeader_of_ne (hv : Valid s) (hne : num' ≠ num) (buf : Buffer) :
    KeepsPending c num s (outcome (s.handleContentHeader c' num' buf)) := by
  cases hp : (s.channel c' num').bind Channel.pendingPublish with
  | none =>
    rw [handleContentHeader, hp]
    exact .refl
  | some p =>
    rw [handleContentHeader, hp]
    dsimp only
    split
    · exact .refl
    · rename_i bodySize buf' hread
      split
      · have hnone : Valid (s.setPending c' num' none) := ((does_clearPending (c := c')).moves hv).valid hv
        exact (KeepsPending.setPending_none c' num').trans (.does hnone (does_sendChannelClose ..) (by decide))
      · split
        · exact .setPending_of_ne c' hne _
        · rename_i properties _ hdec
          obtain ⟨-, -, -, hwell, -⟩ := BasicProperties.accepts_properties _ _ _ hdec
          have hsound : PendingPublish.Sound { p with bodySize, properties } :=
            ⟨(hv.pending hp).exchange, (hv.pending hp).routing_key, hwell⟩
          have hset : Valid (s.setPending c' num' (some { p with bodySize, properties })) :=
            ((does_setPending (c := c') hsound).moves hv).valid hv
          dsimp only [outcome]
          split
          · exact (KeepsPending.setPending_of_ne c' hne _).trans (keepsPending_handleContentBody_of_ne hset hne [])
          · exact .setPending_of_ne c' hne _

theorem handleBasicPublish_eq (buf : Buffer) :
    s.handleBasicPublish c num buf = withArgs readBasicPublish buf s fun args =>
      if hasBit args.2.2 0x02 then
        s.sendChannelClose c num reply_code.NOT_IMPLEMENTED (ascii "immediate=true is not supported") class_id.BASIC
          basic_method.PUBLISH
      else s.setPending c num (some { exchange := args.1, routing_key := args.2.1, mandatory := hasBit args.2.2 0x01 }) := rfl

theorem handleMethodFrame_publish (hopen : (s.openChannelAt c num).isSome = true) {buf rest : Buffer}
    (hids : readMethodIds buf = .ok ((class_id.BASIC, basic_method.PUBLISH), rest)) :
    s.handleMethodFrame c num buf = s.handleBasicPublish c num rest := by
  obtain ⟨ch, hch⟩ := Option.isSome_iff_exists.mp hopen
  rw [handleMethodFrame, hids]
  dsimp only
  rw [if_neg (by decide), if_neg (by decide), if_neg (by decide), if_neg (by decide), if_neg (by decide), handleOnChannel, hch]
  rfl

/-- A `basic.publish` that is refused. --/
theorem keepsPending_handleBasicPublish_of_refused (hv : Valid s) {frame : Frame} {buf : Buffer}
    (hmethod : frame.type = FRAME_METHOD)
    (hids : readMethodIds (Buffer.ofBytes frame.payload) = .ok ((class_id.BASIC, basic_method.PUBLISH), buf))
    (hnone : partOf frame = none) : KeepsPending c num s (outcome (s.handleBasicPublish c' num' buf)) := by
  rw [partOf, if_pos hmethod, hids] at hnone
  dsimp only at hnone
  rw [if_pos rfl] at hnone
  rw [handleBasicPublish_eq, withArgs]
  cases hread : readBasicPublish buf with
  | error e => exact .refl
  | ok x =>
    obtain ⟨⟨exchange, routingKey, bits⟩, rest⟩ := x
    rw [hread] at hnone
    dsimp only [outcome] at hnone ⊢
    split
    · exact .does hv (does_sendChannelClose ..) (by decide)
    · rename_i himmediate
      rw [if_neg himmediate] at hnone
      cases hnone

/-- A frame that is no part of a publish on the channel. --/
theorem keepsPending_handleFrame (hv : Valid s) {frame : Frame} {frameEnd : UInt8} (hserved : Served c s frame frameEnd)
    (hnone : receives c num s (.frame c frame frameEnd) = none) : KeepsPending c num s (outcome (s.handleFrame c frame)) := by
  rw [handleFrame]
  by_cases hclosing : (s.connection c).map Connection.state = some .CLOSING ∧ frame.type = FRAME_METHOD
  · rw [if_pos hclosing]
    exact .does hv (does_handleClosing _) (by decide)
  rw [if_neg hclosing]
  rw [receives_of_served hserved hclosing] at hnone
  by_cases hmethod : frame.type = FRAME_METHOD
  · rw [if_pos hmethod]
    by_cases hpub : frame.channel = num ∧ (s.openChannelAt c num).isSome = true ∧
        ∃ buf, readMethodIds (Buffer.ofBytes frame.payload) = .ok ((class_id.BASIC, basic_method.PUBLISH), buf)
    · obtain ⟨hnum, hopen, buf, hids⟩ := hpub
      rw [if_pos ⟨hnum, hopen⟩] at hnone
      rw [handleMethodFrame_publish (hnum ▸ hopen) hids]
      exact keepsPending_handleBasicPublish_of_refused hv hmethod hids hnone
    · refine keepsPending_handleMethodFrame hv fun buf hnum hopen hids => hpub ⟨hnum, ?_, buf, hids⟩
      exact hnum ▸ hopen
  rw [if_neg hmethod]
  by_cases hheader : frame.type = FRAME_HEADER
  · rw [if_pos hheader]
    split
    · exact .refl
    · rename_i ch hopen
      by_cases hnum : frame.channel = num
      · subst hnum
        rw [if_pos ⟨rfl, by rw [hopen]; rfl⟩, partOf, if_neg hmethod, if_pos hheader] at hnone
        rw [handleContentHeader]
        split
        · exact .refl
        · cases hread : readContentHeader (Buffer.ofBytes frame.payload) with
          | error e => exact .refl
          | ok x =>
            rw [hread] at hnone
            cases hnone
      · exact keepsPending_handleContentHeader_of_ne hv hnum _
  rw [if_neg hheader]
  by_cases hbody : frame.type = FRAME_BODY
  · rw [if_pos hbody]
    split
    · exact .refl
    · rename_i ch hopen
      by_cases hnum : frame.channel = num
      · subst hnum
        rw [if_pos ⟨rfl, by rw [hopen]; rfl⟩, partOf, if_neg hmethod, if_neg hheader, if_pos hbody] at hnone
        cases hnone
      · exact keepsPending_handleContentBody_of_ne hv hnum _
  rw [if_neg hbody]
  exact outcome_ite .refl (.does hv (does_sendConnectionClose ..) (by decide))

/-- An event of the process that is no part of a publish on the channel. --/
theorem keepsPending_handle (hv : Valid s) {e : Event} (he : e ≠ .restart) (hnone : receives c num s e = none) :
    KeepsPending c num s (s.handle e) := by
  cases e with
  | accept => exact .does hv (Does.of (c := 0) .accept) (by decide)
  | protocolHeader c' header =>
    rw [handle]
    split
    · exact .refl
    · rename_i hconn
      split
      · rename_i hheader
        exact .does hv (does_receiveProtocolHeader hconn hheader.2 header) (by decide)
      · exact .refl
  | frame c' frame frameEnd =>
    by_cases hc : c' = c
    · subst hc
      rcases handle_frame_cases c' s frame frameEnd with ⟨-, heq | ⟨text, heq⟩⟩ | ⟨hserved, hok | ⟨s', text, herror, heq⟩⟩
      · rw [heq]
        exact .refl
      · rw [heq]
        exact .does hv (does_stopReading _) (by decide)
      · have hkeeps := keepsPending_handleFrame hv hserved hnone
        rwa [hok] at hkeeps
      · have hkeeps := keepsPending_handleFrame hv hserved hnone
        have hdoes : Does c' (.oversize :: requestKinds) s (outcome (s.handleFrame c' frame)) :=
          does_handleFrame (fun _ => List.mem_cons_of_mem _) (.inl List.mem_cons_self)
        have hvalid := (hdoes.moves hv).valid hv
        rw [herror] at hkeeps hvalid
        rw [heq]
        exact hkeeps.trans (.does hvalid (does_stopReading _) (by decide))
    · have hactor : ∀ x, (Event.frame c' frame frameEnd).connection? = some x → x = c' := fun x hx => (Option.some.inj hx).symm
      exact .does_of_ne hv
        (does_handle hactor Event.noConfusion (K := .oversize :: allKinds) (fun _ => List.mem_cons_of_mem _) (.inl List.mem_cons_self)) hc
  | runTask c' => exact .does hv does_runTask (by decide)
  | disconnect c' => exact .does hv does_shutdown (by decide)
  | tick => exact .does hv (does_tick (c := 0)) (by decide)
  | compact => exact .does hv (Does.of (c := 0) .compact) (by decide)
  | restart => exact absurd rfl he
  | reorderQueues order => exact .does hv (Does.of (c := 0) (.reorderQueues order)) (by decide)
  | reorderExchanges order => exact .does hv (Does.of (c := 0) (.reorderExchanges order)) (by decide)
  | reorderChannels c' order => exact .does hv (.of (.reorderChannels order)) (by decide)
  | reorderConsumers c' num' order => exact .does hv (.of (.reorderConsumers num' order)) (by decide)
  | reorderUnacked c' num' order => exact .does hv (.of (.reorderUnacked num' order)) (by decide)

/-! ### The pending publish holds what the channel received -/

/-- The pending publish of the channel, if there is one, holds the last parts. --/
def Tracked (c : Nat) (num : UInt16) (parts : List Part) (s : AmqpServer) : Prop :=
  ∀ p, (s.channel c num).bind Channel.pendingPublish = some p → p.Follows parts

theorem pending_setPending_none : ((s.setPending c num none).channel c num).bind Channel.pendingPublish = none := by
  rw [setPending, channel_modifyChannel_self]
  cases s.channel c num <;> rfl

namespace Tracked
variable {parts : List Part}

theorem keeps (h : Tracked c num parts s) (hk : KeepsPending c num s s') : Tracked c num parts s' := fun p hp => h p (hk p hp)

theorem of_none (h : (s.channel c num).bind Channel.pendingPublish = none) : Tracked c num parts s :=
  fun p hp => by rw [h] at hp; cases hp

theorem setPending {p : PendingPublish} (hp : p.Follows parts) : Tracked c num parts (s.setPending c num (some p)) := by
  intro p' hp'
  rw [AmqpServer.setPending, channel_modifyChannel_self] at hp'
  obtain ⟨_, hch, hp'⟩ := Option.bind_eq_some_iff.mp hp'
  obtain ⟨ch, -, rfl⟩ := Option.map_eq_some_iff.mp hch
  exact Option.some.inj hp' ▸ hp

theorem clear : Tracked c num parts (s.setPending c num none) := of_none pending_setPending_none

theorem handleContentBody (h : Tracked c num parts s) (data : Bytes) :
    Tracked c num (.body data :: parts) (s.handleContentBody c num data) := by
  cases hp : (s.channel c num).bind Channel.pendingPublish with
  | none =>
    rw [AmqpServer.handleContentBody, hp]
    exact of_none hp
  | some p =>
    rw [AmqpServer.handleContentBody, hp]
    dsimp only
    split
    · rw [publish_eq]
      exact clear
    · rename_i hmore
      exact setPending ((h p hp).more (not_le.mp hmore))

theorem handleContentHeader (h : Tracked c num parts s) (hv : Valid s) {buf buf' : Buffer} {bodySize : UInt64}
    (hread : readContentHeader buf = .ok (bodySize, buf')) :
    Tracked c num (.header bodySize :: parts) (outcome (s.handleContentHeader c num buf)) := by
  cases hp : (s.channel c num).bind Channel.pendingPublish with
  | none =>
    rw [AmqpServer.handleContentHeader, hp]
    exact of_none hp
  | some p =>
    rw [AmqpServer.handleContentHeader, hp]
    dsimp only
    rw [hread]
    dsimp only
    split
    · have hnone : Valid (s.setPending c num none) := ((does_clearPending (c := c)).moves hv).valid hv
      exact clear.keeps (.does hnone (does_sendChannelClose ..) (by decide))
    · rename_i hsmall
      have hsmall := not_lt.mp hsmall
      split
      · exact setPending ((h p hp).header hsmall p.properties)
      · rename_i properties _ hdec
        have hfollows := (h p hp).header hsmall properties
        dsimp only [outcome]
        split
        · -- The publish is complete, so that no pending publish is left.
          rename_i hzero
          refine of_none ?_
          rw [AmqpServer.handleContentBody, pending_setPending hp]
          dsimp only
          rw [if_pos, publish_eq, pending_setPending_none]
          rw [hzero]
          exact Nat.zero_le _
        · exact setPending hfollows

/-- A frame that is a part of a publish on the channel. --/
theorem handleFrame (h : Tracked c num parts s) (hv : Valid s) {frame : Frame} {frameEnd : UInt8}
    {part : Part} (hpart : receives c num s (.frame c frame frameEnd) = some part) :
    Tracked c num (part :: parts) (outcome (s.handleFrame c frame)) := by
  rw [receives] at hpart
  split at hpart
  case isFalse => cases hpart
  rename_i hcond
  obtain ⟨-, rfl, -, hopen, hclosing⟩ := hcond
  obtain ⟨ch, hch⟩ := Option.isSome_iff_exists.mp hopen
  rw [AmqpServer.handleFrame, if_neg hclosing]
  rw [partOf] at hpart
  by_cases hmethod : frame.type = FRAME_METHOD
  · rw [if_pos hmethod] at hpart ⊢
    split at hpart
    · cases hpart
    · rename_i ids buf hids
      split at hpart
      · rename_i hpub
        rw [hpub] at hids
        split at hpart
        · cases hpart
        · rename_i exchange routingKey bits rest hread
          split at hpart
          · cases hpart
          · rename_i himmediate
            rw [handleMethodFrame_publish hopen hids, handleBasicPublish_eq, withArgs, hread]
            dsimp only [outcome]
            rw [if_neg himmediate, ← Option.some.inj hpart]
            exact setPending (.publish ..)
      · cases hpart
  rw [if_neg hmethod] at hpart ⊢
  by_cases hheader : frame.type = FRAME_HEADER
  · rw [if_pos hheader] at hpart ⊢
    rw [hch]
    split at hpart
    · cases hpart
    · rename_i hread
      rw [← Option.some.inj hpart]
      exact h.handleContentHeader hv hread
  rw [if_neg hheader] at hpart ⊢
  by_cases hbody : frame.type = FRAME_BODY
  · rw [if_pos hbody] at hpart ⊢
    rw [hch, ← Option.some.inj hpart]
    exact h.handleContentBody _
  · rw [if_neg hbody] at hpart
    cases hpart

theorem start {store : Option MessageStore} {userStore : UserStore} {clock : Nat → Int} {readings : Nat} :
    Tracked c num parts (start store userStore clock readings) := by
  cases store with
  | none => exact of_none rfl
  | some st =>
    have hblank : ∀ store, Tracked c num parts
        { store, userStore, clock, readings, exchanges := defaultExchanges } := fun _ => of_none rfl
    have hrec := does_recoverFromStore (c := 0)
      (s := { store := some st, userStore, clock, readings, exchanges := defaultExchanges }) rfl
    exact (hblank (some st.recover.2)).keeps (.does valid_blank hrec (by decide))

/-- One event. --/
theorem handle (h : Tracked c num parts s) (hv : Valid s) (e : Event) :
    Tracked c num ((receives c num s e).toList ++ parts) (s.handle e) := by
  by_cases he : e = .restart
  · subst he
    exact start
  cases hpart : receives c num s e with
  | none => exact h.keeps (keepsPending_handle hv he hpart)
  | some part =>
    cases e with
    | frame c' frame frameEnd =>
      have hcond := hpart
      rw [receives] at hcond
      split at hcond
      case isFalse => cases hcond
      rename_i hall
      obtain ⟨rfl, -, hserved, -⟩ := hall
      have hafter := h.handleFrame hv hpart
      rcases handle_frame_cases c' s frame frameEnd with ⟨hnot, -⟩ | ⟨-, hok | ⟨s', text, herror, heq⟩⟩
      · exact absurd hserved hnot
      · rwa [hok] at hafter
      · have hdoes : Does c' (.oversize :: requestKinds) s (outcome (s.handleFrame c' frame)) :=
          does_handleFrame (fun _ => List.mem_cons_of_mem _) (.inl List.mem_cons_self)
        have hvalid := (hdoes.moves hv).valid hv
        rw [herror] at hafter hvalid
        rw [heq]
        exact hafter.keeps (.does hvalid (does_stopReading _) (by decide))
    | _ => cases hpart

theorem run (h : Tracked c num parts s) (hv : Valid s) (events : List Event) :
    Tracked c num (received c num s parts events) (s.run events) := by
  induction events generalizing s parts with
  | nil => exact h
  | cons e events ih => exact ih (h.handle hv e) (valid_handle hv e)

end Tracked

/-! ### Complete publishes -/

/-- The publish that an event completes, and the part that the event brings. --/
theorem matches_published {parts : List Part} (h : Tracked c num parts s) {e : Event} {p : PendingPublish}
    (hp : published c num s e = some p) :
    Matches p.body (sinceHeader ((receives c num s e).toList ++ parts)) ↔
      InSequence ((receives c num s e).toList ++ parts) := by
  cases e with
  | frame c' frame frameEnd =>
    rw [published] at hp
    split at hp
    · rename_i hcond
      obtain ⟨rfl, rfl, hserved, hopen⟩ := hcond
      have hmethod : frame.type ≠ FRAME_METHOD := by
        intro htype
        rw [completed_of_ne (by rw [htype]; decide) (by rw [htype]; decide)] at hp
        cases hp
      rw [receives_of_served hserved fun hclosing => hmethod hclosing.2, if_pos ⟨rfl, hopen⟩, partOf, if_neg hmethod]
      rw [completed] at hp
      obtain ⟨q, hq, hp⟩ := Option.bind_eq_some_iff.mp hp
      have hfollows := h q hq
      split at hp
      · rename_i hheader
        rw [if_pos hheader]
        rw [completedByHeader] at hp
        cases hread : readContentHeader (Buffer.ofBytes frame.payload) with
        | error e =>
          rw [hread] at hp
          cases hp
        | ok x =>
          obtain ⟨bodySize, buf'⟩ := x
          rw [hread] at hp
          dsimp only at hp ⊢
          split at hp
          · cases hp
          · split at hp
            · rename_i hzero
              rw [hzero]
              rw [completedBy, hzero] at hp
              have hbody : p.body = q.body := by
                dsimp only at hp
                rw [UInt64.toNat_zero, if_pos (Nat.zero_le _)] at hp
                rw [← Option.some.inj hp]
                exact List.append_nil _
              rw [hbody]
              exact hfollows.matches_header
            · cases hp
      · rename_i hheader
        split at hp
        · rename_i hbody
          rw [if_neg hheader, if_pos hbody]
          rw [completedBy] at hp
          dsimp only at hp
          split at hp
          · rename_i hdone
            rw [← Option.some.inj hp]
            exact hfollows.matches_body hdone
          · cases hp
        · cases hp
    · cases hp
  | _ => cases hp

/-- In every run, a publish that the server routes has the body that was received since its header, of the size declared
    there, exactly if the frames of that publish came in sequence. --/
theorem body_matches_iff {store : Option MessageStore} {userStore : UserStore} {clock : Nat → Int} {readings : Nat}
    {events : List Event} {e : Event} {p : PendingPublish}
    (hp : published c num ((AmqpServer.start store userStore clock readings).run events) e = some p) :
    ((AmqpServer.start store userStore clock readings).run events).handle e =
        (((AmqpServer.start store userStore clock readings).run events).setPending c num (some p)).publish c num p ∧
      (Matches p.body (sinceHeader (received c num (AmqpServer.start store userStore clock readings) [] (events ++ [e]))) ↔
        InSequence (received c num (AmqpServer.start store userStore clock readings) [] (events ++ [e]))) := by
  refine ⟨handle_of_published hp, ?_⟩
  rw [received_concat]
  exact matches_published (Tracked.start.run valid_start events) hp

/-- A client that has sent a `basic.publish`. --/
def publishing : List Event :=
  Client.connect 1 ++ [Client.openChannel 1 1, Client.sendMethod 1 1 class_id.BASIC basic_method.PUBLISH
    (writeUint16 0 ++ writeShortString [] ++ writeShortString (ascii "q") ++ writeUint8 0)]

def contentHeader (bodySize : UInt64) : Event :=
  .frame 1 { type := FRAME_HEADER, channel := 1, payload := writeUint16 class_id.BASIC ++ writeUint16 0 ++
    writeUint64 bodySize ++ BasicProperties.encode {} } FRAME_END

def contentBody (payload : Bytes) : Event := .frame 1 { type := FRAME_BODY, channel := 1, payload } FRAME_END

/-- A body in two frames. --/
theorem body_matches_hello :
    ∃ p, published 1 1 (freshServer.run (publishing ++ [contentHeader 5, contentBody (ascii "hel")]))
        (contentBody (ascii "lo")) = some p ∧ p.body = ascii "hello" ∧
      Matches p.body (sinceHeader (received 1 1 freshServer []
        ((publishing ++ [contentHeader 5, contentBody (ascii "hel")]) ++ [contentBody (ascii "lo")]))) := by
  have hbody : (published 1 1 (freshServer.run (publishing ++ [contentHeader 5, contentBody (ascii "hel")]))
      (contentBody (ascii "lo"))).map PendingPublish.body = some (ascii "hello") := by decide +kernel
  obtain ⟨p, hp, hpbody⟩ := Option.map_eq_some_iff.mp hbody
  exact ⟨p, hp, hpbody, (body_matches_iff hp).2.mpr (by decide +kernel)⟩

/-- A part of the body before the header, more of it than the header declared, and a header in the middle of it: what is
    routed is not what a header announced. --/
theorem body_differs :
    ((published 1 1 (freshServer.run publishing) (contentBody (ascii "x"))).map PendingPublish.body = some (ascii "x") ∧
      ¬Matches (ascii "x") (sinceHeader (received 1 1 freshServer [] (publishing ++ [contentBody (ascii "x")])))) ∧
    ((published 1 1 (freshServer.run (publishing ++ [contentHeader 1])) (contentBody (ascii "xy"))).map PendingPublish.body =
        some (ascii "xy") ∧
      ¬Matches (ascii "xy") (sinceHeader (received 1 1 freshServer []
        (publishing ++ [contentHeader 1, contentBody (ascii "xy")])))) ∧
    ((published 1 1 (freshServer.run (publishing ++ [contentHeader 3, contentBody (ascii "x"), contentHeader 2]))
        (contentBody (ascii "y"))).map PendingPublish.body = some (ascii "xy") ∧
      ¬Matches (ascii "xy") (sinceHeader (received 1 1 freshServer []
        (publishing ++ [contentHeader 3, contentBody (ascii "x"), contentHeader 2, contentBody (ascii "y")])))) := by
  decide +kernel

end AmqpServer
end Broko.Broker
