import Broko.Broker.Client
import Broko.Theorems.Admission
import Broko.Theorems.StoreRuns

/-! Whether recovery can read what a publish writes. A channel admits bodies of twice the size that replay accepts
    for an entry. -/

namespace Broko.Storage
open Amqp Broker MessageStore

/-- A new process on the file reads the record of the message with everything that is written after it. --/
def Readable (st : MessageStore) (queueName : Bytes) (msg : Message) : Prop :=
  ∀ later : List Entry, (∀ e ∈ later, e.Storable) →
    ({ wal := (st.storeMessage queueName msg).2.wal ++ writeEntries later } : MessageStore).replay.1 =
      later.foldl RecoveryData.apply (st.replay.1.apply (.message (recordOf st.nextMsgId queueName msg)))

/-- The size that `writeEntry` gives the entry of a message. --/
def recordSize (queueName : Bytes) (msg : Message) : Nat :=
  33 + queueName.length + msg.exchange.length + msg.routing_key.length + msg.properties.encode.length + msg.body.length

theorem payload_recordOf (id : UInt64) (queueName : Bytes) (msg : Message) :
    1 + (Entry.message (recordOf id queueName msg)).payload.length + 4 = recordSize queueName msg := by
  simp only [Entry.payload, recordOf, recordSize, List.length_append, length_writeString, length_writeUint64]
  omega

theorem fits_recordOf {id : UInt64} {queueName : Bytes} {msg : Message} :
    (Entry.message (recordOf id queueName msg)).Fits ↔ recordSize queueName msg ≤ MAX_ENTRY_SIZE := by
  rw [Entry.Fits, payload_recordOf]

theorem replay_fst (st : MessageStore) : st.replay.1 = (parse st.wal).1.foldl RecoveryData.apply {} := by
  rw [replay, recoverLoop_eq, ← parse]

/-- On a whole log the record can be read exactly if it is within the limit. --/
theorem readable_iff {st : MessageStore} {queueName : Bytes} {msg : Message} (hw : Whole st)
    (hwell : msg.properties.WellFormed) (hlt : recordSize queueName msg < 2 ^ 32) :
    Readable st queueName msg ↔ recordSize queueName msg ≤ MAX_ENTRY_SIZE := by
  have hparse := whole_iff.mp hw
  have hwal : (st.storeMessage queueName msg).2.wal =
      st.wal ++ (Entry.message (recordOf st.nextMsgId queueName msg)).write := rfl
  constructor
  · -- An entry that is too large ends the replay, and the message is missing from the data.
    intro h
    by_contra hbig
    have hnone : nextRecord (Entry.message (recordOf st.nextMsgId queueName msg)).write = none := by
      have hover := nextRecord_oversize (t := ENTRY_MESSAGE)
        (p := (Entry.message (recordOf st.nextMsgId queueName msg)).payload)
        (by rw [payload_recordOf]; omega) (by rw [payload_recordOf]; omega) []
      rwa [List.append_nil] at hover
    have hmissing := congrArg (fun data => data.messages.length) (h [] (List.forall_mem_nil _))
    simp only [writeEntries, List.flatMap_nil, List.append_nil, List.foldl_nil, replay_fst, hwal, parse_append hparse,
      parse_of_none hnone, RecoveryData.apply, List.length_append, List.length_singleton] at hmissing
    omega
  · intro hfit later hlater
    have hstorable : (Entry.message (recordOf st.nextMsgId queueName msg)).Storable :=
      ⟨hwell, fits_recordOf.mpr hfit⟩
    rw [replay_fst, replay_fst, hwal, List.append_assoc, parse_append hparse, parse_write hstorable,
      parse_writeEntries_nil hlater, List.foldl_append, List.foldl_cons]

end Broko.Storage

namespace Broko.Broker
open Amqp Storage MessageStore

namespace AmqpServer

variable {c : Nat} {num : UInt16} {s : AmqpServer}

/-- Whatever has happened in the broker, recovery reads the record of a message that a channel admits, and what
    is written after it, exactly if the record is within the limit that replay has for an entry. --/
theorem record_readable_iff {store : Option MessageStore} {userStore : UserStore} {clock : Nat → Int} {readings : Nat}
    {events : List Event} {frame : Frame} {frameEnd : UInt8} {p : PendingPublish} {qname : Bytes} {q : MessageQueue}
    {st : MessageStore} (hserved : Served c ((start store userStore clock readings).run events) frame frameEnd)
    (hp : ((start store userStore clock readings).run events).completed c frame = some p)
    (hq : ((start store userStore clock readings).run events).queue qname = some q) (hw : Whole st) :
    Readable st qname (messageOf c p) ↔
      33 + qname.length + p.exchange.length + p.routing_key.length + p.properties.encode.length + p.body.length ≤
        MAX_ENTRY_SIZE := by
  have hadm := admitted_of_completed hserved hp
  have hname := ((valid_run valid_start events).queues qname q hq).1
  refine readable_iff hw hadm.properties ?_
  have hex := hadm.exchange
  have hrk := hadm.routing_key
  have henc := hadm.encoded
  have hbody := hadm.body
  simp only [MAX_ENTRY_SIZE, MAX_BODY_SIZE, HARD_FRAME_MAX] at hname henc hbody
  simp only [recordSize, messageOf]
  omega

/-! A publish of 64 MiB: the header, and 512 frames of the largest size. -/

/-- A connection that reads, with an open channel that waits for more of a body. --/
structure Receiving (c : Nat) (num : UInt16) (s : AmqpServer) (p : PendingPublish) : Prop where
  connection : ∃ conn, s.connection c = some conn ∧ conn.reading = true ∧ conn.state = .OPEN ∧ conn.frameMax = 131072
  channel : ∃ ch, s.channel c num = some ch ∧ ch.isOpen = true ∧ ch.pendingPublish = some p

theorem Receiving.served {p : PendingPublish} {frame : Frame} (h : Receiving c num s p)
    (hlen : frame.payload.length ≤ 131072) : Served c s frame FRAME_END := by
  obtain ⟨conn, hconn, hread, hstate, hmax⟩ := h.connection
  refine ⟨conn, hconn, hread, by rw [hstate]; decide, ?_, rfl⟩
  rw [effectiveMax, hmax]
  exact hlen

theorem Receiving.setPending {p p' : PendingPublish} (h : Receiving c num s p) :
    Receiving c num (s.setPending c num (some p')) p' := by
  obtain ⟨⟨conn, hconn, hread, hstate, hmax⟩, ch, hch, hopen, -⟩ := h
  constructor
  · rw [AmqpServer.connection, AmqpServer.setPending, modifyChannel, modifyConnection, Assoc.lookup_modify_self,
      ← AmqpServer.connection, hconn, Option.map_some]
    exact ⟨_, rfl, hread, hstate, hmax⟩
  · rw [AmqpServer.setPending, channel_modifyChannel_self, hch, Option.map_some]
    exact ⟨_, rfl, hopen, rfl⟩

/-- A body frame that does not complete the publish. --/
theorem Receiving.handle_body {p : PendingPublish} {data : Bytes} (h : Receiving c num s p) (hlen : data.length ≤ 131072)
    (hmore : p.bodyReceived + data.length < p.bodySize.toNat) :
    s.handle (.frame c { type := FRAME_BODY, channel := num, payload := data } FRAME_END) = s.setPending c num
      (some { p with body := p.body ++ data, bodyReceived := p.bodyReceived + data.length }) := by
  obtain ⟨⟨conn, hconn, hread, hstate, hmax⟩, ch, hch, hopen, hp⟩ := h
  have hpending : (s.channel c num).bind Channel.pendingPublish = some p := by rw [hch, Option.bind_some, hp]
  have hthere : s.openChannelAt c num = some ch := by rw [openChannelAt, hch, Option.filter_some, if_pos hopen]
  have hbody : s.handleContentBody c num data = s.setPending c num
      (some { p with body := p.body ++ data, bodyReceived := p.bodyReceived + data.length }) := by
    rw [handleContentBody, hpending]
    exact if_neg (by rw [not_le]; exact hmore)
  have hframe : s.handleFrame c { type := FRAME_BODY, channel := num, payload := data } = .ok (s.setPending c num
      (some { p with body := p.body ++ data, bodyReceived := p.bodyReceived + data.length })) := by
    have hmethod : FRAME_BODY ≠ FRAME_METHOD := by decide
    have hheader : FRAME_BODY ≠ FRAME_HEADER := by decide
    rw [handleFrame, if_neg (fun h => hmethod h.2), if_neg hmethod, if_neg hheader, if_pos rfl, hthere]
    exact congrArg Except.ok hbody
  rw [handle, hconn]
  dsimp only
  rw [if_pos ⟨hread, by rw [hstate]; decide⟩, receiveFrame, effectiveMax, hmax]
  dsimp only
  rw [if_neg (by simpa using hlen), if_neg (by simp), hframe]

/-- The client makes a durable queue and announces the large body. --/
def announce : List Event :=
  Client.connect 1 ++ [Client.openChannel 1 1, Client.assertQueue 1 1 (ascii "q") false true false false []] ++
    (Client.sendToQueue 1 1 (ascii "q") [] { delivery_mode := some 2 }).take 1 ++
    [.frame 1 { type := FRAME_HEADER, channel := 1, payload := writeUint16 class_id.BASIC ++ writeUint16 0 ++
      writeUint64 67108864 ++ BasicProperties.encode { delivery_mode := some 2 } } FRAME_END]

def largePublish : PendingPublish := (((freshServer.run announce).channel 1 1).bind Channel.pendingPublish).getD {}

theorem largePublish_fields :
    largePublish.exchange = [] ∧ largePublish.routing_key = ascii "q" ∧ largePublish.bodySize = 67108864 ∧
      largePublish.bodyReceived = 0 ∧ largePublish.body = [] ∧ largePublish.properties.delivery_mode = some 2 ∧
      largePublish.properties.headers.isNone = true := by decide +kernel

theorem receiving_announce : Receiving 1 1 (freshServer.run announce) largePublish := by
  have hconn : ((freshServer.run announce).connection 1).map (fun conn => (conn.reading, conn.state, conn.frameMax)) =
      some (true, .OPEN, 131072) := by decide +kernel
  have hopen : ((freshServer.run announce).channel 1 1).map Channel.isOpen = some true := by decide +kernel
  have hpend : (((freshServer.run announce).channel 1 1).bind Channel.pendingPublish).isSome = true := by decide +kernel
  obtain ⟨conn, hc, hfields⟩ := Option.map_eq_some_iff.mp hconn
  obtain ⟨ch, hch, ho⟩ := Option.map_eq_some_iff.mp hopen
  obtain ⟨hread, hstate, hmax⟩ : conn.reading = true ∧ conn.state = .OPEN ∧ conn.frameMax = 131072 := by
    simpa only [Prod.mk.injEq] using hfields
  refine ⟨⟨conn, hc, hread, hstate, hmax⟩, ch, hch, ho, ?_⟩
  obtain ⟨p, hp⟩ := Option.isSome_iff_exists.mp hpend
  rw [largePublish, hp, Option.getD_some]
  rwa [hch, Option.bind_some] at hp

def bodyFrame (data : Bytes) : Frame := { type := FRAME_BODY, channel := 1, payload := data }

def largeRun (data : Bytes) (n : Nat) : List Event := announce ++ List.replicate n (.frame 1 (bodyFrame data) FRAME_END)

/-- What the channel has received after `n` frames. --/
def largeBody (data : Bytes) (n : Nat) : PendingPublish :=
  { largePublish with body := (List.replicate n data).flatten, bodyReceived := n * 131072 }

section
variable {data : Bytes} (hdata : data.length = 131072)
include hdata

/-- The virtual host and the log do not change while the body arrives. --/
theorem receiving_largeRun {n : Nat} (hn : n < 512) :
    Receiving 1 1 (freshServer.run (largeRun data n)) (largeBody data n) ∧
      (freshServer.run (largeRun data n)).exchanges = (freshServer.run announce).exchanges ∧
      (freshServer.run (largeRun data n)).queues = (freshServer.run announce).queues ∧
      (freshServer.run (largeRun data n)).store = (freshServer.run announce).store := by
  obtain ⟨-, -, hsize, hrec, hbody, -, -⟩ := largePublish_fields
  induction n with
  | zero =>
    have hzero : largeBody data 0 = largePublish := by
      rw [largeBody, Nat.zero_mul, List.replicate_zero, List.flatten_nil, ← hbody, ← hrec]
    rw [largeRun, List.replicate_zero, List.append_nil, hzero]
    exact ⟨receiving_announce, rfl, rfl, rfl⟩
  | succ n ih =>
    obtain ⟨hreceiving, hex, hq, hst⟩ := ih (by omega)
    have hmore : (largeBody data n).bodyReceived + data.length < (largeBody data n).bodySize.toNat := by
      rw [hdata, largeBody, hsize, show (67108864 : UInt64).toNat = 67108864 from rfl]
      dsimp only
      omega
    have hstep := hreceiving.handle_body hdata.le hmore
    have hrun : largeRun data (n + 1) = largeRun data n ++ [.frame 1 (bodyFrame data) FRAME_END] := by
      rw [largeRun, List.replicate_succ', ← List.append_assoc, ← largeRun]
    have hnext : ({ largeBody data n with
        body := (largeBody data n).body ++ data
        bodyReceived := (largeBody data n).bodyReceived + data.length } : PendingPublish) = largeBody data (n + 1) := by
      simp only [largeBody, hdata, List.replicate_succ', List.flatten_append, List.flatten_singleton, Nat.succ_mul]
    rw [hnext] at hstep
    rw [hrun, run_concat, bodyFrame, hstep]
    exact ⟨hreceiving.setPending, hex, hq, hst⟩

/-- The frame after that completes the publish. --/
theorem completed_largeRun : ∃ p, (freshServer.run (largeRun data 511)).completed 1 (bodyFrame data) = some p ∧
    p.exchange = [] ∧ p.routing_key = ascii "q" ∧ p.bodySize = 67108864 ∧ p.properties.delivery_mode = some 2 ∧
    p.properties.headers = none ∧ p.body.length = 67108864 := by
  obtain ⟨hexchange, hrk, hsize, -, -, hmode, hheaders⟩ := largePublish_fields
  obtain ⟨⟨-, ch, hch, -, hp⟩, -⟩ := receiving_largeRun hdata (n := 511) (by decide)
  have hpend : ((freshServer.run (largeRun data 511)).channel 1 (bodyFrame data).channel).bind Channel.pendingPublish =
      some (largeBody data 511) := by
    rw [bodyFrame]
    dsimp only
    rw [hch, Option.bind_some, hp]
  have hheader : (bodyFrame data).type ≠ FRAME_HEADER := (by decide : FRAME_BODY ≠ FRAME_HEADER)
  have hbody : (bodyFrame data).type = FRAME_BODY := rfl
  have hdone : (largeBody data 511).bodySize.toNat ≤ (largeBody data 511).bodyReceived + data.length := by
    have hsize : (largeBody data 511).bodySize.toNat = 67108864 := congrArg UInt64.toNat hsize
    have hrec : (largeBody data 511).bodyReceived = 511 * 131072 := rfl
    omega
  refine ⟨{ largeBody data 511 with
    body := (largeBody data 511).body ++ data
    bodyReceived := (largeBody data 511).bodyReceived + data.length }, ?_, hexchange, hrk, hsize, hmode,
    Option.isNone_iff_eq_none.mp hheaders, ?_⟩
  · rw [completed, hpend, Option.bind_some, if_neg hheader, if_pos hbody, completedBy]
    exact if_pos hdone
  · have hlen : (List.replicate 511 data).flatten.length = 511 * 131072 := by
      rw [List.length_flatten, List.map_replicate, List.sum_replicate_nat, hdata]
    rw [List.length_append, hdata, largeBody, hlen]

/-- A persistent message of 64 MiB, which the channel admits, is written to the log and cannot be read back. --/
theorem unreadable_largeRun :
    Served 1 (freshServer.run (largeRun data 511)) (bodyFrame data) FRAME_END ∧
    ∃ p, (freshServer.run (largeRun data 511)).completed 1 (bodyFrame data) = some p ∧
      p.bodySize.toNat ≤ MAX_BODY_SIZE ∧ (messageOf 1 p).isPersistent = true ∧
      (ascii "q") ∈ (freshServer.run (largeRun data 511)).routeMessage p.exchange p.routing_key p.properties.headers ∧
      (∃ q, (freshServer.run (largeRun data 511)).queue (ascii "q") = some q ∧ q.durable = true) ∧
      ∃ st, (freshServer.run (largeRun data 511)).store = some st ∧ Whole st ∧
        ¬Readable st (ascii "q") (messageOf 1 p) := by
  obtain ⟨hreceiving, hex, hqueues, hst⟩ := receiving_largeRun hdata (n := 511) (by decide)
  obtain ⟨p, hcomp, hexchange, hrk, hsize, hmode, hheaders, hbody⟩ := completed_largeRun hdata
  have hserved : Served 1 (freshServer.run (largeRun data 511)) (bodyFrame data) FRAME_END := hreceiving.served hdata.le
  have hqueue : ((freshServer.run announce).queue (ascii "q")).map MessageQueue.durable = some true := by decide +kernel
  obtain ⟨q, hq, hdur⟩ := Option.map_eq_some_iff.mp hqueue
  rw [queue, ← hqueues, ← queue] at hq
  have hwhole : (freshServer.run announce).store.map (fun st => st.replay.2.2) = some [] := by decide +kernel
  obtain ⟨st, hstore, hw⟩ := Option.map_eq_some_iff.mp hwhole
  refine ⟨hserved, p, hcomp, ?_, ?_, ?_, ⟨q, hq, hdur⟩, st, hst.trans hstore, hw, ?_⟩
  · rw [hsize]
    decide
  · rw [Message.isPersistent, messageOf, hmode]
    rfl
  · have hroute : (ascii "q") ∈ (freshServer.run announce).routeMessage [] (ascii "q") none := by decide +kernel
    rw [routeMessage, hex, ← routeMessage, hexchange, hrk, hheaders]
    exact hroute
  · have hadm := admitted_of_completed hserved hcomp
    have henc := hadm.encoded
    simp only [HARD_FRAME_MAX] at henc
    rw [readable_iff hw hadm.properties ?_]
    · simp only [recordSize, messageOf, hbody, hrk, hexchange, MAX_ENTRY_SIZE]
      omega
    · simp only [recordSize, messageOf, hbody, hrk, hexchange]
      simp only [List.length_nil, show (ascii "q").length = 1 from rfl]
      omega

end

/-- The largest body frame. --/
def zeros : Bytes := List.replicate 131072 0

theorem large_record_unreadable :
    Served 1 (freshServer.run (largeRun zeros 511)) (bodyFrame zeros) FRAME_END ∧
    ∃ p, (freshServer.run (largeRun zeros 511)).completed 1 (bodyFrame zeros) = some p ∧
      p.bodySize.toNat ≤ MAX_BODY_SIZE ∧ (messageOf 1 p).isPersistent = true ∧
      (ascii "q") ∈ (freshServer.run (largeRun zeros 511)).routeMessage p.exchange p.routing_key p.properties.headers ∧
      (∃ q, (freshServer.run (largeRun zeros 511)).queue (ascii "q") = some q ∧ q.durable = true) ∧
      ∃ st, (freshServer.run (largeRun zeros 511)).store = some st ∧ Whole st ∧
        ¬Readable st (ascii "q") (messageOf 1 p) :=
  unreadable_largeRun List.length_replicate

/-- The client announces a body of one byte. --/
def announceSmall : List Event :=
  Client.connect 1 ++ [Client.openChannel 1 1, Client.assertQueue 1 1 (ascii "q") false true false false []] ++
    (Client.sendToQueue 1 1 (ascii "q") [7] { delivery_mode := some 2 }).take 2

theorem small_record_readable :
    ∃ p st, (freshServer.run announceSmall).completed 1 (bodyFrame [7]) = some p ∧
      (freshServer.run announceSmall).store = some st ∧ Readable st (ascii "q") (messageOf 1 p) := by
  have hcomp : ((freshServer.run announceSmall).completed 1 (bodyFrame [7])).map (fun p =>
      decide (33 + (ascii "q").length + p.exchange.length + p.routing_key.length + p.properties.encode.length +
        p.body.length ≤ MAX_ENTRY_SIZE)) = some true := by decide +kernel
  have hqueue : ((freshServer.run announceSmall).queue (ascii "q")).isSome = true := by decide +kernel
  have hwhole : (freshServer.run announceSmall).store.map (fun st => st.replay.2.2) = some [] := by decide +kernel
  have hconn : ((freshServer.run announceSmall).connection 1).map (fun conn => (conn.reading, conn.state, conn.frameMax)) =
      some (true, .OPEN, 131072) := by decide +kernel
  obtain ⟨p, hp, hsize⟩ := Option.map_eq_some_iff.mp hcomp
  obtain ⟨q, hq⟩ := Option.isSome_iff_exists.mp hqueue
  obtain ⟨st, hst, hw⟩ := Option.map_eq_some_iff.mp hwhole
  obtain ⟨conn, hc, hfields⟩ := Option.map_eq_some_iff.mp hconn
  obtain ⟨hread, hstate, hmax⟩ : conn.reading = true ∧ conn.state = .OPEN ∧ conn.frameMax = 131072 := by
    simpa only [Prod.mk.injEq] using hfields
  have hserved : Served 1 (freshServer.run announceSmall) (bodyFrame [7]) FRAME_END :=
    ⟨conn, hc, hread, by rw [hstate]; decide, by rw [effectiveMax, hmax]; decide, rfl⟩
  exact ⟨p, st, hp, hst, (record_readable_iff hserved hp hq hw).mpr (of_decide_eq_true hsize)⟩

end AmqpServer
end Broko.Broker
