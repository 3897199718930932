import Broko.Broker.Sections
import Broko.Theorems.Moves

/-! What the client of a connection is sent: every frame is written by a handler of its own connection. Queues only post
    deliveries, to the strand of the connection. -/

namespace Broko.Broker
open Amqp Storage

namespace AmqpServer

variable {c c' : Nat} {s s' : AmqpServer}

/-! ### What a connection has -/

theorem own_congr (h : s'.connections = s.connections) : s'.own c = s.own c := by rw [own, own, connection, h, connection]

theorem channel_of_own (h : s'.own c = s.own c) (num : UInt16) : s'.channel c num = s.channel c num := by
  have hchannels : ∀ s : AmqpServer, s.channel c num = (s.own c).bind fun conn => conn.channels.lookup num := by
    intro s
    rw [channel, own]
    cases s.connection c <;> rfl
  rw [hchannels, hchannels, h]

theorem own_modifyConnection {f : Connection → Connection}
    (hf : ∀ conn, ({ f conn with strand := [] } : Connection) = { conn with strand := [] }) :
    (s.modifyConnection c' f).own c = s.own c := by
  rw [own, own, connection, AmqpServer.modifyConnection, Assoc.lookup_modify]
  split
  · rename_i h
    rw [h, Option.map_map]
    exact congrArg (fun g => (s.connection c').map g) (funext hf)
  · rfl

theorem own_modifyConnection_of_ne (h : c ≠ c') (f : Connection → Connection) : (s.modifyConnection c' f).own c = s.own c := by
  rw [own, own, connection, AmqpServer.modifyConnection, Assoc.lookup_modify_of_ne h, connection]

theorem own_onDeliver (k taken : Ref) : (s.onDeliver k taken).own c = s.own c := by
  rw [AmqpServer.onDeliver]
  split
  · rfl
  · refine (own_modifyConnection ?_).trans (own_congr rfl)
    exact fun _ => rfl

theorem own_handOver (name : Bytes) (k head : Ref) (idx : Nat) : (s.handOver name k head idx).own c = s.own c := by
  rw [AmqpServer.handOver, own_onDeliver]
  split <;> exact own_congr rfl

theorem own_dispatchLoop (name : Bytes) (turns : Nat) (s : AmqpServer) : (dispatchLoop name turns s).own c = s.own c := by
  induction turns generalizing s with
  | zero => rfl
  | succ turns ih =>
    rw [AmqpServer.dispatchLoop]
    split
    · rfl
    · split
      · rfl
      · split
        · exact own_congr rfl
        · rw [ih, own_handOver]

theorem own_dispatchLocked (name : Bytes) : (s.dispatchLocked name).own c = s.own c := by
  rw [AmqpServer.dispatchLocked]
  split
  · rfl
  · split
    · rfl
    · exact own_dispatchLoop _ _ _

/-- The section of `enqueue` posts deliveries. --/
theorem own_enqueueLocked (name : Bytes) (r : Ref) : (s.enqueueLocked name r).2.own c = s.own c := by
  have hexpired : ∀ s : AmqpServer, (s.collectExpired name).2.own c = s.own c := by
    intro s
    rw [collectExpired]
    split
    · rfl
    · split
      · rfl
      · exact own_congr rfl
  rw [enqueueLocked]
  exact (own_dispatchLocked name).trans ((hexpired _).trans (own_congr rfl))

theorem own_foldl {α : Type} {f : AmqpServer → α → AmqpServer} (hf : ∀ s a, (f s a).own c = s.own c) (l : List α) :
    (l.foldl f s).own c = s.own c :=
  List.foldlRecOn (motive := fun s' => s'.own c = s.own c) l f rfl fun s' h a _ => (hf s' a).trans h

theorem own_deadLetterFrom {enqueue : AmqpServer → Bytes → Ref → AmqpServer}
    (henqueue : ∀ s name r, (enqueue s name r).own c = s.own c) (q : MessageQueue) (name reason : Bytes) (r : Ref) :
    (s.deadLetterFrom enqueue q name reason r).own c = s.own c := by
  rw [deadLetterFrom]
  split
  · rfl
  · dsimp only
    split
    · exact own_congr rfl
    · rw [own_foldl fun s qname => henqueue s qname r]
      exact own_congr rfl

theorem deadLetterWith_eq (enqueue : AmqpServer → Bytes → Ref → AmqpServer) (name reason : Bytes) (r : Ref) :
    deadLetterWith enqueue name reason s r =
      match s.queue name with
      | none => s
      | some q => s.deadLetterFrom enqueue q name reason r :=
  rfl

theorem enqueueLoop_succ (fuel : Nat) (name : Bytes) (r : Ref) :
    enqueueLoop (fuel + 1) s name r =
      match s.queue name with
      | none => s
      | some _ => (s.enqueueLocked name r).1.foldl (deadLetterWith (enqueueLoop fuel) name (ascii "expired"))
        (s.enqueueLocked name r).2 :=
  rfl

theorem own_enqueueLoop (fuel : Nat) (s : AmqpServer) (name : Bytes) (r : Ref) : (enqueueLoop fuel s name r).own c = s.own c := by
  induction fuel generalizing s name r with
  | zero => rfl
  | succ fuel ih =>
    rw [enqueueLoop_succ]
    split
    · rfl
    · refine (own_foldl (fun s r => ?_) _).trans (own_enqueueLocked name r)
      rw [deadLetterWith_eq]
      split
      · rfl
      · exact own_deadLetterFrom ih _ _ _ _

/-- No connection gets at what another one has. --/
theorem own_move (hv : Valid s) {conn : Connection} (hconn : s.connection c = some conn) {k : Kind} (hm : Move c' k s s')
    (hne : c ≠ c') : s'.own c = s.own c := by
  cases hm with
  | handOver idx => exact own_handOver _ _ _ _
  | purge name =>
    rw [AmqpServer.purge]
    split <;> exact own_congr rfl
  | store m hw hid hq hd hp hfit => exact own_congr (connections_storeMessage ..)
  | oversize m hw hid hq hd hp hfit => exact own_congr (connections_storeMessage ..)
  | hold num u hu hk => exact (own_modifyConnection_of_ne hne _).trans (own_modifyConnection_of_ne hne _)
  | releaseCredit u => exact own_congr (connections_releaseCredit u)
  | settle u hu => exact own_congr (connections_persistAck u)
  | removeConsumer name tag => exact own_congr (connections_removeConsumer name tag)
  | removeConsumersByConnection name => exact own_congr (connections_removeConsumersByConnection name c')
  | accept =>
    -- The new connection gets an id that no connection has.
    have hc : c ≠ s.nextConnectionId := Nat.ne_of_lt (hv.connections c conn hconn).1
    rw [own, own, connection, AmqpServer.accept, Assoc.lookup_insert_of_ne hc, connection]
  | _ => first | exact own_congr rfl | exact own_modifyConnection_of_ne hne _

/-! ### Frames -/

/-- The client of the connection is sent these frames. --/
def Sends (c : Nat) (s s' : AmqpServer) (outs : List Outgoing) : Prop :=
  ∀ conn, s.connection c = some conn → ∃ conn', s'.connection c = some conn' ∧ conn'.sent = conn.sent ++ outs

namespace Sends

theorem of_connections (h : s'.connections = s.connections) : Sends c s s' [] := by
  intro conn hconn
  refine ⟨conn, ?_, (List.append_nil _).symm⟩
  rw [connection, h]
  exact hconn

theorem refl : Sends c s s [] := of_connections rfl

theorem trans {s₁ : AmqpServer} {outs₁ outs₂ : List Outgoing} (h₁ : Sends c s s₁ outs₁) (h₂ : Sends c s₁ s' outs₂) :
    Sends c s s' (outs₁ ++ outs₂) := by
  intro conn hconn
  obtain ⟨conn₁, hconn₁, hsent₁⟩ := h₁ conn hconn
  obtain ⟨conn₂, hconn₂, hsent₂⟩ := h₂ conn₁ hconn₁
  exact ⟨conn₂, hconn₂, by rw [hsent₂, hsent₁, List.append_assoc]⟩

theorem after {s₁ : AmqpServer} {outs : List Outgoing} (h₁ : Sends c s s₁ []) (h₂ : Sends c s₁ s' outs) : Sends c s s' outs :=
  h₁.trans h₂

theorem modifyConnection {c' : Nat} {f : Connection → Connection} (hf : ∀ conn, (f conn).sent = conn.sent) :
    Sends c s (s.modifyConnection c' f) [] := by
  intro conn hconn
  rw [connection, AmqpServer.modifyConnection, Assoc.lookup_modify]
  split
  · rename_i h
    rw [connection, h] at hconn
    rw [hconn]
    exact ⟨f conn, rfl, by rw [hf, List.append_nil]⟩
  · exact ⟨conn, hconn, (List.append_nil _).symm⟩

theorem modifyChannel (num : UInt16) (f : Channel → Channel) : Sends c s (s.modifyChannel c num f) [] :=
  modifyConnection fun _ => rfl

theorem sendFrame (f : Frame) : Sends c s (s.sendFrame c f) [.frame f] := by
  intro conn hconn
  refine ⟨{ conn with sent := conn.sent ++ [.frame f] }, ?_, rfl⟩
  rw [connection, AmqpServer.sendFrame, send, AmqpServer.modifyConnection, Assoc.lookup_modify_self]
  rw [connection] at hconn
  rw [hconn]
  rfl

theorem sendMethodFrame (num classId methodId : UInt16) (args : Bytes) :
    Sends c s (s.sendMethodFrame c num classId methodId args) [.frame (methodFrame num classId methodId args)] :=
  sendFrame _

theorem sendFrames (l : List Frame) (s : AmqpServer) : Sends c s (l.foldl (fun s f => s.sendFrame c f) s) (l.map .frame) := by
  induction l generalizing s with
  | nil => exact refl
  | cons f l ih => exact (sendFrame f).trans (ih _)

theorem sendContentFrames {num : UInt16} {ch : Channel} (hch : s.channel c num = some ch) (classId : UInt16)
    (props : BasicProperties) (body : Bytes) :
    Sends c s (s.sendContentFrames c num classId props body) ((contentFrames num classId ch.frameMax props body).map .frame) := by
  rw [AmqpServer.sendContentFrames, hch]
  exact sendFrames _ s

theorem exists_sendContentFrames (num classId : UInt16) (props : BasicProperties) (body : Bytes) :
    ∃ outs, Sends c s (s.sendContentFrames c num classId props body) outs := by
  cases hch : s.channel c num with
  | none =>
    rw [AmqpServer.sendContentFrames, hch]
    exact ⟨[], refl⟩
  | some ch => exact ⟨_, sendContentFrames hch classId props body⟩

/-- There is one list of frames that a client is sent. --/
theorem unique {conn : Connection} (hconn : s.connection c = some conn) {outs outs' : List Outgoing} (h : Sends c s s' outs)
    (h' : Sends c s s' outs') : outs = outs' := by
  obtain ⟨conn₁, hconn₁, hsent₁⟩ := h conn hconn
  obtain ⟨conn₂, hconn₂, hsent₂⟩ := h' conn hconn
  obtain rfl := Option.some.inj (hconn₁.symm.trans hconn₂)
  exact List.append_cancel_left (hsent₁.symm.trans hsent₂)

theorem of_own (h : s'.own c = s.own c) : Sends c s s' [] := by
  intro conn hconn
  rw [own, own, hconn, Option.map_some, Option.map_eq_some_iff] at h
  obtain ⟨conn', hconn', heq⟩ := h
  refine ⟨conn', hconn', ?_⟩
  have hsent : ({ conn' with strand := [] } : Connection).sent = ({ conn with strand := [] } : Connection).sent := by rw [heq]
  rw [List.append_nil]
  exact hsent

theorem dispatchLocked (name : Bytes) : Sends c s (s.dispatchLocked name) [] := of_own (own_dispatchLocked name)

/-- Queues send nothing: a delivery is posted. --/
theorem move {c' : Nat} {k : Kind} (hm : Move c' k s s') (hk : k ∈ [Kind.queue, Kind.take]) : Sends c s s' [] := by
  cases hm with
  | handOver idx => exact of_own (own_handOver _ _ _ _)
  | clock => exact of_connections rfl
  | touch r f hf => exact of_connections rfl
  | mark reason r hq hdlx => exact of_connections rfl
  | letter r => exact of_connections rfl
  | expire hq hm => exact of_connections rfl
  | rotate name idx => exact of_connections rfl
  | take name => exact of_connections rfl
  | send out => exact absurd hk (outgoingKind_not_mem (by decide))
  | note num f hf hn => rcases hn with rfl | ⟨rfl, -⟩ <;> exact absurd hk (by decide)
  | _ => exact absurd hk (by decide)

theorem does {c' : Nat} {K : List Kind} (hv : Valid s) (h : Does c' K s s') (hK : ∀ k ∈ K, k ∈ [Kind.queue, Kind.take]) :
    Sends c s s' [] := by
  refine (h.moves hv).keeps (P := fun s' => Sends c s s' []) ?_ refl
  intro k hk s₁ s₂ hm hs
  exact hs.trans (move hm (hK k hk))

end Sends

end AmqpServer
end Broko.Broker
