import Broko.Broker.Socket
import Broko.Theorems.Handshake
import Broko.Theorems.Registry

/-! What can happen to the table of connections. A move leaves it alone, works inside a connection, is a step of the
    handshake, shuts a connection down or accepts one; nothing takes a connection out of the table but a restart. -/

namespace Broko.Broker
open Amqp Storage MessageStore

/-- A connection without its channels and without what is posted to it and sent. --/
def Connection.outer (conn : Connection) : Connection := { conn with channels := ∅, strand := [], sent := [] }

namespace AmqpServer

variable {c c' : Nat} {s s' : AmqpServer} {conn : Connection} {e : Event}

def outer (s : AmqpServer) (c : Nat) : Option Connection := (s.connection c).map Connection.outer

/-! ### One move -/

/-- What a move of a kind does to the table. --/
inductive Retouches (c : Nat) (k : Kind) (s s' : AmqpServer) : Prop
  | same (h : s'.connections = s.connections)
  | inner (c' : Nat) (f : Connection → Connection) (hf : ∀ conn, (f conn).outer = conn.outer)
      (h : s'.connections = s.connections.modify c' f)
  | tuned (f : Connection → Connection) (hf : ∀ conn, (f conn).Tuned conn) (hk : k = .handshake)
      (h : s'.connections = s.connections.modify c f)
  | shut (hk : k = .closeChannel)
      (h : s'.connections = s.connections.modify c fun conn => { conn with state := .CLOSED, reading := false })
  | accepted (hk : k = .server) (h : s'.connections = s.connections.insert s.nextConnectionId {})

theorem Retouches.of_inner {k : Kind} {s₁ : AmqpServer} {f : Connection → Connection} (h : s₁.connections = s.connections)
    (hf : ∀ conn, (f conn).outer = conn.outer) : Retouches c k s (s₁.modifyConnection c' f) :=
  .inner c' f hf (by rw [← h]; rfl)

theorem Retouches.modifyConnection {k : Kind} {f : Connection → Connection} (hf : ∀ conn, (f conn).outer = conn.outer) :
    Retouches c k s (s.modifyConnection c' f) :=
  of_inner rfl hf

theorem Retouches.modifyChannel {k : Kind} (num : UInt16) (f : Channel → Channel) :
    Retouches c k s (s.modifyChannel c' num f) :=
  modifyConnection fun _ => rfl

theorem Retouches.onDeliver {kind : Kind} {s₁ : AmqpServer} (h : s₁.connections = s.connections) (k taken : Ref) :
    Retouches c kind s (s₁.onDeliver k taken) := by
  rw [AmqpServer.onDeliver]
  split
  · exact .same h
  · exact of_inner h fun _ => rfl

theorem retouches_move {k : Kind} (hm : Move c k s s') : Retouches c k s s' := by
  cases hm with
  | handOver idx hq hm hk he =>
    rw [AmqpServer.handOver]
    split
    · refine .onDeliver ?_ _ _
      rfl
    · refine .onDeliver ?_ _ _
      rfl
  | purge name =>
    rw [AmqpServer.purge]
    split <;> exact .same rfl
  | store m => exact .same (connections_storeMessage ..)
  | oversize m => exact .same (connections_storeMessage ..)
  | send out => exact .modifyConnection fun _ => rfl
  | note num f => exact .modifyChannel ..
  | pending num p => exact .modifyChannel ..
  | handshake f hf => exact .tuned f hf rfl rfl
  | hold num u =>
    rw [takeTag, AmqpServer.hold, modifyChannel_modifyChannel]
    exact .modifyChannel ..
  | takeTag num => exact .modifyChannel ..
  | releaseCredit u => exact .same (connections_releaseCredit u)
  | eraseUnacked num tag => exact .modifyChannel ..
  | clearUnacked num => exact .modifyChannel ..
  | settle u => exact .same (connections_persistAck u)
  | mapConsumer num tag k counter => exact .modifyChannel ..
  | removeConsumer name tag => exact .same (connections_removeConsumer name tag)
  | unmapConsumer num tag => exact .modifyChannel ..
  | unmapConsumers num => exact .modifyChannel ..
  | removeConsumersByConnection name => exact .same (connections_removeConsumersByConnection name c)
  | openChannel num => exact .of_inner rfl fun _ => rfl
  | setClosed num => exact .modifyChannel ..
  | dropChannel num => exact .modifyConnection fun _ => rfl
  | shut => exact .shut rfl rfl
  | dropChannels => exact .modifyConnection fun _ => rfl
  | popTask hc hs => exact .modifyConnection fun _ => rfl
  | accept => exact .accepted rfl rfl
  | reorderChannels order => exact .modifyConnection fun _ => rfl
  | reorderConsumers num order => exact .modifyChannel ..
  | reorderUnacked num order => exact .modifyChannel ..
  | _ => exact .same rfl

/-! ### What channels leave alone -/

theorem outer_modifyConnection {f : Connection → Connection} (hf : ∀ conn, (f conn).outer = conn.outer) :
    (s.modifyConnection c' f).outer c = s.outer c := by
  rw [outer, connection, modifyConnection, Assoc.lookup_modify, outer, connection]
  split
  · rename_i h
    rw [h, Option.map_map]
    exact congrArg (fun g => (s.connections.lookup c').map g) (funext hf)
  · rfl

theorem outer_congr (h : s'.connections = s.connections) : s'.outer c = s.outer c := by
  rw [outer, connection, h, outer, connection]

theorem outer_of_own (h : s'.own c = s.own c) : s'.outer c = s.outer c := by
  have hmap : ∀ s : AmqpServer, s.outer c = (s.own c).map Connection.outer := by
    intro s
    rw [outer, own, Option.map_map]
    rfl
  rw [hmap, hmap, h]

theorem outer_move {k : Kind} (hm : Move c' k s s') (hk : k ∉ [Kind.handshake, .closeChannel, .server]) :
    s'.outer c = s.outer c := by
  cases retouches_move hm with
  | same h => exact outer_congr h
  | inner c'' f hf h =>
    exact (outer_congr (s := s.modifyConnection c'' f) h).trans (outer_modifyConnection hf)
  | tuned f hf hk' h =>
    subst hk'
    exact absurd (by decide) hk
  | shut hk' h =>
    subst hk'
    exact absurd (by decide) hk
  | accepted hk' h =>
    subst hk'
    exact absurd (by decide) hk

theorem outer_does {K : List Kind} (hv : Valid s) (h : Does c' K s s')
    (hK : ∀ k ∈ K, k ∉ [Kind.handshake, .closeChannel, .server]) : s'.outer c = s.outer c := by
  refine (h.moves hv).keeps (P := fun s' => s'.outer c = s.outer c) ?_ rfl
  intro k hk s₁ s₂ hm hs
  exact (outer_move hm (hK k hk)).trans hs

/-! ### What holds of every connection -/

/-- A property that a connection has from the start and that no step takes away. --/
structure Lasting (P : Connection → Prop) : Prop where
  new : P {}
  inner : ∀ {conn conn'}, conn'.outer = conn.outer → P conn → P conn'
  tuned : ∀ {conn conn'}, conn'.Tuned conn → P conn → P conn'
  shut : ∀ {conn}, P conn → P { conn with state := .CLOSED, reading := false }

theorem Lasting.move {P : Connection → Prop} (hP : Lasting P) (h : s.connections.All fun _ => P) {k : Kind}
    (hm : Move c k s s') : s'.connections.All fun _ => P := by
  cases retouches_move hm with
  | same heq =>
    rw [heq]
    exact h
  | inner c' f hf heq =>
    rw [heq]
    exact h.modify fun conn _ => hP.inner (hf conn)
  | tuned f hf _ heq =>
    rw [heq]
    exact h.modify fun conn _ => hP.tuned (hf conn)
  | shut _ heq =>
    rw [heq]
    exact h.modify fun _ _ => hP.shut
  | accepted _ heq =>
    rw [heq]
    exact h.insert hP.new

section Runs

variable {store : Option MessageStore} {userStore : UserStore} {clock : Nat → Int} {readings : Nat}

/-- A process starts without connections: recovery does not make any. --/
theorem connections_start : (start store userStore clock readings).connections = ∅ := by
  have hkeep : ∀ {k : Kind} {s s' : AmqpServer}, k ∈ recoveryKinds → Move 0 k s s' → s.connections = ∅ →
      s'.connections = ∅ := by
    intro k s s' hk hm hs
    cases retouches_move hm with
    | same h => exact h.trans hs
    | inner c' f hf h => rw [h, hs]; rfl
    | tuned f hf hk' h => exact absurd (hk' ▸ hk) (by decide)
    | shut hk' h => exact absurd (hk' ▸ hk) (by decide)
    | accepted hk' h => exact absurd (hk' ▸ hk) (by decide)
  cases store with
  | none => rfl
  | some st =>
    exact ((does_recoverFromStore (c := 0) rfl).moves valid_blank).keeps (P := fun s : AmqpServer => s.connections = ∅)
      (fun k hk _ _ hm hs => hkeep hk hm hs) rfl

theorem Lasting.handle {P : Connection → Prop} (hP : Lasting P) (hv : Valid s) (h : s.connections.All fun _ => P)
    (e : Event) : (s.handle e).connections.All fun _ => P := by
  by_cases he : e = .restart
  · rw [he, AmqpServer.handle, restart, connections_start]
    exact .empty
  · obtain ⟨c, hc, -⟩ := exists_actor e 0
    have hdoes : Does c (.oversize :: allKinds) s (s.handle e) :=
      does_handle hc he (fun _ => List.mem_cons_of_mem _) (.inl List.mem_cons_self)
    exact (hdoes.moves hv).keeps (P := fun s : AmqpServer => s.connections.All fun _ => P)
      (fun _ _ _ _ hm h => hP.move h hm) h

end Runs

/-! ### One event -/

/-- No event but a restart takes a connection out of the table. --/
theorem exists_connection (hv : Valid s) (hconn : s.connection c = some conn) (he : e ≠ .restart) :
    ∃ conn', (s.handle e).connection c = some conn' := by
  have hsession : s.session c = some conn.session := by rw [session, hconn, Option.map_some]
  obtain ⟨y, hy, -⟩ := advance_handle hv hsession he
  obtain ⟨conn', hconn', -⟩ := Option.map_eq_some_iff.mp hy
  exact ⟨conn', hconn'⟩

/-- An event that is not read leaves the connection alone but for what it can post and send, or ends it. --/
theorem outer_event (hv : Valid s) (hr : Registered s) (hconn : s.connection c = some conn) (he : e.isRead = false)
    (hne : e ≠ .restart) :
    ∃ conn', (s.handle e).connection c = some conn' ∧ (conn'.reading = true → conn'.outer = conn.outer) := by
  obtain ⟨conn', hconn'⟩ := exists_connection hv hconn hne
  refine ⟨conn', hconn', fun hreading => ?_⟩
  suffices heq : (s.handle e).outer c = s.outer c by
    rw [outer, outer, hconn', hconn, Option.map_some, Option.map_some] at heq
    exact Option.some.inj heq
  by_cases hc : e.connection? = some c
  · cases e with
    | runTask c' => exact outer_does hv does_runTask (by decide)
    | disconnect c' =>
      obtain rfl := Option.some.inj hc
      -- A connection that was shut down does not read any more.
      have hlive := ((registered_handle hv hr (.disconnect c')).connections c' conn' hconn').reading hreading
      have hclosed : (s.shutdown c').session c' = _ := session_shutdown hv
      rw [session, session, hconn, show (s.shutdown c').connection c' = some conn' from hconn'] at hclosed
      exact absurd (congrArg Session.state (Option.some.inj hclosed)) hlive
    | reorderChannels c' order => exact outer_modifyConnection fun _ => rfl
    | reorderConsumers c' num order => exact outer_modifyConnection fun _ => rfl
    | reorderUnacked c' num order => exact outer_modifyConnection fun _ => rfl
    | protocolHeader c' header => cases he
    | frame c' frame frameEnd => cases he
    | _ => cases hc
  · exact outer_of_own (own_handle_of_ne hv hconn hne hc)

end AmqpServer
end Broko.Broker
