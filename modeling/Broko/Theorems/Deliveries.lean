import Broko.Lib.Credit
import Broko.Theorems.Losses

/-! The deliveries of a consumer: those that are posted to the strand of its connection, and those that its channel holds
    unacked. A posted delivery names a channel object and a tag; while no tag is used twice on a channel, these name the
    consumer. The credit of a consumer is compared with its deliveries move by move. -/

namespace Broko.Broker
open Amqp Storage MessageStore

/-- Where a consumer is registered: the channel object and the tag. --/
abbrev Home := Option Ref × Bytes

def Consumer.home (k : Consumer) : Home := (k.on_deliver.map OnDeliver.channel, k.tag)

def DeliverTask.home (t : DeliverTask) : Home := (some t.channel, t.tag)

/-- What the channel holds of a consumer. --/
def Channel.held (k : Ref) (ch : Channel) : Nat := ch.unackedMessages.total fun _ u => if u.consumer = some k then 1 else 0

/-- What is posted for it or held on the connection. --/
def Connection.outstanding (home : Home) (k : Ref) (conn : Connection) : Nat :=
  conn.strand.countP (fun t => decide (t.home = home)) + conn.channels.total fun _ => Channel.held k

/-- What a consumer's credit is about. --/
def Consumer.terms (k : Consumer) : Bool × UInt16 × UInt32 := (k.no_ack, k.prefetch_count, k.in_flight)

namespace AmqpServer

/-- The deliveries of a consumer that are posted but not recorded, or recorded unacked. --/
def deliveries (home : Home) (k : Ref) (s : AmqpServer) : Nat := s.connections.total fun _ => Connection.outstanding home k

variable {c : Nat} {num : UInt16} {s s' : AmqpServer} {homes : List Home} {home : Home} {k : Ref}

/-! ### Homes -/

structure ChannelWired (homes : List Home) (ch : Channel) : Prop where
  consumers : ch.consumers.All fun tag k => homes[k]? = some (some ch.ref, tag)
  unacked : ch.unackedMessages.All fun _ u => ∀ k, u.consumer = some k → ∃ tag, homes[k]? = some (some ch.ref, tag)

structure ConnectionWired (homes : List Home) (conn : Connection) : Prop where
  strand : ∀ t ∈ conn.strand, t.home ∈ homes
  channels : conn.channels.All fun _ => ChannelWired homes

/-- `homes` lists where the consumers of the heap were registered: what is posted, mapped or held is for one of them. --/
structure Wired (homes : List Home) (s : AmqpServer) : Prop where
  length : homes.length = s.consumerHeap.size
  made : ∀ k f, (s.consumer k).on_deliver = some f →
    homes[k]? = some (s.consumer k).home ∧ (s.connection f.connection).isSome = true
  connections : s.connections.All fun _ => ConnectionWired homes

theorem isSome_modifyConnection {c' : Nat} {f : Connection → Connection} (h : (s.connection c').isSome = true) :
    ((s.modifyConnection c f).connection c').isSome = true := by
  rw [connection, modifyConnection, Assoc.lookup_modify]
  split
  · rename_i heq
    rw [Option.isSome_map, ← heq]
    exact h
  · exact h

namespace Wired

theorem congr (h : Wired homes s) (hc : s'.connections = s.connections) (hk : s'.consumerHeap = s.consumerHeap) :
    Wired homes s' := by
  refine ⟨hk ▸ h.length, fun k f hf => ?_, hc ▸ h.connections⟩
  rw [connection, hc]
  rw [consumer, hk] at hf ⊢
  exact h.made k f hf

theorem modifyConsumer (h : Wired homes s) (k : Ref) {f : Consumer → Consumer} (htag : ∀ x, (f x).tag = x.tag)
    (hf : ∀ x, (f x).on_deliver = x.on_deliver ∨ (f x).on_deliver = none) : Wired homes (s.modifyConsumer k f) := by
  refine ⟨h.length, fun k' g hg => ?_, h.connections⟩
  by_cases hk : k' = k
  · rw [hk] at hg ⊢
    rw [consumer, AmqpServer.modifyConsumer, Heap.cell_modify_self] at hg ⊢
    rcases hf (s.consumerHeap.cell k) with hsame | hnone
    · rw [hsame] at hg
      rw [Consumer.home, hsame, htag]
      exact h.made k g hg
    · rw [hnone] at hg
      cases hg
  · rw [consumer, AmqpServer.modifyConsumer, Heap.cell_modify_of_ne hk] at hg ⊢
    exact h.made k' g hg

theorem modifyConnection (h : Wired homes s) {f : Connection → Connection}
    (hf : ∀ conn, s.connection c = some conn → ConnectionWired homes conn → ConnectionWired homes (f conn)) :
    Wired homes (s.modifyConnection c f) := by
  refine ⟨h.length, fun k g hg => ?_, h.connections.modify hf⟩
  obtain ⟨hhome, hsome⟩ := h.made k g hg
  exact ⟨hhome, isSome_modifyConnection hsome⟩

theorem modifyChannel (h : Wired homes s) {f : Channel → Channel}
    (hf : ∀ ch, s.channel c num = some ch → ChannelWired homes ch → ChannelWired homes (f ch)) :
    Wired homes (s.modifyChannel c num f) := by
  refine h.modifyConnection fun conn hconn hok => ⟨hok.strand, hok.channels.modify fun ch hch => hf ch ?_⟩
  rw [AmqpServer.channel, hconn]
  exact hch

/-- The entry of the connection changes, but neither its strand nor its channels. --/
theorem connectionSame (h : Wired homes s) {f : Connection → Connection} (hstrand : ∀ conn, (f conn).strand = conn.strand)
    (hchannels : ∀ conn, (f conn).channels = conn.channels) : Wired homes (s.modifyConnection c f) :=
  h.modifyConnection fun conn _ hok => ⟨by rw [hstrand]; exact hok.strand, by rw [hchannels]; exact hok.channels⟩

/-- The channel changes, but neither its identity nor its consumers nor what it holds. --/
theorem channelSame (h : Wired homes s) {f : Channel → Channel} (href : ∀ ch, (f ch).ref = ch.ref)
    (hconsumers : ∀ ch, (f ch).consumers = ch.consumers) (hunacked : ∀ ch, (f ch).unackedMessages = ch.unackedMessages) :
    Wired homes (s.modifyChannel c num f) :=
  h.modifyChannel fun ch _ hok =>
    ⟨by rw [hconsumers, href]; exact hok.consumers, by rw [hunacked, href]; exact hok.unacked⟩

theorem channel (h : Wired homes s) {ch : Channel} (hch : s.channel c num = some ch) : ChannelWired homes ch := by
  obtain ⟨conn, hconn, hch⟩ := Option.bind_eq_some_iff.mp hch
  exact (h.connections c conn hconn).channels num ch hch

theorem onDeliver (h : Wired homes s) (k taken : Ref) : Wired homes (s.onDeliver k taken) := by
  rw [AmqpServer.onDeliver]
  split
  · exact h
  · rename_i f hf
    have hnew : ∀ m, Wired homes (s.newDelivery taken m) := fun _ => h.congr rfl rfl
    refine (hnew _).modifyConnection fun conn _ hok => ⟨fun t ht => ?_, hok.channels⟩
    rcases List.mem_append.mp ht with ht | ht
    · exact hok.strand t ht
    · obtain rfl := List.mem_singleton.mp ht
      have hhome := (h.made k f hf).1
      rw [Consumer.home, hf] at hhome
      exact List.mem_of_getElem? hhome

theorem handOver (h : Wired homes s) (name : Bytes) (k head : Ref) (idx : Nat) : Wired homes (s.handOver name k head idx) := by
  have htaken : Wired homes (s.modifyQueue name fun q => { q with messages := q.messages.tail, roundRobinIdx := idx }) :=
    h.congr rfl rfl
  rw [AmqpServer.handOver]
  split
  · exact htaken.onDeliver k head
  · refine (htaken.modifyConsumer k ?_ ?_).onDeliver k head
    · exact fun _ => rfl
    · exact fun _ => .inl rfl

theorem releaseCredit (h : Wired homes s) (u : UnackedMessage) : Wired homes (s.releaseCredit u) := by
  rw [AmqpServer.releaseCredit]
  split
  · exact h
  · exact h.modifyConsumer _ (fun _ => rfl) fun _ => .inl rfl

theorem persistAck (h : Wired homes s) (u : UnackedMessage) : Wired homes (s.persistAck u) := by
  have hsettled : Wired homes ((s.releaseCredit u).record [.settled (s.origin u.message) u.queue_name]) :=
    (h.releaseCredit u).congr rfl rfl
  rw [AmqpServer.persistAck]
  split
  · exact hsettled
  · split
    · exact hsettled.congr rfl rfl
    · exact hsettled

theorem removeConsumer (h : Wired homes s) (name tag : Bytes) : Wired homes (s.removeConsumer name tag) := by
  rw [AmqpServer.removeConsumer]
  split
  · exact h
  · split
    · exact h
    · rename_i k' _
      have hgone : Wired homes (s.modifyConsumer k' fun c => { c with on_deliver := none }) :=
        h.modifyConsumer k' (fun _ => rfl) fun _ => .inr rfl
      exact hgone.congr rfl rfl

theorem removeConsumersByConnection (h : Wired homes s) (name : Bytes) (connId : Nat) :
    Wired homes (s.removeConsumersByConnection name connId) := by
  have hfold : ∀ (l : List Ref) (s : AmqpServer), Wired homes s →
      Wired homes (l.foldl (fun s k => s.modifyConsumer k fun c => { c with on_deliver := none }) s) := by
    intro l
    induction l with
    | nil => exact fun _ hs => hs
    | cons k l ih => exact fun s hs => ih _ (hs.modifyConsumer k (fun _ => rfl) fun _ => .inr rfl)
  rw [AmqpServer.removeConsumersByConnection]
  split
  · exact h
  · exact (hfold _ s h).congr rfl rfl

theorem openChannel (h : Wired homes s) (num : UInt16) : Wired homes (s.openChannel c num) := by
  have hnext : Wired homes { s with nextChannel := s.nextChannel + 1 } := h.congr rfl rfl
  exact hnext.modifyConnection fun conn _ hok => ⟨hok.strand, hok.channels.insert ⟨.empty, .empty⟩⟩

theorem storeMessage (h : Wired homes s) (name : Bytes) (r : Ref) : Wired homes (s.storeMessage name r) := by
  rw [AmqpServer.storeMessage]
  split
  · exact h
  · exact h.congr rfl rfl

/-- Every move but the registration of a consumer. --/
theorem move {kind : Kind} (h : Wired homes s) (hm : Move c kind s s') (hkind : kind ≠ .register) : Wired homes s' := by
  cases hm with
  | clock => exact h.congr rfl rfl
  | touch r f hf => exact h.congr rfl rfl
  | mark reason r hq hdlx => exact h.congr rfl rfl
  | letter r hr hq hdlx hroute hq' => exact h.congr rfl rfl
  | expire hq hm => exact h.congr rfl rfl
  | rotate name idx => exact h.congr rfl rfl
  | handOver idx hq hm hk he => exact h.handOver _ _ _ idx
  | enqueue r hr hq => exact h.congr rfl rfl
  | requeue name r hr => exact h.congr rfl rfl
  | take name => exact h.congr rfl rfl
  | purge name =>
    rw [purge]
    split
    · exact h
    · exact h.congr rfl rfl
  | create m hw hid => exact h.congr rfl rfl
  | store m hw hid hq hd hp hfit => exact storeMessage (s := s.newMessage m) (h.congr rfl rfl) _ _
  | oversize m hw hid hq hd hp hfit => exact storeMessage (s := s.newMessage m) (h.congr rfl rfl) _ _
  | recover m name hw => exact h.congr rfl rfl
  | recoverQueue hname hnew hm hk he ho => exact h.congr rfl rfl
  | send out => exact h.connectionSame (fun _ => rfl) fun _ => rfl
  | note num f hf =>
    have hframe : ∀ ch, (f ch).ref = ch.ref ∧ (f ch).consumers = ch.consumers ∧
        (f ch).unackedMessages = ch.unackedMessages := by
      intro ch
      have heq := hf ch
      simp only [Channel.frame, Channel.mk.injEq] at heq
      exact ⟨heq.1, heq.2.2.2.2.2.2.2.2.1, heq.2.2.2.2.2.2.2.2.2.2.2⟩
    exact h.channelSame (fun ch => (hframe ch).1) (fun ch => (hframe ch).2.1) fun ch => (hframe ch).2.2
  | pending num p hp => exact h.channelSame (fun _ => rfl) (fun _ => rfl) fun _ => rfl
  | handshake f hf => exact h.connectionSame (fun conn => (hf conn).strand) fun conn => (hf conn).channels
  | hold num u hu hk =>
    have hheld : Wired homes (s.hold c num u) := by
      refine h.modifyChannel fun ch hch hok => ⟨hok.consumers, hok.unacked.insert fun k hu => ?_⟩
      obtain ⟨ch', tag, hch', htag⟩ := hk k hu
      obtain rfl := Option.some.inj (hch.symm.trans hch')
      exact ⟨tag, hok.consumers tag k htag⟩
    exact hheld.channelSame (fun _ => rfl) (fun _ => rfl) fun _ => rfl
  | takeTag num => exact h.channelSame (fun _ => rfl) (fun _ => rfl) fun _ => rfl
  | releaseCredit u => exact h.releaseCredit u
  | eraseUnacked num tag => exact h.modifyChannel fun ch _ hok => ⟨hok.consumers, hok.unacked.erase tag⟩
  | clearUnacked num => exact h.modifyChannel fun ch _ hok => ⟨hok.consumers, .empty⟩
  | settle u hu => exact h.persistAck u
  | remove r name hr => exact h.congr rfl rfl
  | newConsumer k hk => exact absurd rfl hkind
  | mapConsumer num tag k counter hk hown => exact absurd rfl hkind
  | addConsumer name k hk hid hname hnew => exact absurd rfl hkind
  | removeConsumer name tag => exact h.removeConsumer name tag
  | unmapConsumer num tag => exact h.modifyChannel fun ch _ hok => ⟨hok.consumers.erase tag, hok.unacked⟩
  | unmapConsumers num => exact h.modifyChannel fun ch _ hok => ⟨.empty, hok.unacked⟩
  | removeConsumersByConnection name => exact h.removeConsumersByConnection name c
  | openChannel num => exact h.openChannel num
  | setClosed num => exact h.channelSame (fun _ => rfl) (fun _ => rfl) fun _ => rfl
  | dropChannel num => exact h.modifyConnection fun conn _ hok => ⟨hok.strand, hok.channels.erase num⟩
  | shut => exact h.connectionSame (fun _ => rfl) fun _ => rfl
  | dropChannels => exact h.modifyConnection fun conn _ hok => ⟨hok.strand, .empty⟩
  | exchanges m => exact h.congr rfl rfl
  | nameCounter n => exact h.congr rfl rfl
  | insertQueue hname hnew hm hk he ho => exact h.congr rfl rfl
  | eraseQueue name => exact h.congr rfl rfl
  | log e hm ha hfit => exact h.congr rfl rfl
  | popTask hc hs =>
    refine h.modifyConnection fun conn hconn hok => ⟨fun t ht => hok.strand t ?_, hok.channels⟩
    obtain rfl := Option.some.inj (hconn.symm.trans hc)
    rw [hs]
    exact List.mem_cons_of_mem _ ht
  | accept =>
    refine ⟨h.length, fun k f hf => ?_, h.connections.insert ⟨fun _ ht => absurd ht List.not_mem_nil, .empty⟩⟩
    obtain ⟨hhome, hsome⟩ := h.made k f hf
    refine ⟨hhome, ?_⟩
    rw [connection, AmqpServer.accept]
    by_cases heq : f.connection = s.nextConnectionId
    · rw [heq, Assoc.lookup_insert_self]
      rfl
    · rw [Assoc.lookup_insert_of_ne heq]
      exact hsome
  | compact => exact h.congr rfl rfl
  | reorderQueues order => exact h.congr rfl rfl
  | reorderExchanges order => exact h.congr rfl rfl
  | reorderChannels order => exact h.modifyConnection fun conn _ hok => ⟨hok.strand, hok.channels.reorder order⟩
  | reorderConsumers num order => exact h.modifyChannel fun ch _ hok => ⟨hok.consumers.reorder order, hok.unacked⟩
  | reorderUnacked num order => exact h.modifyChannel fun ch _ hok => ⟨hok.consumers, hok.unacked.reorder order⟩

end Wired

/-! ### Deliveries -/

theorem deliveries_congr (h : s'.connections = s.connections) : s'.deliveries home k = s.deliveries home k := by
  rw [deliveries, h, deliveries]

/-- What a connection has changes by as much as the deliveries do. --/
theorem deliveries_modifyConnection (home : Home) (k : Ref) {conn : Connection} {f : Connection → Connection} (hconn : s.connection c = some conn) :
    (s.modifyConnection c f).deliveries home k + conn.outstanding home k =
      s.deliveries home k + (f conn).outstanding home k :=
  Assoc.total_modify hconn

theorem deliveries_connectionSame {f : Connection → Connection}
    (hf : ∀ conn, s.connection c = some conn → (f conn).outstanding home k = conn.outstanding home k) :
    (s.modifyConnection c f).deliveries home k = s.deliveries home k :=
  Assoc.total_modify_eq hf

theorem outstanding_modifyChannel (home : Home) (k : Ref) {conn : Connection} {ch : Channel} {f : Channel → Channel}
    (hch : conn.channels.lookup num = some ch) :
    ({ conn with channels := conn.channels.modify num f } : Connection).outstanding home k + ch.held k =
      conn.outstanding home k + (f ch).held k := by
  have htotal : (conn.channels.modify num f).total (fun _ => Channel.held k) + ch.held k =
      conn.channels.total (fun _ => Channel.held k) + (f ch).held k := Assoc.total_modify hch
  rw [Connection.outstanding, Connection.outstanding]
  dsimp only
  omega

theorem deliveries_modifyChannel (home : Home) (k : Ref) {ch : Channel} {f : Channel → Channel} (hch : s.channel c num = some ch) :
    (s.modifyChannel c num f).deliveries home k + ch.held k = s.deliveries home k + (f ch).held k := by
  obtain ⟨conn, hconn, hlook⟩ := Option.bind_eq_some_iff.mp hch
  have hone : (s.modifyChannel c num f).deliveries home k + _ = _ := deliveries_modifyConnection home k hconn
  have htwo := outstanding_modifyChannel home k (f := f) hlook
  omega

theorem modifyChannel_of_none {f : Channel → Channel} (h : s.channel c num = none) : s.modifyChannel c num f = s := by
  have hsame : s.connections.modify c (fun conn => { conn with channels := conn.channels.modify num f }) = s.connections := by
    refine Assoc.modify_eq_self fun conn hconn => ?_
    rw [channel, connection, hconn, Option.bind_some] at h
    rw [Assoc.modify_of_lookup_eq_none h]
  rw [modifyChannel, modifyConnection, hsame]

theorem deliveries_channelSame {f : Channel → Channel} (hf : ∀ ch, s.channel c num = some ch → (f ch).held k = ch.held k) :
    (s.modifyChannel c num f).deliveries home k = s.deliveries home k := by
  cases hch : s.channel c num with
  | none => rw [modifyChannel_of_none hch]
  | some ch =>
    have heq := deliveries_modifyChannel home k (f := f) hch
    rw [hf ch hch] at heq
    exact Nat.add_right_cancel heq

theorem held_le_deliveries {ch : Channel} (hch : s.channel c num = some ch) : ch.held k ≤ s.deliveries home k := by
  obtain ⟨conn, hconn, hlook⟩ := Option.bind_eq_some_iff.mp hch
  calc
    ch.held k ≤ conn.channels.total fun _ => Channel.held k := Assoc.le_total (w := fun _ => Channel.held k) hlook
    _ ≤ conn.outstanding home k := Nat.le_add_left ..
    _ ≤ s.deliveries home k := Assoc.le_total (w := fun _ => Connection.outstanding home k) hconn

theorem deliveries_post (home : Home) (k : Ref) {conn : Connection} (hconn : s.connection c = some conn) (t : DeliverTask) :
    (s.modifyConnection c fun conn => { conn with strand := conn.strand ++ [t] }).deliveries home k =
      s.deliveries home k + if t.home = home then 1 else 0 := by
  have hcount : (conn.strand ++ [t]).countP (fun t => decide (t.home = home)) =
      conn.strand.countP (fun t => decide (t.home = home)) + if t.home = home then 1 else 0 := by
    rw [List.countP_append, List.countP_singleton]
    simp only [decide_eq_true_eq]
  have htotal := deliveries_modifyConnection home k (f := fun conn => { conn with strand := conn.strand ++ [t] }) hconn
  rw [Connection.outstanding, Connection.outstanding] at htotal
  dsimp only at htotal
  omega

/-- A posted delivery is one of the consumer that it is for. --/
theorem deliveries_onDeliver {k' : Ref} {f : OnDeliver} (hf : (s.consumer k').on_deliver = some f)
    (hconn : (s.connection f.connection).isSome = true) (taken : Ref) :
    (s.onDeliver k' taken).deliveries home k =
      s.deliveries home k + if (s.consumer k').home = home then 1 else 0 := by
  obtain ⟨conn, hconn⟩ := Option.isSome_iff_exists.mp hconn
  have hhome : (s.consumer k').home = (some f.channel, (s.consumer k').tag) := by rw [Consumer.home, hf]; rfl
  rw [onDeliver, hf, hhome]
  exact deliveries_post home k hconn _

theorem consumer_modifyConsumer_self (k : Ref) (f : Consumer → Consumer) :
    (s.modifyConsumer k f).consumer k = f (s.consumer k) :=
  Heap.cell_modify_self ..

/-! ### Books -/

/-- The credit of a consumer that acks, against its deliveries. Of the deliveries, `early` have given their credit back
    already; `lost` more are gone without. --/
def Balanced (home : Home) (k : Ref) (early lost : Nat) (s : AmqpServer) : Prop :=
  (s.consumer k).no_ack = false →
    Credit.Books (s.consumer k).prefetch_count.toNat (s.consumer k).in_flight (s.deliveries home k) early lost

namespace Balanced
variable {early lost : Nat}

theorem of_eq (h : Balanced home k early lost s) (hterms : (s'.consumer k).terms = (s.consumer k).terms)
    (hd : s'.deliveries home k = s.deliveries home k) : Balanced home k early lost s' := by
  simp only [Consumer.terms, Prod.mk.injEq] at hterms
  obtain ⟨hno, hprefetch, hflight⟩ := hterms
  intro hack
  rw [hprefetch, hflight, hd]
  exact h (hno.symm.trans hack)

theorem congr (h : Balanced home k early lost s) (hc : s'.connections = s.connections)
    (hk : s'.consumerHeap = s.consumerHeap) : Balanced home k early lost s' :=
  h.of_eq (by rw [consumer, hk, consumer]) (deliveries_congr hc)

theorem connectionSame (h : Balanced home k early lost s) {f : Connection → Connection}
    (hf : ∀ conn, s.connection c = some conn → (f conn).outstanding home k = conn.outstanding home k) :
    Balanced home k early lost (s.modifyConnection c f) :=
  h.of_eq rfl (deliveries_connectionSame hf)

theorem channelSame (h : Balanced home k early lost s) {f : Channel → Channel}
    (hf : ∀ ch, s.channel c num = some ch → (f ch).held k = ch.held k) : Balanced home k early lost (s.modifyChannel c num f) :=
  h.of_eq rfl (deliveries_channelSame hf)

theorem modifyConsumer (h : Balanced home k early lost s) (k' : Ref) {f : Consumer → Consumer}
    (hf : ∀ x, (f x).terms = x.terms) : Balanced home k early lost (s.modifyConsumer k' f) :=
  h.of_eq (Heap.cell_modify_congr Consumer.terms hf k) rfl

theorem releaseCredit_of_ne (h : Balanced home k early lost s) {u : UnackedMessage} (hu : u.consumer ≠ some k) :
    Balanced home k early lost (s.releaseCredit u) := by
  rw [AmqpServer.releaseCredit]
  split
  · exact h
  · rename_i k' hk'
    refine h.of_eq ?_ rfl
    have hne : k ≠ k' := fun heq => hu (hk'.trans (congrArg some heq.symm))
    rw [consumer_modifyConsumer_of_ne hne]

/-- The credit of a delivery comes back while it is still held. --/
theorem releaseCredit (h : Balanced home k early lost s) {u : UnackedMessage} (hu : u.consumer = some k)
    (hout : early < s.deliveries home k) : Balanced home k (early + 1) lost (s.releaseCredit u) := by
  rw [AmqpServer.releaseCredit, hu]
  intro hack
  rw [consumer_modifyConsumer_self] at hack ⊢
  exact (h hack).giveBack hout

/-- A message is handed to a consumer: if it is this one, its credit and its deliveries go up together. --/
theorem post (h : Balanced home k early lost s) (hw : Wired homes s) (hnd : homes.Nodup) (hhome : homes[k]? = some home)
    {k' head : Ref} (he : s.eligible head k' = true) (taken : Ref) :
    Balanced home k early lost
      ((if (s.consumer k').no_ack then s
        else s.modifyConsumer k' fun c => { c with in_flight := c.in_flight + 1 }).onDeliver k' taken) := by
  simp only [eligible, Bool.and_eq_true, Bool.not_eq_true', Bool.and_eq_false_iff, decide_eq_false_iff_not,
    not_le] at he
  obtain ⟨⟨hsome, hfree⟩, -⟩ := he
  obtain ⟨f, hf⟩ := Option.isSome_iff_exists.mp hsome
  obtain ⟨hmade, hconn⟩ := hw.made k' f hf
  let credited := s.modifyConsumer k' fun c => { c with in_flight := c.in_flight + 1 }
  have hcredited : credited.consumer k' = _ := consumer_modifyConsumer_self k' fun c => { c with in_flight := c.in_flight + 1 }
  have hf' : (credited.consumer k').on_deliver = some f := by rw [hcredited]; exact hf
  have hhome' : (credited.consumer k').home = (s.consumer k').home := by rw [hcredited]; rfl
  by_cases hk : k' = k
  · obtain rfl := hk
    obtain rfl := Option.some.inj (hmade.symm.trans hhome)
    cases hno : (s.consumer k').no_ack with
    | true =>
      intro hack
      rw [if_pos rfl, consumer_onDeliver, hno] at hack
      cases hack
    | false =>
      intro _
      rw [if_neg Bool.false_ne_true, consumer_onDeliver, hcredited, deliveries_onDeliver hf' hconn, if_pos hhome']
      refine (h hno).take (Nat.lt_trans (UInt16.toNat_lt _) (by decide)) fun hpos => ?_
      rcases hfree with hzero | hlt
      · exact absurd (UInt16.lt_iff_toNat_lt.mpr (show UInt16.toNat 0 < _ from hpos)) hzero
      · exact hlt
  · have hother : (s.consumer k').home ≠ home := by
      intro heq
      rw [heq] at hmade
      have hlt := (List.getElem?_eq_some_iff.mp hmade).1
      exact hk ((List.getElem?_inj hlt hnd).mp (hmade.trans hhome.symm))
    split
    · refine h.of_eq (by rw [consumer_onDeliver]) ?_
      rw [deliveries_onDeliver hf hconn, if_neg hother, Nat.add_zero]
    · refine h.of_eq (by rw [consumer_onDeliver, consumer_modifyConsumer_of_ne (Ne.symm hk)]) ?_
      rw [deliveries_onDeliver hf' hconn, if_neg (by rw [hhome']; exact hother), Nat.add_zero]
      rfl

theorem handOver (h : Balanced home k early lost s) (hw : Wired homes s) (hnd : homes.Nodup) (hhome : homes[k]? = some home)
    {k' head : Ref} (he : s.eligible head k' = true) (name : Bytes) (idx : Nat) :
    Balanced home k early lost (s.handOver name k' head idx) := by
  have htaken : Balanced home k early lost
      (s.modifyQueue name fun q => { q with messages := q.messages.tail, roundRobinIdx := idx }) := h.congr rfl rfl
  exact htaken.post (hw.congr rfl rfl) hnd hhome he head

theorem storeMessage (h : Balanced home k early lost s) (name : Bytes) (r : Ref) :
    Balanced home k early lost (s.storeMessage name r) := by
  rw [AmqpServer.storeMessage]
  split
  · exact h
  · exact h.congr rfl rfl

theorem removeConsumer (h : Balanced home k early lost s) (name tag : Bytes) :
    Balanced home k early lost (s.removeConsumer name tag) := by
  rw [AmqpServer.removeConsumer]
  split
  · exact h
  · split
    · exact h
    · rename_i k' _
      have hgone : Balanced home k early lost (s.modifyConsumer k' fun c => { c with on_deliver := none }) :=
        h.modifyConsumer k' fun _ => rfl
      exact hgone.congr rfl rfl

theorem removeConsumersByConnection (h : Balanced home k early lost s) (name : Bytes) (connId : Nat) :
    Balanced home k early lost (s.removeConsumersByConnection name connId) := by
  have hfold : ∀ (l : List Ref) (s : AmqpServer), Balanced home k early lost s →
      Balanced home k early lost (l.foldl (fun s k => s.modifyConsumer k fun c => { c with on_deliver := none }) s) := by
    intro l
    induction l with
    | nil => exact fun _ hs => hs
    | cons k' l ih => exact fun s hs => ih _ (hs.modifyConsumer k' fun _ => rfl)
  rw [AmqpServer.removeConsumersByConnection]
  split
  · exact h
  · exact (hfold _ s h).congr rfl rfl

/-- Every move that is no part of a delivery. --/
theorem move {kind : Kind} (h : Balanced home k early lost s) (hv : Valid s) (hw : Wired homes s) (hnd : homes.Nodup)
    (hhome : homes[k]? = some home) (hm : Move c kind s s') (hkind : kind ∉ deliveryKinds) : Balanced home k early lost s' := by
  cases hm with
  | clock => exact h.congr rfl rfl
  | touch r f hf => exact h.congr rfl rfl
  | mark reason r hq hdlx => exact h.congr rfl rfl
  | letter r hr hq hdlx hroute hq' => exact h.congr rfl rfl
  | expire hq hm => exact h.congr rfl rfl
  | rotate name idx => exact h.congr rfl rfl
  | handOver idx hq hm hk he => exact h.handOver hw hnd hhome he _ idx
  | enqueue r hr hq => exact h.congr rfl rfl
  | purge name =>
    rw [purge]
    split
    · exact h
    · exact h.congr rfl rfl
  | create m hw hid => exact h.congr rfl rfl
  | store m hw hid hq hd hp hfit => exact storeMessage (s := s.newMessage m) (h.congr rfl rfl) _ _
  | oversize m hw hid hq hd hp hfit => exact storeMessage (s := s.newMessage m) (h.congr rfl rfl) _ _
  | recover m name hw => exact h.congr rfl rfl
  | recoverQueue hname hnew hm hk he ho => exact h.congr rfl rfl
  | send out => exact h.connectionSame fun _ _ => rfl
  | note num f hf =>
    refine h.channelSame fun ch _ => ?_
    have heq := hf ch
    simp only [Channel.frame, Channel.mk.injEq] at heq
    rw [Channel.held, heq.2.2.2.2.2.2.2.2.2.2.2, Channel.held]
  | pending num p hp => exact h.channelSame fun _ _ => rfl
  | handshake f hf =>
    refine h.connectionSame fun conn _ => ?_
    rw [Connection.outstanding, (hf conn).strand, (hf conn).channels, Connection.outstanding]
  | removeConsumer name tag => exact h.removeConsumer name tag
  | unmapConsumer num tag => exact h.channelSame fun _ _ => rfl
  | unmapConsumers num => exact h.channelSame fun _ _ => rfl
  | removeConsumersByConnection name => exact h.removeConsumersByConnection name c
  | exchanges m => exact h.congr rfl rfl
  | nameCounter n => exact h.congr rfl rfl
  | insertQueue hname hnew hm hk he ho => exact h.congr rfl rfl
  | eraseQueue name => exact h.congr rfl rfl
  | log e hm ha hfit => exact h.congr rfl rfl
  | accept =>
    -- A new connection has nothing yet.
    have hnew : s.connections.lookup s.nextConnectionId = none := by
      rw [← Option.not_isSome_iff_eq_none, Option.isSome_iff_exists]
      rintro ⟨conn, hconn⟩
      exact absurd (hv.connections _ conn hconn).1 (Nat.lt_irrefl _)
    refine h.of_eq rfl ?_
    have htotal : (s.connections.insert s.nextConnectionId {}).total (fun _ => Connection.outstanding home k) = _ :=
      Assoc.total_insert s.connections s.nextConnectionId {}
    rw [Assoc.erase_eq_self hnew] at htotal
    exact htotal.trans (Nat.zero_add _)
  | compact => exact h.congr rfl rfl
  | reorderQueues order => exact h.congr rfl rfl
  | reorderExchanges order => exact h.congr rfl rfl
  | reorderChannels order =>
    refine h.connectionSame fun conn _ => ?_
    rw [Connection.outstanding, Connection.outstanding]
    exact congrArg _ (Assoc.total_reorder order)
  | reorderConsumers num order => exact h.channelSame fun _ _ => rfl
  | reorderUnacked num order =>
    refine h.channelSame fun ch _ => ?_
    exact Assoc.total_reorder order
  | _ => exact absurd (by decide) hkind

end Balanced
end AmqpServer
end Broko.Broker
