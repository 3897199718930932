import Broko.Theorems.Cancel
import Broko.Theorems.Quiet

/-! A consumer is in a queue exactly when an open channel has it. The two sides are kept apart, by tag in a channel and
    in a list in the queue, so this holds along the runs in which no request lets them drift apart. -/

namespace Broko.Broker
open Amqp Storage MessageStore FirstMatch

namespace AmqpServer

/-- In every queue that there is, the consumers are those that some open channel has for it under their tag. --/
def Consistent (s : AmqpServer) : Prop :=
  ∀ name q, s.queue name = some q → ∀ k, k ∈ q.consumers ↔
    (s.consumer k).queue_name = name ∧ ∃ c num, s.Holds c num (s.tagOf k) k

/-! ### What each request has to meet -/

/-- The name that `declareQueue` uses. --/
def declaredName (s : AmqpServer) (name : Bytes) : Bytes :=
  if name = [] then ascii "amq.gen-" ++ decimal (s.nameCounter + 1).toNat else name

/-- Its queue is not there any more. --/
def orphaned (s : AmqpServer) (k : Ref) : Bool := (s.queue (s.consumer k).queue_name).isNone

/-- `removeConsumer` with its queue and tag finds this consumer, if the queue is there. --/
def foundFirst (s : AmqpServer) (tag : Bytes) (k : Ref) : Bool :=
  (s.queue (s.consumer k).queue_name).all fun q => q.consumers.find? (fun k' => s.tagOf k' = tag) = some k

/-- In its queue, only consumers of the connection stand before it under its tag, unless the queue goes too. --/
def ownFirst (s : AmqpServer) (c : Nat) (tag : Bytes) (k : Ref) : Bool :=
  (s.queue (s.consumer k).queue_name).all fun q => ownedBy c q ||
    (q.consumers.takeWhile fun k' => k' ≠ k).all fun k' => s.tagOf k' ≠ tag || (s.consumer k').connection_id = c

/-- The consumers in the queue that carry the id of the connection are its own, unless the queue goes too. --/
def ownIds (s : AmqpServer) (c : Nat) (q : MessageQueue) : Bool :=
  ownedBy c q || q.consumers.all fun k => idOf (s.consumer k).connection_id ≠ idOf c || (s.consumer k).connection_id = c

/-- Some open channel has a consumer for a queue of this name. --/
def awaited (s : AmqpServer) (name : Bytes) : Bool :=
  s.connections.entries.any fun e => e.2.state ≠ .CLOSED && e.2.channels.entries.any fun e => e.2.isOpen &&
    e.2.consumers.entries.any fun e => (s.consumer e.2).queue_name = name

def agrees (s : AmqpServer) : Request → Bool
  | .method c num (.basicConsume queue tag _) => (s.queue queue).isNone ||
    (s.channel c num).all fun ch => (ch.consumers.lookup (consumerTag c num ch tag)).all s.orphaned
  | .method c num (.basicCancel tag _) =>
    (s.channel c num).all fun ch => (ch.consumers.lookup tag).all (s.foundFirst tag)
  | .method _ _ (.queueDeclare queue bits _) =>
    hasBit bits 0x01 || (s.queue (s.declaredName queue)).isSome || !s.awaited (s.declaredName queue)
  | .openChannel c num => (s.channel c num).all fun ch => ch.consumers.entries.all fun e => s.orphaned e.2
  | .closeChannel c num => (s.channel c num).all fun ch => ch.consumers.entries.all fun e => s.foundFirst e.1 e.2
  | .shutdown c => (s.connection c).all fun conn => conn.state = .CLOSED ||
    (conn.channels.entries.all fun e => e.2.consumers.entries.all fun e => s.ownFirst c e.1 e.2) &&
      s.queues.entries.all fun e => s.ownIds c e.2
  | _ => true

/-- Every event of the run asks for something that meets this. --/
def agreesAll (s : AmqpServer) : List Event → Bool
  | [] => true
  | e :: events => s.agrees (s.request e) && (s.handle e).agreesAll events

variable {c : Nat} {num : UInt16} {s s' : AmqpServer}

/-! ### Frames -/

theorem tagOf_of_fixed {k : Ref} (h : (s'.consumer k).fixed = (s.consumer k).fixed) : s'.tagOf k = s.tagOf k := by
  have htag : (s'.consumer k).fixed.tag = (s.consumer k).fixed.tag := by rw [h]
  exact htag

theorem queue_name_of_fixed {k : Ref} (h : (s'.consumer k).fixed = (s.consumer k).fixed) :
    (s'.consumer k).queue_name = (s.consumer k).queue_name := by
  have hname : (s'.consumer k).fixed.queue_name = (s.consumer k).fixed.queue_name := by rw [h]
  exact hname

/-- Consumers with a property are taken out of the queues and out of the channels. --/
theorem Consistent.without (h : Consistent s) (R : Ref → Prop) (hfixed : ∀ k, (s'.consumer k).fixed = (s.consumer k).fixed)
    (hqueue : ∀ name q', s'.queue name = some q' → ∃ q, s.queue name = some q ∧ ∀ k, k ∈ q'.consumers ↔ k ∈ q.consumers ∧ ¬R k)
    (hholds : ∀ name q', s'.queue name = some q' → ∀ c num k, (s.consumer k).queue_name = name →
      (s'.Holds c num (s.tagOf k) k ↔ s.Holds c num (s.tagOf k) k ∧ ¬R k)) : Consistent s' := by
  intro name q' hq' k
  obtain ⟨q, hq, hmem⟩ := hqueue name q' hq'
  rw [hmem, h name q hq, tagOf_of_fixed (hfixed k), queue_name_of_fixed (hfixed k)]
  constructor
  · rintro ⟨⟨hname, c, num, hk⟩, hR⟩
    exact ⟨hname, c, num, (hholds name q' hq' c num k hname).mpr ⟨hk, hR⟩⟩
  · rintro ⟨hname, c, num, hk⟩
    obtain ⟨hk, hR⟩ := (hholds name q' hq' c num k hname).mp hk
    exact ⟨⟨hname, c, num, hk⟩, hR⟩

theorem Consistent.same (h : Consistent s) (hs : SameRegistry s s') : Consistent s' := by
  refine h.without (fun _ => False) hs.fixed (fun name q' hq' => ?_) fun _ _ _ c num k _ => ?_
  · have hqueue := hs.queue name
    rw [hq', Option.map_some, eq_comm, Option.map_eq_some_iff] at hqueue
    obtain ⟨q, hq, heq⟩ := hqueue
    refine ⟨q, hq, fun k => ?_⟩
    rw [heq]
    exact ⟨fun hk => ⟨hk, not_false⟩, fun hk => hk.1⟩
  · rw [hs.holds]
    exact ⟨fun hk => ⟨hk, not_false⟩, fun hk => hk.1⟩

theorem Holds.channel {tag : Bytes} {k : Ref} (h : s.Holds c num tag k) :
    ∃ ch, s.channel c num = some ch ∧ ch.consumers.lookup tag = some k := by
  obtain ⟨conn, ch, hconn, -, hch, -, hk⟩ := h
  refine ⟨ch, ?_, hk⟩
  rw [AmqpServer.channel, hconn]
  exact hch

/-- Who has a consumer is written on it. --/
theorem Registered.owned (hr : Registered s) {tag : Bytes} {k : Ref} (h : s.Holds c num tag k) :
    Owned s.consumerHeap c num tag k := by
  obtain ⟨ch, hch, hk⟩ := h.channel
  exact (hr.channel hch).consumers tag k hk

theorem holds_modifyChannel_self (f : Channel → Channel) (hf : ∀ ch, (f ch).isOpen = ch.isOpen) (tag : Bytes) (k : Ref) :
    (s.modifyChannel c num f).Holds c num tag k ↔ ∃ conn ch, s.connection c = some conn ∧ conn.state ≠ .CLOSED ∧
      conn.channels.lookup num = some ch ∧ ch.isOpen = true ∧ (f ch).consumers.lookup tag = some k := by
  have hconn : (s.modifyChannel c num f).connection c =
      (s.connection c).map fun conn => { conn with channels := conn.channels.modify num f } := by
    rw [connection, modifyChannel, modifyConnection, Assoc.lookup_modify_self, connection]
  constructor
  · rintro ⟨_, ch', hmap, hopen, hch', hok, hk⟩
    rw [hconn] at hmap
    obtain ⟨conn, hsome, rfl⟩ := Option.map_eq_some_iff.mp hmap
    change (conn.channels.modify num f).lookup num = some ch' at hch'
    rw [Assoc.lookup_modify_self] at hch'
    obtain ⟨ch, hch, rfl⟩ := Option.map_eq_some_iff.mp hch'
    exact ⟨conn, ch, hsome, hopen, hch, (hf ch).symm.trans hok, hk⟩
  · rintro ⟨conn, ch, hsome, hopen, hch, hok, hk⟩
    refine ⟨{ conn with channels := conn.channels.modify num f }, f ch, by rw [hconn, hsome]; rfl, hopen, ?_, (hf ch).trans hok, hk⟩
    change (conn.channels.modify num f).lookup num = some (f ch)
    rw [Assoc.lookup_modify_self, hch]
    rfl

/-- The channels other than one have what they had, and the connection is as live as it was. --/
structure Beyond (c : Nat) (num : UInt16) (s s' : AmqpServer) : Prop where
  holds : ∀ c' num' tag k, ¬(c' = c ∧ num' = num) → (s'.Holds c' num' tag k ↔ s.Holds c' num' tag k)
  state : (s'.connection c).map Connection.state = (s.connection c).map Connection.state

namespace Beyond

theorem trans {s₁ : AmqpServer} (h₁ : Beyond c num s s₁) (h₂ : Beyond c num s₁ s') : Beyond c num s s' :=
  ⟨fun c' num' tag k hne => (h₂.holds c' num' tag k hne).trans (h₁.holds c' num' tag k hne), h₂.state.trans h₁.state⟩

theorem of_connections (h : s'.connections = s.connections) : Beyond c num s s' :=
  ⟨fun c' num' tag k _ => SameRegistry.holds_congr h c' num' tag k, by rw [connection, h, ← connection]⟩

theorem of_skeleton (h : s'.skeleton = s.skeleton) : Beyond c num s s' := by
  refine ⟨fun c' num' tag k _ => (SameRegistry.of_skeleton h).holds c' num' tag k, ?_⟩
  have hframe : (s'.connection c).map Connection.frame = (s.connection c).map Connection.frame := by
    rw [← connection_skeleton, h, connection_skeleton]
  have hstate := congrArg (Option.map Connection.state) hframe
  rw [Option.map_map, Option.map_map] at hstate
  exact hstate

/-- Only the entry of the channel changes. --/
theorem modifyConnection {f : Connection → Connection} (hstate : ∀ conn, (f conn).state = conn.state)
    (hchannels : ∀ conn num', num' ≠ num → (f conn).channels.lookup num' = conn.channels.lookup num') :
    Beyond c num s (s.modifyConnection c f) := by
  have hconn : (s.modifyConnection c f).connection c = (s.connection c).map f := by
    rw [connection, AmqpServer.modifyConnection, Assoc.lookup_modify_self, connection]
  refine ⟨fun c' num' tag k hne => ?_, ?_⟩
  · by_cases hc : c' = c
    · subst hc
      have hnum : num' ≠ num := fun heq => hne ⟨rfl, heq⟩
      constructor
      · rintro ⟨_, ch, hmap, hopen, hch, hrest⟩
        rw [hconn] at hmap
        obtain ⟨conn, hsome, rfl⟩ := Option.map_eq_some_iff.mp hmap
        exact ⟨conn, ch, hsome, hstate conn ▸ hopen, (hchannels conn num' hnum).symm.trans hch, hrest⟩
      · rintro ⟨conn, ch, hsome, hopen, hch, hrest⟩
        exact ⟨f conn, ch, by rw [hconn, hsome]; rfl, by rw [hstate]; exact hopen, (hchannels conn num' hnum).trans hch, hrest⟩
    · have hother : (s.modifyConnection c f).connection c' = s.connection c' := Assoc.lookup_modify_of_ne hc
      simp only [Holds, hother]
  · rw [hconn, Option.map_map]
    exact congrArg (fun g => (s.connection c).map g) (funext hstate)

theorem modifyChannel (f : Channel → Channel) : Beyond c num s (s.modifyChannel c num f) :=
  modifyConnection (fun _ => rfl) fun _ _ hne => Assoc.lookup_modify_of_ne hne

theorem dropChannel : Beyond c num s (s.modifyConnection c fun conn => { conn with channels := conn.channels.erase num }) :=
  modifyConnection (fun _ => rfl) fun _ _ hne => Assoc.lookup_erase_of_ne hne

theorem openChannel : Beyond c num s (s.openChannel c num) := by
  have hnext : Beyond c num s { s with nextChannel := s.nextChannel + 1 } := of_connections rfl
  exact hnext.trans (modifyConnection (fun _ => rfl) fun _ _ hne => Assoc.lookup_insert_of_ne hne)

theorem closeChannel : Beyond c num s (s.closeChannel c num) := by
  have hmark : Beyond c num s (s.modifyChannel c num fun ch => { ch with isOpen := false }) := modifyChannel _
  rw [AmqpServer.closeChannel, removeAllConsumers]
  split
  · exact hmark
  · rename_i ch _
    have hremove := hmark.trans (of_connections (connections_foldl_removeConsumer ch.consumers.entries _))
    have hclear : ∀ s₁ : AmqpServer, Beyond c num s₁ (s₁.requeueUnackedMessages c num) := fun s₁ =>
      (of_skeleton (skeleton_requeueAll ..)).trans (modifyChannel _)
    exact (hremove.trans (modifyChannel _)).trans (hclear _)

end Beyond

/-- A cancel that finds the consumer of the channel. --/
theorem Consistent.cancel (h : Consistent s) (hr : Registered s) {tag : Bytes} {bits : UInt8}
    (hok : s.agrees (.method c num (.basicCancel tag bits)) = true) : Consistent (s.cancel c num tag) := by
  have hremoves : Removes (s.removals (.method c num (.basicCancel tag bits))) s (s.cancel c num tag) := removes_cancel tag bits
  rw [removals] at hremoves
  rw [agrees] at hok
  rw [AmqpServer.cancel] at hremoves ⊢
  cases hlook : (s.channel c num).bind fun ch => ch.consumers.lookup tag with
  | none => exact h
  | some k =>
    rw [hlook] at hremoves
    dsimp only at hremoves ⊢
    obtain ⟨ch, hch, hk⟩ := Option.bind_eq_some_iff.mp hlook
    have howned := (hr.channel hch).consumers tag k hk
    have hfound : s.foundFirst tag k = true := by simpa [hch, hk] using hok
    refine h.without (fun k' => k' = k) hremoves.fixed (fun name q' hq' => ?_) fun name q' hq' c' num' k' hname => ?_
    · obtain ⟨q, hq, heq⟩ := hremoves.queue_eq hq'
      refine ⟨q, hq, fun k' => ?_⟩
      rw [Removes.consumers_eq heq]
      obtain ⟨hnodup, hplaced⟩ := hr.isPlaced name q hq
      by_cases hname : (s.consumer k).queue_name = name
      · have hfind : q.consumers.find? (fun k' => s.tagOf k' = tag) = some k := by
          simpa [foundFirst, hname, hq] using hfound
        have htags : tagsAt [((s.consumer k).queue_name, tag)] name = [tag] := by simp [tagsAt, hname]
        rw [htags]
        exact mem_eraseP_of_find? hnodup hfind
      · have htags : tagsAt [((s.consumer k).queue_name, tag)] name = [] := by simp [tagsAt, hname]
        rw [htags]
        exact ⟨fun hmem => ⟨hmem, fun heq => hname (heq ▸ hplaced k' hmem)⟩, fun hmem => hmem.1⟩
    · have hsame : ∀ c' num' tag' k', (s.removeConsumer (s.consumer k).queue_name tag).Holds c' num' tag' k' ↔
          s.Holds c' num' tag' k' := SameRegistry.holds_congr (connections_removeConsumer ..)
      by_cases hhere : c' = c ∧ num' = num
      · obtain ⟨rfl, rfl⟩ := hhere
        refine (holds_modifyChannel_self (fun ch => { ch with consumers := ch.consumers.erase tag }) (fun _ => rfl) _ _).trans ?_
        rw [connection, connections_removeConsumer]
        constructor
        · rintro ⟨conn, ch', hconn, hopen, hch', hisOpen, hk'⟩
          change (ch'.consumers.erase tag).lookup (s.tagOf k') = some k' at hk'
          by_cases htag : s.tagOf k' = tag
          · rw [htag, Assoc.lookup_erase_self] at hk'
            cases hk'
          · rw [Assoc.lookup_erase_of_ne htag] at hk'
            exact ⟨⟨conn, ch', hconn, hopen, hch', hisOpen, hk'⟩, fun heq => htag (heq ▸ howned.tag)⟩
        · rintro ⟨⟨conn, ch', hconn, hopen, hch', hisOpen, hk'⟩, hne⟩
          refine ⟨conn, ch', hconn, hopen, hch', hisOpen, ?_⟩
          have hsameCh : ch' = ch := by
            rw [channel, hconn] at hch
            exact Option.some.inj (hch'.symm.trans hch)
          have htag : s.tagOf k' ≠ tag := by
            intro htag
            rw [htag, hsameCh, hk] at hk'
            exact hne (Option.some.inj hk').symm
          exact (Assoc.lookup_erase_of_ne htag).trans hk'
      · rw [(Beyond.modifyChannel _).holds c' num' _ k' hhere, hsame]
        refine ⟨fun hk' => ⟨hk', ?_⟩, fun hk' => hk'.1⟩
        rintro rfl
        have howned' := hr.owned hk'
        exact hhere ⟨howned'.connection_id.symm.trans howned.connection_id, howned'.channel_id.symm.trans howned.channel_id⟩

/-- Consumers that a channel has are not those of another one. --/
theorem Registered.not_of_ne (hr : Registered s) {ch : Channel} (hch : s.channel c num = some ch) {c' : Nat} {num' : UInt16}
    (hne : ¬(c' = c ∧ num' = num)) {k : Ref} (h : s.Holds c' num' (s.tagOf k) k) : ch.consumers.lookup (s.tagOf k) ≠ some k := by
  intro hk
  have howned := (hr.channel hch).consumers _ k hk
  exact hne ⟨(hr.owned h).connection_id.symm.trans howned.connection_id,
    (hr.owned h).channel_id.symm.trans howned.channel_id⟩

theorem mem_held {ch : Channel} {name tag : Bytes} :
    tag ∈ tagsAt (s.held ch) name ↔ ∃ k, ch.consumers.lookup tag = some k ∧ (s.consumer k).queue_name = name := by
  simp only [tagsAt, held, List.mem_map, List.mem_filter, decide_eq_true_eq, Prod.exists]
  constructor
  · rintro ⟨_, _, ⟨⟨t, k, hk, heq⟩, hname⟩, rfl⟩
    obtain ⟨rfl, rfl⟩ := Prod.mk.inj heq
    exact ⟨k, Assoc.mem_entries.mp hk, hname⟩
  · rintro ⟨k, hk, hname⟩
    exact ⟨name, tag, ⟨⟨tag, k, Assoc.mem_entries.mpr hk, Prod.ext hname rfl⟩, rfl⟩, rfl⟩

theorem nodup_tagsAt_held (ch : Channel) (name : Bytes) : (tagsAt (s.held ch) name).Nodup := by
  have hmap : (s.held ch).map Prod.snd = ch.consumers.keys := by
    rw [held, List.map_map]
    rfl
  have hsub : (tagsAt (s.held ch) name).Sublist ((s.held ch).map Prod.snd) := List.filter_sublist.map _
  exact (hmap ▸ ch.consumers.nodup : ((s.held ch).map Prod.snd).Nodup).sublist hsub

/-- The consumers that the close of a channel takes out of a queue are its own, if they are found. --/
theorem mem_closed {name : Bytes} {q : MessageQueue} (hs : Placed s) (hq : s.queue name = some q) {ch : Channel}
    (hfound : ∀ tag k, ch.consumers.lookup tag = some k → s.foundFirst tag k = true) (k : Ref) :
    k ∈ eraseKeys s.tagOf q.consumers (tagsAt (s.held ch) name) ↔
      k ∈ q.consumers ∧ ch.consumers.lookup (s.tagOf k) ≠ some k := by
  obtain ⟨hnodup, hplaced⟩ := hs name q hq
  rw [mem_eraseKeys hnodup]
  refine and_congr_right fun hk => ?_
  by_cases hmem : s.tagOf k ∈ tagsAt (s.held ch) name
  · obtain ⟨k₀, hk₀, hname⟩ := mem_held.mp hmem
    have hfind : q.consumers.find? (fun k' => s.tagOf k' = s.tagOf k) = some k₀ := by
      simpa [foundFirst, hname, hq] using hfound _ k₀ hk₀
    have hrank : 0 < rank s.tagOf k q.consumers ↔ k ≠ k₀ := by
      have hiff : k ∈ q.consumers.eraseP (fun k' => s.tagOf k' = s.tagOf k) ↔
          (s.tagOf k = s.tagOf k → 0 < rank s.tagOf k q.consumers) := mem_eraseP hnodup hk
      rw [mem_eraseP_of_find? hnodup hfind] at hiff
      exact ⟨fun hpos => (hiff.mpr fun _ => hpos).2, fun hne => hiff.mp ⟨hk, hne⟩ rfl⟩
    have hcount : (tagsAt (s.held ch) name).countP (fun t => t = s.tagOf k) = 1 :=
      countP_eq_one (nodup_tagsAt_held ch name) hmem
    rw [hcount, hk₀]
    constructor
    · exact fun hpos heq => hrank.mp hpos (Option.some.inj heq).symm
    · exact fun hne => hrank.mpr fun heq => hne (congrArg some heq.symm)
  · have hcount : (tagsAt (s.held ch) name).countP (fun t => t = s.tagOf k) = 0 :=
      List.countP_eq_zero.mpr fun t ht heq => hmem (of_decide_eq_true heq ▸ ht)
    rw [hcount]
    exact ⟨fun _ hk' => hmem (mem_held.mpr ⟨k, hk', hplaced k hk⟩), fun _ => Nat.zero_le _⟩

/-- The close of a channel that finds the consumers of the channel. --/
theorem Consistent.cleanupChannel (h : Consistent s) (hr : Registered s)
    (hok : s.agrees (.closeChannel c num) = true) : Consistent (s.cleanupChannel c num) := by
  have hremoves : Removes (s.removals (.closeChannel c num)) s (s.cleanupChannel c num) := removes_cleanupChannel
  rw [agrees] at hok
  rw [removals] at hremoves
  rw [AmqpServer.cleanupChannel] at hremoves ⊢
  cases hch : s.channel c num with
  | none => exact h
  | some ch =>
    rw [hch] at hremoves hok
    dsimp only at hremoves ⊢
    have hfound : ∀ tag k, ch.consumers.lookup tag = some k → s.foundFirst tag k = true := fun tag k hk => by
      rw [Option.all_some, List.all_eq_true] at hok
      exact hok (tag, k) (Assoc.mem_entries.mpr hk)
    refine h.without (fun k => ch.consumers.lookup (s.tagOf k) = some k) hremoves.fixed (fun name q' hq' => ?_)
      fun name q' hq' c' num' k hname => ?_
    · obtain ⟨q, hq, heq⟩ := hremoves.queue_eq hq'
      refine ⟨q, hq, fun k => ?_⟩
      rw [Removes.consumers_eq heq]
      exact mem_closed hr.isPlaced hq hfound k
    · by_cases hhere : c' = c ∧ num' = num
      · obtain ⟨rfl, rfl⟩ := hhere
        constructor
        · rintro ⟨conn, ch', hconn, -, hch', -⟩
          rw [connection, modifyConnection, Assoc.lookup_modify_self] at hconn
          obtain ⟨conn', hconn', rfl⟩ := Option.map_eq_some_iff.mp hconn
          change (conn'.channels.erase num').lookup num' = some ch' at hch'
          rw [Assoc.lookup_erase_self] at hch'
          cases hch'
        · rintro ⟨hk, hnot⟩
          obtain ⟨ch', hch', hk'⟩ := hk.channel
          obtain rfl := Option.some.inj (hch.symm.trans hch')
          exact absurd hk' hnot
      · rw [(Beyond.closeChannel.trans Beyond.dropChannel).holds c' num' _ k hhere]
        exact ⟨fun hk => ⟨hk, hr.not_of_ne hch hhere hk⟩, fun hk => hk.1⟩

/-! ### The end of a connection -/

/-- The tags under which the channels of a connection take consumers out of the queue, with the consumers they have. --/
def heldRefs (s : AmqpServer) (conn : Connection) (name tag : Bytes) : List Ref :=
  conn.channels.entries.filterMap fun e => (e.2.consumers.lookup tag).filter fun k => (s.consumer k).queue_name = name

theorem countP_held (ch : Channel) (name tag : Bytes) :
    (tagsAt (s.held ch) name).countP (fun t => t = tag) =
      ((ch.consumers.lookup tag).filter fun k => (s.consumer k).queue_name = name).toList.length := by
  by_cases hmem : tag ∈ tagsAt (s.held ch) name
  · obtain ⟨k, hk, hname⟩ := mem_held.mp hmem
    rw [countP_eq_one (nodup_tagsAt_held ch name) hmem, hk]
    simp [Option.filter_some, hname]
  · have hcount : (tagsAt (s.held ch) name).countP (fun t => t = tag) = 0 :=
      List.countP_eq_zero.mpr fun t ht heq => hmem (of_decide_eq_true heq ▸ ht)
    rw [hcount]
    cases hk : ch.consumers.lookup tag with
    | none => rfl
    | some k =>
      have hname : (s.consumer k).queue_name ≠ name := fun hname => hmem (mem_held.mpr ⟨k, hk, hname⟩)
      simp [Option.filter_some, hname]

theorem timesTaken_eq (conn : Connection) (name tag : Bytes) :
    timesTaken (conn.channels.entries.flatMap fun e => s.held e.2) name tag = (s.heldRefs conn name tag).length := by
  rw [timesTaken, heldRefs]
  generalize conn.channels.entries = l
  induction l with
  | nil => rfl
  | cons e l ih =>
    have hsplit : tagsAt ((e :: l).flatMap fun e => s.held e.2) name =
        tagsAt (s.held e.2) name ++ tagsAt (l.flatMap fun e => s.held e.2) name := by
      simp only [tagsAt, List.flatMap_cons, List.filter_append, List.map_append]
    rw [hsplit, List.countP_append, ih, countP_held, List.filterMap_cons]
    cases (e.2.consumers.lookup tag).filter fun k => (s.consumer k).queue_name = name with
    | none => simp
    | some k =>
      simp only [Option.toList_some, List.length_cons, List.length_nil]
      omega

theorem nodup_heldRefs (hr : Registered s) {conn : Connection} (hconn : s.connection c = some conn) (name tag : Bytes) :
    (s.heldRefs conn name tag).Nodup := by
  have hkeys : conn.channels.entries.Pairwise fun e e' => e.1 ≠ e'.1 := List.pairwise_map.mp conn.channels.nodup
  have howned : ∀ e ∈ conn.channels.entries, ∀ k, (e.2.consumers.lookup tag).filter
      (fun k => (s.consumer k).queue_name = name) = some k → (s.consumer k).channel_id = e.1 := by
    intro e he k hk
    have hch : s.channel c e.1 = some e.2 := by
      rw [channel, hconn]
      exact Assoc.mem_entries.mp he
    exact ((hr.channel hch).consumers tag k (Option.filter_eq_some_iff.mp hk).1).channel_id
  refine List.pairwise_filterMap.mpr (hkeys.imp_of_mem fun {e e'} he he' hne k hk k' hk' heq => hne ?_)
  rw [← howned e he k hk, ← howned e' he' k' hk', heq]

/-- No consumer of another connection is taken out of a queue that stays. --/
theorem timesTaken_le (hr : Registered s) {conn : Connection} (hconn : s.connection c = some conn) {name : Bytes}
    {q : MessageQueue} (hq : s.queue name = some q) (howned : ownedBy c q = false)
    (hok : ∀ e ∈ conn.channels.entries, ∀ tag k, e.2.consumers.lookup tag = some k → s.ownFirst c tag k = true) {k : Ref}
    (hk : k ∈ q.consumers) (hother : (s.consumer k).connection_id ≠ c) :
    timesTaken (conn.channels.entries.flatMap fun e => s.held e.2) name (s.tagOf k) ≤ rank s.tagOf k q.consumers := by
  rw [timesTaken_eq, rank, List.countP_eq_length_filter]
  refine (List.subperm_of_subset (nodup_heldRefs hr hconn name _) fun k' hk' => ?_).length_le
  obtain ⟨e, he, hfilter⟩ := List.mem_filterMap.mp hk'
  obtain ⟨hlook, hname⟩ := Option.filter_eq_some_iff.mp hfilter
  have hname' : (s.consumer k').queue_name = name := of_decide_eq_true hname
  have hch : s.channel c e.1 = some e.2 := by
    rw [channel, hconn]
    exact Assoc.mem_entries.mp he
  have howner := (hr.channel hch).consumers _ k' hlook
  -- The consumer `k` does not stand before `k'`, so `k'` stands before `k`.
  have hfirst : ∀ k'' ∈ q.consumers.takeWhile (fun k'' => k'' ≠ k'), s.tagOf k'' = s.tagOf k →
      (s.consumer k'').connection_id = c := by
    have h := hok e he _ k' hlook
    rw [ownFirst, hname', hq, Option.all_some, howned, Bool.false_or, List.all_eq_true] at h
    intro k'' hmem htag
    simpa [htag] using h k'' hmem
  have hbefore : k ∉ q.consumers.takeWhile (fun k'' => k'' ≠ k') := fun hmem => hother (hfirst k hmem rfl)
  have hne : k' ≠ k := fun heq => hother (heq ▸ howner.connection_id)
  exact List.mem_filter.mpr ⟨mem_takeWhile_of_notMem hk hne hbefore, decide_eq_true howner.tag⟩

/-- The connection is shut down, and the others have what they had. --/
structure Ended (c : Nat) (s s' : AmqpServer) : Prop where
  holds : ∀ c' num tag k, c' ≠ c → (s'.Holds c' num tag k ↔ s.Holds c' num tag k)
  state : (s'.connection c).map Connection.state = some .CLOSED

namespace Ended

variable {s₁ : AmqpServer}

theorem beyond (h : Ended c s s₁) (hb : Beyond c num s₁ s') : Ended c s s' :=
  ⟨fun c' num' tag k hne => (hb.holds c' num' tag k fun heq => hne heq.1).trans (h.holds c' num' tag k hne), hb.state.trans h.state⟩

theorem of_modifyConnection (h : Ended c s s₁) {f : Connection → Connection}
    (hf : ∀ conn, (f conn).state = conn.state) : Ended c s (s₁.modifyConnection c f) := by
  refine ⟨fun c' num tag k hne => ?_, ?_⟩
  · have hother : (s₁.modifyConnection c f).connection c' = s₁.connection c' := Assoc.lookup_modify_of_ne hne
    rw [← h.holds c' num tag k hne]
    simp only [Holds, hother]
  · rw [connection, modifyConnection, Assoc.lookup_modify_self, Option.map_map]
    exact (congrArg (fun g => (s₁.connection c).map g) (funext hf)).trans h.state

theorem shut {conn : Connection} (hconn : s.connection c = some conn) :
    Ended c s (s.modifyConnection c fun conn => { conn with state := .CLOSED, reading := false }) := by
  refine ⟨fun c' num tag k hne => ?_, by rw [connection_shut hconn]; rfl⟩
  have hother : (s.modifyConnection c fun conn => { conn with state := .CLOSED, reading := false }).connection c' =
      s.connection c' := Assoc.lookup_modify_of_ne hne
  simp only [Holds, hother]

theorem cleanupAllChannels (h : Ended c s s₁) : Ended c s (s₁.cleanupAllChannels c) := by
  rw [AmqpServer.cleanupAllChannels]
  split
  · exact h
  · refine of_modifyConnection (List.foldlRecOn _ _ h fun s₂ h₂ num _ => ?_) fun _ => rfl
    exact h₂.beyond Beyond.closeChannel

theorem removeConnectionQueues (h : Ended c s s₁) : Ended c s (s₁.removeConnectionQueues c) := by
  have hsame : (s₁.removeConnectionQueues c).connections = s₁.connections := by
    refine removeConnectionQueues_keeps (P := fun s' => s'.connections = s₁.connections) rfl (fun s' name hs => ?_)
      fun _ _ _ hs => hs
    exact (connections_removeConsumersByConnection name c).trans hs
  have hbeyond : Beyond c 0 s₁ (s₁.removeConnectionQueues c) := .of_connections hsame
  exact h.beyond hbeyond

end Ended

theorem fixed_removeConnectionQueues (k : Ref) : ((s.removeConnectionQueues c).consumer k).fixed = (s.consumer k).fixed := by
  refine removeConnectionQueues_keeps (P := fun s' => (s'.consumer k).fixed = (s.consumer k).fixed) rfl
    (fun s' name hs => ?_) fun _ _ _ hs => hs
  rw [removeConsumersByConnection]
  split
  · exact hs
  · refine (List.foldlRecOn (motive := fun s₂ : AmqpServer => (s₂.consumer k).fixed = (s.consumer k).fixed) _ _ hs ?_ :)
    intro s₂ h₂ k' _
    have hsame := (SameRegistry.modifyConsumer (s := s₂) k' (f := fun c => { c with on_deliver := none }) fun _ => rfl).fixed k
    exact hsame.trans h₂

/-- The end of a connection that takes no consumer of another one with it. --/
theorem Consistent.shutdown (h : Consistent s) (hr : Registered s) (hok : s.agrees (.shutdown c) = true) :
    Consistent (s.shutdown c) := by
  by_cases hlive : ∀ conn, s.connection c = some conn → conn.state = .CLOSED
  · rw [shutdown_of_not_live hlive]
    exact h
  push Not at hlive
  obtain ⟨conn, hconn, hopen⟩ := hlive
  rw [agrees, hconn, Option.all_some, decide_eq_false hopen, Bool.false_or, Bool.and_eq_true] at hok
  have hfirst : ∀ e ∈ conn.channels.entries, ∀ tag k, e.2.consumers.lookup tag = some k → s.ownFirst c tag k = true := by
    intro e he tag k hk
    exact List.all_eq_true.mp (List.all_eq_true.mp hok.1 e he) (tag, k) (Assoc.mem_entries.mpr hk)
  have hids : ∀ name q, s.queue name = some q → ownedBy c q = false → ∀ k ∈ q.consumers,
      idOf (s.consumer k).connection_id ≠ idOf c ↔ (s.consumer k).connection_id ≠ c := by
    intro name q hq howned k hk
    have h := List.all_eq_true.mp hok.2 (name, q) (Assoc.mem_entries.mpr hq)
    rw [ownIds, howned, Bool.false_or, List.all_eq_true] at h
    refine ⟨fun hne heq => hne (by rw [heq]), fun hne heq => ?_⟩
    simpa [heq, hne] using h k hk
  have hremoves := removes_afterChannels hconn hopen
  rw [removals_of_live hconn hopen] at hremoves
  have hended : Ended c s (s.afterChannels c) := (Ended.shut hconn).cleanupAllChannels
  rw [shutdown_of_live hconn hopen]
  generalize s.afterChannels c = s₁ at hremoves hended ⊢
  refine h.without (fun k => (s.consumer k).connection_id = c)
    (fun k => (fixed_removeConnectionQueues k).trans (hremoves.fixed k)) (fun name q' hq' => ?_) fun name q' hq' c' num k hname => ?_
  · obtain ⟨-, hqueue, -, -⟩ := removeConnectionQueues_spec (s := s₁) c
    rw [hqueue] at hq'
    obtain ⟨q₁, hq₁, hif⟩ := Option.bind_eq_some_iff.mp hq'
    split at hif
    · cases hif
    rename_i hgoes
    obtain rfl := Option.some.inj hif
    obtain ⟨q, hq, heq⟩ := hremoves.queue_eq hq₁
    have howned : ownedBy c q = false := by
      rw [goesWith, Bool.or_eq_true, not_or, Bool.not_eq_true] at hgoes
      exact (Removes.ownedBy_eq heq).symm.trans hgoes.1
    refine ⟨q, hq, fun k => ?_⟩
    rw [AmqpServer.without, List.mem_filter, Removes.consumers_eq heq, mem_eraseKeys (hr.isPlaced name q hq).1,
      hremoves.connection_id, decide_eq_true_eq]
    constructor
    · rintro ⟨⟨hk, -⟩, hne⟩
      exact ⟨hk, (hids name q hq howned k hk).mp hne⟩
    · rintro ⟨hk, hne⟩
      exact ⟨⟨hk, timesTaken_le hr hconn hq howned hfirst hk hne⟩, (hids name q hq howned k hk).mpr hne⟩
  · have hended' := hended.removeConnectionQueues
    by_cases hc : c' = c
    · subst hc
      constructor
      · rintro ⟨conn', ch, hconn', hopen', -⟩
        have hstate := hended'.state
        rw [hconn'] at hstate
        exact absurd (Option.some.inj hstate) hopen'
      · rintro ⟨hk, hother⟩
        exact absurd (hr.owned hk).connection_id hother
    · rw [hended'.holds c' num _ k hc]
      exact ⟨fun hk => ⟨hk, fun heq => hc ((hr.owned hk).connection_id.symm.trans heq)⟩, fun hk => hk.1⟩

/-! ### New channels and consumers -/

/-- A channel that is opened where no channel has consumers of a queue that there is. --/
theorem Consistent.openChannel (h : Consistent s) (hok : s.agrees (.openChannel c num) = true) :
    Consistent (s.openChannel c num) := by
  refine h.without (fun _ => False) (fun _ => rfl) (fun name q' hq' => ⟨q', hq', fun k => by rw [not_false_iff, and_true]⟩)
    fun name q' hq' c' num' k hname => ?_
  rw [not_false_iff, and_true]
  by_cases hhere : c' = c ∧ num' = num
  · obtain ⟨rfl, rfl⟩ := hhere
    constructor
    · rintro ⟨conn, ch, hconn, -, hch, -, hk⟩
      rw [connection, AmqpServer.openChannel, modifyConnection, Assoc.lookup_modify_self] at hconn
      obtain ⟨conn', -, rfl⟩ := Option.map_eq_some_iff.mp hconn
      change (conn'.channels.insert num' _).lookup num' = some ch at hch
      rw [Assoc.lookup_insert_self] at hch
      obtain rfl := Option.some.inj hch
      cases hk
    · intro hk
      obtain ⟨ch, hch, hlook⟩ := hk.channel
      rw [agrees, hch, Option.all_some, List.all_eq_true] at hok
      have horphaned := hok (s.tagOf k, k) (Assoc.mem_entries.mpr hlook)
      rw [orphaned, hname, show s.queue name = some q' from hq'] at horphaned
      cases horphaned
  · exact Beyond.openChannel.holds c' num' _ k hhere

/-- A consumer is made, and it is put at the end of its queue and into its channel under its tag. --/
structure Adds (c : Nat) (num : UInt16) (tag queue : Bytes) (k₀ : Ref) (s s' : AmqpServer) : Prop where
  fixed : ∀ k, k ≠ k₀ → (s'.consumer k).fixed = (s.consumer k).fixed
  tagOf : s'.tagOf k₀ = tag
  queue_name : (s'.consumer k₀).queue_name = queue
  queue : ∀ name, (s'.queue name).map MessageQueue.consumers =
    (s.queue name).map fun q => if name = queue then q.consumers ++ [k₀] else q.consumers
  holds : ∀ c' num' tag' k, s'.Holds c' num' tag' k ↔
    if c' = c ∧ num' = num ∧ tag' = tag then k = k₀ else s.Holds c' num' tag' k

theorem Consistent.adds (h : Consistent s) {tag queue : Bytes} {k₀ : Ref} (ha : Adds c num tag queue k₀ s s')
    (hnew : ∀ name q, s.queue name = some q → k₀ ∉ q.consumers)
    (hreuse : ∀ k, s.Holds c num tag k → s.queue (s.consumer k).queue_name = none) : Consistent s' := by
  intro name q' hq' k
  have hqueue := ha.queue name
  rw [hq', Option.map_some, eq_comm, Option.map_eq_some_iff] at hqueue
  obtain ⟨q, hq, heq⟩ := hqueue
  rw [← heq]
  by_cases hk : k = k₀
  · subst hk
    rw [ha.queue_name, ha.tagOf]
    have hheld : s'.Holds c num tag k := (ha.holds c num tag k).mpr (by rw [if_pos ⟨rfl, rfl, rfl⟩])
    split
    · rename_i hname
      exact ⟨fun _ => ⟨hname.symm, c, num, hheld⟩, fun _ => List.mem_append_right _ List.mem_cons_self⟩
    · rename_i hname
      exact ⟨fun hmem => absurd hmem (hnew name q hq), fun hmem => absurd hmem.1.symm hname⟩
  · have hmem : k ∈ (if name = queue then q.consumers ++ [k₀] else q.consumers) ↔ k ∈ q.consumers := by
      split
      · rw [List.mem_append, List.mem_singleton, or_iff_left hk]
      · rfl
    rw [hmem, h name q hq, tagOf_of_fixed (ha.fixed k hk), queue_name_of_fixed (ha.fixed k hk)]
    refine and_congr_right fun hname => exists_congr fun c' => exists_congr fun num' => ?_
    rw [ha.holds]
    split
    · rename_i hsame
      obtain ⟨rfl, rfl, htag⟩ := hsame
      refine iff_of_false (fun hheld => ?_) hk
      have hnone := hreuse k (htag ▸ hheld)
      rw [hname, hq] at hnone
      cases hnone
    · rfl

theorem Adds.same {tag queue : Bytes} {k₀ : Ref} {s₁ : AmqpServer} (h : Adds c num tag queue k₀ s s₁) (hs : SameRegistry s₁ s') :
    Adds c num tag queue k₀ s s' :=
  ⟨fun k hk => (hs.fixed k).trans (h.fixed k hk), (tagOf_of_fixed (hs.fixed k₀)).trans h.tagOf,
    (queue_name_of_fixed (hs.fixed k₀)).trans h.queue_name, fun name => (hs.queue name).trans (h.queue name),
    fun c' num' tag' k => (hs.holds c' num' tag' k).trans (h.holds c' num' tag' k)⟩

/-- The consumer gets into its channel and, after what is sent, into its queue. --/
theorem adds_addConsumer {s₂ : AmqpServer} {conn : Connection} {ch : Channel} (hconn : s.connection c = some conn)
    (hlive : conn.state ≠ .CLOSED) (hch : s.channel c num = some ch) (hopen : ch.isOpen = true) {k : Consumer} {tag queue : Bytes}
    {f : Channel → Channel} (htag : k.tag = tag) (hname : k.queue_name = queue) (hisOpen : ∀ ch, (f ch).isOpen = ch.isOpen)
    (hconsumers : ∀ ch, (f ch).consumers = ch.consumers.insert tag s.consumerHeap.size)
    (hs : SameRegistry (({ s with consumerHeap := s.consumerHeap.alloc k } : AmqpServer).modifyChannel c num f) s₂) :
    Adds c num tag queue s.consumerHeap.size s (s₂.addConsumer queue s.consumerHeap.size) := by
  have hnew : (s₂.consumer s.consumerHeap.size).fixed = k.fixed :=
    (hs.fixed _).trans (congrArg Consumer.fixed (Heap.cell_alloc_self ..))
  have hchannel : conn.channels.lookup num = some ch := by
    rw [channel, hconn] at hch
    exact hch
  suffices hadds : Adds c num tag queue s.consumerHeap.size s
      (s₂.modifyQueue queue fun q => { q with consumers := q.consumers ++ [s.consumerHeap.size] }) from
    hadds.same (.of_skeleton (skeleton_dispatchLocked queue))
  refine ⟨fun k' hk' => ?_, ?_, ?_, fun name => ?_, fun c' num' tag' k' => ?_⟩
  · exact (hs.fixed k').trans (congrArg Consumer.fixed (Heap.cell_alloc_of_ne hk'))
  · exact (congrArg Consumer.tag hnew).trans htag
  · exact (congrArg Consumer.queue_name hnew).trans hname
  · have hqueue : (s₂.queue name).map MessageQueue.consumers = (s.queue name).map MessageQueue.consumers := hs.queue name
    rw [AmqpServer.queue, modifyQueue, Assoc.lookup_modify]
    split
    · rename_i h
      subst h
      have happend := congrArg (Option.map fun l => l ++ [s.consumerHeap.size]) hqueue
      rw [Option.map_map, Option.map_map] at happend
      rw [Option.map_map]
      exact happend
    · exact hqueue
  · refine (hs.holds c' num' tag' k').trans ?_
    by_cases hhere : c' = c ∧ num' = num
    · obtain ⟨rfl, rfl⟩ := hhere
      refine (holds_modifyChannel_self f hisOpen _ _).trans ?_
      rw [exists_congr fun conn => exists_congr fun ch => by rw [hconsumers]]
      by_cases htag' : tag' = tag
      · subst htag'
        rw [if_pos ⟨rfl, rfl, rfl⟩]
        constructor
        · rintro ⟨_, ch', -, -, -, -, hk'⟩
          rw [Assoc.lookup_insert_self] at hk'
          exact (Option.some.inj hk').symm
        · rintro rfl
          exact ⟨conn, ch, hconn, hlive, hchannel, hopen, Assoc.lookup_insert_self ..⟩
      · rw [if_neg fun h => htag' h.2.2]
        refine exists_congr fun conn' => exists_congr fun ch' => ?_
        have hlook : (ch'.consumers.insert tag s.consumerHeap.size).lookup tag' = ch'.consumers.lookup tag' :=
          Assoc.lookup_insert_of_ne htag'
        rw [hlook]
        rfl
    · rw [if_neg fun h => hhere ⟨h.1, h.2.1⟩]
      exact (Beyond.modifyChannel _).holds c' num' tag' k' hhere

theorem adds_consume {conn : Connection} {ch : Channel} (hconn : s.connection c = some conn) (hlive : conn.state ≠ .CLOSED)
    (hch : s.channel c num = some ch) (hopen : ch.isOpen = true) (queue tag : Bytes) (bits : UInt8) :
    Adds c num (consumerTag c num ch tag) queue s.consumerHeap.size s (s.consume c num ch queue tag bits) := by
  rw [AmqpServer.consume]
  generalize (if tag = [] then ch.consumerTagCounter + 1 else ch.consumerTagCounter) = counter
  refine adds_addConsumer hconn hlive hch hopen (k := newConsumer c num ch queue (consumerTag c num ch tag) bits)
    (f := fun ch' => { ch' with consumerTagCounter := counter, consumers := ch'.consumers.insert (consumerTag c num ch tag) s.consumerHeap.size })
    rfl rfl (fun _ => rfl) (fun _ => rfl) ?_
  split
  · exact .refl
  · exact .of_skeleton (skeleton_sendMethodFrame ..)

theorem Consistent.consume (h : Consistent s) (hr : Registered s) {conn : Connection} {ch : Channel}
    (hconn : s.connection c = some conn) (hreading : conn.reading = true) (hch : s.openChannelAt c num = some ch)
    {queue tag : Bytes} {bits : UInt8} {q : MessageQueue} (hq : s.queue queue = some q)
    (hok : s.agrees (.method c num (.basicConsume queue tag bits)) = true) :
    Consistent (s.consume c num ch queue tag bits) := by
  obtain ⟨hch, hopen⟩ := Option.filter_eq_some_iff.mp hch
  have hlive := (hr.connections c conn hconn).reading hreading
  refine h.adds (adds_consume hconn hlive hch hopen queue tag bits) (fun name q hq hmem => ?_) fun k hk => ?_
  · exact Nat.lt_irrefl _ ((hr.queue hq).placed _ hmem).1
  · obtain ⟨ch', hch', hlook⟩ := hk.channel
    obtain rfl := Option.some.inj (hch.symm.trans hch')
    rw [agrees, hq, hch, Option.isNone_some, Bool.false_or, Option.all_some, hlook, Option.all_some] at hok
    exact Option.isNone_iff_eq_none.mp hok

/-! ### Queues -/

theorem awaited_of_holds {tag : Bytes} {k : Ref} (h : s.Holds c num tag k) : s.awaited (s.consumer k).queue_name = true := by
  obtain ⟨conn, ch, hconn, hlive, hch, hopen, hk⟩ := h
  refine List.any_eq_true.mpr ⟨(c, conn), Assoc.mem_entries.mpr hconn, ?_⟩
  rw [Bool.and_eq_true]
  refine ⟨decide_eq_true hlive, List.any_eq_true.mpr ⟨(num, ch), Assoc.mem_entries.mpr hch, ?_⟩⟩
  rw [Bool.and_eq_true]
  exact ⟨hopen, List.any_eq_true.mpr ⟨(tag, k), Assoc.mem_entries.mpr hk, decide_eq_true rfl⟩⟩

/-- A queue that nobody waits for is made, without consumers. --/
theorem Consistent.insertQueue (h : Consistent s) {name : Bytes} {q : MessageQueue} (hq : q.consumers = [])
    (hfree : s.awaited name = false) : Consistent { s with queues := s.queues.insert name q } := by
  intro name' q' hq' k
  by_cases hname : name' = name
  · subst hname
    rw [AmqpServer.queue, Assoc.lookup_insert_self] at hq'
    obtain rfl := Option.some.inj hq'
    rw [hq]
    refine ⟨fun hk => absurd hk List.not_mem_nil, ?_⟩
    rintro ⟨hname, c, num, hk⟩
    have hawaited := awaited_of_holds (s := s) hk
    rw [show (s.consumer k).queue_name = name' from hname, hfree] at hawaited
    cases hawaited
  · rw [AmqpServer.queue, Assoc.lookup_insert_of_ne hname] at hq'
    exact h name' q' hq' k

theorem Consistent.eraseQueue (h : Consistent s) (name : Bytes) : Consistent { s with queues := s.queues.erase name } := by
  intro name' q' hq' k
  rw [queue_erase] at hq'
  split at hq'
  · cases hq'
  · exact h name' q' hq' k

theorem Consistent.declareQueue (h : Consistent s) {name : Bytes} {passive durable exclusive autoDelete : Bool}
    {args : FieldTable} (hok : (passive || (s.queue (s.declaredName name)).isSome || !s.awaited (s.declaredName name)) = true) :
    Consistent (s.declareQueue name passive durable exclusive autoDelete args c).2 := by
  have hname : (if name = [] then ascii "amq.gen-" ++
      decimal (if name = [] then { s with nameCounter := s.nameCounter + 1 } else s).nameCounter.toNat else name) =
      s.declaredName name := by
    rw [declaredName]
    split <;> rfl
  have hsame : SameRegistry s (if name = [] then { s with nameCounter := s.nameCounter + 1 } else s) := by
    split
    · exact .of_eq rfl rfl rfl
    · exact .refl
  have hqueue : (if name = [] then { s with nameCounter := s.nameCounter + 1 } else s).queue (s.declaredName name) =
      s.queue (s.declaredName name) := by
    split <;> rfl
  have hawaited : (if name = [] then { s with nameCounter := s.nameCounter + 1 } else s).awaited (s.declaredName name) =
      s.awaited (s.declaredName name) := by
    split <;> rfl
  rw [AmqpServer.declareQueue, hname]
  generalize (if name = [] then { s with nameCounter := s.nameCounter + 1 } else s) = s₁ at hsame hqueue hawaited
  split
  · split
    · exact h.same hsame
    · split <;> exact h.same hsame
  · rename_i hnone
    split
    · exact h.same hsame
    · rename_i hpassive
      have hfree : s₁.awaited (s.declaredName name) = false := by
        rw [hqueue] at hnone
        rw [hawaited]
        simpa [hpassive, hnone] using hok
      have hinsert : ∀ q : MessageQueue, q.consumers = [] →
          Consistent { s₁ with queues := s₁.queues.insert (s.declaredName name) q } :=
        fun q hq => (h.same hsame).insertQueue hq hfree
      refine (hinsert (MessageQueue.configure
        { name := s.declaredName name, durable, exclusive, auto_delete := autoDelete, arguments := args,
          owner_connection := if exclusive then c else 0, deadLetterFn := true }) rfl).same ?_
      cases durable with
      | true => exact .of_eq rfl rfl rfl
      | false => exact .of_eq rfl rfl rfl

theorem sameRegistry_handGet {queue : Bytes} {ch : Channel} {noAck : Bool} {r : Ref} :
    SameRegistry s (s.handGet c num ch queue noAck r) := by
  have hheld : ∀ u, SameRegistry s (s.hold c num u) := fun _ => .channelSame num (fun _ => rfl) fun _ => rfl
  have hsent : ∀ (s₁ : AmqpServer) m, SameRegistry s₁ ((s₁.takeTag c num).sendGetOk c num queue ch.nextDeliveryTag m) := by
    intro s₁ m
    have htag : SameRegistry s₁ (s₁.takeTag c num) := .channelSame num (fun _ => rfl) fun _ => rfl
    refine htag.trans (.of_skeleton ?_)
    rw [sendGetOk, skeleton_sendContentFrames, skeleton_sendMethodFrame]
  cases noAck with
  | true =>
    have hremoved : SameRegistry s (s.record [.removed (s.origin r) queue]) := .of_eq rfl rfl rfl
    exact hremoved.trans (hsent _ _)
  | false => exact (hheld _).trans (hsent _ _)

/-- What a method does to the registry, once its arguments are read. --/
theorem Consistent.act (h : Consistent s) (hr : Registered s) {conn : Connection} {ch : Channel}
    (hconn : s.connection c = some conn) (hreading : conn.reading = true) (hch : s.openChannelAt c num = some ch) {m : Method}
    (hok : s.agrees (.method c num m) = true) : Consistent (s.act c num m) := by
  have hsend : ∀ {s₁ : AmqpServer} {classId methodId : UInt16} {payload : Bytes}, Consistent s₁ →
      Consistent (s₁.sendMethodFrame c num classId methodId payload) :=
    fun h => h.same (.of_skeleton (skeleton_sendMethodFrame ..))
  have hclose : ∀ {s₁ : AmqpServer} {code classId methodId : UInt16} {text : Bytes}, Consistent s₁ →
      Consistent (s₁.sendChannelClose c num code text classId methodId) :=
    fun h => h.same (.of_skeleton (skeleton_sendChannelClose ..))
  cases m with
  | queueDeclare queue bits args =>
    have hdeclared : Consistent (s.declareQueue queue (hasBit bits 0x01) (hasBit bits 0x02) (hasBit bits 0x04)
        (hasBit bits 0x08) args c).2 := h.declareQueue hok
    rw [AmqpServer.act]
    split
    · rename_i heq
      rw [heq] at hdeclared
      exact hclose hdeclared
    · rename_i heq
      rw [heq] at hdeclared
      split
      · exact hdeclared
      · exact hsend hdeclared
  | queueBind queue exchange routingKey bits args =>
    exact h.same (sameRegistry_reply fun s₁ => sameRegistry_bindQueue)
  | queueUnbind queue exchange routingKey => exact h.same (sameRegistry_reply fun s₁ => sameRegistry_unbindQueue)
  | queuePurge queue bits =>
    rw [AmqpServer.act]
    split
    · exact hclose h
    · have hpurge : Consistent (s.purge queue) := h.same (.of_skeleton (skeleton_purge queue))
      split
      · exact hpurge
      · exact hsend hpurge
  | queueDelete queue bits =>
    rw [AmqpServer.act]
    split
    · exact hclose h
    · rename_i heq
      rw [deleteQueue] at heq
      split at heq
      · cases heq
      · split at heq
        · cases heq
        · split at heq
          · cases heq
          · have herase : Consistent { s.removeBindingsOf queue with queues := s.queues.erase queue } :=
              (h.eraseQueue queue).same (.of_eq rfl rfl rfl)
            obtain ⟨-, rfl⟩ := Prod.mk.inj (Except.ok.inj heq)
            have hdeleted : Consistent (({ s.removeBindingsOf queue with queues := s.queues.erase queue } :
              AmqpServer).modifyStore fun st => st.storeQueueDelete queue) := herase.same (.of_eq rfl rfl rfl)
            split
            · exact hdeleted
            · exact hsend hdeleted
  | basicConsume queue tag bits =>
    rw [AmqpServer.act]
    have hchannel := (Option.filter_eq_some_iff.mp hch).1
    split
    · exact hclose h
    · exact h
    · rename_i q ch' hq hch'
      obtain rfl := Option.some.inj (hchannel.symm.trans hch')
      exact h.consume hr hconn hreading hch hq hok
  | basicCancel tag bits =>
    have hcancel := h.cancel hr hok
    rw [AmqpServer.act]
    split
    · exact hcancel
    · exact hsend hcancel
  | basicGet queue bits =>
    have hget : Consistent (s.get queue).2 := h.same (.of_skeleton (skeleton_get queue))
    rw [AmqpServer.act]
    split
    · exact hclose h
    · exact h
    · split
      · rename_i heq
        rw [heq] at hget
        exact hsend hget
      · rename_i heq
        rw [heq] at hget
        exact hget.same sameRegistry_handGet

/-! ### Runs -/

/-- No queue has consumers and no channel has any. --/
structure Idle (s : AmqpServer) : Prop where
  queues : ∀ name q, s.queue name = some q → q.consumers = []
  holds : ∀ c num tag k, ¬s.Holds c num tag k

namespace Idle

theorem consistent (h : Idle s) : Consistent s := by
  intro name q hq k
  rw [h.queues name q hq]
  exact ⟨nofun, fun ⟨_, c, num, hk⟩ => absurd hk (h.holds c num _ k)⟩

theorem same (h : Idle s) (hs : SameRegistry s s') : Idle s' := by
  refine ⟨fun name q' hq' => ?_, fun c num tag k hk => h.holds c num tag k ((hs.holds c num tag k).mp hk)⟩
  have hqueue := hs.queue name
  rw [hq', Option.map_some, eq_comm, Option.map_eq_some_iff] at hqueue
  obtain ⟨q, hq, heq⟩ := hqueue
  rw [← heq, h.queues name q hq]

theorem insertQueue (h : Idle s) {name : Bytes} {q : MessageQueue} (hq : q.consumers = []) :
    Idle { s with queues := s.queues.insert name q } := by
  refine ⟨fun name' q' hq' => ?_, h.holds⟩
  by_cases hname : name' = name
  · rw [hname, AmqpServer.queue, Assoc.lookup_insert_self] at hq'
    obtain rfl := Option.some.inj hq'
    exact hq
  · rw [AmqpServer.queue, Assoc.lookup_insert_of_ne hname] at hq'
    exact h.queues name' q' hq'

theorem move {k : Kind} (h : Idle s) (hv : Valid s) (hk : k ∈ recoveryKinds) (hm : Move c k s s') : Idle s' := by
  by_cases hquiet : k ∈ quietKinds
  · exact h.same (.move hv hquiet hm)
  · cases hm with
    | recover m name hw => exact h.same (.of_eq rfl rfl rfl)
    | recoverQueue hname hnew hm hcons he ho => exact h.insertQueue hcons
    | exchanges m => exact h.same (.of_eq rfl rfl rfl)
    | nameCounter n => exact h.same (.of_eq rfl rfl rfl)
    | insertQueue hname hnew hm hcons he ho => exact h.insertQueue hcons
    | eraseQueue name =>
      refine ⟨fun name' q hq => ?_, h.holds⟩
      rw [queue_erase] at hq
      split at hq
      · cases hq
      · exact h.queues name' q hq
    | log e hm ha hfit => exact h.same (.of_eq rfl rfl rfl)
    | send out => exact absurd hk (outgoingKind_not_mem (by decide))
    | note num f hf hn => rcases hn with rfl | ⟨rfl, -⟩ <;> exact absurd hk (by decide)
    | _ => first | exact absurd hk (by decide) | exact absurd (by decide) hquiet

end Idle

section
variable {store : Option MessageStore} {userStore : UserStore} {clock : Nat → Int} {readings : Nat}

theorem idle_start : Idle (start store userStore clock readings) := by
  have hblank : ∀ store, Idle { store, userStore, clock, readings, exchanges := defaultExchanges } := by
    refine fun store => ⟨nofun, ?_⟩
    rintro c num tag k ⟨conn, ch, hconn, -⟩
    exact Option.some_ne_none conn hconn.symm
  cases store with
  | none => exact hblank none
  | some st =>
    refine (((does_recoverFromStore (c := 0) rfl).moves valid_blank).keeps (P := fun s => Idle s ∧ Valid s) ?_
      ⟨hblank _, valid_blank⟩).1
    exact fun k hk _ _ hm h => ⟨h.1.move h.2 hk hm, h.2.move hm⟩

theorem agrees_send (out : Outgoing) : (s.send c out).agrees (.shutdown c) = s.agrees (.shutdown c) := by
  rw [agrees, agrees, connection_send]
  cases s.connection c <;> rfl

/-- One event, by what it asks for. --/
theorem Consistent.handle (h : Consistent s) (hv : Valid s) (hr : Registered s) {e : Event}
    (hok : s.agrees (s.request e) = true) : Consistent (s.handle e) := by
  have hreq := handles_request s e
  generalize hrequest : s.request e = r at hok hreq
  cases hreq with
  | method hconn hreading hch heq =>
    rw [heq]
    exact h.act hr hconn hreading hch hok
  | openChannel hconn hreading heq =>
    rw [heq]
    exact (h.openChannel hok).same (.of_skeleton (skeleton_sendMethodFrame ..))
  | closeChannel hconn hreading heq =>
    rcases heq with heq | heq
    · rw [heq]
      exact h.cleanupChannel hr hok
    · rw [heq]
      exact (h.cleanupChannel hr hok).same (.of_skeleton (skeleton_sendMethodFrame ..))
  | @shutdown c heq =>
    rcases heq with heq | ⟨out, heq⟩
    · rw [heq]
      exact h.shutdown hr hok
    · have hsent : Consistent (s.send c out) := h.same (.of_skeleton (skeleton_send c out))
      have hr' : Registered (s.send c out) := hr.connectionSame (f := fun conn => { conn with sent := conn.sent ++ [out] })
        (fun _ => rfl) (fun _ => rfl) fun _ => rfl
      rw [heq]
      exact hsent.shutdown hr' ((agrees_send out).trans hok)
  | restart heq =>
    rw [heq]
    exact idle_start.consistent
  | other => exact h.same (sameRegistry_other hv hrequest)

/-- The states that a run passes through. --/
theorem Consistent.run {events : List Event} (h : Consistent s) (hv : Valid s) (hr : Registered s)
    (hok : s.agreesAll events = true) : Consistent (s.run events) := by
  induction events generalizing s with
  | nil => exact h
  | cons e events ih =>
    rw [agreesAll, Bool.and_eq_true] at hok
    exact ih (h.handle hv hr hok.1) (valid_handle hv e) (registered_handle hv hr e) hok.2

theorem agreesAll_of_append {events rest : List Event} (h : s.agreesAll (events ++ rest) = true) :
    s.agreesAll events = true := by
  induction events generalizing s with
  | nil => rfl
  | cons e events ih =>
    rw [List.cons_append, agreesAll, Bool.and_eq_true] at h
    rw [agreesAll, Bool.and_eq_true]
    exact ⟨h.1, ih h.2⟩

/-- In every state of a run whose requests all keep the two sides together, a consumer is in a queue exactly when an
    open channel of a live connection has it under its tag for that queue. --/
theorem consumers_registered {events pre : List Event} (hok : (start store userStore clock readings).agreesAll events = true)
    (hpre : pre <+: events) {name : Bytes} {q : MessageQueue} (hq : ((start store userStore clock readings).run pre).queue name = some q)
    (k : Ref) :
    k ∈ q.consumers ↔ (((start store userStore clock readings).run pre).consumer k).queue_name = name ∧
      ∃ c num, ((start store userStore clock readings).run pre).Holds c num
        (((start store userStore clock readings).run pre).tagOf k) k := by
  obtain ⟨rest, rfl⟩ := hpre
  exact idle_start.consistent.run valid_start registered_start (agreesAll_of_append hok) name q hq k

/-- Connection 1 cancels its consumer, which is the first one of its tag. --/
theorem consumers_registered_cancel :
    let s := freshServer.run (sameTagRun ++ [Client.cancel 1 1 (ascii "t")])
    (∃ q, s.queue (ascii "q") = some q ∧ q.consumers = [1]) ∧ ∃ c num, s.Holds c num (s.tagOf 1) 1 := by
  intro s
  have hqueue : (s.queue (ascii "q")).any (fun q => q.consumers = [1]) = true := by decide +kernel
  obtain ⟨q, hq, hall⟩ := (Option.any_eq_true _ _).mp hqueue
  have hconsumers : q.consumers = [1] := of_decide_eq_true hall
  have hmem : 1 ∈ q.consumers := by
    rw [hconsumers]
    exact List.mem_cons_self
  have hagrees : freshServer.agreesAll (sameTagRun ++ [Client.cancel 1 1 (ascii "t")]) = true := by decide +kernel
  exact ⟨⟨q, hq, hconsumers⟩, ((consumers_registered hagrees List.prefix_rfl hq 1).mp hmem).2⟩

/-- Connection 1 consumes twice under the same tag. --/
def reusedTagRun : List Event :=
  Client.connect 1 ++
    [Client.openChannel 1 1, Client.assertQueue 1 1 (ascii "q") false false false false [],
      Client.consume 1 1 (ascii "q") (ascii "t") false false false,
      Client.consume 1 1 (ascii "q") (ascii "t") false false false]

/-- The first consumer stays in the queue, and no channel has it. --/
theorem reused_tag_leaves_consumer :
    let s := freshServer.run reusedTagRun
    (∃ q, s.queue (ascii "q") = some q ∧ 0 ∈ q.consumers) ∧ ¬∃ c num, s.Holds c num (s.tagOf 0) 0 := by
  intro s
  have hqueue : (s.queue (ascii "q")).any (fun q => q.consumers = [0, 1]) = true := by decide +kernel
  obtain ⟨q, hq, hall⟩ := (Option.any_eq_true _ _).mp hqueue
  refine ⟨⟨q, hq, of_decide_eq_true hall ▸ List.mem_cons_self⟩, ?_⟩
  rintro ⟨c, num, hk⟩
  have hr : Registered s := registered_run reusedTagRun
  have hc : (s.consumer 0).connection_id = 1 ∧ (s.consumer 0).channel_id = 1 := by decide +kernel
  obtain ⟨ch, hch, hlook⟩ := hk.channel
  obtain rfl := (hr.owned hk).connection_id.symm.trans hc.1
  obtain rfl := (hr.owned hk).channel_id.symm.trans hc.2
  have hmap : (s.channel 1 1).any (fun ch => ch.consumers.lookup (s.tagOf 0) = some 1) = true := by decide +kernel
  rw [hch, Option.any_some, hlook] at hmap
  cases hmap

end

end AmqpServer
end Broko.Broker
