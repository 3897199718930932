import Broko.Theorems.Cancel

/-! How messages go through the hands of a handler. A message that is taken from a queue or from a table of unacked
    messages is in the hand of the handler until it is put somewhere; an entry of a table that is dealt with stays in the
    table until it is erased, and queues dispatch in between. What a handler has on its desk is followed from step to
    step, and at its end the desk is empty. -/

namespace Broko.Broker
open Amqp Storage MessageStore

/-- An entry of a table of unacked messages: the number of the channel, the delivery tag, the message. --/
abbrev Holding := UInt16 × Nat × UnackedMessage

/-- A message in hand, and the entries that are dealt with but still in the table. --/
structure Desk where
  hand : Option Ref := none
  stale : List Holding := []

/-- A delivery that goes without an ack and without its credit. --/
inductive Loss where
  /-- It is taken from the table. -/
  | held (u : UnackedMessage)
  /-- It was posted, and it is not recorded when its task runs. -/
  | posted (t : DeliverTask)

namespace AmqpServer

/-- The table of a channel. --/
def holdings (c : Nat) (num : UInt16) (s : AmqpServer) : List Holding :=
  match s.channel c num with
  | none => []
  | some ch => ch.unackedMessages.entries.map fun e => (num, e.1, e.2)

/-- The first task is taken from the strand. --/
def popTask (c : Nat) (rest : List DeliverTask) (s : AmqpServer) : AmqpServer :=
  s.modifyConnection c fun conn => { conn with strand := rest }

/-- The kinds of moves that deliveries are made of. --/
def deliveryKinds : List Kind :=
  [.requeue, .take, .hold, .release, .settle, .remove, .register, .openChannel, .closeChannel, .task]

/-- One step of a handler, with its desk before and after. Deliveries can get lost where `L` allows it. --/
inductive Flow (c : Nat) (L : Loss → Prop) : Desk → AmqpServer → Desk → AmqpServer → Prop
  | move {d s s'} {kind : Kind} (hm : Move c kind s s') (hkind : kind ∉ deliveryKinds) : Flow c L d s d s'
  | takeTag {d s} (num : UInt16) : Flow c L d s d (s.takeTag c num)
  | setClosed {d s} (num : UInt16) : Flow c L d s d (s.modifyChannel c num fun ch => { ch with isOpen := false })
  | shut {d s} : Flow c L d s d (s.modifyConnection c fun conn => { conn with state := .CLOSED, reading := false })
  -- The entry is acked, or its credit is given back, or neither.
  | settle {stale s} (num : UInt16) (tag : Nat) (u : UnackedMessage)
      (hsub : ((num, tag, u) :: stale).Subperm (s.holdings c num)) :
      Flow c L ⟨none, stale⟩ s ⟨none, (num, tag, u) :: stale⟩ (s.persistAck u)
  | refund {stale s} (num : UInt16) (tag : Nat) (u : UnackedMessage)
      (hsub : ((num, tag, u) :: stale).Subperm (s.holdings c num)) :
      Flow c L ⟨none, stale⟩ s ⟨some u.message, (num, tag, u) :: stale⟩ (s.releaseCredit u)
  | lift {stale s} (num : UInt16) (tag : Nat) (u : UnackedMessage)
      (hsub : ((num, tag, u) :: stale).Subperm (s.holdings c num)) (hL : L (.held u)) :
      Flow c L ⟨none, stale⟩ s ⟨some u.message, (num, tag, u) :: stale⟩ s
  -- Into the hand from a queue, and out of the hand.
  | take {stale s} {q : MessageQueue} {name : Bytes} {r : Ref} {rest : List Ref} (hq : s.queue name = some q)
      (hm : q.messages = r :: rest) :
      Flow c L ⟨none, stale⟩ s ⟨some r, stale⟩ (s.modifyQueue name fun q => { q with messages := q.messages.tail })
  | put {stale s} {q : MessageQueue} {name : Bytes} (r : Ref) (hr : r < s.heap.size) (hq : s.queue name = some q) :
      Flow c L ⟨some r, stale⟩ s ⟨none, stale⟩ (s.modifyQueue name fun q => { q with messages := r :: q.messages })
  | drop {stale s} (r : Ref) : Flow c L ⟨some r, stale⟩ s ⟨none, stale⟩ s
  | keep {stale s} {ch : Channel} (num : UInt16) (u : UnackedMessage) (hu : u.message < s.heap.size)
      (hch : s.channel c num = some ch) (hk : u.consumer = none) :
      Flow c L ⟨some u.message, stale⟩ s ⟨none, stale⟩ ((s.hold c num u).takeTag c num)
  | hand {stale s} (r : Ref) (name : Bytes) (hr : r < s.heap.size) :
      Flow c L ⟨some r, stale⟩ s ⟨none, stale⟩ (s.record [.removed (s.origin r) name])
  -- Entries that are dealt with go.
  | erase {stale s} {ch : Channel} {num : UInt16} {tag : Nat} {u : UnackedMessage} (hch : s.channel c num = some ch)
      (hu : ch.unackedMessages.lookup tag = some u) :
      Flow c L ⟨none, (num, tag, u) :: stale⟩ s ⟨none, stale⟩ (s.eraseUnacked c num tag)
  | clear {stale s} (num : UInt16) (hall : stale.Perm (s.holdings c num)) :
      Flow c L ⟨none, stale⟩ s ⟨none, []⟩ (s.clearUnacked c num)
  | openChannel {stale s} (num : UInt16) (hnum : num ≠ 0) (hall : stale.Perm (s.holdings c num)) :
      Flow c L ⟨none, stale⟩ s ⟨none, []⟩ (s.openChannel c num)
  | dropChannel {d s} (num : UInt16) (hnone : s.holdings c num = []) :
      Flow c L d s d (s.modifyConnection c fun conn => { conn with channels := conn.channels.erase num })
  | dropChannels {d s} (hnone : ∀ num, s.holdings c num = []) :
      Flow c L d s d (s.modifyConnection c fun conn => { conn with channels := ∅ })
  -- A posted delivery is recorded, or it needs no ack, or there is nobody left to record it.
  | deliver {d s} {conn : Connection} {t : DeliverTask} {rest : List DeliverTask} {ch : Channel} {k : Ref}
      (hconn : s.connection c = some conn) (hs : conn.strand = t :: rest) (hch : s.lockChannel c t = some ch)
      (hk : ch.consumers.lookup t.tag = some k) (hack : (s.consumer k).no_ack = false) :
      Flow c L d s d (((s.popTask c rest).hold c t.channel_id
        { message := t.msg, queue_name := t.queue, consumer := some k }).takeTag c t.channel_id)
  | deliverNoAck {d s} {conn : Connection} {t : DeliverTask} {rest : List DeliverTask} {ch : Channel} {k : Ref}
      (hconn : s.connection c = some conn) (hs : conn.strand = t :: rest) (hch : s.lockChannel c t = some ch)
      (hk : ch.consumers.lookup t.tag = some k) (hack : (s.consumer k).no_ack = true) :
      Flow c L d s d ((s.popTask c rest).record [.removed (s.origin t.msg) t.queue])
  | discard {d s} {conn : Connection} {t : DeliverTask} {rest : List DeliverTask} (hconn : s.connection c = some conn)
      (hs : conn.strand = t :: rest) (hL : L (.posted t)) : Flow c L d s d (s.popTask c rest)

variable {c : Nat} {num : UInt16} {s s' s₁ s₂ : AmqpServer} {L : Loss → Prop} {d d₁ d₂ : Desk} {stale : List Holding}

theorem skeleton_popTask (rest : List DeliverTask) : (s.popTask c rest).skeleton = s.skeleton :=
  skeleton_modifyConnection fun _ => rfl

theorem holdings_congr (h : s'.channel c num = s.channel c num) : s'.holdings c num = s.holdings c num := by
  rw [holdings, h, holdings]

theorem mem_holdings {tag : Nat} {u : UnackedMessage} :
    (num, tag, u) ∈ s.holdings c num ↔ ∃ ch, s.channel c num = some ch ∧ ch.unackedMessages.lookup tag = some u := by
  rw [holdings]
  split
  · rename_i hnone
    simp [hnone]
  · rename_i ch hch
    simp [hch, ← Assoc.mem_entries]

theorem map_holdings : (s.holdings c num).map (fun e => e.2.2) = s.unacked c num := by
  rw [holdings, unacked]
  cases s.channel c num with
  | none => rfl
  | some ch =>
    dsimp only
    rw [List.map_map]
    rfl

theorem num_of_holdings {e : Holding} (he : e ∈ s.holdings c num) : e.1 = num := by
  rw [holdings] at he
  split at he
  · cases he
  · obtain ⟨_, -, rfl⟩ := List.mem_map.mp he
    rfl

theorem lt_of_holdings (hv : Valid s) {e : Holding} (he : e ∈ s.holdings c num) : e.2.2.message < s.heap.size :=
  lt_of_mem_unacked hv (map_holdings ▸ List.mem_map_of_mem he)

namespace Flow

/-- Each step is one of the moves, or two: what the moves keep, a step keeps. Nobody registers in a step. --/
theorem keeps {P : AmqpServer → Prop} (h : Flow c L d s d₁ s₁) (hv : Valid s)
    (hP : ∀ {kind s s'}, Move c kind s s' → kind ≠ .register → P s → P s') (hs : P s) : P s₁ := by
  cases h with
  | move hm hkind => exact hP hm (fun heq => hkind (heq ▸ (by decide))) hs
  | takeTag num => exact hP (.takeTag num) (by decide) hs
  | setClosed num => exact hP (.setClosed num) (by decide) hs
  | shut => exact hP .shut (by decide) hs
  | settle num tag u hsub =>
    exact hP (.settle u (lt_of_holdings hv (hsub.subset List.mem_cons_self))) (by decide) hs
  | refund num tag u hsub => exact hP (.releaseCredit u) (by decide) hs
  | lift num tag u hsub hL => exact hs
  | take hq hm => exact hP (.take _) (by decide) hs
  | put r hr hq => exact hP (.requeue _ r hr) (by decide) hs
  | drop r => exact hs
  | keep num u hu hch hk =>
    refine hP (.hold num u hu fun k hk' => ?_) (by decide) hs
    rw [hk] at hk'
    cases hk'
  | hand r name hr => exact hP (.remove r name hr) (by decide) hs
  | erase hch hu => exact hP (.eraseUnacked _ _) (by decide) hs
  | clear num hall => exact hP (.clearUnacked num) (by decide) hs
  | openChannel num hnum hall => exact hP (.openChannel num hnum) (by decide) hs
  | dropChannel num hnone => exact hP (.dropChannel num) (by decide) hs
  | dropChannels hnone => exact hP .dropChannels (by decide) hs
  | @deliver _ _ conn t rest ch k hconn hstrand hch hk hack =>
    have hpop := hP (.popTask hconn hstrand) (by decide) hs
    refine hP (.hold t.channel_id _ ?_ fun k' hk' => ⟨ch, t.tag, ?_, ?_⟩) (by decide) hpop
    · exact (hv.connections c conn hconn).2.strand t (hstrand ▸ List.mem_cons_self)
    · rw [channel_of_skeleton (skeleton_popTask rest)]
      exact (Option.filter_eq_some_iff.mp hch).1
    · exact Option.some.inj hk' ▸ hk
  | @deliverNoAck _ _ conn t rest ch k hconn hstrand hch hk hack =>
    have hpop := hP (.popTask hconn hstrand) (by decide) hs
    refine hP (.remove t.msg t.queue ?_) (by decide) hpop
    exact (hv.connections c conn hconn).2.strand t (hstrand ▸ List.mem_cons_self)
  | discard hconn hstrand hL => exact hP (.popTask hconn hstrand) (by decide) hs

theorem valid (h : Flow c L d s d₁ s₁) (hv : Valid s) : Valid s₁ := h.keeps hv (fun hm _ hv => hv.move hm) hv

end Flow

/-! ### Sequences of steps -/

/-- In a valid state, steps lead from one state and desk to the other. --/
structure Passes (c : Nat) (L : Loss → Prop) (d : Desk) (s : AmqpServer) (d' : Desk) (s' : AmqpServer) : Prop where
  flows : Valid s → Relation.ReflTransGen (fun x y : Desk × AmqpServer => Flow c L x.1 x.2 y.1 y.2) (d, s) (d', s')

namespace Passes

theorem refl : Passes c L d s d s := ⟨fun _ => .refl⟩

theorem of (h : Flow c L d s d₁ s₁) : Passes c L d s d₁ s₁ := ⟨fun _ => .single h⟩

/-- The invariant rule. --/
theorem keeps {P : Desk → AmqpServer → Prop} (h : Passes c L d s d₁ s₁) (hv : Valid s)
    (hP : ∀ {d s d' s'}, Flow c L d s d' s' → Valid s → P d s → P d' s') (hs : P d s) : P d₁ s₁ := by
  have hboth : ∀ x : Desk × AmqpServer,
      Relation.ReflTransGen (fun x y : Desk × AmqpServer => Flow c L x.1 x.2 y.1 y.2) (d, s) x → Valid x.2 ∧ P x.1 x.2 := by
    intro x hx
    induction hx with
    | refl => exact ⟨hv, hs⟩
    | tail _ hflow ih => exact ⟨hflow.valid ih.1, hP hflow ih.1 ih.2⟩
  exact (hboth (d₁, s₁) (h.flows hv)).2

theorem valid (h : Passes c L d s d₁ s₁) (hv : Valid s) : Valid s₁ :=
  h.keeps (P := fun _ => Valid) hv (fun hflow hv _ => hflow.valid hv) hv

theorem trans (h₁ : Passes c L d s d₁ s₁) (h₂ : Passes c L d₁ s₁ d₂ s₂) : Passes c L d s d₂ s₂ :=
  ⟨fun hv => (h₁.flows hv).trans (h₂.flows (h₁.valid hv))⟩

theorem ofValid (h : Valid s → Passes c L d s d₁ s₁) : Passes c L d s d₁ s₁ := ⟨fun hv => (h hv).flows hv⟩

/-- Moves that are no part of a delivery. --/
theorem does {K : List Kind} (h : Does c K s s₁) (hK : ∀ k ∈ K, k ∉ deliveryKinds) : Passes c L d s d s₁ := by
  refine ⟨fun hv => ?_⟩
  have hmoves := h.moves hv
  clear h
  induction hmoves with
  | refl => exact .refl
  | tail _ hm ih =>
    obtain ⟨k, hk, hm⟩ := hm
    exact ih.tail (.move hm (hK k hk))

end Passes

/-! ### Settlement -/

/-- A message in hand goes back to its queue, if that is there. --/
theorem passes_requeue {u : UnackedMessage} (hu : u.message < s.heap.size) :
    Passes c L ⟨some u.message, stale⟩ s ⟨none, stale⟩ (s.rejectIfThere true u) := by
  rw [rejectIfThere]
  cases hq : s.queue u.queue_name with
  | none => exact .of (.drop _)
  | some q =>
    have hmark : Passes c L ⟨some u.message, stale⟩ s ⟨some u.message, stale⟩
        (s.modifyMessage u.message fun m => { m with redelivered := true }) :=
      .does (.of (.touch u.message _ fun _ => rfl)) (by decide)
    dsimp only
    rw [reject, if_pos rfl]
    exact (hmark.trans (.of (.put u.message hu hq))).trans (.does (does_dispatchLocked _) (by decide))

theorem does_rejectUnrequeued {u : UnackedMessage} (hu : u.message < s.heap.size) :
    Does c [.queue] s (s.rejectIfThere false u) := by
  rw [rejectIfThere]
  split
  · exact .refl
  · rw [reject, if_neg Bool.false_ne_true]
    exact does_deadLetter _ _ s _ hu

theorem channel_persistAck (u : UnackedMessage) : (s.persistAck u).channel c num = s.channel c num := by
  rw [channel, connection, connections_persistAck, ← connection, ← channel]

theorem channel_rejectUnacked (requeue : Bool) (s : AmqpServer) (u : UnackedMessage) :
    (rejectUnacked requeue s u).channel c num = s.channel c num := by
  rw [rejectUnacked, channel_of_skeleton (skeleton_rejectIfThere requeue u)]
  split
  · rfl
  · exact channel_persistAck u

section
variable {f : AmqpServer → UnackedMessage → AmqpServer}

/-- One entry is dealt with and erased. --/
theorem passes_settle {tag : Nat} (hchannel : ∀ s u, (f s u).channel c num = s.channel c num)
    (hf : ∀ u, (num, tag, u) ∈ s.holdings c num → Passes c L {} s ⟨none, [(num, tag, u)]⟩ (f s u)) :
    Passes c L {} s {} (settle c num f s tag) := by
  rw [settle]
  split
  · exact .refl
  · rename_i u hu
    obtain ⟨ch, hch, hu⟩ := Option.bind_eq_some_iff.mp hu
    exact (hf u (mem_holdings.mpr ⟨ch, hch, hu⟩)).trans (.of (.erase ((hchannel s u).trans hch) hu))

theorem holdings_settle_subset (hchannel : ∀ s u, (f s u).channel c num = s.channel c num) (tag : Nat) :
    (settle c num f s tag).holdings c num ⊆ s.holdings c num := by
  rw [settle]
  split
  · exact List.Subset.refl _
  · rename_i u _
    rw [holdings, holdings, eraseUnacked, channel_modifyChannel_self, hchannel s u]
    cases s.channel c num with
    | none => exact List.Subset.refl _
    | some ch => exact List.map_subset _ List.filter_sublist.subset

theorem passes_settleAll {A : Holding → Prop} (hchannel : ∀ s u, (f s u).channel c num = s.channel c num)
    (tags : List Nat) (s : AmqpServer) (hA : ∀ e ∈ s.holdings c num, A e)
    (hf : ∀ s, ∀ tag ∈ tags, ∀ u, (num, tag, u) ∈ s.holdings c num → A (num, tag, u) →
      Passes c L {} s ⟨none, [(num, tag, u)]⟩ (f s u)) :
    Passes c L {} s {} (tags.foldl (settle c num f) s) := by
  induction tags generalizing s with
  | nil => exact .refl
  | cons tag tags ih =>
    have hone : Passes c L {} s {} (settle c num f s tag) :=
      passes_settle hchannel fun u hu => hf s tag List.mem_cons_self u hu (hA _ hu)
    refine hone.trans (ih _ (fun e he => hA e (holdings_settle_subset hchannel tag he)) fun s tag htag => ?_)
    exact hf s tag (List.mem_cons_of_mem _ htag)

/-- The entries of a table are dealt with one after the other; the table stays as it is. --/
theorem passes_holdings {A : Holding → Prop} (hchannel : ∀ s u, (f s u).channel c num = s.channel c num)
    (hf : ∀ s stale tag u, ((num, tag, u) :: stale).Subperm (s.holdings c num) → A (num, tag, u) →
      Passes c L ⟨none, stale⟩ s ⟨none, (num, tag, u) :: stale⟩ (f s u)) (hA : ∀ e ∈ s.holdings c num, A e) :
    ∃ stale, stale.Perm (s.holdings c num) ∧ Passes c L {} s ⟨none, stale⟩ ((s.unacked c num).foldl f s) ∧
      ((s.unacked c num).foldl f s).channel c num = s.channel c num := by
  have hfold : ∀ (l stale : List Holding) (s₁ : AmqpServer), s₁.channel c num = s.channel c num →
      (l ++ stale).Perm (s.holdings c num) → (∀ e ∈ l, e.1 = num) →
      Passes c L ⟨none, stale⟩ s₁ ⟨none, l.reverse ++ stale⟩ ((l.map fun e => e.2.2).foldl f s₁) ∧
        ((l.map fun e => e.2.2).foldl f s₁).channel c num = s.channel c num := by
    intro l
    induction l with
    | nil => exact fun _ _ hs₁ _ _ => ⟨.refl, hs₁⟩
    | cons e l ih =>
      intro stale s₁ hs₁ hperm hnum
      obtain ⟨num', tag, u⟩ := e
      obtain rfl : num' = num := hnum _ List.mem_cons_self
      have hnext : (l ++ (num', tag, u) :: stale).Perm (s.holdings c num') := List.perm_middle.trans hperm
      have hsub : ((num', tag, u) :: stale).Subperm (s₁.holdings c num') := by
        rw [holdings_congr hs₁]
        exact (List.sublist_append_right l _).subperm.trans hnext.subperm
      have hone := hf s₁ stale tag u hsub (hA _ (hperm.subset List.mem_cons_self))
      obtain ⟨hrest, hch⟩ := ih _ (f s₁ u) ((hchannel s₁ u).trans hs₁) hnext fun e he => hnum e (List.mem_cons_of_mem _ he)
      rw [List.reverse_cons, List.append_assoc]
      exact ⟨hone.trans hrest, hch⟩
  obtain ⟨hpass, hch⟩ := hfold (s.holdings c num) [] s rfl (by rw [List.append_nil]) fun _ => num_of_holdings
  rw [map_holdings, List.append_nil] at hpass
  rw [map_holdings] at hch
  exact ⟨_, List.reverse_perm _, hpass, hch⟩

end

theorem passes_persistAck {tag : Nat} {u : UnackedMessage} (hu : (num, tag, u) ∈ s.holdings c num) :
    Passes c L {} s ⟨none, [(num, tag, u)]⟩ (s.persistAck u) :=
  .of (.settle num tag u (List.singleton_subperm_iff.mpr hu))

/-- A reject puts the message back without its credit, or it acks it. --/
theorem passes_rejectUnacked {requeue : Bool} {tag : Nat} {u : UnackedMessage} (hu : (num, tag, u) ∈ s.holdings c num)
    (hL : requeue = true → L (.held u)) : Passes c L {} s ⟨none, [(num, tag, u)]⟩ (rejectUnacked requeue s u) := by
  refine .ofValid fun hv => ?_
  have hmsg := lt_of_holdings hv hu
  rw [rejectUnacked]
  cases requeue with
  | true =>
    have hlift : Passes c L {} s ⟨some u.message, [(num, tag, u)]⟩ s :=
      .of (.lift num tag u (List.singleton_subperm_iff.mpr hu) (hL rfl))
    rw [if_pos rfl]
    exact hlift.trans (passes_requeue hmsg)
  | false =>
    rw [if_neg Bool.false_ne_true]
    refine (passes_persistAck hu).trans (.does (does_rejectUnrequeued ?_) (by decide))
    rw [heap_persistAck]
    exact hmsg

/-- `Channel::requeueUnackedMessages` gives the credit back. --/
theorem passes_requeueUnackedMessages : Passes c L {} s {} (s.requeueUnackedMessages c num) := by
  obtain ⟨stale, hperm, hpass, hch⟩ := passes_holdings (c := c) (L := L)
    (f := fun s u => (s.releaseCredit u).rejectIfThere true u) (A := fun _ => True)
    (fun s u => channel_of_skeleton ((skeleton_rejectIfThere true u).trans (skeleton_releaseCredit u)) c num)
    (fun s stale tag u hsub _ => .ofValid fun hv => by
      have hmsg := lt_of_holdings hv (hsub.subset List.mem_cons_self)
      exact (Passes.of (.refund num tag u hsub)).trans (passes_requeue (heap_releaseCredit (s := s) u ▸ hmsg)))
    (s := s) fun _ _ => trivial
  rw [requeueUnackedMessages]
  refine hpass.trans (.of (.clear num ?_))
  rw [holdings_congr hch]
  exact hperm

/-- The entries of a table are put back or dropped, without their credit. --/
theorem passes_forget (requeue : Bool) (hL : ∀ e ∈ s.holdings c num, L (.held e.2.2)) :
    ∃ stale, stale.Perm (s.holdings c num) ∧
      Passes c L {} s ⟨none, stale⟩ (if requeue then (s.unacked c num).foldl (rejectIfThere · true ·) s else s) ∧
      (if requeue then (s.unacked c num).foldl (rejectIfThere · true ·) s else s).channel c num = s.channel c num := by
  cases requeue with
  | true =>
    refine passes_holdings (A := fun e => L (.held e.2.2)) (fun s u => channel_of_skeleton (skeleton_rejectIfThere true u) c num)
      (fun s stale tag u hsub hL => .ofValid fun hv => ?_) hL
    have hmsg := lt_of_holdings hv (hsub.subset List.mem_cons_self)
    exact (Passes.of (.lift num tag u hsub hL)).trans (passes_requeue hmsg)
  | false =>
    have hnone := @passes_holdings c num s L (fun s _ => s) (fun e => L (.held e.2.2))
      (fun s u => rfl) (fun s stale tag u hsub hL => (Passes.of (.lift num tag u hsub hL)).trans (.of (.drop _))) hL
    have hid : ∀ l : List UnackedMessage, l.foldl (fun s _ => s) s = s := by
      intro l
      induction l with
      | nil => rfl
      | cons u l ih => exact ih
    rw [hid] at hnone
    exact hnone

/-! ### The end of channels and connections -/

theorem holdings_clearUnacked : (s.clearUnacked c num).holdings c num = [] := by
  rw [holdings, clearUnacked, channel_modifyChannel_self]
  cases s.channel c num <;> rfl

theorem passes_closeChannel (num : UInt16) :
    Passes c L {} s {} (s.closeChannel c num) ∧ (s.closeChannel c num).holdings c num = [] := by
  rw [closeChannel, removeAllConsumers]
  split
  · rename_i hnone
    exact ⟨.of (.setClosed num), by rw [holdings, hnone]⟩
  · rename_i ch hch
    dsimp only
    refine ⟨?_, holdings_clearUnacked⟩
    have hremove : ∀ s₁ : AmqpServer, Does c [.unregister] s₁
        (ch.consumers.entries.foldl (fun s (e : Bytes × Ref) => s.removeConsumer (s.consumer e.2).queue_name e.1) s₁) :=
      fun s₁ => Does.foldl (fun _ _ => .of (.removeConsumer ..)) _ _
    have hunmap : ∀ s₁ : AmqpServer, Does c [.unregister] s₁ (s₁.modifyChannel c num fun ch => { ch with consumers := ∅ }) :=
      fun s₁ => .of (.unmapConsumers num)
    exact (Passes.of (.setClosed num)).trans
      ((Passes.does ((hremove _).andThen (hunmap _)) (by decide)).trans passes_requeueUnackedMessages)

theorem passes_cleanupChannel : Passes c L {} s {} (s.cleanupChannel c num) := by
  rw [cleanupChannel]
  split
  · exact .refl
  · obtain ⟨hpass, hnone⟩ := passes_closeChannel (c := c) (L := L) (s := s) num
    exact hpass.trans (.of (.dropChannel num hnone))

theorem passes_closeChannels (l : List UInt16) (s : AmqpServer) (hs : ∀ num, num ∉ l → s.holdings c num = []) :
    Passes c L {} s {} (l.foldl (closeChannel c) s) ∧ ∀ num, (l.foldl (closeChannel c) s).holdings c num = [] := by
  induction l generalizing s with
  | nil => exact ⟨.refl, fun num => hs num List.not_mem_nil⟩
  | cons num l ih =>
    obtain ⟨hpass, hnone⟩ := passes_closeChannel (c := c) (L := L) (s := s) num
    obtain ⟨hrest, hall⟩ := ih (s.closeChannel c num) fun num' hnum' => by
      by_cases heq : num' = num
      · rw [heq]
        exact hnone
      · rw [holdings_congr (channel_closeChannel heq)]
        exact hs num' fun hmem => (List.mem_cons.mp hmem).elim heq hnum'
    exact ⟨hpass.trans hrest, hall⟩

theorem passes_cleanupAllChannels : Passes c L {} s {} (s.cleanupAllChannels c) := by
  rw [cleanupAllChannels]
  cases hconn : s.connection c with
  | none => exact .refl
  | some conn =>
    obtain ⟨hpass, hall⟩ := passes_closeChannels (c := c) (L := L) conn.channels.keys s fun num hnum => by
      have hnone : conn.channels.lookup num = none := by
        rw [← Option.not_isSome_iff_eq_none, Option.isSome_iff_exists]
        exact fun hsome => hnum (Assoc.mem_keys.mpr hsome)
      rw [holdings, channel, hconn, Option.bind_some, hnone]
    exact hpass.trans (.of (.dropChannels hall))

theorem passes_shutdown : Passes c L {} s {} (s.shutdown c) := by
  rw [shutdown]
  split
  · exact .refl
  · split
    · exact .refl
    · exact ((Passes.of .shut).trans passes_cleanupAllChannels).trans (.does does_removeConnectionQueues (by decide))

/-! ### Deliveries -/

theorem passes_runTask (hL : ∀ conn t rest, s.connection c = some conn → conn.strand = t :: rest →
      (∀ ch, s.lockChannel c t = some ch → ch.isOpen = true → ch.consumers.lookup t.tag = none) → L (.posted t)) :
    Passes c L {} s {} (s.runTask c) := by
  rw [runTask]
  cases hconn : s.connection c with
  | none => exact .refl
  | some conn =>
    rw [Option.map_some]
    cases hstrand : conn.strand with
    | nil => exact .refl
    | cons t rest =>
      have hlock : (s.popTask c rest).lockChannel c t = s.lockChannel c t := by
        rw [lockChannel, channel_of_skeleton (skeleton_popTask rest), ← lockChannel]
      have hsend : ∀ (s₁ : AmqpServer) args, Passes c L {} s₁ {}
          ((s₁.sendMethodFrame c t.channel_id class_id.BASIC basic_method.DELIVER args).sendContentFrames c t.channel_id
            class_id.BASIC t.props t.body) := fun s₁ args =>
        .does ((does_sendMethodFrame (k := .deliver) _ _ _ rfl).trans (does_sendContentFrames ..)) (by decide)
      dsimp only
      rw [← popTask, hlock]
      cases hch : (s.lockChannel c t).filter Channel.isOpen with
      | none =>
        refine .of (.discard hconn hstrand (hL conn t rest hconn hstrand fun ch hlocked hopen => ?_))
        rw [hlocked, Option.filter_some_pos hopen] at hch
        cases hch
      | some ch =>
        obtain ⟨hlocked, hopen⟩ := Option.filter_eq_some_iff.mp hch
        dsimp only
        rw [deliverMessage]
        cases hk : ch.consumers.lookup t.tag with
        | none =>
          have hgone : ∀ ch', s.lockChannel c t = some ch' → ch'.isOpen = true → ch'.consumers.lookup t.tag = none := by
            intro ch' hch' _
            obtain rfl := Option.some.inj (hlocked.symm.trans hch')
            exact hk
          have hpop : Passes c L {} s {} ((s.popTask c rest).takeTag c t.channel_id) :=
            (Passes.of (.discard hconn hstrand (hL conn t rest hconn hstrand hgone))).trans (.of (.takeTag _))
          exact hpop.trans (hsend ..)
        | some k =>
          cases hack : (s.consumer k).no_ack with
          | true =>
            have hpop : Passes c L {} s {}
                (((s.popTask c rest).record [.removed (s.origin t.msg) t.queue]).takeTag c t.channel_id) :=
              (Passes.of (.deliverNoAck hconn hstrand hlocked hk hack)).trans (.of (.takeTag _))
            have heq : ((s.popTask c rest).consumer k).no_ack = true := hack
            dsimp only
            rw [if_pos heq]
            exact hpop.trans (hsend ..)
          | false =>
            have heq : ¬((s.popTask c rest).consumer k).no_ack = true := by
              rw [Bool.not_eq_true]
              exact hack
            dsimp only
            rw [if_neg heq]
            exact (Passes.of (.deliver hconn hstrand hlocked hk hack)).trans (hsend ..)

theorem passes_get (name : Bytes) : Passes c L {} s ⟨(s.get name).1, []⟩ (s.get name).2 := by
  refine .ofValid fun hv => ?_
  have hexp : Passes c L {} s {} (s.collectExpired name).2 := .does (does_collectExpired name) (by decide)
  have hdead : ∀ d : Desk, Passes c L d ((s.collectExpired name).2.modifyQueue name fun q => { q with messages := q.messages.tail })
      d ((s.collectExpired name).1.foldl (deadLetter name (ascii "expired"))
        ((s.collectExpired name).2.modifyQueue name fun q => { q with messages := q.messages.tail })) := by
    intro d
    refine .does (@Does.foldl_refs _ _ _ _ id (fun s r hr => does_deadLetter _ _ s r hr) _ _ fun r hr => ?_) (by decide)
    obtain ⟨q, hq, hmem⟩ := mem_collectExpired hr
    change r < (s.collectExpired name).2.heap.size
    rw [heap_collectExpired]
    exact (hv.queue hq).messages r hmem
  rw [get]
  dsimp only
  generalize (s.collectExpired name).1 = dlq at hdead ⊢
  generalize (s.collectExpired name).2 = s₁ at hexp hdead ⊢
  refine (hexp.trans ?_).trans (hdead _)
  cases hhead : (s₁.queue name).bind fun q => q.messages.head? with
  | none =>
    have hsame : (s₁.modifyQueue name fun q => { q with messages := q.messages.tail }) = s₁ := by
      rw [modifyQueue, Assoc.modify_eq_self]
      intro q hq
      change s₁.queue name = some q at hq
      rw [hq, Option.bind_some, List.head?_eq_none_iff] at hhead
      rw [hhead, List.tail_nil, ← hhead]
    rw [hsame]
    exact .refl
  | some r =>
    obtain ⟨q, hq, hr⟩ := Option.bind_eq_some_iff.mp hhead
    obtain ⟨rest, hm⟩ := List.head?_eq_some_iff.mp hr
    exact .of (.take hq hm)

theorem passes_handGet {ch : Channel} (hch : s.channel c num = some ch) (queue : Bytes) (noAck : Bool) {r : Ref}
    (hr : r < s.heap.size) : Passes c L ⟨some r, []⟩ s {} (s.handGet c num ch queue noAck r) := by
  have hsent : ∀ s₁ : AmqpServer, Passes c L {} s₁ {} (s₁.sendGetOk c num queue ch.nextDeliveryTag (s.message r)) :=
    fun s₁ => .does ((does_sendMethodFrame (k := .output) _ _ _ rfl).trans (does_sendContentFrames ..)) (by decide)
  rw [handGet]
  split
  · exact ((Passes.of (.hand r queue hr)).trans (.of (.takeTag num))).trans (hsent _)
  · have hheld : Passes c L ⟨some r, []⟩ s {}
        ((s.hold c num { message := r, queue_name := queue, consumer := none }).takeTag c num) :=
      .of (.keep num { message := r, queue_name := queue, consumer := none } hr hch rfl)
    exact hheld.trans (hsent _)

theorem passes_handleBasicGet (buf : Buffer) : Passes c L {} s {} (outcome (s.handleBasicGet c num buf)) := by
  refine .ofValid fun hv => outcome_withArgs .refl ?_
  rintro ⟨queue, bits⟩
  have hget := passes_get (c := c) (L := L) (s := s) queue
  have hheap := ((does_get (c := c) (s := s) queue).moves hv).heap_le
  have hlt : ∀ r, (s.get queue).1 = some r → r < s.heap.size := fun r => lt_of_get hv
  have hskeleton := channel_of_skeleton (skeleton_get (s := s) queue) c num
  dsimp only
  split
  · exact .does (does_sendChannelClose ..) (by decide)
  · exact .refl
  · rename_i ch _ hch
    split
    · rename_i heq
      rw [heq] at hget
      exact hget.trans (.does (does_sendMethodFrame (k := .output) _ _ _ rfl) (by decide))
    · rename_i r s' heq
      rw [heq] at hget hlt hheap hskeleton
      exact hget.trans (passes_handGet (hskeleton.trans hch) queue _ ((hlt r rfl).trans_le hheap))

/-! ### Consumers -/

/-- A consumer object is made, and the channel has it under its tag. --/
def register (c : Nat) (num : UInt16) (s : AmqpServer) (k : Consumer) (counter : Nat) : AmqpServer :=
  ({ s with consumerHeap := s.consumerHeap.alloc k }).modifyChannel c num fun ch =>
    { ch with consumerTagCounter := counter, consumers := ch.consumers.insert k.tag s.consumerHeap.size }

/-- A queue gets a consumer. --/
def attach (name : Bytes) (k : Ref) (s : AmqpServer) : AmqpServer :=
  s.modifyQueue name fun q => { q with consumers := q.consumers ++ [k] }

theorem consume_eq (ch : Channel) (queue tag : Bytes) (bits : UInt8) : s.consume c num ch queue tag bits =
    (if hasBit bits 0x08 then s.register c num (newConsumer c num ch queue (consumerTag c num ch tag) bits)
        (if tag = [] then ch.consumerTagCounter + 1 else ch.consumerTagCounter)
      else (s.register c num (newConsumer c num ch queue (consumerTag c num ch tag) bits)
        (if tag = [] then ch.consumerTagCounter + 1 else ch.consumerTagCounter)).sendMethodFrame c num class_id.BASIC
          basic_method.CONSUME_OK (writeShortString (consumerTag c num ch tag))).addConsumer queue s.consumerHeap.size := rfl

/-- What comes after the registration of a consumer: it is announced, its queue gets it, and the queue dispatches. --/
theorem passes_consume (ch : Channel) (queue tag : Bytes) (bits : UInt8) :
    ∃ counter s₁,
      Passes c L {} (s.register c num (newConsumer c num ch queue (consumerTag c num ch tag) bits) counter) {} s₁ ∧
      s₁.queues = s.queues ∧
      s₁.consumerHeap = s.consumerHeap.alloc (newConsumer c num ch queue (consumerTag c num ch tag) bits) ∧
      Passes c L {} (s₁.attach queue s.consumerHeap.size) {} (s.consume c num ch queue tag bits) ∧
      (s.consume c num ch queue tag bits).skeleton = (s₁.attach queue s.consumerHeap.size).skeleton := by
  have hadd : ∀ s₁ : AmqpServer, Passes c L {} (s₁.attach queue s.consumerHeap.size) {} (s₁.addConsumer queue s.consumerHeap.size) :=
    fun s₁ => .does (does_dispatchLocked queue) (by decide)
  refine ⟨if tag = [] then ch.consumerTagCounter + 1 else ch.consumerTagCounter, ?_⟩
  rw [consume_eq]
  generalize (if tag = [] then ch.consumerTagCounter + 1 else ch.consumerTagCounter) = counter
  split
  · exact ⟨_, .refl, rfl, rfl, hadd _, skeleton_dispatchLocked queue⟩
  · refine ⟨_, .does (does_sendMethodFrame (k := .output) class_id.BASIC basic_method.CONSUME_OK _ rfl) (by decide), rfl, rfl,
      hadd _, skeleton_dispatchLocked queue⟩

end AmqpServer
end Broko.Broker
