import Broko.Theorems.Deliveries

/-! Prefetch credit. The counter of a consumer goes up in its queue when a message is handed over, and down in its channel
    when the delivery is settled. It is followed step by step through every handler, and event by event through every run
    in which no tag is used twice on a channel. -/

namespace Broko.Broker
open Amqp Storage MessageStore

/-- The entries on the desk that are deliveries of a consumer. --/
def Desk.early (k : Ref) (d : Desk) : Nat := d.stale.countP fun e => decide (e.2.2.consumer = some k)

/-- What is lost is a delivery of the consumer. --/
def Loss.Of (home : Home) (k : Ref) : Loss → Prop
  | .held u => u.consumer = some k
  | .posted t => t.home = home

namespace AmqpServer

variable {c : Nat} {num : UInt16} {s s' : AmqpServer} {homes : List Home} {home : Home} {k : Ref} {L : Loss → Prop}
  {stale : List Holding}

/-! ### Deliveries and tables -/

theorem early_cons (hand hand' : Option Ref) (tag : Nat) (u : UnackedMessage) :
    Desk.early k ⟨hand, (num, tag, u) :: stale⟩ =
      Desk.early k ⟨hand', stale⟩ + if u.consumer = some k then 1 else 0 := by
  rw [Desk.early, Desk.early, List.countP_cons]
  simp only [decide_eq_true_eq]

theorem held_eq_countP {ch : Channel} (hch : s.channel c num = some ch) :
    ch.held k = (s.holdings c num).countP fun e => decide (e.2.2.consumer = some k) := by
  have hsum : ∀ l : List (Nat × UnackedMessage), (l.map fun e => if e.2.consumer = some k then 1 else 0).sum =
      l.countP fun e => decide (e.2.consumer = some k) := by
    intro l
    induction l with
    | nil => rfl
    | cons e l ih =>
      rw [List.map_cons, List.sum_cons, ih, List.countP_cons, Nat.add_comm]
      simp only [decide_eq_true_eq]
  rw [Channel.held, Assoc.total, hsum, holdings, hch, List.countP_map]
  rfl

/-- The entries on the desk and one more are deliveries that are out. --/
theorem early_lt {tag : Nat} {u : UnackedMessage} (hsub : ((num, tag, u) :: stale).Subperm (s.holdings c num))
    (hu : u.consumer = some k) : Desk.early k ⟨none, stale⟩ < s.deliveries home k := by
  cases hch : s.channel c num with
  | none =>
    have hmem := hsub.subset List.mem_cons_self
    rw [holdings, hch] at hmem
    cases hmem
  | some ch =>
    have hcount := hsub.countP_le fun e => decide (e.2.2.consumer = some k)
    rw [← held_eq_countP hch, List.countP_cons, if_pos (by simpa using hu)] at hcount
    exact hcount.trans (held_le_deliveries hch)

theorem deliveries_popTask (home : Home) (k : Ref) {conn : Connection} {t : DeliverTask} {rest : List DeliverTask}
    (hconn : s.connection c = some conn) (hstrand : conn.strand = t :: rest) :
    (s.popTask c rest).deliveries home k + (if t.home = home then 1 else 0) = s.deliveries home k := by
  have hcount : conn.strand.countP (fun t => decide (t.home = home)) =
      rest.countP (fun t => decide (t.home = home)) + if t.home = home then 1 else 0 := by
    rw [hstrand, List.countP_cons]
    simp only [decide_eq_true_eq]
  have htotal := deliveries_modifyConnection home k (f := fun conn => { conn with strand := rest }) hconn
  rw [← popTask, Connection.outstanding, Connection.outstanding] at htotal
  dsimp only at htotal
  omega

/-- A message is held under a tag that was not in use. --/
theorem deliveries_hold (home : Home) (k : Ref) (hv : Valid s) {ch : Channel} (hch : s.channel c num = some ch)
    (u : UnackedMessage) :
    ((s.hold c num u).takeTag c num).deliveries home k = s.deliveries home k + if u.consumer = some k then 1 else 0 := by
  have htag : ((s.hold c num u).takeTag c num).deliveries home k = (s.hold c num u).deliveries home k :=
    deliveries_channelSame fun _ _ => rfl
  have hfree : ch.unackedMessages.lookup ch.nextDeliveryTag = none := by
    rw [← Option.not_isSome_iff_eq_none, Option.isSome_iff_exists]
    rintro ⟨u', hu'⟩
    exact Nat.lt_irrefl _ ((hv.channel hch).unacked _ u' hu').1
  have hheld : ({ ch with unackedMessages := ch.unackedMessages.insert ch.nextDeliveryTag u } : Channel).held k =
      (if u.consumer = some k then 1 else 0) + ch.held k := by
    rw [Channel.held, Assoc.total_insert, Assoc.erase_eq_self hfree, Channel.held]
  have htotal := deliveries_modifyChannel home k (f := fun ch =>
    { ch with unackedMessages := ch.unackedMessages.insert ch.nextDeliveryTag u }) hch
  rw [hheld, ← hold] at htotal
  omega

/-- What the channels of a connection hold, with one of them apart. --/
theorem total_channels (k : Ref) (num : UInt16) {conn : Connection} (hconn : s.connection c = some conn) :
    conn.channels.total (fun _ => Channel.held k) =
      (s.holdings c num).countP (fun e => decide (e.2.2.consumer = some k)) +
        (conn.channels.erase num).total fun _ => Channel.held k := by
  cases hlook : conn.channels.lookup num with
  | none =>
    have hnone : s.channel c num = none := by rw [channel, hconn, Option.bind_some, hlook]
    rw [holdings, hnone, Assoc.erase_eq_self hlook]
    exact (Nat.zero_add _).symm
  | some ch =>
    have hch : s.channel c num = some ch := by rw [channel, hconn, Option.bind_some, hlook]
    rw [← held_eq_countP hch]
    exact Assoc.total_eq_add hlook

theorem holdings_of_none (h : s.connection c = none) (num : UInt16) : s.holdings c num = [] := by
  rw [holdings, channel, h]
  rfl

theorem modifyConnection_of_none {f : Connection → Connection} (h : s.connection c = none) : s.modifyConnection c f = s := by
  rw [modifyConnection, Assoc.modify_of_lookup_eq_none h]

theorem deliveries_openChannel (home : Home) (k : Ref) (num : UInt16) :
    (s.openChannel c num).deliveries home k +
      (s.holdings c num).countP (fun e => decide (e.2.2.consumer = some k)) = s.deliveries home k := by
  let s₁ : AmqpServer := { s with nextChannel := s.nextChannel + 1 }
  have hs₁ : s₁.deliveries home k = s.deliveries home k := rfl
  cases hconn : s.connection c with
  | none =>
    have hnone : s₁.connection c = none := hconn
    rw [holdings_of_none hconn, openChannel]
    exact (congrArg (deliveries home k) (modifyConnection_of_none (s := s₁) hnone)).trans hs₁
  | some conn =>
    have htotal := deliveries_modifyConnection (s := s₁) home k (f := fun conn =>
      { conn with channels := conn.channels.insert num { ref := s.nextChannel, frameMax := conn.frameMax, isOpen := true } }) hconn
    have hinsert := Assoc.total_insert (w := fun _ => Channel.held k) conn.channels num
      { ref := s.nextChannel, frameMax := conn.frameMax, isOpen := true }
    have hapart := total_channels k num hconn
    have hnew : Channel.held k { ref := s.nextChannel, frameMax := conn.frameMax, isOpen := true } = 0 := rfl
    rw [Connection.outstanding, Connection.outstanding] at htotal
    dsimp only at htotal hinsert
    rw [hinsert, hnew] at htotal
    change (s.openChannel c num).deliveries home k + _ = _ at htotal
    omega

/-- A channel without deliveries goes. --/
theorem deliveries_dropChannel (home : Home) (k : Ref) (hnone : s.holdings c num = []) :
    (s.modifyConnection c fun conn => { conn with channels := conn.channels.erase num }).deliveries home k =
      s.deliveries home k := by
  refine deliveries_connectionSame fun conn hconn => ?_
  have hapart := total_channels k num hconn
  rw [hnone, List.countP_nil, Nat.zero_add] at hapart
  rw [Connection.outstanding, Connection.outstanding, hapart]

theorem deliveries_dropChannels (home : Home) (k : Ref) (hnone : ∀ num, s.holdings c num = []) :
    (s.modifyConnection c fun conn => { conn with channels := ∅ }).deliveries home k = s.deliveries home k := by
  refine deliveries_connectionSame fun conn hconn => ?_
  have hzero : conn.channels.total (fun _ => Channel.held k) = 0 := by
    refine Assoc.total_eq_zero fun num ch hlook => ?_
    have hch : s.channel c num = some ch := by rw [channel, hconn, Option.bind_some, hlook]
    rw [held_eq_countP hch, hnone num, List.countP_nil]
  rw [Connection.outstanding, Connection.outstanding, hzero]
  rfl

/-! ### Books -/

namespace Balanced
variable {early lost : Nat}

/-- The deliveries and the entries that are dealt with go together. --/
theorem settled {n : Nat} (h : Balanced home k (early + n) lost s) (hterms : (s'.consumer k).terms = (s.consumer k).terms)
    (hd : s'.deliveries home k + n = s.deliveries home k) : Balanced home k early lost s' := by
  simp only [Consumer.terms, Prod.mk.injEq] at hterms
  obtain ⟨hno, hprefetch, hflight⟩ := hterms
  intro hack
  refine Credit.Books.settle (n := n) ?_
  rw [hprefetch, hflight, hd]
  exact h (hno.symm.trans hack)

/-- Deliveries go without their credit. --/
theorem lose {n : Nat} (h : Balanced home k early lost s) (hterms : (s'.consumer k).terms = (s.consumer k).terms)
    (hd : s'.deliveries home k + n = s.deliveries home k) : Balanced home k early (lost + n) s' := by
  simp only [Consumer.terms, Prod.mk.injEq] at hterms
  obtain ⟨hno, hprefetch, hflight⟩ := hterms
  intro hack
  refine Credit.Books.lose ?_
  rw [hprefetch, hflight, hd]
  exact h (hno.symm.trans hack)

theorem persistAck {u : UnackedMessage} (h : Balanced home k early lost (s.releaseCredit u)) :
    Balanced home k early lost (s.persistAck u) := by
  have hsettled : Balanced home k early lost ((s.releaseCredit u).record [.settled (s.origin u.message) u.queue_name]) :=
    h.congr rfl rfl
  rw [AmqpServer.persistAck]
  split
  · exact hsettled
  · split
    · exact hsettled.congr rfl rfl
    · exact hsettled

/-- The credit of an entry comes back, and the entry stays on the desk. --/
theorem refund {tag : Nat} {u : UnackedMessage} (h : Balanced home k (Desk.early k ⟨none, stale⟩) lost s)
    (hsub : ((num, tag, u) :: stale).Subperm (s.holdings c num)) (hand : Option Ref) :
    Balanced home k (Desk.early k ⟨hand, (num, tag, u) :: stale⟩) lost (s.releaseCredit u) := by
  rw [early_cons hand none]
  by_cases hu : u.consumer = some k
  · rw [if_pos hu]
    exact h.releaseCredit hu (early_lt hsub hu)
  · rw [if_neg hu]
    exact h.releaseCredit_of_ne hu

theorem clear (h : Balanced home k (Desk.early k ⟨none, stale⟩) lost s) (hall : stale.Perm (s.holdings c num))
    (hterms : (s'.consumer k).terms = (s.consumer k).terms)
    (hd : s'.deliveries home k + (s.holdings c num).countP (fun e => decide (e.2.2.consumer = some k)) = s.deliveries home k) :
    Balanced home k (Desk.early k ⟨none, []⟩) lost s' := by
  refine Balanced.settled (n := Desk.early k ⟨none, stale⟩) ?_ hterms ?_
  · rw [Desk.early, List.countP_nil, Nat.zero_add]
    exact h
  · rw [Desk.early, hall.countP_eq]
    exact hd

theorem deliveries_clearUnacked :
    (s.clearUnacked c num).deliveries home k + (s.holdings c num).countP (fun e => decide (e.2.2.consumer = some k)) =
      s.deliveries home k := by
  cases hch : s.channel c num with
  | none =>
    rw [clearUnacked, modifyChannel_of_none hch, holdings, hch]
    rfl
  | some ch =>
    rw [← held_eq_countP hch]
    exact deliveries_modifyChannel home k hch

theorem deliveries_eraseUnacked {ch : Channel} {tag : Nat} {u : UnackedMessage} (hch : s.channel c num = some ch)
    (hu : ch.unackedMessages.lookup tag = some u) :
    (s.eraseUnacked c num tag).deliveries home k + (if u.consumer = some k then 1 else 0) = s.deliveries home k := by
  have hheld : ch.held k = (if u.consumer = some k then 1 else 0) +
      ({ ch with unackedMessages := ch.unackedMessages.erase tag } : Channel).held k :=
    Assoc.total_eq_add (w := fun _ (u : UnackedMessage) => if u.consumer = some k then 1 else 0) hu
  have htotal := deliveries_modifyChannel home k (f := fun ch =>
    { ch with unackedMessages := ch.unackedMessages.erase tag }) hch
  rw [← eraseUnacked] at htotal
  omega

end Balanced

/-- A posted delivery is one of the consumer that the channel has under its tag. --/
theorem home_of_lockChannel (hw : Wired homes s) (hnd : homes.Nodup) (hhome : homes[k]? = some home) {t : DeliverTask}
    {ch : Channel} {k' : Ref} (hch : s.lockChannel c t = some ch) (hk' : ch.consumers.lookup t.tag = some k') :
    t.home = home ↔ k' = k := by
  obtain ⟨hchannel, href⟩ := Option.filter_eq_some_iff.mp hch
  have hmade := (hw.channel hchannel).consumers t.tag k' hk'
  rw [of_decide_eq_true href] at hmade
  constructor
  · intro heq
    have hsame : homes[k']? = homes[k]? := hmade.trans ((congrArg some heq).trans hhome.symm)
    exact (List.getElem?_inj (List.getElem?_eq_some_iff.mp hmade).1 hnd).mp hsame
  · rintro rfl
    exact Option.some.inj (hmade.symm.trans hhome)

/-- One step of a handler. A delivery is lost only where the step says so. --/
theorem Balanced.flow {lost : Nat} {d d' : Desk} (h : Balanced home k (d.early k) lost s) (hv : Valid s) (hw : Wired homes s)
    (hnd : homes.Nodup) (hhome : homes[k]? = some home) (hflow : Flow c L d s d' s') :
    ∃ more, Balanced home k (d'.early k) (lost + more) s' ∧ ((∀ x, L x → ¬x.Of home k) → more = 0) := by
  have hstay : ∀ {s' : AmqpServer} {d' : Desk}, Balanced home k (d'.early k) lost s' →
      ∃ more, Balanced home k (d'.early k) (lost + more) s' ∧ ((∀ x, L x → ¬x.Of home k) → more = 0) :=
    fun h => ⟨0, h, fun _ => rfl⟩
  cases hflow with
  | move hm hkind => exact hstay (h.move hv hw hnd hhome hm hkind)
  | takeTag num => exact hstay (h.channelSame fun _ _ => rfl)
  | setClosed num => exact hstay (h.channelSame fun _ _ => rfl)
  | shut => exact hstay (h.connectionSame fun _ _ => rfl)
  | settle num tag u hsub => exact hstay (h.refund hsub none).persistAck
  | refund num tag u hsub => exact hstay (h.refund hsub _)
  | lift num tag u hsub hL =>
    rw [early_cons _ none]
    by_cases hu : u.consumer = some k
    · refine ⟨1, fun hack => ?_, fun hspared => absurd hu (hspared _ hL)⟩
      rw [if_pos hu]
      exact (h hack).writeOff
    · refine ⟨0, ?_, fun _ => rfl⟩
      rw [if_neg hu]
      exact h
  | take hq hm => exact hstay (h.congr rfl rfl)
  | put r hr hq => exact hstay (h.congr rfl rfl)
  | drop r => exact hstay h
  | keep num u hu hch hk =>
    refine hstay (h.of_eq rfl ?_)
    rw [deliveries_hold home k hv hch, hk, if_neg nofun, Nat.add_zero]
  | hand r name hr => exact hstay (h.congr rfl rfl)
  | @erase stale _ ch num tag u hch hu =>
    rw [early_cons none none] at h
    exact hstay (h.settled rfl (deliveries_eraseUnacked hch hu))
  | clear num hall => exact hstay (h.clear hall rfl deliveries_clearUnacked)
  | openChannel num hnum hall => exact hstay (h.clear hall rfl (deliveries_openChannel home k num))
  | dropChannel num hnone => exact hstay (h.of_eq rfl (deliveries_dropChannel home k hnone))
  | dropChannels hnone => exact hstay (h.of_eq rfl (deliveries_dropChannels home k hnone))
  | @deliver _ _ conn t rest ch k' hconn hstrand hch hk' hack =>
    have hown := home_of_lockChannel hw hnd hhome hch hk'
    have hpop := deliveries_popTask home k hconn hstrand
    have hvalid : Valid (s.popTask c rest) := hv.move (.popTask hconn hstrand)
    have hchannel : (s.popTask c rest).channel c t.channel_id = some ch := by
      rw [channel_of_skeleton (skeleton_popTask rest)]
      exact (Option.filter_eq_some_iff.mp hch).1
    refine hstay (h.of_eq rfl ?_)
    rw [deliveries_hold home k hvalid hchannel, ← hpop]
    simp only [Option.some.injEq, hown]
  | @deliverNoAck _ _ conn t rest ch k' hconn hstrand hch hk' hack =>
    by_cases heq : t.home = home
    · obtain rfl := (home_of_lockChannel hw hnd hhome hch hk').mp heq
      refine hstay fun hno => ?_
      rw [show ((s.popTask c rest).record _).consumer k' = s.consumer k' from rfl, hack] at hno
      cases hno
    · have hpop := deliveries_popTask home k hconn hstrand
      rw [if_neg heq, Nat.add_zero] at hpop
      exact hstay (h.of_eq rfl hpop)
  | @discard _ _ conn t rest hconn hstrand hL =>
    exact ⟨_, h.lose rfl (deliveries_popTask home k hconn hstrand), fun hspared => if_neg (hspared _ hL)⟩

end AmqpServer
end Broko.Broker
