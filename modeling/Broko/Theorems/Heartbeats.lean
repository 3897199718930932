import Mathlib.Tactic.Ring
import Broko.Sdk.Heartbeat
import Broko.Theorems.Connecting

/-! Heartbeats. Where both sides have agreed on an interval that the client keeps to, neither takes the other for dead, as
    long as timers and the network are not too late; a client whose interval is longer than the broker's patience is
    cut off. -/

namespace Broko.Sdk
open Amqp Broker

namespace Vigil

variable {δ : Delays} {p m lag : Nat} {v : Vigil}

/-! ### Both are heard -/

/-- By when the next of what one side sends is read, where its timer is due at `next`. --/
def readBy (δ : Delays) (next : Nat) (flight : List Nat) : Nat := flight.headD (next + δ.slack) + δ.delay

/-- To send does not put it off. --/
theorem readBy_send {next now next' : Nat} {flight : List Nat} (h : now ≤ next + δ.slack) :
    readBy δ next' (flight ++ [now]) ≤ readBy δ next flight := by
  cases flight with
  | nil => exact Nat.add_le_add_right h δ.delay
  | cons sent rest => exact le_rfl

/-- After a read, and so at any time, it is at most a period and what can be late. --/
theorem readBy_le {next now period : Nat} {flight : List Nat} (hflight : ∀ sent ∈ flight, sent ≤ now)
    (hnext : next ≤ now + period) : readBy δ next flight ≤ now + period + δ.slack + δ.delay := by
  cases flight with
  | nil => exact Nat.add_le_add_right (Nat.add_le_add_right hnext _) _
  | cons sent rest =>
    have hsent := hflight sent List.mem_cons_self
    change sent + δ.delay ≤ _
    omega

/-- It is not over yet. --/
theorem le_readBy {next now : Nat} {flight : List Nat} (hflight : ∀ sent ∈ flight, now ≤ sent + δ.delay)
    (hnext : now ≤ next + δ.slack) : now ≤ readBy δ next flight := by
  cases flight with
  | nil => exact hnext.trans (Nat.le_add_right _ _)
  | cons sent rest => exact hflight sent List.mem_cons_self

/-- Both sides are up, with the timers of the client due at `next` and `check`, and each hears from the other before it
    loses patience. --/
structure Kept (δ : Delays) (p m : Nat) (v : Vigil) (next check : Nat) : Prop where
  serverUp : v.server.closed = false
  clientUp : v.client.closed = false
  period : v.server.period = p
  ms : v.client.ms = m
  clientTimer : v.client.heartbeatTimer = some next
  clientCheck : v.client.heartbeatCheckTimer = some check
  punctual : v.Punctual δ v.now
  sentToServer : ∀ sent ∈ v.toServer, sent ≤ v.now
  sentToClient : ∀ sent ∈ v.toClient, sent ≤ v.now
  nextClient : next ≤ v.now + m
  nextServer : v.server.heartbeatTimer ≤ v.now + p
  heard : v.server.receivedData = true ∨ readBy δ next v.toServer < v.server.heartbeatCheckTimer
  fresh : readBy δ v.server.heartbeatTimer v.toClient ≤ v.client.lastDataAt + 2 * m

/-- The intervals leave room for what can be late. --/
structure Patient (δ : Delays) (p m : Nat) : Prop where
  le : p ≤ m
  lt : m + δ.slack + δ.delay < 2 * p

theorem forall_mem_concat {P : Nat → Prop} {l : List Nat} {a : Nat} (hl : ∀ x ∈ l, P x) (ha : P a) : ∀ x ∈ l ++ [a], P x := by
  intro x hx
  rcases List.mem_append.mp hx with hx | hx
  · exact hl x hx
  · exact List.mem_singleton.mp hx ▸ ha

theorem Kept.step {next check : Nat} (h : Kept δ p m v next check) (hp : Patient δ p m) (event : VigilEvent) :
    ∃ next' check', Kept δ p m (v.step δ event) next' check' := by
  have hserver : v.now ≤ readBy δ next v.toServer :=
    le_readBy (h.punctual.toServer h.serverUp) (h.punctual.clientTimer next h.clientTimer)
  have hclient : v.now ≤ readBy δ v.server.heartbeatTimer v.toClient :=
    le_readBy (h.punctual.toClient h.clientUp) (h.punctual.serverTimer h.serverUp)
  have hle := hp.le
  have hlt := hp.lt
  cases event with
  | elapse d =>
    rw [Vigil.step]
    split
    · rename_i hpunctual
      exact ⟨next, check, { h with
        punctual := ⟨hpunctual.1, hpunctual.2, hpunctual.3, hpunctual.4, hpunctual.5, hpunctual.6⟩
        sentToServer := fun sent hsent => (h.sentToServer sent hsent).trans (Nat.le_add_right _ _)
        sentToClient := fun sent hsent => (h.sentToClient sent hsent).trans (Nat.le_add_right _ _)
        nextClient := h.nextClient.trans (by dsimp only; omega)
        nextServer := h.nextServer.trans (by dsimp only; omega) }⟩
    · exact ⟨next, check, h⟩
  | serverTimer =>
    rw [Vigil.step]
    split
    · rw [Broker.Heartbeat.onHeartbeatTimer, if_neg (by rw [h.serverUp]; decide)]
      dsimp only [List.map]
      have hnext : (v.server.sendHeartbeat v.now).heartbeatTimer = v.now + p := congrArg (v.now + ·) h.period
      exact ⟨next, check, { h with
        punctual := { h.punctual with
          serverTimer := fun _ => ((Nat.le_add_right v.now p).trans hnext.ge).trans (Nat.le_add_right _ _)
          toClient := fun hup => forall_mem_concat (h.punctual.toClient hup) (Nat.le_add_right _ _) }
        sentToClient := forall_mem_concat h.sentToClient le_rfl
        nextServer := hnext.le
        fresh := (readBy_send (h.punctual.serverTimer h.serverUp)).trans h.fresh }⟩
    · exact ⟨next, check, h⟩
  | serverCheck =>
    rw [Vigil.step]
    split
    · rename_i hdue
      -- A frame that has not come by now would be late.
      have hreceived : v.server.receivedData = true := h.heard.resolve_right fun hlate => by omega
      rw [Broker.Heartbeat.onHeartbeatCheckTimer, if_neg (by rw [h.serverUp]; decide), if_pos hreceived]
      have hcheck : (({ v.server with receivedData := false } : Broker.Heartbeat).checkHeartbeat v.now).heartbeatCheckTimer =
          v.now + 2 * p := congrArg (fun period => v.now + 2 * period) h.period
      refine ⟨next, check, { h with
        punctual := { h.punctual with serverCheck := fun _ => ((Nat.le_add_right v.now (2 * p)).trans hcheck.ge).trans (Nat.le_add_right _ _) }
        heard := .inr ?_ }⟩
      have hread := readBy_le (δ := δ) h.sentToServer h.nextClient
      rw [hcheck]
      dsimp only
      omega
    · exact ⟨next, check, h⟩
  | clientTimer =>
    rw [Vigil.step]
    split
    · have hnext : v.now + v.client.ms = v.now + m := congrArg (v.now + ·) h.ms
      refine ⟨v.now + m, check, { h with
        clientTimer := congrArg some hnext
        punctual := { h.punctual with
          clientTimer := fun due hdue => ?_
          toServer := fun hup => forall_mem_concat (h.punctual.toServer hup) (Nat.le_add_right _ _) }
        sentToServer := forall_mem_concat h.sentToServer le_rfl
        nextClient := le_rfl
        heard := h.heard.imp_right ((readBy_send (h.punctual.clientTimer next h.clientTimer)).trans_lt ·) }⟩
      obtain rfl := Option.some.inj hdue
      dsimp only
      omega
    · exact ⟨next, check, h⟩
  | clientCheck =>
    rw [Vigil.step]
    split
    · have hfresh : ¬v.client.ms * 2 < v.now - v.client.lastDataAt := by
        have hread := hclient.trans h.fresh
        rw [h.ms]
        omega
      rw [Heartbeat.onHeartbeatCheckTimer, if_neg hfresh]
      refine ⟨next, v.now + m, { h with
        clientCheck := congrArg (fun ms => some (v.now + ms)) h.ms
        punctual := { h.punctual with clientCheck := fun due hdue => ?_ } }⟩
      obtain rfl := Option.some.inj hdue
      dsimp only
      omega
    · exact ⟨next, check, h⟩
  | serverWrites =>
    rw [Vigil.step, if_neg (by rw [h.serverUp]; decide)]
    exact ⟨next, check, { h with
      punctual := { h.punctual with
        toClient := fun hup => forall_mem_concat (h.punctual.toClient hup) (Nat.le_add_right _ _) }
      sentToClient := forall_mem_concat h.sentToClient le_rfl
      fresh := (readBy_send (h.punctual.serverTimer h.serverUp)).trans h.fresh }⟩
  | clientWrites =>
    rw [Vigil.step, if_neg (by rw [h.clientUp]; decide)]
    exact ⟨next, check, { h with
      punctual := { h.punctual with
        toServer := fun hup => forall_mem_concat (h.punctual.toServer hup) (Nat.le_add_right _ _) }
      sentToServer := forall_mem_concat h.sentToServer le_rfl
      heard := h.heard.imp_right ((readBy_send (h.punctual.clientTimer next h.clientTimer)).trans_lt ·) }⟩
  | serverReads =>
    rw [Vigil.step]
    split
    · exact ⟨next, check, h⟩
    · rename_i sent rest hflight
      rw [Broker.Heartbeat.onFrameHeader, if_neg (by rw [h.serverUp]; decide)]
      exact ⟨next, check, { h with
        punctual := { h.punctual with
          toServer := fun hup sent hsent => h.punctual.toServer hup sent (hflight ▸ List.mem_cons_of_mem _ hsent) }
        sentToServer := fun sent hsent => h.sentToServer sent (hflight ▸ List.mem_cons_of_mem _ hsent)
        heard := .inl rfl }⟩
  | clientReads =>
    rw [Vigil.step]
    split
    · exact ⟨next, check, h⟩
    · rename_i sent rest hflight
      have hrest : ∀ sent ∈ rest, sent ≤ v.now := fun sent hsent =>
        h.sentToClient sent (hflight ▸ List.mem_cons_of_mem _ hsent)
      rw [Heartbeat.onData, if_neg (by rw [h.clientUp]; decide)]
      refine ⟨next, check, { h with
        punctual := { h.punctual with
          toClient := fun hup sent hsent => h.punctual.toClient hup sent (hflight ▸ List.mem_cons_of_mem _ hsent) }
        sentToClient := hrest
        fresh := ?_ }⟩
      have hread := readBy_le (δ := δ) hrest h.nextServer
      dsimp only
      omega

theorem Kept.run {next check : Nat} (h : Kept δ p m v next check) (hp : Patient δ p m) (events : List VigilEvent) :
    ∃ next' check', Kept δ p m (v.run δ events) next' check' := by
  induction events generalizing v next check with
  | nil => exact ⟨next, check, h⟩
  | cons event events ih =>
    obtain ⟨next', check', h'⟩ := h.step hp event
    exact ih h'

/-! ### Time goes on -/

/-- No timer is due at `t`. --/
structure Waits (v : Vigil) (t : Nat) : Prop where
  serverTimer : v.server.closed = false → t < v.server.heartbeatTimer
  serverCheck : v.server.closed = false → t < v.server.heartbeatCheckTimer
  clientTimer : ∀ due ∈ v.client.heartbeatTimer, t < due
  clientCheck : ∀ due ∈ v.client.heartbeatCheckTimer, t < due

/-- The timers that are set go off in intervals that are not zero. --/
structure Ticking (v : Vigil) : Prop where
  server : 0 < v.server.period
  client : v.client.heartbeatTimer.isSome ∨ v.client.heartbeatCheckTimer.isSome → 0 < v.client.ms

theorem serverTimer_waits (h : v.Ticking) :
    (v.step δ .serverTimer).Ticking ∧ (v.step δ .serverTimer).now = v.now ∧
      ((v.step δ .serverTimer).server.closed = false → v.now < (v.step δ .serverTimer).server.heartbeatTimer) := by
  rw [Vigil.step]
  split
  · rw [Broker.Heartbeat.onHeartbeatTimer]
    by_cases hclosed : v.server.closed = true
    · rw [if_pos hclosed]
      exact ⟨⟨h.server, h.client⟩, rfl, fun hup => absurd (hclosed.symm.trans hup) Bool.noConfusion⟩
    · rw [if_neg hclosed]
      exact ⟨⟨h.server, h.client⟩, rfl, fun _ => Nat.lt_add_of_pos_right h.server⟩
  · rename_i hdue
    exact ⟨h, rfl, fun _ => Nat.lt_of_not_le hdue⟩

theorem serverCheck_waits (h : v.Ticking) (hbefore : v.server.closed = false → v.now < v.server.heartbeatTimer) :
    (v.step δ .serverCheck).Ticking ∧ (v.step δ .serverCheck).now = v.now ∧
      ((v.step δ .serverCheck).server.closed = false → v.now < (v.step δ .serverCheck).server.heartbeatTimer) ∧
      ((v.step δ .serverCheck).server.closed = false → v.now < (v.step δ .serverCheck).server.heartbeatCheckTimer) := by
  rw [Vigil.step]
  split
  · rw [Broker.Heartbeat.onHeartbeatCheckTimer]
    split
    · rename_i hclosed
      exact ⟨h, rfl, hbefore, fun hup => absurd (hclosed.symm.trans hup) Bool.noConfusion⟩
    · split
      · exact ⟨⟨h.server, h.client⟩, rfl, hbefore, fun _ => Nat.lt_add_of_pos_right (Nat.mul_pos Nat.two_pos h.server)⟩
      · exact ⟨⟨h.server, h.client⟩, rfl, Bool.noConfusion, Bool.noConfusion⟩
  · rename_i hdue
    exact ⟨h, rfl, hbefore, fun _ => Nat.lt_of_not_le hdue⟩

theorem clientTimer_waits (h : v.Ticking) :
    (v.step δ .clientTimer).Ticking ∧ (v.step δ .clientTimer).now = v.now ∧
      (v.step δ .clientTimer).server = v.server ∧ ∀ due ∈ (v.step δ .clientTimer).client.heartbeatTimer, v.now < due := by
  rw [Vigil.step]
  split
  · rename_i hdue
    obtain ⟨due, hset, -⟩ := hdue
    have hms : 0 < v.client.ms := h.client (.inl (Option.isSome_iff_exists.mpr ⟨due, hset⟩))
    refine ⟨⟨h.server, fun _ => hms⟩, rfl, rfl, fun due' hdue' => ?_⟩
    obtain rfl := Option.some.inj hdue'
    exact Nat.lt_add_of_pos_right hms
  · rename_i hdue
    exact ⟨h, rfl, rfl, fun due hset => Nat.lt_of_not_le fun hle => hdue ⟨due, hset, hle⟩⟩

theorem clientCheck_waits (h : v.Ticking) (hbefore : ∀ due ∈ v.client.heartbeatTimer, v.now < due) :
    (v.step δ .clientCheck).now = v.now ∧ (v.step δ .clientCheck).server = v.server ∧
      (∀ due ∈ (v.step δ .clientCheck).client.heartbeatTimer, v.now < due) ∧
      ∀ due ∈ (v.step δ .clientCheck).client.heartbeatCheckTimer, v.now < due := by
  rw [Vigil.step]
  split
  · rename_i hdue
    obtain ⟨due, hset, -⟩ := hdue
    have hms : 0 < v.client.ms := h.client (.inr (Option.isSome_iff_exists.mpr ⟨due, hset⟩))
    rw [Heartbeat.onHeartbeatCheckTimer]
    split
    · refine ⟨rfl, rfl, ?_, ?_⟩ <;> intro _ hset <;> cases hset
    · refine ⟨rfl, rfl, hbefore, fun due' hdue' => ?_⟩
      obtain rfl := Option.some.inj hdue'
      exact Nat.lt_add_of_pos_right hms
  · rename_i hdue
    exact ⟨rfl, rfl, hbefore, fun due hset => Nat.lt_of_not_le fun hle => hdue ⟨due, hset, hle⟩⟩

theorem Ticking.waits (h : v.Ticking) :
    (v.run δ [.serverTimer, .serverCheck, .clientTimer, .clientCheck]).now = v.now ∧
      (v.run δ [.serverTimer, .serverCheck, .clientTimer, .clientCheck]).Waits v.now := by
  obtain ⟨h₁, hnow₁, htimer₁⟩ := serverTimer_waits (δ := δ) h
  obtain ⟨h₂, hnow₂, htimer₂, hcheck₂⟩ := serverCheck_waits (δ := δ) h₁ (hnow₁ ▸ htimer₁)
  obtain ⟨h₃, hnow₃, hserver₃, htimer₃⟩ := clientTimer_waits (δ := δ) h₂
  obtain ⟨hnow₄, hserver₄, htimer₄, hcheck₄⟩ := clientCheck_waits (δ := δ) h₃ (hnow₃ ▸ htimer₃)
  have hnow₂' := hnow₂.trans hnow₁
  have hnow₃' := hnow₃.trans hnow₂'
  rw [hnow₃'] at htimer₄ hcheck₄
  rw [hnow₁] at htimer₂ hcheck₂
  refine ⟨hnow₄.trans hnow₃', ?_, ?_, htimer₄, hcheck₄⟩
  · change (Vigil.step δ _ .clientCheck).server.closed = false → _ < (Vigil.step δ _ .clientCheck).server.heartbeatTimer
    rw [hserver₄, hserver₃]
    exact htimer₂
  · change (Vigil.step δ _ .clientCheck).server.closed = false → _ < (Vigil.step δ _ .clientCheck).server.heartbeatCheckTimer
    rw [hserver₄, hserver₃]
    exact hcheck₂

/-- The broker reads what is on its way. --/
theorem Waits.serverReads {t : Nat} : ∀ (flight : List Nat) (v : Vigil), v.toServer = flight → v.Waits t →
    ∃ n, (v.run δ (List.replicate n .serverReads)).Waits t ∧ (v.run δ (List.replicate n .serverReads)).now = v.now ∧
      (v.run δ (List.replicate n .serverReads)).toServer = []
  | [], v, hflight, h => ⟨0, h, rfl, hflight⟩
  | sent :: rest, v, hflight, h => by
    have hstep : v.step δ .serverReads = { v with server := v.server.onFrameHeader, toServer := rest } := by
      rw [Vigil.step, hflight]
    have hwaits : (v.step δ .serverReads).Waits t := by
      rw [hstep, Broker.Heartbeat.onFrameHeader]
      split
      · exact ⟨h.1, h.2, h.3, h.4⟩
      · exact ⟨h.1, h.2, h.3, h.4⟩
    obtain ⟨n, hn, hnow, hempty⟩ := serverReads rest (v.step δ .serverReads) (by rw [hstep]) hwaits
    exact ⟨n + 1, hn, hnow.trans (by rw [hstep]), hempty⟩

/-- The client reads what is on its way. --/
theorem Waits.clientReads {t : Nat} : ∀ (flight : List Nat) (v : Vigil), v.toClient = flight → v.Waits t →
    ∃ n, (v.run δ (List.replicate n .clientReads)).Waits t ∧ (v.run δ (List.replicate n .clientReads)).now = v.now ∧
      (v.run δ (List.replicate n .clientReads)).toServer = v.toServer ∧
      (v.run δ (List.replicate n .clientReads)).toClient = []
  | [], v, hflight, h => ⟨0, h, rfl, rfl, hflight⟩
  | sent :: rest, v, hflight, h => by
    have hstep : v.step δ .clientReads = { v with client := v.client.onData v.now, toClient := rest } := by
      rw [Vigil.step, hflight]
    have hwaits : (v.step δ .clientReads).Waits t := by
      rw [hstep, Heartbeat.onData]
      split
      · exact ⟨h.1, h.2, h.3, h.4⟩
      · exact ⟨h.1, h.2, h.3, h.4⟩
    obtain ⟨n, hn, hnow, hserver, hempty⟩ := clientReads rest (v.step δ .clientReads) (by rw [hstep]) hwaits
    exact ⟨n + 1, hn, hnow.trans (by rw [hstep]), hserver.trans (by rw [hstep]), hempty⟩

/-- Nothing that has to happen keeps time from passing. --/
theorem Ticking.elapses (h : v.Ticking) :
    ∃ events, (∀ e ∈ events, e ≠ .clientWrites) ∧ (v.run δ events).now = v.now + 1 := by
  obtain ⟨hnow, hwaits⟩ := h.waits (δ := δ)
  obtain ⟨n, hn, hnow', hserver⟩ := hwaits.serverReads (δ := δ) _ _ rfl
  obtain ⟨k, hk, hnow'', hserver', hclient⟩ := hn.clientReads (δ := δ) _ _ rfl
  refine ⟨([.serverTimer, .serverCheck, .clientTimer, .clientCheck] : List VigilEvent) ++
    List.replicate n VigilEvent.serverReads ++ List.replicate k VigilEvent.clientReads ++ [.elapse 1], ?_, ?_⟩
  · intro e he
    simp only [List.mem_append, List.mem_cons, List.mem_replicate, List.not_mem_nil, or_false] at he
    rcases he with ((((rfl | rfl | rfl | rfl) | ⟨-, rfl⟩) | ⟨-, rfl⟩) | rfl) <;> exact VigilEvent.noConfusion
  · simp only [run, List.foldl_append] at hnow hnow' hnow'' hk hserver hserver' hclient ⊢
    rw [List.foldl_cons, List.foldl_nil, step, if_pos, hnow'', hnow', hnow]
    rw [hserver] at hserver'
    rw [hnow'', hnow', hnow]
    refine ⟨fun hup => ?_, fun hup => ?_, fun due hdue => ?_, fun due hdue => ?_, fun _ sent hsent => ?_, fun _ sent hsent => ?_⟩
    · exact Nat.le_trans (hk.serverTimer hup) (Nat.le_add_right _ _)
    · exact Nat.le_trans (hk.serverCheck hup) (Nat.le_add_right _ _)
    · exact Nat.le_trans (hk.clientTimer due hdue) (Nat.le_add_right _ _)
    · exact Nat.le_trans (hk.clientCheck due hdue) (Nat.le_add_right _ _)
    · rw [hserver'] at hsent
      cases hsent
    · rw [hclient] at hsent
      cases hsent

theorem Ticking.step (h : v.Ticking) (event : VigilEvent) : (v.step δ event).Ticking := by
  cases event with
  | elapse d =>
    rw [Vigil.step]
    split
    · exact ⟨h.server, h.client⟩
    · exact h
  | serverTimer => exact (serverTimer_waits h).1
  | serverCheck =>
    rw [Vigil.step]
    split
    · rw [Broker.Heartbeat.onHeartbeatCheckTimer]
      split
      · exact ⟨h.server, h.client⟩
      · split <;> exact ⟨h.server, h.client⟩
    · exact h
  | clientTimer => exact (clientTimer_waits h).1
  | clientCheck =>
    rw [Vigil.step]
    split
    · rename_i hdue
      obtain ⟨due, hset, -⟩ := hdue
      have hms : 0 < v.client.ms := h.client (.inr (Option.isSome_iff_exists.mpr ⟨due, hset⟩))
      rw [Heartbeat.onHeartbeatCheckTimer]
      split <;> exact ⟨h.server, fun _ => hms⟩
    · exact h
  | serverReads =>
    rw [Vigil.step]
    split
    · exact h
    · rw [Broker.Heartbeat.onFrameHeader]
      split <;> exact ⟨h.server, h.client⟩
  | clientReads =>
    rw [Vigil.step]
    split
    · exact h
    · rw [Heartbeat.onData]
      split <;> exact ⟨h.server, h.client⟩
  | serverWrites =>
    rw [Vigil.step]
    split
    · exact h
    · exact ⟨h.server, h.client⟩
  | clientWrites =>
    rw [Vigil.step]
    split
    · exact h
    · exact ⟨h.server, h.client⟩

theorem Ticking.run (h : v.Ticking) (events : List VigilEvent) : (v.run δ events).Ticking := by
  induction events generalizing v with
  | nil => exact h
  | cons event events ih => exact ih (h.step event)

/-! ### A client that is not heard in time -/

/-- The broker is up, its check has gone off `passes` times, it has read `arrivals` frames, and the client has sent
    `sends`. --/
structure Counted (δ : Delays) (p m lag : Nat) (v : Vigil) (passes arrivals sends : Nat) : Prop where
  period : v.server.period = p
  ms : v.client.ms = m
  patience : v.now ≤ v.server.heartbeatCheckTimer + δ.slack
  due : v.server.heartbeatCheckTimer ≤ 2 * p + passes * (2 * p + δ.slack)
  passed : passes + v.server.receivedData.toNat ≤ arrivals + 1
  arrived : arrivals + v.toServer.length = sends
  sent : lag + sends * m ≤ v.now
  next : ∀ next ∈ v.client.heartbeatTimer, lag + (sends + 1) * m ≤ next
  silent : m = 0 → v.client.heartbeatTimer = none ∧ sends = 0

theorem closed_step {event : VigilEvent} (h : v.server.closed = true) : (v.step δ event).server.closed = true := by
  cases event with
  | elapse d =>
    rw [Vigil.step]
    split <;> exact h
  | serverTimer =>
    rw [Vigil.step, Broker.Heartbeat.onHeartbeatTimer, if_pos h]
    split <;> exact h
  | serverCheck =>
    rw [Vigil.step, Broker.Heartbeat.onHeartbeatCheckTimer, if_pos h]
    split <;> exact h
  | serverReads =>
    rw [Vigil.step, Broker.Heartbeat.onFrameHeader, if_pos h]
    split <;> exact h
  | clientTimer =>
    rw [Vigil.step]
    split <;> exact h
  | clientCheck =>
    rw [Vigil.step]
    split <;> exact h
  | serverWrites =>
    rw [Vigil.step]
    split <;> exact h
  | clientWrites =>
    rw [Vigil.step]
    split <;> exact h
  | clientReads =>
    rw [Vigil.step]
    split <;> exact h

theorem Counted.step {passes arrivals sends : Nat} (h : Counted δ p m lag v passes arrivals sends) {event : VigilEvent}
    (hidle : event ≠ .clientWrites) :
    (v.step δ event).server.closed = true ∨
      ∃ passes' arrivals' sends', Counted δ p m lag (v.step δ event) passes' arrivals' sends' := by
  by_cases hup : v.server.closed = true
  · exact .inl (closed_step hup)
  have hstay : ∀ {v' : Vigil}, Counted δ p m lag v' passes arrivals sends → v'.server.closed = true ∨
      ∃ passes' arrivals' sends', Counted δ p m lag v' passes' arrivals' sends' := fun h' => .inr ⟨_, _, _, h'⟩
  cases event with
  | elapse d =>
    rw [Vigil.step]
    split
    · rename_i hpunctual
      exact hstay { h with
        patience := hpunctual.serverCheck (Bool.not_eq_true _ ▸ hup)
        sent := h.sent.trans (Nat.le_add_right _ _) }
    · exact hstay h
  | serverTimer =>
    rw [Vigil.step]
    split
    · rw [Broker.Heartbeat.onHeartbeatTimer, if_neg hup]
      exact hstay { h with }
    · exact hstay h
  | serverCheck =>
    rw [Vigil.step]
    split
    · rw [Broker.Heartbeat.onHeartbeatCheckTimer, if_neg hup]
      split
      · rename_i hreceived
        have hcheck : (({ v.server with receivedData := false } : Broker.Heartbeat).checkHeartbeat v.now).heartbeatCheckTimer =
            v.now + 2 * p := congrArg (fun period => v.now + 2 * period) h.period
        have hpassed := h.passed
        rw [hreceived] at hpassed
        refine .inr ⟨passes + 1, arrivals, sends, { h with patience := ?_, due := ?_, passed := hpassed }⟩
        · exact ((Nat.le_add_right v.now (2 * p)).trans hcheck.ge).trans (Nat.le_add_right _ _)
        · have hlate := h.patience
          have hdue := h.due
          rw [hcheck, Nat.add_mul passes, Nat.one_mul]
          omega
      · exact .inl rfl
    · exact hstay h
  | clientTimer =>
    rw [Vigil.step]
    split
    · rename_i hdue
      obtain ⟨due, hset, hdue⟩ := hdue
      have hnext := h.next due hset
      refine .inr ⟨passes, arrivals, sends + 1, { h with arrived := ?_, sent := hnext.trans hdue, next := ?_, silent := ?_ }⟩
      · rw [List.length_append, ← Nat.add_assoc, h.arrived]
        rfl
      · intro next hnew
        obtain rfl := Option.some.inj hnew
        rw [h.ms, Nat.succ_mul]
        omega
      · intro hzero
        exact absurd ((h.silent hzero).1.symm.trans hset) (Option.some_ne_none due).symm
    · exact hstay h
  | clientCheck =>
    rw [Vigil.step]
    split
    · rw [Heartbeat.onHeartbeatCheckTimer]
      split
      · exact hstay { h with
          next := fun _ hset => (Option.some_ne_none _ hset.symm).elim
          silent := fun hzero => ⟨rfl, (h.silent hzero).2⟩ }
      · exact hstay { h with }
    · exact hstay h
  | serverWrites =>
    rw [Vigil.step, if_neg hup]
    exact hstay { h with }
  | clientWrites => exact absurd rfl hidle
  | serverReads =>
    rw [Vigil.step]
    split
    · exact hstay h
    · rename_i sent rest hflight
      have harrived := h.arrived
      rw [hflight, List.length_cons] at harrived
      rw [Broker.Heartbeat.onFrameHeader, if_neg hup]
      refine .inr ⟨passes, arrivals + 1, sends, { h with passed := ?_, arrived := by dsimp only; omega }⟩
      have hpassed := h.passed
      change passes + 1 ≤ arrivals + 1 + 1
      omega
  | clientReads =>
    rw [Vigil.step]
    split
    · exact hstay h
    · rw [Heartbeat.onData]
      split
      · exact hstay { h with }
      · exact hstay { h with }

theorem Counted.run {passes arrivals sends : Nat} (h : Counted δ p m lag v passes arrivals sends) {events : List VigilEvent}
    (hidle : .clientWrites ∉ events) :
    (v.run δ events).server.closed = true ∨
      ∃ passes' arrivals' sends', Counted δ p m lag (v.run δ events) passes' arrivals' sends' := by
  induction events using List.reverseRecOn with
  | nil => exact .inr ⟨_, _, _, h⟩
  | append_singleton events event ih =>
    rw [List.mem_append, List.mem_singleton, not_or] at hidle
    rw [Vigil.run, List.foldl_append]
    rcases ih hidle.1 with hclosed | ⟨passes', arrivals', sends', h'⟩
    · exact .inl (closed_step hclosed)
    · exact h'.step (Ne.symm hidle.2)

/-- A broker that is still up has not waited for too long. --/
theorem Counted.now_le {passes arrivals sends : Nat} (h : Counted δ p m lag v passes arrivals sends) :
    v.now ≤ (sends + 2) * (2 * p + δ.slack) := by
  have hpasses : passes + 1 ≤ sends + 2 := by
    have hpassed := h.passed
    have harrived := h.arrived
    omega
  calc v.now
      ≤ v.server.heartbeatCheckTimer + δ.slack := h.patience
    _ ≤ 2 * p + passes * (2 * p + δ.slack) + δ.slack := Nat.add_le_add_right h.due _
    _ = (passes + 1) * (2 * p + δ.slack) := by rw [Nat.add_mul passes, Nat.one_mul]; omega
    _ ≤ (sends + 2) * (2 * p + δ.slack) := Nat.mul_le_mul_right _ hpasses

/-! ### What was agreed on -/

section Main

variable {κ : Type} {client : Connection κ} {x : Broker.Session}

theorem ms_start (interval : UInt16) (heartbeat lag : Nat) :
    (start interval heartbeat lag).client.ms = 1000 * heartbeat := by
  rw [start, Heartbeat.startHeartbeat]
  split <;> exact Nat.mul_comm heartbeat 1000

theorem timers_start (interval : UInt16) {heartbeat : Nat} (lag : Nat) (h : 0 < heartbeat) :
    (start interval heartbeat lag).client.heartbeatTimer = some (lag + 1000 * heartbeat) ∧
      (start interval heartbeat lag).client.heartbeatCheckTimer = some (lag + 1000 * heartbeat) ∧
      (start interval heartbeat lag).client.lastDataAt = lag ∧ (start interval heartbeat lag).client.closed = false := by
  rw [start, Heartbeat.startHeartbeat]
  dsimp only
  rw [if_pos h, Heartbeat.ms, Nat.mul_comm heartbeat 1000]
  exact ⟨rfl, rfl, rfl, rfl⟩

theorem agreed_pos (h : Link.Agrees client x) : 0 < x.heartbeatInterval.toNat := by
  rw [h.heartbeat]
  split
  · decide
  · rename_i hne
    exact Nat.lt_min.mpr ⟨by decide, Nat.pos_of_ne_zero hne⟩

theorem ticking_start (h : Link.Agrees client x) (lag : Nat) : (start x.heartbeatInterval client.heartbeat lag).Ticking := by
  refine ⟨Nat.mul_pos (by decide) (agreed_pos h), fun hset => ?_⟩
  rw [ms_start]
  refine Nat.mul_pos (by decide) (Nat.pos_of_ne_zero fun hzero => ?_)
  rw [hzero] at hset
  rcases hset with hset | hset <;> cases hset

/-- The intervals of a client and a broker that have agreed on the limits, where the client has an interval and twice
    that of the broker leaves room for what can be late; and the client starts its timers at most one interval of the
    broker after the broker did. Whatever else is sent, and in every order of what happens, neither side ever takes the
    other for dead; and time can always go on. --/
theorem heartbeats_keep (hagrees : Link.Agrees client x) (hpos : 0 < client.heartbeat)
    (hroom : 1000 * client.heartbeat + δ.slack + δ.delay < 2 * (1000 * x.heartbeatInterval.toNat))
    (hlag : lag ≤ 1000 * x.heartbeatInterval.toNat) (events : List VigilEvent) :
    let v := (start x.heartbeatInterval client.heartbeat lag).run δ events
    v.server.closed = false ∧ v.client.closed = false ∧ ∃ more, (v.run δ more).now = v.now + 1 := by
  intro v
  have hle : x.heartbeatInterval.toNat ≤ client.heartbeat := by
    rw [hagrees.heartbeat, if_neg (Nat.ne_of_gt hpos)]
    exact Nat.min_le_right ..
  have hp : Patient δ (1000 * x.heartbeatInterval.toNat) (1000 * client.heartbeat) := ⟨Nat.mul_le_mul_left _ hle, hroom⟩
  obtain ⟨htimer, hcheck, hdata, hup⟩ := timers_start x.heartbeatInterval lag hpos
  have hnow : (start x.heartbeatInterval client.heartbeat lag).now = lag := rfl
  have hserver : (start x.heartbeatInterval client.heartbeat lag).server.heartbeatTimer =
      0 + 1000 * x.heartbeatInterval.toNat := rfl
  have hservercheck : (start x.heartbeatInterval client.heartbeat lag).server.heartbeatCheckTimer =
      0 + 2 * (1000 * x.heartbeatInterval.toNat) := rfl
  have hkept : Kept δ (1000 * x.heartbeatInterval.toNat) (1000 * client.heartbeat)
      (start x.heartbeatInterval client.heartbeat lag) (lag + 1000 * client.heartbeat) (lag + 1000 * client.heartbeat) := by
    refine ⟨rfl, hup, rfl, ms_start .., htimer, hcheck, ⟨?_, ?_, ?_, ?_, ?_, ?_⟩, ?_, ?_, le_rfl, ?_, .inl rfl, ?_⟩
    · rw [hnow, hserver]
      omega
    · rw [hnow, hservercheck]
      omega
    · rw [hnow, htimer]
      intro due hdue
      obtain rfl := Option.some.inj hdue
      omega
    · rw [hnow, hcheck]
      intro due hdue
      obtain rfl := Option.some.inj hdue
      omega
    · exact fun _ => List.forall_mem_nil _
    · exact fun _ => List.forall_mem_nil _
    · exact List.forall_mem_nil _
    · exact List.forall_mem_nil _
    · rw [hnow, hserver]
      omega
    · rw [hdata, hserver]
      change 0 + 1000 * x.heartbeatInterval.toNat + δ.slack + δ.delay ≤ _
      omega
  obtain ⟨next, check, hend⟩ := hkept.run hp events
  obtain ⟨more, -, hmore⟩ := ((ticking_start hagrees lag).run events).elapses (δ := δ)
  exact ⟨hend.serverUp, hend.clientUp, more, hmore⟩

/-- Two minutes in which each side sends its heartbeats. --/
def twoMinutes : List VigilEvent :=
  [.elapse 60000, .serverTimer, .clientReads, .elapse 3, .clientTimer, .clientCheck, .elapse 50, .serverReads, .elapse 59947,
    .serverTimer, .serverCheck, .clientReads, .elapse 3, .clientTimer, .clientCheck]

theorem guest_keeps : ((start 60 60 3).run ⟨10, 100⟩ twoMinutes).server.closed = false ∧
    ((start 60 60 3).run ⟨10, 100⟩ twoMinutes).client.closed = false := by
  have hagrees : Link.Agrees (Connection.tuned {} Link.guestStartOk : Connection Unit) (Link.agreed {}) :=
    Link.agrees_tuned Link.guest_fits
  have hkeep := @heartbeats_keep ⟨10, 100⟩ 3 Unit _ _ hagrees (by decide) (by decide) (by decide) twoMinutes
  exact ⟨hkeep.1, hkeep.2.1⟩

/-- A client that sends nothing but its heartbeats, to a broker that waits for `patience`, and that starts its timers at
    most one interval of the broker after the broker did: if it has no interval, or one that is longer, then the broker
    ends the connection, and there is a time by which it has; and time goes on until then. --/
theorem heartbeats_cut (hagrees : Link.Agrees client x) (hlag : lag ≤ 1000 * x.heartbeatInterval.toNat)
    {events : List VigilEvent} (hidle : .clientWrites ∉ events) :
    let v := (start x.heartbeatInterval client.heartbeat lag).run δ events
    let patience := 2 * (1000 * x.heartbeatInterval.toNat) + δ.slack
    (client.heartbeat = 0 → v.server.closed = true ∨ v.now ≤ 2 * patience) ∧
    (patience < 1000 * client.heartbeat → v.server.closed = true ∨
      v.now * (1000 * client.heartbeat - patience) ≤ 2 * patience * (1000 * client.heartbeat)) ∧
    ∃ more, .clientWrites ∉ more ∧ (v.run δ more).now = v.now + 1 := by
  intro v patience
  have hstart : Counted δ (1000 * x.heartbeatInterval.toNat) (1000 * client.heartbeat) lag
      (start x.heartbeatInterval client.heartbeat lag) 0 0 0 := by
    refine ⟨rfl, ms_start .., ?_, ?_, le_rfl, rfl, ?_, ?_, ?_⟩
    · change lag ≤ 0 + 2 * (1000 * x.heartbeatInterval.toNat) + δ.slack
      omega
    · change 0 + 2 * (1000 * x.heartbeatInterval.toNat) ≤ _
      omega
    · change lag + 0 * _ ≤ lag
      omega
    · intro next hnext
      by_cases hpos : 0 < client.heartbeat
      · rw [(timers_start _ _ hpos).1] at hnext
        obtain rfl := Option.some.inj hnext
        omega
      · rw [Nat.eq_zero_of_not_pos hpos] at hnext
        cases hnext
    · intro hzero
      have hnone : client.heartbeat = 0 := by omega
      rw [hnone]
      exact ⟨rfl, rfl⟩
  have hmore : ∃ more, .clientWrites ∉ more ∧ (v.run δ more).now = v.now + 1 := by
    obtain ⟨more, hmore, hnow⟩ := ((ticking_start hagrees lag).run events).elapses (δ := δ)
    exact ⟨more, fun hmem => hmore _ hmem rfl, hnow⟩
  rcases hstart.run hidle with hclosed | ⟨passes, arrivals, sends, hend⟩
  · exact ⟨fun _ => .inl hclosed, fun _ => .inl hclosed, hmore⟩
  · have hnow : v.now ≤ (sends + 2) * patience := hend.now_le
    refine ⟨fun hzero => .inr ?_, fun hlong => .inr ?_, hmore⟩
    · rw [(hend.silent (by rw [hzero])).2] at hnow
      rwa [Nat.zero_add] at hnow
    · have hsent : sends * (1000 * client.heartbeat) ≤ v.now := (Nat.le_add_left _ lag).trans hend.sent
      rw [Nat.mul_sub, Nat.sub_le_iff_le_add]
      calc v.now * (1000 * client.heartbeat)
          ≤ (sends + 2) * patience * (1000 * client.heartbeat) := Nat.mul_le_mul_right _ hnow
        _ = 2 * patience * (1000 * client.heartbeat) + sends * (1000 * client.heartbeat) * patience := by ring
        _ ≤ 2 * patience * (1000 * client.heartbeat) + v.now * patience :=
          Nat.add_le_add_left (Nat.mul_le_mul_right _ hsent) _

/-- A client that wants no heartbeats. --/
def quietClient : ConnectOptions := { heartbeat := some 0 }

/-- What the broker does until its second check. --/
def fourMinutes : List VigilEvent :=
  [.elapse 59997, .serverTimer, .elapse 60000, .serverTimer, .serverCheck, .elapse 60000, .serverTimer, .elapse 60000,
    .serverTimer, .serverCheck]

theorem quiet_cut : ((start 60 0 3).run ⟨0, 300000⟩ fourMinutes).server.closed = true ∨
    ((start 60 0 3).run ⟨0, 300000⟩ fourMinutes).now ≤ 240000 := by
  have hfits : quietClient.Fits Link.guestStartOk := ⟨by decide +kernel, by decide +kernel, by decide⟩
  have hagrees : Link.Agrees (Connection.tuned quietClient Link.guestStartOk : Connection Unit) (Link.agreed quietClient) :=
    Link.agrees_tuned hfits
  exact (@heartbeats_cut ⟨0, 300000⟩ 3 Unit _ _ hagrees (by decide) fourMinutes (by decide)).1 rfl

end Main

end Vigil
end Broko.Sdk
