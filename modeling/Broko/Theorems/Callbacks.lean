import Broko.Theorems.Replies

/-! Which callback gets which delivery. A callback is in the table of consumers once the rest of its `consume` has run, which
    is some time after the Consume-Ok was handled; a delivery that is complete before that finds none. -/

namespace Broko.Sdk
open Amqp

/-! ### What the consumers should get -/

/-- The callback that a call gives, if it is a `consume`. --/
def Request.callback {κ : Type} : Request κ → Option κ
  | .consume _ callback _ _ _ _ _ => some callback
  | _ => none

/-- The reply that `consume` waits for. --/
def consumeOk : UInt16 × UInt16 := (class_id.BASIC, basic_method.CONSUME_OK)

/-- What there is of a content, as a message. --/
def PendingDelivery.message (d : PendingDelivery) : Delivered :=
  { fields := d.method, properties := d.props, content := d.body }

/-- The consumer tag of a message, unless it was returned. --/
def Delivered.consumerTag (message : Delivered) : Option String :=
  match message.fields with
  | .deliver consumerTag .. => some consumerTag
  | .return .. => none

/-- A content that has all of its body is complete. --/
def PendingDelivery.completed (d : PendingDelivery) (full : Bool) : Option PendingDelivery × Option Delivered :=
  if full then (none, some d.message) else (some d, none)

/-- The content that is being received after a frame, and the message that the frame completes. --/
def receive (id : UInt16) (content : Option PendingDelivery) (frame : Frame) : Option PendingDelivery × Option Delivered :=
  if frame.channel ≠ id then (content, none)
  else if frame.type = FRAME_METHOD then
    match decodeMethod (Buffer.ofBytes frame.payload) with
    | .error _ => (content, none)
    | .ok (key, args) =>
      let method := if key = (class_id.BASIC, basic_method.DELIVER) then reading Channel.readDeliver args
        else if key = (class_id.BASIC, basic_method.RETURN) then reading Channel.readReturn args
        else none
      (method.elim content fun method => some { method }, none)
  else
    match content with
    | none => (none, none)
    | some d =>
      if frame.type = FRAME_HEADER then
        match reading decodeHeader (Buffer.ofBytes frame.payload) with
        | none => (some d, none)
        | some (bodySize, props) =>
          { d with props := some props, bodySize := some (numberOf bodySize), body := some [] }.completed
            (numberOf bodySize = 0)
      else if frame.type = FRAME_BODY then
        match d.body with
        | none => (some d, none)
        | some body =>
          let d := { d with body := some (body ++ frame.payload), accumulated := d.accumulated + frame.payload.length }
          d.completed (d.bodySize.any (· ≤ d.accumulated))
      else (some d, none)

/-- What frames and calls make of a channel: under each tag the callback of the `consume` that was answered with it, and the
    content that is being received. --/
structure Account (κ : Type) where
  ledger : Ledger κ := {}
  callbacks : Assoc String κ := ∅
  content : Option PendingDelivery := none

namespace Account
variable {κ : Type} (a : Account κ)

/-- A Consume-Ok is for the oldest `consume` that waits; a Cancel-Ok ends the consumer. --/
def hear : Notice → Assoc String κ
  | .reply _ (.tag tag) =>
    ((a.ledger.waiting.find? (·.2.awaits = consumeOk)).bind (·.2.callback)).elim a.callbacks (a.callbacks.insert tag ·)
  | .cancelled tag => a.callbacks.erase tag
  | _ => a.callbacks

def step (id : UInt16) : Account κ → Event κ → Account κ
  | a, .frame frame =>
    { ledger := a.ledger.step id (.frame frame)
      callbacks := (notice id frame).elim a.callbacks a.hear
      content := (receive id a.content frame).1 }
  | a, event => { a with ledger := a.ledger.step id event }

def run (id : UInt16) (events : List (Event κ)) : Account κ := events.foldl (step id) a

/-- The message that an event completes. --/
def completes (id : UInt16) : Event κ → Option Delivered
  | .frame frame => (receive id a.content frame).2
  | _ => none

end Account

/-- The call of a callback. --/
def Effect.invokes {κ : Type} : Effect κ → Option (κ × Delivered)
  | .call callback message => some (callback, message)
  | _ => none

/-- The calls of callbacks so far. --/
def Channel.invoked {κ : Type} (ch : Channel κ) : List (κ × Delivered) := ch.effects.filterMap Effect.invokes

/-- The consumer that a job is about to register. --/
def registers {κ : Type} : (Nat × Request κ) × Settlement → Option (String × κ)
  | ((_, request), .fulfilled (.tag tag)) => request.callback.map (tag, ·)
  | _ => none

/-! ### What the channel does with a frame -/

namespace Channel
variable {κ : Type} (ch : Channel κ)

/-- The table of consumers after a notice. --/
def consumersAfter (n : Option Notice) : Assoc String κ :=
  match n with
  | some (.cancelled tag) => ch.consumers.erase tag
  | _ => ch.consumers

/-- The callback that a complete message is given to. --/
def invokes (message : Delivered) : Option (κ × Delivered) :=
  (message.consumerTag.bind ch.consumers.lookup).map (·, message)

/-- A channel after a frame, as far as its deliveries are concerned. --/
structure Delivers (n : Option Notice) (r : Option PendingDelivery × Option Delivered) (ch' : Channel κ) : Prop where
  consumers : ch'.consumers = ch.consumersAfter n
  pending : ch'.pendingDelivery = r.1
  invoked : ch'.invoked = ch.invoked ++ (r.2.bind ch.invokes).toList

theorem delivers_self : Delivers ch none (ch.pendingDelivery, none) ch := ⟨rfl, rfl, (List.append_nil _).symm⟩

/-- Nothing but the table of consumers changes. --/
theorem Delivers.nothing {n : Option Notice} {ch' : Channel κ} (hconsumers : ch'.consumers = ch.consumersAfter n)
    (hpending : ch'.pendingDelivery = ch.pendingDelivery) (hinvoked : ch'.invoked = ch.invoked) :
    Delivers ch n (ch.pendingDelivery, none) ch' :=
  ⟨hconsumers, hpending, hinvoked.trans (List.append_nil _).symm⟩

@[simp] theorem consumers_resolveWait (classId methodId : UInt16) (value : Reply) :
    (ch.resolveWait classId methodId value).consumers = ch.consumers := by
  rw [resolveWait]
  split <;> rfl

@[simp] theorem pending_resolveWait (classId methodId : UInt16) (value : Reply) :
    (ch.resolveWait classId methodId value).pendingDelivery = ch.pendingDelivery := by
  rw [resolveWait]
  split <;> rfl

@[simp] theorem invoked_resolveWait (classId methodId : UInt16) (value : Reply) :
    (ch.resolveWait classId methodId value).invoked = ch.invoked := by
  rw [resolveWait]
  split
  · simp [invoked, does, Effect.invokes]
  · rfl

theorem delivers_resolveWait (key : UInt16 × UInt16) (classId methodId : UInt16) (value value' : Reply) :
    Delivers ch (some (.reply key value')) (ch.pendingDelivery, none) (ch.resolveWait classId methodId value) :=
  .nothing ch (consumers_resolveWait ch classId methodId value) (pending_resolveWait ch classId methodId value)
    (invoked_resolveWait ch classId methodId value)

theorem delivers_closedByServer (code : UInt16) (text : String) :
    Delivers ch (some (.closed code text)) (ch.pendingDelivery, none) (ch.closedByServer code text).state := by
  have hwaiters : (ch.replyWaiters.map fun (classId, methodId) => (Effect.reject classId methodId code text : Effect κ)).filterMap
      Effect.invokes = [] := by
    rw [List.filterMap_map, List.filterMap_eq_nil_iff]
    exact fun _ _ => rfl
  rw [closedByServer]
  dsimp only
  split
  · refine .nothing ch rfl rfl ?_
    dsimp only [invoked, does, Outcome.state]
    simp only [List.filterMap_append, hwaiters]
    simp [List.filterMap_cons, Effect.invokes]
  · refine .nothing ch rfl rfl ?_
    dsimp only [invoked, does, Outcome.state]
    simp only [List.filterMap_append, hwaiters]
    simp [List.filterMap_cons, Effect.invokes]

theorem delivers_withArgs {α : Type} {read : Read α} {args : Buffer} {k : α → Outcome κ} {n : α → Notice}
    (h : ∀ a, Delivers ch (some (n a)) (ch.pendingDelivery, none) (k a).state) :
    Delivers ch ((reading read args).map n) (ch.pendingDelivery, none) (ch.withArgs read args k).state := by
  rw [withArgs, reading]
  cases read args with
  | error => exact delivers_self ch
  | ok r => exact h r.1

/-- The method of a content is read. --/
theorem delivers_content (read : Read ContentMethod) (args : Buffer) :
    Delivers ch none ((reading read args).elim ch.pendingDelivery fun method => some { method }, none)
      (ch.withArgs read args fun method => .ok { ch with pendingDelivery := some { method } }).state := by
  rw [withArgs, reading]
  cases read args with
  | error => exact delivers_self ch
  | ok r => exact ⟨rfl, rfl, (List.append_nil _).symm⟩

theorem delivers_handleMethod (classId methodId : UInt16) (args : Buffer) :
    Delivers ch (noticeOf (classId, methodId) args)
      ((if (classId, methodId) = (class_id.BASIC, basic_method.DELIVER) then reading readDeliver args
        else if (classId, methodId) = (class_id.BASIC, basic_method.RETURN) then reading readReturn args
        else none).elim ch.pendingDelivery fun method => some { method }, none)
      (ch.handleMethod classId methodId args).state := by
  by_cases hdeliver : (classId, methodId) = (class_id.BASIC, basic_method.DELIVER)
  · obtain ⟨rfl, rfl⟩ := Prod.mk.inj hdeliver
    exact delivers_content ch readDeliver args
  rw [if_neg hdeliver]
  by_cases hreturn : (classId, methodId) = (class_id.BASIC, basic_method.RETURN)
  · obtain ⟨rfl, rfl⟩ := Prod.mk.inj hreturn
    exact delivers_content ch readReturn args
  rw [if_neg hreturn, handleMethod, noticeOf, Option.elim_none]
  rw [Prod.mk.injEq] at hdeliver hreturn
  simp only [Prod.mk.injEq]
  split
  · refine delivers_withArgs ch ?_
    rintro ⟨code, text⟩
    exact delivers_closedByServer ch code text
  split
  · exact delivers_resolveWait ch _ classId methodId .undefined .undefined
  split
  · refine delivers_withArgs ch ?_
    rintro ⟨name, messageCount, consumerCount⟩
    exact delivers_resolveWait ch _ classId methodId _ _
  split
  · refine delivers_withArgs ch fun tag => ?_
    refine .nothing ch ?_ ?_ ?_
    · exact consumers_resolveWait { ch with consumers := ch.consumers.erase tag } classId methodId .undefined
    · exact pending_resolveWait { ch with consumers := ch.consumers.erase tag } classId methodId .undefined
    · exact invoked_resolveWait { ch with consumers := ch.consumers.erase tag } classId methodId .undefined
  split
  · exact delivers_withArgs ch fun tag => delivers_resolveWait ch _ classId methodId _ _
  · exact delivers_self ch

/-- A complete message is given to the callback of its tag. --/
theorem delivers_finishDelivery (d : PendingDelivery) : Delivers ch none (none, some d.message) (ch.finishDelivery d) := by
  rw [finishDelivery]
  dsimp only
  split
  · rename_i tag _ _ _ _ hmethod
    have htag : d.message.consumerTag = some tag := by
      rw [Delivered.consumerTag, PendingDelivery.message]
      dsimp only
      rw [hmethod]
    split
    · rename_i hlook
      refine ⟨rfl, rfl, ?_⟩
      simp [invokes, htag, hlook, invoked]
    · rename_i callback hlook
      refine ⟨rfl, rfl, ?_⟩
      have hinvokes : ch.invokes d.message = some (callback, d.message) := by simp [invokes, htag, hlook]
      rw [Option.bind_some, hinvokes]
      simp [invoked, does, Effect.invokes, PendingDelivery.message]
  · rename_i hmethod
    have htag : d.message.consumerTag = none := by
      rw [Delivered.consumerTag, PendingDelivery.message]
      dsimp only
      rw [hmethod]
    refine ⟨rfl, rfl, ?_⟩
    simp [invokes, htag, invoked, does, Effect.invokes]

theorem delivers_completed (d : PendingDelivery) (full : Bool) :
    Delivers ch none (d.completed full) (if full then ch.finishDelivery d else { ch with pendingDelivery := some d }) := by
  cases full with
  | false => exact ⟨rfl, rfl, (List.append_nil _).symm⟩
  | true => exact delivers_finishDelivery ch d

/-- A frame does to the deliveries what it says. --/
theorem delivers_handleFrame (frame : Frame) :
    Delivers ch (notice ch.id frame) (receive ch.id ch.pendingDelivery frame) (ch.handleFrame frame).state := by
  unfold receive
  rw [handleFrame, notice]
  by_cases hchannel : frame.channel = ch.id
  · by_cases htype : frame.type = FRAME_METHOD
    · rw [if_neg (not_not.mpr hchannel), if_pos htype, if_neg (by simp [hchannel, htype]), if_neg (not_not.mpr hchannel),
        if_pos htype]
      cases decodeMethod (Buffer.ofBytes frame.payload) with
      | error => exact delivers_self ch
      | ok r => exact delivers_handleMethod ch r.1.1 r.1.2 r.2
    · rw [if_neg (not_not.mpr hchannel), if_neg htype, if_pos (.inr htype), if_neg (not_not.mpr hchannel), if_neg htype,
        handleHeader, handleBody]
      have hself := delivers_self ch
      cases hd : ch.pendingDelivery with
      | none =>
        rw [hd] at hself
        dsimp only
        by_cases hheader : frame.type = FRAME_HEADER
        · rwa [if_pos hheader]
        by_cases hbody : frame.type = FRAME_BODY
        · rwa [if_neg hheader, if_pos hbody]
        · rwa [if_neg hheader, if_neg hbody]
      | some d =>
        rw [hd] at hself
        dsimp only
        by_cases hheader : frame.type = FRAME_HEADER
        · rw [if_pos hheader, if_pos hheader, withArgs, reading]
          cases decodeHeader (Buffer.ofBytes frame.payload) with
          | error => exact hself
          | ok r =>
            have h := delivers_completed ch
              { d with props := some r.1.2, bodySize := some (numberOf r.1.1), body := some [] } (numberOf r.1.1 = 0)
            simp only [decide_eq_true_eq] at h
            exact h
        by_cases hbody : frame.type = FRAME_BODY
        · rw [if_neg hheader, if_pos hbody, if_neg hheader, if_pos hbody]
          cases d.body with
          | none => exact hself
          | some body => exact delivers_completed ch _ _
        · rwa [if_neg hheader, if_neg hbody, if_neg hheader, if_neg hbody]
  · rw [if_pos hchannel, if_pos (.inl hchannel), if_pos hchannel]
    exact delivers_self ch

end Channel

/-! ### Jobs and the table of consumers -/

section
variable {κ α : Type} [DecidableEq α]

/-- Entries are put into a table one after the other. --/
def insertAll (entries : List (α × κ)) (m : Assoc α κ) : Assoc α κ := entries.foldl (fun m x => m.insert x.1 x.2) m

theorem insertAll_append (entries more : List (α × κ)) (m : Assoc α κ) :
    insertAll (entries ++ more) m = insertAll more (insertAll entries m) := List.foldl_append

theorem lookup_insertAll_congr {m m' : Assoc α κ} {k : α} (h : m.lookup k = m'.lookup k) (entries : List (α × κ)) :
    (insertAll entries m).lookup k = (insertAll entries m').lookup k := by
  induction entries generalizing m m' with
  | nil => exact h
  | cons x entries ih =>
    refine ih ?_
    by_cases hk : k = x.1
    · rw [hk, Assoc.lookup_insert_self, Assoc.lookup_insert_self]
    · rw [Assoc.lookup_insert_of_ne hk, Assoc.lookup_insert_of_ne hk, h]

theorem lookup_insertAll_of_ne {m : Assoc α κ} {k : α} {entries : List (α × κ)} (h : ∀ x ∈ entries, x.1 ≠ k) :
    (insertAll entries m).lookup k = m.lookup k := by
  induction entries generalizing m with
  | nil => rfl
  | cons x entries ih =>
    have hrest : ∀ y ∈ entries, y.1 ≠ k := fun y hy => h y (List.mem_cons_of_mem _ hy)
    exact (ih hrest).trans (Assoc.lookup_insert_of_ne (Ne.symm (h x List.mem_cons_self)))

end

namespace Session
variable {κ : Type} {s : Session κ} {a : Account κ}

/-- The table of consumers once all jobs have run. --/
def upcoming (s : Session κ) : Assoc String κ := insertAll (s.jobs.filterMap registers) s.channel.consumers

theorem register_eq (request : Request κ) (value : Reply) (ch : Channel κ) (number : Nat) :
    (register request value ch).consumers =
      insertAll (registers ((number, request), .fulfilled value)).toList ch.consumers ∧
    (register request value ch).pendingDelivery = ch.pendingDelivery ∧
    (register request value ch).effects = ch.effects := by
  cases value with
  | undefined => cases request <;> exact ⟨rfl, rfl, rfl⟩
  | queue => cases request <;> exact ⟨rfl, rfl, rfl⟩
  | tag => cases request <;> exact ⟨rfl, rfl, rfl⟩

/-- A job that runs makes its part of the upcoming table real. --/
theorem resume_upcoming : s.resume.upcoming = s.upcoming ∧ s.resume.channel.pendingDelivery = s.channel.pendingDelivery ∧
    s.resume.channel.invoked = s.channel.invoked := by
  rw [resume]
  split
  · exact ⟨rfl, rfl, rfl⟩
  · rename_i number request value jobs hjobs
    obtain ⟨hconsumers, hpending, heffects⟩ := register_eq request value s.channel number
    refine ⟨?_, hpending, congrArg (List.filterMap Effect.invokes) heffects⟩
    have hsplit : s.jobs.filterMap registers =
        (registers ((number, request), .fulfilled value)).toList ++ jobs.filterMap registers := by
      rw [hjobs, List.filterMap_cons]
      cases registers ((number, request), .fulfilled value) <;> rfl
    rw [upcoming, upcoming, hsplit, insertAll_append]
    exact congrArg _ hconsumers
  · rename_i number request e jobs hnot hjobs
    refine ⟨?_, rfl, rfl⟩
    rw [upcoming, upcoming, hjobs]
    cases e with
    | fulfilled value => exact (hnot value rfl).elim
    | rejected code text => rfl
    | thrown => rfl

theorem handle_delivers (frame : Frame) : Channel.Delivers s.channel (notice s.channel.id frame)
    (receive s.channel.id s.channel.pendingDelivery frame) (s.handle frame).channel := by
  have h := Channel.delivers_handleFrame { s.channel with effects := [] } frame
  have hchannel : (s.handle frame).channel =
      { (({ s.channel with effects := [] } : Channel κ).handleFrame frame).state with
        effects := s.channel.effects ++
          (({ s.channel with effects := [] } : Channel κ).handleFrame frame).state.effects } := channel_settleAll
  rw [hchannel]
  refine ⟨h.consumers, h.pending, ?_⟩
  have hinvoked : (({ s.channel with effects := [] } : Channel κ).handleFrame frame).state.effects.filterMap Effect.invokes =
      ((receive s.channel.id s.channel.pendingDelivery frame).2.bind s.channel.invokes).toList := h.invoked
  rw [Channel.invoked, List.filterMap_append, hinvoked]
  rfl

/-- The upcoming table has what the consumers should get. --/
structure Serves (a : Account κ) (s : Session κ) : Prop where
  calls : s.calls = a.ledger.calls
  synced : s.Synced
  tracks : Tracks consumeOk a.ledger s
  content : s.channel.pendingDelivery = a.content
  upcoming : ∀ tag callback, a.callbacks.lookup tag = some callback → s.upcoming.lookup tag = some callback

theorem serves_start (id : UInt16) (listening : Bool) : Serves ({} : Account κ) (start id listening) :=
  ⟨rfl, synced_start id listening, rfl, rfl, fun _ _ h => by cases h⟩

theorem Tracks.find (h : Tracks consumeOk a.ledger s) :
    a.ledger.waiting.find? (·.2.awaits = consumeOk) = s.deferreds.lookup consumeOk := by
  rw [← List.head?_filter, h]
  cases s.deferreds.lookup consumeOk <;> rfl

/-- The consumers that the jobs of settled promises are about to register. --/
def newcomers (s : Session κ) (ends : List ((UInt16 × UInt16) × Settlement)) : List (String × κ) :=
  (ends.filterMap fun x => (s.deferreds.lookup x.1).map (·, x.2)).filterMap registers

theorem newcomers_eq_nil {ends : List ((UInt16 × UInt16) × Settlement)}
    (h : ∀ x ∈ ends, ∀ call : Nat × Request κ, registers (call, x.2) = none) : s.newcomers ends = [] := by
  rw [newcomers, List.filterMap_eq_nil_iff]
  intro job hjob
  obtain ⟨x, hx, hcall⟩ := List.mem_filterMap.mp hjob
  obtain ⟨call, -, rfl⟩ := Option.map_eq_some_iff.mp hcall
  exact h x hx call

theorem upcoming_handle (hsync : s.Synced) (frame : Frame) :
    (s.handle frame).upcoming = insertAll
      (s.newcomers ((notice s.channel.id frame).elim [] (·.settles s.channel.replyWaiters)))
      (insertAll (s.jobs.filterMap registers) (s.channel.consumersAfter (notice s.channel.id frame))) := by
  obtain ⟨ch, -, -, heq⟩ := handle_eq (s := s) frame
  have hnodup : (((notice s.channel.id frame).elim [] (·.settles s.channel.replyWaiters)).map Prod.fst).Nodup := by
    cases notice s.channel.id frame with
    | none => exact List.nodup_nil
    | some n => exact nodup_settles hsync.nodup n
  have hjobs := congrArg Session.jobs heq
  rw [jobs_settleAll hnodup] at hjobs
  rw [upcoming, hjobs, (handle_delivers frame).consumers, List.filterMap_append, insertAll_append]
  rfl

/-- Only a Consume-Ok is answered with a tag. --/
theorem key_of_notice {id : UInt16} {frame : Frame} {key : UInt16 × UInt16} {tag : String}
    (h : notice id frame = some (.reply key (.tag tag))) : key = consumeOk := by
  rcases value_of_notice h with hvalue | ⟨-, _, _, _, hvalue⟩ | ⟨hkey, -⟩
  · cases hvalue
  · cases hvalue
  · exact hkey

/-- A Consume-Ok is about to register the callback of the `consume` that waits for it. --/
theorem Serves.newcomers (h : Serves a s) (tag : String) :
    s.newcomers ((Notice.reply consumeOk (.tag tag)).settles s.channel.replyWaiters) =
      (((a.ledger.waiting.find? (·.2.awaits = consumeOk)).bind (·.2.callback)).map (tag, ·)).toList := by
  rw [h.tracks.find]
  cases hlook : s.deferreds.lookup consumeOk with
  | none =>
    rw [h.synced.settles_reply_nil hlook]
    rfl
  | some call =>
    rw [h.synced.settles_reply hlook, Session.newcomers]
    simp only [List.filterMap_cons, List.filterMap_nil, hlook, Option.map_some, registers, Option.bind_some]
    cases call.2.callback <;> rfl

theorem Serves.upcoming_frame (h : Serves a s) (frame : Frame) (tag : String) (callback : κ)
    (hcallback : ((notice s.channel.id frame).elim a.callbacks a.hear).lookup tag = some callback) :
    (s.handle frame).upcoming.lookup tag = some callback := by
  rw [upcoming_handle h.synced]
  cases hn : notice s.channel.id frame with
  | none =>
    rw [hn] at hcallback
    exact h.upcoming tag callback hcallback
  | some n =>
    rw [hn] at hcallback
    dsimp only [Option.elim] at hcallback ⊢
    cases n with
    | closed code text =>
      have hnone : s.newcomers ((Notice.closed code text).settles s.channel.replyWaiters) = [] := by
        refine newcomers_eq_nil fun x hx call => ?_
        obtain ⟨key, -, rfl⟩ := List.mem_map.mp hx
        rfl
      rw [hnone]
      exact h.upcoming tag callback hcallback
    | cancelled tag' =>
      rw [newcomers_eq_nil (by simp [Notice.settles, registers])]
      have hne : tag ≠ tag' := by
        rintro rfl
        rw [Account.hear, Assoc.lookup_erase_self] at hcallback
        cases hcallback
      rw [Account.hear, Assoc.lookup_erase_of_ne hne] at hcallback
      rw [← h.upcoming tag callback hcallback]
      exact lookup_insertAll_congr (Assoc.lookup_erase_of_ne hne) _
    | reply key value =>
      cases value with
      | undefined =>
        rw [newcomers_eq_nil (by simp [Notice.settles, registers])]
        exact h.upcoming tag callback hcallback
      | queue =>
        rw [newcomers_eq_nil (by simp [Notice.settles, registers])]
        exact h.upcoming tag callback hcallback
      | tag tag' =>
        obtain rfl := key_of_notice hn
        rw [h.newcomers]
        rw [Account.hear] at hcallback
        cases hfind : (a.ledger.waiting.find? (·.2.awaits = consumeOk)).bind (·.2.callback) with
        | none =>
          rw [hfind] at hcallback
          exact h.upcoming tag callback hcallback
        | some callback' =>
          rw [hfind] at hcallback
          dsimp only [Option.elim] at hcallback
          have hinsert : insertAll ((some callback').map (tag', ·)).toList
              (insertAll (s.jobs.filterMap registers) s.channel.consumers) = s.upcoming.insert tag' callback' := rfl
          refine (congrArg (·.lookup tag) hinsert).trans ?_
          by_cases htag : tag = tag'
          · subst htag
            rwa [Assoc.lookup_insert_self] at hcallback ⊢
          · rw [Assoc.lookup_insert_of_ne htag] at hcallback ⊢
            exact h.upcoming tag callback hcallback

theorem ledger_step (id : UInt16) (event : Event κ) : (a.step id event).ledger = a.ledger.step id event := by
  cases event <;> rfl

theorem Serves.step (h : Serves a s) {event : Event κ} (hfree : a.ledger.Free consumeOk event) :
    Serves (a.step s.channel.id event) (s.step event) where
  calls := by
    rw [ledger_step]
    exact calls_step h.calls _ event
  synced := h.synced.step event
  tracks := by
    rw [ledger_step]
    exact h.tracks.step h.synced h.calls hfree
  content := by
    cases event with
    | frame frame =>
      dsimp only [Account.step, Session.step]
      rw [(handle_delivers frame).pending, h.content]
    | resume => exact resume_upcoming.2.1.trans h.content
    | call request =>
      dsimp only [Account.step, Session.step, Session.call]
      cases request.writeArgs with
      | none => exact h.content
      | some args =>
        dsimp only [Session.waitFor]
        split <;> exact h.content
  upcoming := by
    cases event with
    | frame frame => exact h.upcoming_frame frame
    | resume =>
      dsimp only [Account.step, Session.step]
      rw [resume_upcoming.1]
      exact h.upcoming
    | call request =>
      dsimp only [Account.step, Session.step, Session.call]
      cases request.writeArgs with
      | none => exact h.upcoming
      | some args =>
        dsimp only [Session.waitFor, Session.upcoming]
        split <;> exact h.upcoming

theorem Serves.run {id : UInt16} (h : Serves a s) (hid : s.channel.id = id) (events : List (Event κ))
    (hno : a.ledger.NoOverlap id consumeOk events) : Serves (a.run id events) (s.run events) := by
  induction events generalizing a s with
  | nil => exact h
  | cons event events ih =>
    refine ih (hid ▸ h.step hno.1) ((id_step event).trans hid) ?_
    rw [ledger_step]
    exact hno.2

/-- A complete message is given to the callback of its tag, unless the job that registers it has yet to run. --/
theorem Serves.called (h : Serves a s) {frame : Frame} {message : Delivered} {tag : String} {callback : κ}
    (hmessage : (receive s.channel.id a.content frame).2 = some message) (htag : message.consumerTag = some tag)
    (hcallback : a.callbacks.lookup tag = some callback)
    (hjobs : ∀ job ∈ s.jobs, ∀ callback, registers job ≠ some (tag, callback)) :
    (s.handle frame).channel.invoked = s.channel.invoked ++ [(callback, message)] := by
  have hlook : s.channel.consumers.lookup tag = some callback := by
    rw [← h.upcoming tag callback hcallback, Session.upcoming, lookup_insertAll_of_ne]
    rintro ⟨tag', callback'⟩ hx rfl
    obtain ⟨job, hjob, hregisters⟩ := List.mem_filterMap.mp hx
    exact hjobs job hjob callback' hregisters
  rw [(handle_delivers frame).invoked, h.content, hmessage, Option.bind_some, Channel.invokes, htag, Option.bind_some, hlook]
  rfl

/-- What completes no message calls nothing. --/
theorem invoked_step (event : Event κ) (h : s.channel.pendingDelivery = a.content) (hnone : a.completes s.channel.id event = none) :
    (s.step event).channel.invoked = s.channel.invoked := by
  cases event with
  | frame frame =>
    dsimp only [Account.completes] at hnone
    dsimp only [Session.step]
    rw [(handle_delivers frame).invoked, h, hnone]
    exact List.append_nil _
  | resume => exact resume_upcoming.2.2
  | call request =>
    dsimp only [Session.step, Session.call]
    cases request.writeArgs with
    | none => rfl
    | some args =>
      dsimp only [Session.waitFor]
      split <;> simp [Channel.invoked, Channel.does, Effect.invokes]

theorem id_run (events : List (Event κ)) : (s.run events).channel.id = s.channel.id := by
  induction events generalizing s with
  | nil => rfl
  | cons event events ih => exact ih.trans (id_step event)

end Session

open Session

/-! ### Whole runs -/

section
variable {κ : Type} (id : UInt16) (listening : Bool) (before : List (Event κ)) (event : Event κ)

/-- After `before`, no job is left that registers the consumer of the message that `event` completes. --/
def Prompt : Prop :=
  ∀ message tag, (({} : Account κ).run id before).completes id event = some message → message.consumerTag = some tag →
    ∀ job ∈ ((start id listening).run before).jobs, ∀ callback, registers job ≠ some (tag, callback)

/-- The calls that `event` makes after `before`: a message that it completes is given, once, to the callback of the `consume`
    that was answered with its tag. --/
structure Called : Prop where
  complete : ∀ message tag callback, (({} : Account κ).run id before).completes id event = some message →
    message.consumerTag = some tag → (({} : Account κ).run id before).callbacks.lookup tag = some callback →
    ((start id listening).run (before ++ [event])).channel.invoked =
      ((start id listening).run before).channel.invoked ++ [(callback, message)]
  other : (({} : Account κ).run id before).completes id event = none →
    ((start id listening).run (before ++ [event])).channel.invoked = ((start id listening).run before).channel.invoked

end

theorem noOverlap_of_append {κ : Type} {id : UInt16} {key : UInt16 × UInt16} {l : Ledger κ} {events more : List (Event κ)}
    (h : l.NoOverlap id key (events ++ more)) : l.NoOverlap id key events := by
  induction events generalizing l with
  | nil => trivial
  | cons event events ih => exact ⟨h.1, ih h.2⟩

/-- In a run in which no `consume` is called while another one waits, and in which no message is complete before the job that
    registers its consumer has run, every message is given to its callback. --/
theorem deliveries_called {κ : Type} (id : UInt16) (listening : Bool) (events : List (Event κ))
    (hno : ({} : Ledger κ).NoOverlap id consumeOk events)
    (hprompt : ∀ before event after, events = before ++ event :: after → Prompt id listening before event) :
    ∀ before event after, events = before ++ event :: after → Called id listening before event := by
  rintro before event after rfl
  have hserves : Serves (({} : Account κ).run id before) ((start id listening).run before) :=
    (serves_start id listening).run rfl before (noOverlap_of_append hno)
  have hid : ((start id listening : Session κ).run before).channel.id = id := id_run before
  have hrun : (start id listening).run (before ++ [event]) = ((start id listening).run before).step event := by
    rw [Session.run, List.foldl_append]
    rfl
  constructor
  · intro message tag callback hmessage htag hcallback
    rw [hrun]
    have hjobs := hprompt before event after rfl message tag hmessage htag
    cases event with
    | frame frame => exact hserves.called (hid.symm ▸ hmessage) htag hcallback hjobs
    | call request => cases hmessage
    | resume => cases hmessage
  · intro hnone
    rw [hrun]
    exact invoked_step event hserves.content (hid.symm ▸ hnone)

/-! A consumer with the tag `t`, and an empty message for it. -/

def consuming : Event String := .call (.consume "q" "callback" "t" false false false [])

def consumed : Event String := .frame (methodFrame 1 class_id.BASIC basic_method.CONSUME_OK (writeShortString "t"))

def delivering : Event String :=
  .frame (methodFrame 1 class_id.BASIC basic_method.DELIVER
    (writeShortString "t" ++ writeUint64 1 ++ writeUint8 0 ++ writeShortString "" ++ writeShortString "q"))

def emptyHeader : Event String :=
  .frame { type := FRAME_HEADER, channel := 1
           payload := writeUint16 class_id.BASIC ++ writeUint16 0 ++ writeUint64 0 ++ writeUint16 0 }

theorem prompt_of_jobs {κ : Type} {id : UInt16} {listening : Bool} {before : List (Event κ)} {event : Event κ}
    (h : ((start id listening).run before).jobs = []) : Prompt id listening before event := by
  intro _ _ _ _ job hjob
  rw [h] at hjob
  cases hjob

/-- The job runs before the message is complete. --/
theorem delivery_after_job :
    ((({} : Account String).run 1 [consuming, consumed, .resume, delivering]).completes 1 emptyHeader).bind
      Delivered.consumerTag = some "t" ∧
    Called 1 true [consuming, consumed, .resume, delivering] emptyHeader := by
  refine ⟨by decide +kernel, ?_⟩
  refine deliveries_called 1 true [consuming, consumed, .resume, delivering, emptyHeader] ?_ ?_ _ _ [] rfl
  · exact ⟨fun _ _ call hcall => absurd hcall List.not_mem_nil, trivial, trivial, trivial, trivial, trivial⟩
  · rintro before event after h
    rcases before with _ | ⟨e₁, _ | ⟨e₂, _ | ⟨e₃, _ | ⟨e₄, _ | ⟨e₅, before⟩⟩⟩⟩⟩
    · exact prompt_of_jobs rfl
    · cases h
      exact prompt_of_jobs (by decide +kernel)
    · -- the job is there, but what comes next is no frame
      cases h
      exact fun message tag hmessage => by cases hmessage
    · cases h
      exact prompt_of_jobs (by decide +kernel)
    · cases h
      exact prompt_of_jobs (by decide +kernel)
    · simp at h

/-- Consume-Ok and message come in one read: the message is complete before the job has run, and nobody gets it. --/
theorem delivery_before_job :
    ((({} : Account String).run 1 [consuming, consumed, delivering]).completes 1 emptyHeader).bind Delivered.consumerTag =
      some "t" ∧
    (({} : Account String).run 1 [consuming, consumed, delivering]).callbacks.lookup "t" = some "callback" ∧
    ((start 1 true).run [consuming, consumed, delivering, emptyHeader]).drain.channel.invoked = [] := by
  decide +kernel

end Broko.Sdk
