import Mathlib.Data.List.Range
import Broko.Sdk.Session

/-! Which call gets which reply. `Ledger` says what the calls of a channel should get: a reply of a class and method is for
    the oldest call that waits for it. A channel keeps to it as long as no call is made while another one waits for the
    same class and method; a call that is made then takes the place of the older one, which is never settled. -/

namespace Broko.Sdk
open Amqp

/-! ### What frames say -/

/-- What a frame has for the calls that wait. --/
inductive Notice where
  | reply (key : UInt16 × UInt16) (value : Reply)
  | cancelled (tag : String)
  | closed (code : UInt16) (text : String)

/-- The class and method that it answers, and with what. --/
def Notice.answer : Notice → Option ((UInt16 × UInt16) × Reply)
  | .reply key value => some (key, value)
  | .cancelled _ => some ((class_id.BASIC, basic_method.CANCEL_OK), .undefined)
  | .closed .. => none

def readClose : Read (UInt16 × String) := do
  let code ← readUint16
  let text ← Codec.readShortString
  let _classId ← readUint16
  let _methodId ← readUint16
  return (code, text)

def readDeclareOk : Read (String × UInt32 × UInt32) := do
  let name ← Codec.readShortString
  let messageCount ← readUint32
  let consumerCount ← readUint32
  return (name, messageCount, consumerCount)

/-- What is read, if it can be read. --/
def reading {α : Type} (read : Read α) (args : Buffer) : Option α :=
  match read args with
  | .error _ => none
  | .ok (a, _) => some a

/-- What a method says. --/
def noticeOf (key : UInt16 × UInt16) (args : Buffer) : Option Notice :=
  if key = (class_id.CHANNEL, channel_method.CLOSE) then (reading readClose args).map fun (code, text) => .closed code text
  else if key ∈ Channel.plainReplies then some (.reply key .undefined)
  else if key = (class_id.QUEUE, queue_method.DECLARE_OK) then
    (reading readDeclareOk args).map fun (name, messageCount, consumerCount) =>
      .reply key (.queue name messageCount consumerCount)
  else if key = (class_id.BASIC, basic_method.CANCEL_OK) then (reading Codec.readShortString args).map .cancelled
  else if key = (class_id.BASIC, basic_method.CONSUME_OK) then
    (reading Codec.readShortString args).map fun tag => .reply key (.tag tag)
  else none

/-- What a frame says to channel `id`. --/
def notice (id : UInt16) (frame : Frame) : Option Notice :=
  if frame.channel ≠ id ∨ frame.type ≠ FRAME_METHOD then none
  else
    match decodeMethod (Buffer.ofBytes frame.payload) with
    | .error _ => none
    | .ok (key, args) => noticeOf key args

/-! ### The ledger -/

/-- The calls that have not been answered, the oldest first, and the answers that there have been. --/
structure Ledger (κ : Type) where
  calls : Nat := 0
  waiting : List (Nat × Request κ) := []
  answered : List (Nat × Settlement) := []

namespace Ledger
variable {κ : Type} (l : Ledger κ)

/-- A call that cannot be sent is over; one that is sent waits. --/
def call (request : Request κ) : Ledger κ :=
  if request.writeArgs = none then { l with calls := l.calls + 1, answered := l.answered ++ [(l.calls, .thrown)] }
  else { l with calls := l.calls + 1, waiting := l.waiting ++ [(l.calls, request)] }

/-- A reply is for the oldest call that waits for its class and method. --/
def reply (key : UInt16 × UInt16) (value : Reply) : Ledger κ :=
  match l.waiting.find? (·.2.awaits = key) with
  | none => l
  | some (number, _) =>
    { l with waiting := l.waiting.eraseP (·.2.awaits = key), answered := l.answered ++ [(number, .fulfilled value)] }

/-- A close is an answer to all. --/
def close (code : UInt16) (text : String) : Ledger κ :=
  { l with waiting := [], answered := l.answered ++ l.waiting.map fun (number, _) => (number, .rejected code text) }

def hear : Notice → Ledger κ
  | .reply key value => l.reply key value
  | .cancelled _ => l.reply (class_id.BASIC, basic_method.CANCEL_OK) .undefined
  | .closed code text => l.close code text

def step (id : UInt16) : Ledger κ → Event κ → Ledger κ
  | l, .call request => l.call request
  | l, .frame frame => (notice id frame).elim l l.hear
  | l, .resume => l

def run (id : UInt16) (events : List (Event κ)) : Ledger κ := events.foldl (step id) l

/-- Nothing waits for what a call is about to wait for. --/
def Free (key : UInt16 × UInt16) : Event κ → Prop
  | .call request => request.writeArgs ≠ none → request.awaits = key → ∀ call ∈ l.waiting, call.2.awaits ≠ key
  | _ => True

/-- No call is made while another one waits for class and method `key`. --/
def NoOverlap (id : UInt16) (key : UInt16 × UInt16) : Ledger κ → List (Event κ) → Prop
  | _, [] => True
  | l, event :: events => l.Free key event ∧ NoOverlap id key (l.step id event) events

variable {l}

theorem reply_cases (key : UInt16 × UInt16) (value : Reply) :
    ((∀ call ∈ l.waiting, call.2.awaits ≠ key) ∧ l.reply key value = l) ∨
    ∃ before call after, l.waiting = before ++ call :: after ∧ (∀ call ∈ before, call.2.awaits ≠ key) ∧
      call.2.awaits = key ∧
      l.reply key value = { l with waiting := before ++ after, answered := l.answered ++ [(call.1, .fulfilled value)] } := by
  rw [reply]
  cases h : l.waiting.find? (·.2.awaits = key) with
  | none =>
    rw [List.find?_eq_none] at h
    exact .inl ⟨fun call hcall => by simpa using h call hcall, rfl⟩
  | some call =>
    obtain ⟨hkey, before, after, hwaiting, hbefore⟩ := List.find?_eq_some_iff_append.mp h
    have hkey : call.2.awaits = key := by simpa using hkey
    have hbefore : ∀ call ∈ before, call.2.awaits ≠ key := fun c hc => by simpa using hbefore c hc
    refine .inr ⟨before, call, after, hwaiting, hbefore, hkey, ?_⟩
    have herase : l.waiting.eraseP (·.2.awaits = key) = before ++ after := by
      rw [hwaiting, List.eraseP_append_right _ fun c hc => by simpa using hbefore c hc]
      simp [hkey]
    rw [herase]

/-- Every call has one number, and either waits or has been answered. --/
def Numbered (l : Ledger κ) : Prop := (l.waiting.map Prod.fst ++ l.answered.map Prod.fst).Perm (List.range l.calls)

theorem Numbered.call (h : l.Numbered) (request : Request κ) : (l.call request).Numbered := by
  rw [Numbered, Ledger.call]
  split
  · dsimp only
    rw [List.map_append, ← List.append_assoc, List.range_succ]
    exact h.append_right [l.calls]
  · dsimp only
    rw [List.map_append, List.append_assoc, List.range_succ]
    refine (List.perm_append_comm.append_left _).trans ?_
    rw [← List.append_assoc]
    exact h.append_right [l.calls]

theorem Numbered.reply (h : l.Numbered) (key : UInt16 × UInt16) (value : Reply) : (l.reply key value).Numbered := by
  obtain ⟨-, heq⟩ | ⟨before, call, after, hwaiting, -, -, heq⟩ := reply_cases (l := l) key value
  · rwa [heq]
  · rw [heq, Numbered]
    refine List.Perm.trans ?_ h
    rw [hwaiting]
    simp only [List.map_append, List.map_cons, List.map_nil, List.append_assoc]
    refine List.Perm.append_left _ ?_
    rw [← List.append_assoc]
    exact List.perm_append_comm

theorem Numbered.close (h : l.Numbered) (code : UInt16) (text : String) : (l.close code text).Numbered := by
  rw [Numbered, Ledger.close]
  dsimp only
  rw [List.map_append, List.map_map, List.map_nil, List.nil_append]
  exact List.perm_append_comm.trans h

theorem Numbered.step (h : l.Numbered) (id : UInt16) (event : Event κ) : (l.step id event).Numbered := by
  cases event with
  | call request => exact h.call request
  | resume => exact h
  | frame frame =>
    dsimp only [Ledger.step]
    cases notice id frame with
    | none => exact h
    | some n =>
      cases n with
      | reply key value => exact h.reply key value
      | cancelled tag => exact h.reply _ _
      | closed code text => exact h.close code text

end Ledger

/-! ### What the channel does with a notice -/

/-- The waiters that are settled, and how. --/
def Notice.settles (waiters : List (UInt16 × UInt16)) : Notice → List ((UInt16 × UInt16) × Settlement)
  | .closed code text => waiters.map fun key => (key, .rejected code text)
  | .reply key value => if key ∈ waiters then [(key, .fulfilled value)] else []
  | .cancelled _ =>
    if (class_id.BASIC, basic_method.CANCEL_OK) ∈ waiters then
      [((class_id.BASIC, basic_method.CANCEL_OK), .fulfilled .undefined)]
    else []

/-- The waiters that are left. --/
def Notice.leaves (waiters : List (UInt16 × UInt16)) : Notice → List (UInt16 × UInt16)
  | .closed .. => []
  | .reply key _ => waiters.erase key
  | .cancelled _ => waiters.erase (class_id.BASIC, basic_method.CANCEL_OK)

namespace Channel
variable {κ : Type} (ch : Channel κ)

/-- A channel after it has heard `n`, as far as its waiters are concerned. --/
structure Heard (n : Option Notice) (ch' : Channel κ) : Prop where
  id : ch'.id = ch.id
  waiters : ch'.replyWaiters = n.elim ch.replyWaiters (·.leaves ch.replyWaiters)
  settles : ch'.effects.filterMap Effect.settles =
    ch.effects.filterMap Effect.settles ++ n.elim [] (·.settles ch.replyWaiters)

variable {ch} in
theorem Heard.nothing {ch' : Channel κ} (hid : ch'.id = ch.id) (hwaiters : ch'.replyWaiters = ch.replyWaiters)
    (hsettles : ch'.effects.filterMap Effect.settles = ch.effects.filterMap Effect.settles) : Heard ch none ch' :=
  ⟨hid, hwaiters, by rw [hsettles]; simp⟩

theorem heard_self : Heard ch none ch := .nothing rfl rfl rfl

theorem heard_resolveWait (classId methodId : UInt16) (value : Reply) :
    Heard ch (some (.reply (classId, methodId) value)) (ch.resolveWait classId methodId value) := by
  rw [resolveWait]
  split
  · rename_i hmem
    refine ⟨rfl, rfl, ?_⟩
    simp [does, Effect.settles, Notice.settles, hmem]
  · rename_i hmem
    refine ⟨rfl, (List.erase_of_not_mem hmem).symm, ?_⟩
    simp [Notice.settles, hmem]

theorem heard_closedByServer (code : UInt16) (text : String) :
    Heard ch (some (.closed code text)) (ch.closedByServer code text).state := by
  have hwaiters : (ch.replyWaiters.map fun (classId, methodId) => (Effect.reject classId methodId code text : Effect κ)).filterMap
      Effect.settles = ch.replyWaiters.map fun key => (key, Settlement.rejected code text) := by
    rw [List.filterMap_map, ← List.filterMap_eq_map]
    rfl
  rw [closedByServer]
  dsimp only
  split
  · refine ⟨rfl, rfl, ?_⟩
    dsimp only [does, Outcome.state, Option.elim, Notice.settles]
    simp only [List.filterMap_append, hwaiters]
    simp [List.filterMap_cons, Effect.settles]
  · refine ⟨rfl, rfl, ?_⟩
    dsimp only [does, Outcome.state, Option.elim, Notice.settles]
    simp only [List.filterMap_append, hwaiters]
    simp [List.filterMap_cons, Effect.settles]

/-- Arguments that cannot be read throw, and nothing was said. --/
theorem heard_withArgs {α : Type} {read : Read α} {args : Buffer} {k : α → Outcome κ} {n : α → Notice}
    (h : ∀ a, Heard ch (some (n a)) (k a).state) : Heard ch ((reading read args).map n) (ch.withArgs read args k).state := by
  rw [withArgs, reading]
  cases read args with
  | error => exact heard_self ch
  | ok r => exact h r.1

theorem heard_withArgs_nothing {α : Type} {read : Read α} {args : Buffer} {k : α → Outcome κ}
    (h : ∀ a, Heard ch none (k a).state) : Heard ch none (ch.withArgs read args k).state := by
  rw [withArgs]
  cases read args with
  | error => exact heard_self ch
  | ok r => exact h r.1

theorem heard_finishDelivery (d : PendingDelivery) : Heard ch none (ch.finishDelivery d) := by
  rw [finishDelivery]
  dsimp only
  split
  · split
    · exact .nothing rfl rfl rfl
    · exact .nothing rfl rfl (by simp [does, Effect.settles])
  · exact .nothing rfl rfl (by simp [does, Effect.settles])

theorem heard_handleMethod (classId methodId : UInt16) (args : Buffer) :
    Heard ch (noticeOf (classId, methodId) args) (ch.handleMethod classId methodId args).state := by
  rw [handleMethod, noticeOf]
  simp only [Prod.mk.injEq]
  split
  · refine heard_withArgs ch ?_
    rintro ⟨code, text⟩
    exact heard_closedByServer ch code text
  split
  · exact heard_resolveWait ch classId methodId .undefined
  split
  · refine heard_withArgs ch ?_
    rintro ⟨name, messageCount, consumerCount⟩
    exact heard_resolveWait ch classId methodId (.queue name messageCount consumerCount)
  split
  · rename_i hcancel
    obtain ⟨rfl, rfl⟩ := hcancel
    refine heard_withArgs ch fun tag => ?_
    have h := heard_resolveWait { ch with consumers := ch.consumers.erase tag } class_id.BASIC basic_method.CANCEL_OK .undefined
    exact ⟨h.id, h.waiters, h.settles⟩
  split
  · exact heard_withArgs ch fun tag => heard_resolveWait ch classId methodId (.tag tag)
  split
  · exact heard_withArgs_nothing ch fun method => .nothing rfl rfl rfl
  split
  · exact heard_withArgs_nothing ch fun method => .nothing rfl rfl rfl
  · exact heard_self ch

theorem heard_handleHeader (payload : Bytes) : Heard ch none (ch.handleHeader payload).state := by
  rw [handleHeader]
  split
  · exact heard_self ch
  · refine heard_withArgs_nothing ch ?_
    rintro ⟨bodySize, props⟩
    dsimp only [Outcome.state]
    split
    · exact heard_finishDelivery ch _
    · exact .nothing rfl rfl rfl

theorem heard_handleBody (payload : Bytes) : Heard ch none (ch.handleBody payload).state := by
  rw [handleBody]
  split
  · exact heard_self ch
  · split
    · exact heard_self ch
    · dsimp only [Outcome.state]
      split
      · exact heard_finishDelivery ch _
      · exact .nothing rfl rfl rfl

/-- A frame does to the waiters what it says. --/
theorem heard_handleFrame (frame : Frame) : Heard ch (notice ch.id frame) (ch.handleFrame frame).state := by
  rw [handleFrame, notice]
  by_cases hchannel : frame.channel = ch.id
  · by_cases htype : frame.type = FRAME_METHOD
    · rw [if_neg (not_not.mpr hchannel), if_pos htype, if_neg (by simp [hchannel, htype])]
      cases decodeMethod (Buffer.ofBytes frame.payload) with
      | error => exact heard_self ch
      | ok r => exact heard_handleMethod ch r.1.1 r.1.2 r.2
    · rw [if_neg (not_not.mpr hchannel), if_neg htype, if_pos (.inr htype)]
      split
      · exact heard_handleHeader ch frame.payload
      split
      · exact heard_handleBody ch frame.payload
      · exact heard_self ch
  · rw [if_pos hchannel, if_pos (.inl hchannel)]
    exact heard_self ch

end Channel

/-! ### Settling -/

namespace Session
variable {κ : Type} {s : Session κ}

/-- Promises are settled one after the other. --/
def settleAll (ends : List ((UInt16 × UInt16) × Settlement)) (s : Session κ) : Session κ :=
  ends.foldl (fun s (key, settlement) => s.settle key settlement) s

@[simp] theorem channel_settle (key : UInt16 × UInt16) (e : Settlement) : (s.settle key e).channel = s.channel := by
  rw [settle]
  split <;> rfl

@[simp] theorem calls_settle (key : UInt16 × UInt16) (e : Settlement) : (s.settle key e).calls = s.calls := by
  rw [settle]
  split <;> rfl

@[simp] theorem settled_settle (key : UInt16 × UInt16) (e : Settlement) : (s.settle key e).settled = s.settled := by
  rw [settle]
  split <;> rfl

@[simp] theorem jobs_settle (key : UInt16 × UInt16) (e : Settlement) :
    (s.settle key e).jobs = s.jobs ++ ((s.deferreds.lookup key).map (·, e)).toList := by
  rw [settle]
  split
  · rename_i h
    simp [h]
  · rename_i call h
    simp [h]

theorem lookup_settle_self (key : UInt16 × UInt16) (e : Settlement) : (s.settle key e).deferreds.lookup key = none := by
  rw [settle]
  split
  · assumption
  · exact Assoc.lookup_erase_self _ _

theorem lookup_settle_of_ne {key key' : UInt16 × UInt16} (e : Settlement) (h : key' ≠ key) :
    (s.settle key e).deferreds.lookup key' = s.deferreds.lookup key' := by
  rw [settle]
  split
  · rfl
  · exact Assoc.lookup_erase_of_ne h

section
variable {ends : List ((UInt16 × UInt16) × Settlement)}

@[simp] theorem channel_settleAll : (s.settleAll ends).channel = s.channel := by
  induction ends generalizing s with
  | nil => rfl
  | cons x ends ih => exact (ih (s := s.settle x.1 x.2)).trans (channel_settle x.1 x.2)

@[simp] theorem calls_settleAll : (s.settleAll ends).calls = s.calls := by
  induction ends generalizing s with
  | nil => rfl
  | cons x ends ih => exact (ih (s := s.settle x.1 x.2)).trans (calls_settle x.1 x.2)

@[simp] theorem settled_settleAll : (s.settleAll ends).settled = s.settled := by
  induction ends generalizing s with
  | nil => rfl
  | cons x ends ih => exact (ih (s := s.settle x.1 x.2)).trans (settled_settle x.1 x.2)

theorem lookup_settleAll (key : UInt16 × UInt16) :
    (s.settleAll ends).deferreds.lookup key = if key ∈ ends.map Prod.fst then none else s.deferreds.lookup key := by
  induction ends generalizing s with
  | nil => rfl
  | cons x ends ih =>
    have hstep : (s.settleAll (x :: ends)).deferreds.lookup key = ((s.settle x.1 x.2).settleAll ends).deferreds.lookup key := rfl
    rw [hstep, ih, List.map_cons]
    by_cases hkey : key = x.1
    · simp [hkey, lookup_settle_self]
    · simp only [List.mem_cons, hkey, false_or, lookup_settle_of_ne x.2 hkey]

theorem jobs_settleAll (hnodup : (ends.map Prod.fst).Nodup) :
    (s.settleAll ends).jobs = s.jobs ++ ends.filterMap fun x => (s.deferreds.lookup x.1).map (·, x.2) := by
  induction ends generalizing s with
  | nil => simp [settleAll]
  | cons x ends ih =>
    rw [List.map_cons, List.nodup_cons] at hnodup
    have hrest : (ends.filterMap fun y => ((s.settle x.1 x.2).deferreds.lookup y.1).map (·, y.2)) =
        ends.filterMap fun y => (s.deferreds.lookup y.1).map (·, y.2) := by
      refine List.filterMap_congr fun y hy => ?_
      have hne : y.1 ≠ x.1 := fun heq => hnodup.1 (heq ▸ List.mem_map_of_mem hy)
      rw [lookup_settle_of_ne x.2 hne]
    have hstep : (s.settleAll (x :: ends)).jobs = ((s.settle x.1 x.2).settleAll ends).jobs := rfl
    rw [hstep, ih hnodup.2, hrest, jobs_settle, List.append_assoc, List.filterMap_cons]
    cases s.deferreds.lookup x.1 <;> rfl

end

/-- A frame settles what it says, on the channel that it leaves. --/
theorem handle_eq (frame : Frame) : ∃ ch : Channel κ, ch.id = s.channel.id ∧
    ch.replyWaiters = (notice s.channel.id frame).elim s.channel.replyWaiters (·.leaves s.channel.replyWaiters) ∧
    s.handle frame = ({ s with channel := ch }).settleAll
      ((notice s.channel.id frame).elim [] (·.settles s.channel.replyWaiters)) := by
  have h := Channel.heard_handleFrame { s.channel with effects := [] } frame
  refine ⟨{ (({ s.channel with effects := [] } : Channel κ).handleFrame frame).state with
    effects := s.channel.effects ++ (({ s.channel with effects := [] } : Channel κ).handleFrame frame).state.effects },
    h.id, h.waiters, ?_⟩
  have hsettles := h.settles
  rw [List.filterMap_nil, List.nil_append] at hsettles
  rw [← hsettles]
  rfl

/-! ### Waiters and deferreds -/

/-- The waiters are the keys of the deferreds. --/
structure Synced (s : Session κ) : Prop where
  nodup : s.channel.replyWaiters.Nodup
  waiters : ∀ key, key ∈ s.channel.replyWaiters ↔ ∃ call, s.deferreds.lookup key = some call

theorem synced_start (id : UInt16) (listening : Bool) : (start id listening : Session κ).Synced :=
  ⟨List.nodup_nil, fun key => by simp [start]⟩

theorem Synced.waitFor (h : s.Synced) (key : UInt16 × UInt16) (call : Nat × Request κ) : (s.waitFor key call).Synced := by
  have hmem : ∀ key', key' ∈ (s.waitFor key call).channel.replyWaiters ↔ key' = key ∨ key' ∈ s.channel.replyWaiters := by
    intro key'
    dsimp only [Session.waitFor]
    split
    · rename_i hkey
      constructor
      · exact .inr
      · rintro (rfl | h)
        · exact hkey
        · exact h
    · simp [or_comm]
  constructor
  · dsimp only [Session.waitFor]
    split
    · exact h.nodup
    · rename_i hkey
      exact h.nodup.append (List.nodup_singleton key) (List.disjoint_singleton.mpr hkey)
  · intro key'
    rw [hmem]
    dsimp only [Session.waitFor]
    by_cases heq : key' = key
    · simp [heq]
    · simp [heq, Assoc.lookup_insert_of_ne heq, h.waiters]

/-- What is settled by a notice is what no longer waits. --/
theorem mem_leaves {waiters : List (UInt16 × UInt16)} (hnodup : waiters.Nodup) (n : Notice) (key : UInt16 × UInt16) :
    key ∈ n.leaves waiters ↔ key ∈ waiters ∧ key ∉ (n.settles waiters).map Prod.fst := by
  have herase : ∀ (key' : UInt16 × UInt16) (e : Settlement), key ∈ waiters.erase key' ↔
      key ∈ waiters ∧ key ∉ (if key' ∈ waiters then [(key', e)] else []).map Prod.fst := by
    intro key' e
    rw [hnodup.mem_erase_iff, and_comm]
    split
    · simp
    · rename_i hkey'
      simp only [List.map_nil, List.not_mem_nil, not_false_eq_true, and_true, and_iff_left_iff_imp]
      rintro hmem rfl
      exact hkey' hmem
  cases n with
  | reply key' value => exact herase key' _
  | cancelled tag => exact herase _ _
  | closed code text => simp [Notice.leaves, Notice.settles]

theorem nodup_settles {waiters : List (UInt16 × UInt16)} (hnodup : waiters.Nodup) (n : Notice) :
    ((n.settles waiters).map Prod.fst).Nodup := by
  cases n with
  | closed code text => simpa [Notice.settles, Function.comp_def] using hnodup
  | reply key value =>
    dsimp only [Notice.settles]
    split <;> simp
  | cancelled tag =>
    dsimp only [Notice.settles]
    split <;> simp

theorem Synced.handle (h : s.Synced) (frame : Frame) : (s.handle frame).Synced := by
  obtain ⟨ch, -, hwaiters, heq⟩ := handle_eq (s := s) frame
  rw [heq]
  cases hn : notice s.channel.id frame with
  | none =>
    rw [hn] at hwaiters
    dsimp only [Option.elim] at hwaiters ⊢
    refine ⟨hwaiters ▸ h.nodup, fun key => ?_⟩
    rw [channel_settleAll]
    dsimp only
    rw [hwaiters]
    exact h.waiters key
  | some n =>
    rw [hn] at hwaiters
    dsimp only [Option.elim] at hwaiters ⊢
    constructor
    · rw [channel_settleAll]
      dsimp only
      rw [hwaiters]
      cases n with
      | closed code text => exact List.nodup_nil
      | reply key value => exact h.nodup.erase _
      | cancelled tag => exact h.nodup.erase _
    · intro key
      rw [channel_settleAll, lookup_settleAll]
      dsimp only
      rw [hwaiters, mem_leaves h.nodup, h.waiters]
      split
      · rename_i hmem
        simp [hmem]
      · rename_i hmem
        simp [hmem]

@[simp] theorem waiters_register (request : Request κ) (value : Reply) (ch : Channel κ) :
    (register request value ch).replyWaiters = ch.replyWaiters := by
  unfold register
  split <;> rfl

@[simp] theorem id_register (request : Request κ) (value : Reply) (ch : Channel κ) : (register request value ch).id = ch.id := by
  unfold register
  split <;> rfl

/-- What a job ends with. --/
def ended : (Nat × Request κ) × Settlement → Nat × Settlement
  | ((number, request), .fulfilled value) => (number, .fulfilled (request.returns value))
  | ((number, _), e) => (number, e)

/-- The promises that are settled or will be once their jobs have run. --/
def ends (s : Session κ) : List (Nat × Settlement) := s.settled ++ s.jobs.map ended

/-- A job that runs changes the table of consumers, and its promise is settled. --/
theorem resume_eq : s.resume = s ∨ ∃ job jobs ch, s.jobs = job :: jobs ∧ ch.id = s.channel.id ∧
    ch.replyWaiters = s.channel.replyWaiters ∧
    s.resume = { s with channel := ch, jobs, settled := s.settled ++ [ended job] } := by
  rw [resume]
  split
  · exact .inl rfl
  · rename_i number request value jobs hjobs
    exact .inr ⟨_, jobs, register request value s.channel, hjobs, id_register _ _ _, waiters_register _ _ _, rfl⟩
  · rename_i number request e jobs hnot hjobs
    refine .inr ⟨_, jobs, s.channel, hjobs, rfl, rfl, ?_⟩
    cases e with
    | fulfilled value => exact (hnot value rfl).elim
    | rejected code text => rfl
    | thrown => rfl

/-! ### A channel that keeps to the ledger -/

/-- The deferred at `key` belongs to the only call that waits for it. --/
def Tracks (key : UInt16 × UInt16) (l : Ledger κ) (s : Session κ) : Prop :=
  l.waiting.filter (·.2.awaits = key) = (s.deferreds.lookup key).toList

variable {l : Ledger κ} {key : UInt16 × UInt16}

theorem Tracks.mem_iff (h : Tracks key l s) {call : Nat × Request κ} (hkey : call.2.awaits = key) :
    call ∈ l.waiting ↔ s.deferreds.lookup key = some call := by
  have hmem : call ∈ l.waiting.filter (·.2.awaits = key) ↔ call ∈ (s.deferreds.lookup key).toList := by rw [h]
  simpa [hkey] using hmem

theorem Tracks.awaits (h : Tracks key l s) {call : Nat × Request κ} (hcall : s.deferreds.lookup key = some call) :
    call.2.awaits = key := by
  have hmem : call ∈ l.waiting.filter (·.2.awaits = key) := by
    rw [h, hcall]
    simp
  simpa using (List.mem_filter.mp hmem).2

theorem Tracks.call (h : Tracks key l s) (hcalls : s.calls = l.calls) {request : Request κ} (hfree : l.Free key (.call request)) :
    Tracks key (l.call request) (s.call request) := by
  rw [Tracks, Ledger.call, Session.call]
  cases hargs : request.writeArgs with
  | none =>
    dsimp only
    rw [if_pos rfl]
    exact h
  | some args =>
    dsimp only [waitFor]
    rw [if_neg (by simp)]
    dsimp only
    rw [List.filter_append]
    by_cases hkey : request.awaits = key
    · have hnone : l.waiting.filter (·.2.awaits = key) = [] := by
        rw [List.filter_eq_nil_iff]
        intro call hcall
        simpa using hfree (by simp [hargs]) hkey call hcall
      rw [hnone]
      simp [hkey, hcalls]
    · rw [Assoc.lookup_insert_of_ne (Ne.symm hkey), ← h]
      simp [hkey]

theorem filter_waiting_eq_nil {calls : List (Nat × Request κ)} (h : ∀ call ∈ calls, call.2.awaits ≠ key) :
    calls.filter (·.2.awaits = key) = [] :=
  List.filter_eq_nil_iff.mpr fun call hcall => by simpa using h call hcall

/-- The calls around the one that is answered. --/
theorem Tracks.lookup_eq (h : Tracks key l s) {before after : List (Nat × Request κ)} {call : Nat × Request κ}
    (hwaiting : l.waiting = before ++ call :: after) (hbefore : ∀ call ∈ before, call.2.awaits ≠ key)
    (hawaits : call.2.awaits = key) :
    s.deferreds.lookup key = some call ∧ (before ++ after).filter (·.2.awaits = key) = [] := by
  rw [Tracks, hwaiting, List.filter_append, filter_waiting_eq_nil hbefore, List.nil_append,
    List.filter_cons_of_pos (by simpa using hawaits)] at h
  rw [List.filter_append, filter_waiting_eq_nil hbefore, List.nil_append]
  cases hlook : s.deferreds.lookup key with
  | none => simp [hlook] at h
  | some call' =>
    rw [hlook, Option.toList_some, List.cons.injEq] at h
    exact ⟨congrArg some h.1.symm, h.2⟩

theorem Synced.settles_reply (hsync : s.Synced) {call : Nat × Request κ} (h : s.deferreds.lookup key = some call) (value : Reply) :
    (Notice.reply key value).settles s.channel.replyWaiters = [(key, .fulfilled value)] :=
  if_pos ((hsync.waiters key).mpr ⟨call, h⟩)

theorem Synced.settles_reply_nil (hsync : s.Synced) (h : s.deferreds.lookup key = none) (value : Reply) :
    (Notice.reply key value).settles s.channel.replyWaiters = [] := by
  refine if_neg fun hmem => ?_
  obtain ⟨call, hcall⟩ := (hsync.waiters key).mp hmem
  rw [h] at hcall
  cases hcall

/-- A reply takes the call that waits for it, if there is one. --/
theorem Tracks.reply (h : Tracks key l s) (hsync : s.Synced) (key' : UInt16 × UInt16) (value : Reply) (ch : Channel κ) :
    Tracks key (l.reply key' value)
      (({ s with channel := ch }).settleAll ((Notice.reply key' value).settles s.channel.replyWaiters)) := by
  rw [Tracks, lookup_settleAll]
  by_cases hkey : key' = key
  · subst hkey
    obtain ⟨hnone, heq⟩ | ⟨before, call, after, hwaiting, hbefore, hawaits, heq⟩ := Ledger.reply_cases (l := l) key' value
    · rw [heq, h]
      have hlook : s.deferreds.lookup key' = none := by
        rw [Tracks, filter_waiting_eq_nil hnone] at h
        exact Option.toList_eq_nil_iff.mp h.symm
      simp [hlook]
    · obtain ⟨hlook, hrest⟩ := h.lookup_eq hwaiting hbefore hawaits
      rw [heq, hsync.settles_reply hlook]
      simpa using hrest
  · have hends : key ∉ ((Notice.reply key' value).settles s.channel.replyWaiters).map Prod.fst := by
      dsimp only [Notice.settles]
      split
      · simpa using Ne.symm hkey
      · simp
    rw [if_neg hends]
    dsimp only
    rw [← h]
    obtain ⟨-, heq⟩ | ⟨before, call, after, hwaiting, -, hawaits, heq⟩ := Ledger.reply_cases (l := l) key' value
    · rw [heq]
    · rw [heq, hwaiting]
      have hne : ¬call.2.awaits = key := fun hcall => hkey (hawaits.symm.trans hcall)
      simp [hne]

theorem Tracks.hear (h : Tracks key l s) (hsync : s.Synced) (n : Notice) (ch : Channel κ) :
    Tracks key (l.hear n) (({ s with channel := ch }).settleAll (n.settles s.channel.replyWaiters)) := by
  cases n with
  | reply key' value => exact h.reply hsync key' value ch
  | cancelled tag => exact h.reply hsync _ .undefined ch
  | closed code text =>
    rw [Tracks, lookup_settleAll]
    have hkeys : (Notice.settles s.channel.replyWaiters (.closed code text)).map Prod.fst = s.channel.replyWaiters := by
      simp [Notice.settles, Function.comp_def]
    rw [hkeys]
    split
    · rfl
    · rename_i hmem
      have hlook : s.deferreds.lookup key = none := by
        cases hlook : s.deferreds.lookup key with
        | none => rfl
        | some call => exact absurd ((hsync.waiters key).mpr ⟨call, hlook⟩) hmem
      simp [hlook, Ledger.hear, Ledger.close]

theorem Tracks.step (h : Tracks key l s) (hsync : s.Synced) (hcalls : s.calls = l.calls) {event : Event κ}
    (hfree : l.Free key event) : Tracks key (l.step s.channel.id event) (s.step event) := by
  cases event with
  | call request => exact h.call hcalls hfree
  | resume =>
    dsimp only [Ledger.step, Session.step]
    obtain heq | ⟨job, jobs, ch, -, -, -, heq⟩ := resume_eq (s := s)
    · rwa [heq]
    · rw [heq]
      exact h
  | frame frame =>
    dsimp only [Ledger.step, Session.step]
    obtain ⟨ch, -, -, heq⟩ := handle_eq (s := s) frame
    rw [heq]
    cases notice s.channel.id frame with
    | none => exact h
    | some n => exact h.hear hsync n ch

theorem Synced.step (h : s.Synced) (event : Event κ) : (s.step event).Synced := by
  cases event with
  | frame frame => exact h.handle frame
  | call request =>
    dsimp only [Session.step, Session.call]
    cases request.writeArgs with
    | none => exact ⟨h.nodup, h.waiters⟩
    | some args =>
      refine Synced.waitFor ?_ _ _
      exact ⟨h.nodup, h.waiters⟩
  | resume =>
    dsimp only [Session.step]
    obtain heq | ⟨job, jobs, ch, -, -, hwaiters, heq⟩ := resume_eq (s := s)
    · rwa [heq]
    · rw [heq]
      exact ⟨hwaiters ▸ h.nodup, fun key => hwaiters ▸ h.waiters key⟩

theorem id_step (event : Event κ) : (s.step event).channel.id = s.channel.id := by
  cases event with
  | frame frame =>
    obtain ⟨ch, hid, -, heq⟩ := handle_eq (s := s) frame
    dsimp only [Session.step]
    rw [heq, channel_settleAll]
    exact hid
  | call request =>
    dsimp only [Session.step, Session.call]
    cases request.writeArgs with
    | none => rfl
    | some args =>
      dsimp only [Session.waitFor]
      split <;> rfl
  | resume =>
    dsimp only [Session.step]
    obtain heq | ⟨job, jobs, ch, -, hid, -, heq⟩ := resume_eq (s := s)
    · rw [heq]
    · rw [heq]
      exact hid

theorem calls_step (hcalls : s.calls = l.calls) (id : UInt16) (event : Event κ) :
    (s.step event).calls = (l.step id event).calls := by
  have hledger : (l.step id event).calls = match event with | .call _ => l.calls + 1 | _ => l.calls := by
    cases event with
    | call request =>
      dsimp only [Ledger.step, Ledger.call]
      split <;> rfl
    | resume => rfl
    | frame frame =>
      dsimp only [Ledger.step]
      have hreply : ∀ key value, (l.reply key value).calls = l.calls := by
        intro key value
        rw [Ledger.reply]
        split <;> rfl
      cases notice id frame with
      | none => rfl
      | some n =>
        cases n with
        | reply key value => exact hreply key value
        | cancelled tag => exact hreply _ _
        | closed code text => rfl
  rw [hledger, ← hcalls]
  cases event with
  | call request =>
    dsimp only [Session.step, Session.call]
    cases request.writeArgs <;> rfl
  | frame frame =>
    obtain ⟨ch, -, -, heq⟩ := handle_eq (s := s) frame
    dsimp only [Session.step]
    rw [heq, calls_settleAll]
  | resume =>
    dsimp only [Session.step]
    obtain heq | ⟨job, jobs, ch, -, -, -, heq⟩ := resume_eq (s := s)
    · rw [heq]
    · rw [heq]

/-- A reply has a value only where the call returns it. --/
theorem value_of_notice {id : UInt16} {frame : Frame} {value : Reply} (h : notice id frame = some (.reply key value)) :
    value = .undefined ∨
    (key = (class_id.QUEUE, queue_method.DECLARE_OK) ∧ ∃ name messageCount consumerCount,
      value = .queue name messageCount consumerCount) ∨
    (key = (class_id.BASIC, basic_method.CONSUME_OK) ∧ ∃ tag, value = .tag tag) := by
  rw [notice] at h
  split at h
  · cases h
  split at h
  · cases h
  rename_i key' args _
  rw [noticeOf] at h
  split at h
  · cases hread : reading readClose args <;> simp [hread] at h
  split at h
  · cases h
    exact .inl rfl
  split at h
  · rename_i hkey'
    obtain ⟨⟨name, messageCount, consumerCount⟩, -, heq⟩ := Option.map_eq_some_iff.mp h
    cases heq
    exact .inr (.inl ⟨hkey', name, messageCount, consumerCount, rfl⟩)
  split at h
  · cases hread : reading Codec.readShortString args <;> simp [hread] at h
  split at h
  · rename_i hkey'
    obtain ⟨tag, -, heq⟩ := Option.map_eq_some_iff.mp h
    cases heq
    exact .inr (.inr ⟨hkey', tag, rfl⟩)
  · cases h

theorem returns_eq {request : Request κ} {value : Reply}
    (h : request.awaits ≠ (class_id.QUEUE, queue_method.DECLARE_OK) →
      request.awaits ≠ (class_id.BASIC, basic_method.CONSUME_OK) → value = .undefined) :
    request.returns value = value := by
  cases request with
  | assertQueue => rfl
  | consume => rfl
  | assertExchange | deleteExchange | deleteQueue | bindQueue | unbindQueue | purgeQueue | prefetch | cancel | confirmSelect =>
    dsimp only [Request.awaits] at h
    exact (h (by decide) (by decide)).symm

/-- A channel and what its calls should get: no deferred has been replaced. --/
structure Follows (l : Ledger κ) (s : Session κ) : Prop where
  calls : s.calls = l.calls
  synced : s.Synced
  numbered : l.Numbered
  tracks : ∀ key, Tracks key l s
  ends : s.ends.Perm l.answered

theorem follows_start (id : UInt16) (listening : Bool) : Follows ({} : Ledger κ) (start id listening) :=
  ⟨rfl, synced_start id listening, .refl _, fun _ => rfl, .refl _⟩

theorem Follows.ends_call (h : Follows l s) (request : Request κ) : (s.call request).ends.Perm (l.call request).answered := by
  rw [Session.call, Ledger.call, Session.ends]
  cases request.writeArgs with
  | none =>
    dsimp only
    rw [if_pos rfl, h.calls]
    have hcomm : (s.settled ++ [(l.calls, Settlement.thrown)] ++ s.jobs.map ended).Perm (s.ends ++ [(l.calls, Settlement.thrown)]) := by
      rw [Session.ends, List.append_assoc, List.append_assoc]
      exact List.perm_append_comm.append_left _
    exact hcomm.trans (h.ends.append_right _)
  | some args =>
    rw [if_neg (by simp)]
    exact h.ends

theorem Follows.ends_reply (h : Follows l s) {key : UInt16 × UInt16} {value : Reply} (ch : Channel κ)
    (hvalue : key ≠ (class_id.QUEUE, queue_method.DECLARE_OK) → key ≠ (class_id.BASIC, basic_method.CONSUME_OK) →
      value = .undefined) :
    (({ s with channel := ch }).settleAll ((Notice.reply key value).settles s.channel.replyWaiters)).ends.Perm
      (l.reply key value).answered := by
  rw [Session.ends, settled_settleAll, jobs_settleAll (nodup_settles h.synced.nodup _), List.map_append, ← List.append_assoc]
  obtain ⟨hnone, heq⟩ | ⟨before, call, after, hwaiting, hbefore, hawaits, heq⟩ := Ledger.reply_cases (l := l) key value
  · have hlook : s.deferreds.lookup key = none := by
      have htracks := h.tracks key
      rw [Tracks, filter_waiting_eq_nil hnone] at htracks
      exact Option.toList_eq_nil_iff.mp htracks.symm
    rw [heq, h.synced.settles_reply_nil hlook, List.filterMap_nil, List.map_nil, List.append_nil]
    exact h.ends
  · obtain ⟨hlook, -⟩ := (h.tracks key).lookup_eq hwaiting hbefore hawaits
    have hend : ended (call, .fulfilled value) = (call.1, .fulfilled value) := by
      rw [ended, returns_eq (hawaits ▸ hvalue)]
    rw [heq, h.synced.settles_reply hlook]
    simp only [List.filterMap_cons, List.filterMap_nil, hlook, Option.map_some, List.map_cons, List.map_nil, hend]
    exact h.ends.append_right _

/-- The deferreds are those of the calls that wait. --/
theorem Follows.waiting_perm (h : Follows l s) : (s.channel.replyWaiters.filterMap s.deferreds.lookup).Perm l.waiting := by
  have hnodup : (l.waiting.map Prod.fst).Nodup :=
    (h.numbered.nodup_iff.mpr List.nodup_range).sublist (List.sublist_append_left _ _)
  refine (List.perm_ext_iff_of_nodup ?_ hnodup.of_map).mpr fun call => ?_
  · refine h.synced.nodup.filterMap fun key key' call hcall hcall' => ?_
    exact ((h.tracks key).awaits hcall).symm.trans ((h.tracks key').awaits hcall')
  · rw [List.mem_filterMap, (h.tracks _).mem_iff rfl]
    constructor
    · rintro ⟨key, -, hcall⟩
      rwa [(h.tracks key).awaits hcall]
    · intro hcall
      exact ⟨call.2.awaits, (h.synced.waiters _).mpr ⟨call, hcall⟩, hcall⟩

theorem Follows.ends_close (h : Follows l s) (code : UInt16) (text : String) (ch : Channel κ) :
    (({ s with channel := ch }).settleAll ((Notice.closed code text).settles s.channel.replyWaiters)).ends.Perm
      (l.close code text).answered := by
  rw [Session.ends, settled_settleAll, jobs_settleAll (nodup_settles h.synced.nodup _), List.map_append, ← List.append_assoc,
    Ledger.close]
  refine h.ends.append ?_
  refine List.Perm.trans (.of_eq ?_) (h.waiting_perm.map fun call => (call.1, Settlement.rejected code text))
  simp only [Notice.settles, List.filterMap_map, List.map_filterMap, Function.comp_def, Option.map_map]
  rfl

theorem ends_resume : s.resume.ends = s.ends := by
  obtain heq | ⟨job, jobs, ch, hjobs, -, -, heq⟩ := resume_eq (s := s)
  · rw [heq]
  · rw [heq, Session.ends, Session.ends, hjobs]
    simp

theorem Follows.step (h : Follows l s) {event : Event κ} (hfree : ∀ key, l.Free key event) :
    Follows (l.step s.channel.id event) (s.step event) where
  calls := calls_step h.calls _ event
  synced := h.synced.step event
  numbered := h.numbered.step _ event
  tracks key := (h.tracks key).step h.synced h.calls (hfree key)
  ends := by
    cases event with
    | call request => exact h.ends_call request
    | resume =>
      dsimp only [Ledger.step, Session.step]
      rw [ends_resume]
      exact h.ends
    | frame frame =>
      dsimp only [Ledger.step, Session.step]
      obtain ⟨ch, -, -, heq⟩ := handle_eq (s := s) frame
      rw [heq]
      cases hn : notice s.channel.id frame with
      | none => exact h.ends
      | some n =>
        cases n with
        | reply key value =>
          refine h.ends_reply ch fun hqueue hconsume => ?_
          rcases value_of_notice hn with hvalue | ⟨hkey, -⟩ | ⟨hkey, -⟩
          · exact hvalue
          · exact absurd hkey hqueue
          · exact absurd hkey hconsume
        | cancelled tag => exact h.ends_reply ch fun _ _ => rfl
        | closed code text => exact h.ends_close code text ch

/-! ### A call that is never settled -/

/-- Call `n` has no deferred and no job. --/
structure Lost (n : Nat) (s : Session κ) : Prop where
  called : n < s.calls
  deferreds : ∀ key call, s.deferreds.lookup key = some call → call.1 ≠ n
  ends : ∀ e ∈ s.ends, e.1 ≠ n

variable {n : Nat}

theorem fst_ended (job : (Nat × Request κ) × Settlement) : (ended job).1 = job.1.1 := by
  obtain ⟨⟨number, request⟩, e⟩ := job
  cases e <;> rfl

theorem Lost.settle (h : Lost n s) (key : UInt16 × UInt16) (e : Settlement) : Lost n (s.settle key e) := by
  rw [Session.settle]
  split
  · exact h
  · rename_i call hcall
    refine ⟨h.called, fun key' call' hcall' => ?_, fun x hx => ?_⟩
    · exact (h.deferreds key' call') (Assoc.mem_entries.mp (Assoc.mem_erase.mp (Assoc.mem_entries.mpr hcall')).2)
    · rw [Session.ends, List.map_append, ← List.append_assoc, List.mem_append] at hx
      rcases hx with hx | hx
      · exact h.ends x hx
      · obtain rfl : x = ended (call, e) := by simpa using hx
        rw [fst_ended]
        exact h.deferreds key call hcall

theorem Lost.settleAll (h : Lost n s) (ends : List ((UInt16 × UInt16) × Settlement)) : Lost n (s.settleAll ends) := by
  induction ends generalizing s with
  | nil => exact h
  | cons x ends ih => exact ih (h.settle x.1 x.2)

theorem Lost.waitFor (h : Lost n s) (key : UInt16 × UInt16) {call : Nat × Request κ} (hcall : call.1 ≠ n) :
    Lost n (s.waitFor key call) := by
  refine ⟨h.called, fun key' call' hcall' => ?_, h.ends⟩
  have hmem : (key', call') ∈ (s.deferreds.insert key call).entries := Assoc.mem_entries.mpr hcall'
  rcases Assoc.mem_insert.mp hmem with ⟨-, rfl⟩ | ⟨-, hold⟩
  · exact hcall
  · exact h.deferreds key' call' (Assoc.mem_entries.mp hold)

theorem Lost.call (h : Lost n s) (request : Request κ) : Lost n (s.call request) := by
  have hcalled : n < s.calls + 1 := Nat.lt_succ_of_lt h.called
  have hne : s.calls ≠ n := Nat.ne_of_gt h.called
  rw [Session.call]
  cases request.writeArgs with
  | none =>
    refine ⟨hcalled, h.deferreds, fun x hx => ?_⟩
    dsimp only [Session.ends] at hx
    rw [List.append_assoc, List.mem_append, List.mem_append] at hx
    rcases hx with hx | hx | hx
    · exact h.ends x (List.mem_append_left _ hx)
    · obtain rfl := List.mem_singleton.mp hx
      exact hne
    · exact h.ends x (List.mem_append_right _ hx)
  | some args =>
    refine Lost.waitFor ?_ _ hne
    exact ⟨hcalled, h.deferreds, h.ends⟩

theorem Lost.step (h : Lost n s) (event : Event κ) : Lost n (s.step event) := by
  cases event with
  | call request => exact h.call request
  | frame frame =>
    dsimp only [Session.step]
    obtain ⟨ch, -, -, heq⟩ := handle_eq (s := s) frame
    rw [heq]
    refine Lost.settleAll ?_ _
    exact ⟨h.called, h.deferreds, h.ends⟩
  | resume =>
    dsimp only [Session.step]
    have hends : ∀ e ∈ s.resume.ends, e.1 ≠ n := by
      rw [ends_resume]
      exact h.ends
    obtain heq | ⟨job, jobs, ch, -, -, -, heq⟩ := resume_eq (s := s)
    · rwa [heq]
    · rw [heq] at hends ⊢
      exact ⟨h.called, h.deferreds, hends⟩

theorem Lost.run (h : Lost n s) (events : List (Event κ)) : Lost n (s.run events) := by
  induction events generalizing s with
  | nil => exact h
  | cons event events ih => exact ih (h.step event)

/-- A call that waits for what another one waits for takes its place. --/
theorem Follows.lost (h : Follows l s) {request : Request κ} (hargs : request.writeArgs ≠ none) {call : Nat × Request κ}
    (hwaiting : call ∈ l.waiting) (hkey : call.2.awaits = request.awaits) : Lost call.1 (s.call request) := by
  have hnumbers : (l.waiting.map Prod.fst ++ l.answered.map Prod.fst).Nodup := h.numbered.nodup_iff.mpr List.nodup_range
  have hlt : call.1 < s.calls := by
    rw [h.calls, ← List.mem_range, ← h.numbered.mem_iff]
    exact List.mem_append_left _ (List.mem_map_of_mem hwaiting)
  have hends : ∀ e ∈ s.ends, e.1 ≠ call.1 := by
    intro e he heq
    have hanswered : e.1 ∈ l.answered.map Prod.fst := List.mem_map_of_mem (h.ends.mem_iff.mp he)
    exact (List.nodup_append.mp hnumbers).2.2 call.1 (List.mem_map_of_mem hwaiting) e.1 hanswered heq.symm
  rw [Session.call]
  cases hwrite : request.writeArgs with
  | none => exact absurd hwrite hargs
  | some args =>
    refine ⟨Nat.lt_succ_of_lt hlt, fun key' call' hcall' => ?_, hends⟩
    have hmem : (key', call') ∈ (s.deferreds.insert request.awaits (s.calls, request)).entries := Assoc.mem_entries.mpr hcall'
    rcases Assoc.mem_insert.mp hmem with ⟨-, rfl⟩ | ⟨hne, hold⟩
    · exact Nat.ne_of_gt hlt
    · intro heq
      have hlook := Assoc.mem_entries.mp hold
      have hawaits := (h.tracks key').awaits hlook
      have hwaiting' : call' ∈ l.waiting := ((h.tracks key').mem_iff hawaits).mpr hlook
      have hsame : call' = call := List.inj_on_of_nodup_map (List.nodup_append.mp hnumbers).1 hwaiting' hwaiting heq
      exact hne (hawaits.symm.trans ((congrArg (·.2.awaits) hsame).trans hkey))

/-! ### Whole runs -/

/-- As long as no two calls wait for one class and method, the calls get what they should; after that, one of them gets
    nothing. --/
theorem Follows.run (h : Follows l s) (events : List (Event κ)) :
    ((∀ key, l.NoOverlap s.channel.id key events) ∧ Follows (l.run s.channel.id events) (s.run events)) ∨
    ((¬∀ key, l.NoOverlap s.channel.id key events) ∧ ∃ n, Lost n (s.run events)) := by
  induction events generalizing l s with
  | nil => exact .inl ⟨fun _ => trivial, h⟩
  | cons event events ih =>
    by_cases hfree : ∀ key, l.Free key event
    · have hid : (s.step event).channel.id = s.channel.id := id_step event
      rcases ih (h.step hfree) with ⟨hno, hfollows⟩ | ⟨hno, hlost⟩
      · rw [hid] at hno hfollows
        exact .inl ⟨fun key => ⟨hfree key, hno key⟩, hfollows⟩
      · rw [hid] at hno
        exact .inr ⟨fun hall => hno fun key => (hall key).2, hlost⟩
    · refine .inr ⟨fun hall => hfree fun key => (hall key).1, ?_⟩
      obtain ⟨key, hkey⟩ := not_forall.mp hfree
      cases event with
      | frame frame => exact absurd trivial hkey
      | resume => exact absurd trivial hkey
      | call request =>
        simp only [Ledger.Free, not_forall, not_not] at hkey
        obtain ⟨hargs, rfl, call, hcall, hawaits⟩ := hkey
        exact ⟨call.1, (h.lost hargs hcall hawaits).run events⟩

theorem calls_run (hcalls : s.calls = l.calls) (id : UInt16) (events : List (Event κ)) :
    (s.run events).calls = (l.run id events).calls := by
  induction events generalizing l s with
  | nil => exact hcalls
  | cons event events ih => exact ih (calls_step hcalls id event)

theorem settled_resumes (k : Nat) (hk : k = s.jobs.length) : (s.run (List.replicate k .resume)).settled = s.ends := by
  induction k generalizing s with
  | zero =>
    rw [Session.ends, List.eq_nil_of_length_eq_zero hk.symm]
    simp [Session.run]
  | succ k ih =>
    have hlength : k = s.resume.jobs.length := by
      rw [Session.resume]
      split
      · rename_i hjobs
        rw [hjobs] at hk
        cases hk
      · rename_i hjobs
        rw [hjobs] at hk
        exact Nat.succ.inj hk
      · rename_i hjobs
        rw [hjobs] at hk
        exact Nat.succ.inj hk
    exact (ih hlength).trans ends_resume

theorem settled_drain : s.drain.settled = s.ends := settled_resumes _ rfl

/-- In the end the calls have got what they should. --/
theorem Follows.outcome_drain (h : Follows l s) (hwaiting : l.waiting = []) {n : Nat} (hn : n < l.calls) :
    ∃ answer, (n, answer) ∈ l.answered ∧ s.drain.outcome n = some answer := by
  have hnumbers := h.numbered
  rw [Ledger.Numbered, hwaiting, List.map_nil, List.nil_append] at hnumbers
  obtain ⟨⟨_, answer⟩, hmem, rfl⟩ := List.mem_map.mp (hnumbers.mem_iff.mpr (List.mem_range.mpr hn))
  refine ⟨answer, hmem, ?_⟩
  rw [outcome, settled_drain]
  refine Assoc.lookup_of_mem ?_ (h.ends.mem_iff.mpr hmem)
  exact (h.ends.map Prod.fst).nodup_iff.mpr (hnumbers.nodup_iff.mpr List.nodup_range)

/-- A call that is lost gets nothing, however long its jobs run. --/
theorem Lost.outcome_drain (h : Lost n s) : s.drain.outcome n = none := by
  rw [outcome, List.lookup_eq_none_iff]
  intro e he
  have hne := (h.run _).ends e (List.mem_append_left _ he)
  simpa using Ne.symm hne

end Session

open Session

/-- In a run in which every call is answered, every promise is settled with the answer to its call, exactly if no call is
    made while an earlier one waits for a reply of the same class and method. --/
theorem own_replies_iff {κ : Type} (id : UInt16) (listening : Bool) (events : List (Event κ))
    (hanswered : (({} : Ledger κ).run id events).waiting = []) :
    (∀ n < (({} : Ledger κ).run id events).calls, ∃ answer, (n, answer) ∈ (({} : Ledger κ).run id events).answered ∧
      ((start id listening).run events).drain.outcome n = some answer) ↔
    ∀ key, ({} : Ledger κ).NoOverlap id key events := by
  rcases (follows_start id listening).run events with ⟨hno, hfollows⟩ | ⟨hno, n, hlost⟩
  · refine ⟨fun _ => hno, fun _ n hn => ?_⟩
    exact hfollows.outcome_drain hanswered hn
  · refine ⟨fun hall => ?_, fun h => absurd h hno⟩
    have hcalls := calls_run (follows_start id listening).calls id events
    obtain ⟨answer, -, houtcome⟩ := hall n (hcalls ▸ hlost.called)
    rw [hlost.outcome_drain] at houtcome
    cases houtcome

/-- A declaration of a queue, and the reply to it. --/
def declaring (name : String) : Event Unit := .call (.assertQueue name false false false false [])

def declared (name : String) : Event Unit :=
  .frame (methodFrame 1 class_id.QUEUE queue_method.DECLARE_OK (writeShortString name ++ writeUint32 0 ++ writeUint32 0))

/-- One declaration after the other. --/
theorem declares_answered :
    ((start 1 true).run [declaring "a", declared "a", declaring "b", declared "b"]).drain.outcome 0 =
      some (.fulfilled (.queue "a" 0 0)) ∧
    ∃ answer, (1, answer) ∈ (({} : Ledger Unit).run 1 [declaring "a", declared "a", declaring "b", declared "b"]).answered ∧
      ((start 1 true).run [declaring "a", declared "a", declaring "b", declared "b"]).drain.outcome 1 = some answer := by
  have hwaiting : (({} : Ledger Unit).run 1 [declaring "a", declared "a"]).waiting = [] := by decide +kernel
  have hall := (own_replies_iff 1 true [declaring "a", declared "a", declaring "b", declared "b"] (by decide +kernel)).mpr
    fun key => ⟨fun _ _ call hcall => absurd hcall List.not_mem_nil, trivial,
      fun _ _ call hcall => absurd (hwaiting ▸ hcall) List.not_mem_nil, trivial, trivial⟩
  exact ⟨by decide +kernel, hall 1 (by decide +kernel)⟩

/-- Two declarations at once: both are answered, in their order, and the first promise is never settled. --/
theorem declares_overlapping :
    (({} : Ledger Unit).run 1 [declaring "a", declaring "b", declared "a", declared "b"]).waiting = [] ∧
    (0, .fulfilled (.queue "a" 0 0)) ∈
      (({} : Ledger Unit).run 1 [declaring "a", declaring "b", declared "a", declared "b"]).answered ∧
    ((start 1 true).run [declaring "a", declaring "b", declared "a", declared "b"]).drain.outcome 0 = none ∧
    ((start 1 true).run [declaring "a", declaring "b", declared "a", declared "b"]).drain.outcome 1 =
      some (.fulfilled (.queue "a" 0 0)) := by
  decide +kernel

end Broko.Sdk
