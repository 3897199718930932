import Broko.Broker.Request
import Broko.Theorems.Runs

/-! Reading and acting are apart: what `handle` does to the state is what the request of the event asks for. -/

namespace Broko.Broker
open Amqp Storage

namespace AmqpServer

variable {c : Nat} {num : UInt16} {s : AmqpServer}

/-! ### Methods -/

theorem withArgs_ok {α : Type} {read : Read α} {buf b : Buffer} {a : α} {k : α → AmqpServer}
    (h : read buf = .ok (a, b)) : withArgs read buf s k = .ok (k a) := by
  rw [withArgs, h]

theorem handleQueueDeclare_of_read {buf buf' : Buffer} {m : Method} (h : Method.readQueueDeclare buf = .ok (m, buf')) :
    s.handleQueueDeclare c num buf = .ok (s.act c num m) := by
  obtain ⟨_, b₁, h₁, h⟩ := Reader.bind_eq_ok.mp h
  obtain ⟨queue, b₂, h₂, h⟩ := Reader.bind_eq_ok.mp h
  obtain ⟨bits, b₃, h₃, h⟩ := Reader.bind_eq_ok.mp h
  obtain ⟨args, b₄, h₄, h⟩ := Reader.bind_eq_ok.mp h
  obtain ⟨rfl, rfl⟩ := Prod.mk.inj (Reader.pure_eq_ok.mp h)
  refine withArgs_ok (a := (queue, bits, args)) (b := buf') ?_
  rw [Reader.bind_eq_of_ok h₁, Reader.bind_eq_of_ok h₂, Reader.bind_eq_of_ok h₃, Reader.bind_eq_of_ok h₄]
  rfl

theorem handleQueueBind_of_read {buf buf' : Buffer} {m : Method} (h : Method.readQueueBind buf = .ok (m, buf')) :
    s.handleQueueBind c num buf = .ok (s.act c num m) := by
  obtain ⟨⟨queue, exchange, routingKey⟩, b₁, h₁, h⟩ := Reader.bind_eq_ok.mp h
  obtain ⟨bits, b₂, h₂, h⟩ := Reader.bind_eq_ok.mp h
  obtain ⟨args, b₃, h₃, h⟩ := Reader.bind_eq_ok.mp h
  obtain ⟨rfl, rfl⟩ := Prod.mk.inj (Reader.pure_eq_ok.mp h)
  refine withArgs_ok (a := (queue, exchange, routingKey, bits, args)) (b := buf') ?_
  rw [Reader.bind_eq_of_ok h₁]
  dsimp only
  rw [Reader.bind_eq_of_ok h₂, Reader.bind_eq_of_ok h₃]
  rfl

theorem handleQueueUnbind_of_read {buf buf' : Buffer} {m : Method} (h : Method.readQueueUnbind buf = .ok (m, buf')) :
    s.handleQueueUnbind c num buf = .ok (s.act c num m) := by
  obtain ⟨⟨queue, exchange, routingKey⟩, b₁, h₁, h⟩ := Reader.bind_eq_ok.mp h
  obtain ⟨args, b₂, h₂, h⟩ := Reader.bind_eq_ok.mp h
  obtain ⟨rfl, rfl⟩ := Prod.mk.inj (Reader.pure_eq_ok.mp h)
  refine withArgs_ok (a := (queue, exchange, routingKey)) (b := buf') ?_
  rw [Reader.bind_eq_of_ok h₁]
  dsimp only
  rw [Reader.bind_eq_of_ok h₂]
  rfl

theorem readOnQueue_eq_ok {method : Bytes → UInt8 → Method} {buf buf' : Buffer} {m : Method}
    (h : Method.readOnQueue method buf = .ok (m, buf')) :
    ∃ queue bits, readQueueArgs buf = .ok ((queue, bits), buf') ∧ m = method queue bits := by
  obtain ⟨⟨queue, bits⟩, b₁, h₁, h⟩ := Reader.bind_eq_ok.mp h
  obtain ⟨rfl, rfl⟩ := Prod.mk.inj (Reader.pure_eq_ok.mp h)
  exact ⟨queue, bits, h₁, rfl⟩

theorem handleBasicConsume_of_read {buf buf' : Buffer} {m : Method} (h : Method.readBasicConsume buf = .ok (m, buf')) :
    s.handleBasicConsume c num buf = .ok (s.act c num m) := by
  obtain ⟨_, b₁, h₁, h⟩ := Reader.bind_eq_ok.mp h
  obtain ⟨queue, b₂, h₂, h⟩ := Reader.bind_eq_ok.mp h
  obtain ⟨tag, b₃, h₃, h⟩ := Reader.bind_eq_ok.mp h
  obtain ⟨bits, b₄, h₄, h⟩ := Reader.bind_eq_ok.mp h
  obtain ⟨_, b₅, h₅, h⟩ := Reader.bind_eq_ok.mp h
  obtain ⟨rfl, rfl⟩ := Prod.mk.inj (Reader.pure_eq_ok.mp h)
  refine withArgs_ok (a := (queue, tag, bits)) (b := buf') ?_
  rw [Reader.bind_eq_of_ok h₁, Reader.bind_eq_of_ok h₂, Reader.bind_eq_of_ok h₃, Reader.bind_eq_of_ok h₄,
    Reader.bind_eq_of_ok h₅]
  rfl

theorem handleBasicCancel_of_read {buf buf' : Buffer} {m : Method} (h : Method.readBasicCancel buf = .ok (m, buf')) :
    s.handleBasicCancel c num buf = .ok (s.act c num m) := by
  obtain ⟨tag, b₁, h₁, h⟩ := Reader.bind_eq_ok.mp h
  obtain ⟨bits, b₂, h₂, h⟩ := Reader.bind_eq_ok.mp h
  obtain ⟨rfl, rfl⟩ := Prod.mk.inj (Reader.pure_eq_ok.mp h)
  refine withArgs_ok (a := (tag, bits)) (b := buf') ?_
  rw [Reader.bind_eq_of_ok h₁, Reader.bind_eq_of_ok h₂]
  rfl

/-- The handler of a method whose arguments can be read acts on them. --/
theorem handleMethod_of_decode {classId methodId : UInt16} {buf : Buffer} {m : Method}
    (h : Method.decode classId methodId buf = some m) :
    s.handleMethod c num classId methodId buf = .ok (s.act c num m) := by
  unfold Method.decode at h
  split at h
  · cases h
  · rename_i read hreader
    split at h
    · cases h
    · rename_i m' buf' hread
      obtain rfl := Option.some.inj h
      unfold Method.reader at hreader
      split at hreader
      · rename_i hclass
        subst hclass
        split at hreader
        · rename_i hid
          subst hid
          obtain rfl := Option.some.inj hreader
          exact handleQueueDeclare_of_read hread
        · split at hreader
          · rename_i hid
            subst hid
            obtain rfl := Option.some.inj hreader
            exact handleQueueBind_of_read hread
          · split at hreader
            · rename_i hid
              subst hid
              obtain rfl := Option.some.inj hreader
              exact handleQueueUnbind_of_read hread
            · split at hreader
              · rename_i hid
                subst hid
                obtain rfl := Option.some.inj hreader
                obtain ⟨queue, bits, hargs, rfl⟩ := readOnQueue_eq_ok hread
                exact withArgs_ok hargs
              · split at hreader
                · rename_i hid
                  subst hid
                  obtain rfl := Option.some.inj hreader
                  obtain ⟨queue, bits, hargs, rfl⟩ := readOnQueue_eq_ok hread
                  exact withArgs_ok hargs
                · cases hreader
      · split at hreader
        · rename_i hclass
          subst hclass
          split at hreader
          · rename_i hid
            subst hid
            obtain rfl := Option.some.inj hreader
            exact handleBasicConsume_of_read hread
          · split at hreader
            · rename_i hid
              subst hid
              obtain rfl := Option.some.inj hreader
              exact handleBasicCancel_of_read hread
            · split at hreader
              · rename_i hid
                subst hid
                obtain rfl := Option.some.inj hreader
                obtain ⟨queue, bits, hargs, rfl⟩ := readOnQueue_eq_ok hread
                exact withArgs_ok hargs
              · cases hreader
        · cases hreader

/-! ### Events -/

/-- How the state after an event comes about, by its request. --/
inductive Handles (s : AmqpServer) (e : Event) : Request → Prop
  | method {c : Nat} {num : UInt16} {m : Method} {conn : Connection} {ch : Channel} (hconn : s.connection c = some conn)
      (hreading : conn.reading = true) (hch : s.openChannelAt c num = some ch) (h : s.handle e = s.act c num m) :
      Handles s e (.method c num m)
  | openChannel {c : Nat} {num : UInt16} {conn : Connection} (hconn : s.connection c = some conn)
      (hreading : conn.reading = true)
      (h : s.handle e = (s.openChannel c num).sendMethodFrame c num class_id.CHANNEL channel_method.OPEN_OK
        (writeLongString [])) : Handles s e (.openChannel c num)
  | closeChannel {c : Nat} {num : UInt16} {conn : Connection} (hconn : s.connection c = some conn)
      (hreading : conn.reading = true)
      (h : s.handle e = s.cleanupChannel c num ∨
        s.handle e = (s.cleanupChannel c num).sendMethodFrame c num class_id.CHANNEL channel_method.CLOSE_OK []) :
      Handles s e (.closeChannel c num)
  | shutdown {c : Nat} (h : s.handle e = s.shutdown c ∨ ∃ out, s.handle e = (s.send c out).shutdown c) :
      Handles s e (.shutdown c)
  | restart (h : s.handle e = s.restart) : Handles s e .restart
  | other : Handles s e .other

/-- The frame is read, and it is a method. --/
theorem handle_methodFrame {conn : Connection} {frame : Frame} {frameEnd : UInt8} (hconn : s.connection c = some conn)
    (hreading : conn.reading = true) (hstate : conn.state ≠ .AWAITING_PROTOCOL_HEADER)
    (hlen : frame.payload.length ≤ effectiveMax conn)
    (hend : frameEnd = FRAME_END) (htype : frame.type = FRAME_METHOD) {s' : AmqpServer}
    (h : (if conn.state = .CLOSING then s.handleClosing c (Buffer.ofBytes frame.payload)
      else s.handleMethodFrame c frame.channel (Buffer.ofBytes frame.payload)) = .ok s') :
    s.handle (.frame c frame frameEnd) = s' := by
  have hframe : s.handleFrame c frame = .ok s' := by
    unfold handleFrame
    rw [hconn, Option.map_some, if_pos htype]
    simp only [Option.some.injEq, htype, and_true]
    exact h
  rw [handle, hconn]
  dsimp only
  rw [if_pos ⟨hreading, hstate⟩, receiveFrame, if_neg (Nat.not_lt.mpr hlen), if_neg (not_not.mpr hend), hframe]

theorem handles_methodRequest {conn : Connection} {frame : Frame} {frameEnd : UInt8} (hconn : s.connection c = some conn)
    (hreading : conn.reading = true) (hstate : conn.state ≠ .AWAITING_PROTOCOL_HEADER)
    (hlen : frame.payload.length ≤ effectiveMax conn)
    (hend : frameEnd = FRAME_END) (htype : frame.type = FRAME_METHOD) :
    Handles s (.frame c frame frameEnd)
      (s.methodRequest c frame.channel conn (Buffer.ofBytes frame.payload)) := by
  have hhandle := @handle_methodFrame c s conn frame frameEnd hconn hreading hstate hlen hend htype
  unfold methodRequest
  split
  · exact .other
  · rename_i classId methodId buf hids
    by_cases hclosing : conn.state = .CLOSING
    · rw [if_pos hclosing]
      split
      · rename_i hok
        refine .shutdown (.inl (hhandle ?_))
        rw [if_pos hclosing, handleClosing, hids]
        dsimp only
        rw [if_pos hok]
      · exact .other
    · rw [if_neg hclosing] at hhandle ⊢
      unfold handleMethodFrame at hhandle
      rw [hids] at hhandle
      dsimp only at hhandle
      by_cases hconnection : classId = class_id.CONNECTION
      · rw [if_pos hconnection] at hhandle ⊢
        split
        · exact .other
        · rename_i hzero
          rw [if_neg hzero] at hhandle
          split
          · rename_i hclose
            subst hclose
            split
            · exact .other
            · rename_i hread
              exact .shutdown (.inr ⟨_, hhandle (withArgs_ok hread)⟩)
          · split
            · rename_i hok
              subst hok
              exact .shutdown (.inl (hhandle rfl))
            · exact .other
      · rw [if_neg hconnection] at hhandle ⊢
        by_cases hopen : classId = class_id.CHANNEL ∧ methodId = channel_method.OPEN
        · rw [if_pos hopen] at hhandle ⊢
          split
          · exact .other
          · rename_i hread
            split
            · exact .other
            · rename_i hnum
              refine .openChannel hconn hreading (hhandle ?_)
              rw [handleChannelOpen, withArgs_ok hread, hconn]
              dsimp only
              rw [if_neg hnum]
        · rw [if_neg hopen] at hhandle ⊢
          by_cases hclose : classId = class_id.CHANNEL ∧ methodId = channel_method.CLOSE
          · rw [if_pos hclose] at hhandle ⊢
            split
            · exact .other
            · rename_i hread
              exact .closeChannel hconn hreading (.inr (hhandle (withArgs_ok hread)))
          · rw [if_neg hclose] at hhandle ⊢
            by_cases hok : classId = class_id.CHANNEL ∧ methodId = channel_method.CLOSE_OK
            · rw [if_pos hok] at hhandle ⊢
              exact .closeChannel hconn hreading (.inl (hhandle rfl))
            · rw [if_neg hok] at hhandle ⊢
              split
              · exact .other
              · rename_i hflow
                rw [if_neg hflow] at hhandle
                unfold handleOnChannel at hhandle
                split
                · exact .other
                · rename_i ch hch
                  rw [hch] at hhandle
                  dsimp only at hhandle
                  split
                  · exact .other
                  · rename_i m hm
                    exact .method hconn hreading hch (hhandle (handleMethod_of_decode hm))

theorem eq_method_of_isMethod {r : Request} {p : Method → Bool} (h : r.isMethod c num p = true) :
    ∃ m, r = .method c num m ∧ p m = true := by
  cases r with
  | method c' num' m =>
    obtain ⟨⟨hc, hnum⟩, hp⟩ : (c' = c ∧ num' = num) ∧ p m = true := by simpa [Request.isMethod] using h
    exact ⟨m, by rw [hc, hnum], hp⟩
  | _ => cases h

/-- What `handle` does is what the request asks for. --/
theorem handles_request (s : AmqpServer) (e : Event) : Handles s e (s.request e) := by
  cases e with
  | protocolHeader c header =>
    rw [request]
    cases hconn : s.connection c with
    | none => exact .other
    | some conn =>
      dsimp only
      split
      · rename_i h
        refine .shutdown (.inr ⟨.protocolHeader, ?_⟩)
        rw [handle, hconn]
        dsimp only
        rw [if_pos ⟨h.1, h.2.1⟩, receiveProtocolHeader, if_neg h.2.2]
      · exact .other
  | frame c frame frameEnd =>
    rw [request]
    cases hconn : s.connection c with
    | none => exact .other
    | some conn =>
      dsimp only
      split
      · rename_i h
        exact handles_methodRequest hconn h.1 h.2.1 h.2.2.1 h.2.2.2.1 h.2.2.2.2
      · exact .other
  | disconnect c => exact .shutdown (.inl rfl)
  | restart => exact .restart rfl
  | _ => exact .other

theorem handle_of_method {e : Event} {m : Method} (h : s.request e = .method c num m) :
    ∃ conn ch, s.connection c = some conn ∧ s.channel c num = some ch ∧ s.handle e = s.act c num m := by
  have hhandles := handles_request s e
  rw [h] at hhandles
  cases hhandles with
  | method hconn hreading hch h => exact ⟨_, _, hconn, (Option.filter_eq_some_iff.mp hch).1, h⟩

end AmqpServer
end Broko.Broker
