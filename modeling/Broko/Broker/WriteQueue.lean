import Broko.Amqp.Types

/-! `AmqpConnection::sendFrame` and `AmqpConnection::doWrite` at the grain of `writeMu_`. Frames are sent from any thread.
    The thread that finds `writing_` unset sets it and calls `doWrite` after the section; `doWrite` takes a frame in a
    section of its own, starts an `async_write` after it, and is called again by the handler of the write. An
    `async_write` puts its buffer on the socket in pieces and calls its handler once.

    `entered` and `socket` record what has happened and are never read. -/

namespace Broko.Broker
open Amqp

/-- A call of `doWrite` that has not started its write. --/
inductive Call where
  /-- Its section is still to come. -/
  | entering
  /-- It has taken a frame, and `async_write` is next. -/
  | starting (data : Bytes)
  deriving DecidableEq, Repr

structure WriteState where
  writeQueue : List Bytes := []
  writing : Bool := false
  calls : List Call := []
  /-- The outstanding writes, each with what is left of its buffer. -/
  outstanding : List Bytes := []
  /-- Whether a write has failed. -/
  failed : Bool := false
  /-- The frames in the order in which they entered `writeQueue_`. -/
  entered : List Bytes := []
  /-- The bytes that were put on the socket. -/
  socket : Bytes := []
  deriving DecidableEq, Repr

inductive WriteEvent where
  | sendFrame (data : Bytes)
  /-- A call of `doWrite` runs its section. -/
  | doWrite (i : Nat)
  /-- A call of `doWrite` starts the write of the frame that it has taken. -/
  | asyncWrite (i : Nat)
  /-- An outstanding write puts up to `n` bytes on the socket. -/
  | progress (i n : Nat)
  /-- The handler of a write that has put out its buffer. -/
  | complete (i : Nat)
  /-- The handler of a write that has failed: `shutdown`, and no `doWrite`. -/
  | fail (i : Nat)
  deriving DecidableEq, Repr

namespace WriteState

def sendFrame (w : WriteState) (data : Bytes) : WriteState :=
  let w := { w with writeQueue := w.writeQueue ++ [data], entered := w.entered ++ [data] }
  if w.writing then w else { w with writing := true, calls := w.calls ++ [.entering] }

def doWrite (w : WriteState) (i : Nat) : WriteState :=
  match w.calls[i]? with
  | some .entering =>
    match w.writeQueue with
    | [] => { w with writing := false, calls := w.calls.eraseIdx i }
    | data :: rest => { w with writeQueue := rest, calls := w.calls.set i (.starting data) }
  | _ => w

def asyncWrite (w : WriteState) (i : Nat) : WriteState :=
  match w.calls[i]? with
  | some (.starting data) => { w with calls := w.calls.eraseIdx i, outstanding := w.outstanding ++ [data] }
  | _ => w

def progress (w : WriteState) (i n : Nat) : WriteState :=
  match w.outstanding[i]? with
  | none => w
  | some left => { w with outstanding := w.outstanding.set i (left.drop n), socket := w.socket ++ left.take n }

def complete (w : WriteState) (i : Nat) : WriteState :=
  match w.outstanding[i]? with
  | some [] => { w with outstanding := w.outstanding.eraseIdx i, calls := w.calls ++ [.entering] }
  | _ => w

def fail (w : WriteState) (i : Nat) : WriteState :=
  match w.outstanding[i]? with
  | none => w
  | some _ => { w with outstanding := w.outstanding.eraseIdx i, failed := true }

def handle (w : WriteState) : WriteEvent → WriteState
  | .sendFrame data => w.sendFrame data
  | .doWrite i => w.doWrite i
  | .asyncWrite i => w.asyncWrite i
  | .progress i n => w.progress i n
  | .complete i => w.complete i
  | .fail i => w.fail i

/-- A run from a connection that was just accepted. --/
def run (events : List WriteEvent) : WriteState := events.foldl handle {}

end WriteState
end Broko.Broker
