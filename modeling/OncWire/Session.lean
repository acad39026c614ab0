import OncWire.Decoder
import OncWire.Message.Acknowledge
import OncWire.Shape.Write

/-!
# Sessions

A session is a run of steps on one input or on one sink.  A step that fails
does not end it: the next step goes on from the bytes that are left, or adds to
what the sink has taken up.
-/

namespace OncWire

/-! ### Reading sessions -/

/-- Runs one decoder after another on an input.  Yields the outcome of each with the bytes left
after it, and the bytes left at the end. -/
def Decoder.session {α : Type} : List (Decoder α) → Bytes → List (Except Fault α × Bytes) × Bytes
  | [], input => ([], input)
  | d :: ds, input =>
    let reading : Reading α := d input
    let (outcomes, last) := session ds reading.rest
    ((reading.toExcept, reading.rest) :: outcomes, last)

/-! ### Writing sessions -/

/-- A step of a writing session. -/
inductive Step
  /-- A value is written by the writer of the session. -/
  | write (s : Shape) (v : s.Val)
  /-- A value is written by a new writer on the same sink. -/
  | writeAnew (s : Shape) (v : s.Val)
  /-- The header of an accepted reply is handed over in one write. -/
  | acknowledge (status : AcceptStat) (xid : UInt32)

namespace Step

/-- Runs a step: its fault, if there is one, and the writer after it. -/
def run : Step → Writer → Option Fault × Writer
  | write s v, w => (s.write v).outcome w
  | writeAnew s v, w =>
    let (fault, after) := (s.write v).outcome ⟨w.sink, 0⟩
    (fault, { w with sink := after.sink })
  | acknowledge status xid, w =>
    let (fault, sink) := w.sink.accept (acceptedHeader status xid)
    (fault, { w with sink })

/-- The events of a step. -/
def events : Step → List Event
  | write _ _ => []
  | writeAnew _ _ => []
  | acknowledge status xid => [.writingAcceptedReply xid status]

/-- Runs one step after another.  Yields the fault of each with the buffer after it, and the
writer at the end. -/
def session : List Step → Writer → List (Option Fault × Bytes) × Writer
  | [], w => ([], w)
  | step :: steps, w =>
    let (fault, after) := step.run w
    let (outcomes, last) := session steps after
    ((fault, after.sink.buffer) :: outcomes, last)

end Step

end OncWire
