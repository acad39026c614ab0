import OncWire.Bytes
import OncWire.Fault

/-!
# Sinks

The receiving end of a writer: a buffer that may have a limit.  Bytes that fit
are taken up even where the others do not, and then the sink reports that it
took only a part of them.
-/

namespace OncWire

/-- A buffer that holds at most a given number of bytes, if it has a limit. -/
structure Sink where
  /-- What the buffer holds. -/
  buffer : Bytes
  /-- How many bytes it may hold in all. -/
  limit : Option Nat := none
  /-- What the sink says when bytes do not fit. -/
  refusal : String := "failed to write whole buffer"
  deriving DecidableEq, Repr

namespace Sink

/-- The bytes of a write that still fit. -/
def fitting (k : Sink) (bs : Bytes) : Bytes :=
  match k.limit with
  | none => bs
  | some n => bs.take (n - k.buffer.length)

/-- Takes up the bytes that fit, and fails if those are not all. -/
def accept (k : Sink) (bs : Bytes) : Option Fault × Sink :=
  let taken := k.fitting bs
  (if taken.length < bs.length then some (.io k.refusal) else none,
    { k with buffer := k.buffer ++ taken })

end Sink

end OncWire
