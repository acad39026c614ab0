import OncWire.Sink

/-!
# Writers

A writer hands bytes to a sink, one word, hyper, string of data or padding at a
time, and counts the bytes that the sink took up.  The count tells whether an
item of a counted run has taken any bytes.  It is kept without a bound, so a
count in 64 bits agrees with it as long as fewer than 2 ^ 64 bytes are written.
-/

namespace OncWire

/-- A sink and the count of the bytes that it took up in whole writes. -/
structure Writer where
  /-- Where the bytes go. -/
  sink : Sink
  /-- How many bytes were handed over, fewer than 2 ^ 64 where the count is kept in 64 bits. -/
  written : Nat := 0
  deriving DecidableEq, Repr

/-- A computation that writes and may fail. -/
abbrev Writing := EStateM Fault Writer Unit

namespace Writing

/-- Hands over some bytes in one write. -/
def put (bs : Bytes) : Writing := fun w =>
  match w.sink.accept bs with
  | (none, sink) => .ok () ⟨sink, w.written + bs.length⟩
  | (some f, sink) => .error f ⟨sink, w.written⟩

/-- Hands over a word. -/
def word (v : UInt32) : Writing := put (wordBytes v)

/-- Hands over a hyper. -/
def hyper (v : UInt64) : Writing := put (hyperBytes v)

/-- Hands over the word of an outcome, or fails with its fault. -/
def ofExcept : Except Fault UInt32 → Writing
  | .ok v => word v
  | .error f => throw f

/-- Hands over a length or count, which has to fit a word. -/
def length (n : Nat) : Writing :=
  if n ≤ 4294967295 then word (UInt32.ofNat n) else throw (.lengthOverflow 4294967295 n)

/-- Hands over data of variable length: its length, the bytes, zero padding. -/
def data (bs : Bytes) : Writing := do
  length bs.length
  put bs
  put (padding bs.length)

/-- Writes one item of a counted run, which has to take some bytes. -/
def item (m : Writing) : Writing := do
  let before := (← get).written
  m
  if (← get).written = before then
    throw (.unsupported .zeroWidthItem)

/-- Writes one thing after another. -/
def inOrder : List Writing → Writing
  | [] => return ()
  | m :: ms => do
    m
    inOrder ms

/-- Writes a counted run: the count, then the items. -/
def run (count : Nat) (items : List Writing) : Writing := do
  length count
  inOrder (items.map item)

/-- The fault of a computation from a given state, if there is one, and the state after it. -/
def outcome (m : Writing) (w : Writer) : Option Fault × Writer :=
  match m w with
  | .ok () w => (none, w)
  | .error f w => (some f, w)

end Writing

end OncWire
