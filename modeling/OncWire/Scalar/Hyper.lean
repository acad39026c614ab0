/-!
# Values of two words

The 64-bit scalar types take a hyper, eight bytes at once.  Every hyper stands
for a value, so reading one never refuses it.  A float is its bit pattern.
-/

namespace OncWire

/-- The types whose values take a hyper. -/
inductive Hyper
  | int64
  | uint64
  | float64
  deriving DecidableEq, Repr

namespace Hyper

/-- The type of the values of a hyper. -/
@[reducible] def Val : Hyper → Type
  | int64 => Int64
  | uint64 => UInt64
  | float64 => UInt64

instance instDecidableEqVal : (k : Hyper) → DecidableEq k.Val
  | int64 => inferInstanceAs (DecidableEq Int64)
  | uint64 => inferInstanceAs (DecidableEq UInt64)
  | float64 => inferInstanceAs (DecidableEq UInt64)

/-- The hyper that stands for a value. -/
def encode : (k : Hyper) → k.Val → UInt64
  | int64, v => Int64.toUInt64 v
  | uint64, v => v
  | float64, v => v

/-- The value that a hyper stands for. -/
def decode : (k : Hyper) → UInt64 → k.Val
  | int64, h => h.toInt64
  | uint64, h => h
  | float64, h => h

@[simp] theorem decode_encode (k : Hyper) (v : k.Val) : k.decode (k.encode v) = v := by
  cases k with
  | int64 => exact Int64.toInt64_toUInt64 v
  | uint64 | float64 => rfl

@[simp] theorem encode_decode (k : Hyper) (h : UInt64) : k.encode (k.decode h) = h := by
  cases k with
  | int64 => exact UInt64.toUInt64_toInt64 h
  | uint64 | float64 => rfl

end Hyper

end OncWire
