/-!
# Limits on what is read

A reader may bound the lengths and counts that it honours and may insist that
padding is zero.
-/

namespace OncWire

/-- The limits under which an input is read. -/
structure Limits where
  /-- The greatest length of data and the greatest count of items. -/
  maxLength : UInt32 := 4294967295
  /-- Whether padding bytes have to be zero. -/
  strictPadding : Bool := false
  deriving DecidableEq, Repr

namespace Limits

/-- No limit beyond those of the wire format. -/
def none : Limits := {}

/-- The same limits with another bound on lengths and counts. -/
def withMaxLength (lim : Limits) (n : UInt32) : Limits := { lim with maxLength := n }

/-- The same limits with another rule for padding. -/
def withStrictPadding (lim : Limits) (b : Bool) : Limits := { lim with strictPadding := b }

end Limits

end OncWire
