import OncWire.Shape.Decode
import OncWire.Shape.Encode

/-!
# Types with a wire form

A type has a wire form when its values are values of a shape.  Such a type is
written and read through that shape, by `Wire.encode` and `Wire.decode`.
-/

namespace OncWire

/-- A type whose values are written and read as values of a shape. -/
class Wire (α : Type) where
  /-- The shape. -/
  shape : Shape
  /-- A value of the type as a value of the shape. -/
  toVal : α → shape.Val
  /-- A value of the shape as a value of the type. -/
  ofVal : shape.Val → α
  /-- Nothing is lost on the way to the shape. -/
  ofVal_toVal (a : α) : ofVal (toVal a) = a

namespace Wire

variable {α : Type} [Wire α]

/-- The form of a value on the wire. -/
def encode (a : α) : Encoding := (shape α).encode (toVal a)

/-- Reads a value. -/
def decode (lim : Limits) : Decoder α := do
  return ofVal (← (shape α).decode lim)

end Wire

/-- The bytes of an encoding, or the fault that stopped it. -/
def Encoding.toExcept (e : Encoding) : Except Fault Bytes :=
  match e.fault with
  | none => .ok e.bytes
  | some f => .error f

end OncWire
