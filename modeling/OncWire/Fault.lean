import OncWire.Enumeration
import OncWire.Fault.Complaint
import OncWire.Scalar.Narrow

/-!
# Faults

Everything that can go wrong while values are written or read, one constructor
for each cause with what is known about it, and the wording of all of them in
`Fault.message`.
-/

namespace OncWire

/-- What the wire format has no form for. -/
inductive Unsupported
  /-- An item of a counted run that takes no bytes. -/
  | zeroWidthItem
  /-- A value whose type only the bytes could tell. -/
  | anyValue
  /-- A value to be skipped whose type only the bytes could tell. -/
  | skippedValue
  deriving DecidableEq, Repr

/-- How a missing form is reported. -/
def Unsupported.wording : Unsupported → String
  | zeroWidthItem => "zero-width array or map element"
  | anyValue => "deserialize_any (XDR is not self-describing)"
  | skippedValue => "deserialize_ignored_any (XDR is not self-describing)"

/-- Why writing or reading failed. -/
inductive Fault
  /-- A value was refused by a reader or writer of values. -/
  | refused (why : Complaint)
  /-- The input ended inside a word, a hyper, data or padding. -/
  | unexpectedEof
  /-- A length or count promises more than the input holds. -/
  | malformedLength (length : UInt32) (remaining : Nat)
  /-- The count of a run was not known before its items. -/
  | lengthRequired
  /-- Text is not well formed, or a character is not one. -/
  | invalidString
  /-- A discriminant selects nothing. -/
  | unmappedDiscriminant (value : UInt32) (expected : String)
  /-- A boolean is neither of the two words. -/
  | invalidBool (word : UInt32)
  /-- The flag of an optional value is neither of the two words. -/
  | invalidOption (word : UInt32)
  /-- A length or count is above a maximum. -/
  | lengthOverflow (max got : Nat)
  /-- A word is out of the range of a narrow integer. -/
  | integerOutOfRange (kind : Narrow) (value : Int)
  /-- Bytes are left over in a body that should be used up. -/
  | trailingBytes (count : Nat)
  /-- A padding byte is not zero. -/
  | invalidPadding
  /-- The wire format has no form for the value. -/
  | unsupported (what : Unsupported)
  /-- The receiving end took only a part of the bytes. -/
  | io (text : String)
  /-- A message goes in the other direction. -/
  | unexpectedMessageType (expected got : MsgType)
  /-- A credential is of another flavor. -/
  | unexpectedFlavor (expected got : AuthFlavor)
  deriving DecidableEq, Repr

namespace Fault

/-- The wording of a fault. -/
def message : Fault → String
  | refused why => why.wording
  | unexpectedEof => "unexpected end of input"
  | malformedLength length remaining =>
    s!"length {length} exceeds the {remaining} bytes remaining"
  | lengthRequired =>
    "sequence length must be known before serialization (XDR requires a length prefix)"
  | invalidString => "string contains invalid bytes"
  | unmappedDiscriminant value expected =>
    s!"unmapped discriminant {value}, expected {expected}"
  | invalidBool word => s!"invalid boolean encoding: {word} (must be 0 or 1)"
  | invalidOption word => s!"invalid optional discriminant: {word} (must be 0 or 1)"
  | lengthOverflow max got => s!"length {got} exceeds maximum {max}"
  | integerOutOfRange kind value => s!"integer {value} out of range for {kind.label}"
  | trailingBytes count => s!"{count} trailing bytes after the encoded value"
  | invalidPadding => "non-zero padding bytes"
  | unsupported what => s!"XDR does not support type: {what.wording}"
  | io text => s!"I/O error: {text}"
  | unexpectedMessageType expected got =>
    s!"unexpected message type {Enumerated.code got} (expected {Enumerated.code expected})"
  | unexpectedFlavor expected got =>
    s!"unexpected auth flavor {Enumerated.code got} (expected {Enumerated.code expected})"

/-- The fault for a length above a maximum, if it is. -/
def ofLength? (max got : Nat) : Option Fault :=
  if max < got then some (lengthOverflow max got) else none

/-- The remainder of an expectation after the words that announce a discriminant. -/
def discriminantName? (expected : String) : Option String :=
  if discriminantOf.toList.isPrefixOf expected.toList then
    some (String.ofList (expected.toList.drop discriminantOf.length))
  else none

/-- The fault for a complaint.  An unsigned value where a discriminant was expected becomes an
unmapped discriminant, cut down to the greatest word; any other complaint stays as it is. -/
def ofComplaint : Complaint → Fault
  | .invalidValue (.unsigned n) expected =>
    match discriminantName? expected with
    | some name => unmappedDiscriminant (UInt32.ofNat (min n 4294967295)) name
    | none => refused (.invalidValue (.unsigned n) expected)
  | why => refused why

/-- A complaint about an unmapped discriminant becomes the fault for it. -/
@[simp] theorem ofComplaint_unmapped (code : UInt32) (name : String) :
    ofComplaint (.unmapped code name) = unmappedDiscriminant code name := by
  have hname : discriminantName? (discriminantOf ++ name) = some name := by
    simp only [discriminantName?, String.toList_append, ← String.length_toList,
      List.drop_left]
    simp [String.ofList_toList]
  have hcode : UInt32.ofNat (min code.toNat 4294967295) = code := by
    have := code.toNat_lt
    rw [Nat.min_eq_left (by omega), UInt32.ofNat_toNat]
  simp only [Complaint.unmapped, ofComplaint, hname, hcode]

/-- A complaint about a value stays as it is if no discriminant was expected. -/
theorem ofComplaint_invalidValue {expected : String} (h : discriminantName? expected = none)
    (found : Found) :
    ofComplaint (.invalidValue found expected) = refused (.invalidValue found expected) := by
  cases found with
  | unsigned n => simp only [ofComplaint, h]
  | _ => rfl

/-- A complaint stays as it is, or a discriminant is unmapped. -/
theorem ofComplaint_eq_refused_or (why : Complaint) :
    ofComplaint why = refused why ∨
      ∃ code name, ofComplaint why = unmappedDiscriminant code name := by
  cases why with
  | invalidValue found expected =>
    cases hname : discriminantName? expected with
    | none => exact .inl (ofComplaint_invalidValue hname found)
    | some name =>
      cases found with
      | unsigned n =>
        right
        exact ⟨UInt32.ofNat (min n 4294967295), name, by simp only [ofComplaint, hname]⟩
      | _ => exact .inl rfl
  | _ => exact .inl rfl

end Fault

end OncWire
