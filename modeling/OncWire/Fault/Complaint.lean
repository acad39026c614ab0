import OncWire.Text.Quoted

/-!
# Complaints about values

A reader of values that knows nothing of the wire can still say what is wrong
with what it was given: it found one thing and expected another.  Such
complaints are kept as data; their wording is in `Found.wording` and
`Complaint.wording`.
-/

namespace OncWire

/-! ### What was found -/

/-- A value that a reader met where it expected another. -/
inductive Found
  | unsigned (n : Nat)
  | signed (n : Int)
  | bool (b : Bool)
  | text (s : String)
  | unit
  | sequence
  deriving DecidableEq, Repr

/-- How a value is named in a complaint. -/
def Found.wording : Found → String
  | unsigned n => "integer `" ++ toString n ++ "`"
  | signed n => "integer `" ++ toString n ++ "`"
  | bool b => "boolean `" ++ toString b ++ "`"
  | text s => "string " ++ quoted s
  | unit => "unit value"
  | sequence => "sequence"

/-! ### What is wrong -/

/-- What is wrong with a value. -/
inductive Complaint
  /-- A text of the caller's own. -/
  | custom (text : String)
  /-- The value is an integer of 128 bits. -/
  | hugeInteger (signed : Bool)
  /-- An odd number was to be written where only even ones may stand. -/
  | oddWritten (n : UInt32)
  /-- An odd number was read where only even ones may stand. -/
  | oddRead (n : UInt32)
  /-- The value has the right type and is still not allowed. -/
  | invalidValue (found : Found) (expected : String)
  /-- The value has the wrong type. -/
  | invalidType (found : Found) (expected : String)
  /-- The value has too few parts. -/
  | invalidLength (n : Nat) (expected : String)
  deriving DecidableEq, Repr

/-- The wording of a complaint. -/
def Complaint.wording : Complaint → String
  | custom text => text
  | hugeInteger signed => (if signed then "i128" else "u128") ++ " is not supported"
  | oddWritten n => "cannot encode odd " ++ toString n
  | oddRead n => "cannot decode odd " ++ toString n
  | invalidValue found expected => "invalid value: " ++ found.wording ++ ", expected " ++ expected
  | invalidType found expected => "invalid type: " ++ found.wording ++ ", expected " ++ expected
  | invalidLength n expected => "invalid length " ++ toString n ++ ", expected " ++ expected

/-! ### What enumerations and unions complain about -/

/-- The expectation of an enumeration or union that a discriminant has to meet. -/
def discriminantOf : String := "a discriminant of "

/-- What is expected where a union is. -/
def unionExpected : String := "an XDR discriminated union"

/-- The complaint about a discriminant that selects nothing in the type of the given name. -/
def Complaint.unmapped (code : UInt32) (name : String) : Complaint :=
  invalidValue (.unsigned code.toNat) (discriminantOf ++ name)

/-- The complaint about a union of which there is not even a discriminant. -/
def Complaint.missingDiscriminant : Complaint := invalidLength 0 unionExpected

/-- The complaint about the arm of a union where nothing is left to read it from. -/
def Complaint.missingArm : Complaint := invalidLength 1 "a union arm"

end OncWire
