import OncWire.Shape

/-!
# Values from plain integers

A scalar or a union can also be built from integers that are held in memory: a
scalar from one of them, a union from a list whose first item is the
discriminant.  There is no wire here, so what goes wrong is a complaint about a
value and not a fault of the input.  A shape that is neither is refused by its
name, and so is an arm of that shape.
-/

namespace OncWire

namespace Word

/-- What a reader of values makes of an integer that is too large for a word. -/
def ofLarge : (k : Word) → Nat → Except Complaint k.Val
  | float32, n => .ok (UInt64.ofNat n).toFloat32.toBits
  | bool, n => .error (.invalidType (.unsigned n) bool.expected)
  | char, n => .error (.invalidType (.unsigned n) char.expected)
  | k, n => .error (.invalidValue (.unsigned n) k.expected)

/-- The scalar that an integer stands for. -/
def ofInteger (k : Word) (n : Nat) : Except Complaint k.Val :=
  if n ≤ 4294967295 then k.ofWord (UInt32.ofNat n) else k.ofLarge n

/-- An integer of one word stands for what the word stands for. -/
@[simp] theorem ofInteger_toNat (k : Word) (w : UInt32) : k.ofInteger w.toNat = k.ofWord w := by
  have := w.toNat_lt
  rw [ofInteger, if_pos (by omega), UInt32.ofNat_toNat]

end Word

namespace Hyper

/-- What a reader of values expects where a scalar of two words is. -/
def expected : Hyper → String
  | int64 => "i64"
  | uint64 => "u64"
  | float64 => "f64"

/-- The scalar that an integer of at most 64 bits stands for. -/
def ofInteger : (k : Hyper) → Nat → Except Complaint k.Val
  | int64, n =>
    if n ≤ 9223372036854775807 then .ok (Int64.ofNat n)
    else .error (.invalidValue (.unsigned n) int64.expected)
  | uint64, n => .ok (UInt64.ofNat n)
  | float64, n => .ok (UInt64.ofNat n).toFloat.toBits

end Hyper

namespace Shape

/-- The number of fields that follow one another.  Pairs that do not end with nothing end with one
more field. -/
def tupleSize : Shape → Nat
  | void => 0
  | pair _ t => t.tupleSize + 1
  | _ => 1

/-- What a reader of values expects where a value of a shape is. -/
def expected : Shape → String
  | void => "unit"
  | word k => k.expected
  | hyper k => k.expected
  | huge signed => if signed then "i128" else "u128"
  | any skipped => if skipped then "anything at all" else "any value"
  | text => "a string"
  | bytes => "byte array"
  | option _ => "option"
  | seq _ _ => "a sequence"
  | map _ _ _ => "a map"
  | array n _ => if n = 0 then "an empty array" else "an array of length " ++ toString n
  | pair s t => "a tuple of size " ++ toString (pair s t).tupleSize
  | record name _ => "struct " ++ name
  | variants name _ _ => "enum " ++ name
  | union _ _ => unionExpected
  | unassigned _ name => discriminantOf ++ name
  | surplus _ _ => "a tuple of size 2"
  | chain => "struct List"
  | sortedMap => "a map"

@[simp] theorem tupleSize_fields (ss : List Shape) : (fields ss).tupleSize = ss.length := by
  induction ss with
  | nil => rfl
  | cons s ss ih => rw [fields, tupleSize, ih, List.length_cons]

/-- A tuple is expected with the number of its fields. -/
theorem expected_fields {ss : List Shape} (h : ss ≠ []) :
    (fields ss).expected = "a tuple of size " ++ toString ss.length := by
  cases ss with
  | nil => exact absurd rfl h
  | cons s ss =>
    exact congrArg (fun n => "a tuple of size " ++ toString n) (tupleSize_fields (s :: ss))

/-- The value that one integer stands for. -/
def ofInteger : (s : Shape) → Nat → Except Complaint s.Val
  | word k, n => k.ofInteger n
  | hyper k, n => k.ofInteger n
  | huge _, n => .ok n
  | s, n => .error (.invalidType (.unsigned n) s.expected)

/-- The next value from a list of integers, where an arm of a union needs one. -/
def nextItem (s : Shape) : List UInt32 → Except Complaint (s.Val × List UInt32)
  | [] => .error .missingArm
  | w :: ws => do return (← s.ofInteger w.toNat, ws)

/-- The arm of a union from the integers after the discriminant. -/
def armOfIntegers : (s : Shape) → List UInt32 → Except Complaint s.Val
  | void, _ => .ok ()
  | unassigned code name, _ => .error (.unmapped code name)
  | surplus s t, ws => do
    let (v, ws) ← s.nextItem ws
    let (w, _) ← t.nextItem ws
    return (v, w)
  | s, ws => do
    let (v, _) ← s.nextItem ws
    return v

/-- The value that a list of integers stands for. -/
def ofIntegers : (s : Shape) → List UInt32 → Except Complaint s.Val
  | union _ _, [] => .error .missingDiscriminant
  | union tag arm, w :: ws => do
    let d ← tag.ofInteger w.toNat
    return ⟨d, ← (arm d).armOfIntegers ws⟩
  | s, _ => .error (.invalidType .sequence s.expected)

end Shape

end OncWire
