/-!
# Enumerated types

A protocol enumeration is a finite type whose members each stand for one word
on the wire.  The codes may be sparse, so reading a word back may fail.  This
file holds the interface of such a type and the reading `ofCode?`, with its
two laws: `ofCode?_code` and `code_of_ofCode?`.
-/

namespace OncWire

/-- A finite type whose members stand for distinct words. -/
class Enumerated (α : Type) where
  /-- The name under which the enumeration is reported. -/
  title : String
  /-- Every member, in the order of declaration. -/
  members : List α
  /-- The word that stands for a member. -/
  code : α → UInt32
  /-- The name under which a member is reported. -/
  label : α → String
  /-- Every member is the first one listed that has its code. -/
  find?_code (a : α) : members.find? (code · == code a) = some a

namespace Enumerated

variable {α : Type} [Enumerated α]

/-- The member that a word stands for, if there is one. -/
def ofCode? (w : UInt32) : Option α :=
  (members (α := α)).find? (code · == w)

@[simp] theorem ofCode?_code (a : α) : ofCode? (code a) = some a :=
  find?_code a

/-- A word that is read as a member is that member's code. -/
theorem code_of_ofCode? {w : UInt32} {a : α} (h : ofCode? w = some a) : code a = w := by
  simpa using List.find?_some h

/-- A word is refused exactly when it is no member's code. -/
theorem ofCode?_eq_none_iff {w : UInt32} : ofCode? (α := α) w = none ↔ ∀ a : α, code a ≠ w := by
  constructor
  · rintro h a rfl
    simp at h
  · intro h
    cases hw : ofCode? (α := α) w with
    | none => rfl
    | some a => exact absurd (code_of_ofCode? hw) (h a)

/-- Distinct members have distinct codes. -/
theorem code_injective {a b : α} (h : code a = code b) : a = b := by
  have ha := ofCode?_code a
  rw [h, ofCode?_code] at ha
  exact (Option.some.inj ha).symm

end Enumerated

end OncWire
