/-!
# Classes of characters

A class of characters is given by the ranges of their numbers, in ascending
order and apart, so that a class has one table: no range touches the next.
The tables of the classes are those of Unicode 17.
-/

namespace OncWire

/-- Whether closed ranges are ascending, none of them empty and no two of them touching. -/
def CharClass.Ascending : List (Nat × Nat) → Bool
  | [] => true
  | [r] => r.1 ≤ r.2
  | r :: s :: rs => r.1 ≤ r.2 && r.2 + 1 < s.1 && CharClass.Ascending (s :: rs)

/-- A class of characters, by the closed ranges of their numbers. -/
structure CharClass where
  /-- The ranges, each with its first and its last number. -/
  ranges : List (Nat × Nat)
  /-- They ascend and stand apart. -/
  ascending : CharClass.Ascending ranges = true := by decide +kernel

namespace CharClass

/-- Whether a character is in a class. -/
def contains (k : CharClass) (c : Char) : Bool :=
  k.ranges.any fun (first, last) => first ≤ c.toNat && c.toNat ≤ last

/-- How many numbers the ranges of a class hold. -/
def size (k : CharClass) : Nat :=
  k.ranges.foldl (fun n (first, last) => n + (last + 1 - first)) 0

end CharClass

end OncWire
