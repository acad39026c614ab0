import OncWire.Scalar.Hyper
import OncWire.Scalar.Word
import OncWire.SortedMap
import OncWire.Text.Utf8

/-!
# Shapes

A shape describes a type of values together with their form on the wire.  The
values of a shape are a type of their own, `Shape.Val`, so a value always fits
its shape and writing it can fail only for a reason of the wire format.

Products are built from `void` and `pair`; the fields of a structure or tuple
are folded into pairs by `Shape.fields`.  A union is a discriminant followed by
the arm that it selects, and its values are dependent pairs of the two.
-/

namespace OncWire

/-! ### Parts of values -/

/-- Whether the count of a run is known before its items are written. -/
inductive Count
  | known
  | unknown
  deriving DecidableEq, Repr

/-- The items of a counted run, with the count declared for them where it is not their number. -/
structure Counted (α : Type) where
  /-- The items. -/
  items : List α
  /-- The count that is written in place of the number of items. -/
  declared : Option Nat := none
  deriving DecidableEq, Repr

/-- The count that is written for a run. -/
def Counted.count {α : Type} (c : Counted α) : Nat := c.declared.getD c.items.length

/-- A linked list of words with at least one node. -/
structure Chain where
  /-- The word of the first node. -/
  head : UInt32
  /-- The words of the nodes after it. -/
  tail : List UInt32
  deriving DecidableEq, Repr

/-- The words of all the nodes. -/
def Chain.toList (c : Chain) : List UInt32 := c.head :: c.tail

/-! ### Shapes and their values -/

/-- The description of a type of values and of their form on the wire. -/
inductive Shape
  /-- Nothing at all. -/
  | void
  /-- A scalar of one word. -/
  | word (k : Word)
  /-- A scalar of two words. -/
  | hyper (k : Hyper)
  /-- An integer of 128 bits, for which there is no form. -/
  | huge (signed : Bool)
  /-- A value whose type only the bytes could tell, for which there is no form. -/
  | any (skipped : Bool)
  /-- A string: its length, its UTF-8 form, padding. -/
  | text
  /-- A byte string: its length, the bytes, padding. -/
  | bytes
  /-- A flag, and a value if the flag is set. -/
  | option (item : Shape)
  /-- A count and that many items. -/
  | seq (count : Count) (item : Shape)
  /-- A count and that many keys, each followed by its value. -/
  | map (count : Count) (key value : Shape)
  /-- A fixed number of items. -/
  | array (n : Nat) (item : Shape)
  /-- One value after another. -/
  | pair (first second : Shape)
  /-- A structure that is known by a name. -/
  | record (name : String) (body : Shape)
  /-- The index of a variant, then its payload. -/
  | variants (name : String) (n : Nat) (arm : Fin n → Shape)
  /-- A discriminant, then the arm that it selects. -/
  | union (tag : Word) (arm : tag.Val → Shape)
  /-- The arm of a discriminant that selects nothing in the union of the given name. -/
  | unassigned (code : UInt32) (name : String)
  /-- An arm of two values, of which a reader takes only the first and then fails. -/
  | surplus (first second : Shape)
  /-- A linked list: in each node a word, and a flag for the node after it. -/
  | chain
  /-- A map from words to strings, written in the order of the keys. -/
  | sortedMap

namespace Shape

/-- The values of a shape. -/
@[reducible] def Val : Shape → Type
  | void => Unit
  | word k => k.Val
  | hyper k => k.Val
  | huge _ => Int
  | any _ => Empty
  | text => String
  | bytes => Bytes
  | option s => Option s.Val
  | seq _ s => Counted s.Val
  | map _ k v => Counted (k.Val × v.Val)
  | array n s => { items : List s.Val // items.length = n }
  | pair s t => s.Val × t.Val
  | record _ s => s.Val
  | variants _ _ arm => (i : _) × (arm i).Val
  | union _ arm => (d : _) × (arm d).Val
  | unassigned _ _ => Empty
  | surplus s t => s.Val × t.Val
  | chain => Chain
  | sortedMap => SortedMap String

/-- Equality of values is decidable. -/
instance instDecidableEqVal : (s : Shape) → DecidableEq s.Val
  | void => inferInstanceAs (DecidableEq Unit)
  | word k => inferInstanceAs (DecidableEq k.Val)
  | hyper k => inferInstanceAs (DecidableEq k.Val)
  | huge _ => inferInstanceAs (DecidableEq Int)
  | any _ => inferInstanceAs (DecidableEq Empty)
  | text => inferInstanceAs (DecidableEq String)
  | bytes => inferInstanceAs (DecidableEq Bytes)
  | option s =>
    have := instDecidableEqVal s
    inferInstanceAs (DecidableEq (Option s.Val))
  | seq _ s =>
    have := instDecidableEqVal s
    inferInstanceAs (DecidableEq (Counted s.Val))
  | map _ k v =>
    have := instDecidableEqVal k
    have := instDecidableEqVal v
    inferInstanceAs (DecidableEq (Counted (k.Val × v.Val)))
  | array n s =>
    have := instDecidableEqVal s
    inferInstanceAs (DecidableEq { items : List s.Val // items.length = n })
  | pair s t =>
    have := instDecidableEqVal s
    have := instDecidableEqVal t
    inferInstanceAs (DecidableEq (s.Val × t.Val))
  | record _ s => instDecidableEqVal s
  | variants _ n arm =>
    have := fun i => instDecidableEqVal (arm i)
    inferInstanceAs (DecidableEq ((i : Fin n) × (arm i).Val))
  | union tag arm =>
    have := fun d => instDecidableEqVal (arm d)
    inferInstanceAs (DecidableEq ((d : tag.Val) × (arm d).Val))
  | unassigned _ _ => inferInstanceAs (DecidableEq Empty)
  | surplus s t =>
    have := instDecidableEqVal s
    have := instDecidableEqVal t
    inferInstanceAs (DecidableEq (s.Val × t.Val))
  | chain => inferInstanceAs (DecidableEq Chain)
  | sortedMap => inferInstanceAs (DecidableEq (SortedMap String))

/-! ### Shapes built from others -/

/-- An unsigned word. -/
abbrev uint32 : Shape := word .uint32

/-- A member of an enumeration. -/
abbrev enumeration (e : Enumeration) : Shape := word (.enumeration e)

/-- One value after another for each of the given shapes. -/
@[reducible] def fields : List Shape → Shape
  | [] => void
  | s :: ss => pair s (fields ss)

end Shape

end OncWire
