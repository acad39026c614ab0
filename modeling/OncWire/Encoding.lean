import OncWire.Bytes
import OncWire.Fault

/-!
# Encodings

Writing a value yields bytes and possibly a fault that cut them short.  Such
outcomes are composed in order: what comes after a fault is not written.  Under
this composition encodings form a monoid (`nothing_append`, `append_nothing`,
`append_assoc`).
-/

namespace OncWire

/-- The bytes that writing yields, and the fault that stopped it, if one did. -/
structure Encoding where
  /-- The bytes written before the fault, or all of them. -/
  bytes : Bytes
  /-- Why writing stopped early. -/
  fault : Option Fault
  deriving DecidableEq, Repr

namespace Encoding

/-! ### Composition -/

/-- Nothing is written. -/
def nothing : Encoding := ⟨[], none⟩

/-- The given bytes are written. -/
def ofBytes (bs : Bytes) : Encoding := ⟨bs, none⟩

/-- A word is written. -/
def ofWord (w : UInt32) : Encoding := ofBytes (wordBytes w)

/-- A hyper is written. -/
def ofHyper (h : UInt64) : Encoding := ofBytes (hyperBytes h)

/-- Nothing is written, for the given reason. -/
def fail (f : Fault) : Encoding := ⟨[], some f⟩

/-- What `a` writes and then, unless a fault stopped it, what `b` writes. -/
def append (a b : Encoding) : Encoding :=
  match a.fault with
  | none => ⟨a.bytes ++ b.bytes, b.fault⟩
  | some _ => a

instance : Append Encoding := ⟨append⟩

theorem append_def (a b : Encoding) : a ++ b =
    match a.fault with
    | none => ⟨a.bytes ++ b.bytes, b.fault⟩
    | some _ => a := rfl

@[simp] theorem nothing_append (a : Encoding) : nothing ++ a = a := rfl

@[simp] theorem append_nothing (a : Encoding) : a ++ nothing = a := by
  obtain ⟨bytes, _ | f⟩ := a <;> simp [append_def, nothing]

theorem append_assoc (a b c : Encoding) : a ++ b ++ c = a ++ (b ++ c) := by
  obtain ⟨as, _ | f⟩ := a
  · obtain ⟨bs, _ | g⟩ := b <;> simp [append_def]
  · rfl

@[simp] theorem fail_append (f : Fault) (a : Encoding) : fail f ++ a = fail f := rfl

@[simp] theorem ofBytes_append_ofBytes (as bs : Bytes) :
    ofBytes as ++ ofBytes bs = ofBytes (as ++ bs) := rfl

/-- What is written by each of the given encodings in turn, up to the first fault. -/
def concat (es : List Encoding) : Encoding := es.foldr (· ++ ·) nothing

@[simp] theorem concat_nil : concat [] = nothing := rfl

@[simp] theorem concat_cons (e : Encoding) (es : List Encoding) :
    concat (e :: es) = e ++ concat es := rfl

theorem concat_append (es fs : List Encoding) : concat (es ++ fs) = concat es ++ concat fs := by
  induction es with
  | nil => simp
  | cons e es ih => simp [ih, append_assoc]

/-! ### Lengths, data and counted runs -/

/-- A length or count, which has to fit a word. -/
def length (n : Nat) : Encoding :=
  if n ≤ 4294967295 then ofWord (UInt32.ofNat n) else fail (.lengthOverflow 4294967295 n)

/-- Data of variable length: its length, the bytes, zero padding. -/
def data (bs : Bytes) : Encoding :=
  length bs.length ++ ofBytes bs ++ ofBytes (padding bs.length)

/-- One item of a counted run.  A reader bounds a count by the bytes that are left, so an item
that takes no bytes is refused. -/
def item (e : Encoding) : Encoding :=
  if e.fault = none ∧ e.bytes = [] then fail (.unsupported .zeroWidthItem) else e

/-- A counted run: the count, then the items. -/
def run (count : Nat) (items : List Encoding) : Encoding :=
  length count ++ concat (items.map item)

/-- The encoding of the outcome of finding the word for a value. -/
def ofExcept : Except Fault UInt32 → Encoding
  | .ok w => ofWord w
  | .error f => fail f

end Encoding

end OncWire
