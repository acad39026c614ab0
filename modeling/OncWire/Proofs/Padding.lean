import Mathlib.Tactic.Common
import OncWire.Shape

/-!
# Where padding stands

The form of a value consists of bytes that carry its content and of padding, the
zero to three bytes after the data of a string or byte string.  Which bytes are
padding depends only on the value (`Shape.padMask`): a mask has a mark for each
byte, and the mark is set for padding.  Clearing the padding of some bytes under a
mask (`clearPadding`) is done part by part (`clearPadding_append`).
-/

namespace OncWire

/-! ### Masks -/

/-- The marks of `n` bytes of which none is padding. -/
def content (n : Nat) : List Bool := List.replicate n false

/-- The marks of data of `n` bytes: a length and the bytes themselves, then the padding. -/
def dataMask (n : Nat) : List Bool := content (4 + n) ++ List.replicate (padLength n) true

/-- The given bytes, with zero for each byte that is marked as padding. -/
def clearPadding (mask : List Bool) (bs : Bytes) : Bytes :=
  List.zipWith (fun pad b => if pad then 0 else b) mask bs

namespace Shape

/-- The marks of the bytes of a value. -/
def padMask : (s : Shape) → s.Val → List Bool
  | word _, _ => content 4
  | hyper _, _ => content 8
  | text, v => dataMask (utf8 v).length
  | bytes, v => dataMask v.length
  | option _, none => content 4
  | option s, some v => content 4 ++ s.padMask v
  | seq _ s, v => content 4 ++ v.items.flatMap fun x => s.padMask x
  | map _ k s, v => content 4 ++ v.items.flatMap fun x => k.padMask x.1 ++ s.padMask x.2
  | array _ s, v => v.val.flatMap fun x => s.padMask x
  | pair s t, v => s.padMask v.1 ++ t.padMask v.2
  | record _ s, v => s.padMask v
  | variants _ _ arm, v => content 4 ++ (arm v.1).padMask v.2
  | union _ arm, v => content 4 ++ (arm v.1).padMask v.2
  | surplus s t, v => s.padMask v.1 ++ t.padMask v.2
  | chain, v => content (8 * v.toList.length)
  | sortedMap, v =>
    content 4 ++ v.items.flatMap fun x => content 4 ++ dataMask (utf8 x.2).length
  | _, _ => []

end Shape

/-! ### Clearing padding -/

/-- There is a mark for each byte of content. -/
lemma length_content (n : Nat) : (content n).length = n := List.length_replicate

/-- The content of two parts is that of one part and then that of the other. -/
lemma content_add (m n : Nat) : content (m + n) = content m ++ content n :=
  List.replicate_append_replicate.symm

/-- A mask of as many marks as there are bytes keeps their number. -/
lemma length_clearPadding {mask : List Bool} {bs : Bytes} (h : mask.length = bs.length) :
    (clearPadding mask bs).length = bs.length := by
  rw [clearPadding, List.length_zipWith, h, Nat.min_self]

/-- Padding is cleared in one part after the other. -/
lemma clearPadding_append {mask mask' : List Bool} {bs bs' : Bytes}
    (h : mask.length = bs.length) :
    clearPadding (mask ++ mask') (bs ++ bs') = clearPadding mask bs ++ clearPadding mask' bs' :=
  List.zipWith_append h

/-- Content stays as it is. -/
lemma clearPadding_content (bs : Bytes) : clearPadding (content bs.length) bs = bs := by
  induction bs with
  | nil => rfl
  | cons x bs ih => exact congrArg (x :: ·) ih

/-- Padding becomes zero. -/
lemma clearPadding_replicate (pad : Bytes) :
    clearPadding (List.replicate pad.length true) pad = List.replicate pad.length 0 := by
  induction pad with
  | nil => rfl
  | cons x pad ih => exact congrArg (0 :: ·) ih

/-- Padding stays as it is exactly where it is zero already. -/
lemma clearPadding_replicate_eq_iff {pad : Bytes} :
    clearPadding (List.replicate pad.length true) pad = pad ↔ ∀ x ∈ pad, x = 0 := by
  rw [clearPadding_replicate]
  constructor
  · intro h x hx
    rw [← h] at hx
    exact List.eq_of_mem_replicate hx
  · intro h
    exact (List.eq_replicate_of_mem h).symm

/-- The marks of data fit the length, the bytes and the padding. -/
lemma length_dataMask (n : Nat) : (dataMask n).length = 4 + n + padLength n := by
  rw [dataMask, List.length_append, length_content, List.length_replicate]

/-- Clearing the padding of data gives the form in which it is written. -/
lemma clearPadding_data (w : UInt32) (bs : Bytes) {pad : Bytes}
    (h : pad.length = padLength bs.length) :
    clearPadding (dataMask bs.length) (wordBytes w ++ (bs ++ pad)) =
      wordBytes w ++ (bs ++ padding bs.length) := by
  have hlen : (wordBytes w ++ bs).length = 4 + bs.length := by
    rw [List.length_append, length_wordBytes]
  rw [← List.append_assoc, dataMask, ← hlen, clearPadding_append (length_content _),
    clearPadding_content, ← h, clearPadding_replicate, h, List.append_assoc]
  rfl

end OncWire
