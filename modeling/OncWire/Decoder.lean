import OncWire.Fault
import OncWire.Limits
import OncWire.Text.Utf8

/-!
# Decoders

A decoder takes bytes off the front of an input and yields a value, or a fault
together with the bytes that it had not taken by then.  Reading can go on from
there in both cases.

This file holds the decoders of words, hypers, lengths and data, and the
repetition of a decoder.  A length is checked in a fixed order: against the
limit of the reader, then against the bytes that are left.
-/

namespace OncWire

/-- A computation that takes bytes off the front of an input and may fail. -/
abbrev Decoder (α : Type) := EStateM Fault Bytes α

/-- The outcome of a decoder: a value or a fault, and the bytes that are left. -/
abbrev Reading (α : Type) := EStateM.Result Fault Bytes α

/-- Outcomes can be compared. -/
instance instDecidableEqReading {α : Type} [DecidableEq α] : DecidableEq (Reading α)
  | .ok v r, .ok w s =>
    decidable_of_iff (v = w ∧ r = s) ⟨fun ⟨h, k⟩ => h ▸ k ▸ rfl, fun h => by cases h; simp⟩
  | .error f r, .error g s =>
    decidable_of_iff (f = g ∧ r = s) ⟨fun ⟨h, k⟩ => h ▸ k ▸ rfl, fun h => by cases h; simp⟩
  | .ok _ _, .error _ _ => isFalse nofun
  | .error _ _, .ok _ _ => isFalse nofun

/-- The value or the fault of a reading. -/
def Reading.toExcept {α : Type} : Reading α → Except Fault α
  | .ok v _ => .ok v
  | .error f _ => .error f

/-- The bytes that a reading left. -/
def Reading.rest {α : Type} : Reading α → Bytes
  | .ok _ rest => rest
  | .error _ rest => rest

namespace Decoder

variable {α : Type}

/-! ### Words and hypers -/

/-- The number of bytes that are left. -/
def remaining : Decoder Nat := do return (← get).length

/-- Takes exactly `n` bytes; where there are fewer it takes none. -/
def take (n : Nat) : Decoder Bytes := fun input =>
  match splitAt? n input with
  | some (front, rest) => .ok front rest
  | none => .error .unexpectedEof input

/-- Takes a word. -/
def word : Decoder UInt32 := do return wordOfBytes (← take 4)

/-- Takes a hyper. -/
def hyper : Decoder UInt64 := do return hyperOfBytes (← take 8)

/-- Bytes at the front of an input are taken off it. -/
theorem take_append {n : Nat} {front : Bytes} (h : front.length = n) (rest : Bytes) :
    take n (front ++ rest) = .ok front rest := by
  rw [take, splitAt?_eq_some_iff.mpr ⟨h, rfl⟩]

/-- A word at the front of an input is taken as that word. -/
theorem word_append (w : UInt32) (rest : Bytes) : word (wordBytes w ++ rest) = .ok w rest := by
  simp only [word, bind, EStateM.bind, take_append (length_wordBytes w), wordOfBytes_wordBytes]
  rfl

/-- A hyper at the front of an input is taken as that hyper. -/
theorem hyper_append (h : UInt64) (rest : Bytes) : hyper (hyperBytes h ++ rest) = .ok h rest := by
  simp only [hyper, bind, EStateM.bind, take_append (length_hyperBytes h), hyperOfBytes_hyperBytes]
  rfl

/-- The value of an outcome, or a failure with its fault. -/
def ofExcept : Except Fault α → Decoder α
  | .ok v => return v
  | .error f => throw f

/-! ### Lengths, data and repetition -/

/-- Takes the length or count of something whose units take at least `unit` bytes each.  The bytes
that they take at least are counted exactly, which for units of at most eight bytes takes 64
bits. -/
def length (lim : Limits) (unit : Nat) : Decoder Nat := do
  let n ← word
  if lim.maxLength < n then
    throw (.lengthOverflow lim.maxLength.toNat n.toNat)
  let left ← remaining
  if left < n.toNat * unit then
    throw (.malformedLength n left)
  return n.toNat

/-- Takes `n` bytes of data and their padding. -/
def padded (lim : Limits) (n : Nat) : Decoder Bytes := do
  let bs ← take n
  let pad ← take (padLength n)
  if lim.strictPadding ∧ ∃ b ∈ pad, b ≠ 0 then
    throw .invalidPadding
  return bs

/-- Takes data of variable length. -/
def data (lim : Limits) : Decoder Bytes := do
  padded lim (← length lim 1)

/-- Takes a string. -/
def text (lim : Limits) : Decoder String := do
  match ofUtf8? (← data lim) with
  | some s => return s
  | none => throw .invalidString

/-- Takes an item `n` times. -/
def times (item : Decoder α) : (n : Nat) → Decoder { items : List α // items.length = n }
  | 0 => return ⟨[], rfl⟩
  | n + 1 => do
    let x ← item
    let ⟨xs, hxs⟩ ← times item n
    return ⟨x :: xs, congrArg (· + 1) hxs⟩

end Decoder

end OncWire
