import OncWire.Fault

/-!
# Values of one word

Most scalar types take exactly one word.  This file names them, gives the type
of their values, and says which word stands for a value and which words are
refused.  A float on the wire is its bit pattern and is never computed with.

Some of the types are read as an unsigned integer first, which a reader of
values then makes a value of (`Word.ofWord`).  That reader knows nothing of the
wire; what it complains about becomes a fault by `Fault.ofComplaint`.
-/

namespace OncWire

/-- The types whose values take one word. -/
inductive Word
  /-- A truth value, 0 or 1. -/
  | bool
  /-- An integer shorter than a word. -/
  | narrow (k : Narrow)
  /-- A signed integer. -/
  | int32
  /-- An unsigned integer. -/
  | uint32
  /-- The bit pattern of a single-precision float. -/
  | float32
  /-- A Unicode scalar value. -/
  | char
  /-- A member of an enumeration. -/
  | enumeration (e : Enumeration)
  /-- An unsigned integer that has to be even when it is written or read. -/
  | even
  /-- An unsigned integer other than zero. -/
  | nonzero
  deriving DecidableEq, Repr

namespace Word

/-- The type of the values of one word. -/
@[reducible] def Val : Word → Type
  | bool => Bool
  | narrow k => k.Val
  | int32 => Int32
  | uint32 => UInt32
  | float32 => UInt32
  | char => Char
  | enumeration e => e.Member
  | even => UInt32
  | nonzero => { n : UInt32 // n ≠ 0 }

instance instDecidableEqVal : (k : Word) → DecidableEq k.Val
  | bool => inferInstanceAs (DecidableEq Bool)
  | narrow k => inferInstanceAs (DecidableEq k.Val)
  | int32 => inferInstanceAs (DecidableEq Int32)
  | uint32 => inferInstanceAs (DecidableEq UInt32)
  | float32 => inferInstanceAs (DecidableEq UInt32)
  | char => inferInstanceAs (DecidableEq Char)
  | enumeration e => inferInstanceAs (DecidableEq e.Member)
  | even => inferInstanceAs (DecidableEq UInt32)
  | nonzero => inferInstanceAs (DecidableEq { n : UInt32 // n ≠ 0 })

/-- The word that stands for a value. -/
def encode : (k : Word) → k.Val → Except Fault UInt32
  | bool, b => .ok b.toUInt32
  | narrow k, v => .ok (k.toWord v)
  | int32, v => .ok (Int32.toUInt32 v)
  | uint32, v => .ok v
  | float32, v => .ok v
  | char, c => .ok (Char.val c)
  | enumeration e, m => .ok (Enumerated.code (α := e.Member) m)
  | even, n => if n % 2 = 0 then .ok n else .error (.refused (.oddWritten n))
  | nonzero, n => .ok n.val

/-- What a reader of values expects where a scalar of one word is. -/
def expected : Word → String
  | bool => "a boolean"
  | narrow k => k.label
  | int32 => "i32"
  | uint32 | enumeration _ | even => "u32"
  | float32 => "f32"
  | char => "a character"
  | nonzero => "a nonzero u32"

/-- What a reader of values makes of an unsigned integer of one word, wherever the word was found.
A float is the one nearest to the integer. -/
def ofWord : (k : Word) → UInt32 → Except Complaint k.Val
  | narrow k, w =>
    if w.toNat ≤ k.greatest then .ok (k.ofInt w.toNat)
    else .error (.invalidValue (.unsigned w.toNat) (narrow k).expected)
  | int32, w =>
    if w.toNat ≤ 2147483647 then .ok w.toInt32
    else .error (.invalidValue (.unsigned w.toNat) int32.expected)
  | uint32, w => .ok w
  | float32, w => .ok w.toFloat32.toBits
  | enumeration e, w =>
    match Enumerated.ofCode? (α := e.Member) w with
    | some m => .ok m
    | none => .error (.unmapped w e.title)
  | even, w => if w % 2 = 0 then .ok w else .error (.oddRead w)
  | nonzero, w =>
    if h : w ≠ 0 then .ok ⟨w, h⟩
    else .error (.invalidValue (.unsigned w.toNat) nonzero.expected)
  -- Truth values and characters are not made of integers.
  | k, w => .error (.invalidType (.unsigned w.toNat) k.expected)

/-- The value that a word stands for. -/
def decode : (k : Word) → UInt32 → Except Fault k.Val
  | bool, w =>
    if w = 0 then .ok false else if w = 1 then .ok true else .error (.invalidBool w)
  | narrow k, w =>
    match k.ofWord? w with
    | some v => .ok v
    | none => .error (.integerOutOfRange k (k.number w))
  | int32, w => .ok w.toInt32
  | float32, w => .ok w
  | char, w => if h : w.isValidChar then .ok ⟨w, h⟩ else .error .invalidString
  -- The other types are read as an unsigned integer, and it is not the decoder that refuses one.
  | k, w => (k.ofWord w).mapError .ofComplaint

@[simp] theorem decode_uint32 (w : UInt32) : uint32.decode w = .ok w := rfl

/-- A word that is no code of an enumeration is refused under the title of the enumeration. -/
theorem decode_enumeration (e : Enumeration) (w : UInt32) :
    (enumeration e).decode w =
      match Enumerated.ofCode? (α := e.Member) w with
      | some m => .ok m
      | none => .error (.unmappedDiscriminant w e.title) := by
  cases h : Enumerated.ofCode? (α := e.Member) w with
  | some m =>
    have hword : (enumeration e).ofWord w = .ok m := by simp only [ofWord, h]
    exact congrArg (Except.mapError Fault.ofComplaint) hword
  | none =>
    have hword : (enumeration e).ofWord w = .error (.unmapped w e.title) := by
      simp only [ofWord, h]
    have hfault := congrArg (Except.mapError Fault.ofComplaint) hword
    exact hfault.trans (congrArg Except.error (Fault.ofComplaint_unmapped w e.title))

/-- An odd word is refused, and the complaint stays as it is. -/
theorem decode_even (w : UInt32) :
    even.decode w = if w % 2 = 0 then .ok w else .error (.refused (.oddRead w)) := by
  by_cases h : w % 2 = 0
  · have hword : even.ofWord w = .ok w := if_pos h
    rw [if_pos h]
    exact congrArg (Except.mapError Fault.ofComplaint) hword
  · have hword : even.ofWord w = .error (.oddRead w) := if_neg h
    rw [if_neg h]
    exact congrArg (Except.mapError Fault.ofComplaint) hword

/-- Zero is refused as a value and not as a discriminant. -/
theorem decode_nonzero (w : UInt32) :
    nonzero.decode w =
      if h : w ≠ 0 then .ok ⟨w, h⟩
      else .error (.refused (.invalidValue (.unsigned 0) nonzero.expected)) := by
  by_cases h : w ≠ 0
  · have hword : nonzero.ofWord w = .ok ⟨w, h⟩ := dif_pos h
    rw [dif_pos h]
    exact congrArg (Except.mapError Fault.ofComplaint) hword
  · obtain rfl : w = 0 := Classical.not_not.mp h
    have hexpected : Fault.discriminantName? nonzero.expected = none := by decide +kernel
    exact congrArg Except.error (Fault.ofComplaint_invalidValue hexpected (.unsigned 0))

/-- The word that stands for a value is read as that value. -/
theorem decode_of_encode {k : Word} {v : k.Val} {w : UInt32} (h : k.encode v = .ok w) :
    k.decode w = .ok v := by
  cases k with
  | bool => cases v <;> cases h <;> rfl
  | narrow k =>
    cases h
    simp only [decode, Narrow.ofWord?_toWord]
  | int32 =>
    cases h
    simp only [decode, Int32.toInt32_toUInt32]
  | uint32 | float32 => cases h; rfl
  | char =>
    cases h
    simp only [decode, dif_pos (Char.valid v)]
  | enumeration e =>
    cases h
    rw [decode_enumeration, Enumerated.ofCode?_code]
  | even =>
    simp only [encode] at h
    split at h
    case isTrue heven =>
      cases h
      rw [decode_even, if_pos heven]
    case isFalse => cases h
  | nonzero =>
    cases h
    rw [decode_nonzero, dif_pos v.property]

/-- A word that is read as a value is the word that stands for it. -/
theorem encode_of_decode {k : Word} {v : k.Val} {w : UInt32} (h : k.decode w = .ok v) :
    k.encode v = .ok w := by
  cases k with
  | bool =>
    simp only [decode] at h
    split at h
    case isTrue hw => cases h; subst hw; rfl
    case isFalse =>
      split at h
      case isTrue hw => cases h; subst hw; rfl
      case isFalse => cases h
  | narrow k =>
    simp only [decode] at h
    split at h
    case h_1 hw => cases h; simp only [encode, Narrow.toWord_of_ofWord? hw]
    case h_2 => cases h
  | int32 =>
    cases h
    simp only [encode, UInt32.toUInt32_toInt32]
  | uint32 | float32 => cases h; rfl
  | char =>
    simp only [decode] at h
    split at h
    case isTrue => cases h; rfl
    case isFalse => cases h
  | enumeration e =>
    rw [decode_enumeration] at h
    split at h
    case h_1 hw => cases h; simp only [encode, Enumerated.code_of_ofCode? hw]
    case h_2 => cases h
  | even =>
    rw [decode_even] at h
    split at h
    case isTrue heven => cases h; simp only [encode, if_pos heven]
    case isFalse => cases h
  | nonzero =>
    rw [decode_nonzero] at h
    split at h
    case isTrue => cases h; rfl
    case isFalse => cases h

end Word

end OncWire
