/-!
# Narrow integers

The wire has no integer shorter than a word, so the integers of 8 and 16 bits
travel in whole words and a word may be out of their range.  The signed ones
are sign-extended.  A word is read as a narrow integer exactly when it is the
word of that integer: `ofWord?_toWord` and `toWord_of_ofWord?`.
-/

namespace OncWire

/-- The integers shorter than a word. -/
inductive Narrow
  | int8
  | int16
  | uint8
  | uint16
  deriving DecidableEq, Repr

namespace Narrow

/-- The name under which a narrow integer type is reported. -/
def label : Narrow → String
  | int8 => "i8"
  | int16 => "i16"
  | uint8 => "u8"
  | uint16 => "u16"

/-- The type of a narrow integer. -/
@[reducible] def Val : Narrow → Type
  | int8 => Int8
  | int16 => Int16
  | uint8 => UInt8
  | uint16 => UInt16

instance instDecidableEqVal : (k : Narrow) → DecidableEq k.Val
  | int8 => inferInstanceAs (DecidableEq Int8)
  | int16 => inferInstanceAs (DecidableEq Int16)
  | uint8 => inferInstanceAs (DecidableEq UInt8)
  | uint16 => inferInstanceAs (DecidableEq UInt16)

/-- The least number of a narrow integer type. -/
def least : Narrow → Int
  | int8 => -128
  | int16 => -32768
  | uint8 => 0
  | uint16 => 0

/-- The greatest number of a narrow integer type. -/
def greatest : Narrow → Int
  | int8 => 127
  | int16 => 32767
  | uint8 => 255
  | uint16 => 65535

/-- The number that a word stands for where a narrow integer is expected. -/
def number : Narrow → UInt32 → Int
  | int8, w | int16, w => w.toInt32.toInt
  | uint8, w | uint16, w => w.toNat

/-- The narrow integer with the last bits of a number. -/
def ofInt : (k : Narrow) → Int → k.Val
  | int8, n => Int8.ofInt n
  | int16, n => Int16.ofInt n
  | uint8, n => UInt8.ofNat n.toNat
  | uint16, n => UInt16.ofNat n.toNat

/-- The word of a narrow integer. -/
def toWord : (k : Narrow) → k.Val → UInt32
  | int8, v => Int32.toUInt32 (Int8.toInt32 v)
  | int16, v => Int32.toUInt32 (Int16.toInt32 v)
  | uint8, v => UInt8.toUInt32 v
  | uint16, v => UInt16.toUInt32 v

/-- The narrow integer that a word stands for, if it is in range. -/
def ofWord? (k : Narrow) (w : UInt32) : Option k.Val :=
  if k.least ≤ k.number w ∧ k.number w ≤ k.greatest then some (k.ofInt (k.number w)) else none

/-- The word of a narrow integer stands for a number in range, which gives the integer back. -/
theorem number_toWord (k : Narrow) (v : k.Val) :
    k.least ≤ k.number (k.toWord v) ∧ k.number (k.toWord v) ≤ k.greatest ∧
      k.ofInt (k.number (k.toWord v)) = v := by
  cases k with
  | int8 =>
    have hlo := Int8.le_toInt v
    have hhi := Int8.toInt_lt v
    simp only [number, toWord, ofInt, least, greatest, Int32.toInt32_toUInt32,
      Int8.toInt_toInt32, Int8.ofInt_toInt, and_true]
    omega
  | int16 =>
    have hlo := Int16.le_toInt v
    have hhi := Int16.toInt_lt v
    simp only [number, toWord, ofInt, least, greatest, Int32.toInt32_toUInt32,
      Int16.toInt_toInt32, Int16.ofInt_toInt, and_true]
    omega
  | uint8 =>
    have hhi := UInt8.toNat_lt v
    simp only [number, toWord, ofInt, least, greatest, UInt8.toNat_toUInt32, Int.toNat_natCast,
      UInt8.ofNat_toNat, and_true]
    omega
  | uint16 =>
    have hhi := UInt16.toNat_lt v
    simp only [number, toWord, ofInt, least, greatest, UInt16.toNat_toUInt32, Int.toNat_natCast,
      UInt16.ofNat_toNat, and_true]
    omega

@[simp] theorem ofWord?_toWord (k : Narrow) (v : k.Val) : k.ofWord? (k.toWord v) = some v := by
  obtain ⟨hlo, hhi, hv⟩ := number_toWord k v
  rw [ofWord?, if_pos ⟨hlo, hhi⟩, hv]

/-- A word that is read as a narrow integer is the word of that integer. -/
theorem toWord_of_ofWord? {k : Narrow} {w : UInt32} {v : k.Val} (h : k.ofWord? w = some v) :
    k.toWord v = w := by
  unfold ofWord? at h
  split at h
  case isFalse => simp at h
  case isTrue hrange =>
    obtain rfl := Option.some.inj h
    cases k with
    | int8 =>
      have hv : Int8.toInt32 (Int8.ofInt w.toInt32.toInt) = w.toInt32 := by
        apply Int32.toInt_inj.mp
        simp only [Int8.toInt_toInt32]
        simp only [number, least, greatest] at hrange
        exact Int8.toInt_ofInt_of_le (by omega) (by omega)
      simp only [toWord, ofInt, number, hv, UInt32.toUInt32_toInt32]
    | int16 =>
      have hv : Int16.toInt32 (Int16.ofInt w.toInt32.toInt) = w.toInt32 := by
        apply Int32.toInt_inj.mp
        simp only [Int16.toInt_toInt32]
        simp only [number, least, greatest] at hrange
        exact Int16.toInt_ofInt_of_le (by omega) (by omega)
      simp only [toWord, ofInt, number, hv, UInt32.toUInt32_toInt32]
    | uint8 =>
      apply UInt32.toNat_inj.mp
      simp only [number, least, greatest] at hrange
      simp only [toWord, ofInt, number, Int.toNat_natCast, UInt8.toNat_toUInt32,
        UInt8.toNat_ofNat']
      omega
    | uint16 =>
      apply UInt32.toNat_inj.mp
      simp only [number, least, greatest] at hrange
      simp only [toWord, ofInt, number, Int.toNat_natCast, UInt16.toNat_toUInt32,
        UInt16.toNat_ofNat']
      omega

/-- A word is refused exactly when its number is out of range. -/
theorem ofWord?_eq_none_iff {k : Narrow} {w : UInt32} :
    k.ofWord? w = none ↔ k.number w < k.least ∨ k.greatest < k.number w := by
  unfold ofWord?
  split <;> simp <;> omega

end Narrow

end OncWire
