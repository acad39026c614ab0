import OncWire.Text.CharClass.Combining
import OncWire.Text.CharClass.Unassigned

/-!
# Hidden characters

The characters that show nothing of their own: controls, format characters,
spaces other than the plain one, letters that stand for an empty place,
combining characters, private use and numbers without a character.
-/

namespace OncWire

namespace CharClass

/-- The controls. -/
def controls : CharClass where
  ranges := [(0x0, 0x1f), (0x7f, 0x9f)]

/-- The format characters: soft hyphen, number signs, joiners, directions, tags. -/
def format : CharClass where
  ranges :=
    [(0xad, 0xad), (0x600, 0x605), (0x61c, 0x61c), (0x6dd, 0x6dd), (0x70f, 0x70f), (0x890, 0x891),
     (0x8e2, 0x8e2), (0x180e, 0x180e), (0x200b, 0x200f), (0x202a, 0x202e), (0x2060, 0x2064),
     (0x2066, 0x206f), (0xfeff, 0xfeff), (0xfff9, 0xfffb), (0x110bd, 0x110bd), (0x110cd, 0x110cd),
     (0x13430, 0x1343f), (0x1bca0, 0x1bca3), (0x1d173, 0x1d17a), (0xe0001, 0xe0001),
     (0xe0020, 0xe007f)]

/-- The spaces and separators, but for the plain space. -/
def spaces : CharClass where
  ranges :=
    [(0xa0, 0xa0), (0x1680, 0x1680), (0x2000, 0x200a), (0x2028, 0x2029), (0x202f, 0x202f),
     (0x205f, 0x205f), (0x3000, 0x3000)]

/-- The letters of Hangul that stand for an empty place. -/
def fillers : CharClass where
  ranges := [(0x115f, 0x1160), (0x3164, 0x3164), (0xffa0, 0xffa0)]

/-- The numbers whose character is left to agreement. -/
def privateUse : CharClass where
  ranges := [(0xe000, 0xf8ff), (0xf0000, 0xffffd), (0x100000, 0x10fffd)]

/-- The classes of characters that show nothing of their own. -/
def hidden : List CharClass :=
  [controls, format, spaces, fillers, combining, privateUse, unassigned]

end CharClass

/-- Whether a character shows nothing of its own. -/
def isHidden (c : Char) : Bool := CharClass.hidden.any (·.contains c)

example : isHidden 'é' = false ∧ isHidden '\u0301' = true := by decide +kernel

example : isHidden '\uff9e' = false ∧ isHidden '\uffa0' = true := by decide +kernel

end OncWire
