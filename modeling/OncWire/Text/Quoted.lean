import OncWire.Text.CharClass.Hidden

/-!
# Quoted text

A string shown inside a message stands between double quotes, with the quote,
the backslash and every character that would not show escaped.  Escaping is
character by character.
-/

namespace OncWire.Quoted

/-- The escape of a character by its number in hexadecimal. -/
def byNumber (c : Char) : List Char :=
  ['\\', 'u', '\x7b'] ++ Nat.toDigits 16 c.toNat ++ ['\x7d']

/-- The shown form of one character. -/
def escape (c : Char) : List Char :=
  if c = '"' ∨ c = '\\' then ['\\', c]
  else if c = '\n' then ['\\', 'n']
  else if c = '\r' then ['\\', 'r']
  else if c = '\t' then ['\\', 't']
  else if c = '\x00' then ['\\', '0']
  else if isHidden c then byNumber c
  else [c]

/-- The shown form of a run of characters. -/
def escapeAll (cs : List Char) : List Char := cs.flatMap escape

end OncWire.Quoted

namespace OncWire

/-- A string between double quotes, with whatever would not show escaped. -/
def quoted (s : String) : String :=
  "\"" ++ String.ofList (Quoted.escapeAll s.toList) ++ "\""

example : quoted "say \"hi\"\n" = "\"say \\\"hi\\\"\\n\"" := by decide +kernel

example : quoted "e\u0301" = "\"e\\u\x7b301\x7d\"" := by decide +kernel

end OncWire
