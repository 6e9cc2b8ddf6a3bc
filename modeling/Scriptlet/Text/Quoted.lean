import Scriptlet.Text.Hexadecimal

/-!
# String literals

A text is quoted by writing it between double quotes and escaping the quote, the
backslash and the control characters below U+0020.  The escapes with a letter of
their own are used where there is one, and otherwise four hexadecimal digits.
-/

namespace Scriptlet.Text

/-- How one character is written inside a string literal. -/
def escape (character : Char) : Text :=
  if character = '"' then ['\\', '"']
  else if character = '\\' then ['\\', '\\']
  else if character = '\x08' then ['\\', 'b']
  else if character = '\x0c' then ['\\', 'f']
  else if character = '\n' then ['\\', 'n']
  else if character = '\r' then ['\\', 'r']
  else if character = '\t' then ['\\', 't']
  else if character.toNat < 0x20 then
    ['\\', 'u', '0', '0', hexDigit (character.toNat / 16), hexDigit (character.toNat % 16)]
  else [character]

def quote (text : Text) : Text :=
  inQuotes (text.flatMap escape)

end Scriptlet.Text
