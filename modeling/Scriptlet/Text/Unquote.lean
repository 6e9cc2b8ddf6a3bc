import Scriptlet.Text

/-!
# Unquoted names

View names and section keys are written `'name'` or `"name"` in directives.
-/

namespace Scriptlet.Text

/-- Quotes of both kinds and the white space that may stand around them. -/
def isQuoting (character : Char) : Bool :=
  character ∈ [' ', '\t', '\n', '\r', '\x00', '\x0b', '"', '\x27']

/-- Remove quotes and white space around a name, however many there are. -/
def unquote (text : Text) : Text :=
  trimBy isQuoting text

end Scriptlet.Text
