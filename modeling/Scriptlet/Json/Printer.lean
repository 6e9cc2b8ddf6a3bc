import Scriptlet.Json.Value
import Scriptlet.Text.Quoted

/-!
# Compact printing

Values are printed without spaces.  A double always shows that it is one, by a
point or an exponent, and is positional for decimal exponents from -5 to 15.
-/

namespace Scriptlet.Json

/-- Doubles are positional for decimal exponents from -5 to 15. -/
def doubleLayout : Decimal.Layout := ⟨-5, 15⟩

def Number.print : Number → Text
  | .integer value => Decimal.ofInt value
  | .double bits => Decimal.ofDouble doubleLayout bits

def commaSeparated (texts : List Text) : Text :=
  (texts.intersperse [',']).flatten

mutual

def Value.print : Value → Text
  | .null => "null"
  | .boolean true => "true"
  | .boolean false => "false"
  | .number value => value.print
  | .string value => Text.quote value
  | .array items => "[" ++ commaSeparated (printItems items) ++ "]"
  | .object entries => "\x7b" ++ commaSeparated (printEntries entries) ++ "\x7d"

def Value.printItems : List Value → List Text
  | [] => []
  | item :: items => item.print :: printItems items

def Value.printEntries : List (Text × Value) → List Text
  | [] => []
  | entry :: entries => (Text.quote entry.1 ++ ":" ++ entry.2.print) :: printEntries entries

end

end Scriptlet.Json
