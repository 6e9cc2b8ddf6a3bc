import Scriptlet.Table
import Scriptlet.Decimal.Shortest

/-!
# Host values

The arguments and data that a host passes to compiled code are JSON values.  The
entries of an object keep the order in which they were written.
-/

namespace Scriptlet.Json

/-- A number is an integer of at most 64 bits, or a double given by its bits. -/
inductive Number where
  | integer (value : Int)
  | double (bits : UInt64)
deriving DecidableEq

inductive Value where
  | null
  | boolean (value : Bool)
  | number (value : Number)
  | string (value : Text)
  | array (items : List Value)
  | object (entries : List (Text × Value))

/-- The value of an entry of an object, and nothing for any other value. -/
def Value.field? (key : Text) : Value → Option Value
  | .object entries => Table.get? key entries
  | _ => none

end Scriptlet.Json
