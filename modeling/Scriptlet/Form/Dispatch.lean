import Scriptlet.Failure
import Scriptlet.Form.Builder
import Scriptlet.Json.Printer

/-!
# Calls from compiled code

Compiled code calls the methods of the form by name, with host values as
arguments.  A missing argument is null.  Each method adds one element, except
that `output` flushes the form and gives its markup back.
-/

namespace Scriptlet.Form

open Json (Value)

/-- A value as it is written in markup: nothing for null, a string as it is, and
any other value as it is printed. -/
def scalar : Value → Text
  | .null => []
  | .string value => value
  | value => value.print

/-- A value as it is written in markup, with a text that stands for null. -/
def scalarOr (fallback : Text) : Value → Text
  | .null => fallback
  | value => scalar value

/-- The attribute that an entry of an object stands for.  An integer of 64 bits
as its key makes it a flag. -/
def attributeOfEntry (entry : Text × Value) : Attribute :=
  match Decimal.readSigned64? entry.1 with
  | some _ => .flag (scalar entry.2)
  | none => .pair entry.1 (scalar entry.2)

def attributesOf : Value → List Attribute
  | .object entries => entries.map attributeOfEntry
  | .array items => items.map fun item => .flag (scalar item)
  | _ => []

/-- The options that a value stands for: the entries of an object, or the items
of an array with their positions as values. -/
def optionsOf : Value → List (Text × Text)
  | .object entries => entries.map fun entry => (entry.1, scalar entry.2)
  | .array items => items.zipIdx.map fun item => (Decimal.ofNat item.2, scalar item.1)
  | _ => []

inductive Call where
  | add (element : Element)
  | flush
deriving DecidableEq

/-- The call of a method with its arguments, where there is such a method. -/
def Call.ofMethod? (method : Text) (arguments : List Value) : Option Call :=
  let argument (position : Nat) : Value := arguments[position]?.getD .null
  if method = "start".toList then
    some (.add (.opening (scalar (argument 0)) (scalarOr "POST" (argument 1))
      (attributesOf (argument 2))))
  else if method = "end".toList then some (.add .closing)
  else if method = "input".toList then
    some (.add (.input (scalar (argument 0)) (scalarOr "text" (argument 1))
      (attributesOf (argument 2))))
  else if method = "textarea".toList then
    some (.add (.textarea (scalar (argument 0)) (scalar (argument 1))
      (attributesOf (argument 2))))
  else if method = "submit".toList then
    some (.add (.submit (scalarOr "Submit" (argument 0))))
  else if method = "button".toList then
    some (.add (.button (scalar (argument 0)) (attributesOf (argument 1))))
  else if method = "label".toList then
    some (.add (.label (scalar (argument 0)) (scalar (argument 1))))
  else if method = "select".toList then
    let selected? : Option Text :=
      match argument 3 with
      | .null => none
      | value => some (scalar value)
    some (.add (.select (scalar (argument 0)) (optionsOf (argument 1))
      (attributesOf (argument 2)) selected?))
  else if method = "html".toList then some (.add (.raw (scalar (argument 0))))
  else if method = "output".toList then some .flush
  else none

/-- Run a call: the markup that it gives back, if any, and the form after it. -/
def Call.run : Call → Form → Option Text × Form
  | .add element, form => (none, form.add element)
  | .flush, form => (some form.flush.1, form.flush.2)

def dispatch (method : Text) (arguments : List Value) (form : Form) :
    Except Failure (Option Text × Form) :=
  match Call.ofMethod? method arguments with
  | some call => .ok (call.run form)
  | none => .error (.unknownFormMethod method)

/-- Call methods one after another, and join the markup that they give back. -/
def dispatchAll : List (Text × List Value) → Form → Except Failure (Text × Form)
  | [], form => .ok ([], form)
  | (method, arguments) :: calls, form => do
      let (markup?, form) ← dispatch method arguments form
      let (rest, form) ← dispatchAll calls form
      return (markup?.getD [] ++ rest, form)

end Scriptlet.Form
