import Scriptlet.Directive.Control
import Scriptlet.Echo

/-!
# Form directives

Form directives become calls of the host's form.  A form block opens the form,
lowers its own body in the same way, closes the form and prints what the calls
have gathered.
-/

namespace Scriptlet.Directive

def formBlock : Pattern '@' (Text × Text) :=
  Pattern.blockOf (Pattern.withArgument "form") "endform"

/-- A statement that calls a method of the form with the arguments of a
directive. -/
def formStatement (method argument : Text) : Text :=
  Code.statement (Code.formCall method (Echo.interpolate .bare (Text.trim argument)) ++ ";")

def formClosing : Text :=
  Code.statement (Code.formCall "end" "" ++ ";") ++ "\n" ++ Code.output (Code.formCall "output" "")

/-- Form directives with an argument.  Each has the name of its method. -/
def controlRules : List Rule :=
  ["input", "textarea", "submit", "button", "label", "select"].map fun method =>
    Rule.ofArgument method.toList (formStatement method.toList)

/-- Lower forms, with form blocks nested at most `bound` deep in each other's
bodies. -/
def lowerFormsWithin : (bound : Nat) → Text → Text
  | 0, text => Pattern.replaceEach controlRules text
  | bound + 1, text =>
      Pattern.replaceEach controlRules
        (formBlock.replace
          (fun block =>
            formStatement "start" block.1 ++ lowerFormsWithin bound (Text.trim block.2)
              ++ formClosing)
          text)

/-- Lower every form block and form control of a text. -/
def lowerForms (text : Text) : Text :=
  lowerFormsWithin text.length text

end Scriptlet.Directive
