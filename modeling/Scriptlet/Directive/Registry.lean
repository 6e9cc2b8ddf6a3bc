import Scriptlet.Failure
import Scriptlet.Pattern.Replace
import Scriptlet.Text.Blank

/-!
# Custom directives

A host registers directives of its own: a name and a handler, which gets the
text between the parentheses where there are any.  Directives run in the order
of their first registration, and registering a name again replaces its handler.
-/

namespace Scriptlet

structure Directive where
  name : Text
  handler : Option Text → Text

/-- The uses of a directive, and what its handler answers for them. -/
def Directive.pattern (directive : Directive) : Pattern '@' Text :=
  (Pattern.withOptionalArgument directive.name).map directive.handler

/-- Custom directives in the order in which they run. -/
structure Registry where
  directives : List Directive := []

namespace Registry

/-- Whether a character may stand in the name of a directive. -/
def isNameCharacter (character : Char) : Bool :=
  ('0' ≤ character && character ≤ '9') || ('a' ≤ character && character ≤ 'z')
    || ('A' ≤ character && character ≤ 'Z')

/-- A name as written by a host, without the white space around it and without
the signs in front of it. -/
def normalize (written : Text) : Text :=
  (Text.trim written).dropWhile (· = '@')

def isName (name : Text) : Bool :=
  !name.isEmpty && name.all isNameCharacter

/-- Put a directive in the place of the one with its name, or at the end. -/
def place (directive : Directive) : List Directive → List Directive
  | [] => [directive]
  | head :: tail =>
      if head.name = directive.name then directive :: tail else head :: place directive tail

def register (written : Text) (handler : Option Text → Text) (registry : Registry) :
    Except Failure Registry :=
  if isName (normalize written) then
    .ok ⟨place ⟨normalize written, handler⟩ registry.directives⟩
  else .error (.invalidDirective written)

def get? (name : Text) (registry : Registry) : Option Directive :=
  registry.directives.find? fun directive => directive.name = name

def names (registry : Registry) : List Text :=
  registry.directives.map (·.name)

/-- Run every directive on a text, one after another. -/
def apply (registry : Registry) (text : Text) : Text :=
  Pattern.replaceEach (registry.directives.map Directive.pattern) text

end Registry

end Scriptlet
