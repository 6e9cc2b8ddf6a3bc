import Scriptlet.Code
import Scriptlet.Pattern.Replace
import Scriptlet.Text.Blank

/-!
# Echoes

A view prints an expression by `{!! expression !!}` as it is and by
`{{ expression }}` escaped for HTML.  Unescaped echoes are replaced first, so an
escaped echo is found in what they leave.
-/

namespace Scriptlet.Echo

inductive Mode where
  | output
  /-- Left as a bare expression, inside the arguments of a call. -/
  | bare
deriving DecidableEq

def unescapedPattern : Pattern '\x7b' Text :=
  Pattern.between (Pattern.literal '\x7b' "!!") (Pattern.literal '!' "!\x7d")

def escapedPattern : Pattern '\x7b' Text :=
  Pattern.between (Pattern.literal '\x7b' "\x7b") (Pattern.literal '\x7d' "\x7d")

def Mode.code : Mode → Text → Text
  | .output, expression => Code.output expression
  | .bare, expression => expression

def patterns (mode : Mode) : List (Pattern '\x7b' Text) :=
  [unescapedPattern.map fun echo => mode.code (Text.trim echo),
   escapedPattern.map fun echo => mode.code (Code.escapeCall (Text.trim echo))]

def interpolate (mode : Mode) (text : Text) : Text :=
  Pattern.replaceEach (patterns mode) text

end Scriptlet.Echo
