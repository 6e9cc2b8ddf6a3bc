import Scriptlet.Code
import Scriptlet.Pattern.Replace
import Scriptlet.Text.Blank
import Scriptlet.Text.Quoted
import Scriptlet.Text.Unquote

/-!
# Control directives

The directives that become one scriptlet each, without regard to anything
outside their own text.  A group of them is a list of rules that change the whole
text one after another, and the order of the list decides how overlapping names
are read.
-/

namespace Scriptlet.Directive

abbrev Rule := Pattern '@' Text

/-- `@name(argument)` for the code that its argument gives. -/
def Rule.ofArgument (name : Text) (code : Text → Text) : Rule :=
  (Pattern.withArgument name).map code

/-- `@name(argument)` for a block whose head is the trimmed argument between two
texts. -/
def Rule.ofBlock (name opening closing : Text) : Rule :=
  Rule.ofArgument name fun argument =>
    Code.openBlock (opening ++ Text.trim argument ++ closing)

/-- `@name` for one code. -/
def Rule.ofWord (name code : Text) : Rule :=
  (Pattern.bare name).map fun _ => code

/-- The head of a block that runs in one environment only. -/
def environmentHead (name : Text) : Text :=
  "if (env.ENVIRONMENT === " ++ Text.quote name ++ ")"

def environmentRules : List Rule :=
  [Rule.ofArgument "env" fun argument =>
     Code.openBlock (environmentHead (Text.unquote argument)),
   Rule.ofWord "endenv" Code.closeBlock]

/-- Loops.  The longer names come first, as each one begins with a shorter one. -/
def loopRules : List Rule :=
  [Rule.ofBlock "foreach" "for (" ")",
   Rule.ofWord "endforeach" Code.closeBlock,
   Rule.ofBlock "for" "for (" ")",
   Rule.ofWord "endfor" Code.closeBlock,
   Rule.ofBlock "while" "while (" ")",
   Rule.ofWord "endwhile" Code.closeBlock]

/-- A statement that leaves or goes on with a loop under a condition. -/
def conditionalJump (statement condition : Text) : Text :=
  Code.statement ("if (" ++ Text.trim condition ++ ") \x7b " ++ statement ++ " \x7d")

/-- Leaving a loop and going on with it, under a condition or without one. -/
def jumpRules : List Rule :=
  [Rule.ofArgument "continue" (conditionalJump "continue;"),
   Rule.ofArgument "break" (conditionalJump "break;"),
   Rule.ofWord "continue" (Code.statement "continue;"),
   Rule.ofWord "break" (Code.statement "break;")]

def conditionalRules : List Rule :=
  [Rule.ofBlock "if" "if (" ")",
   Rule.ofArgument "elseif" fun argument =>
     Code.nextBlock ("else if (" ++ Text.trim argument ++ ")"),
   Rule.ofWord "else" (Code.nextBlock "else"),
   Rule.ofWord "endif" Code.closeBlock]

def switchBlock : Pattern '@' (Text × Text) :=
  Pattern.blockOf (Pattern.withArgument "switch") "endswitch"

def switchCode (argument body : Text) : Text :=
  Code.openBlock ("switch (" ++ Text.trim argument ++ ")") ++ body ++ Code.closeBlock

def caseLabelRules : List Rule :=
  [Rule.ofArgument "case" fun argument =>
     Code.statement ("case " ++ Text.trim argument ++ ":"),
   Rule.ofWord "default" (Code.statement "default:")]

/-- The head of a block that runs where an expression is defined and not null. -/
def existenceHead (expression : Text) : Text :=
  "if (typeof (" ++ expression ++ ") !== \"undefined\" && (" ++ expression ++ ") !== null)"

/-- Blocks that run where an expression is defined, or where it is empty. -/
def existenceRules : List Rule :=
  [Rule.ofArgument "isset" fun argument =>
     Code.openBlock (existenceHead (Text.trim argument)),
   Rule.ofWord "endisset" Code.closeBlock,
   Rule.ofBlock "empty" "if (empty(" "))",
   Rule.ofWord "endempty" Code.closeBlock]

def rawCodeRules : List Rule :=
  [Rule.ofWord "php" Code.opening, Rule.ofWord "endphp" Code.closing]

/-- The hidden field that names the method of a form. -/
def methodField (method : Text) : Text :=
  "<input type=\"hidden\" name=\"_method\" value=" ++ Text.inQuotes method ++ " />"

def methodRules : List Rule :=
  [Rule.ofArgument "method" fun argument => methodField (Text.unquote argument)]

def comment : Pattern '\x7b' Text :=
  Pattern.between (Pattern.literal '\x7b' "\x7b--") (Pattern.literal '-' "-\x7d\x7d")

def dropComments (text : Text) : Text :=
  comment.replace (fun _ => []) text

end Scriptlet.Directive
