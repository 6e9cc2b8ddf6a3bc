import Scriptlet.Text

/-!
# Scriptlet code

Compiled views are texts with scriptlets: `<%` and `%>` around a statement, and
`<%-` and `%>` around an expression whose value is printed.
-/

namespace Scriptlet.Code

def opening : Text := "<% "

def closing : Text := " %>"

def statement (code : Text) : Text :=
  opening ++ code ++ closing

def output (expression : Text) : Text :=
  "<%- " ++ expression ++ closing

def openBlock (head : Text) : Text :=
  statement (head ++ " \x7b")

def closeBlock : Text :=
  statement "\x7d"

/-- A statement that closes a block and opens another one after its head. -/
def nextBlock (head : Text) : Text :=
  statement ("\x7d " ++ head ++ " \x7b")

/-- A call of the host function that escapes a value for HTML. -/
def escapeCall (expression : Text) : Text :=
  "escapeHtml(" ++ expression ++ ")"

def formCall (method arguments : Text) : Text :=
  "form." ++ method ++ "(" ++ arguments ++ ")"

end Scriptlet.Code
