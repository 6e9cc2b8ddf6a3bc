import Scriptlet.Form.Dispatch

/-!
# Executors

Compiled code is run by the host.  An executor gets an artifact and the bindings
of one render, and answers the rendered text.
-/

namespace Scriptlet

/-- The compiled code of a view, and the key under which it is stored. -/
structure Artifact where
  key : Text
  code : Text
deriving DecidableEq

/-- What compiled code can refer to during one render. -/
structure Scope where
  data : Json.Value
  form : Form := {}
  environment? : Option Text

structure Delivery where
  artifact : Artifact
  scope : Scope

abbrev Executor := Delivery → Except Failure Text

def Executor.dryRun : Executor :=
  fun delivery => .ok delivery.artifact.code

/-- An executor that answers the code and what some calls of the form give
back. -/
def Executor.replaying (calls : List (Text × List Json.Value)) : Executor :=
  fun delivery =>
    (Form.dispatchAll calls delivery.scope.form).map fun replayed =>
      delivery.artifact.code ++ replayed.1

end Scriptlet
