import Scriptlet.Failure
import Scriptlet.Table

/-!
# Loaders

A loader gives the source of a view by its name, and the path that the name
stands for.  The simplest loader serves views from a table, where names are
looked up as they are written.
-/

namespace Scriptlet.View

structure Loader where
  path : (name : Text) → Text
  load : (name : Text) → Except Failure Text

def Loader.ofTable (views : Table Text Text) : Loader where
  path name := name
  load name :=
    match views.get? name with
    | some source => .ok source
    | none => .error (.viewNotFound name name)

end Scriptlet.View
