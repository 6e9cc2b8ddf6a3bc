import Scriptlet.Diagnostic
import Scriptlet.Table

/-!
# The context of a compile

All views that are compiled for one render share a context: the sections that
they have stored, the problems recorded so far, and how deeply views are nested
at the moment.
-/

namespace Scriptlet

/-- The stored sections by their keys.  A later content of a key wins. -/
abbrev Sections := Table Text Text

structure Context where
  sections : Sections := []
  diagnostics : List Diagnostic := []
  depth : Nat := 0
deriving DecidableEq

namespace Context

def record (diagnostic : Diagnostic) (context : Context) : Context :=
  { context with diagnostics := context.diagnostics ++ [diagnostic] }

def store (key content : Text) (context : Context) : Context :=
  { context with sections := Table.insert key content context.sections }

def enter (context : Context) : Context :=
  { context with depth := context.depth + 1 }

def leave (context : Context) : Context :=
  { context with depth := context.depth - 1 }

end Context

end Scriptlet
