import Scriptlet.Failure
import Scriptlet.Decimal.Integer

/-!
# Diagnostics

A diagnostic records a problem that a compile or a render went on from.  The
problems of this library each have a code; diagnostics are kept in the order in
which they were recorded.
-/

namespace Scriptlet

inductive Severity where
  | warning
  | error
deriving DecidableEq

/-- One recorded problem, with the view that it concerns. -/
structure Diagnostic where
  severity : Severity
  code? : Option Text
  message : Text
  view? : Option Text
deriving DecidableEq

namespace Diagnostic

def nestedNotFoundCode : Text := "V-1-1"

/-- The code of a nested view that could not be read. -/
def nestedUnreadableCode : Text := "V-1-2"

def nestedTooDeepCode : Text := "V-1-3"

/-- The code of an artifact that could not be written. -/
def cacheWriteFailedCode : Text := "V-2-1"

/-- The code of an artifact that could not be read back. -/
def cacheReadFailedCode : Text := "V-2-2"

def warn (code message view : Text) : Diagnostic :=
  ⟨.warning, some code, message, some view⟩

/-- A nested view is left out because it does not exist. -/
def nestedNotFound (view path : Text) : Diagnostic :=
  warn nestedNotFoundCode
    ("Replaced " ++ Text.inQuotes view ++ " with empty text: " ++ path ++ " could not be found")
    view

/-- A nested view is left out because loading it failed. -/
def nestedUnreadable (view : Text) (failure : Failure) : Diagnostic :=
  warn nestedUnreadableCode
    ("Replaced " ++ Text.inQuotes view ++ " with empty text: " ++ failure.message)
    view

/-- A nested view is left out because it is nested more deeply than the limit. -/
def nestedTooDeep (view : Text) (limit : Nat) : Diagnostic :=
  warn nestedTooDeepCode
    ("Replaced " ++ Text.inQuotes view ++ " with empty text: views nested more than "
      ++ Decimal.ofNat limit ++ " levels deep")
    view

/-- A view was rendered and its artifact could not be written. -/
def cacheWriteFailed (view path : Text) : Diagnostic :=
  warn cacheWriteFailedCode
    ("Rendered " ++ Text.inQuotes view ++ " without caching: " ++ path
      ++ " could not be written")
    view

/-- A view was compiled again because its artifact could not be read. -/
def cacheReadFailed (view : Text) (failure : Failure) : Diagnostic :=
  warn cacheReadFailedCode
    ("Recompiled " ++ Text.inQuotes view ++ ": cached artifact could not be read: "
      ++ failure.message)
    view

def render (diagnostic : Diagnostic) : Text :=
  let label : Text :=
    match diagnostic.severity with
    | .warning => "warning"
    | .error => "error"
  match diagnostic.code? with
  | some code => label ++ "[" ++ code ++ "]: " ++ diagnostic.message
  | none => label ++ ": " ++ diagnostic.message

def anyError (diagnostics : List Diagnostic) : Bool :=
  diagnostics.any fun diagnostic => diagnostic.severity = .error

end Diagnostic

end Scriptlet
