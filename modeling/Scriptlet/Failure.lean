import Scriptlet.Host.FileError

/-!
# Failures

Only what aborts an operation is a failure.  Problems that a compile or a render
can go on from are recorded as diagnostics instead.
-/

namespace Scriptlet

inductive Failure where
  /-- The cache directory is unset, or the given one is not an existing directory. -/
  | noCacheDirectory (given? : Option Text)
  /-- There is no view of this name; the path is where it was looked for. -/
  | viewNotFound (name path : Text)
  | viewUnreadable (name : Text) (cause : Host.FileError)
  /-- A directive was registered under a name that is not alphanumeric. -/
  | invalidDirective (name : Text)
  /-- A form was asked for a method that it does not have. -/
  | unknownFormMethod (method : Text)
  | executionFailed (message : Text)
  /-- The configuration is not well formed, or a setting has the wrong type. -/
  | malformedConfiguration
  /-- The time-to-live setting is a text other than the keyword. -/
  | invalidTtl (given : Text)
  | file (cause : Host.FileError)
deriving DecidableEq

namespace Failure

def ttlComplaint (given : Text) : Text :=
  "invalid ttl " ++ Text.inQuotes given ++ ": expected a number of seconds or \"mtime\""

def message : Failure → Text
  | .noCacheDirectory none =>
      "Configuration error: an existing directory must be specified for the view cache"
  | .noCacheDirectory (some given) =>
      "Configuration error: an existing directory must be specified for the view cache (got "
        ++ given ++ ")"
  | .viewNotFound name path =>
      "View not found: " ++ Text.inQuotes name ++ " (looked for " ++ path ++ ")"
  | .viewUnreadable name cause =>
      "Could not read view " ++ Text.inQuotes name ++ ": " ++ cause.message
  | .invalidDirective name =>
      "Invalid directive " ++ Text.inQuotes name
        ++ ": directive names may only contain alphanumeric characters"
  | .unknownFormMethod method =>
      "Execution error: unknown form method " ++ Text.inQuotes method
  | .executionFailed message => "Execution error: " ++ message
  | .malformedConfiguration => "Failed to parse view configuration: malformed document"
  | .invalidTtl given => "Failed to parse view configuration: " ++ ttlComplaint given
  | .file cause => "I/O error: " ++ cause.message

/-- The failure that another one reports on, if there is one behind it. -/
def cause? : Failure → Option Host.FileError
  | .viewUnreadable _ cause => some cause
  | .file cause => some cause
  | _ => none

end Failure

end Scriptlet
