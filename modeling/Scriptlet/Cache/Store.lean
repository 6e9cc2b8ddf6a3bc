import Scriptlet.Cache.Key
import Scriptlet.Cache.Policy
import Scriptlet.Failure
import Scriptlet.Host.Files

/-!
# The artifact store

Artifacts are files in one directory of the host, each under its key.  Until a
directory is set, every operation fails.  Reading and stamping report what the
host reports; writing and deleting only say whether they succeeded.
-/

namespace Scriptlet

open Host (FileError Time)

/-- A store of artifacts in a directory of the host. -/
structure Cache where
  directory? : Option Text := none
deriving DecidableEq

namespace Cache

def inDirectory (host : Host) (directory : Text) : Except Failure Cache :=
  if host.isDirectory directory then .ok ⟨some directory⟩
  else .error (.noCacheDirectory (some directory))

def directory (cache : Cache) : Except Failure Text :=
  match cache.directory? with
  | some directory => .ok directory
  | none => .error (.noCacheDirectory none)

/-- Where the artifact of a key is stored.  Slashes in front of a key are
ignored. -/
def artifactPath (cache : Cache) (key : Text) : Except Failure Text :=
  cache.directory.map fun directory => Path.join directory (key.dropWhile (· = '/'))

def has (cache : Cache) (host : Host) (key : Text) : Except Failure Bool :=
  (cache.artifactPath key).map host.isFile

/-- When the artifact of a key was written, if there is one. -/
def lastWriteTime (cache : Cache) (host : Host) (key : Text) : Except Failure (Option Time) := do
  match host.modified (← cache.artifactPath key) with
  | .ok time => return some time
  | .error .notFound => return none
  | .error error => throw (.file error)

def read (cache : Cache) (host : Host) (key : Text) : Except Failure Text := do
  match host.readText (← cache.artifactPath key) with
  | .ok code => return code
  | .error error => throw (.file error)

/-- Store code under a key.  Nothing changes where the file cannot be written. -/
def write (cache : Cache) (host : Host) (key code : Text) : Except Failure (Bool × Host) := do
  match host.writeText (← cache.artifactPath key) code with
  | .ok host => return (true, host)
  | .error _ => return (false, host)

def stamp (cache : Cache) (host : Host) (key : Text) (time : Time) : Except Failure Host := do
  match host.stampFile (← cache.artifactPath key) time with
  | .ok host => return host
  | .error error => throw (.file error)

/-- Remove the artifact of a key, and say whether something was removed. -/
def delete (cache : Cache) (host : Host) (key : Text) : Except Failure (Bool × Host) := do
  match host.removeFile (← cache.artifactPath key) with
  | .ok host => return (true, host)
  | .error _ => return (false, host)

/-- Whether a name in the directory of a store is that of an artifact. -/
def isArtifactName (name : Text) : Bool :=
  Path.extension? name = some artifactExtension

/-- Remove the artifacts among the given names of a directory, one after another,
and count them. -/
def clearNames (directory : Text) : List Text → Host → Except Failure (Nat × Host)
  | [], host => .ok (0, host)
  | name :: names, host =>
      let path := Path.join directory name
      if isArtifactName name && host.isFile path then
        match host.removeFile path with
        | .ok host => (clearNames directory names host).map fun rest => (rest.1 + 1, rest.2)
        | .error error => .error (.file error)
      else clearNames directory names host

def clear (cache : Cache) (host : Host) : Except Failure (Nat × Host) := do
  let directory ← cache.directory
  match host.list directory with
  | .ok names => clearNames directory names host
  | .error error => throw (.file error)

inductive Lookup where
  | absent
  | expired
  /-- An artifact that the policy accepts and that cannot be read. -/
  | unreadable (failure : Failure)
  /-- The code of an artifact that the policy accepts. -/
  | fresh (code : Text)
deriving DecidableEq

/-- Look for an artifact of a key that a policy accepts, given when its source was
modified. -/
def lookup (cache : Cache) (policy : Policy) (host : Host) (key : Text) (modified : Time) :
    Except Failure Lookup := do
  match ← cache.lastWriteTime host key with
  | none => return .absent
  | some written =>
      if policy.accepts written modified host.now then
        match cache.read host key with
        | .ok code => return .fresh code
        | .error failure => return .unreadable failure
      else return .expired

end Cache

end Scriptlet
