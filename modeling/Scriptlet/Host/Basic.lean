import Scriptlet.Host.FileError
import Scriptlet.Host.Time
import Scriptlet.Path
import Scriptlet.Table

/-!
# The host

A host is what a program sees of the machine it runs on: its files, the time,
and one environment variable.  Files are a table from locations, which are rows
of names from the root, to what is there.  The root itself is always a
directory.
-/

namespace Scriptlet

namespace Host

abbrev Location := List Text

/-- What a file holds: a text, or bytes that are not one. -/
inductive Content where
  | text (value : Text)
  | undecodable
deriving DecidableEq

inductive Entry where
  | file (content : Content) (modified : Time)
  | directory (modified : Time)
  | link (target : Text)
deriving DecidableEq

/-- The time at which an entry was modified.  A link has none of its own. -/
def Entry.modified? : Entry → Option Time
  | .file _ modified => some modified
  | .directory modified => some modified
  | .link _ => none

/-- The text that some bytes encode, if they encode one. -/
def Content.ofBytes (bytes : List UInt8) : Content :=
  match String.fromUTF8? ⟨bytes.toArray⟩ with
  | some value => .text value.toList
  | none => .undecodable

end Host

structure Host where
  entries : Table Host.Location Host.Entry := []
  workingDirectory : Host.Location := []
  now : Host.Time
  /-- The environment variable that names the environment. -/
  environment? : Option Text := none
deriving DecidableEq

namespace Host

/-- What is at a location, without following a link. -/
def lookup? (host : Host) (location : Location) : Option Entry :=
  if location = [] then some (.directory ⟨0⟩) else Table.get? location host.entries

def put (location : Location) (entry : Entry) (host : Host) : Host :=
  { host with entries := Table.insert location entry host.entries }

def drop (location : Location) (host : Host) : Host :=
  { host with entries := Table.erase location host.entries }

theorem lookup?_put (location other : Location) (entry : Entry) (host : Host)
    (inside : location ≠ []) :
    (host.put location entry).lookup? other =
      if location = other then some entry else host.lookup? other := by
  by_cases root : other = []
  · simp [lookup?, root, inside]
  · simp [lookup?, root, put, Table.get?_insert]

theorem lookup?_drop (location other : Location) (host : Host) (inside : location ≠ []) :
    (host.drop location).lookup? other =
      if location = other then none else host.lookup? other := by
  by_cases root : other = []
  · simp [lookup?, root, inside]
  · simp [lookup?, root, drop, Table.get?_erase]

end Host

end Scriptlet
