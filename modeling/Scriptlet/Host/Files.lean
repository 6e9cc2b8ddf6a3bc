import Scriptlet.Host.Walk

/-!
# File operations

The operations on files that programs ask a host for.  Each one walks its path
first, so it fails where the walk fails.
-/

namespace Scriptlet.Host

def find (host : Host) (path : Text) : Except FileError (Location × Entry) :=
  match host.walk true path with
  | .ok (.present location entry) => .ok (location, entry)
  | .ok (.absent _) => .error .notFound
  | .error error => .error error

def isFile (host : Host) (path : Text) : Bool :=
  match host.find path with
  | .ok (_, .file ..) => true
  | _ => false

def isDirectory (host : Host) (path : Text) : Bool :=
  match host.find path with
  | .ok (_, .directory _) => true
  | _ => false

def modified (host : Host) (path : Text) : Except FileError Time := do
  let (_, entry) ← host.find path
  return entry.modified?.getD ⟨0⟩

def readText (host : Host) (path : Text) : Except FileError Text := do
  match ← host.find path with
  | (_, .file (.text value) _) => return value
  | (_, .file .undecodable _) => throw .notText
  | _ => throw .isDirectory

/-- Write a file, which is made where it is missing, with a modification time. -/
def writeAt (time : Time) (host : Host) (path : Text) (content : Content) :
    Except FileError Host := do
  match ← host.walk true path with
  | .present _ (.directory _) => throw .isDirectory
  | .present location _ => return host.put location (.file content time)
  | .absent location => return host.put location (.file content time)

def writeText (host : Host) (path text : Text) : Except FileError Host :=
  host.writeAt host.now path (.text text)

/-- Set the modification time of a file, which has to be open for writing. -/
def stampFile (host : Host) (path : Text) (time : Time) : Except FileError Host := do
  match ← host.find path with
  | (location, .file content _) => return host.put location (.file content time)
  | _ => throw .isDirectory

/-- Set the modification time of a file or a directory. -/
def touch (host : Host) (path : Text) (time : Time) : Except FileError Host := do
  match ← host.find path with
  | (location, .file content _) => return host.put location (.file content time)
  | (location, _) => return host.put location (.directory time)

/-- Remove a file, or a link without what it leads to. -/
def removeFile (host : Host) (path : Text) : Except FileError Host := do
  match ← host.walk false path with
  | .present _ (.directory _) => throw .isDirectory
  | .present location _ => return host.drop location
  | .absent _ => throw .notFound

/-- The names in a directory, the newest one first.  A name is as old as what is
there, so writing to a file leaves its place and removing it gives it up. -/
def namesIn (host : Host) (location : Location) : List Text :=
  host.entries.reverse.filterMap fun entry =>
    match entry.1.getLast? with
    | some name => if entry.1.dropLast = location then some name else none
    | none => none

/-- The names in the directory that a path leads to, the newest one first. -/
def list (host : Host) (path : Text) : Except FileError (List Text) := do
  match ← host.find path with
  | (location, .directory _) => return host.namesIn location
  | _ => throw .notDirectory

/-- Make a directory where a path ends, unless there is one. -/
def makeDirectory (host : Host) (path : Text) : Except FileError Host := do
  match ← host.walk true path with
  | .present _ (.directory _) => return host
  | .present _ _ => throw .alreadyExists
  | .absent location => return host.put location (.directory host.now)

/-- The paths to the directories on the way to where a path ends, the last one
included. -/
def wayTo (path : Text) : List Text :=
  let parts := Path.parts path
  let root : Text := if Path.isAbsolute path then ['/'] else []
  (List.range parts.length).map fun index =>
    root ++ Path.ofParts (parts.take (index + 1))

/-- Make every directory on the way to where a path ends. -/
def makeDirectories (host : Host) (path : Text) : Except FileError Host :=
  (wayTo path).foldlM makeDirectory host

/-- Remove what a path names: a file, a link, or a directory with all that is in
it. -/
def removeTree (host : Host) (path : Text) : Except FileError Host := do
  match ← host.walk false path with
  | .present location _ =>
      return { host with
        entries := host.entries.filter fun entry => !location.isPrefixOf entry.1 }
  | .absent _ => throw .notFound

def makeLink (host : Host) (path target : Text) : Except FileError Host := do
  match ← host.walk false path with
  | .present _ _ => throw .alreadyExists
  | .absent location => return host.put location (.link target)

def pathOf (location : Location) : Text :=
  '/' :: Path.ofParts location

/-- The path from the root to what a path leads to, without links on the way.
There is none where it would be longer than paths can be. -/
def canonical (host : Host) (path : Text) : Except FileError Text := do
  let (location, _) ← host.find path
  if longestPath < byteLength (pathOf location) then throw .nameTooLong
  else return pathOf location

/-- The path from the root to what a path leads to, or the path itself made
absolute where there is nothing or no such path. -/
def absolute (host : Host) (path : Text) : Text :=
  match host.canonical path with
  | .ok found => found
  | .error _ => Path.absolute (pathOf host.workingDirectory) path

end Scriptlet.Host
