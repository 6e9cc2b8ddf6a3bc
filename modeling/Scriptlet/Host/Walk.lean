import Scriptlet.Host.Basic

/-!
# Walking paths

A path is walked name by name from the root or from the working directory.  Two
dots lead back, links are followed, and everything before the last name has to be
a directory.
-/

namespace Scriptlet.Host

inductive Place where
  | present (location : Location) (entry : Entry)
  | absent (location : Location)
deriving DecidableEq

def longestName : Nat := 255

def longestPath : Nat := 4095

def linkLimit : Nat := 40

def byteLength (text : Text) : Nat :=
  text.foldl (fun length character => length + character.utf8Size) 0

/-- The steps of a path.  A path that ends with a slash ends with a step that only
a directory allows. -/
def steps (path : Text) : List Text :=
  (Path.split path).filter (· ≠ []) ++ if Path.endsWithSlash path then [['.']] else []

/-- Walk steps from a directory.  Where a link has to be followed, `follow` goes on
from its directory with its target and the remaining steps. -/
def walkSteps (host : Host) (followLast : Bool)
    (follow : Location → Text → List Text → Except FileError Place) :
    Location → List Text → Except FileError Place
  | location, [] => .ok (.present location ((host.lookup? location).getD (.directory ⟨0⟩)))
  | location, step :: rest =>
      if step = ['.'] then walkSteps host followLast follow location rest
      else if step = ['.', '.'] then walkSteps host followLast follow location.dropLast rest
      else if longestName < byteLength step then .error .nameTooLong
      else
        match host.lookup? (location ++ [step]) with
        | none => if rest = [] then .ok (.absent (location ++ [step])) else .error .notFound
        | some (.directory _) => walkSteps host followLast follow (location ++ [step]) rest
        | some (.file content modified) =>
            if rest = [] then .ok (.present (location ++ [step]) (.file content modified))
            else .error .notDirectory
        | some (.link target) =>
            if rest = [] ∧ ¬followLast then .ok (.present (location ++ [step]) (.link target))
            else follow location target rest

/-- Walk steps from a directory, following at most `links` links. -/
def walkFrom (host : Host) (followLast : Bool) :
    (links : Nat) → Location → List Text → Except FileError Place
  | 0 => walkSteps host followLast fun _ _ _ => .error .tooManyLinks
  | links + 1 =>
      walkSteps host followLast fun location target rest =>
        walkFrom host followLast links
          (if Path.isAbsolute target then [] else location) (steps target ++ rest)

/-- Walk a path.  A link as the last name is followed where `followLast` says so. -/
def walk (host : Host) (followLast : Bool) (path : Text) : Except FileError Place :=
  if '\x00' ∈ path then .error .nulInPath
  else if path = [] then .error .notFound
  else if longestPath < byteLength path then .error .nameTooLong
  else
    walkFrom host followLast linkLimit
      (if Path.isAbsolute path then [] else host.workingDirectory) (steps path)

end Scriptlet.Host
