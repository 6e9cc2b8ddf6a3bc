import Scriptlet.Text

/-!
# Paths

A path is a text whose parts are separated by slashes.  It is absolute where it
begins with a slash.
-/

namespace Scriptlet.Path

def isAbsolute (path : Text) : Bool :=
  path.head? = some '/'

def endsWithSlash (path : Text) : Bool :=
  path.getLast? = some '/'

/-- A path taken from another one.  An absolute path replaces the other one, and
one slash stands between the two unless the first one is empty or brings it. -/
def join (base path : Text) : Text :=
  if isAbsolute path then path
  else if base = [] || endsWithSlash base then base ++ path
  else base ++ '/' :: path

/-- The parts of a path between its slashes, empty ones included. -/
def split : Text → List Text
  | [] => [[]]
  | head :: tail =>
      match split tail with
      | part :: parts => if head = '/' then [] :: part :: parts else (head :: part) :: parts
      | [] => [[head]]

/-- The parts of a path that name something: neither empty nor a single dot. -/
def parts (path : Text) : List Text :=
  (split path).filter fun part => part ≠ [] ∧ part ≠ ['.']

def ofParts (parts : List Text) : Text :=
  (parts.intersperse ['/']).flatten

/-- A path read backwards, without the slashes and single dots it begins with. -/
def dropTrailing : Text → Text
  | '/' :: rest => dropTrailing rest
  | '.' :: '/' :: rest => dropTrailing rest
  | rest => rest

/-- The path of the directory that a path to a file names the file in. -/
def parent (path : Text) : Text :=
  let directory := (dropTrailing (path.reverse.dropWhile (· ≠ '/'))).reverse
  if directory = [] && isAbsolute path then ['/'] else directory

/-- What follows the last dot of a name, unless the name only begins with that
dot. -/
def extension? (name : Text) : Option Text :=
  let reversed := name.reverse
  match reversed.dropWhile (· ≠ '.') with
  | '.' :: _ :: _ => some (reversed.takeWhile (· ≠ '.')).reverse
  | _ => none

/-- A path made absolute without looking at any file: repeated slashes and single
dots go, two dots and a last slash stay.  Exactly two slashes in front stay two. -/
def absolute (workingDirectory path : Text) : Text :=
  if path = [] then []
  else
    let root : Text :=
      match path with
      | '/' :: '/' :: '/' :: _ => "/"
      | '/' :: '/' :: _ => "//"
      | '/' :: _ => "/"
      | _ => workingDirectory
    let whole := (parts path).foldl join root
    if endsWithSlash path && !endsWithSlash whole then whole ++ "/" else whole

end Scriptlet.Path
