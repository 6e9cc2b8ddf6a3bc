import Scriptlet.Path

/-!
# View paths

A view name is resolved against the views directory.  Slashes in front of the
name are ignored, and the suffix is added unless the name ends with it.
-/

namespace Scriptlet.View

/-- The suffix of view files where no other one is set. -/
def defaultSuffix : Text := ".view.html"

def dropSlashes (name : Text) : Text :=
  name.dropWhile (· = '/')

def withSuffix (suffix name : Text) : Text :=
  if suffix.isSuffixOf name then name else name ++ suffix

def resolvePath (viewsDirectory name suffix : Text) : Text :=
  Path.join viewsDirectory (withSuffix suffix (dropSlashes name))

end Scriptlet.View
