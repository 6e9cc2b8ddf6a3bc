import Scriptlet.Digest.Sha256

/-!
# Cache keys

The artifact of a view is stored under a name that the path of its source alone
decides.
-/

namespace Scriptlet.Cache

def artifactExtension : Text := "ejs"

def key (sourcePath : Text) : Text :=
  Digest.hex (Digest.sha256 (String.ofList sourcePath).toUTF8.toList) ++ "." ++ artifactExtension

end Scriptlet.Cache
