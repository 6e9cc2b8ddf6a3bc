import Scriptlet.Config.Document
import Scriptlet.Host.Files

/-!
# Configuration files
-/

namespace Scriptlet.Config

/-- Read a configuration from a file.  Its relative directories are taken from the
directory of the file. -/
def load (host : Host) (path : Text) : Except Failure Config :=
  match host.readText path with
  | .ok document => (parse document).map (relativeTo (Path.parent path))
  | .error error => .error (.file error)

end Scriptlet.Config
