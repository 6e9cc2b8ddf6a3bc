import Scriptlet.Host.Files
import Scriptlet.View.Loader
import Scriptlet.View.Path

/-!
# Views in files

A loader that reads views from the files of a directory of the host.
-/

namespace Scriptlet.View

def Loader.ofDirectory (host : Host) (viewsDirectory suffix : Text) : Loader where
  path name := resolvePath viewsDirectory name suffix
  load name :=
    let path := resolvePath viewsDirectory name suffix
    if host.isFile path then
      match host.readText path with
      | .ok source => .ok source
      | .error error => .error (.viewUnreadable name error)
    else .error (.viewNotFound name path)

end Scriptlet.View
