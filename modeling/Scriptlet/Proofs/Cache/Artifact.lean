import Scriptlet.Proofs.Cache.Key
import Scriptlet.Proofs.Host.Change

/-!
# One artifact

What the operations of a store do under a key is decided by what is at one location of the
host: nothing, or a file of text.
-/

namespace Scriptlet.Cache

open Host

/-- Where a store has the artifact of a key. -/
structure Located (cache : Cache) (host : Host) (key path : Text) (location : Location) :
    Prop where
  path_eq : cache.artifactPath key = .ok path
  ends : host.EndsAt path location

namespace Located

variable {cache : Cache} {host : Host} {key path code : Text} {location : Location}
  {written : Time} (located : cache.Located host key path location)

include located

theorem has_of_some (stored : host.lookup? location = some (.file (.text code) written)) :
    cache.has host key = .ok true := by
  rw [has, located.path_eq]
  exact congrArg Except.ok (located.ends.isFile_of_file stored)

theorem has_of_none (missing : host.lookup? location = none) :
    cache.has host key = .ok false := by
  rw [has, located.path_eq]
  exact congrArg Except.ok (located.ends.isFile_of_none missing)

theorem lastWriteTime_of_some
    (stored : host.lookup? location = some (.file (.text code) written)) :
    cache.lastWriteTime host key = .ok (some written) := by
  rw [lastWriteTime, located.path_eq]
  simp only [bind, Except.bind, located.ends.modified_of_file stored]
  rfl

theorem lastWriteTime_of_none (missing : host.lookup? location = none) :
    cache.lastWriteTime host key = .ok none := by
  rw [lastWriteTime, located.path_eq]
  simp only [bind, Except.bind, located.ends.modified_of_none missing]
  rfl

theorem read_of_some (stored : host.lookup? location = some (.file (.text code) written)) :
    cache.read host key = .ok code := by
  rw [read, located.path_eq]
  simp only [bind, Except.bind, located.ends.readText_of_text stored]
  rfl

theorem read_of_none (missing : host.lookup? location = none) :
    cache.read host key = .error (.file .notFound) := by
  rw [read, located.path_eq]
  simp only [bind, Except.bind, located.ends.readText_of_none missing]
  rfl

theorem write_eq (code : Text) :
    cache.write host key code = .ok (true, host.put location (.file (.text code) host.now)) := by
  rw [write, located.path_eq]
  simp only [bind, Except.bind, located.ends.writeText_eq code]
  rfl

theorem stamp_of_some (stored : host.lookup? location = some (.file (.text code) written))
    (time : Time) :
    cache.stamp host key time = .ok (host.put location (.file (.text code) time)) := by
  rw [stamp, located.path_eq]
  simp only [bind, Except.bind, located.ends.stampFile_eq stored time]
  rfl

theorem stamp_of_none (missing : host.lookup? location = none) (time : Time) :
    cache.stamp host key time = .error (.file .notFound) := by
  rw [stamp, located.path_eq]
  simp only [bind, Except.bind, located.ends.stampFile_of_none missing time]
  rfl

theorem delete_of_some (stored : host.lookup? location = some (.file (.text code) written)) :
    cache.delete host key = .ok (true, host.drop location) := by
  rw [delete, located.path_eq]
  simp only [bind, Except.bind, located.ends.removeFile_of_file stored]
  rfl

theorem delete_of_none (missing : host.lookup? location = none) :
    cache.delete host key = .ok (false, host) := by
  rw [delete, located.path_eq]
  simp only [bind, Except.bind, located.ends.removeFile_of_none missing]
  rfl

end Located

end Scriptlet.Cache
