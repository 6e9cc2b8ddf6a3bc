import Scriptlet.Text

/-!
# Times

A time is counted in nanoseconds from the epoch and may lie before it.
-/

namespace Scriptlet.Host

structure Time where
  nanoseconds : Int
deriving DecidableEq

namespace Time

/-- The time some seconds and nanoseconds after the epoch. -/
def ofSeconds (seconds nanoseconds : Int) : Time :=
  ⟨seconds * 1000000000 + nanoseconds⟩

def later (time : Time) (seconds nanoseconds : Int) : Time :=
  ⟨time.nanoseconds + seconds * 1000000000 + nanoseconds⟩

/-- Whole seconds since the epoch.  Times before it count as the epoch. -/
def wholeSeconds (time : Time) : Nat :=
  (time.nanoseconds / 1000000000).toNat

end Time

end Scriptlet.Host
