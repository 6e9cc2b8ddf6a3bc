import Scriptlet.Host.Time

/-!
# Cache policies

A policy decides whether a stored artifact may be used again.  Times are compared
in whole seconds.
-/

namespace Scriptlet.Cache

/-- The time to live of an artifact where none is set: one day. -/
def defaultTtl : Nat := 86400

/-- The greatest number of seconds that fits an unsigned word of 64 bits. -/
def greatestSeconds : Nat := 18446744073709551615

inductive Policy where
  /-- While the source was modified in the second in which the artifact was
  written. -/
  | exactModification
  /-- For some seconds after it was written, whatever becomes of the source. -/
  | timeToLive (seconds : Nat)
deriving DecidableEq

namespace Policy

/-- The policy for a setting in seconds.  A negative setting counts as zero, and
no setting asks for exact modification times. -/
def ofTtl : Option Int → Policy
  | none => .exactModification
  | some seconds => .timeToLive seconds.toNat

def standard : Policy := .timeToLive defaultTtl

/-- The sum of two numbers of seconds, or the greatest one where it is beyond
that. -/
def addSeconds (left right : Nat) : Nat :=
  min (left + right) greatestSeconds

/-- Whether an artifact may be used now, given when it was written and when its
source was modified. -/
def accepts (policy : Policy) (written modified now : Host.Time) : Bool :=
  match policy with
  | .exactModification => modified.wholeSeconds == written.wholeSeconds
  | .timeToLive seconds => now.wholeSeconds < addSeconds written.wholeSeconds seconds

end Policy

end Scriptlet.Cache
