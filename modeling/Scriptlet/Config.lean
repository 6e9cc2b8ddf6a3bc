import Scriptlet.Cache.Policy
import Scriptlet.Decimal.Integer
import Scriptlet.Failure
import Scriptlet.Table
import Scriptlet.View.Path

/-!
# Configurations

A configuration says where views and artifacts are and how views are compiled.
It is read from settings in the order in which they are given, so the first
setting that is wrong decides the failure.  Settings that nobody asked for are
ignored, and settings that are missing keep their default.
-/

namespace Scriptlet

structure Config where
  viewsDirectory : Text := "views"
  cacheDirectory : Text := "cache"
  suffix : Text := View.defaultSuffix
  /-- For how many seconds an artifact may be used.  None asks for exact
  modification times. -/
  ttl? : Option Int := some (Cache.defaultTtl : Int)
  compress : Bool := false
  depthLimit : Nat := 50
  /-- The environment that views see instead of the host's. -/
  environment? : Option Text := none
deriving DecidableEq

/-- The value of a setting, in whatever document it stands. -/
inductive Setting where
  | text (value : Text)
  | integer (value : Int)
  | boolean (value : Bool)
  | absent
  | other
deriving DecidableEq

namespace Config

/-- The word that asks for exact modification times. -/
def exactKeyword : Text := "mtime"

def policy (config : Config) : Cache.Policy :=
  .ofTtl config.ttl?

/-- Whether a word is the keyword in any case of its ASCII letters. -/
def isExactKeyword (word : Text) : Bool :=
  word.map Char.toLower = exactKeyword

def readTtl : Setting → Except Failure (Option Int)
  | .integer seconds =>
      if Decimal.fitsSigned64 seconds then .ok (some (max seconds 0))
      else .error .malformedConfiguration
  | .text word => if isExactKeyword word then .ok none else .error (.invalidTtl word)
  | _ => .error .malformedConfiguration

def readText : Setting → Except Failure Text
  | .text value => .ok value
  | _ => .error .malformedConfiguration

def readBoolean : Setting → Except Failure Bool
  | .boolean value => .ok value
  | _ => .error .malformedConfiguration

/-- The number that a setting gives, which fits an unsigned word of 64 bits. -/
def readNatural : Setting → Except Failure Nat
  | .integer value =>
      if Decimal.fitsUnsigned64 value then .ok value.toNat else .error .malformedConfiguration
  | _ => .error .malformedConfiguration

/-- The text that a setting gives, if it gives one. -/
def readOptionalText : Setting → Except Failure (Option Text)
  | .absent => .ok none
  | setting => (readText setting).map some

def withSetting (config : Config) (setting : Text × Setting) : Except Failure Config :=
  if setting.1 = "views_dir".toList then
    (readText setting.2).map fun value => { config with viewsDirectory := value }
  else if setting.1 = "cache_dir".toList then
    (readText setting.2).map fun value => { config with cacheDirectory := value }
  else if setting.1 = "suffix".toList then
    (readText setting.2).map fun value => { config with suffix := value }
  else if setting.1 = "ttl".toList then
    (readTtl setting.2).map fun value => { config with ttl? := value }
  else if setting.1 = "compress".toList then
    (readBoolean setting.2).map fun value => { config with compress := value }
  else if setting.1 = "max_depth".toList then
    (readNatural setting.2).map fun value => { config with depthLimit := value }
  else if setting.1 = "environment".toList then
    (readOptionalText setting.2).map fun value => { config with environment? := value }
  else .ok config

def ofSettings (settings : List (Text × Setting)) : Except Failure Config :=
  settings.foldlM withSetting {}

/-- A configuration whose relative directories are taken from a base. -/
def relativeTo (base : Text) (config : Config) : Config :=
  { config with
    viewsDirectory := Path.join base config.viewsDirectory
    cacheDirectory := Path.join base config.cacheDirectory }

end Config

end Scriptlet
