import Scriptlet.Config
import Scriptlet.Toml.Printer
import Scriptlet.Toml.Reader

/-!
# Configuration documents

A configuration is written as a document with one line for each setting, and read
back from such a document.  Writing then reading gives the configuration again,
except that a negative time to live has become zero.
-/

namespace Scriptlet.Config

def settingOf : Toml.Item → Setting
  | .string value => .text value
  | .integer value => .integer value
  | .boolean value => .boolean value
  | _ => .other

def parse (document : Text) : Except Failure Config :=
  match Toml.parse? document with
  | some entries => ofSettings (entries.map fun entry => (entry.1, settingOf entry.2))
  | none => .error .malformedConfiguration

def printTtl : Option Int → Text
  | some seconds => Decimal.ofInt seconds
  | none => Toml.printString exactKeyword

def print (config : Config) : Text :=
  Toml.printSetting "views_dir" (Toml.printString config.viewsDirectory)
    ++ Toml.printSetting "cache_dir" (Toml.printString config.cacheDirectory)
    ++ Toml.printSetting "suffix" (Toml.printString config.suffix)
    ++ Toml.printSetting "ttl" (printTtl config.ttl?)
    ++ Toml.printSetting "compress" (Toml.printBoolean config.compress)
    ++ Toml.printSetting "max_depth" (Decimal.ofNat config.depthLimit)
    ++ (match config.environment? with
        | some environment => Toml.printSetting "environment" (Toml.printString environment)
        | none => [])

/-- The document of a configuration, if there is one: a document holds no integer
beyond the signed words of 64 bits. -/
def print? (config : Config) : Option Text :=
  if Decimal.fitsSigned64 config.depthLimit then some config.print else none

end Scriptlet.Config
