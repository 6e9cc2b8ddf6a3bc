import Scriptlet.Config
import Scriptlet.Decimal.Integer

/-!
# Command line arguments

The command line is a row of options, a command, and the options and the names
that follow it.  The options that all commands share may stand on either side of
the command, once on each side, and the later one counts.  Two dashes end the
options.
-/

namespace Scriptlet.CommandLine

inductive TtlOption where
  | seconds (value : Int)
  | exact
deriving DecidableEq

structure Options where
  config? : Option Text := none
  views? : Option Text := none
  cache? : Option Text := none
  suffix? : Option Text := none
  ttl? : Option TtlOption := none
  compress : Bool := false
  data? : Option Text := none
deriving DecidableEq

inductive Command where
  | compile (name : Text)
  | render (name : Text) (data? : Option Text)
  | clear
deriving DecidableEq

structure Arguments where
  options : Options
  command : Command
deriving DecidableEq

inductive Parsed where
  | run (arguments : Arguments)
  | version
  | help
  | usageError
deriving DecidableEq

inductive Word where
  | compile
  | render
  | clear
deriving DecidableEq

def Word.of? (argument : Text) : Option Word :=
  if argument = "compile".toList then some .compile
  else if argument = "render".toList then some .render
  else if argument = "clear".toList then some .clear
  else none

def Word.nameCount : Word → Nat
  | .compile => 1
  | .render => 1
  | .clear => 0

inductive Shape where
  | endOfOptions
  /-- Two dashes and a name, with a value after an equals sign where there is
  one. -/
  | long (name : Text) (value? : Option Text)
  /-- One dash and letters, of which the first one is given. -/
  | short (letter : Char)
  | plain
deriving DecidableEq

def Shape.of : Text → Shape
  | '-' :: '-' :: [] => .endOfOptions
  | '-' :: '-' :: name =>
      match Text.cutAt? '=' name with
      | some (name, value) => .long name (some value)
      | none => .long name none
  | '-' :: letter :: _ => .short letter
  | _ => .plain

def TtlOption.of? (value : Text) : Option TtlOption :=
  if Config.isExactKeyword value then some .exact
  else (Decimal.readSigned64? value).map .seconds

/-- Set an option with a value.  Each one is set once, and a path is not empty. -/
def Options.set? (onRender : Bool) (name value : Text) (options : Options) : Option Options :=
  if name = "config".toList then
    if options.config?.isSome || value.isEmpty then none
    else some { options with config? := some value }
  else if name = "views".toList then
    if options.views?.isSome || value.isEmpty then none
    else some { options with views? := some value }
  else if name = "cache".toList then
    if options.cache?.isSome || value.isEmpty then none
    else some { options with cache? := some value }
  else if name = "suffix".toList then
    if options.suffix?.isSome then none else some { options with suffix? := some value }
  else if name = "ttl".toList then
    if options.ttl?.isSome then none
    else (TtlOption.of? value).map fun ttl => { options with ttl? := some ttl }
  else if name = "data".toList then
    if !onRender || options.data?.isSome || value.isEmpty then none
    else some { options with data? := some value }
  else none

/-- Whether an argument can be the value of the option before it.  Only the time
to live may begin with a dash. -/
def isValueOf (name argument : Text) : Bool :=
  name = "ttl".toList || Shape.of argument = .plain

def compressName : Text := "compress"

/-- Read the arguments after a command, given what is read of them: the options,
the names, and whether the options have ended.  A name too many is refused where
it stands. -/
def readAfter (word : Word) : Options → (names : List Text) → (ended : Bool) → List Text →
    Except Parsed (Options × List Text)
  | options, names, _, [] => .ok (options, names)
  | options, names, true, argument :: rest =>
      if names.length < word.nameCount then
        readAfter word options (names ++ [argument]) true rest
      else .error .usageError
  | options, names, false, argument :: rest =>
      match Shape.of argument with
      | .endOfOptions => readAfter word options names true rest
      | .plain =>
          if names.length < word.nameCount then
            readAfter word options (names ++ [argument]) false rest
          else .error .usageError
      | .short letter => if letter = 'h' then .error .help else .error .usageError
      | .long name (some value) =>
          match options.set? (word = .render) name value with
          | some options => readAfter word options names false rest
          | none => .error .usageError
      | .long name none =>
          if name = compressName then
            if options.compress then .error .usageError
            else readAfter word { options with compress := true } names false rest
          else if name = "help".toList then .error .help
          else
            match rest with
            | value :: rest =>
                if isValueOf name value then
                  match options.set? (word = .render) name value with
                  | some options => readAfter word options names false rest
                  | none => .error .usageError
                else .error .usageError
            | [] => .error .usageError

/-- Options after the command count before those in front of it. -/
def Options.over (later earlier : Options) : Options where
  config? := later.config?.or earlier.config?
  views? := later.views?.or earlier.views?
  cache? := later.cache?.or earlier.cache?
  suffix? := later.suffix?.or earlier.suffix?
  ttl? := later.ttl?.or earlier.ttl?
  compress := later.compress || earlier.compress
  data? := later.data?

def Command.of? (data? : Option Text) : Word → List Text → Option Command
  | .compile, [name] => some (.compile name)
  | .render, [name] => some (.render name data?)
  | .clear, [] => some .clear
  | _, _ => none

def readCommand (word : Word) (earlier : Options) (rest : List Text) : Parsed :=
  match readAfter word {} [] false rest with
  | .error parsed => parsed
  | .ok (later, names) =>
      match Command.of? later.data? word names with
      | some command => .run ⟨later.over earlier, command⟩
      | none => .usageError

def helpWord : Text := "help"

/-- Read the words after a request for help: at most one command. -/
def readHelp : List Text → Parsed
  | [] => .help
  | [argument] =>
      if argument = helpWord ∨ (Word.of? argument).isSome then .help else .usageError
  | _ => .usageError

/-- Read a command line, given the options read so far. -/
def readBefore : Options → List Text → Parsed
  | _, [] => .usageError
  | options, argument :: rest =>
      match Shape.of argument with
      | .endOfOptions => .usageError
      | .plain =>
          match Word.of? argument with
          | some word => readCommand word options rest
          | none => if argument = helpWord then readHelp rest else .usageError
      | .short letter =>
          if letter = 'V' then .version else if letter = 'h' then .help else .usageError
      | .long name (some value) =>
          match options.set? false name value with
          | some options => readBefore options rest
          | none => .usageError
      | .long name none =>
          if name = compressName then
            if options.compress then .usageError
            else readBefore { options with compress := true } rest
          else if name = "version".toList then .version
          else if name = "help".toList then .help
          else
            match rest with
            | value :: rest =>
                if isValueOf name value then
                  match options.set? false name value with
                  | some options => readBefore options rest
                  | none => .usageError
                else .usageError
            | [] => .usageError

def parse (arguments : List Text) : Parsed :=
  readBefore {} arguments

end Scriptlet.CommandLine
