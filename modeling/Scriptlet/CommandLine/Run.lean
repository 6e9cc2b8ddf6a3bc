import Scriptlet.CommandLine.Arguments
import Scriptlet.Config.File
import Scriptlet.Engine
import Scriptlet.Json.Parser

/-!
# Running commands

A command line is run on a host and ends with a report: an exit status and what
is written to the two outputs.  A failure is reported with what was being done
when it happened, and with the failure behind it.
-/

namespace Scriptlet.CommandLine

structure Report where
  status : Nat
  output : Text
  errors : Text
deriving DecidableEq

/-- A failure of a command: what it says, and what is behind it. -/
structure Trouble where
  headline : Text
  causes : List Text := []
deriving DecidableEq

def chain (failure : Failure) : List Text :=
  failure.message :: (failure.cause?.map Host.FileError.message).toList

def Trouble.ofFailure (failure : Failure) : Trouble :=
  ⟨failure.message, (chain failure).tail⟩

def Trouble.during (activity : Text) (failure : Failure) : Trouble :=
  ⟨activity, chain failure⟩

/-- A text with an indentation after every line break. -/
def indentLines (indentation text : Text) : Text :=
  text.flatMap fun character => if character = '\n' then '\n' :: indentation else [character]

/-- The causes of a failure, indented, and numbered where there are several. -/
def renderCauses (causes : List Text) : Text :=
  match causes with
  | [cause] => "    " ++ indentLines "    " cause ++ "\n"
  | _ =>
      causes.zipIdx.flatMap fun cause =>
        "    " ++ Decimal.ofNat cause.2 ++ ": " ++ indentLines "       " cause.1 ++ "\n"

def Trouble.render (trouble : Trouble) : Text :=
  let behind : Text :=
    if trouble.causes = [] then [] else "\nCaused by:\n" ++ renderCauses trouble.causes
  "Error: " ++ trouble.headline ++ "\n" ++ behind

/-- The directory that takes the place of a missing cache directory where none is
used. -/
def temporaryDirectory : Text := "/tmp"

/-- A configuration with the options of a command line. -/
def Options.applyTo (options : Options) (config : Config) : Config :=
  { config with
    viewsDirectory := options.views?.getD config.viewsDirectory
    cacheDirectory := options.cache?.getD config.cacheDirectory
    suffix := options.suffix?.getD config.suffix
    ttl? :=
      match options.ttl? with
      | some (.seconds seconds) => some (max seconds 0)
      | some .exact => none
      | none => config.ttl?
    compress := options.compress || config.compress }

/-- The configuration that a command line asks for. -/
def configure (options : Options) (host : Host) : Except Trouble Config :=
  match options.config? with
  | none => .ok (options.applyTo {})
  | some path =>
      match Config.load host path with
      | .ok config => .ok (options.applyTo config)
      | .error failure =>
          .error (.during ("failed to load configuration from " ++ path) failure)

def readData (host : Host) (path : Text) : Except Trouble Json.Value :=
  match host.readText path with
  | .error error => .error ⟨"failed to read data file " ++ path, [error.message]⟩
  | .ok text =>
      match Json.Value.parse? text with
      | some value => .ok value
      | none => .error ⟨"failed to parse data file " ++ path, ["malformed document"]⟩

def renderDiagnostics (diagnostics : List Diagnostic) : Text :=
  diagnostics.flatMap fun diagnostic => diagnostic.render ++ "\n"

def succeed (code : Text) (diagnostics : List Diagnostic) : Report :=
  ⟨0, code ++ "\n", renderDiagnostics diagnostics⟩

def fail (trouble : Trouble) : Report :=
  ⟨1, [], trouble.render⟩

/-- Print the code of a view.  The store is not used, so any directory does. -/
def runCompile (bound : Nat) (config : Config) (name : Text) (host : Host) : Option Report :=
  let config :=
    if host.isDirectory config.cacheDirectory then config
    else { config with cacheDirectory := temporaryDirectory }
  match Engine.create config host with
  | .error failure => some (fail (.ofFailure failure))
  | .ok engine =>
      (engine.compileView bound host name).map fun compiled =>
        match compiled with
        | .ok (code, diagnostics) => succeed code diagnostics
        | .error failure =>
            fail (.during ("failed to compile view " ++ Text.inQuotes name) failure)

/-- Render a view with some data through the store. -/
def runRender (bound : Nat) (config : Config) (name : Text) (data : Json.Value) (host : Host) :
    Option (Report × Host) :=
  match Engine.create config host with
  | .error failure => some (fail (.ofFailure failure), host)
  | .ok engine =>
      (engine.render Executor.dryRun bound host name data).map fun outcome =>
        match outcome.result with
        | .ok code => (succeed code outcome.engine.diagnostics, outcome.host)
        | .error failure =>
            (fail (.during ("failed to render view " ++ Text.inQuotes name) failure),
              outcome.host)

def runClear (config : Config) (host : Host) : Report × Host :=
  match Engine.create config host with
  | .error failure => (fail (.ofFailure failure), host)
  | .ok engine =>
      match engine.cache.clear host with
      | .ok (_, cleared) => (⟨0, [], []⟩, cleared)
      | .error failure => (fail (.during "failed to clear the view cache" failure), host)

def runArguments (bound : Nat) (arguments : Arguments) (host : Host) : Option (Report × Host) :=
  match configure arguments.options host with
  | .error trouble => some (fail trouble, host)
  | .ok config =>
      match arguments.command with
      | .compile name => (runCompile bound config name host).map fun report => (report, host)
      | .clear => some (runClear config host)
      | .render name none => runRender bound config name (.object []) host
      | .render name (some path) =>
          match readData host path with
          | .ok data => runRender bound config name data host
          | .error trouble => some (fail trouble, host)

def versionLine : Text := "viewc 0.1.0\n"

def usage : Text :=
  "Usage: viewc [OPTIONS] <compile NAME | render NAME [--data FILE] | clear>\n"

/-- Run a command line, with compiles nested at most `bound` deep. -/
def run (bound : Nat) (arguments : List Text) (host : Host) : Option (Report × Host) :=
  match parse arguments with
  | .usageError => some (⟨2, [], usage⟩, host)
  | .version => some (⟨0, versionLine, []⟩, host)
  | .help => some (⟨0, usage, []⟩, host)
  | .run arguments => runArguments bound arguments host

end Scriptlet.CommandLine
