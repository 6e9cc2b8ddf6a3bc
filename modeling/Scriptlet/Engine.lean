import Scriptlet.Cache.Store
import Scriptlet.Compiler
import Scriptlet.Config
import Scriptlet.Engine.Executor
import Scriptlet.View.Files

/-!
# Engines

An engine renders views by name.  It finds the source file, uses the stored
artifact where the policy accepts it, compiles and stores one otherwise, and
hands the artifact to an executor.  Problems with nested views and with the
store are recorded, and everything that can change is passed on explicitly: the
engine with its diagnostics, and the host with its files.
-/

namespace Scriptlet

structure Engine where
  config : Config
  cache : Cache
  registry : Registry := {}
  diagnostics : List Diagnostic := []

namespace Engine

/-- What an operation of an engine answers, with the engine and the host after
it. -/
structure Outcome (α : Type) where
  result : Except Failure α
  engine : Engine
  host : Host

/-- An engine whose artifacts are in an existing directory. -/
def create (config : Config) (host : Host) : Except Failure Engine :=
  (Cache.inDirectory host config.cacheDirectory).map fun cache => { config, cache }

def register (written : Text) (handler : Option Text → Text) (engine : Engine) :
    Except Failure Engine :=
  (engine.registry.register written handler).map fun registry => { engine with registry }

def setSuffix (suffix : Text) (engine : Engine) : Engine :=
  { engine with config := { engine.config with suffix } }

/-- Change the time to live.  None asks for exact modification times. -/
def setTtl (ttl? : Option Int) (engine : Engine) : Engine :=
  { engine with config := { engine.config with ttl? := ttl?.map (max · 0) } }

def setCompress (compress : Bool) (engine : Engine) : Engine :=
  { engine with config := { engine.config with compress } }

def record (diagnostics : List Diagnostic) (engine : Engine) : Engine :=
  { engine with diagnostics := engine.diagnostics ++ diagnostics }

/-- The diagnostics so far, and the engine without them. -/
def takeDiagnostics (engine : Engine) : List Diagnostic × Engine :=
  (engine.diagnostics, { engine with diagnostics := [] })

def loader (engine : Engine) (host : Host) : View.Loader :=
  .ofDirectory host engine.config.viewsDirectory engine.config.suffix

def compiler (engine : Engine) (host : Host) : Compiler where
  registry := engine.registry
  loader := engine.loader host
  depthLimit := engine.config.depthLimit

/-- Compiled code with its white space collapsed, where that is asked for. -/
def finish (engine : Engine) (code : Text) : Text :=
  if engine.config.compress then Text.collapseBlanks code else code

/-- Compile a source in a context of its own, with compiles nested at most
`bound` deep. -/
def compileSource (engine : Engine) (bound : Nat) (host : Host) (source : Text) :
    Option (Text × List Diagnostic) :=
  (((engine.compiler host).compile bound source).run {}).map fun compiled =>
    (engine.finish compiled.1, compiled.2.diagnostics)

/-- Compile a view without the store: its code, and the diagnostics of this
compile. -/
def compileView (engine : Engine) (bound : Nat) (host : Host) (name : Text) :
    Option (Except Failure (Text × List Diagnostic)) :=
  match (engine.loader host).load name with
  | .ok source => (engine.compileSource bound host source).map .ok
  | .error failure => some (.error failure)

/-- The source file of a view: the key of its artifact, and when it was
modified. -/
structure Source where
  key : Text
  modified : Host.Time
deriving DecidableEq

def source (engine : Engine) (host : Host) (name : Text) : Except Failure Source :=
  let path := (engine.loader host).path name
  if host.isFile path then
    let absolute := host.absolute path
    match host.modified absolute with
    | .ok modified => .ok ⟨Cache.key absolute, modified⟩
    | .error error => .error (.file error)
  else .error (.viewNotFound name path)

/-- Tie an artifact to the modification time of its source, where the policy asks
for exact times.  An artifact that cannot be stamped is left as it is. -/
def stampArtifact (engine : Engine) (host : Host) (source : Source) : Host :=
  match engine.config.policy with
  | .exactModification =>
      match engine.cache.stamp host source.key source.modified with
      | .ok stamped => stamped
      | .error _ => host
  | .timeToLive _ => host

/-- Store compiled code.  A store that cannot be written is recorded. -/
def storeArtifact (engine : Engine) (host : Host) (name code : Text) (source : Source) :
    Outcome Artifact :=
  match engine.cache.write host source.key code with
  | .ok (true, written) =>
      ⟨.ok ⟨source.key, code⟩, engine, engine.stampArtifact written source⟩
  | .ok (false, unwritten) =>
      match engine.cache.artifactPath source.key with
      | .ok path =>
          ⟨.ok ⟨source.key, code⟩, engine.record [.cacheWriteFailed name path], unwritten⟩
      | .error failure => ⟨.error failure, engine, unwritten⟩
  | .error failure => ⟨.error failure, engine, host⟩

def compileAndStore (engine : Engine) (bound : Nat) (host : Host) (name : Text)
    (source : Source) : Option (Outcome Artifact) :=
  match (engine.loader host).load name with
  | .error failure => some ⟨.error failure, engine, host⟩
  | .ok text =>
      (engine.compileSource bound host text).map fun compiled =>
        (engine.record compiled.2).storeArtifact host name compiled.1 source

/-- The artifact of a view: the stored one where the policy accepts it and it can
be read, and otherwise a new one.  A refused artifact is removed. -/
def obtain (engine : Engine) (bound : Nat) (host : Host) (name : Text) (source : Source) :
    Option (Outcome Artifact) :=
  match engine.cache.lookup engine.config.policy host source.key source.modified with
  | .ok (.fresh code) => some ⟨.ok ⟨source.key, code⟩, engine, host⟩
  | .ok .absent => engine.compileAndStore bound host name source
  | .ok .expired =>
      match engine.cache.delete host source.key with
      | .ok (_, cleared) => engine.compileAndStore bound cleared name source
      | .error failure => some ⟨.error failure, engine, host⟩
  | .ok (.unreadable failure) =>
      (engine.record [.cacheReadFailed name failure]).compileAndStore bound host name source
  | .error failure => some ⟨.error failure, engine, host⟩

/-- What the executor is given to render a view with some data. -/
def deliver (engine : Engine) (bound : Nat) (host : Host) (name : Text) (data : Json.Value) :
    Option (Outcome Delivery) :=
  match engine.source host name with
  | .error failure => some ⟨.error failure, engine, host⟩
  | .ok source =>
      (engine.obtain bound host name source).map fun obtained =>
        let environment? := engine.config.environment?.or host.environment?
        ⟨obtained.result.map fun artifact => ⟨artifact, { data, environment? }⟩,
          obtained.engine, obtained.host⟩

def render (engine : Engine) (executor : Executor) (bound : Nat) (host : Host) (name : Text)
    (data : Json.Value) : Option (Outcome Text) :=
  (engine.deliver bound host name data).map fun delivered =>
    ⟨delivered.result.bind executor, delivered.engine, delivered.host⟩

end Engine

end Scriptlet
