import Scriptlet.CommandLine.Run
import Std.Time.DateTime.Timestamp

/-!
# The command

The command takes what it needs of the machine into a host, runs its command line
there, and then brings the files of the machine in line with the host.  It sees
the configuration and data files, the requested view, and everything in the
directories of views and artifacts.  Modification times are read but not set, so
an artifact that is tied to the time of its source is compiled again each time.
-/

namespace Scriptlet.CommandLine

open Host (Location Entry Content Time)

def compileBound : Nat := 1000000

/-- The path of a location as the machine takes it. -/
def machinePath (location : Location) : String :=
  String.ofList (Host.pathOf location)

/-- The location that a path without links leads to. -/
def locationOf (path : String) : Location :=
  Path.parts path.toList

/-- Where a location of the machine really is, if anything is there. -/
def realLocation? (location : Location) : IO (Option Location) := do
  try
    return some (locationOf (← IO.FS.realPath (machinePath location)).toString)
  catch _ => return none

/-- The names in a directory of the machine, if there is one. -/
def namesAt? (location : Location) : IO (Option (List Text)) := do
  try
    let found ← (← IO.FS.realPath (machinePath location)).readDir
    return some (found.toList.map fun entry => entry.fileName.toList)
  catch _ => return none

/-- When something on the machine was modified, or a given time where the machine
does not say. -/
def modifiedAt (location : Location) (fallback : Time) : IO Time := do
  try
    let time := (← (← IO.FS.realPath (machinePath location)).metadata).modified
    return .ofSeconds time.sec time.nsec.toNat
  catch _ => return fallback

/-- The content of a file of the machine, if it can be read. -/
def contentAt? (location : Location) : IO (Option Content) := do
  try
    return some (.ofBytes (← IO.FS.readBinFile (machinePath location)).toList)
  catch _ => return none

/-- Put the directories above a location into a host. -/
def withAncestors (location : Location) (host : Host) : Host :=
  (List.range location.length).foldl (fun host length =>
    let above := location.take length
    if (host.lookup? above).isSome then host else host.put above (.directory host.now)) host

/-- Take what is at a location without links into a host. -/
def record (location : Location) (host : Host) : IO Host := do
  if (host.lookup? location).isSome then return host
  let host := withAncestors location host
  let modified ← modifiedAt location host.now
  if (← namesAt? location).isSome then return host.put location (.directory modified)
  match ← contentAt? location with
  | some content => return host.put location (.file content modified)
  | none => return host

/-- Take everything on the way of some steps from a location into a host, and say
where they end, if they do. -/
def visit : Location → List Text → Host → IO (Option Location × Host)
  | location, [], host => return (some location, host)
  | location, step :: rest, host => do
      if step = ['.'] then visit location rest host
      else if step = ['.', '.'] then visit location.dropLast rest host
      else
        let child := location ++ [step]
        match ← realLocation? child with
        | none => return (none, host)
        | some real =>
            let host ← record real host
            if real = child then visit real rest host
            else visit real rest (host.put child (.link (Host.pathOf real)))

/-- Take everything on the way of a path into a host. -/
def visitPath (path : Text) (host : Host) : IO (Option Location × Host) :=
  visit (if Path.isAbsolute path then [] else host.workingDirectory) (Host.steps path) host

def listingBound : Nat := 1000000

/-- Take everything below some locations into a host, given the locations that
have been listed and how many more may be looked at.  The host then lists a
directory in the order in which the machine does. -/
def gather : (bound : Nat) → (listed : List Location) → List Location → Host → IO Host
  | 0, _, _, host => return host
  | _, _, [], host => return host
  | bound + 1, listed, location :: others, host => do
      if location ∈ listed then gather bound listed others host
      else
        let mut host := host
        let mut below := []
        for name in ((← namesAt? location).getD []).reverse do
          let (found?, grown) ← visit location [name] host
          host := grown
          below := found?.toList ++ below
        gather bound (location :: listed) (below ++ others) host

def gatherPath (path : Text) (host : Host) : IO Host := do
  let (found?, host) ← visitPath path host
  gather listingBound [] found?.toList host

/-- The machine before anything of its files is known. -/
def bareHost : IO Host := do
  let now ← Std.Time.Timestamp.now
  let directory := locationOf (← IO.FS.realPath (← IO.currentDir)).toString
  let host : Host := {
    now := ⟨now.toNanosecondsSinceUnixEpoch.val⟩
    environment? := (← IO.getEnv "ENVIRONMENT").map String.toList
    workingDirectory := directory }
  return withAncestors (directory ++ [[]]) host

def hostFor (arguments : Arguments) : IO Host := do
  let mut host ← bareHost
  for path in arguments.options.config?.toList do
    host := (← visitPath path host).2
  match configure arguments.options host with
  | .error _ => return host
  | .ok config =>
      host := (← visitPath temporaryDirectory host).2
      host ← gatherPath config.viewsDirectory host
      host ← gatherPath config.cacheDirectory host
      let view (name : Text) : Text := View.resolvePath config.viewsDirectory name config.suffix
      match arguments.command with
      | .clear => return host
      | .compile name => return (← visitPath (view name) host).2
      | .render name data? =>
          host := (← visitPath (view name) host).2
          for path in data?.toList do
            host := (← visitPath path host).2
          return host

/-- Bring the files of the machine in line with a host, given what it was
before. -/
def apply (before after : Host) : IO Unit := do
  for (location, entry) in before.entries do
    match entry, after.lookup? location with
    | .directory _, _ => pure ()
    | _, some _ => pure ()
    | _, none => IO.FS.removeFile (machinePath location)
  for (location, entry) in after.entries do
    match entry with
    | .file (.text content) _ =>
        if before.lookup? location ≠ some entry then
          IO.FS.writeFile (machinePath location) (String.ofList content)
    | _ => pure ()

/-- Run a command line on the machine, and answer its exit status. -/
def execute (arguments : List Text) : IO UInt32 := do
  let before ←
    match parse arguments with
    | .run arguments => hostFor arguments
    | _ => bareHost
  match run compileBound arguments before with
  | some (report, after) =>
      apply before after
      IO.print (String.ofList report.output)
      IO.eprint (String.ofList report.errors)
      return UInt32.ofNat report.status
  | none =>
      IO.eprintln "Error: compiles are nested too deeply"
      return 1

end Scriptlet.CommandLine

def main (arguments : List String) : IO UInt32 :=
  Scriptlet.CommandLine.execute (arguments.map String.toList)
