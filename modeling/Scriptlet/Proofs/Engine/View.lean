import Scriptlet.Engine
import Scriptlet.Proofs.Compilation.Bound
import Scriptlet.Proofs.Host.Change

/-!
# The views of an engine

A name stands for a view where its path leads to a file.  What the engine loads, what it
compiles and under which path it stores the artifact depend on that file and on the
settings of the engine only.
-/

namespace Scriptlet.Engine

open Host

/-- The path that a view name stands for. -/
def viewPath (engine : Engine) (name : Text) : Text :=
  View.resolvePath engine.config.viewsDirectory name engine.config.suffix

/-- A name stands for a view in a file. -/
def IsView (engine : Engine) (host : Host) (name : Text) (location : Location)
    (content : Content) (modified : Time) : Prop :=
  host.find (engine.viewPath name) = .ok (location, .file content modified)

/-- A name stands for a view. -/
def HasView (engine : Engine) (host : Host) (name : Text) : Prop :=
  ∃ location content modified, engine.IsView host name location content modified

/-- The absolute path of a view, which decides the key of its artifact. -/
def sourcePath (engine : Engine) (host : Host) (name : Text) : Text :=
  host.absolute (engine.viewPath name)

/-- The absolute path of a view is short enough to be walked. -/
def WithinReach (engine : Engine) (host : Host) (name : Text) : Prop :=
  byteLength (engine.sourcePath host name) ≤ longestPath

/-- Some compile of a view without the store answers this. -/
def CompilesView (engine : Engine) (host : Host) (name : Text)
    (answer : Except Failure (Text × List Diagnostic)) : Prop :=
  ∃ bound, engine.compileView bound host name = some answer

/-- Two engines that differ in their diagnostics and in their time to live only. -/
structure SameSettings (first second : Engine) : Prop where
  viewsDirectory_eq : second.config.viewsDirectory = first.config.viewsDirectory
  suffix_eq : second.config.suffix = first.config.suffix
  compress_eq : second.config.compress = first.config.compress
  depthLimit_eq : second.config.depthLimit = first.config.depthLimit
  cache_eq : second.cache = first.cache
  registry_eq : second.registry = first.registry

variable {engine first second : Engine} {host before after : Host} {name source : Text}
  {location other : Location} {content : Content} {modified written : Time} {bound : Nat}
  {data : Json.Value}

namespace SameSettings

theorem refl (engine : Engine) : engine.SameSettings engine :=
  ⟨rfl, rfl, rfl, rfl, rfl, rfl⟩

theorem trans {third : Engine} (left : first.SameSettings second)
    (right : second.SameSettings third) : first.SameSettings third where
  viewsDirectory_eq := right.viewsDirectory_eq.trans left.viewsDirectory_eq
  suffix_eq := right.suffix_eq.trans left.suffix_eq
  compress_eq := right.compress_eq.trans left.compress_eq
  depthLimit_eq := right.depthLimit_eq.trans left.depthLimit_eq
  cache_eq := right.cache_eq.trans left.cache_eq
  registry_eq := right.registry_eq.trans left.registry_eq

theorem record (engine : Engine) (diagnostics : List Diagnostic) :
    engine.SameSettings (engine.record diagnostics) :=
  ⟨rfl, rfl, rfl, rfl, rfl, rfl⟩

theorem setTtl (engine : Engine) (ttl? : Option Int) :
    engine.SameSettings (engine.setTtl ttl?) :=
  ⟨rfl, rfl, rfl, rfl, rfl, rfl⟩

theorem viewPath_eq (same : first.SameSettings second) (name : Text) :
    second.viewPath name = first.viewPath name := by
  rw [viewPath, viewPath, same.viewsDirectory_eq, same.suffix_eq]

theorem sourcePath_eq (same : first.SameSettings second) (host : Host) (name : Text) :
    second.sourcePath host name = first.sourcePath host name := by
  rw [sourcePath, sourcePath, same.viewPath_eq]

theorem isView_iff (same : first.SameSettings second) :
    second.IsView host name location content modified ↔
      first.IsView host name location content modified := by
  rw [IsView, IsView, same.viewPath_eq]

theorem hasView_iff (same : first.SameSettings second) :
    second.HasView host name ↔ first.HasView host name :=
  exists_congr fun _ => exists_congr fun _ => exists_congr fun _ => same.isView_iff

theorem loader_eq (same : first.SameSettings second) (host : Host) :
    second.loader host = first.loader host := by
  rw [loader, loader, same.viewsDirectory_eq, same.suffix_eq]

theorem compileSource_eq (same : first.SameSettings second)
    (loaders : second.loader after = first.loader before) (bound : Nat) (source : Text) :
    second.compileSource bound after source = first.compileSource bound before source := by
  have compilers : second.compiler after = first.compiler before := by
    rw [compiler, compiler, same.registry_eq, same.depthLimit_eq, loaders]
  have finishes : second.finish = first.finish := by
    funext code
    rw [finish, finish, same.compress_eq]
  rw [compileSource, compileSource, compilers, finishes]

end SameSettings

theorem isView_unique (view : engine.IsView host name location content modified)
    {otherContent : Content} {otherModified : Time}
    (again : engine.IsView host name other otherContent otherModified) :
    other = location ∧ otherContent = content ∧ otherModified = modified := by
  rw [IsView] at view again
  rw [view] at again
  cases again
  exact ⟨rfl, rfl, rfl⟩

theorem IsView.lookup?_eq (view : engine.IsView host name location content modified) :
    host.lookup? location = some (.file content modified) :=
  lookup?_of_find view

/-! ## Loading -/

private theorem isFile_of_isView (view : engine.IsView host name location content modified) :
    host.isFile (engine.viewPath name) = true := by
  rw [isFile, view]

private theorem isFile_eq_false
    (missing : ¬engine.HasView host name) :
    host.isFile (engine.viewPath name) = false := by
  rw [isFile]
  split
  · rename_i location content modified found
    exact absurd ⟨location, content, modified, found⟩ missing
  · rfl

theorem load_of_text (view : engine.IsView host name location (.text source) modified) :
    (engine.loader host).load name = .ok source := by
  have readable : host.readText (engine.viewPath name) = .ok source := by
    rw [readText, view]
    rfl
  have isFile := isFile_of_isView view
  rw [viewPath] at readable isFile
  simp only [loader, View.Loader.ofDirectory, isFile, if_true, readable]

theorem load_of_undecodable (view : engine.IsView host name location .undecodable modified) :
    (engine.loader host).load name = .error (.viewUnreadable name .notText) := by
  have unreadable : host.readText (engine.viewPath name) = .error .notText := by
    rw [readText, view]
    rfl
  have isFile := isFile_of_isView view
  rw [viewPath] at unreadable isFile
  simp only [loader, View.Loader.ofDirectory, isFile, if_true, unreadable]

theorem load_of_missing
    (missing : ¬engine.HasView host name) :
    (engine.loader host).load name = .error (.viewNotFound name (engine.viewPath name)) := by
  have absent := isFile_eq_false missing
  rw [viewPath] at absent
  simp only [loader, View.Loader.ofDirectory, absent, Bool.false_eq_true, if_false, viewPath]

/-- What a name loads is decided by the content of the file that it stands for. -/
theorem load_congr
    (same : ∀ content, (∃ location modified, engine.IsView after name location content modified) ↔
      ∃ location modified, engine.IsView before name location content modified) :
    (engine.loader after).load name = (engine.loader before).load name := by
  by_cases view : ∃ content location modified, engine.IsView before name location content modified
  · obtain ⟨content, location, modified, view⟩ := view
    obtain ⟨newLocation, newModified, newView⟩ := (same content).mpr ⟨location, modified, view⟩
    cases content with
    | text source => rw [load_of_text view, load_of_text newView]
    | undecodable => rw [load_of_undecodable view, load_of_undecodable newView]
  · have missing : ¬engine.HasView before name :=
      fun ⟨location, content, modified, here⟩ => view ⟨content, location, modified, here⟩
    have stillMissing : ¬engine.HasView after name :=
      fun ⟨location, content, modified, here⟩ => view ⟨content, (same content).mp ⟨_, _, here⟩⟩
    rw [load_of_missing missing, load_of_missing stillMissing]

theorem loader_congr
    (same : ∀ name content,
      (∃ location modified, engine.IsView after name location content modified) ↔
        ∃ location modified, engine.IsView before name location content modified) :
    engine.loader after = engine.loader before := by
  have loads : (engine.loader after).load = (engine.loader before).load :=
    funext fun name => load_congr (same name)
  have paths : (engine.loader after).path = (engine.loader before).path := rfl
  cases loaded : engine.loader after
  cases earlier : engine.loader before
  rw [loaded, earlier] at loads paths
  simp only at loads paths
  rw [loads, paths]

/-! ## Compiling -/

theorem compileView_of_text (view : engine.IsView host name location (.text source) modified)
    (bound : Nat) : engine.compileView bound host name =
      (engine.compileSource bound host source).map .ok := by
  rw [compileView, load_of_text view]

theorem compileView_of_error {failure : Failure}
    (failed : (engine.loader host).load name = .error failure) (bound : Nat) :
    engine.compileView bound host name = some (.error failure) := by
  rw [compileView, failed]

theorem compilesView_of_compileSource
    (view : engine.IsView host name location (.text source) modified)
    {compiled : Text × List Diagnostic}
    (ran : engine.compileSource bound host source = some compiled) :
    engine.CompilesView host name (.ok compiled) := by
  refine ⟨bound, ?_⟩
  rw [compileView_of_text view, ran]
  rfl

/-- Two compiles of a source that both answer answer the same. -/
theorem compileSource_unique {left right : Nat} {leftAnswer rightAnswer : Text × List Diagnostic}
    (leftRan : engine.compileSource left host source = some leftAnswer)
    (rightRan : engine.compileSource right host source = some rightAnswer) :
    leftAnswer = rightAnswer := by
  obtain ⟨leftCompiled, leftCompile, rfl⟩ := Option.map_eq_some_iff.mp leftRan
  obtain ⟨rightCompiled, rightCompile, rfl⟩ := Option.map_eq_some_iff.mp rightRan
  rw [Compiler.compile_unique leftCompile rightCompile]

theorem compilesView_unique {left right : Except Failure (Text × List Diagnostic)}
    (leftCompiles : engine.CompilesView host name left)
    (rightCompiles : engine.CompilesView host name right) : left = right := by
  obtain ⟨leftBound, leftRan⟩ := leftCompiles
  obtain ⟨rightBound, rightRan⟩ := rightCompiles
  rw [compileView] at leftRan rightRan
  cases loaded : (engine.loader host).load name with
  | error failure =>
      rw [loaded] at leftRan rightRan
      exact Option.some.inj (leftRan.symm.trans rightRan)
  | ok source =>
      rw [loaded] at leftRan rightRan
      obtain ⟨leftAnswer, leftCompiled, rfl⟩ := Option.map_eq_some_iff.mp leftRan
      obtain ⟨rightAnswer, rightCompiled, rfl⟩ := Option.map_eq_some_iff.mp rightRan
      rw [compileSource_unique leftCompiled rightCompiled]

/-! ## The path of an artifact -/

theorem source_of_hasView (hasView : engine.HasView host name) :
    engine.source host name =
      match host.modified (engine.sourcePath host name) with
      | .ok modified => .ok ⟨Cache.key (engine.sourcePath host name), modified⟩
      | .error error => .error (.file error) := by
  obtain ⟨location, content, modified, view⟩ := hasView
  have path : (engine.loader host).path name = engine.viewPath name := rfl
  rw [source]
  simp only [path, isFile_of_isView view, if_true]
  rfl

/-- Within reach, the absolute path of a view leads to its file. -/
theorem find_sourcePath (tree : host.IsTree)
    (view : engine.IsView host name location content modified)
    (within : engine.WithinReach host name) :
    host.find (engine.sourcePath host name) = .ok (location, .file content modified) :=
  (tree.find_absolute view).trans (if_neg (Nat.not_lt_of_le within))

/-- The host tells when a view within reach was modified. -/
theorem source_of_withinReach (tree : host.IsTree)
    (view : engine.IsView host name location content modified)
    (within : engine.WithinReach host name) :
    engine.source host name = .ok ⟨Cache.key (engine.sourcePath host name), modified⟩ := by
  rw [source_of_hasView ⟨_, _, _, view⟩, Host.modified, find_sourcePath tree view within]
  rfl

/-- The absolute path of a view out of reach is refused, though the view is there. -/
theorem source_of_not_withinReach (tree : host.IsTree)
    (view : engine.IsView host name location content modified)
    (outside : ¬engine.WithinReach host name) :
    engine.source host name = .error (.file .nameTooLong) := by
  have refused : host.find (engine.sourcePath host name) = .error .nameTooLong :=
    (tree.find_absolute view).trans (if_pos (Nat.lt_of_not_le outside))
  rw [source_of_hasView ⟨_, _, _, view⟩, Host.modified, refused]
  rfl

theorem source_of_missing
    (missing : ¬engine.HasView host name) :
    engine.source host name = .error (.viewNotFound name (engine.viewPath name)) := by
  have absent := isFile_eq_false missing
  rw [viewPath] at absent
  simp only [source, loader, View.Loader.ofDirectory, absent, Bool.false_eq_true, if_false,
    viewPath]

/-- Views with the same absolute path, where it can be walked, are one file. -/
theorem isView_of_sourcePath_eq (tree : host.IsTree)
    (view : engine.IsView host name location content modified) {otherName : Text}
    {otherContent : Content} {otherModified : Time}
    (otherView : engine.IsView host otherName other otherContent otherModified)
    (within : engine.WithinReach host name)
    (equal : engine.sourcePath host otherName = engine.sourcePath host name) :
    other = location ∧ otherContent = content ∧ otherModified = modified := by
  have otherWithin : engine.WithinReach host otherName := by
    rwa [WithinReach, equal]
  have otherLeads := find_sourcePath tree otherView otherWithin
  rw [equal, find_sourcePath tree view within] at otherLeads
  cases otherLeads
  exact ⟨rfl, rfl, rfl⟩

/-! ## Dry renders -/

theorem render_of_source {source : Source} {obtained : Outcome Artifact}
    (isSource : engine.source host name = .ok source)
    (ran : engine.obtain bound host name source = some obtained) :
    engine.render .dryRun bound host name data =
      some ⟨obtained.result.map Artifact.code, obtained.engine, obtained.host⟩ := by
  rw [render, deliver, isSource]
  simp only [ran, Option.map_some]
  cases obtained.result <;> rfl

theorem render_of_failure {failure : Failure}
    (failed : engine.source host name = .error failure) :
    engine.render .dryRun bound host name data = some ⟨.error failure, engine, host⟩ := by
  rw [render, deliver, failed]
  rfl

end Scriptlet.Engine
