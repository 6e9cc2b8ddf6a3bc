import Mathlib.Data.List.Forall2
import Scriptlet.Proofs.Engine.Transparency
import Scriptlet.Proofs.Engine.Trouble

/-!
# Diagnostics are accounted for

Each render adds to the diagnostics of its engine what it has come across itself: an accepted
artifact that could not be read, what the compile records, and an artifact that could not be
written, in this order.  Over a whole run, what was taken and what the engine still holds are
these contributions one after another, so nothing is lost, repeated or put out of order.
-/

namespace Scriptlet.Engine

open Host

/-- A render can judge the artifact of a view: there is the view, and the host tells when it
was modified and, unless the artifact is missing, when that was written. -/
structure Judges (engine : Engine) (host : Host) (directory name : Text) : Prop where
  hasView : engine.HasView host name
  view_told : ∃ modified, host.modified (engine.sourcePath host name) = .ok modified
  artifact_told : ∀ error, host.modified (engine.artifactPath host directory name) =
    .error error → error = .notFound

/-- There is an artifact of a view, and the policy decides on it. -/
def Decides (engine : Engine) (host : Host) (directory name : Text) (accepted : Bool) : Prop :=
  ∃ written modified,
    host.modified (engine.artifactPath host directory name) = .ok written ∧
    host.modified (engine.sourcePath host name) = .ok modified ∧
    engine.config.policy.accepts written modified host.now = accepted

/-- The artifact of a view is accepted and can be read. -/
def Reuses (engine : Engine) (host : Host) (directory name : Text) : Prop :=
  engine.Decides host directory name true ∧
    ∃ code, host.readText (engine.artifactPath host directory name) = .ok code

/-- How a render comes to compile a view: on which host, and with what recorded before. -/
inductive Renews (engine : Engine) (host : Host) (directory name : Text) :
    Host → List Diagnostic → Prop
  | missing : host.modified (engine.artifactPath host directory name) = .error .notFound →
      Renews engine host directory name host []
  /-- A refused artifact is removed before the view is compiled. -/
  | refused : engine.Decides host directory name false →
      Renews engine host directory name
        (host.removing (engine.artifactPath host directory name)) []
  | unreadable {error : FileError} : engine.Decides host directory name true →
      host.readText (engine.artifactPath host directory name) = .error error →
      Renews engine host directory name host [.cacheReadFailed name (.file error)]

/-- What is recorded about code that is to be stored at a path. -/
def unwritten (host : Host) (path name code : Text) : List Diagnostic :=
  match host.writeText path code with
  | .ok _ => []
  | .error _ => [.cacheWriteFailed name path]

/-- What a compile adds: its own diagnostics and what storing its code comes across. -/
def compiledDiagnostics (host : Host) (path name : Text) :
    Except Failure (Text × List Diagnostic) → List Diagnostic
  | .ok (code, diagnostics) => diagnostics ++ unwritten host path name code
  | .error _ => []

/-- The diagnostics that a render contributes. -/
inductive Contribution (engine : Engine) (host : Host) (directory name : Text) :
    List Diagnostic → Prop
  | unjudged : ¬engine.Judges host directory name → Contribution engine host directory name []
  | reused : engine.Judges host directory name → engine.Reuses host directory name →
      Contribution engine host directory name []
  | renewed {on : Host} {earlier : List Diagnostic}
      {answer : Except Failure (Text × List Diagnostic)} :
      engine.Judges host directory name → engine.Renews host directory name on earlier →
      engine.CompilesView on name answer →
      Contribution engine host directory name (earlier ++
        compiledDiagnostics on (engine.artifactPath host directory name) name answer)

variable {engine : Engine} {host on other : Host} {directory name : Text} {bound : Nat}
  {data : Json.Value} {executor : Executor} {earlier given : List Diagnostic}

/-! ## Every render has one contribution -/

theorem Decides.unique {first second : Bool}
    (firstDecides : engine.Decides host directory name first)
    (secondDecides : engine.Decides host directory name second) : first = second := by
  obtain ⟨written, modified, artifact, view, rfl⟩ := firstDecides
  obtain ⟨otherWritten, otherModified, otherArtifact, otherView, rfl⟩ := secondDecides
  cases artifact.symm.trans otherArtifact
  cases view.symm.trans otherView
  rfl

theorem Decides.not_missing {accepted : Bool} {error : FileError}
    (decides : engine.Decides host directory name accepted) :
    host.modified (engine.artifactPath host directory name) ≠ .error error := by
  obtain ⟨written, -, artifact, -⟩ := decides
  rw [artifact]
  exact nofun

namespace Renews

theorem not_reuses (renews : engine.Renews host directory name on earlier) :
    ¬engine.Reuses host directory name := by
  rintro ⟨accepted, code, readable⟩
  cases renews with
  | missing missing => exact accepted.not_missing missing
  | refused refused => cases accepted.unique refused
  | unreadable _ failed => cases readable.symm.trans failed

theorem unique {otherEarlier : List Diagnostic}
    (first : engine.Renews host directory name on earlier)
    (second : engine.Renews host directory name other otherEarlier) :
    on = other ∧ earlier = otherEarlier := by
  cases first with
  | missing missing =>
      cases second with
      | missing => exact ⟨rfl, rfl⟩
      | refused decides => exact absurd missing decides.not_missing
      | unreadable decides => exact absurd missing decides.not_missing
  | refused refused =>
      cases second with
      | missing missing => exact absurd missing refused.not_missing
      | refused => exact ⟨rfl, rfl⟩
      | unreadable accepted => cases refused.unique accepted
  | unreadable accepted failed =>
      cases second with
      | missing missing => exact absurd missing accepted.not_missing
      | refused refused => cases accepted.unique refused
      | unreadable _ failedToo =>
          cases failed.symm.trans failedToo
          exact ⟨rfl, rfl⟩

end Renews

theorem Contribution.unique {otherGiven : List Diagnostic}
    (first : engine.Contribution host directory name given)
    (second : engine.Contribution host directory name otherGiven) : given = otherGiven := by
  cases first with
  | unjudged unjudged =>
      cases second with
      | unjudged => rfl
      | reused judges => exact absurd judges unjudged
      | renewed judges => exact absurd judges unjudged
  | reused judges reuses =>
      cases second with
      | unjudged unjudged => exact absurd judges unjudged
      | reused => rfl
      | renewed _ renews => exact absurd reuses renews.not_reuses
  | renewed judges renews compiles =>
      cases second with
      | unjudged unjudged => exact absurd judges unjudged
      | reused _ reuses => exact absurd reuses renews.not_reuses
      | renewed _ renewsToo compilesToo =>
          obtain ⟨rfl, rfl⟩ := renews.unique renewsToo
          rw [compilesView_unique compiles compilesToo]

/-! ## A render adds its contribution -/

theorem record_nil (engine : Engine) : engine.record [] = engine := by
  rw [record, List.append_nil]

theorem record_record (engine : Engine) (first second : List Diagnostic) :
    (engine.record first).record second = engine.record (first ++ second) := by
  rw [record, record, record, List.append_assoc]

/-- Storing code records nothing but that it could not be written. -/
theorem storeArtifact_engine (cached : engine.cache.directory? = some directory) (host : Host)
    (name code sourcePath : Text) (modified : Time) :
    (engine.storeArtifact host name code ⟨Cache.key sourcePath, modified⟩).engine =
      engine.record
        (unwritten host (Path.join directory (Cache.key sourcePath)) name code) := by
  have path := cacheArtifactPath_eq cached sourcePath
  rw [storeArtifact, Cache.write, path, unwritten]
  simp only [bind, Except.bind]
  cases host.writeText (Path.join directory (Cache.key sourcePath)) code with
  | ok written => exact (record_nil engine).symm
  | error error => rfl

/-- A compile for the store records what the view records without it, and then what storing
its code comes across. -/
theorem compileAndStore_engine (cached : engine.cache.directory? = some directory)
    {sourcePath : Text} {modified : Time} {outcome : Outcome Artifact}
    (ran : engine.compileAndStore bound host name ⟨Cache.key sourcePath, modified⟩ =
      some outcome) :
    ∃ answer, engine.CompilesView host name answer ∧
      outcome.engine = engine.record (compiledDiagnostics host
        (Path.join directory (Cache.key sourcePath)) name answer) := by
  rw [compileAndStore] at ran
  cases loaded : (engine.loader host).load name with
  | error failure =>
      rw [loaded] at ran
      cases ran
      exact ⟨.error failure, ⟨0, compileView_of_error loaded 0⟩, (record_nil engine).symm⟩
  | ok text =>
      rw [loaded] at ran
      obtain ⟨⟨code, diagnostics⟩, compiled, rfl⟩ := Option.map_eq_some_iff.mp ran
      have recorded : (engine.record diagnostics).cache.directory? = some directory := cached
      refine ⟨.ok (code, diagnostics), ⟨bound, ?_⟩, ?_⟩
      · rw [compileView, loaded]
        simp only [compiled, Option.map_some]
      · rw [storeArtifact_engine recorded, record_record, compiledDiagnostics]

/-- A render that can judge the artifact of a view either uses it again, and changes nothing,
or compiles the view and adds what that comes across. -/
theorem obtain_contributes (cached : engine.cache.directory? = some directory)
    (judges : engine.Judges host directory name) {modified : Time}
    (told : host.modified (engine.sourcePath host name) = .ok modified)
    {outcome : Outcome Artifact}
    (ran : engine.obtain bound host name ⟨Cache.key (engine.sourcePath host name), modified⟩ =
      some outcome) :
    ∃ given, engine.Contribution host directory name given ∧
      outcome.engine = engine.record given ∧
      (engine.Reuses host directory name → outcome.host = host) := by
  have renewed : ∀ {on earlier}, engine.Renews host directory name on earlier →
      (engine.record earlier).compileAndStore bound on name
        ⟨Cache.key (engine.sourcePath host name), modified⟩ = some outcome →
      ∃ given, engine.Contribution host directory name given ∧
        outcome.engine = engine.record given ∧
        (engine.Reuses host directory name → outcome.host = host) := by
    intro on earlier renews ran
    have recorded : (engine.record earlier).cache.directory? = some directory := cached
    obtain ⟨answer, compiles, outcomeEq⟩ := compileAndStore_engine recorded ran
    refine ⟨_, .renewed judges renews compiles, ?_, fun reuses => absurd reuses renews.not_reuses⟩
    rw [outcomeEq, record_record]
    rfl
  rw [obtain, lookup_eq cached] at ran
  cases asked : host.modified (engine.artifactPath host directory name) with
  | error error =>
      cases judges.artifact_told error asked
      rw [artifactPath] at asked
      simp only [asked] at ran
      refine renewed (.missing asked) ?_
      rw [record_nil]
      exact ran
  | ok written =>
      have decides : ∀ accepted, engine.config.policy.accepts written modified host.now = accepted →
          engine.Decides host directory name accepted :=
        fun accepted decided => ⟨written, modified, asked, told, decided⟩
      rw [artifactPath] at asked
      cases accepted : engine.config.policy.accepts written modified host.now with
      | false =>
          obtain ⟨removed, deleted⟩ := delete_eq cached host (engine.sourcePath host name)
          simp only [asked, accepted, Bool.false_eq_true, if_false, deleted] at ran
          refine renewed (.refused (decides false accepted)) ?_
          rw [record_nil]
          exact ran
      | true =>
          cases content : host.readText (engine.artifactPath host directory name) with
          | ok code =>
              rw [artifactPath] at content
              simp only [asked, accepted, if_true, content] at ran
              cases ran
              exact ⟨[], .reused judges ⟨decides true accepted, code, content⟩,
                (record_nil engine).symm, fun _ => rfl⟩
          | error error =>
              rw [artifactPath] at content
              simp only [asked, accepted, if_true, content] at ran
              exact renewed (.unreadable (decides true accepted) content) ran

/-- Every render adds its contribution, and one that uses an artifact again changes no file. -/
theorem render_contributes (cached : engine.cache.directory? = some directory)
    {outcome : Outcome Text}
    (ran : engine.render executor bound host name data = some outcome) :
    ∃ given, engine.Contribution host directory name given ∧
      outcome.engine = engine.record given ∧
      (engine.Reuses host directory name → outcome.host = host) := by
  have unjudged : ∀ failure, engine.source host name = .error failure →
      ¬engine.Judges host directory name → ∃ given,
        engine.Contribution host directory name given ∧ outcome.engine = engine.record given ∧
        (engine.Reuses host directory name → outcome.host = host) := by
    intro failure failed unjudged
    rw [render, deliver, failed] at ran
    cases ran
    exact ⟨[], .unjudged unjudged, (record_nil engine).symm, fun _ => rfl⟩
  by_cases hasView : engine.HasView host name
  swap
  · exact unjudged _ (source_of_missing hasView) fun judges => hasView judges.hasView
  have isSource := source_of_hasView hasView
  cases told : host.modified (engine.sourcePath host name) with
  | error error =>
      rw [told] at isSource
      refine unjudged _ isSource fun judges => ?_
      obtain ⟨modified, toldToo⟩ := judges.view_told
      cases told.symm.trans toldToo
  | ok modified =>
      rw [told] at isSource
      rw [render, deliver, isSource] at ran
      obtain ⟨delivered, deliveredEq, rfl⟩ := Option.map_eq_some_iff.mp ran
      obtain ⟨obtained, obtainedEq, rfl⟩ := Option.map_eq_some_iff.mp deliveredEq
      by_cases artifactTold : ∀ error,
          host.modified (engine.artifactPath host directory name) = .error error →
            error = .notFound
      · exact obtain_contributes cached ⟨hasView, ⟨modified, told⟩, artifactTold⟩ told obtainedEq
      · -- the failure to ask for the artifact is all that the render answers
        have untold : ¬engine.Judges host directory name := fun judges =>
          artifactTold judges.artifact_told
        simp only [not_forall] at artifactTold
        obtain ⟨error, asked, fatal⟩ := artifactTold
        rw [artifactPath] at asked
        have failed : engine.cache.lookup engine.config.policy host
            (Cache.key (engine.sourcePath host name)) modified = .error (.file error) := by
          rw [lookup_eq cached, asked]
          cases error <;> first | rfl | exact absurd rfl fatal
        rw [obtain, failed] at obtainedEq
        cases obtainedEq
        exact ⟨[], .unjudged untold, (record_nil engine).symm, fun _ => rfl⟩

/-! ## Runs -/

/-- A render, by what it was given and the host after it. -/
structure Rendered where
  engine : Engine
  host : Host
  name : Text
  after : Host

/-- The runs of an engine, on whatever hosts its renders meet: the renders, the lists of
diagnostics that were taken, and the engine in the end. -/
inductive Log (start : Engine) : List Rendered → List (List Diagnostic) → Engine → Prop
  | start : Log start [] [] start
  | render {renders : List Rendered} {taken : List (List Diagnostic)} {engine : Engine}
      {executor : Executor} {bound : Nat} {host : Host} {name : Text} {data : Json.Value}
      {outcome : Outcome Text} :
      Log start renders taken engine →
      engine.render executor bound host name data = some outcome →
      Log start (renders ++ [⟨engine, host, name, outcome.host⟩]) taken outcome.engine
  | take {renders : List Rendered} {taken : List (List Diagnostic)} {engine : Engine} :
      Log start renders taken engine →
      Log start renders (taken ++ [engine.takeDiagnostics.1]) engine.takeDiagnostics.2
  /-- Settings and directives may change between renders. -/
  | adjust {renders : List Rendered} {taken : List (List Diagnostic)} {engine next : Engine} :
      Log start renders taken engine → next.cache = engine.cache →
      next.diagnostics = engine.diagnostics →
      Log start renders taken next

/-- What a render contributes with artifacts in a directory. -/
def Rendered.Contributes (directory : Text) (rendered : Rendered) (given : List Diagnostic) :
    Prop :=
  rendered.engine.Contribution rendered.host directory rendered.name given

/-- A render changed no file if it used an artifact again. -/
def Rendered.KeepsFiles (directory : Text) (rendered : Rendered) : Prop :=
  rendered.engine.Reuses rendered.host directory rendered.name → rendered.after = rendered.host

/-- The diagnostics of a run, taken or still held, are what the engine held at first and then
the contributions of the renders. -/
theorem Log.accounted {start finish : Engine} {renders : List Rendered}
    {taken : List (List Diagnostic)} (cached : start.cache.directory? = some directory)
    (log : Log start renders taken finish) :
    finish.cache = start.cache ∧ (∀ rendered ∈ renders, rendered.KeepsFiles directory) ∧
      ∃ contributions, List.Forall₂ (Rendered.Contributes directory) renders contributions ∧
        taken.flatten ++ finish.diagnostics = start.diagnostics ++ contributions.flatten := by
  induction log with
  | start => exact ⟨rfl, nofun, [], .nil, (List.append_nil _).symm⟩
  | render log ran induction =>
      obtain ⟨sameCache, kept, contributions, contribute, balance⟩ := induction
      obtain ⟨given, contribution, engineEq, keeps⟩ := render_contributes (sameCache ▸ cached) ran
      refine ⟨?_, ?_, contributions ++ [given], ?_, ?_⟩
      · rw [engineEq]
        exact sameCache
      · rw [List.forall_mem_append]
        exact ⟨kept, List.forall_mem_singleton.mpr keeps⟩
      · exact List.rel_append contribute (.cons contribution .nil)
      · rw [engineEq, record, ← List.append_assoc, balance]
        simp
  | take log induction =>
      obtain ⟨sameCache, kept, contributions, contribute, balance⟩ := induction
      refine ⟨sameCache, kept, contributions, contribute, ?_⟩
      rw [takeDiagnostics, ← balance]
      simp
  | adjust log cacheEq diagnosticsEq induction =>
      obtain ⟨sameCache, kept, contributions, contribute, balance⟩ := induction
      exact ⟨cacheEq.trans sameCache, kept, contributions, contribute, diagnosticsEq ▸ balance⟩

/-- Over every run of a new engine, what was taken and what is still held are the
contributions of the renders, each of which is one list, in order and once each. -/
theorem diagnostics_accounted {config : Config} {start finish : Engine} {renders : List Rendered}
    {taken : List (List Diagnostic)} (created : Engine.create config host = .ok start)
    (log : Log start renders taken finish) :
    (∃ contributions,
      (∀ others, List.Forall₂ (Rendered.Contributes config.cacheDirectory) renders others ↔
        others = contributions) ∧
      taken.flatten ++ finish.diagnostics = contributions.flatten) ∧
      ∀ rendered ∈ renders, rendered.KeepsFiles config.cacheDirectory := by
  obtain ⟨cache, inDirectory, rfl⟩ : ∃ cache, Cache.inDirectory host config.cacheDirectory =
      .ok cache ∧ ({ config, cache } : Engine) = start := by
    rw [create] at created
    cases opened : Cache.inDirectory host config.cacheDirectory with
    | error failure =>
        rw [opened] at created
        cases created
    | ok cache =>
        rw [opened] at created
        exact ⟨cache, rfl, Except.ok.inj created⟩
  have cached : cache.directory? = some config.cacheDirectory := by
    rw [Cache.inDirectory] at inDirectory
    split at inDirectory
    · cases inDirectory
      rfl
    · cases inDirectory
  obtain ⟨-, kept, contributions, contribute, balance⟩ := log.accounted cached
  refine ⟨⟨contributions, fun others => ⟨fun contributeToo => ?_, ?_⟩, balance⟩, kept⟩
  · have unique : Relator.RightUnique (Rendered.Contributes config.cacheDirectory) :=
      fun _ _ _ first second => first.unique second
    exact List.right_unique_forall₂' unique contributeToo contribute
  · rintro rfl
    exact contribute

/-- A view that nests a missing one, and a directory in the place of its artifact. -/
def troubledHost : Host :=
  (twoViews "@include('gone')" "part").put
    ["cache", Cache.key "/views/home.view.html"] (.directory (.ofSeconds 100 0))

/-- A render that meets trouble of every kind, before its diagnostics are taken. -/
theorem diagnostics_accounted_on_troubledHost :
    ∃ renders taken finish contributions,
      Engine.create { ttl? := some 60 } troubledHost = .ok (keeper (some 60)) ∧
      Log (keeper (some 60)) renders taken finish ∧
      List.Forall₂ (Rendered.Contributes "cache") renders contributions ∧
      contributions.flatten.map Diagnostic.code? =
        [some Diagnostic.cacheReadFailedCode, some Diagnostic.nestedNotFoundCode,
          some Diagnostic.cacheWriteFailedCode] := by
  have rendered : ((keeper (some 60)).render .dryRun 3 troubledHost "home" .null).map
      (fun outcome => outcome.engine.diagnostics.map Diagnostic.code?) =
        some [some Diagnostic.cacheReadFailedCode, some Diagnostic.nestedNotFoundCode,
          some Diagnostic.cacheWriteFailedCode] := by
    decide +kernel
  obtain ⟨outcome, ran, codes⟩ := Option.map_eq_some_iff.mp rendered
  have created : Engine.create { ttl? := some 60 } troubledHost = .ok (keeper (some 60)) := rfl
  have log := (Log.start.render ran).take
  obtain ⟨⟨contributions, isRow, balance⟩, -⟩ := diagnostics_accounted created log
  refine ⟨_, _, _, contributions, created, log, (isRow contributions).mpr rfl, ?_⟩
  rw [← balance, ← codes]
  simp [takeDiagnostics]

/-! ## A view out of reach -/

/-- A host deep down from the root whose view nests a missing one. -/
def deepNestingHost : Host :=
  deepHost.put (deepDirectory ++ ["views".toList, "home.view.html".toList])
    (.file (.text "@include('gone')") (.ofSeconds 1 0))

/-- Deep down from the root a view compiles with a diagnostic, and its artifact is plainly
missing, but a render of it records nothing. -/
theorem deepNestingHost_render_records_nothing :
    (keeper (some 60)).compileView 1 deepNestingHost "home" =
        some (.ok ([], [.nestedNotFound "gone" "views/gone.view.html"])) ∧
      deepNestingHost.modified ((keeper (some 60)).artifactPath deepNestingHost "cache" "home") =
        .error .notFound ∧
      (keeper (some 60)).render .dryRun 1 deepNestingHost "home" .null =
        some ⟨.error (.file .nameTooLong), keeper (some 60), deepNestingHost⟩ ∧
      (keeper (some 60)).diagnostics = [] := by
  obtain ⟨compiled, oldView, view⟩ :
      (keeper (some 60)).compileView 1 deepNestingHost "home" =
          some (.ok ([], [.nestedNotFound "gone" "views/gone.view.html"])) ∧
        (keeper (some 60)).IsView deepHost "home"
          (deepDirectory ++ ["views".toList, "home.view.html".toList]) (.text "home")
          (.ofSeconds 1 0) ∧
        (keeper (some 60)).IsView deepNestingHost "home"
          (deepDirectory ++ ["views".toList, "home.view.html".toList])
          (.text "@include('gone')") (.ofSeconds 1 0) := by
    rw [IsView, IsView]
    decide +kernel
  have changed := oldView.changedAt_put (.text "@include('gone')") (.ofSeconds 1 0)
  have deployed : (keeper (some 60)).Deployed deepNestingHost "cache" _ :=
    deepHost_deployed.of_edit oldView changed
  have samePath := (hasView_of_edit oldView changed ⟨_, _, _, view⟩).2
  have outside : ¬(keeper (some 60)).WithinReach deepNestingHost "home" := by
    rw [WithinReach, deepNestingHost, samePath]
    exact deepHost_not_withinReach ⟨_, _, _, oldView⟩
  have missing : deepNestingHost.lookup? (Cache.slot (deepDirectory ++ ["cache".toList])
      ((keeper (some 60)).sourcePath deepNestingHost "home")) = none :=
    (deepHost_deployed.lookup?_slot_of_edit oldView changed _).trans
      (deepHost_site.isVacant.lookup?_slot _)
  exact ⟨compiled, (deployed.serves.located _).ends.modified_of_none missing,
    render_of_not_withinReach deployed.tree view outside, rfl⟩

end Scriptlet.Engine
