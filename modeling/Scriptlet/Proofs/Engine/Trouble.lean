import Scriptlet.Proofs.Engine.Site

/-!
# Trouble with the store

Whatever has become of the directory of the store, a render gets by without it: it
compiles where an artifact is missing or cannot be read, and only records what it could
not write.  What it does not get by without are two answers of the host: when the view was
modified under its absolute path, and when the artifact was, if it is not plainly missing.
-/

namespace Scriptlet

/-- A host without the file at a path, where that can be removed. -/
def Host.removing (host : Host) (path : Text) : Host :=
  match host.removeFile path with
  | .ok cleared => cleared
  | .error _ => host

namespace Engine

open Host

variable {engine : Engine} {host cleared : Host} {directory name code : Text} {source : Source}
  {bound : Nat}

/-- The path of the artifact of a view. -/
def artifactPath (engine : Engine) (host : Host) (directory name : Text) : Text :=
  Path.join directory (Cache.key (engine.sourcePath host name))

/-- The hosts on which a render compiles: the one that it is given, and the same one
without the artifact. -/
inductive CompilesOn (host : Host) (artifactPath : Text) : Host → Prop
  | asGiven : CompilesOn host artifactPath host
  | cleared {cleared : Host} : host.removeFile artifactPath = .ok cleared →
      CompilesOn host artifactPath cleared

theorem cacheArtifactPath_eq (cached : engine.cache.directory? = some directory)
    (sourcePath : Text) : engine.cache.artifactPath (Cache.key sourcePath) =
      .ok (Path.join directory (Cache.key sourcePath)) := by
  rw [Cache.artifactPath, Cache.directory, cached,
    Cache.dropWhile_of_isName (Cache.isName_key sourcePath)]
  rfl

/-- Code that cannot be stored is answered all the same. -/
theorem storeArtifact_result (cached : engine.cache.directory? = some directory) (host : Host)
    (name code sourcePath : Text) (modified : Time) :
    (engine.storeArtifact host name code ⟨Cache.key sourcePath, modified⟩).result =
      .ok ⟨Cache.key sourcePath, code⟩ := by
  have path := cacheArtifactPath_eq cached sourcePath
  rw [storeArtifact, Cache.write, path]
  simp only [bind, Except.bind]
  cases host.writeText (Path.join directory (Cache.key sourcePath)) code <;> rfl

/-- A compile that ends is answered, whether it could be stored or not. -/
theorem compileAndStore_result (cached : engine.cache.directory? = some directory)
    {loaded : Text} {compiled : Text × List Diagnostic}
    (isLoaded : (engine.loader host).load name = .ok loaded)
    (ran : engine.compileSource bound host loaded = some compiled) (sourcePath : Text)
    (modified : Time) :
    ∃ outcome, engine.compileAndStore bound host name ⟨Cache.key sourcePath, modified⟩ =
        some outcome ∧ outcome.result = .ok ⟨Cache.key sourcePath, compiled.1⟩ := by
  have recorded : (engine.record compiled.2).cache.directory? = some directory := cached
  refine ⟨_, ?_, storeArtifact_result recorded host name compiled.1 sourcePath modified⟩
  rw [compileAndStore, isLoaded]
  simp only [ran, Option.map_some]

theorem compilesOn_removing (host : Host) (path : Text) :
    CompilesOn host path (host.removing path) := by
  rw [removing]
  cases gone : host.removeFile path with
  | ok cleared => exact .cleared gone
  | error error => exact .asGiven

theorem delete_eq (cached : engine.cache.directory? = some directory) (host : Host)
    (sourcePath : Text) :
    ∃ removed, engine.cache.delete host (Cache.key sourcePath) =
      .ok (removed, host.removing (Path.join directory (Cache.key sourcePath))) := by
  rw [Cache.delete, cacheArtifactPath_eq cached sourcePath, removing]
  simp only [bind, Except.bind]
  cases host.removeFile (Path.join directory (Cache.key sourcePath)) with
  | ok cleared => exact ⟨true, rfl⟩
  | error error => exact ⟨false, rfl⟩

/-- What looking for an artifact answers, by what the host tells about its file. -/
theorem lookup_eq (cached : engine.cache.directory? = some directory)
    (policy : Cache.Policy) (host : Host) (sourcePath : Text) (modified : Time) :
    engine.cache.lookup policy host (Cache.key sourcePath) modified =
      match host.modified (Path.join directory (Cache.key sourcePath)) with
      | .error .notFound => .ok .absent
      | .error error => .error (.file error)
      | .ok written =>
          if policy.accepts written modified host.now then
            match host.readText (Path.join directory (Cache.key sourcePath)) with
            | .ok code => .ok (.fresh code)
            | .error error => .ok (.unreadable (.file error))
          else .ok .expired := by
  rw [Cache.lookup, Cache.lastWriteTime, Cache.read, cacheArtifactPath_eq cached sourcePath]
  simp only [bind, Except.bind]
  cases host.modified (Path.join directory (Cache.key sourcePath)) with
  | error error => cases error <;> rfl
  | ok written =>
      simp only [pure, Except.pure]
      cases host.readText (Path.join directory (Cache.key sourcePath)) <;> rfl

/-- What looking for an artifact answers, whatever stands in its way. -/
private theorem lookup_cases (cached : engine.cache.directory? = some directory)
    (policy : Cache.Policy) (host : Host) (sourcePath : Text) (modified : Time) :
    (∃ found, engine.cache.lookup policy host (Cache.key sourcePath) modified = .ok found ∧
      ∀ error, host.modified (Path.join directory (Cache.key sourcePath)) = .error error →
        error = .notFound) ∨
    ∃ error, error ≠ .notFound ∧
      host.modified (Path.join directory (Cache.key sourcePath)) = .error error ∧
      engine.cache.lookup policy host (Cache.key sourcePath) modified = .error (.file error) := by
  rw [lookup_eq cached]
  -- only a missing artifact is told from one that cannot be asked for
  cases asked : host.modified (Path.join directory (Cache.key sourcePath)) with
  | error error =>
      by_cases missing : error = .notFound
      · subst missing
        exact .inl ⟨.absent, rfl, fun _ same => (Except.error.inj same).symm⟩
      · refine .inr ⟨error, missing, rfl, ?_⟩
        cases error <;> first | rfl | exact absurd rfl missing
  | ok written =>
      have told : ∀ error, (.ok written : Except FileError Time) = .error error →
          error = .notFound := by
        intro error failed
        cases failed
      refine .inl ?_
      simp only
      split
      · cases host.readText (Path.join directory (Cache.key sourcePath)) with
        | ok code => exact ⟨.fresh code, rfl, told⟩
        | error error => exact ⟨.unreadable (.file error), rfl, told⟩
      · exact ⟨.expired, rfl, told⟩

/-- Once the artifact was looked for, nothing keeps a view that compiles from its code. -/
private theorem obtain_result (cached : engine.cache.directory? = some directory)
    {sourcePath : Text} {modified : Time} {found : Cache.Lookup}
    (compiles : ∀ other, CompilesOn host (Path.join directory (Cache.key sourcePath)) other →
      ∃ loaded compiled, (engine.loader other).load name = .ok loaded ∧
        engine.compileSource bound other loaded = some compiled)
    (looked : engine.cache.lookup engine.config.policy host (Cache.key sourcePath) modified =
      .ok found) :
    ∃ outcome code, engine.obtain bound host name ⟨Cache.key sourcePath, modified⟩ =
        some outcome ∧ outcome.result = .ok ⟨Cache.key sourcePath, code⟩ := by
  rw [obtain, looked]
  cases found with
  | fresh code => exact ⟨_, code, rfl, rfl⟩
  | absent =>
      obtain ⟨loaded, compiled, isLoaded, ran⟩ := compiles host .asGiven
      obtain ⟨outcome, stored, result⟩ :=
        compileAndStore_result cached isLoaded ran sourcePath modified
      exact ⟨outcome, compiled.1, stored, result⟩
  | unreadable failure =>
      obtain ⟨loaded, compiled, isLoaded, ran⟩ := compiles host .asGiven
      have recorded : (engine.record [.cacheReadFailed name failure]).cache.directory? =
        some directory := cached
      obtain ⟨outcome, stored, result⟩ :=
        compileAndStore_result recorded isLoaded ran sourcePath modified
      exact ⟨outcome, compiled.1, stored, result⟩
  | expired =>
      obtain ⟨removed, deleted⟩ := delete_eq cached host sourcePath
      obtain ⟨loaded, compiled, isLoaded, ran⟩ := compiles _ (compilesOn_removing ..)
      obtain ⟨outcome, stored, result⟩ :=
        compileAndStore_result cached isLoaded ran sourcePath modified
      exact ⟨outcome, compiled.1, by simp only [deleted, stored], result⟩

/-- A render of a view that compiles, with whatever has become of the store, answers code
just where the host tells when the view was modified and does not fail to tell when the
artifact was, other than because it is missing. -/
theorem render_ok_iff (cached : engine.cache.directory? = some directory)
    (data : Json.Value) (hasView : engine.HasView host name)
    (compiles : ∀ other, CompilesOn host (engine.artifactPath host directory name) other →
      ∃ loaded compiled, (engine.loader other).load name = .ok loaded ∧
        engine.compileSource bound other loaded = some compiled) :
    ∃ outcome, engine.render .dryRun bound host name data = some outcome ∧
      ((∃ code, outcome.result = .ok code) ↔
        (∃ time, host.modified (engine.sourcePath host name) = .ok time) ∧
        ∀ error, host.modified (engine.artifactPath host directory name) = .error error →
          error = .notFound) ∧
      ∀ failure, outcome.result = .error failure → ∃ error, failure = .file error ∧
        (host.modified (engine.sourcePath host name) = .error error ∨
          host.modified (engine.artifactPath host directory name) = .error error) := by
  have isSource := source_of_hasView hasView
  cases asked : host.modified (engine.sourcePath host name) with
  | error error =>
      rw [asked] at isSource
      refine ⟨_, render_of_failure isSource, ⟨?_, ?_⟩, ?_⟩
      · rintro ⟨_, ⟨⟩⟩
      · rintro ⟨⟨_, ⟨⟩⟩, -⟩
      · rintro _ ⟨rfl⟩
        exact ⟨error, rfl, .inl rfl⟩
  | ok modified =>
      rw [asked] at isSource
      rw [artifactPath] at compiles ⊢
      rcases lookup_cases cached engine.config.policy host (engine.sourcePath host name)
          modified with ⟨found, looked, absorbed⟩ | ⟨error, fatal, stuck, looked⟩
      · obtain ⟨outcome, code, obtained, result⟩ := obtain_result cached compiles looked
        refine ⟨_, render_of_source isSource obtained, ?_, ?_⟩
        · rw [result]
          exact ⟨fun _ => ⟨⟨_, rfl⟩, absorbed⟩, fun _ => ⟨_, rfl⟩⟩
        · rw [result]
          rintro _ ⟨⟩
      · have obtained : engine.obtain bound host name
            ⟨Cache.key (engine.sourcePath host name), modified⟩ =
              some ⟨.error (.file error), engine, host⟩ := by
          rw [obtain, looked]
        refine ⟨_, render_of_source isSource obtained, ⟨?_, ?_⟩, ?_⟩
        · rintro ⟨_, ⟨⟩⟩
        · exact fun absorbed => absurd (absorbed.2 error stuck) fatal
        · rintro _ ⟨rfl⟩
          exact ⟨error, rfl, .inr stuck⟩

/-- Two views, and a directory where the artifact of `home` belongs. -/
def blockedHost : Host :=
  (twoViews "<p>@include('part')</p>" "part").put
    ["cache", Cache.key "/views/home.view.html"] (.directory (.ofSeconds 100 0))

/-- A view is rendered though nothing can be stored in the place of its artifact. -/
theorem render_ok_iff_on_blockedHost :
    ∃ outcome code, (keeper (some 60)).render .dryRun 3 blockedHost "home" .null = some outcome ∧
      outcome.result = .ok code := by
  let artifact := (keeper (some 60)).artifactPath blockedHost "cache" "home"
  obtain ⟨view, kept, asked, blocked⟩ :
      (keeper (some 60)).IsView blockedHost "home" ["views", "home.view.html"]
          (.text "<p>@include('part')</p>") (.ofSeconds 1 0) ∧
        blockedHost.removeFile artifact = .error .isDirectory ∧
        blockedHost.modified ((keeper (some 60)).sourcePath blockedHost "home") =
          .ok (.ofSeconds 1 0) ∧
        blockedHost.modified artifact = .ok (.ofSeconds 100 0) := by
    rw [IsView]
    decide +kernel
  have compiles : ∀ other, CompilesOn blockedHost artifact other →
      ∃ loaded compiled, ((keeper (some 60)).loader other).load "home" = .ok loaded ∧
        (keeper (some 60)).compileSource 3 other loaded = some compiled := by
    rintro other (_ | removed)
    · exact ⟨"<p>@include('part')</p>", ("<p>part</p>", []), by decide +kernel, by decide +kernel⟩
    · cases kept.symm.trans removed
  obtain ⟨outcome, ran, succeeds, -⟩ := render_ok_iff rfl .null ⟨_, _, _, view⟩ compiles
  have told : ∀ error, blockedHost.modified artifact = .error error → error = .notFound := by
    intro error failed
    cases blocked.symm.trans failed
  obtain ⟨code, result⟩ := succeeds.mpr ⟨⟨_, asked⟩, told⟩
  exact ⟨outcome, code, ran, result⟩

/-- With a file in the place of the directory a view still compiles, and its render fails. -/
theorem render_fails_with_replaced_directory :
    let host := twoViews "home" "part"
    let replaced := host.put ["cache"] (.file (.text "") (.ofSeconds 100 0))
    ∃ engine, Engine.create {} host = .ok engine ∧
      engine.compileView 1 replaced "home" = some (.ok ("home", [])) ∧
      (engine.render .dryRun 1 replaced "home" .null).map Outcome.result =
        some (.error (.file .notDirectory)) := by
  refine ⟨keeper (some 86400), rfl, ?_, ?_⟩ <;> decide +kernel

end Engine

end Scriptlet
