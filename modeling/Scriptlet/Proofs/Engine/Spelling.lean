import Scriptlet.Proofs.Engine.Site

/-!
# Spellings of a view name

A view name may have any number of slashes in front and the suffix at its end, and stands for
the same path.  An engine goes by the path: it finds the same file, uses the same artifact
and gives the executor the same code.  The name itself only gets into what is said about a
view, in failures and in diagnostics.
-/

namespace Scriptlet

namespace View

variable {suffix name written : Text}

/-- The ways of writing a view name, for views with a suffix. -/
inductive Spelling (suffix name : Text) : Text → Prop where
  | slashes (count : Nat) : Spelling suffix name (List.replicate count '/' ++ name)
  | suffixed (count : Nat) (unended : ¬suffix <:+ name) :
      Spelling suffix name (List.replicate count '/' ++ (name ++ suffix))

theorem dropSlashes_replicate (count : Nat) (name : Text) :
    dropSlashes (List.replicate count '/' ++ name) = dropSlashes name := by
  rw [dropSlashes, dropSlashes, List.dropWhile_append_of_pos]
  intro character member
  simp [List.eq_of_mem_replicate member]

theorem dropSlashes_append (named : ∃ character ∈ name, character ≠ '/') (rest : Text) :
    dropSlashes (name ++ rest) = dropSlashes name ++ rest := by
  have nonempty : dropSlashes name ≠ [] := by
    obtain ⟨character, member, other⟩ := named
    exact fun nothing => other (dropSlashes_eq_nil_iff.mp nothing character member)
  rw [dropSlashes] at nonempty
  rw [dropSlashes, dropSlashes, List.dropWhile_append, if_neg (by simpa using nonempty)]

/-- A name stands for one path, however it is spelled. -/
theorem resolvePath_of_spelling (spelling : Spelling suffix name written)
    (named : ∃ character ∈ name, character ≠ '/') (directory : Text) :
    resolvePath directory written suffix = resolvePath directory name suffix := by
  rw [resolvePath, resolvePath]
  cases spelling with
  | slashes count => rw [dropSlashes_replicate]
  | suffixed count unended =>
      have stillUnended : ¬suffix <:+ dropSlashes name := fun ends =>
        unended (ends.trans (List.dropWhile_suffix _))
      have ended : suffix <:+ dropSlashes name ++ suffix := List.suffix_append _ _
      rw [dropSlashes_replicate, dropSlashes_append named, withSuffix, withSuffix,
        if_pos (List.isSuffixOf_iff_suffix.mpr ended),
        if_neg (List.isSuffixOf_iff_suffix.not.mpr stillUnended)]

end View

/-- Two failures of one kind: they differ in the name of the view at most. -/
inductive Failure.Alike : Failure → Failure → Prop where
  | refl (failure : Failure) : Alike failure failure
  | notFound (first second path : Text) :
      Alike (.viewNotFound first path) (.viewNotFound second path)
  | unreadable (first second : Text) (cause : Host.FileError) :
      Alike (.viewUnreadable first cause) (.viewUnreadable second cause)

/-- Two answers of one kind: the same value, or failures of one kind. -/
inductive Failure.AnswersAlike {α : Type} : Except Failure α → Except Failure α → Prop where
  | ok (value : α) : AnswersAlike (.ok value) (.ok value)
  | error {first second : Failure} (alike : Failure.Alike first second) :
      AnswersAlike (.error first) (.error second)

namespace Failure.AnswersAlike

variable {α β : Type} {left right : Except Failure α}

theorem refl (answer : Except Failure α) : AnswersAlike answer answer := by
  cases answer with
  | ok value => exact .ok value
  | error failure => exact .error (.refl failure)

theorem map (alike : AnswersAlike left right) (change : α → β) :
    AnswersAlike (left.map change) (right.map change) := by
  cases alike with
  | ok value => exact .ok (change value)
  | error kind => exact .error kind

theorem bind (alike : AnswersAlike left right) (next : α → Except Failure β) :
    AnswersAlike (left.bind next) (right.bind next) := by
  cases alike with
  | ok value => exact refl (next value)
  | error kind => exact .error kind

end Failure.AnswersAlike

namespace Engine

open Failure (AnswersAlike)

/-- Two engines whose diagnostics have the same codes, and that do not differ in anything
else. -/
structure Alike (first second : Engine) : Prop where
  config_eq : second.config = first.config
  cache_eq : second.cache = first.cache
  registry_eq : second.registry = first.registry
  codes_eq : second.diagnostics.map Diagnostic.code? = first.diagnostics.map Diagnostic.code?

/-- Two outcomes of one kind, on the same host. -/
structure Outcome.Alike {α : Type} (first second : Outcome α) : Prop where
  result : AnswersAlike first.result second.result
  engine : Engine.Alike first.engine second.engine
  host_eq : second.host = first.host

variable {first second engine : Engine} {host : Host} {name written : Text}

namespace Alike

theorem refl (engine : Engine) : engine.Alike engine :=
  ⟨rfl, rfl, rfl, rfl⟩

theorem record {noted others : List Diagnostic} (alike : first.Alike second)
    (codes : others.map Diagnostic.code? = noted.map Diagnostic.code?) :
    (first.record noted).Alike (second.record others) where
  config_eq := alike.config_eq
  cache_eq := alike.cache_eq
  registry_eq := alike.registry_eq
  codes_eq := by
    rw [Engine.record, Engine.record, List.map_append, List.map_append, alike.codes_eq, codes]

theorem sameSettings (alike : first.Alike second) : first.SameSettings second := by
  constructor
  case viewsDirectory_eq => rw [alike.config_eq]
  case suffix_eq => rw [alike.config_eq]
  case compress_eq => rw [alike.config_eq]
  case depthLimit_eq => rw [alike.config_eq]
  case cache_eq => exact alike.cache_eq
  case registry_eq => exact alike.registry_eq

theorem stampArtifact_eq (alike : first.Alike second) (host : Host) (source : Source) :
    second.stampArtifact host source = first.stampArtifact host source := by
  rw [stampArtifact, stampArtifact, alike.config_eq, alike.cache_eq]

/-- An answer that is the same for both engines. -/
theorem outcome {α : Type} (alike : first.Alike second) (result : Except Failure α)
    (host : Host) : Outcome.Alike ⟨result, first, host⟩ ⟨result, second, host⟩ where
  result := .refl result
  engine := alike
  host_eq := rfl

end Alike

/-- Two names for one path load the same source, or fail alike. -/
theorem load_alike (alike : first.Alike second)
    (samePath : first.viewPath written = first.viewPath name) (host : Host) :
    AnswersAlike ((first.loader host).load name) ((second.loader host).load written) := by
  rw [alike.sameSettings.loader_eq]
  rw [viewPath, viewPath] at samePath
  simp only [loader, View.Loader.ofDirectory, samePath]
  split
  · split
    · exact .ok _
    · exact .error (.unreadable ..)
  · exact .error (.notFound ..)

theorem source_alike (samePath : engine.viewPath written = engine.viewPath name) (host : Host) :
    AnswersAlike (engine.source host name) (engine.source host written) := by
  have paths : (engine.loader host).path written = (engine.loader host).path name := samePath
  simp only [source, paths]
  by_cases present : host.isFile ((engine.loader host).path name) = true
  · simp only [if_pos present]
    cases host.modified (host.absolute ((engine.loader host).path name)) with
    | ok modified => exact .ok _
    | error error => exact .error (.refl _)
  · simp only [if_neg present]
    exact .error (.notFound ..)

theorem storeArtifact_alike (alike : first.Alike second) (host : Host) (name written code : Text)
    (source : Source) :
    Outcome.Alike (first.storeArtifact host name code source)
      (second.storeArtifact host written code source) := by
  rw [storeArtifact, storeArtifact, alike.cache_eq]
  split
  · rw [alike.stampArtifact_eq]
    exact alike.outcome _ _
  · split
    · refine Alike.outcome (alike.record ?_) _ _
      rfl
    · exact alike.outcome _ _
  · exact alike.outcome _ _

/-- Two runs that may not end: both or neither end, and the outcomes are alike. -/
abbrev RunsAlike {α : Type} : Option (Outcome α) → Option (Outcome α) → Prop :=
  Option.Rel Outcome.Alike

/-- A run that answers a value answers it under every spelling. -/
theorem ok_of_runsAlike {α : Type} {left right : Option (Outcome α)} {value : α}
    (alike : RunsAlike left right) (answers : left.map (·.result) = some (.ok value)) :
    right.map (·.result) = some (.ok value) := by
  cases alike with
  | none => exact answers
  | @some before after alike =>
      have result := alike.result
      rw [Option.map_some, Option.some.injEq] at answers ⊢
      rw [answers] at result
      generalize after.result = other at result ⊢
      cases result with
      | ok value => rfl

theorem compileAndStore_alike (alike : first.Alike second)
    (samePath : first.viewPath written = first.viewPath name) (bound : Nat) (host : Host)
    (source : Source) :
    RunsAlike (first.compileAndStore bound host name source)
      (second.compileAndStore bound host written source) := by
  rw [compileAndStore, compileAndStore]
  have loads := load_alike alike samePath host
  generalize (first.loader host).load name = loaded,
    (second.loader host).load written = again at loads
  cases loads with
  | error kind => exact .some ⟨.error kind, alike, rfl⟩
  | ok text =>
      -- one text is compiled in one context; the names only get into what is recorded
      have loaders := alike.sameSettings.loader_eq host
      dsimp only
      rw [alike.sameSettings.compileSource_eq loaders]
      cases first.compileSource bound host text with
      | none => exact .none
      | some compiled => exact .some (storeArtifact_alike (alike.record rfl) host _ _ _ source)

theorem obtain_alike (samePath : engine.viewPath written = engine.viewPath name) (bound : Nat)
    (host : Host) (source : Source) :
    RunsAlike (engine.obtain bound host name source) (engine.obtain bound host written source) := by
  rw [obtain, obtain]
  split
  · exact .some ((Alike.refl engine).outcome _ _)
  · exact compileAndStore_alike (.refl engine) samePath bound host source
  · split
    · exact compileAndStore_alike (.refl engine) samePath bound _ source
    · exact .some ((Alike.refl engine).outcome _ _)
  · refine compileAndStore_alike ((Alike.refl engine).record ?_) samePath bound host source
    rfl
  · exact .some ((Alike.refl engine).outcome _ _)

theorem deliver_alike (samePath : engine.viewPath written = engine.viewPath name) (bound : Nat)
    (host : Host) (data : Json.Value) :
    RunsAlike (engine.deliver bound host name data) (engine.deliver bound host written data) := by
  rw [deliver, deliver]
  have sources := source_alike samePath host
  generalize engine.source host name = found, engine.source host written = again at sources
  cases sources with
  | error kind => exact .some ⟨.error kind, .refl engine, rfl⟩
  | ok source =>
      dsimp only
      have obtained := obtain_alike samePath bound host source
      generalize engine.obtain bound host name source = outcome,
        engine.obtain bound host written source = again at obtained
      cases obtained with
      | none => exact .none
      | some alike =>
          exact .some ⟨alike.result.map _, alike.engine, alike.host_eq⟩

theorem render_alike (samePath : engine.viewPath written = engine.viewPath name)
    (executor : Executor) (bound : Nat) (host : Host) (data : Json.Value) :
    RunsAlike (engine.render executor bound host name data)
      (engine.render executor bound host written data) := by
  rw [render, render]
  have delivered := deliver_alike samePath bound host data
  generalize engine.deliver bound host name data = outcome,
    engine.deliver bound host written data = again at delivered
  cases delivered with
  | none => exact .none
  | some alike => exact .some ⟨alike.result.bind executor, alike.engine, alike.host_eq⟩

/-- All spellings of a view name are one view: they resolve to one path in every directory, and
on every host an engine finds the same source under them and stores it under the same key.
Renders under them leave the same files, answer alike and differ in the names within failures
and diagnostics at most. -/
theorem render_of_spelling {suffix : Text} (spelling : View.Spelling suffix name written)
    (named : ∃ character ∈ name, character ≠ '/') :
    (∀ directory,
      View.resolvePath directory written suffix = View.resolvePath directory name suffix) ∧
    ∀ engine : Engine, engine.config.suffix = suffix → ∀ host,
      Cache.key (engine.sourcePath host written) = Cache.key (engine.sourcePath host name) ∧
      AnswersAlike (engine.source host name) (engine.source host written) ∧
      ∀ executor bound data, RunsAlike (engine.render executor bound host name data)
        (engine.render executor bound host written data) := by
  have paths := View.resolvePath_of_spelling spelling named
  refine ⟨paths, ?_⟩
  rintro engine rfl host
  have samePath : engine.viewPath written = engine.viewPath name := paths _
  refine ⟨?_, source_alike samePath host, fun executor bound data =>
    render_alike samePath executor bound host data⟩
  rw [sourcePath, sourcePath, samePath]

/-- The view `home` is rendered as `//home.view.html` too. -/
theorem render_of_spelling_of_home :
    ((keeper (some 60)).render .dryRun 1 (twoViews "hi" "part") "home" .null).map (·.result) =
        some (.ok "hi".toList) ∧
      ((keeper (some 60)).render .dryRun 1 (twoViews "hi" "part") "//home.view.html" .null).map
        (·.result) = some (.ok "hi".toList) := by
  have spelling : View.Spelling View.defaultSuffix "home" "//home.view.html" :=
    .suffixed 2 (by decide)
  obtain ⟨-, renders⟩ := render_of_spelling spelling (by decide)
  obtain ⟨-, -, rendered⟩ := renders (keeper (some 60)) rfl (twoViews "hi" "part")
  have first : ((keeper (some 60)).render .dryRun 1 (twoViews "hi" "part") "home" .null).map
      (·.result) = some (.ok "hi".toList) := by decide +kernel
  exact ⟨first, ok_of_runsAlike (rendered .dryRun 1 .null) first⟩

end Engine

end Scriptlet
