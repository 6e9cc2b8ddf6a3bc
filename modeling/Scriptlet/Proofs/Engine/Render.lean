import Scriptlet.Proofs.Engine.Deployment

/-!
# What a render does

A dry render of a deployed engine ends in one of five ways: there is no view, its path
is out of reach, its artifact is served, it is compiled and stored, or its file is no
text.  And it ends whenever the view can be compiled at all.
-/

namespace Scriptlet.Engine

open Host

/-- The time that an artifact carries after it was stored. -/
def stampTime (policy : Cache.Policy) (modified now : Time) : Time :=
  match policy with
  | .exactModification => modified
  | .timeToLive _ => now

/-- There is no artifact of a source that the policy accepts. -/
def Refuses (engine : Engine) (host : Host) (place : Location) (sourcePath : Text)
    (modified : Time) : Prop :=
  ∀ code written,
    host.lookup? (Cache.slot place sourcePath) = some (.file (.text code) written) →
      engine.config.policy.accepts written modified host.now = false

/-- The ways in which a dry render ends. -/
inductive Rendering (engine : Engine) (host : Host) (place : Location) (name : Text) :
    Outcome Text → Prop
  | missing : ¬engine.HasView host name →
      Rendering engine host place name
        ⟨.error (.viewNotFound name (engine.viewPath name)), engine, host⟩
  | outOfReach {location : Location} {content : Content} {modified : Time} :
      engine.IsView host name location content modified →
      ¬engine.WithinReach host name →
      Rendering engine host place name ⟨.error (.file .nameTooLong), engine, host⟩
  | served {location : Location} {content : Content} {modified written : Time} {code : Text} :
      engine.IsView host name location content modified →
      engine.WithinReach host name →
      host.lookup? (Cache.slot place (engine.sourcePath host name)) =
        some (.file (.text code) written) →
      engine.config.policy.accepts written modified host.now = true →
      Rendering engine host place name ⟨.ok code, engine, host⟩
  | compiled {location : Location} {modified : Time} {source code : Text} {bound : Nat}
      {diagnostics : List Diagnostic} {after : Host} :
      engine.IsView host name location (.text source) modified →
      engine.WithinReach host name →
      engine.Refuses host place (engine.sourcePath host name) modified →
      engine.compileSource bound host source = some (code, diagnostics) →
      ChangedAt host (Cache.slot place (engine.sourcePath host name))
        (some (.file (.text code) (stampTime engine.config.policy modified host.now))) after →
      Rendering engine host place name ⟨.ok code, engine.record diagnostics, after⟩
  | unreadable {location : Location} {modified : Time} {after : Host} :
      engine.IsView host name location .undecodable modified →
      engine.WithinReach host name →
      engine.Refuses host place (engine.sourcePath host name) modified →
      ChangedAt host (Cache.slot place (engine.sourcePath host name)) none after →
      Rendering engine host place name ⟨.error (.viewUnreadable name .notText), engine, after⟩

variable {engine : Engine} {host cleared : Host} {directory name sourcePath code : Text}
  {place location : Location} {content : Content} {modified written : Time} {bound : Nat}
  {data : Json.Value} {outcome : Outcome Text}

theorem render_of_not_withinReach (tree : host.IsTree)
    (view : engine.IsView host name location content modified)
    (outside : ¬engine.WithinReach host name) :
    engine.render .dryRun bound host name data =
      some ⟨.error (.file .nameTooLong), engine, host⟩ :=
  render_of_failure (source_of_not_withinReach tree view outside)

namespace Deployed

theorem lookup_of_refuses (deployed : engine.Deployed host directory place)
    (refuses : engine.Refuses host place sourcePath modified) :
    host.lookup? (Cache.slot place sourcePath) = none ∧
      engine.cache.lookup engine.config.policy host (Cache.key sourcePath) modified = .ok .absent ∨
    (∃ code written,
      host.lookup? (Cache.slot place sourcePath) = some (.file (.text code) written)) ∧
      engine.cache.lookup engine.config.policy host (Cache.key sourcePath) modified =
        .ok .expired := by
  rcases deployed.serves.artifacts _ (Cache.isArtifactName_key sourcePath) with
    missing | ⟨code, written, stored⟩
  · exact .inl ⟨missing, deployed.serves.lookup_of_none missing⟩
  · refine .inr ⟨⟨code, written, stored⟩, ?_⟩
    rw [deployed.serves.lookup_of_some stored, refuses code written stored]
    rfl

/-- An artifact that is refused is compiled anew, after it was removed. -/
private theorem obtain_of_refuses (deployed : engine.Deployed host directory place)
    (refuses : engine.Refuses host place sourcePath modified) (name : Text) :
    ∃ cleared, ChangedAt host (Cache.slot place sourcePath) none cleared ∧
      ∀ bound, engine.obtain bound host name ⟨Cache.key sourcePath, modified⟩ =
        engine.compileAndStore bound cleared name ⟨Cache.key sourcePath, modified⟩ := by
  rcases deployed.lookup_of_refuses refuses with
    ⟨missing, looked⟩ | ⟨⟨code, written, stored⟩, looked⟩
  · refine ⟨host, ⟨fun other => ?_, rfl, rfl⟩, fun bound => ?_⟩
    · split
      · rename_i here
        rw [← here, missing]
      · rfl
    · rw [obtain, looked]
  · refine ⟨_, changedAt_drop (by simp [Cache.slot]), fun bound => ?_⟩
    rw [obtain, looked]
    simp only [deployed.serves.delete_of_some stored]

private theorem storeArtifact_eq (deployed : engine.Deployed host directory place)
    (name code sourcePath : Text) (modified : Time) :
    ∃ after, engine.storeArtifact host name code ⟨Cache.key sourcePath, modified⟩ =
        ⟨.ok ⟨Cache.key sourcePath, code⟩, engine, after⟩ ∧
      ChangedAt host (Cache.slot place sourcePath)
        (some (.file (.text code) (stampTime engine.config.policy modified host.now))) after := by
  have inside : Cache.slot place sourcePath ≠ [] := by simp [Cache.slot]
  have written : ChangedAt host (Cache.slot place sourcePath)
      (some (.file (.text code) host.now)) _ := changedAt_put inside _
  rw [storeArtifact, deployed.serves.write_eq]
  refine ⟨_, rfl, ?_⟩
  rw [stampArtifact]
  cases engine.config.policy with
  | timeToLive seconds => exact written
  | exactModification =>
      have stillDeployed := deployed.of_slot written (Cache.isArtifactName_key sourcePath)
        (Cache.isName_key sourcePath) (.inr ⟨_, _, rfl⟩)
      simp only [stillDeployed.serves.stamp_eq written.lookup?_self modified]
      exact written.trans (changedAt_put inside _)

/-- A compiled view is stored under the time that its policy compares. -/
private theorem compileAndStore_of_text (deployed : engine.Deployed cleared directory place)
    {source : Text} {compiled : Text × List Diagnostic}
    (view : engine.IsView cleared name location (.text source) modified)
    (ran : engine.compileSource bound cleared source = some compiled) (sourcePath : Text) :
    ∃ after, engine.compileAndStore bound cleared name ⟨Cache.key sourcePath, modified⟩ =
        some ⟨.ok ⟨Cache.key sourcePath, compiled.1⟩, engine.record compiled.2, after⟩ ∧
      ChangedAt cleared (Cache.slot place sourcePath)
        (some (.file (.text compiled.1)
          (stampTime engine.config.policy modified cleared.now))) after := by
  have recorded := deployed.of_settings (.record engine compiled.2)
  obtain ⟨after, stored, changed⟩ := recorded.storeArtifact_eq name compiled.1 sourcePath modified
  refine ⟨after, ?_, changed⟩
  rw [compileAndStore, load_of_text view]
  simp only [ran, Option.map_some, stored]

/-- How a render of a view within reach goes on where its artifact is refused. -/
private theorem render_of_refuses (deployed : engine.Deployed host directory place)
    (view : engine.IsView host name location content modified)
    (within : engine.WithinReach host name)
    (refuses : engine.Refuses host place (engine.sourcePath host name) modified)
    (bound : Nat) (data : Json.Value) :
    (∃ outcome, engine.render .dryRun bound host name data = some outcome ∧
        Rendering engine host place name outcome) ∨
      engine.render .dryRun bound host name data = none ∧
        engine.compileView bound host name = none := by
  have isSource := source_of_withinReach deployed.tree view within
  obtain ⟨cleared, changed, obtained⟩ := deployed.obtain_of_refuses refuses name
  have isArtifact := Cache.isArtifactName_key (engine.sourcePath host name)
  have same := deployed.sameTree_of_slot changed isArtifact (.inl rfl)
  have outside := Cache.sameOutside_of_changedAt changed isArtifact
  have clearedDeployed := deployed.of_slot changed isArtifact (Cache.isName_key _) (.inl rfl)
  have clearedView := (deployed.isView_iff same outside).mpr view
  have compiles : ∀ source, engine.compileSource bound cleared source =
      engine.compileSource bound host source :=
    (SameSettings.refl engine).compileSource_eq (deployed.loader_eq same outside) bound
  cases content with
  | undecodable =>
      have ended : engine.obtain bound host name
          ⟨Cache.key (engine.sourcePath host name), modified⟩ =
            some ⟨.error (.viewUnreadable name .notText), engine, cleared⟩ := by
        rw [obtained, compileAndStore, load_of_undecodable clearedView]
      exact .inl ⟨_, render_of_source isSource ended, .unreadable view within refuses changed⟩
  | text source =>
      cases ran : engine.compileSource bound host source with
      | none =>
          refine .inr ⟨?_, by rw [compileView_of_text view, ran]; rfl⟩
          rw [render, deliver, isSource]
          simp only [obtained, compileAndStore, load_of_text clearedView, compiles, ran,
            Option.map_none]
      | some compiled =>
          obtain ⟨after, stored, changedAgain⟩ := clearedDeployed.compileAndStore_of_text
            clearedView ((compiles source).trans ran) (engine.sourcePath host name)
          rw [changed.now_eq] at changedAgain
          refine .inl ⟨_, render_of_source isSource ((obtained bound).trans stored), ?_⟩
          exact .compiled view within refuses ran (changed.trans changedAgain)

/-- Every dry render is one of the ways in which renders end, and it ends where the view
compiles. -/
private theorem render_cases (deployed : engine.Deployed host directory place) (name : Text)
    (bound : Nat) (data : Json.Value) :
    (∃ outcome, engine.render .dryRun bound host name data = some outcome ∧
        Rendering engine host place name outcome) ∨
      engine.render .dryRun bound host name data = none ∧
        engine.compileView bound host name = none := by
  by_cases hasView : engine.HasView host name
  · obtain ⟨location, content, modified, view⟩ := hasView
    by_cases within : engine.WithinReach host name
    swap
    · exact .inl ⟨_, render_of_not_withinReach deployed.tree view within, .outOfReach view within⟩
    by_cases refuses : engine.Refuses host place (engine.sourcePath host name) modified
    · exact deployed.render_of_refuses view within refuses bound data
    · simp only [Refuses, not_forall, Bool.not_eq_false] at refuses
      obtain ⟨code, written, stored, accepted⟩ := refuses
      have isSource := source_of_withinReach deployed.tree view within
      have obtained : engine.obtain bound host name
          ⟨Cache.key (engine.sourcePath host name), modified⟩ =
            some ⟨.ok ⟨Cache.key (engine.sourcePath host name), code⟩, engine, host⟩ := by
        rw [obtain, deployed.serves.lookup_of_some stored, accepted]
        rfl
      exact .inl ⟨_, render_of_source isSource obtained, .served view within stored accepted⟩
  · exact .inl ⟨_, render_of_failure (source_of_missing hasView), .missing hasView⟩

theorem rendering_of_render (deployed : engine.Deployed host directory place)
    (ran : engine.render .dryRun bound host name data = some outcome) :
    Rendering engine host place name outcome := by
  rcases deployed.render_cases name bound data with ⟨answer, ended, rendering⟩ | ⟨stuck, -⟩
  · rw [ended] at ran
    cases ran
    exact rendering
  · rw [stuck] at ran
    cases ran

/-- A render ends within every bound within which the view compiles. -/
theorem exists_render (deployed : engine.Deployed host directory place)
    {answer : Except Failure (Text × List Diagnostic)}
    (compiles : engine.compileView bound host name = some answer) (data : Json.Value) :
    ∃ outcome, engine.render .dryRun bound host name data = some outcome := by
  rcases deployed.render_cases name bound data with ⟨outcome, ended, -⟩ | ⟨-, stuck⟩
  · exact ⟨outcome, ended⟩
  · rw [stuck] at compiles
    cases compiles

end Deployed

end Scriptlet.Engine
