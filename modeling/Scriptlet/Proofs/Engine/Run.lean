import Scriptlet.Proofs.Engine.Render

/-!
# Runs of an engine

A run is a row of renders, of edits and removals around them, and of waits.  Each step
of a deployed engine does one of three things to the files: it removes artifacts, it
stores the artifact of a view that it compiled, or it replaces the content of a view.
-/

namespace Scriptlet.Engine

open Host

/-- An engine and the host that it runs on. -/
structure Session where
  engine : Engine
  host : Host

inductive Action where
  /-- A dry render, with what it answered. -/
  | render (name : Text) (result : Except Failure Text)
  | takeDiagnostics
  | setTtl (ttl? : Option Int)
  /-- The removal of one artifact through the store. -/
  | delete (artifact : Text)
  | clear
  /-- New content for the file of a view, with a new modification time. -/
  | edit (location : Location) (content : Content) (modified : Time)
  /-- Time goes on, or is set to another one. -/
  | wait (now : Time)

/-- The actions that leave views as they are. -/
def Action.KeepsViews (action : Action) : Prop :=
  ∀ location content modified, action ≠ .edit location content modified

/-- What one action does to a session. -/
inductive Step (session : Session) : Action → Session → Prop
  | render {bound : Nat} {name : Text} {data : Json.Value} {outcome : Outcome Text} :
      session.engine.render .dryRun bound session.host name data = some outcome →
      Step session (.render name outcome.result) ⟨outcome.engine, outcome.host⟩
  | takeDiagnostics :
      Step session .takeDiagnostics { session with engine := session.engine.takeDiagnostics.2 }
  | setTtl (ttl? : Option Int) :
      Step session (.setTtl ttl?) { session with engine := session.engine.setTtl ttl? }
  | delete {artifact : Text} {removed : Bool} {after : Host} :
      IsName artifact → Cache.isArtifactName artifact = true →
      session.engine.cache.delete session.host artifact = .ok (removed, after) →
      Step session (.delete artifact) { session with host := after }
  | clear {count : Nat} {after : Host} :
      session.engine.cache.clear session.host = .ok (count, after) →
      Step session .clear { session with host := after }
  | edit {name : Text} {location : Location} {old : Content} {written : Time}
      (content : Content) (modified : Time) :
      session.engine.IsView session.host name location old written →
      Step session (.edit location content modified)
        { session with host := session.host.put location (.file content modified) }
  | wait (now : Time) :
      Step session (.wait now) { session with host := { session.host with now } }

/-- An action and the session in which it was taken. -/
structure Event where
  session : Session
  action : Action

/-- What a dry render answers within a bound. -/
def Session.answer (session : Session) (bound : Nat) (name : Text) :
    Option (Except Failure Text) :=
  (session.engine.render .dryRun bound session.host name .null).map Outcome.result

/-- The session after a dry render. -/
def Session.rendered (session : Session) (bound : Nat) (name : Text) : Session :=
  match session.engine.render .dryRun bound session.host name .null with
  | some outcome => ⟨outcome.engine, outcome.host⟩
  | none => session

/-- A dry render that was computed is a step. -/
theorem Step.of_answer {session : Session} {bound : Nat} {name : Text}
    {result : Except Failure Text} (answered : session.answer bound name = some result) :
    Step session (.render name result) (session.rendered bound name) := by
  obtain ⟨outcome, ran, rfl⟩ := Option.map_eq_some_iff.mp answered
  rw [Session.rendered, ran]
  exact .render ran

/-- The runs from a session whose every action is allowed after what went before. -/
inductive Run (allowed : List Event → Session → Action → Prop) (start : Session) :
    List Event → Session → Prop
  | start : Run allowed start [] start
  | step {trace : List Event} {session next : Session} {action : Action} :
      Run allowed start trace session → allowed trace session action →
      Step session action next → Run allowed start (trace ++ [⟨session, action⟩]) next

/-- What a step can do to a session. -/
inductive Effect (place : Location) (before : Session) : Action → Session → Prop
  /-- Artifacts went, or nothing did. -/
  | cleared {action : Action} {after : Session} :
      action.KeepsViews →
      before.engine.SameSettings after.engine →
      Cache.Cleared place before.host after.host →
      Effect place before action after
  | compiled {name : Text} {location : Location} {modified : Time} {source code : Text}
      {bound : Nat} {diagnostics : List Diagnostic} {after : Session} :
      before.engine.IsView before.host name location (.text source) modified →
      before.engine.WithinReach before.host name →
      before.engine.compileSource bound before.host source = some (code, diagnostics) →
      before.engine.SameSettings after.engine →
      ChangedAt before.host (Cache.slot place (before.engine.sourcePath before.host name))
        (some (.file (.text code)
          (stampTime before.engine.config.policy modified before.host.now))) after.host →
      Effect place before (.render name (.ok code)) after
  | edited {name : Text} {location : Location} {old content : Content}
      {written modified : Time} {after : Session} :
      before.engine.IsView before.host name location old written →
      before.engine.SameSettings after.engine →
      ChangedAt before.host location (some (.file content modified)) after.host →
      Effect place before (.edit location content modified) after

variable {allowed : List Event → Session → Action → Prop} {start before after finish : Session}
  {action : Action} {trace : List Event} {directory : Text} {place : Location}

theorem Rendering.effect {engine : Engine} {host : Host} {name : Text} {outcome : Outcome Text}
    (rendering : Rendering engine host place name outcome) :
    Effect place ⟨engine, host⟩ (.render name outcome.result) ⟨outcome.engine, outcome.host⟩ := by
  cases rendering with
  | missing | outOfReach | served => exact .cleared nofun (.refl engine) (.refl place host)
  | compiled view within _ ran changed =>
      exact .compiled view within ran (.record engine _) changed
  | unreadable _ _ _ changed =>
      exact .cleared nofun (.refl engine) (.of_changedAt changed (Cache.isArtifactName_key _))

namespace Step

theorem effect (step : Step before action after)
    (deployed : before.engine.Deployed before.host directory place) :
    Effect place before action after := by
  cases step with
  | render ran => exact (deployed.rendering_of_render ran).effect
  | takeDiagnostics => exact .cleared nofun ⟨rfl, rfl, rfl, rfl, rfl, rfl⟩ (.refl place _)
  | setTtl ttl? => exact .cleared nofun (.setTtl _ ttl?) (.refl place _)
  | delete isName isArtifact deleted =>
      exact .cleared nofun (.refl _) (deployed.serves.cleared_of_delete isName isArtifact deleted)
  | clear removed =>
      exact .cleared nofun (.refl _) (deployed.serves.cleared_of_clear deployed.tree removed)
  | edit content modified view =>
      exact .edited view (.refl _) (view.changedAt_put content modified)
  | wait now => exact .cleared nofun (.refl _) ⟨rfl, fun _ => .inl rfl⟩

/-- A step changes the time to live only where it sets it. -/
theorem ttl?_eq (step : Step before action after)
    (deployed : before.engine.Deployed before.host directory place)
    (unset : ∀ ttl?, action ≠ .setTtl ttl?) :
    after.engine.config.ttl? = before.engine.config.ttl? := by
  cases step with
  | render ran => cases deployed.rendering_of_render ran <;> rfl
  | setTtl ttl? => exact absurd rfl (unset ttl?)
  | _ => rfl

end Step

namespace Effect

theorem sameSettings (effect : Effect place before action after) :
    before.engine.SameSettings after.engine := by
  cases effect with
  | cleared _ same | compiled _ _ _ same | edited _ same => exact same

theorem deployed (effect : Effect place before action after)
    (deployed : before.engine.Deployed before.host directory place) :
    after.engine.Deployed after.host directory place := by
  cases effect with
  | cleared _ same cleared => exact (deployed.of_cleared cleared).of_settings same
  | compiled _ _ _ same changed =>
      exact (deployed.of_slot changed (Cache.isArtifactName_key _) (Cache.isName_key _)
        (.inr ⟨_, _, rfl⟩)).of_settings same
  | edited view same changed => exact (deployed.of_edit view changed).of_settings same

end Effect

/-- Two sessions with the same views, which compile to the same code. -/
structure SameViews (before after : Session) : Prop where
  isView_iff : ∀ name location content modified,
    after.engine.IsView after.host name location content modified ↔
      before.engine.IsView before.host name location content modified
  sourcePath_eq : ∀ name, before.engine.HasView before.host name →
    after.engine.sourcePath after.host name = before.engine.sourcePath before.host name
  loader_eq : after.engine.loader after.host = before.engine.loader before.host
  compileSource_eq : ∀ bound source,
    after.engine.compileSource bound after.host source =
      before.engine.compileSource bound before.host source

/-- What an engine does itself, and to its artifacts, changes no view. -/
theorem Effect.sameViews (effect : Effect place before action after)
    (deployed : before.engine.Deployed before.host directory place)
    (keeps : action.KeepsViews) : SameViews before after := by
  have same : before.host.SameTree after.host ∧
      Cache.SameOutside place before.host after.host := by
    cases effect with
    | cleared _ _ cleared => exact ⟨deployed.sameTree_of_cleared cleared, cleared.sameOutside⟩
    | compiled _ _ _ _ changed =>
        exact ⟨deployed.sameTree_of_slot changed (Cache.isArtifactName_key _) (.inr ⟨_, _, rfl⟩),
          Cache.sameOutside_of_changedAt changed (Cache.isArtifactName_key _)⟩
    | edited _ _ _ => exact absurd rfl (keeps _ _ _)
  obtain ⟨sameTree, outside⟩ := same
  have settings := effect.sameSettings
  have views : ∀ name location content modified,
      after.engine.IsView after.host name location content modified ↔
        before.engine.IsView before.host name location content modified :=
    fun _ _ _ _ => settings.isView_iff.trans (deployed.isView_iff sameTree outside)
  have loaders : after.engine.loader after.host = before.engine.loader before.host := by
    rw [settings.loader_eq, deployed.loader_eq sameTree outside]
  refine ⟨views, ?_, loaders, settings.compileSource_eq loaders⟩
  rintro name ⟨location, content, modified, view⟩
  rw [settings.sourcePath_eq]
  exact sourcePath_of_sameTree sameTree view ((deployed.isView_iff sameTree outside).mpr view)

/-- A name for a view was a name for the same file before the step, at the same path, and
the file was the same unless the step edited it. -/
theorem Effect.view_before (effect : Effect place before action after)
    (deployed : before.engine.Deployed before.host directory place)
    {name : Text} {location : Location} {content : Content} {modified : Time}
    (view : after.engine.IsView after.host name location content modified) :
    (∃ old written, before.engine.IsView before.host name location old written ∧
      (old = content ∧ written = modified ∨ action = .edit location content modified)) ∧
      after.engine.sourcePath after.host name = before.engine.sourcePath before.host name := by
  by_cases keeps : action.KeepsViews
  · have same := effect.sameViews deployed keeps
    have oldView := (same.isView_iff ..).mp view
    exact ⟨⟨_, _, oldView, .inl ⟨rfl, rfl⟩⟩, same.sourcePath_eq name ⟨_, _, _, oldView⟩⟩
  · cases effect with
    | cleared keepsViews => exact absurd keepsViews keeps
    | compiled => exact absurd nofun keeps
    | edited editedView same changed =>
        have newView := same.isView_iff.mp view
        rw [same.sourcePath_eq]
        refine ⟨?_, (hasView_of_edit editedView changed ⟨_, _, _, newView⟩).2⟩
        rcases (isView_edit_iff editedView changed).mp newView with
          ⟨rfl, rfl, rfl, _, _, oldView⟩ | ⟨-, oldView⟩
        · exact ⟨_, _, oldView, .inr rfl⟩
        · exact ⟨_, _, oldView, .inl ⟨rfl, rfl⟩⟩

namespace Run

/-- A run keeps an engine deployed, and its settings. -/
theorem deployed (run : Run allowed start trace finish)
    (deployed : start.engine.Deployed start.host directory place) :
    finish.engine.Deployed finish.host directory place ∧
      start.engine.SameSettings finish.engine := by
  induction run with
  | start => exact ⟨deployed, .refl _⟩
  | step _ _ step induction =>
      have effect := step.effect induction.1
      exact ⟨effect.deployed induction.1, induction.2.trans effect.sameSettings⟩

/-- A name for a view after a run was a name for the same file from the start. -/
theorem view_before (run : Run allowed start trace finish)
    (deployed : start.engine.Deployed start.host directory place)
    {name : Text} {location : Location} {content : Content} {modified : Time}
    (view : finish.engine.IsView finish.host name location content modified) :
    (∃ old written, start.engine.IsView start.host name location old written) ∧
      finish.engine.sourcePath finish.host name = start.engine.sourcePath start.host name := by
  induction run generalizing content modified with
  | start => exact ⟨⟨_, _, view⟩, rfl⟩
  | step run _ step induction =>
      have reached := (run.deployed deployed).1
      obtain ⟨⟨_, _, oldView, -⟩, pathEq⟩ := (step.effect reached).view_before reached view
      rw [pathEq]
      exact induction oldView

end Run

end Scriptlet.Engine
