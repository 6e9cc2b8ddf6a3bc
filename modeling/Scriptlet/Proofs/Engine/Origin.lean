import Scriptlet.Proofs.Engine.Freshness

/-!
# Where artifacts come from

An artifact of a view was there when a run started, or a render of the run compiled the
view and stored it.  It carries the time of its source where it was stored under exact
modification times, and the time of the clock where it was stored under a time to live.
So a render answers what its view compiles to now, or an artifact whose origin is known.
-/

namespace Scriptlet.Engine

open Host

/-- A render that found no artifact to use, compiled the view in this file, and stored the
code under this time. -/
def Event.Stores (event : Event) (place location : Location) (code : Text) (stamp : Time) :
    Prop :=
  ∃ name content modified diagnostics, event.action = .render name (.ok code) ∧
    event.session.engine.IsView event.session.host name location content modified ∧
    event.session.engine.Refuses event.session.host place
      (event.session.engine.sourcePath event.session.host name) modified ∧
    event.session.engine.CompilesView event.session.host name (.ok (code, diagnostics)) ∧
    stamp = stampTime event.session.engine.config.policy modified event.session.host.now

/-- Where the artifact of a file comes from, after a run. -/
inductive Origin (start : Session) (place : Location) (trace : List Event) (path : Text)
    (location : Location) (code : Text) (stamp : Time) : Prop
  | found :
      start.host.lookup? (Cache.slot place path) = some (.file (.text code) stamp) →
      Origin start place trace path location code stamp
  /-- It was stored under exact modification times, in a second of its source. -/
  | dated {event : Event} :
      event ∈ trace → event.Stores place location code stamp →
      event.session.engine.config.ttl? = none →
      Used start.host trace location stamp.wholeSeconds →
      Origin start place trace path location code stamp
  /-- It was stored under a time to live, at the time of the clock. -/
  | timed {event : Event} :
      event ∈ trace → event.Stores place location code stamp →
      event.session.engine.config.ttl? ≠ none → event.session.host.now = stamp →
      Origin start place trace path location code stamp

variable {allowed : List Event → Session → Action → Prop} {start before after finish : Session}
  {action : Action} {trace : List Event} {directory name path code : Text}
  {place location : Location} {content : Content} {modified stamp : Time}

theorem Origin.mono (origin : Origin start place trace path location code stamp)
    (event : Event) : Origin start place (trace ++ [event]) path location code stamp := by
  cases origin with
  | found stored => exact .found stored
  | dated member stores exactTimes used =>
      exact .dated (List.mem_append_left _ member) stores exactTimes (used.mono event)
  | timed member stores timeToLive atTime =>
      exact .timed (List.mem_append_left _ member) stores timeToLive atTime

/-- The policy of the render decides which of the two times an artifact carries. -/
theorem Event.Stores.origin {event : Event} (stores : event.Stores place location code stamp)
    (member : event ∈ trace)
    (used : ∀ name content modified,
      event.session.engine.IsView event.session.host name location content modified →
      Used start.host trace location modified.wholeSeconds) :
    Origin start place trace path location code stamp := by
  obtain ⟨name, content, modified, diagnostics, -, view, -, -, stampEq⟩ := id stores
  cases ttl? : event.session.engine.config.ttl? with
  | none =>
      rw [Config.policy, ttl?] at stampEq
      have sourceTime : stamp = modified := stampEq
      exact .dated member stores ttl? (sourceTime ▸ used name content modified view)
  | some seconds =>
      rw [Config.policy, ttl?] at stampEq
      have clockTime : stamp = event.session.host.now := stampEq
      exact .timed member stores (by simp [ttl?]) clockTime.symm

/-- Only a render brings new artifacts. -/
private theorem Effect.stored_before (effect : Effect place before action after)
    (deployed : before.engine.Deployed before.host directory place)
    (passive : ∀ name result, action ≠ .render name result)
    (stored : after.host.lookup? (Cache.slot place path) = some (.file (.text code) stamp)) :
    before.host.lookup? (Cache.slot place path) = some (.file (.text code) stamp) := by
  cases effect with
  | cleared _ _ cleared => exact cleared.lookup?_of_some stored
  | compiled => exact absurd rfl (passive _ _)
  | edited view _ changed => rwa [deployed.lookup?_slot_of_edit view changed] at stored

/-- An artifact that a view has after a render was there before, or the render stored it. -/
private theorem Rendering.stored_cases {engine : Engine} {host : Host} {rendered : Text}
    {outcome : Outcome Text} (rendering : Rendering engine host place rendered outcome)
    (deployed : engine.Deployed host directory place)
    (view : engine.IsView host name location content modified)
    (within : engine.WithinReach host name)
    (stored : outcome.host.lookup? (Cache.slot place (engine.sourcePath host name)) =
      some (.file (.text code) stamp)) :
    host.lookup? (Cache.slot place (engine.sourcePath host name)) =
        some (.file (.text code) stamp) ∨
      Event.Stores ⟨⟨engine, host⟩, .render rendered outcome.result⟩ place location code
        stamp := by
  cases rendering with
  | missing | outOfReach | served => exact .inl stored
  | compiled compiledView compiledWithin refuses ran changed =>
      rcases deployed.slot_cases compiledView compiledWithin changed view within with
        ⟨-, rfl, -, -, replaced⟩ | ⟨-, kept⟩
      · rw [stored] at replaced
        cases replaced
        exact .inr ⟨_, _, _, _, rfl, compiledView, refuses,
          compilesView_of_compileSource compiledView ran, rfl⟩
      · exact .inl (kept.symm.trans stored)
  | unreadable unreadableView unreadableWithin _ changed =>
      rcases deployed.slot_cases unreadableView unreadableWithin changed view within with
        ⟨-, -, -, -, removed⟩ | ⟨-, kept⟩
      · cases stored.symm.trans removed
      · exact .inl (kept.symm.trans stored)

/-- What a step leaves in the slot of a view was there before, or the step stored it. -/
theorem Step.stored_cases (step : Step before action after)
    (deployed : before.engine.Deployed before.host directory place)
    (view : before.engine.IsView before.host name location content modified)
    (within : before.engine.WithinReach before.host name)
    (stored : after.host.lookup? (Cache.slot place (before.engine.sourcePath before.host name)) =
      some (.file (.text code) stamp)) :
    before.host.lookup? (Cache.slot place (before.engine.sourcePath before.host name)) =
        some (.file (.text code) stamp) ∨
      Event.Stores ⟨before, action⟩ place location code stamp := by
  have effect := step.effect deployed
  cases step with
  | render ran =>
      exact (deployed.rendering_of_render ran).stored_cases deployed view within stored
  | takeDiagnostics | setTtl | delete | clear | edit | wait =>
      exact .inl (effect.stored_before deployed nofun stored)

/-- After every run, whatever it did, each artifact of a view has an origin. -/
theorem Run.origin (run : Run allowed start trace finish)
    (deployed : start.engine.Deployed start.host directory place)
    (view : finish.engine.IsView finish.host name location content modified)
    (within : finish.engine.WithinReach finish.host name)
    (stored : finish.host.lookup? (Cache.slot place (finish.engine.sourcePath finish.host name)) =
      some (.file (.text code) stamp)) :
    Origin start place trace (finish.engine.sourcePath finish.host name) location code
      stamp := by
  induction run generalizing content modified with
  | start => exact .found stored
  | step run _ step induction =>
      have reached := (run.deployed deployed).1
      obtain ⟨⟨_, _, oldView, -⟩, pathEq⟩ := (step.effect reached).view_before reached view
      rw [WithinReach, pathEq] at within
      rw [pathEq] at stored ⊢
      rcases step.stored_cases reached oldView within stored with earlier | stores
      · exact (induction oldView within earlier).mono _
      · exact stores.origin (List.mem_append_right _ (List.mem_singleton_self _))
          fun _ _ _ view => (run.used deployed view).mono _

/-- A successful dry render compiled its view because nothing stored was accepted, or it
served what was. -/
private theorem Rendering.answer_cases {engine : Engine} {host : Host} {outcome : Outcome Text}
    (rendering : Rendering engine host place name outcome)
    (succeeded : outcome.result = .ok code) :
    ∃ location content modified, engine.IsView host name location content modified ∧
      engine.WithinReach host name ∧
      (engine.Refuses host place (engine.sourcePath host name) modified ∧
          (∃ diagnostics, engine.CompilesView host name (.ok (code, diagnostics))) ∨
        ∃ stamp, host.lookup? (Cache.slot place (engine.sourcePath host name)) =
            some (.file (.text code) stamp) ∧
          engine.config.policy.accepts stamp modified host.now = true) := by
  cases rendering with
  | missing | outOfReach | unreadable => cases succeeded
  | served view within stored accepted =>
      cases succeeded
      exact ⟨_, _, _, view, within, .inr ⟨_, stored, accepted⟩⟩
  | compiled view within refuses ran _ =>
      cases succeeded
      exact ⟨_, _, _, view, within,
        .inl ⟨refuses, _, compilesView_of_compileSource view ran⟩⟩

/-- After every run, a successful render answers what its view compiles to now, where no
artifact is accepted, and an accepted artifact otherwise, whose origin is known. -/
theorem Run.answer_cases (run : Run allowed start trace finish)
    (deployed : start.engine.Deployed start.host directory place)
    {bound : Nat} {data : Json.Value} {outcome : Outcome Text}
    (ran : finish.engine.render .dryRun bound finish.host name data = some outcome)
    (succeeded : outcome.result = .ok code) :
    ∃ location content modified,
      finish.engine.IsView finish.host name location content modified ∧
      finish.engine.WithinReach finish.host name ∧
      (finish.engine.Refuses finish.host place (finish.engine.sourcePath finish.host name)
            modified ∧
          (∃ diagnostics,
            finish.engine.CompilesView finish.host name (.ok (code, diagnostics))) ∨
        ∃ stamp, finish.host.lookup?
            (Cache.slot place (finish.engine.sourcePath finish.host name)) =
              some (.file (.text code) stamp) ∧
          finish.engine.config.policy.accepts stamp modified finish.host.now = true ∧
          Origin start place trace (finish.engine.sourcePath finish.host name) location code
            stamp) := by
  have rendering := (run.deployed deployed).1.rendering_of_render ran
  obtain ⟨location, content, modified, view, within, compiled | ⟨stamp, stored, accepted⟩⟩ :=
    rendering.answer_cases succeeded
  · exact ⟨location, content, modified, view, within, .inl compiled⟩
  · exact ⟨location, content, modified, view, within,
      .inr ⟨stamp, stored, accepted, run.origin deployed view within stored⟩⟩

end Scriptlet.Engine
