import Scriptlet.Proofs.Compilation.Idle
import Scriptlet.Proofs.Engine.Site

/-!
# Exact modification times

With exact modification times an artifact carries the second in which its source was
modified.  While no second is used twice for a file, the second tells which content the
artifact was compiled from.  So a render answers what the present content compiles to,
as long as views that other views nest are not edited.
-/

namespace Scriptlet

/-- Compiling a source loads no views but these: it gives the same with every loader that
serves them alike. -/
def Compiler.NestsOnly (compiler : Compiler) (nested : Text → Prop) (source : Text) : Prop :=
  ∀ loader : View.Loader,
    (∀ name, nested name → loader.load name = compiler.loader.load name) →
    ∀ bound, (({ compiler with loader } : Compiler).compile bound source).run {} =
      (compiler.compile bound source).run {}

namespace Engine

open Host

/-- A second in which a file was modified, at the start or by an edit since. -/
def Used (start : Host) (trace : List Event) (location : Location) (second : Nat) : Prop :=
  (∃ content modified, start.lookup? location = some (.file content modified) ∧
    modified.wholeSeconds = second) ∨
  ∃ event ∈ trace, ∃ content modified, event.action = .edit location content modified ∧
    modified.wholeSeconds = second

/-- Edits of views that are not nested, each in a second of its own, under exact
modification times. -/
def AllowsFreshEdits (start : Session) (nested : Text → Prop) (trace : List Event)
    (session : Session) : Action → Prop
  | .edit location content modified =>
      ¬Used start.host trace location modified.wholeSeconds ∧
      (∀ name, nested name → ∀ old written,
        ¬session.engine.IsView session.host name location old written) ∧
      ∀ source, content = .text source →
        (start.engine.compiler start.host).NestsOnly nested source
  | .setTtl ttl? => ttl? = none
  | _ => True

/-- The second on an artifact tells which content of its source it was compiled from. -/
structure Dated (start : Session) (nested : Text → Prop) (place : Location)
    (trace : List Event) (session : Session) : Prop where
  ttl?_eq : session.engine.config.ttl? = none
  load_eq : ∀ name, nested name →
    (session.engine.loader session.host).load name = (start.engine.loader start.host).load name
  nestsOnly : ∀ name location source modified,
    session.engine.IsView session.host name location (.text source) modified →
    (start.engine.compiler start.host).NestsOnly nested source
  used : ∀ name location content modified,
    session.engine.IsView session.host name location content modified →
    Used start.host trace location modified.wholeSeconds
  stamped : ∀ name location content modified code stamp,
    session.engine.IsView session.host name location content modified →
    session.engine.WithinReach session.host name →
    session.host.lookup? (Cache.slot place (session.engine.sourcePath session.host name)) =
      some (.file (.text code) stamp) →
    Used start.host trace location stamp.wholeSeconds ∧
      (stamp.wholeSeconds = modified.wholeSeconds →
        ∃ source bound diagnostics, content = .text source ∧
          start.engine.compileSource bound start.host source = some (code, diagnostics))

variable {start before after finish : Session} {action : Action} {trace : List Event}
  {nested : Text → Prop} {directory name source code : Text} {place location : Location}

theorem Used.mono {host : Host} {second : Nat} (used : Used host trace location second)
    (event : Event) : Used host (trace ++ [event]) location second := by
  rcases used with atStart | ⟨earlier, listed, edited⟩
  · exact .inl atStart
  · exact .inr ⟨earlier, List.mem_append_left _ listed, edited⟩

/-- A step modifies the file of a view only in a second that is used by it. -/
theorem Effect.used {host : Host} {content : Content} {modified : Time}
    (effect : Effect place before action after)
    (deployed : before.engine.Deployed before.host directory place)
    (used : ∀ name location content modified,
      before.engine.IsView before.host name location content modified →
      Used host trace location modified.wholeSeconds)
    (view : after.engine.IsView after.host name location content modified) :
    Used host (trace ++ [⟨before, action⟩]) location modified.wholeSeconds := by
  obtain ⟨⟨_, _, oldView, ⟨rfl, rfl⟩ | rfl⟩, -⟩ := effect.view_before deployed view
  · exact (used _ _ _ _ oldView).mono _
  · exact .inr ⟨_, List.mem_append_right _ (List.mem_singleton_self _), content, modified, rfl, rfl⟩

/-- After every run a view was modified in a second that the run knows. -/
theorem Run.used {allowed : List Event → Session → Action → Prop} {content : Content}
    {modified : Time} (run : Run allowed start trace finish)
    (deployed : start.engine.Deployed start.host directory place)
    (view : finish.engine.IsView finish.host name location content modified) :
    Used start.host trace location modified.wholeSeconds := by
  induction run generalizing name location content modified with
  | start => exact .inl ⟨content, modified, view.lookup?_eq, rfl⟩
  | step run _ step induction =>
      have reached := (run.deployed deployed).1
      exact (step.effect reached).used reached (fun _ _ _ _ => induction) view

namespace Dated

theorem policy_eq (dated : Dated start nested place trace before) :
    before.engine.config.policy = .exactModification := by
  rw [Config.policy, dated.ttl?_eq]
  rfl

/-- What a source compiles to does not change while nested views stay. -/
theorem compileSource_eq (dated : Dated start nested place trace before)
    (settings : start.engine.SameSettings before.engine)
    (nestsOnly : (start.engine.compiler start.host).NestsOnly nested source) (bound : Nat) :
    before.engine.compileSource bound before.host source =
      start.engine.compileSource bound start.host source := by
  have compilers : before.engine.compiler before.host =
      { start.engine.compiler start.host with loader := before.engine.loader before.host } := by
    rw [compiler, compiler, settings.registry_eq, settings.depthLimit_eq]
  have finishes : before.engine.finish = start.engine.finish := by
    funext code
    rw [finish, finish, settings.compress_eq]
  rw [compileSource, compileSource, compilers, finishes,
    nestsOnly (before.engine.loader before.host) dated.load_eq]

/-- An edit gives a file a new second, which no artifact of it carries. -/
private theorem of_edit (dated : Dated start nested place trace before)
    (deployed : before.engine.Deployed before.host directory place)
    {old content : Content} {written modified : Time} {target : Location}
    (view : before.engine.IsView before.host name target old written)
    (settings : before.engine.SameSettings after.engine)
    (changed : ChangedAt before.host target (some (.file content modified)) after.host)
    (allowed : AllowsFreshEdits start nested trace before (.edit target content modified))
    (ttl?_eq : after.engine.config.ttl? = before.engine.config.ttl?)
    (used : ∀ name location found time,
      after.engine.IsView after.host name location found time →
      Used start.host (trace ++ [⟨before, .edit target content modified⟩]) location
        time.wholeSeconds) :
    Dated start nested place (trace ++ [⟨before, .edit target content modified⟩]) after := by
  obtain ⟨unused, untouched, contentNests⟩ := allowed
  have viewCases : ∀ {viewName location found time},
      after.engine.IsView after.host viewName location found time →
      (target = location ∧ content = found ∧ modified = time ∧
        ∃ content modified, before.engine.IsView before.host viewName target content modified) ∨
      target ≠ location ∧ before.engine.IsView before.host viewName location found time :=
    fun newView => (isView_edit_iff view changed).mp (settings.isView_iff.mp newView)
  refine ⟨ttl?_eq.trans dated.ttl?_eq, ?_, ?_, used, ?_⟩
  · intro nestedName isNested
    rw [settings.loader_eq, ← dated.load_eq nestedName isNested]
    apply load_congr
    intro found
    refine exists₂_congr fun location time => (isView_edit_iff view changed).trans ?_
    constructor
    · rintro (⟨-, -, -, oldContent, oldTime, oldView⟩ | ⟨-, oldView⟩)
      · exact absurd oldView (untouched nestedName isNested oldContent oldTime)
      · exact oldView
    · intro oldView
      refine .inr ⟨?_, oldView⟩
      rintro rfl
      exact untouched nestedName isNested _ _ oldView
  · intro viewName location source time newView
    rcases viewCases newView with ⟨-, contentEq, -, -⟩ | ⟨-, oldView⟩
    · exact contentNests source contentEq
    · exact dated.nestsOnly viewName location source time oldView
  · intro viewName location found time code stamp newView within stored
    obtain ⟨oldFound, oldTime, oldView⟩ : ∃ oldFound oldTime,
        before.engine.IsView before.host viewName location oldFound oldTime := by
      rcases viewCases newView with ⟨rfl, -, -, oldView⟩ | ⟨-, oldView⟩
      · exact oldView
      · exact ⟨_, _, oldView⟩
    have pathEq := (hasView_of_edit view changed ⟨_, _, _, settings.isView_iff.mp newView⟩).2
    rw [WithinReach, settings.sourcePath_eq, pathEq] at within
    rw [settings.sourcePath_eq, pathEq] at stored
    rw [deployed.lookup?_slot_of_edit view changed] at stored
    obtain ⟨stampUsed, compiled⟩ :=
      dated.stamped viewName location oldFound oldTime code stamp oldView within stored
    refine ⟨stampUsed.mono _, fun sameSecond => ?_⟩
    -- the stamp is a second that was used before, and the edit came with a new one
    rcases viewCases newView with ⟨rfl, -, rfl, -⟩ | ⟨-, keptView⟩
    · exact absurd (sameSecond ▸ stampUsed) unused
    · obtain ⟨-, rfl, rfl⟩ := isView_unique oldView keptView
      exact compiled sameSecond

theorem step (dated : Dated start nested place trace before)
    (deployed : before.engine.Deployed before.host directory place)
    (settings : start.engine.SameSettings before.engine)
    (allowed : AllowsFreshEdits start nested trace before action)
    (step : Step before action after) :
    Dated start nested place (trace ++ [⟨before, action⟩]) after := by
  have effect := step.effect deployed
  have used : ∀ name location content modified,
      after.engine.IsView after.host name location content modified →
      Used start.host (trace ++ [⟨before, action⟩]) location modified.wholeSeconds :=
    fun _ _ _ _ => effect.used deployed dated.used
  have stillExact : after.engine.config.ttl? = none := by
    by_cases sets : ∃ ttl?, action = .setTtl ttl?
    · obtain ⟨ttl?, rfl⟩ := sets
      cases step
      cases (allowed : ttl? = none)
      rfl
    · rw [step.ttl?_eq deployed fun ttl? isSet => sets ⟨ttl?, isSet⟩]
      exact dated.ttl?_eq
  by_cases edits : ∃ location content modified, action = .edit location content modified
  · obtain ⟨location, content, modified, rfl⟩ := edits
    cases effect with
    | cleared keeps => exact absurd rfl (keeps _ _ _)
    | edited view same changed =>
        exact dated.of_edit deployed view same changed allowed
          (stillExact.trans dated.ttl?_eq.symm) used
  have keeps : action.KeepsViews :=
    fun location content modified isEdit => edits ⟨location, content, modified, isEdit⟩
  have same := effect.sameViews deployed keeps
  refine ⟨stillExact, ?_, ?_, used, ?_⟩
  · intro nestedName isNested
    rw [same.loader_eq, dated.load_eq nestedName isNested]
  · intro viewName location source time view
    exact dated.nestsOnly viewName location source time ((same.isView_iff ..).mp view)
  · intro viewName location found time code stamp view within stored
    have oldView := (same.isView_iff ..).mp view
    rw [WithinReach, same.sourcePath_eq viewName ⟨_, _, _, oldView⟩] at within
    rw [same.sourcePath_eq viewName ⟨_, _, _, oldView⟩] at stored
    cases effect with
    | cleared _ _ cleared =>
        obtain ⟨stampUsed, compiled⟩ := dated.stamped viewName location found time code stamp
          oldView within (cleared.lookup?_of_some stored)
        exact ⟨stampUsed.mono _, compiled⟩
    | compiled compiledView compiledWithin ran _ changed =>
        rcases deployed.slot_cases compiledView compiledWithin changed oldView within with
          ⟨-, rfl, rfl, rfl, replaced⟩ | ⟨-, kept⟩
        · rw [stored, dated.policy_eq] at replaced
          cases replaced
          rw [dated.compileSource_eq settings (dated.nestsOnly _ _ _ _ compiledView)] at ran
          exact ⟨(dated.used _ _ _ _ compiledView).mono _, fun _ => ⟨_, _, _, rfl, ran⟩⟩
        · obtain ⟨stampUsed, compiled⟩ := dated.stamped viewName location found time code stamp
            oldView within (kept.symm.trans stored)
          exact ⟨stampUsed.mono _, compiled⟩
    | edited => exact absurd rfl (keeps _ _ _)

end Dated

theorem Run.dated (run : Run (AllowsFreshEdits start nested) start trace finish)
    (deployed : start.engine.Deployed start.host directory place)
    (vacant : Cache.Vacant start.host place)
    (exactTimes : start.engine.config.ttl? = none)
    (nestsOnly : ∀ name location source modified,
      start.engine.IsView start.host name location (.text source) modified →
      (start.engine.compiler start.host).NestsOnly nested source) :
    Dated start nested place trace finish := by
  induction run with
  | start =>
      refine ⟨exactTimes, fun _ _ => rfl, nestsOnly, ?_, ?_⟩
      · intro name location content modified view
        exact .inl ⟨content, modified, view.lookup?_eq, rfl⟩
      · intro name location content modified code stamp _ _ stored
        rw [vacant.lookup?_slot] at stored
        cases stored
  | step run allowed step induction =>
      obtain ⟨reached, settings⟩ := run.deployed deployed
      exact induction.step reached settings allowed step

end Engine

end Scriptlet
