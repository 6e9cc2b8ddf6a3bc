import Scriptlet.Proofs.Engine.Site

/-!
# The store is transparent

While no view is edited, every stored artifact is what its view compiles to.  So a render
answers what a compile of the view answers, with one exception: the engine asks for the
modification time of a view under its absolute path, and that path can be too long where
the path of the view is not.
-/

namespace Scriptlet.Engine

open Host

/-- A view whose absolute path is longer than paths can be. -/
def OutOfReach (engine : Engine) (host : Host) (name : Text) : Prop :=
  engine.HasView host name ∧ ¬engine.WithinReach host name

/-- Some dry render of a view answers this. -/
def Renders (engine : Engine) (host : Host) (name : Text) (data : Json.Value)
    (result : Except Failure Text) : Prop :=
  ∃ bound outcome, engine.render .dryRun bound host name data = some outcome ∧
    outcome.result = result

/-- Runs without edits: renders, removals of artifacts, other settings for the time to live,
and any clock. -/
def LeavesViews (_ : List Event) (_ : Session) (action : Action) : Prop :=
  action.KeepsViews

/-- Every artifact in the slot of a view is what the view compiles to. -/
def Faithful (place : Location) (session : Session) : Prop :=
  ∀ name location content modified code written,
    session.engine.IsView session.host name location content modified →
    session.engine.WithinReach session.host name →
    session.host.lookup? (Cache.slot place (session.engine.sourcePath session.host name)) =
      some (.file (.text code) written) →
    ∃ source bound diagnostics, content = .text source ∧
      session.engine.compileSource bound session.host source = some (code, diagnostics)

variable {start before after finish : Session} {action : Action} {trace : List Event}
  {directory : Text} {place : Location}

theorem Effect.faithful (effect : Effect place before action after)
    (deployed : before.engine.Deployed before.host directory place) (keeps : action.KeepsViews)
    (faithful : Faithful place before) : Faithful place after := by
  have same := effect.sameViews deployed keeps
  intro name location content modified code written view within stored
  have oldView := (same.isView_iff ..).mp view
  rw [WithinReach, same.sourcePath_eq name ⟨_, _, _, oldView⟩] at within
  rw [same.sourcePath_eq name ⟨_, _, _, oldView⟩] at stored
  simp only [same.compileSource_eq]
  cases effect with
  | cleared _ _ cleared =>
      exact faithful name location content modified code written oldView within
        (cleared.lookup?_of_some stored)
  | compiled compiledView compiledWithin ran _ changed =>
      rcases deployed.slot_cases compiledView compiledWithin changed oldView within with
        ⟨-, -, contentEq, -, replaced⟩ | ⟨-, kept⟩
      · rw [stored] at replaced
        cases replaced
        exact ⟨_, _, _, contentEq, ran⟩
      · exact faithful name location content modified code written oldView within
          (kept.symm.trans stored)
  | edited => exact absurd rfl (keeps _ _ _)

theorem Run.faithful (run : Run LeavesViews start trace finish)
    (deployed : start.engine.Deployed start.host directory place)
    (vacant : Cache.Vacant start.host place) : Faithful place finish := by
  induction run with
  | start =>
      intro name location content modified code written _ _ stored
      rw [vacant.lookup?_slot] at stored
      cases stored
  | step run keeps step induction =>
      have reached := (run.deployed deployed).1
      exact (step.effect reached).faithful reached keeps induction

/-- A render answers what a compile of the view answers. -/
private theorem compilesView_of_rendering {engine : Engine} {host : Host} {name : Text}
    {outcome : Outcome Text} (faithful : Faithful place ⟨engine, host⟩)
    (reached : ¬engine.OutOfReach host name)
    (rendering : Rendering engine host place name outcome) :
    ∃ answer, engine.CompilesView host name answer ∧ answer.map Prod.fst = outcome.result := by
  cases rendering with
  | missing missing => exact ⟨_, ⟨0, compileView_of_error (load_of_missing missing) 0⟩, rfl⟩
  | outOfReach view outside => exact absurd ⟨⟨_, _, _, view⟩, outside⟩ reached
  | served view within stored _ =>
      -- whatever the policy made of its age, the artifact is a compile of the view
      obtain ⟨source, bound, diagnostics, rfl, ran⟩ := faithful _ _ _ _ _ _ view within stored
      exact ⟨_, compilesView_of_compileSource view ran, rfl⟩
  | compiled view _ _ ran _ => exact ⟨_, compilesView_of_compileSource view ran, rfl⟩
  | unreadable view => exact ⟨_, ⟨0, compileView_of_error (load_of_undecodable view) 0⟩, rfl⟩

/-- In every run that leaves views alone, a render of a view answers exactly what a
compile of it answers, unless the view is out of reach. -/
theorem renders_iff_compilesView
    (deployed : start.engine.Deployed start.host directory place)
    (vacant : Cache.Vacant start.host place)
    (run : Run LeavesViews start trace finish)
    (name : Text) (data : Json.Value) (result : Except Failure Text) :
    finish.engine.Renders finish.host name data result ↔
      finish.engine.OutOfReach finish.host name ∧ result = .error (.file .nameTooLong) ∨
      ¬finish.engine.OutOfReach finish.host name ∧
        ∃ answer, finish.engine.CompilesView finish.host name answer ∧
          answer.map Prod.fst = result := by
  have reached := (run.deployed deployed).1
  have faithful := run.faithful deployed vacant
  constructor
  · rintro ⟨bound, outcome, ran, rfl⟩
    have rendering := reached.rendering_of_render ran
    by_cases outside : finish.engine.OutOfReach finish.host name
    · refine .inl ⟨outside, ?_⟩
      cases rendering with
      | missing missing => exact absurd outside.1 missing
      | outOfReach => rfl
      | served _ within | compiled _ within | unreadable _ within => exact absurd within outside.2
    · exact .inr ⟨outside, compilesView_of_rendering faithful outside rendering⟩
  · rintro (⟨⟨⟨location, content, modified, view⟩, beyond⟩, rfl⟩ | ⟨within, answer, compiles, rfl⟩)
    · exact ⟨0, _, render_of_not_withinReach reached.tree view beyond, rfl⟩
    · obtain ⟨bound, ran⟩ := compiles
      obtain ⟨outcome, rendered⟩ := reached.exists_render ran data
      refine ⟨bound, outcome, rendered, ?_⟩
      obtain ⟨other, otherCompiles, same⟩ :=
        compilesView_of_rendering faithful within (reached.rendering_of_render rendered)
      rw [← same, compilesView_unique otherCompiles ⟨bound, ran⟩]

/-- The artifact of a view outlives a long wait and a change of the time to live. -/
theorem renders_iff_compilesView_at_nestingSite :
    ∃ trace finish,
      Run LeavesViews (nestingSite (some 60)) trace finish ∧
      trace.map Event.action = [.render "home" (.ok "<p>part</p>"), .wait (.ofSeconds 1000 0),
        .setTtl none] ∧
      finish.engine.Renders finish.host "home" .null (.ok "<p>part</p>") := by
  have first : Step (nestingSite (some 60)) (.render "home" (.ok "<p>part</p>"))
      ((nestingSite (some 60)).rendered 3 "home") := .of_answer (by decide +kernel)
  have run : Run LeavesViews (nestingSite (some 60)) _ _ :=
    ((Run.start.step (by rintro _ _ _ ⟨⟩) first).step (by rintro _ _ _ ⟨⟩)
      (.wait (.ofSeconds 1000 0))).step (by rintro _ _ _ ⟨⟩) (.setTtl none)
  refine ⟨_, _, run, rfl, ?_⟩
  refine (renders_iff_compilesView (keeper_deployed _ _ _) (keeper_site (some 60) _ _).isVacant run
    "home" .null _).mpr (.inr ⟨fun outside => outside.2 ?_, .ok ("<p>part</p>", []), ⟨3, ?_⟩, rfl⟩)
  · rw [WithinReach]
    decide +kernel
  · decide +kernel

/-! ## A view out of reach -/

/-- A working directory whose path is longer than paths can be. -/
def deepDirectory : Location :=
  List.replicate 16 (List.replicate 255 'a')

/-- A host with a view and a directory for artifacts, deep down from the root. -/
def deepHost : Host where
  entries := (List.range 16).map (fun depth => (deepDirectory.take (depth + 1), .directory ⟨0⟩)) ++
    [(deepDirectory ++ ["views".toList], .directory ⟨0⟩),
      (deepDirectory ++ ["cache".toList], .directory ⟨0⟩),
      (deepDirectory ++ ["views".toList, "home.view.html".toList],
        .file (.text "home") (.ofSeconds 1 0))]
  workingDirectory := deepDirectory
  now := .ofSeconds 100 0

theorem deepHost_site : (keeper (some 60)).Site deepHost "cache"
    (deepDirectory ++ ["cache".toList]) where
  stands := by decide +kernel
  working := by decide +kernel
  unlinked := by decide +kernel
  suffix_eq := rfl
  directory_eq := rfl
  found := by decide +kernel
  there := by decide +kernel
  short := by decide
  vacant := by decide +kernel

theorem byteLength_pathOf_deepDirectory (names : List Text) :
    longestPath < byteLength (pathOf (deepDirectory ++ names)) := by
  have name : byteLength (List.replicate 255 'a') = 255 := by
    rw [byteLength_of_single, List.length_replicate]
    intro character member
    rw [List.eq_of_mem_replicate member]
    rfl
  have deep := le_byteLength_pathOf_replicate 16 (List.replicate 255 'a') names
  rw [name] at deep
  exact Nat.lt_of_lt_of_le (by decide) deep

theorem deepHost_not_withinReach {name : Text}
    (hasView : (keeper (some 60)).HasView deepHost name) :
    ¬(keeper (some 60)).WithinReach deepHost name := by
  obtain ⟨location, content, modified, view⟩ := hasView
  have deep : longestPath < byteLength (pathOf deepHost.workingDirectory) := by
    have longer := byteLength_pathOf_deepDirectory []
    rwa [List.append_nil] at longer
  apply deepHost_site.not_withinReach_of_far (by decide) deep view
  have listed := deepHost_site.mem_entries view
  rw [deepHost, List.mem_append] at listed
  rcases listed with above | below
  · obtain ⟨depth, -, equal⟩ := List.mem_map.mp above
    cases (Prod.mk.inj equal).2
  · simp only [List.mem_cons, Prod.mk.injEq, reduceCtorEq, and_false, false_or,
      List.not_mem_nil, or_false] at below
    rw [below.1]
    exact byteLength_pathOf_deepDirectory _

theorem deepHost_deployed : (keeper (some 60)).Deployed deepHost "cache"
    (deepDirectory ++ ["cache".toList]) :=
  deepHost_site.deployed fun _ _ firstView firstWithin =>
    absurd firstWithin (deepHost_not_withinReach firstView)

/-- Deep down from the root a view compiles, and its render is refused a path that the
engine made itself. -/
theorem deepHost_render_differs :
    (keeper (some 60)).Deployed deepHost "cache" (deepDirectory ++ ["cache".toList]) ∧
      Cache.Vacant deepHost (deepDirectory ++ ["cache".toList]) ∧
      (keeper (some 60)).compileView 1 deepHost "home" = some (.ok ("home", [])) ∧
      (keeper (some 60)).render .dryRun 1 deepHost "home" .null =
        some ⟨.error (.file .nameTooLong), keeper (some 60), deepHost⟩ := by
  obtain ⟨compiled, view⟩ :
      (keeper (some 60)).compileView 1 deepHost "home" = some (.ok ("home", [])) ∧
        (keeper (some 60)).IsView deepHost "home"
          (deepDirectory ++ ["views".toList, "home.view.html".toList]) (.text "home")
          (.ofSeconds 1 0) := by
    rw [IsView]
    decide +kernel
  refine ⟨deepHost_deployed, deepHost_site.isVacant, compiled, ?_⟩
  exact render_of_not_withinReach deepHost_site.isTree view
    (deepHost_not_withinReach ⟨_, _, _, view⟩)

end Scriptlet.Engine
