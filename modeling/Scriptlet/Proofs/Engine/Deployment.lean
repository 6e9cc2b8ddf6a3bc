import Scriptlet.Proofs.Cache.Store
import Scriptlet.Proofs.Engine.View

/-!
# Deployed engines

An engine is deployed on a host where its store serves, where no view is an artifact, and
where different views have different keys.  Changing artifacts or the content of a view
keeps it deployed, and what a name stands for changes with the content of its file only.
-/

namespace Scriptlet.Engine

open Host

structure Deployed (engine : Engine) (host : Host) (directory : Text) (place : Location) :
    Prop where
  tree : host.IsTree
  serves : engine.cache.Serves host directory place
  /-- No view name leads to where an artifact is or can be. -/
  apart : ∀ name ending, host.walk true (engine.viewPath name) = .ok ending →
    ∀ artifact, Cache.isArtifactName artifact = true → ending.location ≠ place ++ [artifact]
  /-- The digests of the paths of views do not collide. -/
  distinct : ∀ first second, engine.HasView host first → engine.WithinReach host first →
    engine.HasView host second → engine.WithinReach host second →
    Cache.key (engine.sourcePath host first) = Cache.key (engine.sourcePath host second) →
    engine.sourcePath host first = engine.sourcePath host second

variable {engine other : Engine} {host before after : Host} {directory name artifact : Text}
  {place location target : Location} {content newContent : Content} {modified written : Time}
  {left? : Option Entry}

theorem sourcePath_of_sameTree (same : before.SameTree after) {newLocation : Location}
    (view : engine.IsView before name location content modified)
    (newView : engine.IsView after name newLocation newContent written) :
    engine.sourcePath after name = engine.sourcePath before name := by
  obtain ⟨ending, walked, isMatch⟩ := same.walk (find_eq_ok view)
  rw [find_eq_ok newView] at walked
  cases walked
  have here : newLocation = location := isMatch.location_eq
  subst here
  exact same.absolute_eq view newView

/-- A change of the file of a view. -/
theorem sameTree_of_edit (view : engine.IsView before name target content modified)
    (changed : ChangedAt before target (some (.file newContent written)) after) :
    before.SameTree after := by
  refine changed.sameTree ?_ (.file _ _)
  rw [view.lookup?_eq]
  exact .file _ _

/-- An edited file is what every name for it stands for, and other views stay. -/
theorem isView_edit_iff (view : engine.IsView before name target content modified)
    (changed : ChangedAt before target (some (.file newContent written)) after)
    {viewName : Text} {found : Content} {time : Time} :
    engine.IsView after viewName location found time ↔
      (target = location ∧ newContent = found ∧ written = time ∧
        ∃ content modified, engine.IsView before viewName target content modified) ∨
      target ≠ location ∧ engine.IsView before viewName location found time := by
  have same := sameTree_of_edit view changed
  by_cases here : target = location
  · subst here
    simp only [true_and, ne_eq, not_true_eq_false, false_and, or_false]
    constructor
    · intro newView
      have there := newView.lookup?_eq
      rw [changed.lookup?_self] at there
      cases there
      exact ⟨rfl, rfl, content, modified, same.symm.find_other_file newView view.lookup?_eq⟩
    · rintro ⟨rfl, rfl, oldContent, oldModified, oldView⟩
      exact same.find_other_file oldView changed.lookup?_self
  · have kept := changed.lookup?_of_ne here
    simp only [here, false_and, ne_eq, not_false_eq_true, true_and, false_or]
    exact ⟨fun newView => same.symm.find_file newView kept.symm,
      fun oldView => same.find_file oldView kept⟩

theorem IsView.changedAt_put (view : engine.IsView before name target content modified)
    (newContent : Content) (written : Time) :
    ChangedAt before target (some (.file newContent written))
      (before.put target (.file newContent written)) := by
  refine Host.changedAt_put ?_ _
  rintro rfl
  cases view.lookup?_eq

/-- After an edit a name stands for a view only where it did before, at the same path. -/
theorem hasView_of_edit (view : engine.IsView before name target content modified)
    (changed : ChangedAt before target (some (.file newContent written)) after)
    {viewName : Text} (newView : engine.HasView after viewName) :
    engine.HasView before viewName ∧
      engine.sourcePath after viewName = engine.sourcePath before viewName := by
  have same := sameTree_of_edit view changed
  obtain ⟨location, found, time, newView⟩ := newView
  obtain ⟨oldFound, oldTime, oldView⟩ : ∃ oldFound oldTime,
      engine.IsView before viewName location oldFound oldTime := by
    rcases (isView_edit_iff view changed).mp newView with ⟨rfl, -, -, oldView⟩ | ⟨-, oldView⟩
    · exact oldView
    · exact ⟨found, time, oldView⟩
  exact ⟨⟨_, _, _, oldView⟩, sourcePath_of_sameTree same oldView newView⟩

namespace Deployed

/-- A view is not in a slot of the store. -/
theorem ne_slot (deployed : engine.Deployed host directory place)
    (view : engine.IsView host name location content modified)
    (isArtifact : Cache.isArtifactName artifact = true) : location ≠ place ++ [artifact] :=
  deployed.apart name _ (find_eq_ok view) artifact isArtifact

/-- A change in the slot of one view is a change for that view alone, whatever names the
view has. -/
theorem slot_cases (deployed : engine.Deployed host directory place)
    (view : engine.IsView host name location content modified)
    (within : engine.WithinReach host name)
    (changed : ChangedAt host (Cache.slot place (engine.sourcePath host name)) left? after)
    {otherName : Text} {otherLocation : Location} {otherContent : Content} {otherModified : Time}
    (otherView : engine.IsView host otherName otherLocation otherContent otherModified)
    (otherWithin : engine.WithinReach host otherName) :
    (engine.sourcePath host otherName = engine.sourcePath host name ∧
      otherLocation = location ∧ otherContent = content ∧ otherModified = modified ∧
      after.lookup? (Cache.slot place (engine.sourcePath host otherName)) = left?) ∨
    engine.sourcePath host otherName ≠ engine.sourcePath host name ∧
      after.lookup? (Cache.slot place (engine.sourcePath host otherName)) =
        host.lookup? (Cache.slot place (engine.sourcePath host otherName)) := by
  by_cases equal : engine.sourcePath host otherName = engine.sourcePath host name
  · obtain ⟨sameLocation, sameContent, sameTime⟩ :=
      isView_of_sourcePath_eq deployed.tree view otherView within equal
    refine .inl ⟨equal, sameLocation, sameContent, sameTime, ?_⟩
    rw [equal, changed.lookup?_self]
  · -- views in one slot have one key, and keys do not collide
    refine .inr ⟨equal, changed.lookup?_of_ne fun slots => equal ?_⟩
    obtain ⟨-, keys⟩ := List.append_inj' slots rfl
    simp only [List.cons.injEq, and_true] at keys
    exact (deployed.distinct name otherName ⟨_, _, _, view⟩ within ⟨_, _, _, otherView⟩
      otherWithin keys).symm

/-- An engine with the same settings is deployed too. -/
theorem of_settings (deployed : engine.Deployed host directory place)
    (same : engine.SameSettings other) : other.Deployed host directory place where
  tree := deployed.tree
  serves := same.cache_eq ▸ deployed.serves
  apart name ending walked := deployed.apart name ending (same.viewPath_eq name ▸ walked)
  distinct first second firstView firstWithin secondView secondWithin := by
    rw [WithinReach, same.sourcePath_eq] at firstWithin secondWithin
    rw [same.sourcePath_eq, same.sourcePath_eq]
    exact deployed.distinct first second (same.hasView_iff.mp firstView) firstWithin
      (same.hasView_iff.mp secondView) secondWithin

/-- A deployed engine stays deployed on a host with the same directories and links and
with views in the same files, where all that is new has a name in a directory. -/
theorem of_sameTree (deployed : engine.Deployed before directory place)
    (same : before.SameTree after)
    (views : ∀ name, engine.HasView after name → engine.HasView before name)
    (artifacts : ∀ name, Cache.isArtifactName name = true →
      Cache.IsCode (after.lookup? (place ++ [name])))
    (fresh : ∀ location name entry, after.lookup? (location ++ [name]) = some entry →
      before.lookup? (location ++ [name]) = none → IsName name ∧ before.IsDirectoryAt location) :
    engine.Deployed after directory place where
  tree := deployed.tree.of_sameTree same fresh
  serves := deployed.serves.of_sameTree same artifacts
  apart name ending walked artifact isArtifact := by
    obtain ⟨other, otherWalked, isMatch⟩ := same.symm.walk walked
    rw [← isMatch.location_eq]
    exact deployed.apart name other otherWalked artifact isArtifact
  distinct first second firstView firstWithin secondView secondWithin := by
    have unchanged : ∀ name, engine.HasView after name →
        engine.sourcePath after name = engine.sourcePath before name := by
      intro name view
      obtain ⟨_, _, _, old⟩ := views name view
      obtain ⟨_, _, _, new⟩ := view
      exact sourcePath_of_sameTree same old new
    rw [WithinReach, unchanged first firstView] at firstWithin
    rw [WithinReach, unchanged second secondView] at secondWithin
    rw [unchanged first firstView, unchanged second secondView]
    exact deployed.distinct first second (views first firstView) firstWithin
      (views second secondView) secondWithin

/-! ## Changes of artifacts -/

/-- Views do not change with artifacts. -/
theorem isView_iff (deployed : engine.Deployed before directory place)
    (same : before.SameTree after) (outside : Cache.SameOutside place before after) :
    engine.IsView after name location content modified ↔
      engine.IsView before name location content modified := by
  constructor
  · intro view
    obtain ⟨other, walked, isMatch⟩ := same.symm.walk (find_eq_ok view)
    have here : other.location = location := isMatch.location_eq
    refine same.symm.find_file view (outside.lookup?_eq location fun artifact isArtifact => ?_).symm
    rw [← here]
    exact deployed.apart name other walked artifact isArtifact
  · intro view
    exact same.find_file view (outside.lookup?_eq location fun artifact isArtifact =>
      deployed.ne_slot view isArtifact)

theorem loader_eq (deployed : engine.Deployed before directory place)
    (same : before.SameTree after) (outside : Cache.SameOutside place before after) :
    engine.loader after = engine.loader before :=
  loader_congr fun _ _ => exists₂_congr fun _ _ => deployed.isView_iff same outside

/-- A change of an artifact. -/
theorem sameTree_of_slot (deployed : engine.Deployed before directory place)
    (changed : ChangedAt before (place ++ [artifact]) left? after)
    (isArtifact : Cache.isArtifactName artifact = true) (isCode : Cache.IsCode left?) :
    before.SameTree after :=
  changed.sameTree (deployed.serves.artifacts artifact isArtifact).isLeaf isCode.isLeaf

theorem of_slot (deployed : engine.Deployed before directory place)
    (changed : ChangedAt before (place ++ [artifact]) left? after)
    (isArtifact : Cache.isArtifactName artifact = true) (isName : IsName artifact)
    (isCode : Cache.IsCode left?) : engine.Deployed after directory place := by
  have same := deployed.sameTree_of_slot changed isArtifact isCode
  have outside := Cache.sameOutside_of_changedAt changed isArtifact
  refine deployed.of_sameTree same ?_
    (fun name => deployed.serves.artifacts_of_changedAt changed isCode) ?_
  · rintro name ⟨location, content, modified, view⟩
    exact ⟨location, content, modified, (deployed.isView_iff same outside).mp view⟩
  · intro location name entry found missing
    by_cases here : place ++ [artifact] = location ++ [name]
    · obtain ⟨rfl, equal⟩ := List.append_inj' here rfl
      obtain ⟨written, -, there⟩ := deployed.serves.found
      cases equal
      exact ⟨isName, written, there⟩
    · rw [changed.lookup?_of_ne here, missing] at found
      cases found

theorem sameTree_of_cleared (deployed : engine.Deployed before directory place)
    (cleared : Cache.Cleared place before after) : before.SameTree after :=
  deployed.serves.sameTree cleared.sameOutside fun _ =>
    deployed.serves.artifacts_of_cleared cleared

theorem of_cleared (deployed : engine.Deployed before directory place)
    (cleared : Cache.Cleared place before after) : engine.Deployed after directory place := by
  have same := deployed.sameTree_of_cleared cleared
  refine deployed.of_sameTree same ?_
    (fun name => deployed.serves.artifacts_of_cleared cleared) ?_
  · rintro name ⟨location, content, modified, view⟩
    exact ⟨location, content, modified,
      (deployed.isView_iff same cleared.sameOutside).mp view⟩
  · intro location name entry found missing
    rw [cleared.lookup?_of_some found] at missing
    cases missing

/-! ## Changes of the content of views -/

theorem lookup?_slot_of_edit (deployed : engine.Deployed before directory place)
    (view : engine.IsView before name target content modified)
    (changed : ChangedAt before target left? after) (sourcePath : Text) :
    after.lookup? (Cache.slot place sourcePath) = before.lookup? (Cache.slot place sourcePath) :=
  changed.lookup?_of_ne (deployed.ne_slot view (Cache.isArtifactName_key sourcePath))

theorem of_edit (deployed : engine.Deployed before directory place)
    (view : engine.IsView before name target content modified)
    (changed : ChangedAt before target (some (.file newContent written)) after) :
    engine.Deployed after directory place := by
  have same := sameTree_of_edit view changed
  refine deployed.of_sameTree same ?_ (fun artifact isArtifact => ?_) ?_
  · exact fun viewName newView => (hasView_of_edit view changed newView).1
  · rw [changed.lookup?_of_ne (deployed.ne_slot view isArtifact)]
    exact deployed.serves.artifacts artifact isArtifact
  · intro location name entry found missing
    by_cases here : target = location ++ [name]
    · rw [← here, view.lookup?_eq] at missing
      cases missing
    · rw [changed.lookup?_of_ne here, missing] at found
      cases found

end Deployed

end Scriptlet.Engine
