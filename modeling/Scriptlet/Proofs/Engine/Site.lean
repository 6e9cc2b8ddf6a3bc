import Scriptlet.Proofs.Engine.Run
import Scriptlet.Proofs.Path.Resolution

/-!
# Sites

A site is a host without links whose view files keep the default suffix, with a free
directory for artifacts.  Every engine on a site is deployed, since no view name can lead
to an artifact, and all of this can be read off the entries of the host.
-/

namespace Scriptlet

theorem Cache.isArtifactName_defaultSuffix (stem : Text) :
    isArtifactName (stem ++ View.defaultSuffix) = false := by
  have reversed : (stem ++ View.defaultSuffix).reverse =
      "lmth".toList ++ '.' :: 'w' :: ("eiv.".toList ++ stem.reverse) :=
    List.reverse_append ..
  have extension : Path.extension? (stem ++ View.defaultSuffix) = some "html".toList := by
    rw [Path.extension?, reversed]
    rfl
  rw [isArtifactName, extension]
  rfl

namespace Engine

open Host

variable {engine : Engine} {host : Host} {directory name : Text} {place location : Location}
  {content : Content} {modified : Time}

/-- An engine on a host without links, with a directory that holds no artifacts. -/
structure Site (engine : Engine) (host : Host) (directory : Text) (place : Location) :
    Prop where
  stands : ∀ entry ∈ host.entries, host.Stands entry.1
  working : host.IsDirectoryAt host.workingDirectory
  unlinked : ∀ entry ∈ host.entries, entry.2.modified?.isSome
  suffix_eq : engine.config.suffix = View.defaultSuffix
  directory_eq : engine.cache.directory? = some directory
  found : host.find directory =
    .ok (place, (host.lookup? place).getD (.directory ⟨0⟩))
  there : host.IsDirectoryAt place
  short : byteLength directory + 69 ≤ longestPath
  vacant : ∀ location ∈ host.entries.map Prod.fst, location.dropLast = place →
    ∀ name ∈ location.getLast?, Cache.isArtifactName name = false

/-- Below a relative directory the path of every view is relative. -/
theorem isAbsolute_viewPath (suffix : Path.IsPart engine.config.suffix)
    (relative : Path.isAbsolute engine.config.viewsDirectory = false) (name : Text) :
    Path.isAbsolute (engine.viewPath name) = false := by
  have stays : ¬View.Escapes name engine.config.suffix := fun escapes =>
    Bool.noConfusion (suffix.not_isAbsolute.symm.trans escapes.2)
  exact (View.startsFrom_resolvePath stays _).isAbsolute_eq.trans relative

/-- The path of every view ends with the suffix. -/
theorem exists_viewPath_eq (engine : Engine) (name : Text) :
    ∃ front, engine.viewPath name = front ++ engine.config.suffix := by
  have suffixed : ∃ front, View.withSuffix engine.config.suffix (View.dropSlashes name) =
      front ++ engine.config.suffix := by
    rw [View.withSuffix]
    split
    · rename_i isSuffix
      obtain ⟨front, equal⟩ := List.isSuffixOf_iff_suffix.mp isSuffix
      exact ⟨front, equal.symm⟩
    · exact ⟨_, rfl⟩
  obtain ⟨front, suffixed⟩ := suffixed
  rw [viewPath, View.resolvePath, suffixed, Path.join]
  split
  · exact ⟨front, rfl⟩
  · split
    · exact ⟨engine.config.viewsDirectory ++ front, (List.append_assoc ..).symm⟩
    · exact ⟨engine.config.viewsDirectory ++ '/' :: front, by simp⟩

namespace Site

variable (site : engine.Site host directory place)

include site

theorem isTree : host.IsTree :=
  isTree_of_entries site.stands site.working

theorem lookup?_ne_link (target : Text) :
    host.lookup? (location ++ [name]) ≠ some (.link target) := by
  intro found
  have isSome := site.unlinked _ (mem_entries_of_lookup? found)
  cases isSome

theorem isVacant : Cache.Vacant host place := by
  intro artifact isArtifact
  cases found : host.lookup? (place ++ [artifact]) with
  | none => rfl
  | some entry =>
      have vacant := site.vacant _ (List.mem_map_of_mem (mem_entries_of_lookup? found)) (by simp)
        artifact (by simp)
      exact Bool.noConfusion (vacant.symm.trans isArtifact)

theorem serves : engine.cache.Serves host directory place where
  directory_eq := site.directory_eq
  found := by
    obtain ⟨modified, there⟩ := site.there
    have found := site.found
    rw [there] at found
    exact ⟨modified, found, there⟩
  short sourcePath :=
    Nat.le_trans ((Cache.isKey_key sourcePath).byteLength_join_le directory) site.short
  artifacts name isArtifact := .inl (site.isVacant name isArtifact)

/-- Every view name leads to a name with the suffix of views. -/
theorem exists_location_of_walk {ending : Place}
    (walked : host.walk true (engine.viewPath name) = .ok ending) :
    ∃ front stem, ending.location = front ++ [stem ++ View.defaultSuffix] := by
  have isPart : Path.IsPart View.defaultSuffix := by decide
  obtain ⟨front, pathEq⟩ := exists_viewPath_eq engine name
  rw [site.suffix_eq] at pathEq
  obtain ⟨-, -, -, walkedFrom⟩ := walk_eq_ok walked
  obtain ⟨before, stem, namesEq⟩ := Path.names_append_isPart isPart front
  rw [pathEq, steps_of_unended (isPart.not_endsWithSlash front), namesEq] at walkedFrom
  have longer : 2 < (stem ++ View.defaultSuffix).length := by
    rw [List.length_append]
    exact Nat.lt_of_lt_of_le (by decide) (Nat.le_add_left _ _)
  obtain ⟨reached, locationEq⟩ := exists_location_of_walkFrom
    (fun dot => absurd (congrArg List.length dot ▸ longer) (by decide))
    (fun dots => absurd (congrArg List.length dots ▸ longer) (by decide))
    (fun _ target => site.lookup?_ne_link target) walkedFrom
  exact ⟨reached, stem, locationEq⟩

theorem apart {ending : Place} (walked : host.walk true (engine.viewPath name) = .ok ending)
    {artifact : Text} (isArtifact : Cache.isArtifactName artifact = true) :
    ending.location ≠ place ++ [artifact] := by
  obtain ⟨front, stem, locationEq⟩ := site.exists_location_of_walk walked
  rw [locationEq]
  intro equal
  obtain ⟨-, lastEq⟩ := List.append_inj' equal rfl
  cases lastEq
  rw [Cache.isArtifactName_defaultSuffix] at isArtifact
  cases isArtifact

theorem mem_entries (view : engine.IsView host name location content modified) :
    (location, .file content modified) ∈ host.entries := by
  obtain ⟨front, stem, locationEq⟩ := site.exists_location_of_walk (find_eq_ok view)
  have found := view.lookup?_eq
  simp only [Place.location] at locationEq
  subst locationEq
  exact mem_entries_of_lookup? found

/-- An engine on a site is deployed where the digests of its views do not collide. -/
theorem deployed
    (distinct : ∀ first second, engine.HasView host first → engine.WithinReach host first →
      engine.HasView host second → engine.WithinReach host second →
      Cache.key (engine.sourcePath host first) = Cache.key (engine.sourcePath host second) →
      engine.sourcePath host first = engine.sourcePath host second) :
    engine.Deployed host directory place where
  tree := site.isTree
  serves := site.serves
  apart _ _ walked _ isArtifact := site.apart walked isArtifact
  distinct := distinct

/-- Where all files are near the root, their own paths decide. -/
theorem deployed_of_near
    (near : ∀ location ∈ host.entries.map Prod.fst,
      byteLength (pathOf location) ≤ longestPath)
    (keys : ∀ first ∈ host.entries.map Prod.fst, ∀ second ∈ host.entries.map Prod.fst,
      Cache.key (pathOf first) = Cache.key (pathOf second) → first = second) :
    engine.Deployed host directory place := by
  refine site.deployed ?_
  rintro first second ⟨firstLocation, _, _, firstView⟩ - ⟨secondLocation, _, _, secondView⟩ - equal
  have firstEntry := List.mem_map_of_mem (f := Prod.fst) (site.mem_entries firstView)
  have secondEntry := List.mem_map_of_mem (f := Prod.fst) (site.mem_entries secondView)
  rw [sourcePath, sourcePath, absolute_of_find firstView, absolute_of_find secondView,
    if_neg (Nat.not_lt_of_le (near _ firstEntry)),
    if_neg (Nat.not_lt_of_le (near _ secondEntry))] at equal ⊢
  exact congrArg pathOf (keys _ firstEntry _ secondEntry equal)

/-- A view that is far from the root is out of reach from a working directory that is
far from the root too. -/
theorem not_withinReach_of_far
    (relative : Path.isAbsolute engine.config.viewsDirectory = false)
    (deep : longestPath < byteLength (pathOf host.workingDirectory))
    (view : engine.IsView host name location content modified)
    (far : longestPath < byteLength (pathOf location)) : ¬engine.WithinReach host name := by
  have isPart : Path.IsPart engine.config.suffix := by
    rw [site.suffix_eq]
    decide
  have isRelative := isAbsolute_viewPath isPart relative name
  obtain ⟨front, pathEq⟩ := exists_viewPath_eq engine name
  have unended : Path.endsWithSlash (engine.viewPath name) = false := by
    rw [pathEq]
    exact isPart.not_endsWithSlash front
  have nonempty : engine.viewPath name ≠ [] := by
    rw [pathEq]
    exact List.append_ne_nil_of_right_ne_nil _ isPart.ne_nil
  obtain ⟨root, absoluteEq, ⟨-, rfl⟩ | ⟨absolute, -⟩⟩ :=
    Path.absolute_eq (pathOf host.workingDirectory) unended nonempty
  · have longer := byteLength_le_foldl_join
      (fun part (member : part ∈ Path.parts (engine.viewPath name)) =>
        Path.isPart_of_mem_parts member) (pathOf host.workingDirectory)
    rw [WithinReach, sourcePath, absolute_of_find view, if_pos far, absoluteEq]
    omega
  · rw [isRelative] at absolute
    cases absolute

end Site

/-! ## A site with two views -/

/-- Two views, `home` and `part`, and an empty directory for artifacts, at second 100. -/
def twoViews (home part : Text) : Host where
  entries := [
    (["views"], .directory ⟨0⟩),
    (["cache"], .directory ⟨0⟩),
    (["views", "home.view.html"], .file (.text home) (.ofSeconds 1 0)),
    (["views", "part.view.html"], .file (.text part) (.ofSeconds 1 0))]
  now := .ofSeconds 100 0

/-- An engine with default settings apart from its time to live. -/
def keeper (ttl? : Option Int) : Engine where
  config := { ttl? }
  cache := ⟨some "cache"⟩

theorem locations_twoViews (home part : Text) : (twoViews home part).entries.map Prod.fst =
    ([["views"], ["cache"], ["views", "home.view.html"], ["views", "part.view.html"]] :
      List Location) :=
  rfl

theorem keeper_site (ttl? : Option Int) (home part : Text) :
    (keeper ttl?).Site (twoViews home part) "cache" ["cache"] where
  stands := by
    have inViews : (twoViews home part).IsDirectoryAt ["views"] := ⟨⟨0⟩, rfl⟩
    have atRoot := isDirectoryAt_root (twoViews home part)
    simp only [twoViews, List.forall_mem_cons]
    refine ⟨?_, ?_, ?_, ?_, nofun⟩
    · exact stands_append [] (by decide) atRoot
    · exact stands_append [] (by decide) atRoot
    · exact stands_append ["views"] (by decide) inViews
    · exact stands_append ["views"] (by decide) inViews
  working := isDirectoryAt_root _
  unlinked := by
    simp only [twoViews, List.forall_mem_cons]
    exact ⟨rfl, rfl, rfl, rfl, nofun⟩
  suffix_eq := rfl
  directory_eq := rfl
  found := by rfl
  there := ⟨⟨0⟩, rfl⟩
  short := by decide
  vacant := by
    rw [locations_twoViews]
    decide +kernel

theorem keeper_deployed (ttl? : Option Int) (home part : Text) :
    (keeper ttl?).Deployed (twoViews home part) "cache" ["cache"] := by
  refine (keeper_site ttl? home part).deployed_of_near ?_ ?_
  · rw [locations_twoViews]
    decide
  · rw [locations_twoViews]
    decide +kernel

/-- A site whose view `home` nests its view `part`, with an engine on it. -/
def nestingSite (ttl? : Option Int) : Session where
  engine := keeper ttl?
  host := twoViews "<p>@include('part')</p>" "part"

end Engine

end Scriptlet
