import Scriptlet.Proofs.Cache.Store
import Scriptlet.Proofs.Host.Removal
import Scriptlet.Proofs.Table

/-!
# What a store holds

The artifacts of a store are a finite map from the names of keys to code and the time of its
writing.  Files of other names may stand in the directory, and links may lead there: what
changes one artifact, or removes a name that leads to a file, changes the map at that name
only.
-/

namespace Scriptlet.Cache

open Host

/-- A key without the slashes in front of it. -/
def bare (key : Text) : Text :=
  key.dropWhile (· = '/')

/-- Code and the times at which it was written, under the names of keys. -/
abbrev Artifacts := Table Text (Text × Time)

/-- The file of an artifact. -/
def artifactFile (artifact : Text × Time) : Entry :=
  .file (.text artifact.1) artifact.2

/-- A store whose directory is there, with paths to all its artifacts. -/
structure Ready (cache : Cache) (host : Host) (directory : Text) (place : Location) : Prop where
  tree : host.IsTree
  directory_eq : cache.directory? = some directory
  found : ∃ modified, host.find directory = .ok (place, .directory modified) ∧
    host.lookup? place = some (.directory modified)
  short : ∀ name, IsKey name → byteLength (Path.join directory name) ≤ longestPath

/-- A store that has nothing but files of text under the names of keys. -/
structure Keeps (cache : Cache) (host : Host) (directory : Text) (place : Location) : Prop
    extends Ready cache host directory place where
  artifacts : ∀ name, IsKey name → IsCode (host.lookup? (place ++ [name]))

/-- A store whose artifacts are those of a map. -/
structure Holds (cache : Cache) (host : Host) (directory : Text) (place : Location)
    (map : Artifacts) : Prop extends Ready cache host directory place where
  distinct : (map.map Prod.fst).Nodup
  keyed : ∀ entry ∈ map, IsKey entry.1
  lookup?_eq : ∀ name, IsKey name →
    host.lookup? (place ++ [name]) = (Table.get? name map).map artifactFile

/-- The artifact that a directory has under a name, if the name is a key. -/
def artifactAt? (host : Host) (place : Location) (name : Text) : Option (Text × Text × Time) :=
  if IsKey name then
    match host.lookup? (place ++ [name]) with
    | some (.file (.text code) written) => some (name, code, written)
    | _ => none
  else none

/-- The artifacts that a directory has under the names of keys. -/
def contents (host : Host) (place : Location) : Artifacts :=
  Table.ofPairs ((host.namesIn place).filterMap (artifactAt? host place))

/-- All artifacts in a directory have the names of keys. -/
def OnlyKeys (host : Host) (place : Location) : Prop :=
  ∀ name, isArtifactName name = true → host.lookup? (place ++ [name]) ≠ none → IsKey name

variable {cache : Cache} {host after : Host} {directory name : Text} {place : Location}
  {map : Artifacts} {artifact : Text × Time}

theorem artifactAt?_eq_some_iff {pair : Text × Text × Time} :
    artifactAt? host place name = some pair ↔
      pair.1 = name ∧ IsKey name ∧
        host.lookup? (place ++ [name]) = some (artifactFile pair.2) := by
  obtain ⟨key, code, written⟩ := pair
  unfold artifactAt? artifactFile
  by_cases isKey : IsKey name
  · rw [if_pos isKey]
    split
    · rename_i found
      simp [found, isKey, eq_comm]
    · rename_i other
      simp only [reduceCtorEq, false_iff, not_and]
      exact fun _ _ found => other code written found
  · simp [isKey]

theorem mem_contents {pair : Text × Text × Time}
    (member : pair ∈ (host.namesIn place).filterMap (artifactAt? host place)) :
    IsKey pair.1 ∧ host.lookup? (place ++ [pair.1]) = some (artifactFile pair.2) := by
  obtain ⟨name, -, isArtifact⟩ := List.mem_filterMap.mp member
  obtain ⟨rfl, found⟩ := artifactAt?_eq_some_iff.mp isArtifact
  exact found

theorem get?_contents (isKey : IsKey name) (isCode : IsCode (host.lookup? (place ++ [name]))) :
    host.lookup? (place ++ [name]) = (Table.get? name (contents host place)).map artifactFile := by
  rw [contents, Table.get?_ofPairs]
  cases found : Table.get? name _ with
  | some artifact => exact (mem_contents (List.mem_reverse.mp (Table.mem_of_get? found))).2
  | none =>
      rcases isCode with missing | ⟨code, written, stored⟩
      · exact missing
      · have isArtifact : artifactAt? host place name = some (name, code, written) :=
          artifactAt?_eq_some_iff.mpr ⟨rfl, isKey, stored⟩
        have listed := List.mem_reverse.mpr
          (List.mem_filterMap.mpr ⟨name, mem_namesIn_iff.mpr ⟨_, stored⟩, isArtifact⟩)
        obtain ⟨value, there⟩ := Table.exists_get?_of_mem listed
        cases found.symm.trans there

theorem Keeps.holds (keeps : cache.Keeps host directory place) :
    cache.Holds host directory place (contents host place) where
  toReady := keeps.toReady
  distinct := Table.nodup_ofPairs _
  keyed entry member := by
    obtain ⟨artifact, found⟩ := Table.exists_get?_of_mem member
    rw [contents, Table.get?_ofPairs] at found
    exact (mem_contents (List.mem_reverse.mp (Table.mem_of_get? found))).1
  lookup?_eq name isKey := get?_contents isKey (keeps.artifacts name isKey)

theorem artifactFile_isCode (artifact? : Option (Text × Time)) :
    IsCode (artifact?.map artifactFile) := by
  cases artifact? with
  | none => exact .inl rfl
  | some artifact => exact .inr ⟨artifact.1, artifact.2, rfl⟩

theorem bare_slashes (slashes : Nat) (isKey : IsKey name) :
    bare (List.replicate slashes '/' ++ name) = name := by
  rw [bare, List.dropWhile_append_of_pos (by simp), dropWhile_of_isName isKey.isName]

namespace Ready

theorem of_sameTree (ready : cache.Ready host directory place) (same : host.SameTree after)
    (tree : after.IsTree) : cache.Ready after directory place where
  tree := tree
  directory_eq := ready.directory_eq
  found := by
    obtain ⟨modified, found, there⟩ := ready.found
    exact ⟨modified, same.find_directory found there, same.lookup?_of_directory there⟩
  short := ready.short

/-- A name that leads to a file is not on the way to the directory. -/
theorem drop (ready : cache.Ready host directory place) (leads : host.LeadsToFile place name) :
    cache.Ready (host.drop (place ++ [name])) directory place where
  tree := leads.isTree_drop ready.tree
  directory_eq := ready.directory_eq
  found := by
    obtain ⟨modified, found, there⟩ := ready.found
    exact ⟨modified, leads.find_drop ready.tree found, leads.lookup?_drop_of_directory there⟩
  short := ready.short

end Ready

theorem OnlyKeys.drop (only : OnlyKeys host place) (name : Text) :
    OnlyKeys (host.drop (place ++ [name])) place := by
  intro other isArtifact present
  apply only other isArtifact
  rw [lookup?_drop _ _ _ (by simp)] at present
  split at present
  · exact absurd rfl present
  · exact present

theorem OnlyKeys.put (only : OnlyKeys host place) (isKey : IsKey name) (entry : Entry) :
    OnlyKeys (host.put (place ++ [name]) entry) place := by
  intro other isArtifact present
  rw [lookup?_put _ _ _ _ (by simp)] at present
  split at present
  · rename_i same
    rwa [← List.singleton_inj.mp (List.append_cancel_left same)]
  · exact only other isArtifact present

namespace Holds

theorem keeps (holds : cache.Holds host directory place map) :
    cache.Keeps host directory place where
  toReady := holds.toReady
  artifacts name isKey := by
    rw [holds.lookup?_eq name isKey]
    exact artifactFile_isCode _

theorem located (holds : cache.Holds host directory place map) {key : Text}
    (isKey : IsKey (bare key)) :
    cache.Located host key (Path.join directory (bare key)) (place ++ [bare key]) where
  path_eq := by
    rw [artifactPath, Cache.directory, holds.directory_eq]
    rfl
  ends := by
    obtain ⟨modified, found, -⟩ := holds.found
    exact endsAt_join found isKey.isName (holds.keeps.artifacts _ isKey).isLeaf
      (holds.short _ isKey)

theorem get?_eq_none_of_no_key (holds : cache.Holds host directory place map)
    (noKey : ¬ IsKey name) : Table.get? name map = none := by
  rw [Table.get?_eq_none_iff]
  intro member
  obtain ⟨entry, listed, rfl⟩ := List.mem_map.mp member
  exact noKey (holds.keyed entry listed)

/-- The clock of a host does not matter. -/
theorem at_time (holds : cache.Holds host directory place map) (time : Time) :
    cache.Holds { host with now := time } directory place map where
  toReady := by
    have same : host.SameTree { host with now := time } := ⟨rfl, fun _ => .inl rfl⟩
    refine holds.toReady.of_sameTree same (holds.tree.of_sameTree same ?_)
    intro location name entry found missing
    exact absurd (found.symm.trans missing) nofun
  distinct := holds.distinct
  keyed := holds.keyed
  lookup?_eq := holds.lookup?_eq

/-- Writing a file under a key gives the key this artifact. -/
theorem put (holds : cache.Holds host directory place map) (isKey : IsKey name)
    (artifact : Text × Time) :
    cache.Holds (host.put (place ++ [name]) (artifactFile artifact)) directory place
      (Table.insert name artifact map) where
  toReady := by
    have changed : ChangedAt host (place ++ [name]) _ _ :=
      changedAt_put (by simp) (artifactFile artifact)
    have same := changed.sameTree (holds.keeps.artifacts name isKey).isLeaf (.file _ _)
    refine holds.toReady.of_sameTree same (holds.tree.of_sameTree same ?_)
    intro location other entry found missing
    rw [changed.lookup?_eq] at found
    split at found
    · rename_i here
      obtain ⟨rfl, sameName⟩ := List.append_inj' here rfl
      obtain ⟨modified, -, there⟩ := holds.found
      exact ⟨List.singleton_inj.mp sameName ▸ isKey.isName, modified, there⟩
    · exact absurd (found.symm.trans missing) nofun
  distinct := Table.nodup_insert holds.distinct name artifact
  keyed entry member := by
    have keys : entry.1 ∈ (Table.insert name artifact map).map Prod.fst :=
      List.mem_map_of_mem member
    rw [Table.map_fst_insert] at keys
    have known : ∀ key ∈ map.map Prod.fst, IsKey key := by
      intro key listed
      obtain ⟨entry, entryListed, rfl⟩ := List.mem_map.mp listed
      exact holds.keyed entry entryListed
    split at keys
    · exact known _ keys
    · rcases List.mem_append.mp keys with listed | new
      · exact known _ listed
      · exact List.mem_singleton.mp new ▸ isKey
  lookup?_eq other otherKey := by
    rw [lookup?_put _ _ _ _ (by simp), Table.get?_insert]
    by_cases same : name = other
    · rw [if_pos (by rw [same]), if_pos same]
      rfl
    · have apart : place ++ [name] ≠ place ++ [other] := fun equal =>
        same (List.singleton_inj.mp (List.append_cancel_left equal))
      rw [if_neg apart, if_neg same, holds.lookup?_eq other otherKey]

/-- Removing a name that leads to a file removes the artifact of this name, if there is
one. -/
theorem drop (holds : cache.Holds host directory place map)
    (leads : host.LeadsToFile place name) :
    cache.Holds (host.drop (place ++ [name])) directory place (Table.erase name map) where
  toReady := holds.toReady.drop leads
  distinct := Table.nodup_erase holds.distinct name
  keyed entry member := holds.keyed entry (List.mem_of_mem_filter member)
  lookup?_eq other otherKey := by
    rw [lookup?_drop _ _ _ (by simp), Table.get?_erase]
    by_cases same : name = other
    · rw [if_pos (by rw [same]), if_pos same]
      rfl
    · have apart : place ++ [name] ≠ place ++ [other] := fun equal =>
        same (List.singleton_inj.mp (List.append_cancel_left equal))
      rw [if_neg apart, if_neg same, holds.lookup?_eq other otherKey]

theorem isFile (holds : cache.Holds host directory place map) (isKey : IsKey name)
    (stored : Table.get? name map = some artifact) :
    host.isFile (Path.join directory name) = true := by
  have bareName : bare name = name := bare_slashes 0 isKey
  have located := holds.located (bareName.symm ▸ isKey)
  rw [bareName] at located
  apply located.ends.isFile_of_file
  rw [holds.lookup?_eq name isKey, stored]
  rfl

theorem leadsToFile (holds : cache.Holds host directory place map) (isName : IsName name)
    (isFile : host.isFile (Path.join directory name) = true) :
    byteLength (Path.join directory name) ≤ longestPath ∧ host.LeadsToFile place name := by
  obtain ⟨modified, found, there⟩ := holds.found
  exact leadsToFile_of_isFile found there isName isFile

/-! ## Clearing -/

/-- What is left of a map when some names are removed. -/
def withoutNames (names : List Text) (map : Artifacts) : Artifacts :=
  names.foldl (fun left name => Table.erase name left) map

theorem get?_withoutNames (names : List Text) (map : Artifacts) (key : Text) :
    Table.get? key (withoutNames names map) =
      if key ∈ names then none else Table.get? key map := by
  induction names generalizing map with
  | nil => rfl
  | cons name names induction =>
      rw [withoutNames, List.foldl_cons, ← withoutNames, induction, Table.get?_erase]
      by_cases later : key ∈ names
      · simp [later]
      · simp [later, eq_comm]

/-- A name that leads to a file is that of an artifact of the map, or of no key. -/
private theorem length_erase (holds : cache.Holds host directory place map)
    (leads : host.LeadsToFile place name) (isArtifact : isArtifactName name = true) :
    map.length ≤ (Table.erase name map).length + 1 ∧
      (OnlyKeys host place → map.length = (Table.erase name map).length + 1) := by
  cases stored : Table.get? name map with
  | some artifact =>
      have fewer := Table.length_erase holds.distinct stored
      exact ⟨Nat.le_of_eq fewer.symm, fun _ => fewer.symm⟩
  | none =>
      rw [Table.erase_of_get?_eq_none stored]
      refine ⟨Nat.le_succ _, fun only => ?_⟩
      have present : host.lookup? (place ++ [name]) ≠ none := by
        rcases leads.lookup?_cases with ⟨content, modified, found⟩ | ⟨target, found⟩
        · exact found ▸ nofun
        · exact found ▸ nofun
      rw [holds.lookup?_eq name (only name isArtifact present), stored] at present
      exact absurd rfl present

private theorem get?_eq_none_of_kept (holds : cache.Holds host directory place map)
    (kept : ¬ (isArtifactName name && host.isFile (Path.join directory name)) = true) :
    Table.get? name map = none := by
  by_cases isKey : IsKey name
  · cases stored : Table.get? name map with
    | none => rfl
    | some artifact =>
        rw [isKey.isArtifactName, holds.isFile isKey stored] at kept
        exact absurd rfl kept
  · exact holds.get?_eq_none_of_no_key isKey

/-- Clearing a row of names removes their artifacts, and counts at least those.  It counts
no others where all artifacts have the names of keys. -/
theorem clearNames (holds : cache.Holds host directory place map) {names : List Text}
    (areNames : ∀ name ∈ names, IsName name) :
    ∃ count after, Cache.clearNames directory names host = .ok (count, after) ∧
      cache.Holds after directory place (withoutNames names map) ∧
      map.length ≤ (withoutNames names map).length + count ∧
      (OnlyKeys host place →
        OnlyKeys after place ∧ map.length = (withoutNames names map).length + count) := by
  induction names generalizing host map with
  | nil => exact ⟨0, host, rfl, holds, Nat.le_refl _, fun only => ⟨only, rfl⟩⟩
  | cons name names induction =>
      rw [List.forall_mem_cons] at areNames
      obtain ⟨isName, restNames⟩ := areNames
      rw [Cache.clearNames]
      by_cases removed : (isArtifactName name && host.isFile (Path.join directory name)) = true
      · obtain ⟨isArtifact, isFile⟩ := Bool.and_eq_true_iff.mp removed
        obtain ⟨short, leads⟩ := holds.leadsToFile isName isFile
        obtain ⟨modified, found, -⟩ := holds.found
        obtain ⟨atMost, exactly⟩ := holds.length_erase leads isArtifact
        obtain ⟨count, after, cleared, afterHolds, atLeast, onlyKeys⟩ :=
          induction (holds.drop leads) restNames
        refine ⟨count + 1, after, ?_, afterHolds, ?_, fun only => ?_⟩
        · simp only [removed, if_true, leads.removeFile_eq found short, cleared]
          rfl
        · exact Nat.le_trans atMost (Nat.succ_le_succ atLeast)
        · obtain ⟨onlyAfter, same⟩ := onlyKeys (only.drop name)
          exact ⟨onlyAfter, (exactly only).trans (congrArg Nat.succ same)⟩
      · have kept : withoutNames (name :: names) map = withoutNames names map := by
          rw [withoutNames, List.foldl_cons,
            Table.erase_of_get?_eq_none (holds.get?_eq_none_of_kept removed), withoutNames]
        rw [kept]
        simp only [removed]
        exact induction holds restNames

/-- All keys of the map are names in the directory. -/
private theorem withoutNames_namesIn (holds : cache.Holds host directory place map) :
    withoutNames (host.namesIn place) map = [] := by
  rw [List.eq_nil_iff_forall_not_mem]
  intro entry member
  obtain ⟨artifact, left⟩ := Table.exists_get?_of_mem member
  rw [get?_withoutNames] at left
  split at left
  · cases left
  · rename_i unlisted
    have isKey := holds.keyed _ (Table.mem_of_get? left)
    have found := holds.lookup?_eq entry.1 isKey
    rw [left] at found
    exact unlisted (mem_namesIn_iff.mpr ⟨_, found⟩)

/-- Clearing a store leaves no artifact. -/
theorem clear (holds : cache.Holds host directory place map) :
    ∃ count after, Cache.clear cache host = .ok (count, after) ∧
      cache.Holds after directory place [] ∧ map.length ≤ count ∧
      (OnlyKeys host place → OnlyKeys after place ∧ map.length = count) := by
  obtain ⟨modified, found, -⟩ := holds.found
  obtain ⟨count, after, cleared, afterHolds, atLeast, onlyKeys⟩ :=
    holds.clearNames fun name member => holds.tree.isName_of_mem_namesIn member
  rw [holds.withoutNames_namesIn] at afterHolds atLeast onlyKeys
  refine ⟨count, after, ?_, afterHolds, by simpa using atLeast, by simpa using onlyKeys⟩
  rw [Cache.clear, Cache.directory, holds.directory_eq]
  simp only [bind, Except.bind, Host.list, found]
  exact cleared

end Holds

end Scriptlet.Cache
