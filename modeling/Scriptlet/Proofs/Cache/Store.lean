import Scriptlet.Proofs.Cache.Artifact

/-!
# The artifact store

A store serves where its directory is there and holds artifacts that can be read.
Looking up, writing, stamping and deleting then concern one slot of that directory, and
nothing that happens to artifacts changes where paths lead.
-/

namespace Scriptlet.Cache

open Host

/-- Where the artifact of a source is. -/
def slot (place : Location) (sourcePath : Text) : Location :=
  place ++ [key sourcePath]

/-- What a store that serves has under the name of an artifact: nothing, or code. -/
def IsCode (found? : Option Entry) : Prop :=
  found? = none ∨ ∃ code written, found? = some (.file (.text code) written)

/-- A directory without artifacts. -/
def Vacant (host : Host) (place : Location) : Prop :=
  ∀ name, isArtifactName name = true → host.lookup? (place ++ [name]) = none

/-- A store with its directory, and with artifacts that are files of text. -/
structure Serves (cache : Cache) (host : Host) (directory : Text) (place : Location) : Prop where
  directory_eq : cache.directory? = some directory
  found : ∃ modified, host.find directory = .ok (place, .directory modified) ∧
    host.lookup? place = some (.directory modified)
  short : ∀ sourcePath, byteLength (Path.join directory (key sourcePath)) ≤ longestPath
  artifacts : ∀ name, isArtifactName name = true → IsCode (host.lookup? (place ++ [name]))

/-- Hosts that differ in nothing but artifacts and their time. -/
structure SameOutside (place : Location) (before after : Host) : Prop where
  workingDirectory_eq : after.workingDirectory = before.workingDirectory
  lookup?_eq : ∀ location, (∀ name, isArtifactName name = true → location ≠ place ++ [name]) →
    after.lookup? location = before.lookup? location

/-- Hosts that differ in nothing but that artifacts are gone and in their time. -/
structure Cleared (place : Location) (before after : Host) : Prop where
  workingDirectory_eq : after.workingDirectory = before.workingDirectory
  lookup?_eq : ∀ location, after.lookup? location = before.lookup? location ∨
    (∃ name, isArtifactName name = true ∧ location = place ++ [name]) ∧
      after.lookup? location = none

variable {cache : Cache} {policy : Policy} {host before middle after : Host} {directory : Text}
  {place location : Location} {name sourcePath code : Text} {left? : Option Entry}
  {modified written : Time}

theorem IsCode.isLeaf {found? : Option Entry} (isCode : IsCode found?) : IsLeaf found? := by
  obtain rfl | ⟨code, written, rfl⟩ := isCode
  · exact .nothing
  · exact .file _ _

theorem Vacant.lookup?_slot (vacant : Vacant host place) (sourcePath : Text) :
    host.lookup? (slot place sourcePath) = none :=
  vacant _ (isArtifactName_key sourcePath)

theorem sameOutside_of_changedAt (changed : ChangedAt before (place ++ [name]) left? after)
    (isArtifact : isArtifactName name = true) : SameOutside place before after where
  workingDirectory_eq := changed.workingDirectory_eq
  lookup?_eq _ apart := changed.lookup?_of_ne fun equal => apart name isArtifact equal.symm

namespace Cleared

theorem refl (place : Location) (host : Host) : Cleared place host host :=
  ⟨rfl, fun _ => .inl rfl⟩

theorem trans (first : Cleared place before middle) (second : Cleared place middle after) :
    Cleared place before after where
  workingDirectory_eq := second.workingDirectory_eq.trans first.workingDirectory_eq
  lookup?_eq location := by
    rcases second.lookup?_eq location with equal | gone
    · rcases first.lookup?_eq location with same | ⟨isArtifact, missing⟩
      · exact .inl (equal.trans same)
      · exact .inr ⟨isArtifact, equal.trans missing⟩
    · exact .inr gone

theorem of_changedAt (changed : ChangedAt before (place ++ [name]) none after)
    (isArtifact : isArtifactName name = true) : Cleared place before after where
  workingDirectory_eq := changed.workingDirectory_eq
  lookup?_eq location := by
    by_cases here : place ++ [name] = location
    · exact .inr ⟨⟨name, isArtifact, here.symm⟩, here ▸ changed.lookup?_self⟩
    · exact .inl (changed.lookup?_of_ne here)

theorem sameOutside (cleared : Cleared place before after) : SameOutside place before after where
  workingDirectory_eq := cleared.workingDirectory_eq
  lookup?_eq location apart := by
    rcases cleared.lookup?_eq location with equal | ⟨⟨name, isArtifact, here⟩, -⟩
    · exact equal
    · exact absurd here (apart name isArtifact)

/-- What is still there was there before. -/
theorem lookup?_of_some (cleared : Cleared place before after) {entry : Entry}
    (kept : after.lookup? location = some entry) : before.lookup? location = some entry := by
  rcases cleared.lookup?_eq location with equal | ⟨-, missing⟩
  · exact equal.symm.trans kept
  · rw [missing] at kept
    cases kept

end Cleared

namespace Serves

theorem endsAt (serves : cache.Serves host directory place) (isName : IsName name)
    (isArtifact : isArtifactName name = true)
    (short : byteLength (Path.join directory name) ≤ longestPath) :
    host.EndsAt (Path.join directory name) (place ++ [name]) := by
  obtain ⟨modified, found, -⟩ := serves.found
  exact endsAt_join found isName (serves.artifacts name isArtifact).isLeaf short

theorem endsAt_slot (serves : cache.Serves host directory place) (sourcePath : Text) :
    host.EndsAt (Path.join directory (key sourcePath)) (slot place sourcePath) :=
  serves.endsAt (isName_key sourcePath) (isArtifactName_key sourcePath) (serves.short sourcePath)

theorem artifactPath_eq (serves : cache.Serves host directory place) (isName : IsName name) :
    cache.artifactPath name = .ok (Path.join directory name) := by
  rw [artifactPath, Cache.directory, serves.directory_eq, dropWhile_of_isName isName]
  rfl

/-! ## Other hosts -/

/-- What happens to artifacts leaves directories and links alone. -/
theorem sameTree (serves : cache.Serves before directory place)
    (same : SameOutside place before after)
    (artifacts : ∀ name, isArtifactName name = true → IsCode (after.lookup? (place ++ [name]))) :
    before.SameTree after where
  workingDirectory_eq := same.workingDirectory_eq
  same_or_leaf location := by
    by_cases slotted : ∃ name, isArtifactName name = true ∧ location = place ++ [name]
    · obtain ⟨name, isArtifact, rfl⟩ := slotted
      exact .inr ⟨(serves.artifacts name isArtifact).isLeaf, (artifacts name isArtifact).isLeaf⟩
    · exact .inl (same.lookup?_eq location fun name isArtifact here =>
        slotted ⟨name, isArtifact, here⟩)

theorem of_sameTree (serves : cache.Serves before directory place) (same : before.SameTree after)
    (artifacts : ∀ name, isArtifactName name = true → IsCode (after.lookup? (place ++ [name]))) :
    cache.Serves after directory place where
  directory_eq := serves.directory_eq
  found := by
    obtain ⟨modified, found, there⟩ := serves.found
    exact ⟨modified, same.find_directory found there, same.lookup?_of_directory there⟩
  short := serves.short
  artifacts := artifacts

theorem artifacts_of_changedAt (serves : cache.Serves before directory place)
    (changed : ChangedAt before location left? after) (isCode : IsCode left?)
    (isArtifact : isArtifactName name = true) : IsCode (after.lookup? (place ++ [name])) := by
  rw [changed.lookup?_eq]
  split
  · exact isCode
  · exact serves.artifacts name isArtifact

theorem artifacts_of_cleared (serves : cache.Serves before directory place)
    (cleared : Cleared place before after) (isArtifact : isArtifactName name = true) :
    IsCode (after.lookup? (place ++ [name])) := by
  rcases cleared.lookup?_eq (place ++ [name]) with equal | ⟨-, missing⟩
  · rw [equal]
    exact serves.artifacts name isArtifact
  · exact .inl missing

theorem of_cleared (serves : cache.Serves before directory place)
    (cleared : Cleared place before after) : cache.Serves after directory place :=
  have artifacts := fun (name : Text) (isArtifact : isArtifactName name = true) =>
    serves.artifacts_of_cleared cleared isArtifact
  serves.of_sameTree (serves.sameTree cleared.sameOutside artifacts) artifacts

/-! ## What the operations of a store do -/

theorem located (serves : cache.Serves host directory place) (sourcePath : Text) :
    cache.Located host (key sourcePath) (Path.join directory (key sourcePath))
      (slot place sourcePath) where
  path_eq := serves.artifactPath_eq (isName_key sourcePath)
  ends := serves.endsAt_slot sourcePath

theorem lookup_of_none (serves : cache.Serves host directory place)
    (missing : host.lookup? (slot place sourcePath) = none) :
    cache.lookup policy host (key sourcePath) modified = .ok .absent := by
  rw [lookup, (serves.located sourcePath).lastWriteTime_of_none missing]
  rfl

theorem lookup_of_some (serves : cache.Serves host directory place)
    (stored : host.lookup? (slot place sourcePath) = some (.file (.text code) written)) :
    cache.lookup policy host (key sourcePath) modified =
      .ok (if policy.accepts written modified host.now then .fresh code else .expired) := by
  have content := (serves.located sourcePath).read_of_some stored
  rw [lookup, (serves.located sourcePath).lastWriteTime_of_some stored]
  simp only [bind, Except.bind, content]
  split <;> rfl

theorem write_eq (serves : cache.Serves host directory place) (sourcePath code : Text) :
    cache.write host (key sourcePath) code =
      .ok (true, host.put (slot place sourcePath) (.file (.text code) host.now)) :=
  (serves.located sourcePath).write_eq code

theorem stamp_eq (serves : cache.Serves host directory place)
    (stored : host.lookup? (slot place sourcePath) = some (.file (.text code) written))
    (time : Time) : cache.stamp host (key sourcePath) time =
      .ok (host.put (slot place sourcePath) (.file (.text code) time)) :=
  (serves.located sourcePath).stamp_of_some stored time

theorem delete_of_some (serves : cache.Serves host directory place)
    (stored : host.lookup? (slot place sourcePath) = some (.file (.text code) written)) :
    cache.delete host (key sourcePath) = .ok (true, host.drop (slot place sourcePath)) :=
  (serves.located sourcePath).delete_of_some stored

/-- Removing what is under an artifact's name removes an artifact. -/
theorem cleared_of_removeFile (serves : cache.Serves host directory place) (isName : IsName name)
    (isArtifact : isArtifactName name = true)
    (removed : host.removeFile (Path.join directory name) = .ok after) :
    Cleared place host after := by
  have short : byteLength (Path.join directory name) ≤ longestPath := by
    refine Nat.le_of_not_lt fun long => ?_
    rw [removeFile, walk] at removed
    simp only [long, if_true] at removed
    split at removed
    · cases removed
    · split at removed <;> cases removed
  have ends := serves.endsAt isName isArtifact short
  rcases serves.artifacts name isArtifact with missing | ⟨code, written, stored⟩
  · rw [ends.removeFile_of_none missing] at removed
    cases removed
  · rw [ends.removeFile_of_file stored] at removed
    cases removed
    exact .of_changedAt (changedAt_drop (by simp)) isArtifact

theorem cleared_of_delete (serves : cache.Serves host directory place) (isName : IsName name)
    (isArtifact : isArtifactName name = true) {removed : Bool}
    (deleted : cache.delete host name = .ok (removed, after)) : Cleared place host after := by
  rw [delete, serves.artifactPath_eq isName] at deleted
  simp only [bind, Except.bind] at deleted
  split at deleted
  · rename_i gone
    cases deleted
    exact serves.cleared_of_removeFile isName isArtifact gone
  · cases deleted
    exact .refl place host

private theorem cleared_of_clearNames {names : List Text} {count : Nat}
    (serves : cache.Serves host directory place) (areNames : ∀ name ∈ names, IsName name)
    (removed : clearNames directory names host = .ok (count, after)) :
    Cleared place host after := by
  induction names generalizing host count with
  | nil =>
      cases removed
      exact .refl place _
  | cons name names induction =>
      have restNames : ∀ other ∈ names, IsName other :=
        fun other member => areNames other (List.mem_cons_of_mem _ member)
      rw [clearNames] at removed
      split at removed
      · rename_i isArtifact
        rw [Bool.and_eq_true] at isArtifact
        split at removed
        · rename_i cleared gone
          have first := serves.cleared_of_removeFile (areNames name (List.mem_cons_self ..))
            isArtifact.1 gone
          cases restRemoved : clearNames directory names cleared with
          | error failure =>
              rw [restRemoved] at removed
              cases removed
          | ok rest =>
              rw [restRemoved] at removed
              cases removed
              exact first.trans (induction (serves.of_cleared first) restNames restRemoved)
        · cases removed
      · exact induction serves restNames removed

theorem cleared_of_clear (serves : cache.Serves host directory place) (tree : host.IsTree)
    {count : Nat} (removed : cache.clear host = .ok (count, after)) :
    Cleared place host after := by
  obtain ⟨modified, found, -⟩ := serves.found
  rw [clear, Cache.directory, serves.directory_eq] at removed
  simp only [bind, Except.bind, Host.list, found] at removed
  refine serves.cleared_of_clearNames (fun name member => ?_) removed
  exact tree.isName_of_mem_namesIn member

end Serves

end Scriptlet.Cache
