import Scriptlet.Proofs.Host.Tree

/-!
# Changes of files

Writing, stamping and removing a file change what is at one location and nothing else.
Hosts that differ in files only are trees together, and every path leads to the same
place on both of them.
-/

namespace Scriptlet.Host

variable {host before middle after : Host} {followLast : Bool} {location place : Location}
  {path directory name text : Text} {entry : Entry} {left? : Option Entry}
  {content : Content} {modified : Time}

/-- What is at one location was replaced, and all else stayed. -/
structure ChangedAt (before : Host) (location : Location) (left? : Option Entry)
    (after : Host) : Prop where
  lookup?_eq : ∀ other,
    after.lookup? other = if location = other then left? else before.lookup? other
  workingDirectory_eq : after.workingDirectory = before.workingDirectory
  now_eq : after.now = before.now

theorem changedAt_put (inside : location ≠ []) (entry : Entry) :
    ChangedAt host location (some entry) (host.put location entry) :=
  ⟨fun other => lookup?_put location other entry host inside, rfl, rfl⟩

theorem changedAt_drop (inside : location ≠ []) :
    ChangedAt host location none (host.drop location) :=
  ⟨fun other => lookup?_drop location other host inside, rfl, rfl⟩

namespace ChangedAt

theorem lookup?_self (changed : ChangedAt before location left? after) :
    after.lookup? location = left? := by
  rw [changed.lookup?_eq, if_pos rfl]

theorem lookup?_of_ne (changed : ChangedAt before location left? after) {other : Location}
    (apart : location ≠ other) : after.lookup? other = before.lookup? other := by
  rw [changed.lookup?_eq, if_neg apart]

/-- The second of two changes at one location decides. -/
theorem trans {first? : Option Entry} (first : ChangedAt before location first? middle)
    (second : ChangedAt middle location left? after) :
    ChangedAt before location left? after where
  lookup?_eq other := by
    rw [second.lookup?_eq, first.lookup?_eq]
    split <;> rfl
  workingDirectory_eq := second.workingDirectory_eq.trans first.workingDirectory_eq
  now_eq := second.now_eq.trans first.now_eq

theorem sameTree (changed : ChangedAt before location left? after)
    (leaf : IsLeaf (before.lookup? location)) (newLeaf : IsLeaf left?) :
    before.SameTree after where
  workingDirectory_eq := changed.workingDirectory_eq
  same_or_leaf other := by
    by_cases here : location = other
    · subst here
      exact .inr ⟨leaf, changed.lookup?_self ▸ newLeaf⟩
    · exact .inl (changed.lookup?_of_ne here)

end ChangedAt

/-! ## Hosts that differ in their files only -/

namespace SameTree

theorem isDirectoryAt (same : before.SameTree after) (directory : before.IsDirectoryAt location) :
    after.IsDirectoryAt location :=
  directory.imp fun _ => same.lookup?_of_directory

theorem find_directory (same : before.SameTree after)
    (found : before.find path = .ok (location, .directory modified))
    (directory : before.lookup? location = some (.directory modified)) :
    after.find path = .ok (location, .directory modified) := by
  obtain ⟨other, walked, isMatch⟩ := same.walk (find_eq_ok found)
  rw [isMatch.place_eq ((same.lookup?_of_directory directory).trans directory.symm)] at walked
  rw [find, walked]

/-- A file stays where a path leads to, unless the hosts differ there. -/
theorem find_file (same : before.SameTree after)
    (found : before.find path = .ok (location, .file content modified))
    (kept : after.lookup? location = before.lookup? location) :
    after.find path = .ok (location, .file content modified) := by
  obtain ⟨other, walked, isMatch⟩ := same.walk (find_eq_ok found)
  rw [isMatch.place_eq kept] at walked
  rw [find, walked]

/-- Where a path leads to a file it still leads to, whatever that file holds now. -/
theorem find_other_file (same : before.SameTree after)
    (found : before.find path = .ok (location, .file content modified))
    {other : Content} {written : Time}
    (replaced : after.lookup? location = some (.file other written)) :
    after.find path = .ok (location, .file other written) := by
  obtain ⟨ending, walked, isMatch⟩ := same.walk (find_eq_ok found)
  have here : ending.location = location := isMatch.location_eq
  have shows := shows_of_walk walked
  cases ending with
  | present reached entry =>
      simp only [Place.location] at here
      subst here
      simp only [Shows, replaced, Option.getD_some] at shows
      subst shows
      rw [find, walked]
  | absent reached =>
      simp only [Place.location] at here
      subst here
      rw [Shows, replaced] at shows
      cases shows

theorem absolute_eq (same : before.SameTree after) {other : Entry}
    (found : before.find path = .ok (location, entry))
    (stillFound : after.find path = .ok (location, other)) :
    after.absolute path = before.absolute path := by
  rw [absolute_of_find found, absolute_of_find stillFound, same.workingDirectory_eq]

end SameTree

/-- A host is a tree with the same directories as a tree, where all that is new in it
has a name and stands in one of them. -/
theorem IsTree.of_sameTree (tree : before.IsTree) (same : before.SameTree after)
    (fresh : ∀ location name entry, after.lookup? (location ++ [name]) = some entry →
      before.lookup? (location ++ [name]) = none → IsName name ∧ before.IsDirectoryAt location) :
    after.IsTree := by
  have parted : ∀ location name entry, after.lookup? (location ++ [name]) = some entry →
      IsName name ∧ before.IsDirectoryAt location := by
    intro location name entry found
    cases known : before.lookup? (location ++ [name]) with
    | none => exact fresh location name entry found known
    | some old => exact ⟨tree.isName_of _ _ _ known, tree.isDirectoryAt_of _ _ _ known⟩
  refine ⟨?_, ?_, ?_⟩
  · intro location name entry found
    exact (parted location name entry found).1
  · intro location name entry found
    exact same.isDirectoryAt (parted location name entry found).2
  · rw [same.workingDirectory_eq]
    exact same.isDirectoryAt tree.workingDirectory

/-! ## Paths that end at a file or at a free place -/

/-- A path that leads to a file or to a place where one can be made. -/
structure EndsAt (host : Host) (path : Text) (location : Location) : Prop where
  walk_eq : ∀ followLast,
    host.walk followLast path = .ok (placeAt location (host.lookup? location))
  leaf : IsLeaf (host.lookup? location)

/-- A name taken from a directory is walked from there, with the links that are left. -/
theorem walk_join (found : host.find directory = .ok (place, .directory modified))
    (isName : IsName name) (short : byteLength (Path.join directory name) ≤ longestPath) :
    ∃ left ≤ linkLimit, ∀ followLast,
      host.walk followLast (Path.join directory name) =
        host.walkFrom followLast left place [name] := by
  obtain ⟨clean, full, -, walked⟩ := walk_eq_ok (find_eq_ok found)
  have joinedClean : '\x00' ∉ Path.join directory name := by
    intro member
    rcases Path.mem_join isName.isPart member with inDirectory | slash | inName
    · exact clean inDirectory
    · exact absurd slash (by decide)
    · exact isName.clean inName
  have joinedSteps : steps (Path.join directory name) = Path.names directory ++ [name] := by
    rw [steps_of_unended (Path.endsWithSlash_join isName.isPart directory),
      Path.names_join isName.isPart]
  obtain ⟨left, atMost, goesOn⟩ := walkFrom_append walked (List.cons_ne_nil name [])
  refine ⟨left, atMost, fun followLast => ?_⟩
  rw [walk_of_short joinedClean (Path.join_ne_nil isName.isPart directory) short, joinedSteps,
    Path.isAbsolute_join isName.isPart full, ← goesOn followLast]
  cases ended : Path.endsWithSlash directory with
  | false => rw [steps_of_unended ended]
  | true =>
      rw [steps_of_ended ended, List.append_assoc, List.singleton_append]
      exact (walkFrom_skip_dot (by simp)).symm

/-- A name taken from a directory leads into that directory. -/
theorem endsAt_join (found : host.find directory = .ok (place, .directory modified))
    (isName : IsName name) (leaf : IsLeaf (host.lookup? (place ++ [name])))
    (short : byteLength (Path.join directory name) ≤ longestPath) :
    host.EndsAt (Path.join directory name) (place ++ [name]) := by
  refine ⟨fun followLast => ?_, leaf⟩
  obtain ⟨left, -, walked⟩ := walk_join found isName short
  rw [walked followLast, walkFrom_name _ _ _ _ isName.ne_dot isName.ne_dots,
    if_neg (Nat.not_lt_of_le isName.short)]
  generalize host.lookup? (place ++ [name]) = there at leaf
  cases leaf <;> rfl

namespace EndsAt

variable (ends : host.EndsAt path location)

include ends

theorem find_of_file (found : host.lookup? location = some (.file content modified)) :
    host.find path = .ok (location, .file content modified) := by
  rw [find, ends.walk_eq, found]
  rfl

theorem find_of_none (missing : host.lookup? location = none) :
    host.find path = .error .notFound := by
  rw [find, ends.walk_eq, missing]
  rfl

theorem isFile_of_file (found : host.lookup? location = some (.file content modified)) :
    host.isFile path = true := by
  rw [isFile, ends.find_of_file found]

theorem isFile_of_none (missing : host.lookup? location = none) : host.isFile path = false := by
  rw [isFile, ends.find_of_none missing]

theorem modified_of_file (found : host.lookup? location = some (.file content modified)) :
    host.modified path = .ok modified := by
  rw [Host.modified, ends.find_of_file found]
  rfl

theorem modified_of_none (missing : host.lookup? location = none) :
    host.modified path = .error .notFound := by
  rw [Host.modified, ends.find_of_none missing]
  rfl

theorem readText_of_text (found : host.lookup? location = some (.file (.text text) modified)) :
    host.readText path = .ok text := by
  rw [readText, ends.find_of_file found]
  rfl

theorem readText_of_none (missing : host.lookup? location = none) :
    host.readText path = .error .notFound := by
  rw [readText, ends.find_of_none missing]
  rfl

theorem writeText_eq (text : Text) :
    host.writeText path text = .ok (host.put location (.file (.text text) host.now)) := by
  have leaf := ends.leaf
  rw [writeText, writeAt, ends.walk_eq]
  generalize host.lookup? location = there at leaf
  cases leaf <;> rfl

theorem stampFile_eq (found : host.lookup? location = some (.file content modified))
    (time : Time) : host.stampFile path time = .ok (host.put location (.file content time)) := by
  rw [stampFile, ends.find_of_file found]
  rfl

theorem stampFile_of_none (missing : host.lookup? location = none) (time : Time) :
    host.stampFile path time = .error .notFound := by
  rw [stampFile, ends.find_of_none missing]
  rfl

theorem removeFile_of_file (found : host.lookup? location = some (.file content modified)) :
    host.removeFile path = .ok (host.drop location) := by
  rw [removeFile, ends.walk_eq, found]
  rfl

theorem removeFile_of_none (missing : host.lookup? location = none) :
    host.removeFile path = .error .notFound := by
  rw [removeFile, ends.walk_eq, missing]
  rfl

end EndsAt

end Scriptlet.Host
