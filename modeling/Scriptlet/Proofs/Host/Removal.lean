import Scriptlet.Proofs.Host.Change

/-!
# Removing what leads to a file

A walk that has come to a file ends there.  So a walk that ends in a directory passes
neither a file nor a link that leads to one, and removing one of them leaves every such walk
as it was.  What the file was, and where the link led to, does not matter.
-/

namespace Scriptlet.Host

variable {host : Host} {followLast : Bool} {links : Nat} {location target place : Location}
  {names rest : List Text} {directory name path : Text} {entry : Entry}
  {content : Content} {modified : Time}

/-- A walk that follows its last link ends with a name at nothing or at a file. -/
private theorem Stops.isLeaf {found? : Option Entry} (stops : Stops true found?) :
    IsLeaf found? := by
  cases stops with
  | leaf leaf => exact leaf
  | link target unfollowed => cases unfollowed

namespace IsTree

/-- Where one walk comes to a file, no walk of the same names goes on, however many links it
may follow. -/
theorem walkFrom_ends_at_file (tree : host.IsTree) (start : host.IsDirectoryAt location)
    (walked : host.walkFrom true links location names =
      .ok (.present target (.file content modified)))
    {others : Nat} {further : Place}
    (goesOn : host.walkFrom true others location (names ++ rest) = .ok further) :
    rest = [] ∧ further = .present target (.file content modified) := by
  induction links, location, names using walk_induction generalizing others with
  | done links location =>
      obtain ⟨written, there⟩ := start
      rw [walkFrom_nil, there] at walked
      cases walked
  | dot links location names induction =>
      rw [walkFrom_dot] at walked
      rw [List.cons_append, walkFrom_dot] at goesOn
      exact induction start walked goesOn
  | dots links location names induction =>
      rw [walkFrom_dots] at walked
      rw [List.cons_append, walkFrom_dots] at goesOn
      exact induction (tree.isDirectoryAt_dropLast start) walked goesOn
  | name links location name names notDot notDots onward linked =>
      obtain ⟨-, takes⟩ := takes_of_walkFrom notDot notDots walked
      rw [List.cons_append] at goesOn
      obtain ⟨-, takesOn⟩ := takes_of_walkFrom notDot notDots goesOn
      generalize reached : Place.present target (.file content modified) = ending at takes ⊢
      -- both walks find the same under the name, so they take it in the same way
      cases takes with
      | stops last stops =>
          subst last
          cases takesOn with
          | stops isLast => exact ⟨isLast, rfl⟩
          | enters found =>
              rw [found] at stops
              cases stops.isLeaf
          | follows found =>
              rw [found] at stops
              cases stops.isLeaf
      | enters found walked =>
          subst reached
          cases takesOn with
          | stops isLast stops =>
              rw [found] at stops
              cases stops.isLeaf
          | enters _ goesOn => exact onward ⟨_, found⟩ walked goesOn
          | follows linkFound => cases found.symm.trans linkFound
      | follows found _ equal walked =>
          subst reached
          cases takesOn with
          | stops isLast stops =>
              rw [found] at stops
              cases stops.isLeaf
          | enters directoryFound => cases found.symm.trans directoryFound
          | follows again _ _ goesOn =>
              cases found.symm.trans again
              rw [← List.append_assoc] at goesOn
              exact linked _ _ equal (start.startOf _) walked goesOn

end IsTree

/-- A name in a directory by which a walk comes to a file: a file, or a link that leads to
one. -/
structure LeadsToFile (host : Host) (place : Location) (name : Text) : Prop where
  isName : IsName name
  directory : host.IsDirectoryAt place
  arrives : ∃ links target content modified,
    host.walkFrom true links place [name] = .ok (.present target (.file content modified))

namespace LeadsToFile

variable (leads : host.LeadsToFile place name)

include leads

theorem lookup?_cases :
    (∃ content modified, host.lookup? (place ++ [name]) = some (.file content modified)) ∨
      ∃ target, host.lookup? (place ++ [name]) = some (.link target) := by
  obtain ⟨links, target, content, modified, walked⟩ := leads.arrives
  obtain ⟨-, takes⟩ := takes_of_walkFrom leads.isName.ne_dot leads.isName.ne_dots walked
  generalize reached : Place.present target (.file content modified) = ending at takes
  cases takes with
  | stops _ stops =>
      have leaf := stops.isLeaf
      generalize host.lookup? (place ++ [name]) = found? at leaf reached ⊢
      cases leaf with
      | nothing => cases reached
      | file content modified => exact .inl ⟨content, modified, rfl⟩
  | enters found walked =>
      rw [walkFrom_nil, found] at walked
      subst reached
      cases walked
  | follows found => exact .inr ⟨_, found⟩

/-- It is no directory, so it is removed by its own name. -/
theorem walkFrom_of_name (links : Nat) :
    ∃ entry, host.lookup? (place ++ [name]) = some entry ∧ (∀ written, entry ≠ .directory written) ∧
      host.walkFrom false links place [name] = .ok (.present (place ++ [name]) entry) := by
  have stops : ∀ entry, host.lookup? (place ++ [name]) = some entry → Stops false (some entry) →
      host.walkFrom false links place [name] = .ok (.present (place ++ [name]) entry) := by
    intro entry found stops
    rw [← found] at stops
    have takes : host.Takes false links place name [] _ := .stops rfl stops
    rw [takes.walkFrom_eq leads.isName.ne_dot leads.isName.ne_dots leads.isName.short, found]
    rfl
  rcases leads.lookup?_cases with ⟨content, modified, found⟩ | ⟨target, found⟩
  · exact ⟨_, found, nofun, stops _ found (.leaf (.file content modified))⟩
  · exact ⟨_, found, nofun, stops _ found (.link target rfl)⟩

theorem lookup?_drop_of_directory (directory : host.lookup? location = some (.directory modified)) :
    (host.drop (place ++ [name])).lookup? location = some (.directory modified) := by
  rw [lookup?_drop _ _ _ (by simp), if_neg, directory]
  rintro rfl
  rcases leads.lookup?_cases with ⟨content, written, found⟩ | ⟨target, found⟩
  · cases found.symm.trans directory
  · cases found.symm.trans directory

theorem isDirectoryAt_drop (directory : host.IsDirectoryAt location) :
    (host.drop (place ++ [name])).IsDirectoryAt location :=
  directory.imp fun _ => leads.lookup?_drop_of_directory

theorem isTree_drop (tree : host.IsTree) : (host.drop (place ++ [name])).IsTree := by
  have kept : ∀ location entry, (host.drop (place ++ [name])).lookup? location = some entry →
      host.lookup? location = some entry := by
    intro location entry found
    rw [lookup?_drop _ _ _ (by simp)] at found
    split at found
    · cases found
    · exact found
  constructor
  · intro location other entry found
    exact tree.isName_of _ _ _ (kept _ _ found)
  · intro location other entry found
    exact leads.isDirectoryAt_drop (tree.isDirectoryAt_of _ _ _ (kept _ _ found))
  · exact leads.isDirectoryAt_drop tree.workingDirectory

/-- A walk that ends in a directory ends there, too, when the name is gone. -/
theorem walkFrom_drop (tree : host.IsTree) (start : host.IsDirectoryAt location)
    (walked : host.walkFrom true links location names =
      .ok (.present target (.directory modified))) :
    (host.drop (place ++ [name])).walkFrom true links location names =
      .ok (.present target (.directory modified)) := by
  induction links, location, names using walk_induction with
  | done links location =>
      obtain ⟨written, there⟩ := start
      rw [walkFrom_nil, there] at walked
      rw [walkFrom_nil, leads.lookup?_drop_of_directory there]
      exact walked
  | dot links location names induction =>
      rw [walkFrom_dot] at walked ⊢
      exact induction start walked
  | dots links location names induction =>
      rw [walkFrom_dots] at walked ⊢
      exact induction (tree.isDirectoryAt_dropLast start) walked
  | name links location step names notDot notDots onward linked =>
      obtain ⟨short, takes⟩ := takes_of_walkFrom notDot notDots walked
      generalize reached : Place.present target (.directory modified) = ending at takes
      cases takes with
      | stops _ stops =>
          have leaf := stops.isLeaf
          generalize host.lookup? (location ++ [step]) = found? at leaf reached
          cases leaf <;> cases reached
      | enters found onwardWalked =>
          subst reached
          have enters := Takes.enters (leads.lookup?_drop_of_directory found)
            (onward ⟨_, found⟩ onwardWalked)
          exact enters.walkFrom_eq notDot notDots short
      | follows found followed equal linkWalked =>
          subst reached
          -- by the name itself the walk would come to a file
          have apart : place ++ [name] ≠ location ++ [step] := by
            intro same
            obtain ⟨rfl, sameName⟩ := List.append_inj' same rfl
            obtain ⟨others, file, content, written, arrived⟩ := leads.arrives
            rw [List.singleton_inj.mp sameName] at arrived
            exact absurd (tree.walkFrom_ends_at_file start arrived walked).2 nofun
          have linkFound : (host.drop (place ++ [name])).lookup? (location ++ [step]) = _ :=
            (lookup?_drop _ _ _ (by simp)).trans ((if_neg apart).trans found)
          have follows := Takes.follows linkFound followed equal
            (linked _ _ equal (start.startOf _) linkWalked)
          exact follows.walkFrom_eq notDot notDots short

theorem find_drop (tree : host.IsTree)
    (found : host.find path = .ok (target, .directory modified)) :
    (host.drop (place ++ [name])).find path = .ok (target, .directory modified) := by
  obtain ⟨clean, full, short, walked⟩ := walk_eq_ok (find_eq_ok found)
  have walkedToo := leads.walkFrom_drop tree (tree.workingDirectory.startOf path) walked
  have whole : (host.drop (place ++ [name])).walk true path =
      .ok (.present target (.directory modified)) :=
    (walk_of_short clean full short).trans walkedToo
  rw [find, whole]

theorem removeFile_eq (found : host.find directory = .ok (place, .directory modified))
    (short : byteLength (Path.join directory name) ≤ longestPath) :
    host.removeFile (Path.join directory name) = .ok (host.drop (place ++ [name])) := by
  obtain ⟨left, -, walked⟩ := walk_join found leads.isName short
  obtain ⟨entry, -, noDirectory, ended⟩ := leads.walkFrom_of_name left
  rw [removeFile, walked false, ended]
  cases entry with
  | directory written => exact absurd rfl (noDirectory written)
  | file content written => rfl
  | link target => rfl

end LeadsToFile

/-- Where a host takes the path of a name in a directory for a file, a walk from the directory
comes to it. -/
theorem walkFrom_of_isFile (found : host.find directory = .ok (place, .directory modified))
    (isName : IsName name) (isFile : host.isFile (Path.join directory name) = true) :
    byteLength (Path.join directory name) ≤ longestPath ∧
      ∃ left ≤ linkLimit, ∃ target content written,
        host.walkFrom true left place [name] = .ok (.present target (.file content written)) := by
  rw [Host.isFile] at isFile
  split at isFile
  · rename_i target content written fileFound
    have walkedPath := find_eq_ok fileFound
    obtain ⟨-, -, short, -⟩ := walk_eq_ok walkedPath
    obtain ⟨left, atMost, walked⟩ := walk_join found isName short
    rw [walked true] at walkedPath
    exact ⟨short, left, atMost, target, content, written, walkedPath⟩
  · cases isFile

/-- A path that a host takes for a file leads to it by its last name. -/
theorem leadsToFile_of_isFile (found : host.find directory = .ok (place, .directory modified))
    (there : host.lookup? place = some (.directory modified)) (isName : IsName name)
    (isFile : host.isFile (Path.join directory name) = true) :
    byteLength (Path.join directory name) ≤ longestPath ∧ host.LeadsToFile place name := by
  obtain ⟨short, left, -, arrives⟩ := walkFrom_of_isFile found isName isFile
  exact ⟨short, isName, ⟨modified, there⟩, left, arrives⟩

end Scriptlet.Host
