import Scriptlet.Proofs.Host.Removal

/-!
# Removing one thing after another

On its way to a file a walk passes directories, links and at last the file.  The links and
the file are its trail: where some things other than directories are gone, the walk still
arrives just if none of them is on the trail.  So a path that survives each removal alone
survives all of them together.
-/

namespace Scriptlet.Host

/-- A walk comes to a file. -/
def Arrives (host : Host) (links : Nat) (location : Location) (names : List Text) : Prop :=
  ∃ target content modified,
    host.walkFrom true links location names = .ok (.present target (.file content modified))

instance (host : Host) (links : Nat) (location : Location) (names : List Text) :
    Decidable (host.Arrives links location names) :=
  match walked : host.walkFrom true links location names with
  | .ok (.present target (.file content modified)) => .isTrue ⟨target, content, modified, walked⟩
  | .ok (.present _ (.directory _)) =>
      .isFalse fun ⟨_, _, _, there⟩ => nomatch walked.symm.trans there
  | .ok (.present _ (.link _)) =>
      .isFalse fun ⟨_, _, _, there⟩ => nomatch walked.symm.trans there
  | .ok (.absent _) => .isFalse fun ⟨_, _, _, there⟩ => nomatch walked.symm.trans there
  | .error _ => .isFalse fun ⟨_, _, _, there⟩ => nomatch walked.symm.trans there

/-- A host from which some things are gone, none of them a directory. -/
structure Stripped (before : Host) (gone : List Location) (after : Host) : Prop where
  lookup?_eq : ∀ location,
    after.lookup? location = if location ∈ gone then none else before.lookup? location
  no_directory : ∀ location ∈ gone, ¬before.IsDirectoryAt location
  workingDirectory_eq : after.workingDirectory = before.workingDirectory
  now_eq : after.now = before.now
  environment?_eq : after.environment? = before.environment?

variable {host before after : Host} {links : Nat} {location place : Location}
  {gone : List Location} {names rest : List Text} {directory name path target : Text}
  {entry : Entry} {modified : Time}

/-! ## Single steps -/

theorem walkFrom_enters (notDot : name ≠ ['.']) (notDots : name ≠ ['.', '.'])
    (short : byteLength name ≤ longestName)
    (found : host.lookup? (location ++ [name]) = some (.directory modified)) :
    host.walkFrom true links location (name :: rest) =
      host.walkFrom true links (location ++ [name]) rest := by
  rw [walkFrom_name _ _ _ _ notDot notDots, if_neg (Nat.not_lt_of_le short), found]

theorem walkFrom_follows (notDot : name ≠ ['.']) (notDots : name ≠ ['.', '.'])
    (short : byteLength name ≤ longestName)
    (found : host.lookup? (location ++ [name]) = some (.link target)) :
    host.walkFrom true (links + 1) location (name :: rest) =
      host.walkFrom true links (if Path.isAbsolute target then [] else location)
        (steps target ++ rest) := by
  rw [walkFrom_name _ _ _ _ notDot notDots, if_neg (Nat.not_lt_of_le short), found]
  exact if_neg fun unfollowed => unfollowed.2 rfl

/-- A walk that may follow more links arrives too. -/
theorem Arrives.more (arrives : host.Arrives links location names) {more : Nat}
    (atMost : links ≤ more) : host.Arrives more location names := by
  obtain ⟨target, content, modified, walked⟩ := arrives
  refine ⟨target, content, modified, ?_⟩
  induction links, location, names using walk_induction generalizing more with
  | done links location =>
      rw [walkFrom_nil] at walked ⊢
      exact walked
  | dot links location rest induction =>
      rw [walkFrom_dot] at walked ⊢
      exact induction atMost walked
  | dots links location rest induction =>
      rw [walkFrom_dots] at walked ⊢
      exact induction atMost walked
  | name links location name rest notDot notDots onward linked =>
      obtain ⟨short, takes⟩ := takes_of_walkFrom notDot notDots walked
      apply Takes.walkFrom_eq notDot notDots short
      generalize Place.present target (.file content modified) = ending at takes onward linked ⊢
      cases takes with
      | stops last stops => exact .stops last stops
      | enters found inner => exact .enters found (onward atMost inner)
      | follows found followed equal inner =>
          obtain ⟨fewer, rfl⟩ := Nat.exists_eq_add_of_lt (equal ▸ atMost)
          exact .follows found followed rfl (linked _ _ equal (by omega) inner)

/-- A walk that arrives finds something under each name that it takes. -/
theorem Arrives.lookup?_ne_none (notDot : name ≠ ['.']) (notDots : name ≠ ['.', '.'])
    (arrives : host.Arrives links location (name :: rest)) :
    host.lookup? (location ++ [name]) ≠ none := by
  obtain ⟨target, content, modified, walked⟩ := arrives
  intro missing
  obtain ⟨-, takes⟩ := takes_of_walkFrom notDot notDots walked
  generalize reached : Place.present target (.file content modified) = ending at takes
  cases takes with
  | stops =>
      rw [missing] at reached
      cases reached
  | enters found => cases missing.symm.trans found
  | follows found => cases missing.symm.trans found

namespace Stripped

theorem refl (host : Host) : Stripped host [] host :=
  ⟨fun _ => (if_neg List.not_mem_nil).symm, nofun, rfl, rfl, rfl⟩

/-- One thing more that leads to a file, or is one, is gone. -/
theorem drop (stripped : Stripped before gone after) (leads : after.LeadsToFile place name) :
    Stripped before (gone ++ [place ++ [name]]) (after.drop (place ++ [name])) where
  lookup?_eq location := by
    rw [lookup?_drop _ _ _ (by simp), stripped.lookup?_eq]
    by_cases here : place ++ [name] = location
    · simp [here]
    · simp [here, Ne.symm here]
  no_directory location member := by
    rcases List.mem_append.mp member with earlier | new
    · exact stripped.no_directory location earlier
    · cases List.mem_singleton.mp new
      rintro ⟨modified, directory⟩
      have here := stripped.lookup?_eq (place ++ [name])
      rw [directory] at here
      rcases leads.lookup?_cases with ⟨content, written, found⟩ | ⟨target, found⟩
      · rw [found] at here
        split at here <;> cases here
      · rw [found] at here
        split at here <;> cases here
  workingDirectory_eq := stripped.workingDirectory_eq
  now_eq := stripped.now_eq
  environment?_eq := stripped.environment?_eq

/-- Of all things that are gone, one alone is removed. -/
theorem single (stripped : Stripped before gone after) (member : location ∈ gone) :
    Stripped before [location] (before.drop location) where
  lookup?_eq other := by
    have inside : location ≠ [] := by
      rintro rfl
      exact stripped.no_directory [] member (isDirectoryAt_root before)
    rw [lookup?_drop _ _ _ inside]
    by_cases here : location = other
    · simp [here]
    · simp [here, Ne.symm here]
  no_directory other listed := by
    cases List.mem_singleton.mp listed
    exact stripped.no_directory _ member
  workingDirectory_eq := rfl
  now_eq := rfl
  environment?_eq := rfl

variable (stripped : Stripped before gone after)

include stripped

theorem lookup?_of_notMem (kept : location ∉ gone) :
    after.lookup? location = before.lookup? location :=
  (stripped.lookup?_eq location).trans (if_neg kept)

theorem lookup?_of_some (found : after.lookup? location = some entry) :
    before.lookup? location = some entry := by
  rw [stripped.lookup?_eq] at found
  split at found
  · cases found
  · exact found

theorem lookup?_of_directory (directory : before.lookup? location = some (.directory modified)) :
    after.lookup? location = some (.directory modified) := by
  rw [stripped.lookup?_of_notMem, directory]
  exact fun member => stripped.no_directory location member ⟨modified, directory⟩

/-- A walk that arrives where things are gone arrived before. -/
theorem arrives_before (arrives : after.Arrives links location names) :
    before.Arrives links location names := by
  obtain ⟨target, content, modified, walked⟩ := arrives
  refine ⟨target, content, modified, ?_⟩
  induction links, location, names using walk_induction with
  | done links location =>
      rw [walkFrom_nil] at walked ⊢
      cases found : after.lookup? location with
      | none =>
          rw [found] at walked
          cases walked
      | some entry =>
          rw [stripped.lookup?_of_some found]
          rw [found] at walked
          exact walked
  | dot links location rest induction =>
      rw [walkFrom_dot] at walked ⊢
      exact induction walked
  | dots links location rest induction =>
      rw [walkFrom_dots] at walked ⊢
      exact induction walked
  | name links location name rest notDot notDots onward linked =>
      obtain ⟨short, takes⟩ := takes_of_walkFrom notDot notDots walked
      generalize reached : Place.present target (.file content modified) = ending at takes
      cases takes with
      | stops last stops =>
          subst last
          cases found : after.lookup? (location ++ [name]) with
          | none =>
              rw [found] at reached
              cases reached
          | some entry =>
              have foundBefore := stripped.lookup?_of_some found
              rw [found] at stops reached
              rw [Takes.walkFrom_eq notDot notDots short (.stops rfl (foundBefore ▸ stops)),
                foundBefore]
      | enters found inner =>
          subst reached
          rw [walkFrom_enters notDot notDots short (stripped.lookup?_of_some found)]
          exact onward inner
      | follows found _ equal inner =>
          subst reached equal
          rw [walkFrom_follows notDot notDots short (stripped.lookup?_of_some found)]
          exact linked _ _ rfl inner

end Stripped

/-! ## Trails -/

namespace IsTree

/-- The trail of a walk to a file: the walk still arrives just where nothing on it is gone. -/
theorem exists_trail (tree : host.IsTree) (start : host.IsDirectoryAt location)
    (arrives : host.Arrives links location names) :
    ∃ trail : List Location, ∀ gone after, Stripped host gone after →
      (after.Arrives links location names ↔ ∀ passed ∈ trail, passed ∉ gone) := by
  obtain ⟨target, content, modified, walked⟩ := arrives
  induction links, location, names using walk_induction with
  | done links location =>
      obtain ⟨written, there⟩ := start
      rw [walkFrom_nil, there] at walked
      cases walked
  | dot links location rest induction =>
      rw [walkFrom_dot] at walked
      simp only [Arrives, walkFrom_dot]
      exact induction start walked
  | dots links location rest induction =>
      rw [walkFrom_dots] at walked
      simp only [Arrives, walkFrom_dots]
      exact induction (tree.isDirectoryAt_dropLast start) walked
  | name links location name rest notDot notDots onward linked =>
      obtain ⟨short, takes⟩ := takes_of_walkFrom notDot notDots walked
      generalize reached : Place.present target (.file content modified) = ending at takes
      have passes : ∀ {gone after}, Stripped host gone after →
          after.Arrives links location (name :: rest) → location ++ [name] ∉ gone := by
        intro gone after stripped arrives member
        apply arrives.lookup?_ne_none notDot notDots
        rw [stripped.lookup?_eq, if_pos member]
      -- directories are never gone, so the trail has the links and the last name only
      cases takes with
      | stops last stops =>
          subst last
          refine ⟨[location ++ [name]], fun gone after stripped => ?_⟩
          rw [List.forall_mem_singleton]
          refine ⟨passes stripped, fun kept => ⟨target, content, modified, ?_⟩⟩
          have same := stripped.lookup?_of_notMem kept
          rw [reached, ← same]
          rw [← same] at stops
          exact Takes.walkFrom_eq notDot notDots short (.stops rfl stops)
      | enters found inner =>
          subst reached
          obtain ⟨trail, isTrail⟩ := onward ⟨_, found⟩ inner
          refine ⟨trail, fun gone after stripped => ?_⟩
          rw [← isTrail gone after stripped, Arrives, Arrives,
            walkFrom_enters notDot notDots short (stripped.lookup?_of_directory found)]
      | @follows target fewer _ found _ equal inner =>
          subst reached equal
          obtain ⟨trail, isTrail⟩ := linked _ _ rfl (start.startOf _) inner
          refine ⟨(location ++ [name]) :: trail, fun gone after stripped => ?_⟩
          rw [List.forall_mem_cons, ← isTrail gone after stripped]
          have goesOn : location ++ [name] ∉ gone →
              (after.Arrives (fewer + 1) location (name :: rest) ↔
                after.Arrives fewer (if Path.isAbsolute target then [] else location)
                  (steps target ++ rest)) := by
            intro kept
            have linkFound := (stripped.lookup?_of_notMem kept).trans found
            rw [Arrives, Arrives, walkFrom_follows notDot notDots short linkFound]
          constructor
          · intro arrives
            have kept := passes stripped arrives
            exact ⟨kept, (goesOn kept).mp arrives⟩
          · rintro ⟨kept, arrives⟩
            exact (goesOn kept).mpr arrives

end IsTree

/-! ## Paths to files -/

theorem isFile_iff : host.isFile path = true ↔
    '\x00' ∉ path ∧ path ≠ [] ∧ byteLength path ≤ longestPath ∧
      host.Arrives linkLimit (if Path.isAbsolute path then [] else host.workingDirectory)
        (steps path) := by
  constructor
  · intro isFile
    rw [Host.isFile] at isFile
    split at isFile
    · rename_i target content modified found
      obtain ⟨clean, full, short, walked⟩ := walk_eq_ok (find_eq_ok found)
      exact ⟨clean, full, short, target, content, modified, walked⟩
    · cases isFile
  · rintro ⟨clean, full, short, target, content, modified, walked⟩
    rw [isFile, find, walk_of_short clean full short, walked]

/-- Where a path of a name in a directory leads to a file, so does the name alone. -/
theorem arrives_of_isFile (found : host.find directory = .ok (place, .directory modified))
    (isName : IsName name) (isFile : host.isFile (Path.join directory name) = true) :
    host.Arrives linkLimit place [name] := by
  obtain ⟨-, left, atMost, arrives⟩ := walkFrom_of_isFile found isName isFile
  exact Arrives.more arrives atMost

theorem IsTree.exists_trail_of_isFile (tree : host.IsTree) (isFile : host.isFile path = true) :
    ∃ trail : List Location, ∀ gone after, Stripped host gone after →
      (after.isFile path = true ↔ ∀ passed ∈ trail, passed ∉ gone) := by
  obtain ⟨clean, full, short, arrives⟩ := isFile_iff.mp isFile
  obtain ⟨trail, isTrail⟩ :=
    tree.exists_trail (tree.workingDirectory.startOf path) arrives
  refine ⟨trail, fun gone after stripped => ?_⟩
  rw [isFile_iff, stripped.workingDirectory_eq, ← isTrail gone after stripped]
  exact ⟨fun ⟨_, _, _, arrives⟩ => arrives, fun arrives => ⟨clean, full, short, arrives⟩⟩

namespace Stripped

variable (stripped : Stripped before gone after)

include stripped

/-- What is a file where things are gone was one before. -/
theorem isFile_before (isFile : after.isFile path = true) : before.isFile path = true := by
  obtain ⟨clean, full, short, arrives⟩ := isFile_iff.mp isFile
  rw [stripped.workingDirectory_eq] at arrives
  exact isFile_iff.mpr ⟨clean, full, short, stripped.arrives_before arrives⟩

/-- A path leads to a file where things are gone just if it did before and would without
any one of them. -/
theorem isFile_iff (tree : before.IsTree) : after.isFile path = true ↔
    before.isFile path = true ∧ ∀ location ∈ gone, (before.drop location).isFile path = true := by
  constructor
  · intro isFile
    have isFileBefore := stripped.isFile_before isFile
    obtain ⟨trail, isTrail⟩ := tree.exists_trail_of_isFile isFileBefore
    have kept := (isTrail gone after stripped).mp isFile
    refine ⟨isFileBefore, fun location member => ?_⟩
    refine (isTrail _ _ (stripped.single member)).mpr fun passed onTrail here => ?_
    exact kept passed onTrail (List.mem_singleton.mp here ▸ member)
  · rintro ⟨isFileBefore, alone⟩
    obtain ⟨trail, isTrail⟩ := tree.exists_trail_of_isFile isFileBefore
    refine (isTrail gone after stripped).mpr fun passed onTrail member => ?_
    have survives := (isTrail _ _ (stripped.single member)).mp (alone passed member)
    exact survives passed onTrail (List.mem_singleton_self passed)

end Stripped

end Scriptlet.Host
