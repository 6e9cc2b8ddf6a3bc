import Mathlib.Data.List.Induction
import Scriptlet.Host.Files
import Scriptlet.Proofs.Host.Walk

/-!
# Trees of files

In a tree everything stands in a directory, under a name that a walk can take.  So the
absolute path of a file leads to that file again wherever it is short enough to be
walked, also where it is made without looking at any file.
-/

namespace Scriptlet.Host

/-- A name that something in a directory can have. -/
structure IsName (name : Text) : Prop where
  isPart : Path.IsPart name
  ne_dot : name ≠ ['.']
  ne_dots : name ≠ ['.', '.']
  clean : '\x00' ∉ name
  short : byteLength name ≤ longestName

instance (name : Text) : Decidable (IsName name) :=
  decidable_of_iff (Path.IsPart name ∧ name ≠ ['.'] ∧ name ≠ ['.', '.'] ∧ '\x00' ∉ name ∧
      byteLength name ≤ longestName)
    ⟨fun parts => ⟨parts.1, parts.2.1, parts.2.2.1, parts.2.2.2.1, parts.2.2.2.2⟩,
      fun isName => ⟨isName.isPart, isName.ne_dot, isName.ne_dots, isName.clean, isName.short⟩⟩

def IsDirectoryAt (host : Host) (location : Location) : Prop :=
  ∃ modified, host.lookup? location = some (.directory modified)

instance (host : Host) (location : Location) : Decidable (host.IsDirectoryAt location) :=
  match found : host.lookup? location with
  | some (.directory modified) => .isTrue ⟨modified, found⟩
  | some (.file _ _) => .isFalse fun ⟨_, there⟩ => nomatch found.symm.trans there
  | some (.link _) => .isFalse fun ⟨_, there⟩ => nomatch found.symm.trans there
  | none => .isFalse fun ⟨_, there⟩ => nomatch found.symm.trans there

structure IsTree (host : Host) : Prop where
  isName_of : ∀ location name entry, host.lookup? (location ++ [name]) = some entry → IsName name
  isDirectoryAt_of : ∀ location name entry, host.lookup? (location ++ [name]) = some entry →
    host.IsDirectoryAt location
  workingDirectory : host.IsDirectoryAt host.workingDirectory

variable {host : Host} {followLast : Bool} {links : Nat} {location : Location}
  {names rest : List Text} {name path : Text} {entry : Entry} {place : Place}
  {content : Content} {modified : Time}

theorem isDirectoryAt_root (host : Host) : host.IsDirectoryAt [] :=
  ⟨⟨0⟩, rfl⟩

/-- A walk goes on at a path or a link from a directory again. -/
theorem IsDirectoryAt.startOf (directory : host.IsDirectoryAt location) (path : Text) :
    host.IsDirectoryAt (if Path.isAbsolute path then [] else location) := by
  split
  · exact isDirectoryAt_root host
  · exact directory

theorem IsName.walkFrom_of_lookup? (isName : IsName name)
    (found : host.lookup? (location ++ [name]) = some (.file content modified)) :
    host.walkFrom followLast links location [name] =
      .ok (.present (location ++ [name]) (.file content modified)) := by
  rw [walkFrom_name _ _ _ _ isName.ne_dot isName.ne_dots,
    if_neg (Nat.not_lt_of_le isName.short), found]
  rfl

/-- Dropping a dot does not keep a walk that follows its last link from ending. -/
theorem walkFrom_drop_dot (walked : host.walkFrom true links location (names ++ ['.'] :: rest) =
    .ok place) : host.walkFrom true links location (names ++ rest) = .ok place := by
  induction links, location, names using walk_induction with
  | done => rwa [List.nil_append, walkFrom_dot] at walked
  | dot links location names induction =>
      rw [List.cons_append, walkFrom_dot] at walked ⊢
      exact induction walked
  | dots links location names induction =>
      rw [List.cons_append, walkFrom_dots] at walked ⊢
      exact induction walked
  | name links location name names notDot notDots onward linked =>
      rw [List.cons_append] at walked ⊢
      obtain ⟨short, takes⟩ := takes_of_walkFrom notDot notDots walked
      cases takes with
      | stops last => exact absurd last (by simp)
      | enters found walked =>
          exact (Takes.enters found (onward walked)).walkFrom_eq notDot notDots short
      | follows found _ equal walked =>
          rw [← List.append_assoc] at walked
          have goesOn := linked _ _ equal walked
          rw [List.append_assoc] at goesOn
          exact (Takes.follows found (fun _ => rfl) equal goesOn).walkFrom_eq notDot notDots short

theorem walkFrom_filter_dots (names rest : List Text)
    (walked : host.walkFrom true links location (names ++ rest) = .ok place) :
    host.walkFrom true links location (names ++ rest.filter (· ≠ ['.'])) = .ok place := by
  induction rest generalizing names with
  | nil => exact walked
  | cons name rest induction =>
      by_cases dot : name = ['.']
      · subst dot
        exact induction names (walkFrom_drop_dot walked)
      · rw [List.filter_cons_of_pos (by simpa using dot), List.append_cons]
        apply induction
        rwa [← List.append_cons]

theorem mem_entries_of_lookup? (found : host.lookup? (location ++ [name]) = some entry) :
    (location ++ [name], entry) ∈ host.entries := by
  rw [lookup?, if_neg (by simp)] at found
  exact Table.mem_of_get? found

/-- The names in a directory are those under which something is there. -/
theorem mem_namesIn_iff :
    name ∈ host.namesIn location ↔ ∃ entry, host.lookup? (location ++ [name]) = some entry := by
  rw [namesIn, List.mem_filterMap]
  constructor
  · rintro ⟨listed, inEntries, kept⟩
    obtain ⟨value, found⟩ := Table.exists_get?_of_mem (List.mem_reverse.mp inEntries)
    split at kept
    · rename_i last lastEq
      split at kept
      · rename_i here
        cases kept
        obtain ⟨front, frontEq⟩ := List.getLast?_eq_some_iff.mp lastEq
        rw [frontEq, List.dropLast_concat] at here
        refine ⟨value, ?_⟩
        rw [lookup?, if_neg (by simp), ← here, ← frontEq, found]
      · cases kept
    · cases kept
  · rintro ⟨entry, found⟩
    exact ⟨_, List.mem_reverse.mpr (mem_entries_of_lookup? found), by simp⟩

namespace IsTree

theorem isDirectoryAt_of_append (tree : host.IsTree)
    (found : host.lookup? (location ++ names) = some entry) (inside : names ≠ []) :
    host.IsDirectoryAt location := by
  induction names using List.reverseRecOn generalizing entry with
  | nil => exact absurd rfl inside
  | append_singleton names name induction =>
      rw [← List.append_assoc] at found
      obtain ⟨written, parent⟩ := tree.isDirectoryAt_of _ _ _ found
      by_cases empty : names = []
      · subst empty
        rw [List.append_nil] at parent
        exact ⟨written, parent⟩
      · exact induction parent empty

theorem isName_of_mem (tree : host.IsTree) (found : host.lookup? location = some entry)
    (member : name ∈ location) : IsName name := by
  obtain ⟨front, back, rfl⟩ := List.append_of_mem member
  rw [List.append_cons] at found
  by_cases last : back = []
  · subst last
    rw [List.append_nil] at found
    exact tree.isName_of _ _ _ found
  · obtain ⟨written, parent⟩ := tree.isDirectoryAt_of_append found last
    exact tree.isName_of _ _ _ parent

theorem isName_of_mem_namesIn (tree : host.IsTree) (member : name ∈ host.namesIn location) :
    IsName name := by
  obtain ⟨entry, found⟩ := mem_namesIn_iff.mp member
  exact tree.isName_of _ _ _ found

theorem isDirectoryAt_dropLast (tree : host.IsTree) (directory : host.IsDirectoryAt location) :
    host.IsDirectoryAt location.dropLast := by
  obtain ⟨written, found⟩ := directory
  by_cases root : location = []
  · subst root
    exact isDirectoryAt_root host
  · rw [← List.dropLast_concat_getLast root] at found
    exact tree.isDirectoryAt_of _ _ _ found

/-- What a walk comes to is there. -/
theorem lookup?_of_walkFrom (tree : host.IsTree) (start : host.IsDirectoryAt location)
    {target : Location}
    (walked : host.walkFrom followLast links location names = .ok (.present target entry)) :
    host.lookup? target = some entry := by
  induction links, location, names using walk_induction with
  | done links location =>
      obtain ⟨written, there⟩ := start
      rw [walkFrom_nil, there] at walked
      cases walked
      exact there
  | dot links location names induction =>
      rw [walkFrom_dot] at walked
      exact induction start walked
  | dots links location names induction =>
      rw [walkFrom_dots] at walked
      exact induction (tree.isDirectoryAt_dropLast start) walked
  | name links location name names notDot notDots onward linked =>
      generalize reached : Place.present target entry = ending at walked
      cases (takes_of_walkFrom notDot notDots walked).2 with
      | stops =>
          cases found : host.lookup? (location ++ [name]) with
          | none =>
              rw [found] at reached
              cases reached
          | some entry =>
              rw [found] at reached
              cases reached
              exact found
      | enters found inner =>
          subst reached
          exact onward ⟨_, found⟩ inner
      | follows _ _ equal inner =>
          subst reached
          exact linked _ _ equal (start.startOf _) inner

/-- A walk goes straight down to a directory. -/
theorem walkFrom_down (tree : host.IsTree) (directory : host.IsDirectoryAt (location ++ names)) :
    host.walkFrom followLast links location (names ++ rest) =
      host.walkFrom followLast links (location ++ names) rest := by
  induction names generalizing location with
  | nil => rw [List.nil_append, List.append_nil]
  | cons name names induction =>
      rw [List.append_cons] at directory ⊢
      have step : host.IsDirectoryAt (location ++ [name]) := by
        by_cases last : names = []
        · subst last
          rwa [List.append_nil] at directory
        · obtain ⟨written, found⟩ := directory
          exact tree.isDirectoryAt_of_append found last
      obtain ⟨written, found⟩ := step
      have isName := tree.isName_of _ _ _ found
      rw [← induction directory, List.cons_append,
        walkFrom_name _ _ _ _ isName.ne_dot isName.ne_dots,
        if_neg (Nat.not_lt_of_le isName.short), found]

/-- A walk whose last step is a dot ends in a directory. -/
theorem isDirectory_of_walkFrom_dot (tree : host.IsTree) (directory : host.IsDirectoryAt location)
    (walked : host.walkFrom followLast links location (names ++ [['.']]) = .ok place) :
    ∃ target written, place = .present target (.directory written) := by
  induction links, location, names using walk_induction with
  | done links location =>
      obtain ⟨written, found⟩ := directory
      rw [List.nil_append, walkFrom_dot, walkFrom_nil, found] at walked
      cases walked
      exact ⟨_, _, rfl⟩
  | dot links location names induction =>
      rw [List.cons_append, walkFrom_dot] at walked
      exact induction directory walked
  | dots links location names induction =>
      rw [List.cons_append, walkFrom_dots] at walked
      exact induction (tree.isDirectoryAt_dropLast directory) walked
  | name links location name names notDot notDots onward linked =>
      rw [List.cons_append] at walked
      cases (takes_of_walkFrom notDot notDots walked).2 with
      | stops last => exact absurd last (by simp)
      | enters found walked => exact onward ⟨_, found⟩ walked
      | follows _ _ equal walked =>
          rw [← List.append_assoc] at walked
          exact linked _ _ equal (directory.startOf _) walked

end IsTree

/-! ## Trees by their entries -/

/-- Something in a directory, under a name that a walk can take. -/
def Stands (host : Host) (location : Location) : Prop :=
  ∀ name ∈ location.getLast?, IsName name ∧ host.IsDirectoryAt location.dropLast

instance (host : Host) (location : Location) : Decidable (host.Stands location) :=
  inferInstanceAs (Decidable (∀ name ∈ location.getLast?, _))

theorem stands_append (location : Location) (isName : IsName name)
    (directory : host.IsDirectoryAt location) : host.Stands (location ++ [name]) := by
  intro last isLast
  rw [List.getLast?_concat] at isLast
  cases isLast
  rw [List.dropLast_concat]
  exact ⟨isName, directory⟩

/-- A host is a tree where all its entries stand in directories. -/
theorem isTree_of_entries (stands : ∀ entry ∈ host.entries, host.Stands entry.1)
    (working : host.IsDirectoryAt host.workingDirectory) : host.IsTree where
  isName_of location name entry found :=
    (stands _ (mem_entries_of_lookup? found) name (by simp)).1
  isDirectoryAt_of location name entry found := by
    have parent := (stands _ (mem_entries_of_lookup? found) name (by simp)).2
    simpa using parent
  workingDirectory := working

namespace IsTree

/-! ## Paths from the root -/

theorem areParts (tree : host.IsTree) (found : host.lookup? location = some entry) :
    ∀ part ∈ location, Path.IsPart part :=
  fun _ member => (tree.isName_of_mem found member).isPart

theorem notMem_pathOf (tree : host.IsTree) (found : host.lookup? location = some entry) :
    '\x00' ∉ pathOf location := by
  intro member
  rcases List.mem_cons.mp member with slash | member
  · exact absurd slash (by decide)
  · rcases Path.mem_ofParts member with slash | ⟨part, listed, inPart⟩
    · exact absurd slash (by decide)
    · exact (tree.isName_of_mem found listed).clean inPart

theorem names_pathOf (tree : host.IsTree) (found : host.lookup? location = some entry) :
    Path.names (pathOf location) = location := by
  rw [pathOf, Path.names_cons_slash, Path.names_ofParts (tree.areParts found)]

theorem find_pathOf (tree : host.IsTree)
    (found : host.lookup? location = some (.file content modified))
    (short : byteLength (pathOf location) ≤ longestPath) :
    host.find (pathOf location) = .ok (location, .file content modified) := by
  obtain ⟨front, name, rfl⟩ : ∃ front name, location = front ++ [name] := by
    rcases List.eq_nil_or_concat location with rfl | ⟨front, name, rfl⟩
    · cases found
    · exact ⟨front, name, List.concat_eq_append⟩
  have unended : Path.endsWithSlash (pathOf (front ++ [name])) = false :=
    Path.endsWithSlash_ofParts (tree.areParts found) (by simp) ['/']
  have stepsEq : steps (pathOf (front ++ [name])) = front ++ [name] := by
    rw [steps_of_unended unended, tree.names_pathOf found]
  have walked : host.walk true (pathOf (front ++ [name])) =
      .ok (.present (front ++ [name]) (.file content modified)) := by
    rw [walk_of_short (tree.notMem_pathOf found) (by simp [pathOf]) short, stepsEq]
    have directory := tree.isDirectoryAt_of _ _ _ found
    have down : host.walkFrom true linkLimit [] (front ++ [name]) =
        host.walkFrom true linkLimit front [name] :=
      tree.walkFrom_down directory
    exact down.trans ((tree.isName_of _ _ _ found).walkFrom_of_lookup? found)
  rw [find, walked]

end IsTree

/-! ## The length of paths -/

theorem byteLength_pathOf_cons (first : Text) (inside : location ≠ []) :
    byteLength (pathOf (first :: location)) =
      byteLength first + 1 + byteLength (pathOf location) := by
  obtain ⟨second, rest, rfl⟩ := List.exists_cons_of_ne_nil inside
  have whole : pathOf (first :: second :: rest) = ['/'] ++ first ++ pathOf (second :: rest) := by
    rw [pathOf, Path.ofParts_cons_cons]
    rfl
  have slash : byteLength ['/'] = 1 := by decide
  rw [whole, byteLength_append, byteLength_append, slash]
  omega

/-- A path takes at least the bytes of its first names, with a slash before each. -/
theorem le_byteLength_pathOf_replicate (depth : Nat) (name : Text) (names : List Text) :
    depth * (byteLength name + 1) ≤ byteLength (pathOf (List.replicate depth name ++ names)) := by
  induction depth with
  | zero =>
      rw [Nat.zero_mul]
      exact Nat.zero_le _
  | succ depth induction =>
      rw [List.replicate_succ, List.cons_append, Nat.succ_mul]
      by_cases inside : List.replicate depth name ++ names = []
      · have single : pathOf [name] = ['/'] ++ name := by
          rw [pathOf, Path.ofParts, List.intersperse, List.flatten_singleton]
          rfl
        have slash : byteLength ['/'] = 1 := by decide
        have none : depth = 0 := by simpa using (List.append_eq_nil_iff.mp inside).1
        rw [inside, none, single, byteLength_append, slash]
        omega
      · rw [byteLength_pathOf_cons name inside]
        omega

/-- Joining parts to a path does not make it shorter. -/
theorem byteLength_le_foldl_join {parts : List Text}
    (areParts : ∀ part ∈ parts, Path.IsPart part) (root : Text) :
    byteLength root ≤ byteLength (parts.foldl Path.join root) := by
  induction parts generalizing root with
  | nil => exact Nat.le_refl _
  | cons part parts induction =>
      obtain ⟨between, -, joined⟩ :=
        Path.join_of_isPart (areParts part (List.mem_cons_self ..)) root
      have grown : byteLength root ≤ byteLength (Path.join root part) := by
        rw [joined, byteLength_append, byteLength_append]
        omega
      exact Nat.le_trans grown (induction (fun other member =>
        areParts other (List.mem_cons_of_mem _ member)) _)

/-! ## Absolute paths -/

theorem find_eq_ok (found : host.find path = .ok (location, entry)) :
    host.walk true path = .ok (.present location entry) := by
  rw [find] at found
  split at found
  · rename_i walked
    cases found
    exact walked
  · cases found
  · cases found

theorem lookup?_of_find (found : host.find path = .ok (location, .file content modified)) :
    host.lookup? location = some (.file content modified) :=
  lookup?_of_present_file (find_eq_ok found)

theorem IsTree.lookup?_of_find_eq_ok (tree : host.IsTree)
    (found : host.find path = .ok (location, entry)) : host.lookup? location = some entry := by
  obtain ⟨-, -, -, walked⟩ := walk_eq_ok (find_eq_ok found)
  exact tree.lookup?_of_walkFrom (tree.workingDirectory.startOf path) walked

theorem absolute_of_find (found : host.find path = .ok (location, entry)) :
    host.absolute path =
      if longestPath < byteLength (pathOf location) then
        Path.absolute (pathOf host.workingDirectory) path
      else pathOf location := by
  rw [absolute, canonical, found]
  by_cases long : longestPath < byteLength (pathOf location)
  · simp [bind, Except.bind, long, throw, throwThe, MonadExceptOf.throw]
  · simp [bind, Except.bind, long, pure, Except.pure]

namespace IsTree

/-- The walk to a file takes the parts of its path, and neither a slash nor a dot ends it. -/
private theorem walkFrom_parts (tree : host.IsTree)
    (found : host.find path = .ok (location, .file content modified)) :
    Path.endsWithSlash path = false ∧ Path.parts path ≠ [] ∧
      host.walkFrom true linkLimit
        (if Path.isAbsolute path then [] else host.workingDirectory) (Path.parts path) =
        .ok (.present location (.file content modified)) := by
  obtain ⟨-, -, -, walked⟩ := walk_eq_ok (find_eq_ok found)
  have start := tree.workingDirectory.startOf path
  have unended : Path.endsWithSlash path = false := by
    cases ended : Path.endsWithSlash path with
    | false => rfl
    | true =>
        rw [steps_of_ended ended] at walked
        obtain ⟨target, written, isDirectory⟩ := tree.isDirectory_of_walkFrom_dot start walked
        cases isDirectory
  rw [steps_of_unended unended] at walked
  have withoutDots := walkFrom_filter_dots [] (Path.names path) walked
  rw [List.nil_append, ← Path.parts_eq] at withoutDots
  refine ⟨unended, fun none => ?_, withoutDots⟩
  obtain ⟨written, there⟩ := start
  rw [none, walkFrom_nil, there] at withoutDots
  cases withoutDots

/-- A path to a file that is made absolute without looking at files leads to the file
too, unless it is too long. -/
private theorem find_lexical (tree : host.IsTree)
    (found : host.find path = .ok (location, .file content modified)) :
    host.find (Path.absolute (pathOf host.workingDirectory) path) =
      if longestPath < byteLength (Path.absolute (pathOf host.workingDirectory) path) then
        .error .nameTooLong
      else .ok (location, .file content modified) := by
  obtain ⟨clean, full, -, -⟩ := walk_eq_ok (find_eq_ok found)
  obtain ⟨unended, inside, walked⟩ := tree.walkFrom_parts found
  obtain ⟨written, working⟩ := tree.workingDirectory
  -- the parts of the path are joined to the working directory, or to slashes alone
  obtain ⟨root, wholeEq, kind⟩ :=
    Path.absolute_eq (pathOf host.workingDirectory) unended full
  have joined := Path.foldl_join_extends
    (fun part (member : part ∈ Path.parts path) => Path.isPart_of_mem_parts member) root
  rw [← wholeEq] at joined
  generalize Path.absolute (pathOf host.workingDirectory) path = whole at joined
  have rootAbsolute : Path.isAbsolute root = true := by
    rcases kind with ⟨-, rfl⟩ | ⟨-, rfl | rfl⟩ <;> rfl
  have wholeAbsolute := joined.isAbsolute_of rootAbsolute
  have wholeFull : whole ≠ [] := by
    rintro rfl
    cases wholeAbsolute
  have wholeClean : '\x00' ∉ whole := by
    intro member
    rcases joined.mem_of _ member with inRoot | slash | ⟨part, listed, inPart⟩
    · rcases kind with ⟨-, rfl⟩ | ⟨-, rfl | rfl⟩
      · exact tree.notMem_pathOf working inRoot
      · exact absurd inRoot (by decide)
      · exact absurd inRoot (by decide)
    · exact absurd slash (by decide)
    · rw [Path.parts_eq, List.mem_filter] at listed
      exact clean (Path.mem_of_mem_names listed.1 inPart)
  have wholeSteps : steps whole = Path.names root ++ Path.parts path := by
    rw [steps_of_unended (joined.endsWithSlash_eq inside), joined.names_eq]
  by_cases long : longestPath < byteLength whole
  · rw [if_pos long, find, walk, if_neg wholeClean, if_neg wholeFull, if_pos long]
  rw [if_neg long, find, walk_of_short wholeClean wholeFull (Nat.le_of_not_lt long),
    if_pos wholeAbsolute, wholeSteps]
  rcases kind with ⟨relative, rfl⟩ | ⟨isAbsolute, rootEq⟩
  · rw [relative] at walked
    simp only [Bool.false_eq_true, if_false] at walked
    rw [tree.names_pathOf working, tree.walkFrom_down (by simpa using tree.workingDirectory),
      List.nil_append, walked]
  · have noNames : Path.names root = [] := by
      rcases rootEq with rfl | rfl <;> rfl
    rw [isAbsolute, if_pos rfl] at walked
    rw [noNames, List.nil_append, walked]

/-- The absolute path of a file leads to the file, unless it is too long. -/
theorem find_absolute (tree : host.IsTree)
    (found : host.find path = .ok (location, .file content modified)) :
    host.find (host.absolute path) =
      if longestPath < byteLength (host.absolute path) then .error .nameTooLong
      else .ok (location, .file content modified) := by
  rw [absolute_of_find found]
  split
  · exact tree.find_lexical found
  · rename_i fits
    exact tree.find_pathOf (lookup?_of_find found) (Nat.le_of_not_lt fits)

end IsTree

end Scriptlet.Host
