import Scriptlet.Proofs.Cache.Store
import Scriptlet.Proofs.Host.Trail

/-!
# Clearing a store

A store is cleared name by name, in the order in which the host lists its directory.  Each
name is tried by its path when its turn comes, so an artifact stays where that path is too
long to be walked, and where it leads through something that went before.  Only a link can
do so.
-/

namespace Scriptlet.Cache

open Host

/-- An artifact of a directory: a name with the extension that is that of a file, or of a
link that leads to one. -/
def IsArtifact (host : Host) (place : Location) (name : Text) : Prop :=
  isArtifactName name = true ∧ host.Arrives linkLimit place [name]

/-- The names of all that is in a directory, in any order. -/
def Lists (host : Host) (place : Location) (names : List Text) : Prop :=
  ∀ name, name ∈ names ↔ ∃ entry, host.lookup? (place ++ [name]) = some entry

def listedBefore (name : Text) (names : List Text) : List Text :=
  names.takeWhile (· ≠ name)

/-- What another name stands for is on the way to the file of a name: without it, the path
leads to none. -/
def LeadsThrough (host : Host) (directory : Text) (place : Location) (name other : Text) : Prop :=
  (host.drop (place ++ [other])).isFile (Path.join directory name) = false

/-- What clearing takes away of the names that a host lists: those of artifacts that are
reached, unless they lead through what was listed before and taken away. -/
structure Clears (host : Host) (directory : Text) (place : Location) (names gone : List Text) :
    Prop where
  nodup : gone.Nodup
  mem_iff : ∀ name, name ∈ gone ↔ name ∈ names ∧ isArtifactName name = true ∧
    host.isFile (Path.join directory name) = true ∧
    ∀ other ∈ gone, other ∈ listedBefore name names →
      ¬LeadsThrough host directory place name other

/-- What clearing preserves while it goes through the names. -/
private structure Clearing (host : Host) (directory : Text) (place : Location) (gone : List Text)
    (now : Host) : Prop where
  tree : now.IsTree
  found : ∃ modified, now.find directory = .ok (place, .directory modified) ∧
    now.lookup? place = some (.directory modified)
  stripped : Stripped host (gone.map (place ++ [·])) now

variable {cache : Cache} {host now after : Host} {directory : Text} {place : Location}
  {first name other : Text} {names gone : List Text} {modified : Time}

instance (host : Host) (place : Location) (name : Text) :
    Decidable (IsArtifact host place name) :=
  inferInstanceAs (Decidable (_ ∧ _))

instance (host : Host) (directory : Text) (place : Location) (name other : Text) :
    Decidable (LeadsThrough host directory place name other) :=
  inferInstanceAs (Decidable (_ = _))

private theorem listedBefore_cons (apart : first ≠ name) (names : List Text) :
    listedBefore name (first :: names) = first :: listedBefore name names :=
  List.takeWhile_cons_of_pos (by simpa using apart)

private theorem forall_listed_of_taken (apart : first ≠ name) {condition : Text → Prop} :
    (∀ other ∈ first :: gone, other ∈ listedBefore name (first :: names) → condition other) ↔
      condition first ∧ ∀ other ∈ gone, other ∈ listedBefore name names → condition other := by
  rw [listedBefore_cons apart, List.forall_mem_cons]
  constructor
  · rintro ⟨taken, rest⟩
    exact ⟨taken (List.mem_cons_self ..),
      fun other member listed => rest other member (List.mem_cons_of_mem _ listed)⟩
  · rintro ⟨taken, rest⟩
    refine ⟨fun _ => taken, fun other member listed => ?_⟩
    rcases List.mem_cons.mp listed with rfl | later
    · exact taken
    · exact rest other member later

private theorem forall_listed_of_left (apart : first ≠ name) (left : first ∉ gone)
    {condition : Text → Prop} :
    (∀ other ∈ gone, other ∈ listedBefore name (first :: names) → condition other) ↔
      ∀ other ∈ gone, other ∈ listedBefore name names → condition other := by
  rw [listedBefore_cons apart]
  refine forall₂_congr fun other member => ?_
  have differs : other ≠ first := fun same => left (same ▸ member)
  simp only [List.mem_cons, differs, false_or]

namespace Clearing

variable (clearing : Clearing host directory place gone now)

include clearing

private theorem isFile_iff (tree : host.IsTree) : now.isFile (Path.join directory name) = true ↔
    host.isFile (Path.join directory name) = true ∧
      ∀ other ∈ gone, ¬LeadsThrough host directory place name other := by
  rw [clearing.stripped.isFile_iff tree, List.forall_mem_map]
  simp only [LeadsThrough, Bool.not_eq_false]

private theorem leadsToFile (isName : IsName name)
    (isFile : now.isFile (Path.join directory name) = true) :
    byteLength (Path.join directory name) ≤ longestPath ∧ now.LeadsToFile place name := by
  obtain ⟨modified, found, there⟩ := clearing.found
  exact leadsToFile_of_isFile found there isName isFile

private theorem removeFile_eq (isName : IsName name)
    (isFile : now.isFile (Path.join directory name) = true) :
    now.removeFile (Path.join directory name) = .ok (now.drop (place ++ [name])) := by
  obtain ⟨short, leads⟩ := clearing.leadsToFile isName isFile
  obtain ⟨modified, found, -⟩ := clearing.found
  exact leads.removeFile_eq found short

/-- Taking away one name more. -/
private theorem drop (isName : IsName name)
    (isFile : now.isFile (Path.join directory name) = true) :
    Clearing host directory place (gone ++ [name]) (now.drop (place ++ [name])) := by
  obtain ⟨-, leads⟩ := clearing.leadsToFile isName isFile
  obtain ⟨modified, found, there⟩ := clearing.found
  refine ⟨leads.isTree_drop clearing.tree,
    ⟨modified, leads.find_drop clearing.tree found, leads.lookup?_drop_of_directory there⟩, ?_⟩
  rw [List.map_append, List.map_singleton]
  exact clearing.stripped.drop leads

private theorem isFile_drop_iff (tree : host.IsTree) (isName : IsName first)
    (isFile : now.isFile (Path.join directory first) = true) :
    (now.drop (place ++ [first])).isFile (Path.join directory name) = true ↔
      now.isFile (Path.join directory name) = true ∧
        ¬LeadsThrough host directory place name first := by
  rw [(clearing.drop isName isFile).isFile_iff tree, clearing.isFile_iff tree,
    List.forall_mem_append, List.forall_mem_singleton, and_assoc]

/-- What has gone leads to no file. -/
private theorem isFile_eq_false (member : name ∈ gone) (isName : IsName name) :
    now.isFile (Path.join directory name) = false := by
  rw [Bool.eq_false_iff]
  intro isFile
  obtain ⟨-, leads⟩ := clearing.leadsToFile isName isFile
  have missing := clearing.stripped.lookup?_eq (place ++ [name])
  rw [if_pos (List.mem_map_of_mem member)] at missing
  rcases leads.lookup?_cases with ⟨content, written, found⟩ | ⟨target, found⟩
  · cases missing.symm.trans found
  · cases missing.symm.trans found

/-- The names that are still to come are gone through from where the clearing stands. -/
private theorem clearNames (tree : host.IsTree) (areNames : ∀ name ∈ names, IsName name) :
    ∃ more after, Cache.clearNames directory names now = .ok (more.length, after) ∧
      Clearing host directory place (gone ++ more) after ∧ more.Nodup ∧
      ∀ name, name ∈ more ↔ name ∈ names ∧ isArtifactName name = true ∧
        now.isFile (Path.join directory name) = true ∧
        ∀ other ∈ more, other ∈ listedBefore name names →
          ¬LeadsThrough host directory place name other := by
  induction names generalizing gone now with
  | nil =>
      refine ⟨[], now, rfl, by rwa [List.append_nil], List.nodup_nil, fun name => ?_⟩
      simp only [List.not_mem_nil, false_and]
  | cons first names induction =>
      rw [List.forall_mem_cons] at areNames
      obtain ⟨isName, restNames⟩ := areNames
      rw [Cache.clearNames]
      by_cases taken : isArtifactName first = true ∧ now.isFile (Path.join directory first) = true
      · obtain ⟨isArtifact, isFile⟩ := taken
        have next := clearing.drop isName isFile
        obtain ⟨more, after, cleared, ends, distinct, members⟩ := induction next restNames
        refine ⟨first :: more, after, ?_, ?_, ?_, fun name => ?_⟩
        · simp only [isArtifact, isFile, Bool.and_self, if_true,
            clearing.removeFile_eq isName isFile, cleared]
          rfl
        · rwa [List.append_cons]
        · -- were the name listed again, it would lead to nothing by then
          refine List.nodup_cons.mpr ⟨fun again => ?_, distinct⟩
          have stillFile := ((members first).mp again).2.2.1
          have missing := next.isFile_eq_false (by simp) isName
          rw [missing] at stillFile
          cases stillFile
        · by_cases here : first = name
          · subst here
            simp [isArtifact, isFile, listedBefore]
          · rw [List.mem_cons, List.mem_cons, forall_listed_of_taken here, members,
              clearing.isFile_drop_iff tree isName isFile]
            simp only [Ne.symm here, false_or]
            tauto
      · rw [if_neg (by simpa using taken)]
        obtain ⟨more, after, cleared, ends, distinct, members⟩ := induction clearing restNames
        refine ⟨more, after, cleared, ends, distinct, fun name => ?_⟩
        have stays : first ∉ more := fun member =>
          taken ⟨((members first).mp member).2.1, ((members first).mp member).2.2.1⟩
        by_cases here : first = name
        · subst here
          exact iff_of_false stays fun removed => taken ⟨removed.2.1, removed.2.2.1⟩
        · rw [List.mem_cons, forall_listed_of_left here stays, members]
          simp only [Ne.symm here, false_or]

end Clearing

/-! ## What goes and what stays -/

private theorem isFile_join (found : host.find directory = .ok (place, .directory modified))
    (isName : IsName name) {content : Content} {written : Time}
    (there : host.lookup? (place ++ [name]) = some (.file content written))
    (short : byteLength (Path.join directory name) ≤ longestPath) :
    host.isFile (Path.join directory name) = true := by
  have leaf : IsLeaf (host.lookup? (place ++ [name])) := there ▸ .file content written
  exact (endsAt_join found isName leaf short).isFile_of_file there

theorem IsArtifact.leadsToFile (tree : host.IsTree) (directory : host.IsDirectoryAt place)
    (isArtifact : IsArtifact host place name) : host.LeadsToFile place name := by
  obtain ⟨named, arrives⟩ := isArtifact
  have notDot : name ≠ ['.'] := by
    rintro rfl
    exact absurd named (by decide)
  have notDots : name ≠ ['.', '.'] := by
    rintro rfl
    exact absurd named (by decide)
  obtain ⟨entry, there⟩ := Option.ne_none_iff_exists'.mp (arrives.lookup?_ne_none notDot notDots)
  exact ⟨tree.isName_of _ _ _ there, directory, _, arrives⟩

theorem IsArtifact.mem (isArtifact : IsArtifact host place name) (tree : host.IsTree)
    (directory : host.IsDirectoryAt place) (lists : Lists host place names) : name ∈ names := by
  rcases (isArtifact.leadsToFile tree directory).lookup?_cases with
    ⟨content, written, there⟩ | ⟨target, there⟩
  · exact (lists name).mpr ⟨_, there⟩
  · exact (lists name).mpr ⟨_, there⟩

namespace Clears

variable (clears : Clears host directory place names gone)
  (tree : host.IsTree) (lists : Lists host place names)
  (found : host.find directory = .ok (place, .directory modified))

include clears tree lists found

/-- Only artifacts go. -/
theorem isArtifact (member : name ∈ gone) : IsArtifact host place name := by
  obtain ⟨listed, isArtifact, isFile, -⟩ := (clears.mem_iff name).mp member
  obtain ⟨entry, there⟩ := (lists name).mp listed
  exact ⟨isArtifact, arrives_of_isFile found (tree.isName_of _ _ _ there) isFile⟩

/-- An artifact that is a file, not a link, goes wherever its path can be walked. -/
theorem mem_of_file {content : Content} {written : Time}
    (isArtifact : isArtifactName name = true)
    (there : host.lookup? (place ++ [name]) = some (.file content written))
    (short : byteLength (Path.join directory name) ≤ longestPath) : name ∈ gone := by
  by_contra kept
  have isName := tree.isName_of _ _ _ there
  refine kept ((clears.mem_iff name).mpr ⟨(lists name).mpr ⟨_, there⟩, isArtifact,
    isFile_join found isName there short, fun other member _ through => ?_⟩)
  -- whatever else goes, the directory and the file stay where they are
  obtain ⟨otherListed, -, otherFile, -⟩ := (clears.mem_iff other).mp member
  obtain ⟨entry, otherThere⟩ := (lists other).mp otherListed
  obtain ⟨-, leads⟩ := leadsToFile_of_isFile found (tree.lookup?_of_find_eq_ok found)
    (tree.isName_of _ _ _ otherThere) otherFile
  have apart : place ++ [other] ≠ place ++ [name] := fun equal =>
    kept (List.singleton_inj.mp (List.append_cancel_left equal) ▸ member)
  have stillThere : (host.drop (place ++ [other])).lookup? (place ++ [name]) =
      some (.file content written) := by
    rw [lookup?_drop _ _ _ (by simp), if_neg apart, there]
  have still := isFile_join (leads.find_drop tree found) isName stillThere short
  rw [LeadsThrough, still] at through
  cases through

/-- The artifacts that stay are links, or have paths that are too long. -/
theorem link_of_left (isArtifact : IsArtifact host place name) (kept : name ∉ gone) :
    longestPath < byteLength (Path.join directory name) ∨
      ∃ target, host.lookup? (place ++ [name]) = some (.link target) := by
  have leads := isArtifact.leadsToFile tree ⟨_, tree.lookup?_of_find_eq_ok found⟩
  rcases leads.lookup?_cases with ⟨content, written, there⟩ | link
  · refine .inl (Nat.lt_of_not_le fun short => kept ?_)
    exact clears.mem_of_file tree lists found isArtifact.1 there short
  · exact .inr link

/-- All artifacts go just if each one is reached by its path, and none leads through one that
is listed before it. -/
theorem takes_all_iff : (∀ name, name ∈ gone ↔ IsArtifact host place name) ↔
    (∀ name, IsArtifact host place name → host.isFile (Path.join directory name) = true) ∧
      ∀ name other, IsArtifact host place name → IsArtifact host place other →
        other ∈ listedBefore name names → ¬LeadsThrough host directory place name other := by
  constructor
  · intro all
    refine ⟨fun name isArtifact => ?_, fun name other isArtifact otherArtifact before => ?_⟩
    · exact ((clears.mem_iff name).mp ((all name).mpr isArtifact)).2.2.1
    · exact ((clears.mem_iff name).mp ((all name).mpr isArtifact)).2.2.2 other
        ((all other).mpr otherArtifact) before
  · rintro ⟨reached, apart⟩ name
    refine ⟨clears.isArtifact tree lists found, fun isArtifact => ?_⟩
    have listed := isArtifact.mem tree ⟨_, tree.lookup?_of_find_eq_ok found⟩ lists
    refine (clears.mem_iff name).mpr ⟨listed, isArtifact.1, reached name isArtifact, ?_⟩
    intro other member before
    exact apart name other isArtifact (clears.isArtifact tree lists found member) before

end Clears

/-- Clearing a store whose directory is there succeeds, in whatever order the host lists the
directory.  It counts the names it takes away and leaves everything else as it was.  What goes
are artifacts, and an artifact that stays is a link or has a path that is too long.  All
artifacts go just if each one is reached by its path, and none leads through one that is
listed before it. -/
theorem clear_removes (tree : host.IsTree) (set : cache.directory? = some directory)
    (found : host.find directory = .ok (place, .directory modified)) :
    cache.clear host = Cache.clearNames directory (host.namesIn place) host ∧
      Lists host place (host.namesIn place) ∧
      ∀ names, Lists host place names → ∃ gone after,
        Cache.clearNames directory names host = .ok (gone.length, after) ∧
        Clears host directory place names gone ∧
        Stripped host (gone.map (place ++ [·])) after ∧
        (∀ name ∈ gone, IsArtifact host place name) ∧
        (∀ name, IsArtifact host place name → name ∉ gone →
          longestPath < byteLength (Path.join directory name) ∨
            ∃ target, host.lookup? (place ++ [name]) = some (.link target)) ∧
        ((∀ name, name ∈ gone ↔ IsArtifact host place name) ↔
          (∀ name, IsArtifact host place name →
            host.isFile (Path.join directory name) = true) ∧
          ∀ name other, IsArtifact host place name → IsArtifact host place other →
            other ∈ listedBefore name names →
              ¬LeadsThrough host directory place name other) := by
  refine ⟨?_, fun name => mem_namesIn_iff, fun names lists => ?_⟩
  · simp only [clear, Cache.directory, set, Host.list, found, bind, Except.bind, pure, Except.pure]
  · have start : Clearing host directory place [] host :=
      ⟨tree, ⟨modified, found, tree.lookup?_of_find_eq_ok found⟩, .refl host⟩
    have areNames : ∀ name ∈ names, IsName name := by
      intro name listed
      obtain ⟨entry, there⟩ := (lists name).mp listed
      exact tree.isName_of _ _ _ there
    obtain ⟨gone, after, cleared, ends, distinct, members⟩ := start.clearNames tree areNames
    have clears : Clears host directory place names gone := ⟨distinct, members⟩
    exact ⟨gone, after, cleared, clears, ends.stripped,
      fun name => clears.isArtifact tree lists found,
      fun name => clears.link_of_left tree lists found, clears.takes_all_iff tree lists found⟩

/-! ## A link to an artifact -/

/-- A host with an artifact, a link to it, and what is none of them. -/
def linkedHost : Host where
  entries := [(["cache".toList], .directory ⟨0⟩),
    (["cache".toList, "keep.txt".toList], .file (.text "keep") ⟨0⟩),
    (["cache".toList, "sub.ejs".toList], .directory ⟨0⟩),
    (["cache".toList, "b.ejs".toList], .link "a.ejs"),
    (["cache".toList, "a.ejs".toList], .file (.text "code") ⟨0⟩)]
  now := ⟨0⟩

/-- An order of its entries with the link before the artifact. -/
def linkFirst : List Text :=
  ["b.ejs".toList, "sub.ejs".toList, "a.ejs".toList, "keep.txt".toList]

theorem linkedHost_isTree : linkedHost.IsTree :=
  isTree_of_entries (by decide +kernel) (isDirectoryAt_root _)

/-- Where the link is listed before the artifact, both go. -/
theorem clear_removes_on_linkedHost :
    ∃ (gone : List Text) (after : Host),
      Cache.clearNames "cache" linkFirst linkedHost = .ok (gone.length, after) ∧
      gone.length = 2 ∧
      (∀ name, name ∈ gone ↔ IsArtifact linkedHost ["cache".toList] name) ∧
      Stripped linkedHost (gone.map (["cache".toList] ++ [·])) after := by
  have directory : linkedHost.IsDirectoryAt ["cache".toList] := ⟨⟨0⟩, rfl⟩
  have found : linkedHost.find "cache" = .ok (["cache".toList], .directory ⟨0⟩) := by
    decide +kernel
  have permuted : linkFirst.Perm (linkedHost.namesIn ["cache".toList]) := by
    decide +kernel
  have set : (Cache.mk (some "cache")).directory? = some "cache".toList := rfl
  obtain ⟨-, lists, runs⟩ := clear_removes linkedHost_isTree set found
  have listsRow := fun name => permuted.mem_iff.trans (lists name)
  obtain ⟨gone, after, cleared, -, stripped, -, -, takesAll⟩ := runs linkFirst listsRow
  have counted : (Cache.clearNames "cache" linkFirst linkedHost).map Prod.fst = .ok 2 := by
    decide +kernel
  rw [cleared] at counted
  have reached : ∀ name ∈ linkFirst, linkedHost.isFile (Path.join "cache" name) = true ∨
      ¬IsArtifact linkedHost ["cache".toList] name := by
    decide +kernel
  have apart : ∀ name ∈ linkFirst, ∀ other ∈ listedBefore name linkFirst,
      ¬LeadsThrough linkedHost "cache" ["cache".toList] name other ∨
        ¬IsArtifact linkedHost ["cache".toList] name := by
    decide +kernel
  have listed := fun name (isArtifact : IsArtifact linkedHost ["cache".toList] name) =>
    isArtifact.mem linkedHost_isTree directory listsRow
  refine ⟨gone, after, cleared, Except.ok.inj counted, takesAll.mpr ⟨?_, ?_⟩, stripped⟩
  · intro name isArtifact
    exact (reached name (listed name isArtifact)).resolve_right (not_not.mpr isArtifact)
  · intro name other isArtifact _ before
    exact (apart name (listed name isArtifact) other before).resolve_right
      (not_not.mpr isArtifact)

/-- Where the artifact is listed first, the link to it stays, and is not counted. -/
theorem clear_leaves_link :
    IsArtifact linkedHost ["cache".toList] "a.ejs" ∧
      IsArtifact linkedHost ["cache".toList] "b.ejs" ∧
      ∃ after, clear ⟨some "cache"⟩ linkedHost = .ok (1, after) ∧
        after.lookup? ["cache".toList, "b.ejs".toList] = some (.link "a.ejs") := by
  refine ⟨by decide +kernel, by decide +kernel,
    linkedHost.drop ["cache".toList, "a.ejs".toList], ?_, ?_⟩
  · decide +kernel
  · decide +kernel

end Scriptlet.Cache
