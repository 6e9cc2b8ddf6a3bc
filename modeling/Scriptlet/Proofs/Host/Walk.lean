import Scriptlet.Host.Walk
import Scriptlet.Proofs.Path.Names

/-!
# What walks meet

A walk goes on from directories and links only.  So two hosts with the same
directories and links let every walk end at the same place, whatever files they hold,
and a walk that ends in a directory can be continued from there.
-/

namespace Scriptlet.Host

def Place.location : Place → Location
  | .present location _ => location
  | .absent location => location

variable {host before after : Host} {followLast : Bool} {links : Nat} {location : Location}
  {names rest : List Text} {place : Place} {path : Text}

theorem steps_of_ended (ended : Path.endsWithSlash path = true) :
    steps path = Path.names path ++ [['.']] := by
  rw [steps, if_pos ended]
  rfl

theorem steps_of_unended (unended : Path.endsWithSlash path = false) :
    steps path = Path.names path := by
  rw [steps, unended]
  exact List.append_nil _

private theorem foldl_utf8Size (text : Text) (length : Nat) :
    text.foldl (fun length character => length + character.utf8Size) length =
      length + byteLength text := by
  rw [byteLength]
  induction text generalizing length with
  | nil => rfl
  | cons head tail induction =>
      rw [List.foldl_cons, List.foldl_cons, induction, induction (0 + _)]
      omega

theorem byteLength_append (left right : Text) :
    byteLength (left ++ right) = byteLength left + byteLength right := by
  rw [byteLength, List.foldl_append, foldl_utf8Size, foldl_utf8Size, Nat.zero_add]

/-- A text of characters of one byte has as many bytes as characters. -/
theorem byteLength_of_single {text : Text}
    (single : ∀ character ∈ text, character.utf8Size = 1) : byteLength text = text.length := by
  induction text with
  | nil => rfl
  | cons head tail induction =>
      have headSingle : byteLength [head] = 1 := by
        rw [byteLength, List.foldl_cons, List.foldl_nil, single head (List.mem_cons_self ..)]
      rw [← List.singleton_append, byteLength_append, headSingle,
        induction fun character member => single character (List.mem_cons_of_mem _ member),
        List.length_append, List.length_singleton]

/-- How a walk goes on at a link while it may follow some more of them. -/
def follow (host : Host) (followLast : Bool) :
    (links : Nat) → Location → Text → List Text → Except FileError Place
  | 0, _, _, _ => .error .tooManyLinks
  | links + 1, location, target, rest =>
      walkFrom host followLast links
        (if Path.isAbsolute target then [] else location) (steps target ++ rest)

theorem walkFrom_eq (host : Host) (followLast : Bool) (links : Nat) :
    host.walkFrom followLast links = host.walkSteps followLast (host.follow followLast links) := by
  cases links <;> rfl

theorem walkFrom_nil (host : Host) (followLast : Bool) (links : Nat) (location : Location) :
    host.walkFrom followLast links location [] =
      .ok (.present location ((host.lookup? location).getD (.directory ⟨0⟩))) := by
  rw [walkFrom_eq, walkSteps]

theorem walkFrom_dot (host : Host) (followLast : Bool) (links : Nat) (location : Location)
    (rest : List Text) :
    host.walkFrom followLast links location (['.'] :: rest) =
      host.walkFrom followLast links location rest := by
  rw [walkFrom_eq, walkSteps, if_pos rfl]

theorem walkFrom_dots (host : Host) (followLast : Bool) (links : Nat) (location : Location)
    (rest : List Text) :
    host.walkFrom followLast links location (['.', '.'] :: rest) =
      host.walkFrom followLast links location.dropLast rest := by
  rw [walkFrom_eq, walkSteps, if_neg (by decide), if_pos rfl]

/-- The steps of a walk other than dots, too long ones included. -/
theorem walkFrom_name (host : Host) (followLast : Bool) (links : Nat) (location : Location)
    {name : Text} (notDot : name ≠ ['.']) (notDots : name ≠ ['.', '.']) (rest : List Text) :
    host.walkFrom followLast links location (name :: rest) =
      if longestName < byteLength name then .error .nameTooLong
      else
        match host.lookup? (location ++ [name]) with
        | none => if rest = [] then .ok (.absent (location ++ [name])) else .error .notFound
        | some (.directory _) => host.walkFrom followLast links (location ++ [name]) rest
        | some (.file content modified) =>
            if rest = [] then .ok (.present (location ++ [name]) (.file content modified))
            else .error .notDirectory
        | some (.link target) =>
            if rest = [] ∧ ¬followLast then .ok (.present (location ++ [name]) (.link target))
            else host.follow followLast links location target rest := by
  rw [walkFrom_eq]
  exact (if_neg notDot).trans (if_neg notDots)

/-- Walks by induction: on the steps that are left, and at a link on the links that are
left. -/
@[elab_as_elim]
theorem walk_induction {motive : Nat → Location → List Text → Prop}
    (done : ∀ links location, motive links location [])
    (dot : ∀ links location rest, motive links location rest →
      motive links location (['.'] :: rest))
    (dots : ∀ links location rest, motive links location.dropLast rest →
      motive links location (['.', '.'] :: rest))
    (name : ∀ links location name rest, name ≠ ['.'] → name ≠ ['.', '.'] →
      motive links (location ++ [name]) rest →
      (∀ fewer target, links = fewer + 1 →
        motive fewer (if Path.isAbsolute target then [] else location) (steps target ++ rest)) →
      motive links location (name :: rest))
    (links : Nat) (location : Location) (names : List Text) : motive links location names := by
  -- a link puts its target before the steps, so only the number of links goes down there
  induction links using Nat.strongRecOn generalizing location names with
  | ind links outer =>
      induction names generalizing location with
      | nil => exact done links location
      | cons step rest inner =>
          by_cases isDot : step = ['.']
          · subst isDot
            exact dot links location rest (inner location)
          by_cases isDots : step = ['.', '.']
          · subst isDots
            exact dots links location rest (inner _)
          refine name links location step rest isDot isDots (inner _) ?_
          intro fewer target equal
          exact outer fewer (equal ▸ Nat.lt_succ_self fewer) _ _

/-! ## How a walk takes a name -/

/-- Nothing, or a file: what no walk goes on from. -/
inductive IsLeaf : Option Entry → Prop
  | nothing : IsLeaf none
  | file (content : Content) (modified : Time) : IsLeaf (some (.file content modified))

/-- What a walk can end at with its last name: a leaf, or a link that is not followed. -/
inductive Stops (followLast : Bool) : Option Entry → Prop
  | leaf {found? : Option Entry} : IsLeaf found? → Stops followLast found?
  | link (target : Text) : followLast = false → Stops followLast (some (.link target))

/-- The place that a walk reports where it ends with a name. -/
def placeAt (location : Location) : Option Entry → Place
  | none => .absent location
  | some entry => .present location entry

theorem location_placeAt (location : Location) (found? : Option Entry) :
    (placeAt location found?).location = location := by
  cases found? <;> rfl

/-- The ways in which a walk takes a name and comes to a place. -/
inductive Takes (host : Host) (followLast : Bool) (links : Nat) (location : Location)
    (name : Text) (rest : List Text) : Place → Prop
  | stops : rest = [] → Stops followLast (host.lookup? (location ++ [name])) →
      Takes host followLast links location name rest
        (placeAt (location ++ [name]) (host.lookup? (location ++ [name])))
  | enters {modified : Time} {place : Place} :
      host.lookup? (location ++ [name]) = some (.directory modified) →
      host.walkFrom followLast links (location ++ [name]) rest = .ok place →
      Takes host followLast links location name rest place
  | follows {target : Text} {fewer : Nat} {place : Place} :
      host.lookup? (location ++ [name]) = some (.link target) →
      (rest = [] → followLast = true) → links = fewer + 1 →
      host.walkFrom followLast fewer (if Path.isAbsolute target then [] else location)
        (steps target ++ rest) = .ok place →
      Takes host followLast links location name rest place

theorem Takes.walkFrom_eq {name : Text} (notDot : name ≠ ['.']) (notDots : name ≠ ['.', '.'])
    (short : byteLength name ≤ longestName)
    (takes : host.Takes followLast links location name rest place) :
    host.walkFrom followLast links location (name :: rest) = .ok place := by
  rw [walkFrom_name _ _ _ _ notDot notDots, if_neg (Nat.not_lt_of_le short)]
  cases takes with
  | stops last stops =>
      subst last
      generalize host.lookup? (location ++ [name]) = found? at stops
      cases stops with
      | leaf leaf => cases leaf <;> rfl
      | link target unfollowed =>
          subst unfollowed
          rfl
  | enters found walked =>
      rw [found]
      exact walked
  | follows found followed equal walked =>
      subst equal
      rw [found]
      refine (if_neg ?_).trans walked
      rintro ⟨last, unfollowed⟩
      exact unfollowed (followed last)

/-- A walk that takes a name and comes to a place did so in one of these ways. -/
theorem takes_of_walkFrom {name : Text} (notDot : name ≠ ['.']) (notDots : name ≠ ['.', '.'])
    (walked : host.walkFrom followLast links location (name :: rest) = .ok place) :
    byteLength name ≤ longestName ∧ host.Takes followLast links location name rest place := by
  rw [walkFrom_name _ _ _ _ notDot notDots] at walked
  by_cases long : longestName < byteLength name
  · rw [if_pos long] at walked
    cases walked
  rw [if_neg long] at walked
  refine ⟨Nat.le_of_not_lt long, ?_⟩
  have ends : ∀ found?, host.lookup? (location ++ [name]) = found? → rest = [] →
      Stops followLast found? → placeAt (location ++ [name]) found? = place →
      host.Takes followLast links location name rest place := by
    rintro _ rfl last stops rfl
    exact .stops last stops
  cases found : host.lookup? (location ++ [name]) with
  | none =>
      simp only [found] at walked
      split at walked
      · rename_i last
        exact ends _ found last (.leaf .nothing) (Except.ok.inj walked)
      · cases walked
  | some entry =>
      cases entry with
      | directory modified =>
          simp only [found] at walked
          exact .enters found walked
      | file content modified =>
          simp only [found] at walked
          split at walked
          · rename_i last
            exact ends _ found last (.leaf (.file _ _)) (Except.ok.inj walked)
          · cases walked
      | link target =>
          simp only [found] at walked
          split at walked
          · rename_i unfollowed
            exact ends _ found unfollowed.1 (.link target (by simpa using unfollowed.2))
              (Except.ok.inj walked)
          · rename_i followed
            cases links with
            | zero => cases walked
            | succ links =>
                refine .follows found (fun last => ?_) rfl walked
                cases followLast with
                | true => rfl
                | false => exact absurd ⟨last, nofun⟩ followed

/-- A walk reports what the host has at the place where it ends. -/
def Shows (host : Host) : Place → Prop
  | .present location entry => entry = (host.lookup? location).getD (.directory ⟨0⟩)
  | .absent location => host.lookup? location = none

theorem shows_placeAt (host : Host) (location : Location) :
    host.Shows (placeAt location (host.lookup? location)) := by
  cases found : host.lookup? location with
  | none => exact found
  | some entry => simp [placeAt, Shows, found]

theorem shows_of_walkFrom (walked : host.walkFrom followLast links location names = .ok place) :
    host.Shows place := by
  induction links, location, names using walk_induction with
  | done links location =>
      rw [walkFrom_nil] at walked
      cases walked
      rfl
  | dot links location rest induction =>
      rw [walkFrom_dot] at walked
      exact induction walked
  | dots links location rest induction =>
      rw [walkFrom_dots] at walked
      exact induction walked
  | name links location name rest notDot notDots onward linked =>
      cases (takes_of_walkFrom notDot notDots walked).2 with
      | stops => exact shows_placeAt ..
      | enters _ walked => exact onward walked
      | follows _ _ equal walked => exact linked _ _ equal walked

theorem walk_eq_ok (walked : host.walk followLast path = .ok place) :
    '\x00' ∉ path ∧ path ≠ [] ∧ byteLength path ≤ longestPath ∧
      host.walkFrom followLast linkLimit
        (if Path.isAbsolute path then [] else host.workingDirectory) (steps path) = .ok place := by
  rw [walk] at walked
  split at walked
  · cases walked
  · rename_i clean
    split at walked
    · cases walked
    · rename_i full
      split at walked
      · cases walked
      · rename_i short
        exact ⟨clean, full, Nat.le_of_not_lt short, walked⟩

theorem walk_of_short (clean : '\x00' ∉ path) (full : path ≠ [])
    (short : byteLength path ≤ longestPath) :
    host.walk followLast path =
      host.walkFrom followLast linkLimit
        (if Path.isAbsolute path then [] else host.workingDirectory) (steps path) := by
  rw [walk, if_neg clean, if_neg full, if_neg (Nat.not_lt_of_le short)]

theorem shows_of_walk (walked : host.walk followLast path = .ok place) : host.Shows place := by
  obtain ⟨-, -, -, walkedFrom⟩ := walk_eq_ok walked
  exact shows_of_walkFrom walkedFrom

theorem lookup?_of_present_file {content : Content} {modified : Time}
    (walked : host.walk followLast path = .ok (.present location (.file content modified))) :
    host.lookup? location = some (.file content modified) := by
  have shows := shows_of_walk walked
  simp only [Shows] at shows
  cases found : host.lookup? location with
  | none =>
      rw [found] at shows
      cases shows
  | some entry =>
      rw [found] at shows
      exact congrArg some shows.symm

/-! ## Hosts that differ in their files only -/

/-- Two hosts with the same directories and links, and the same working directory. -/
structure SameTree (before after : Host) : Prop where
  workingDirectory_eq : after.workingDirectory = before.workingDirectory
  same_or_leaf : ∀ location, after.lookup? location = before.lookup? location ∨
    IsLeaf (before.lookup? location) ∧ IsLeaf (after.lookup? location)

/-- The places where a walk ends on each of two hosts: one place, and the same entry
unless the hosts differ there. -/
structure Matches (before after : Host) (place other : Place) : Prop where
  location_eq : other.location = place.location
  place_eq : after.lookup? place.location = before.lookup? place.location → other = place

namespace SameTree

theorem symm (same : before.SameTree after) : after.SameTree before where
  workingDirectory_eq := same.workingDirectory_eq.symm
  same_or_leaf location :=
    match same.same_or_leaf location with
    | .inl equal => .inl equal.symm
    | .inr leaves => .inr leaves.symm

/-- What is not a leaf stays. -/
theorem lookup?_eq (same : before.SameTree after) (notLeaf : ¬IsLeaf (before.lookup? location)) :
    after.lookup? location = before.lookup? location :=
  (same.same_or_leaf location).resolve_right fun leaves => notLeaf leaves.1

theorem lookup?_of_directory (same : before.SameTree after) {modified : Time}
    (found : before.lookup? location = some (.directory modified)) :
    after.lookup? location = some (.directory modified) := by
  rw [same.lookup?_eq, found]
  rw [found]
  exact nofun

theorem lookup?_of_link (same : before.SameTree after) {target : Text}
    (found : before.lookup? location = some (.link target)) :
    after.lookup? location = some (.link target) := by
  rw [same.lookup?_eq, found]
  rw [found]
  exact nofun

/-- Where a walk ends with a name, it ends with that name on the other host. -/
private theorem matches_of_stops (same : before.SameTree after)
    (stops : Stops followLast (before.lookup? location)) :
    Stops followLast (after.lookup? location) ∧
      Matches before after (placeAt location (before.lookup? location))
        (placeAt location (after.lookup? location)) := by
  refine ⟨?_, ?_, fun equal => ?_⟩
  · rcases same.same_or_leaf location with equal | ⟨-, leaf⟩
    · rw [equal]
      exact stops
    · exact .leaf leaf
  · rw [location_placeAt, location_placeAt]
  · rw [location_placeAt] at equal
    rw [equal]

/-- Walks that end on one host end in the same place on the other one. -/
theorem walkFrom (same : before.SameTree after)
    (walked : before.walkFrom followLast links location names = .ok place) :
    ∃ found, after.walkFrom followLast links location names = .ok found ∧
      Matches before after place found := by
  induction links, location, names using walk_induction with
  | done links location =>
      rw [walkFrom_nil] at walked ⊢
      cases walked
      refine ⟨_, rfl, rfl, fun equal => ?_⟩
      simp only [Place.location] at equal
      rw [equal]
  | dot links location rest induction =>
      rw [walkFrom_dot] at walked ⊢
      exact induction walked
  | dots links location rest induction =>
      rw [walkFrom_dots] at walked ⊢
      exact induction walked
  | name links location name rest notDot notDots onward linked =>
      obtain ⟨short, takes⟩ := takes_of_walkFrom notDot notDots walked
      cases takes with
      | stops last stops =>
          obtain ⟨stopsToo, isMatch⟩ := same.matches_of_stops stops
          exact ⟨_, Takes.walkFrom_eq notDot notDots short (.stops last stopsToo), isMatch⟩
      | enters found walked =>
          obtain ⟨other, otherWalked, isMatch⟩ := onward walked
          have enters := Takes.enters (same.lookup?_of_directory found) otherWalked
          exact ⟨other, enters.walkFrom_eq notDot notDots short, isMatch⟩
      | follows found followed equal walked =>
          obtain ⟨other, otherWalked, isMatch⟩ := linked _ _ equal walked
          have follows := Takes.follows (same.lookup?_of_link found) followed equal otherWalked
          exact ⟨other, follows.walkFrom_eq notDot notDots short, isMatch⟩

theorem walk (same : before.SameTree after) (walked : before.walk followLast path = .ok place) :
    ∃ found, after.walk followLast path = .ok found ∧ Matches before after place found := by
  obtain ⟨clean, full, short, walkedFrom⟩ := walk_eq_ok walked
  rw [walk_of_short clean full short, same.workingDirectory_eq]
  exact same.walkFrom walkedFrom

end SameTree

/-! ## Where walks end -/

/-- A walk whose last step is not a link ends under the name of that step. -/
theorem exists_location_of_walkFrom {last : Text} (notDot : last ≠ ['.'])
    (notDots : last ≠ ['.', '.'])
    (unlinked : ∀ location target, host.lookup? (location ++ [last]) ≠ some (.link target))
    (walked : host.walkFrom followLast links location (names ++ [last]) = .ok place) :
    ∃ front, place.location = front ++ [last] := by
  induction links, location, names using walk_induction with
  | done links location =>
      cases (takes_of_walkFrom notDot notDots walked).2 with
      | stops => exact ⟨location, location_placeAt ..⟩
      | enters _ walked =>
          rw [walkFrom_nil] at walked
          cases walked
          exact ⟨location, rfl⟩
      | follows found => exact absurd found (unlinked location _)
  | dot links location rest induction =>
      rw [List.cons_append, walkFrom_dot] at walked
      exact induction walked
  | dots links location rest induction =>
      rw [List.cons_append, walkFrom_dots] at walked
      exact induction walked
  | name links location name rest nameNotDot nameNotDots onward linked =>
      rw [List.cons_append] at walked
      cases (takes_of_walkFrom nameNotDot nameNotDots walked).2 with
      | stops isLast => exact absurd isLast (by simp)
      | enters _ walked => exact onward walked
      | follows _ _ equal walked =>
          rw [← List.append_assoc] at walked
          exact linked _ _ equal walked

/-! ## Going on from where a walk ended -/

/-- A walk that ends in a directory goes on from there, with the links that are left. -/
theorem walkFrom_append {modified : Time} {target : Location}
    (walked : host.walkFrom true links location names = .ok (.present target (.directory modified)))
    (more : rest ≠ []) :
    ∃ left ≤ links, ∀ followLast,
      host.walkFrom followLast links location (names ++ rest) =
        host.walkFrom followLast left target rest := by
  induction links, location, names using walk_induction with
  | done links location =>
      rw [walkFrom_nil] at walked
      simp only [Except.ok.injEq, Place.present.injEq] at walked
      exact ⟨links, Nat.le_refl _, fun _ => by rw [walked.1, List.nil_append]⟩
  | dot links location names induction =>
      rw [walkFrom_dot] at walked
      simp only [List.cons_append, walkFrom_dot]
      exact induction walked
  | dots links location names induction =>
      rw [walkFrom_dots] at walked
      simp only [List.cons_append, walkFrom_dots]
      exact induction walked
  | name links location name names notDot notDots onward linked =>
      obtain ⟨short, takes⟩ := takes_of_walkFrom notDot notDots walked
      simp only [List.cons_append, walkFrom_name _ _ _ _ notDot notDots,
        if_neg (Nat.not_lt_of_le short)]
      generalize reached : Place.present target (.directory modified) = place at takes
      cases takes with
      | stops _ stops =>
          generalize host.lookup? (location ++ [name]) = found? at stops reached
          rcases stops with ⟨⟨⟩ | ⟨⟩⟩ | ⟨⟨⟩⟩ <;> cases reached
      | enters found walked =>
          subst reached
          rw [found]
          exact onward walked
      | follows found _ equal followed =>
          subst reached equal
          obtain ⟨left, fewer, goesOn⟩ := linked _ _ rfl followed
          refine ⟨left, Nat.le_succ_of_le fewer, fun followLast => ?_⟩
          simp only [found, List.append_eq_nil_iff, more, and_false, false_and, if_false]
          rw [← goesOn followLast, follow, List.append_assoc]

/-- A dot that is not the last step changes nothing. -/
theorem walkFrom_skip_dot (more : rest ≠ []) :
    host.walkFrom followLast links location (names ++ ['.'] :: rest) =
      host.walkFrom followLast links location (names ++ rest) := by
  induction links, location, names using walk_induction with
  | done => exact walkFrom_dot ..
  | dot links location names induction =>
      simp only [List.cons_append, walkFrom_dot]
      exact induction
  | dots links location names induction =>
      simp only [List.cons_append, walkFrom_dots]
      exact induction
  | name links location name names notDot notDots onward linked =>
      simp only [List.cons_append, walkFrom_name _ _ _ _ notDot notDots, List.append_eq_nil_iff,
        more, reduceCtorEq, and_false, false_and, if_false, onward]
      cases links with
      | zero => rfl
      | succ links => simp only [follow, ← List.append_assoc, linked links _ rfl]

end Scriptlet.Host
