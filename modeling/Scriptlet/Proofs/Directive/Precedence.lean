import Scriptlet.Proofs.Compilation.Idle
import Scriptlet.Proofs.Directive.History
import Scriptlet.Proofs.Pattern.Recognition

/-!
# Which directive a use runs

Names are registered as they are spelled, but a view may use them in any letter case, and
the directives run in the order of their first registration.  So of several spellings of
a name, the one that was registered first takes all uses.
-/

namespace Scriptlet

/-- A use without an argument is all of a text. -/
theorem Directive.replace_use {directive : Directive} {name : Text}
    (spelled : name.map Text.fold = directive.name.map Text.fold) :
    directive.pattern.replace id ('@' :: name) = directive.handler none := by
  have bare := Pattern.withOptionalArgument_run?_of_bare spelled
    (by decide : List.head? ([] : Text) ≠ some '(')
  rw [List.append_nil] at bare
  have found : directive.pattern.run? ('@' :: name) =
      some ⟨'@' :: name, directive.handler none, []⟩ :=
    Pattern.map_run?_eq_some.mpr ⟨_, bare, rfl⟩
  rw [directive.pattern.replace_of_found id found, Pattern.replace_nil, List.append_nil, id_eq]

namespace Registry

/-- What the first directive that a text uses makes of it stays, if it has no signs. -/
theorem apply_of_first {registry : Registry} {earlier later : List Directive}
    {directive : Directive} {text : Text}
    (listed : registry.directives = earlier ++ directive :: later)
    (unused : ∀ other ∈ earlier, other.pattern.Absent text [])
    (unsigned : '@' ∉ directive.pattern.replace id text) :
    registry.apply text = directive.pattern.replace id text := by
  have before : Pattern.replaceEach (earlier.map Directive.pattern) text = text := by
    apply Pattern.replaceEach_of_absent_text
    intro pattern member
    obtain ⟨other, listedEarlier, rfl⟩ := List.mem_map.mp member
    exact unused other listedEarlier
  have after : Pattern.replaceEach (later.map Directive.pattern)
      (directive.pattern.replace id text) = directive.pattern.replace id text := by
    apply Pattern.replaceEach_of_absent_text
    intro pattern member
    exact Pattern.Absent.of_notMem unsigned
  rw [Pattern.replaceEach_eq_foldl] at before after
  rw [apply, listed, Pattern.replaceEach_eq_foldl, List.map_append, List.foldl_append, before,
    List.map_cons, List.foldl_cons, after]

/-- Whether two texts spell the same name. -/
def SameSpelling (left right : Text) : Prop :=
  left.map Text.fold = right.map Text.fold

instance (left right : Text) : Decidable (SameSpelling left right) :=
  inferInstanceAs (Decidable (left.map Text.fold = right.map Text.fold))

/-- No registered name is, in any letter case, a shorter beginning of the name. -/
def Shortest (registry : Registry) (name : Text) : Prop :=
  ∀ other ∈ registry.names, other.map Text.fold <+: name.map Text.fold → SameSpelling other name

def AddsNoSigns (registry : Registry) : Prop :=
  ∀ directive ∈ registry.directives, ∀ argument, '@' ∉ directive.handler argument

section First

variable {registry : Registry} {name : Text} {directive : Directive}

/-- A directive in front of the first spelling of a name does not take its use. -/
private theorem absent_of_other (nameUnsigned : '@' ∉ name)
    (shortest : registry.Shortest name) (listed : directive ∈ registry.directives)
    (other : ¬ SameSpelling directive.name name) : directive.pattern.Absent ('@' :: name) [] := by
  have unused : directive.pattern.run? ('@' :: (name ++ [])) = none := by
    rw [List.append_nil]
    cases recognised : directive.pattern.run? ('@' :: name) with
    | none => rfl
    | some found =>
        have begins := directive.pattern_named name found recognised
        exact absurd (shortest directive.name (List.mem_map_of_mem listed) begins) other
  exact Pattern.Absent.cons unused (Pattern.Absent.of_notMem nameUnsigned)

/-- The first spelling of a name takes its use. -/
theorem apply_use (first : registry.directives.find? (SameSpelling ·.name name) = some directive)
    (nameUnsigned : '@' ∉ name) (shortest : registry.Shortest name)
    (addsNoSigns : registry.AddsNoSigns) :
    registry.apply ('@' :: name) = directive.handler none := by
  obtain ⟨same, earlier, later, listed, missed⟩ := List.find?_eq_some_iff_append.mp first
  have replaced : directive.pattern.replace id ('@' :: name) = directive.handler none :=
    Directive.replace_use (of_decide_eq_true same).symm
  have unsigned : '@' ∉ directive.pattern.replace id ('@' :: name) := by
    rw [replaced]
    exact addsNoSigns directive (List.mem_of_find?_eq_some first) none
  have unused : ∀ other ∈ earlier, other.pattern.Absent ('@' :: name) [] := by
    intro other listedEarlier
    apply absent_of_other nameUnsigned shortest
    · rw [listed]
      exact List.mem_append_left _ listedEarlier
    · simpa using missed other listedEarlier
  rw [apply_of_first listed unused unsigned, replaced]

/-- The first spelling of a name is the only directive of its own name that is looked up:
another one before it would be a spelling, too. -/
theorem get?_of_first
    (first : registry.directives.find? (SameSpelling ·.name name) = some directive) :
    registry.get? directive.name = some directive := by
  obtain ⟨same, earlier, later, listed, missed⟩ := List.find?_eq_some_iff_append.mp first
  refine List.find?_eq_some_iff_append.mpr ⟨decide_eq_true rfl, earlier, later, listed, ?_⟩
  intro other listedEarlier
  have apart : other.name ≠ directive.name := by
    intro sameName
    have missedOther := missed other listedEarlier
    rw [sameName, same] at missedOther
    cases missedOther
  simpa using apart

end First

theorem isName_of_mem_after {history : List Registration} {name : Text}
    (registered : name ∈ (after history).names) : isName name = true := by
  rw [names_after, List.mem_eraseDups] at registered
  obtain ⟨call, -, named⟩ := List.mem_filterMap.mp registered
  exact (writesName_iff.mp (Registration.name?_eq_some_iff.mp named)).2

/-- A use of a registered name runs the latest handler of the first spelling of this name
that was registered, which need not be the spelling in the text. -/
theorem use_runs_first_spelling (compiler : Compiler) (bound : Nat) (history : List Registration)
    {name : Text} (registered : name ∈ (after history).names)
    (shortest : (after history).Shortest name) (addsNoSigns : (after history).AddsNoSigns) :
    ∃ first call, (after history).names.find? (SameSpelling · name) = some first ∧
      history.findRev? (fun call => call.name? = some first) = some call ∧
      ({ compiler with registry := after history } : Compiler).runPass bound .customDirectives
        ('@' :: name) = pure (call.handler none) := by
  obtain ⟨registeredDirective, listed, named⟩ := List.mem_map.mp registered
  cases searched : (after history).directives.find? (SameSpelling ·.name name) with
  | none =>
      have missed := List.find?_eq_none.mp searched registeredDirective listed
      rw [named] at missed
      exact absurd (decide_eq_true rfl) missed
  | some directive =>
      have first : (after history).names.find? (SameSpelling · name) = some directive.name := by
        rw [names, List.find?_map]
        exact congrArg (Option.map Directive.name) searched
      have found := get?_of_first searched
      rw [get?_after, Option.map_eq_some_iff] at found
      obtain ⟨call, latest, directiveEq⟩ := found
      have runs := apply_use searched (unsigned_of_isName (isName_of_mem_after registered))
        shortest addsNoSigns
      rw [← directiveEq] at runs
      exact ⟨directive.name, call, first, latest, congrArg pure runs⟩

/-- Calls that register two spellings of a name. -/
def yearHistory : List Registration :=
  [⟨"Year", fun _ => "one"⟩, ⟨"year", fun _ => "two"⟩]

private theorem yearHistory_shortest : (after yearHistory).Shortest "year" := by
  unfold Shortest
  decide

private theorem yearHistory_addsNoSigns : (after yearHistory).AddsNoSigns := by
  have directives : (after yearHistory).directives =
      [⟨"Year", fun _ => "one"⟩, ⟨"year", fun _ => "two"⟩] := rfl
  intro directive listed argument
  rw [directives, List.mem_cons, List.mem_singleton] at listed
  rcases listed with rfl | rfl
  · change '@' ∉ ("one" : Text)
    decide
  · change '@' ∉ ("two" : Text)
    decide

theorem use_runs_first_spelling_of_year :
    ("year" : Text) ∈ (after yearHistory).names ∧ (after yearHistory).Shortest "year" ∧
      (after yearHistory).AddsNoSigns ∧
      ∃ first call, (after yearHistory).names.find? (SameSpelling · "year") = some first ∧
        yearHistory.findRev? (fun call => call.name? = some first) = some call ∧
        ({ registry := after yearHistory, loader := .ofTable [] } : Compiler).runPass 0
          .customDirectives "@year" = pure (call.handler none) := by
  have registered : ("year" : Text) ∈ (after yearHistory).names := by decide
  exact ⟨registered, yearHistory_shortest, yearHistory_addsNoSigns,
    use_runs_first_spelling { registry := {}, loader := .ofTable [] } 0 yearHistory registered
      yearHistory_shortest yearHistory_addsNoSigns⟩

/-- The latest handler of a name does not run where another spelling of the name was
registered before it. -/
theorem latest_handler_is_shadowed :
    ("year" : Text) ∈ (after yearHistory).names ∧ (after yearHistory).Shortest "year" ∧
      (after yearHistory).AddsNoSigns ∧
      ((after yearHistory).get? "year").map (·.handler none) = some "two".toList ∧
      (({ registry := after yearHistory, loader := .ofTable [] } : Compiler).runPass 0
        .customDirectives "@year").run {} = some ("one".toList, {}) := by
  refine ⟨by decide, yearHistory_shortest, yearHistory_addsNoSigns, rfl, ?_⟩
  decide +kernel

end Registry

end Scriptlet
