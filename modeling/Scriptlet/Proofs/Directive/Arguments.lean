import Scriptlet.Proofs.Directive.Entry
import Scriptlet.Proofs.Pattern.Locality

/-!
# Where arguments end

An argument goes up to the first closing parenthesis.  Only the directives whose argument must
not be empty take one character before they look for the end, and that character may be a
closing parenthesis itself.
-/

namespace Scriptlet

open Pattern

namespace Directive

/-- What an entry captures, if it has an argument. -/
def Entry.argument? : Entry → Option (Pattern '@' Text)
  | .argument name _ => some (withArgument name)
  | .word _ _ => none

/-- An entry stands for the code of what it captures. -/
theorem Entry.rule_of_argument {entry : Entry} {pattern : Pattern '@' Text}
    (has : entry.argument? = some pattern) : entry.rule = pattern.map entry.code := by
  cases entry with
  | argument name code =>
      cases has
      rfl
  | word name code => cases has

/-- A text has the argument up to the first `stop` behind the argument's first character, and
no closing parenthesis in front of the argument or behind that character. -/
structure Delimits (stop : Char) (text argument : Text) : Prop where
  place : ∃ before after, text = before ++ (argument ++ stop :: after) ∧ ')' ∉ before
  stopped : stop ∉ argument.tail
  closed : ')' ∉ argument.tail

/-- An argument without a closing parenthesis, up to the first one. -/
theorem Delimits.of_closed {text before argument after : Text}
    (whole : text = before ++ (argument ++ ')' :: after)) (unclosed : ')' ∉ before)
    (closed : ')' ∉ argument) : Delimits ')' text argument :=
  ⟨⟨before, after, whole, unclosed⟩, fun member => closed (List.mem_of_mem_tail member),
    fun member => closed (List.mem_of_mem_tail member)⟩

section Inversion

variable {name text : Text}

private theorem unclosed_of_spelled {spelled : Text} (letters : ∀ character ∈ name,
    Text.isLetter character) (folded : spelled.map Text.fold = name.map Text.fold) :
    ')' ∉ '@' :: (spelled ++ ['(']) := by
  have unclosed : ')' ∉ spelled := by
    intro member
    have letter := Text.isLetter_of_map_fold_eq folded letters _ member
    revert letter
    decide
  simp [unclosed]

/-- What follows the parenthesis that opens an argument. -/
private theorem exists_of_call {α : Type} {scan : Scan α} {found : Found (Unit × Unit × α)}
    (recognised : ((bare name).andThen ((Scan.exactly '(').andThen scan)).run? text = some found) :
    ∃ spelled inside next, spelled.map Text.fold = name.map Text.fold ∧
      text = '@' :: (spelled ++ ['(']) ++ inside ∧ scan.run? inside = some next ∧
      found.captured.2.2 = next.captured := by
  obtain ⟨head, call, headFound, callFound, rfl⟩ := andThen_run?_eq_some.mp recognised
  obtain ⟨opening, next, openingFound, nextFound, rfl⟩ := Scan.andThen_run?_eq_some.mp callFound
  obtain ⟨spelled, folded, -, whole⟩ := bare_run?_eq_some.mp headFound
  have opened := (Scan.exactly '(').whole openingFound
  rw [Scan.written_of_exactly openingFound] at opened
  exact ⟨spelled, opening.rest, next, folded, by simp [whole, opened], nextFound, rfl⟩

theorem delimits_of_withArgument (letters : ∀ character ∈ name, Text.isLetter character)
    {found : Found Text} (recognised : (withArgument name).run? text = some found) :
    Delimits ')' text found.captured ∧ ')' ∉ found.captured := by
  obtain ⟨spelled, folded, closed, written, whole⟩ := withArgument_run?_eq_some.mp recognised
  have unclosed := unclosed_of_spelled letters folded
  have parts : text = '@' :: (spelled ++ ['(']) ++ (found.captured ++ ')' :: found.rest) := by
    rw [whole, written, Text.called_append]
    simp
  exact ⟨.of_closed parts unclosed closed, closed⟩

/-- Behind its first character, an argument that must not be empty has no closing
parenthesis. -/
private theorem exists_of_oneThenThrough {found : Found Text}
    (recognised : (Scan.oneThenThrough ')').run? text = some found) :
    (∃ after, text = found.captured ++ ')' :: after) ∧ ')' ∉ found.captured.tail := by
  obtain ⟨inner, innerFound, rfl⟩ := Scan.map_run?_eq_some.mp recognised
  obtain ⟨head, next, headFound, nextFound, rfl⟩ := Scan.andThen_run?_eq_some.mp innerFound
  simp only [Scan.through, Option.map_eq_some_iff] at nextFound
  obtain ⟨⟨before, after⟩, cut, rfl⟩ := nextFound
  obtain ⟨whole, closed⟩ := Text.cutAt?_eq_some cut
  cases text with
  | nil => cases headFound
  | cons first others =>
      cases headFound
      exact ⟨⟨after, congrArg _ whole⟩, closed⟩

theorem delimits_of_withSomeArgument (letters : ∀ character ∈ name, Text.isLetter character)
    {found : Found Text} (recognised : (withSomeArgument name).run? text = some found) :
    Delimits ')' text found.captured := by
  obtain ⟨inner, innerFound, rfl⟩ := map_run?_eq_some.mp recognised
  obtain ⟨spelled, inside, next, folded, rfl, nextFound, captured⟩ := exists_of_call innerFound
  obtain ⟨⟨after, whole⟩, closed⟩ := exists_of_oneThenThrough nextFound
  rw [captured]
  exact ⟨⟨_, after, by rw [whole], unclosed_of_spelled letters folded⟩, closed, closed⟩

/-- The key of an inline section ends at a comma, with no closing parenthesis in it, and its
value is an argument that must not be empty. -/
theorem delimits_of_withKeyAndValue (letters : ∀ character ∈ name, Text.isLetter character)
    {found : Found (Text × Text)}
    (recognised : (withKeyAndValue name).run? text = some found) :
    (Delimits ',' text found.captured.1 ∧ ')' ∉ found.captured.1) ∧
      Delimits ')' text found.captured.2 := by
  obtain ⟨inner, innerFound, rfl⟩ := map_run?_eq_some.mp recognised
  obtain ⟨spelled, inside, next, folded, rfl, nextFound, captured⟩ := exists_of_call innerFound
  obtain ⟨key, further, keyFound, furtherFound, rfl⟩ := Scan.andThen_run?_eq_some.mp nextFound
  obtain ⟨comma, value, commaFound, valueFound, rfl⟩ :=
    Scan.andThen_run?_eq_some.mp furtherFound
  have unclosed := unclosed_of_spelled letters folded
  have keyWhole := Scan.whole _ keyFound
  have commaWhole := Scan.whole _ commaFound
  rw [Scan.written_of_exactly commaFound] at commaWhole
  obtain ⟨⟨after, valueWhole⟩, valueClosed⟩ := exists_of_oneThenThrough valueFound
  have keyEnds : key.written = key.captured ∧
      ∀ character ∈ key.captured, character ∉ [',', ')'] := by
    simp only [Scan.run] at keyFound
    split at keyFound
    · cases keyFound
    · cases keyFound
      refine ⟨rfl, fun character member => ?_⟩
      have other := List.mem_takeWhile_imp member
      simpa using other
  have keyClosed : ')' ∉ key.captured := fun member => keyEnds.2 _ member (by decide)
  have keyStopped : ',' ∉ key.captured := fun member => keyEnds.2 _ member (by decide)
  have insideEq : inside = key.captured ++ ',' :: (value.captured ++ ')' :: after) := by
    rw [keyWhole, keyEnds.1, commaWhole, valueWhole]
    rfl
  have keyed : ')' ∉ '@' :: (spelled ++ ['(']) ++ (key.captured ++ [',']) := by
    simp only [List.mem_append, not_or]
    exact ⟨by simpa using unclosed, keyClosed, by decide⟩
  rw [captured, insideEq]
  refine ⟨⟨⟨⟨_, _, rfl, unclosed⟩, ?_, ?_⟩, keyClosed⟩,
    ⟨'@' :: (spelled ++ ['(']) ++ (key.captured ++ [',']), after, by simp, keyed⟩,
    valueClosed, valueClosed⟩
  · exact fun member => keyStopped (List.mem_of_mem_tail member)
  · exact fun member => keyClosed (List.mem_of_mem_tail member)

end Inversion

end Directive

namespace Pass

open Compiler Directive

/-- What the patterns of a pass capture as arguments of directives, with the character that
ends each of them. -/
def arguments : Pass → List (Pattern '@' Text × Char)
  | .extensions => [(extension, ')')]
  | .inlineSections => [(inlineSection.map Prod.fst, ','), (inlineSection.map Prod.snd, ')')]
  | .blockSections => [(blockSection.map Prod.fst, ')')]
  | .inclusions => [(inclusion, ')')]
  | .forms =>
      (formBlock.map Prod.fst, ')') :: (controlEntries.filterMap Entry.argument?).map (·, ')')
  | .switches => [(switchBlock.map Prod.fst, ')')]
  | .yields => [(yielding.map Prod.snd, ')')]
  | pass => ((pass.entries?.getD []).filterMap Entry.argument?).map (·, ')')

/-- The passes with directives whose argument must not be empty. -/
def nonempty : List Pass :=
  [.extensions, .inlineSections, .blockSections]

end Pass

namespace Directive

variable {pass : Pass} {pattern : Pattern '@' Text} {stop : Char} {text : Text}
  {found : Found Text}

private theorem delimits_of_block {name ending : Text}
    (letters : ∀ character ∈ name, Text.isLetter character)
    (recognised : ((blockOf (withArgument name) ending).map Prod.fst).run? text = some found) :
    Delimits ')' text found.captured ∧ ')' ∉ found.captured := by
  obtain ⟨inner, innerFound, rfl⟩ := map_run?_eq_some.mp recognised
  obtain ⟨head, _, headFound, captured, -⟩ := exists_of_blockOf innerFound
  have ends := delimits_of_withArgument letters headFound
  rwa [← captured] at ends

private theorem delimits_of_entries {entries : List Entry}
    (letters : ∀ entry ∈ entries, ∀ character ∈ entry.name, Text.isLetter character)
    (listed : (pattern, stop) ∈ (entries.filterMap Entry.argument?).map (·, ')'))
    (recognised : pattern.run? text = some found) :
    Delimits stop text found.captured ∧ ')' ∉ found.captured := by
  obtain ⟨capture, captureListed, same⟩ := List.mem_map.mp listed
  cases same
  obtain ⟨entry, entryListed, has⟩ := List.mem_filterMap.mp captureListed
  have entryLetters := letters entry entryListed
  cases entry with
  | word name code => cases has
  | argument name code =>
      cases has
      exact delimits_of_withArgument entryLetters recognised

/-- What each pass captures is delimited, and for most passes without any closing
parenthesis. -/
private theorem delimits_of_pass (listed : (pattern, stop) ∈ pass.arguments)
    (recognised : pattern.run? text = some found) :
    Delimits stop text found.captured ∧ (pass ∉ Pass.nonempty → ')' ∉ found.captured) := by
  have letters := pass.names_letters
  cases follows : pass.entries? with
  | some entries =>
      have inEntries : (pattern, stop) ∈ (entries.filterMap Entry.argument?).map (·, ')') := by
        cases pass <;> cases follows <;> exact listed
      have named : ∀ entry ∈ entries, entry.name ∈ pass.names :=
        fun _ => Pass.mem_names_of_entries follows
      have ends := delimits_of_entries (fun entry member => letters _ (named entry member))
        inEntries recognised
      exact ends.imp_right fun closed _ => closed
  | none =>
      cases pass with
      | extensions =>
          cases List.mem_singleton.mp listed
          have ends := delimits_of_withSomeArgument (letters _ List.mem_cons_self) recognised
          exact ⟨ends, fun other => absurd (by decide) other⟩
      | inlineSections =>
          simp only [Pass.arguments, List.mem_cons, List.not_mem_nil, or_false] at listed
          obtain same | same := listed <;> cases same
          all_goals
            obtain ⟨inner, innerFound, rfl⟩ := map_run?_eq_some.mp recognised
            have ends := delimits_of_withKeyAndValue (letters _ List.mem_cons_self) innerFound
          · exact ⟨ends.1.1, fun _ => ends.1.2⟩
          · exact ⟨ends.2, fun other => absurd (by decide) other⟩
      | blockSections =>
          cases List.mem_singleton.mp listed
          obtain ⟨inner, innerFound, rfl⟩ := map_run?_eq_some.mp recognised
          obtain ⟨head, _, headFound, captured, -⟩ := exists_of_blockOf innerFound
          have ends := delimits_of_withSomeArgument (letters _ List.mem_cons_self) headFound
          rw [← captured] at ends
          exact ⟨ends, fun other => absurd (by decide) other⟩
      | inclusions =>
          cases List.mem_singleton.mp listed
          have ends := delimits_of_withArgument (letters _ List.mem_cons_self) recognised
          exact ends.imp_right fun closed _ => closed
      | forms =>
          rcases List.mem_cons.mp listed with same | inControls
          · cases same
            have ends := delimits_of_block (letters _ List.mem_cons_self) recognised
            exact ends.imp_right fun closed _ => closed
          · have ends := delimits_of_entries (fun entry member => letters _
              (List.mem_cons_of_mem _ (List.mem_map_of_mem member))) inControls recognised
            exact ends.imp_right fun closed _ => closed
      | switches =>
          cases List.mem_singleton.mp listed
          have ends := delimits_of_block (letters _ List.mem_cons_self) recognised
          exact ends.imp_right fun closed _ => closed
      | yields =>
          cases List.mem_singleton.mp listed
          obtain ⟨inner, innerFound, rfl⟩ := map_run?_eq_some.mp recognised
          simp only [Compiler.yielding, keepingWritten, Option.map_eq_some_iff] at innerFound
          obtain ⟨call, callFound, rfl⟩ := innerFound
          have ends := delimits_of_withArgument (letters _ List.mem_cons_self) callFound
          exact ends.imp_right fun closed _ => closed
      | customDirectives => cases listed
      | comments => cases listed
      | echoes => cases listed
      | _ => cases follows

/-- An argument goes up to the first closing parenthesis of its directive (a key up to the first
comma, and without a closing parenthesis), but for one case: where an argument must not be empty
and a closing parenthesis follows the mark that opens it, that parenthesis is taken into the
argument, which then goes up to the next one. -/
theorem argument_ends (listed : (pattern, stop) ∈ pass.arguments)
    (recognised : pattern.run? text = some found) :
    Delimits stop text found.captured ∧
      (')' ∈ found.captured ↔
        pass ∈ Pass.nonempty ∧ found.captured.head? = some ')') := by
  obtain ⟨delimits, strict⟩ := delimits_of_pass listed recognised
  refine ⟨delimits, fun member => ⟨?_, ?_⟩, fun excepted => ?_⟩
  · by_contra other
    exact strict other member
  · have closed := delimits.closed
    cases captured : found.captured with
    | nil => simp [captured] at member
    | cons head others =>
        rw [captured] at member closed
        rcases List.mem_cons.mp member with rfl | inTail
        · rfl
        · exact absurd inTail closed
  · exact List.mem_of_mem_head? excepted.2

/-- The argument of `@extends() (b)` is `) (b`. -/
theorem argument_ends_of_empty_call :
    let text : Text := "@extends() (b)"
    let found : Found Text := ⟨text, ") (b", []⟩
    (Compiler.extension, ')') ∈ Pass.arguments .extensions ∧
      Compiler.extension.run? text = some found ∧ Delimits ')' text found.captured ∧
      (')' ∈ found.captured ↔
        Pass.extensions ∈ Pass.nonempty ∧ found.captured.head? = some ')') := by
  intro text found
  have recognised : Compiler.extension.run? text = some found := by decide
  exact ⟨List.mem_cons_self, recognised, argument_ends List.mem_cons_self recognised⟩

/-- Text behind the first closing parenthesis of a directive is taken into its argument: the
view that is extended is `) (b`, and the content that is stored is `) a (b`. -/
theorem argument_holds_parenthesis :
    (∃ pass, ∃ argument ∈ Pass.arguments pass, ∃ text found,
      argument.1.run? text = some found ∧ ')' ∈ found.captured) ∧
    (Compiler.extension.run? "@extends() (b)").map Found.captured = some ") (b".toList ∧
    (Compiler.inlineSection.run? "@section(k,) a (b)").map Found.captured =
      some ("k".toList, ") a (b".toList) := by
  refine ⟨⟨.extensions, (Compiler.extension, ')'), List.mem_cons_self, "@extends() (b)",
    ⟨"@extends() (b)", ") (b", []⟩, ?_, ?_⟩, ?_, ?_⟩ <;> decide

end Directive

end Scriptlet
