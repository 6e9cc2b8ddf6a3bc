import Scriptlet.Proofs.Directive.Leftover
import Scriptlet.Proofs.Json.Literal
import Scriptlet.Proofs.Pattern.Locality
import Scriptlet.Proofs.Pattern.Named
import Scriptlet.Proofs.Pattern.Parting
import Scriptlet.Proofs.Template.Codes

/-!
# Environment guards

`@env(name)` becomes the head of a block that compares the environment with a literal of the
unquoted name.  The rule for `@endenv` runs after that over the same text, literals included,
and an `@endenv` in a name is closed like one that ends a block.  What it writes needs no
escape, so the guard still compares with one literal, of the name with its `@endenv`
replaced; a name without `@endenv` survives as it is.
-/

namespace Scriptlet

namespace Directive

open Pattern Text

/-- A text after the rule for `@endenv`. -/
def endBlocks (text : Text) : Text :=
  (bare "endenv").replace (fun _ => Code.closeBlock) text

/-- The name that the guard of an argument compares with. -/
def guardedName (argument : Text) : Text :=
  endBlocks (unquote argument)

/-- The head of the block of an environment, for the literal of its name. -/
def guard (literal : Text) : Text :=
  "<% if (env.ENVIRONMENT === " ++ literal ++ ") \x7b %>"

theorem letters_endenv : ∀ character ∈ "endenv".toList, isLetter character = true := by
  decide

/-- A spelling of `@endenv` is written in literals as it is. -/
theorem flatMap_escape_spelling {spelling : Text}
    (spelled : spelling.map fold = "endenv".toList.map fold) :
    ('@' :: spelling).flatMap escape = '@' :: spelling := by
  have letters := isLetter_of_map_fold_eq spelled letters_endenv
  have plain : ∀ character ∈ '@' :: spelling, escape character = [character] :=
    List.forall_mem_cons.mpr ⟨rfl, fun character member => escape_of_isLetter (letters _ member)⟩
  rw [List.flatMap_congr plain, List.flatMap_singleton']

/-- Escaping a text neither hides an `@endenv` nor brings one in. -/
theorem endBlocks_flatMap_escape (text : Text) :
    endBlocks (text.flatMap escape) = (endBlocks text).flatMap escape := by
  unfold endBlocks
  induction text using (bare "endenv").search_induction with
  | nil => simp
  | found text found recognised induction =>
      obtain ⟨spelling, spelled, -, whole⟩ := bare_run?_eq_some.mp recognised
      have escaped : text.flatMap escape = '@' :: (spelling ++ found.rest.flatMap escape) := by
        rw [whole, ← List.cons_append, List.flatMap_append, flatMap_escape_spelling spelled]
        rfl
      have closing : Code.closeBlock.flatMap escape = Code.closeBlock := by decide
      rw [(bare "endenv").replace_of_found _ recognised, escaped,
        (bare "endenv").replace_of_found _ (bare_run?_of_spelled spelled _), induction,
        List.flatMap_append, closing]
  | absent head tail absent induction =>
      have passed : (bare "endenv").Absent (escape head) (tail.flatMap escape) := by
        by_cases sign : head = '@'
        · subst sign
          refine Absent.cons ?_ Absent.nil
          cases recognised : (bare "endenv").run? ('@' :: tail.flatMap escape) with
          | none => exact recognised
          | some found =>
              -- letters are not escaped, so the text itself has this spelling here
              obtain ⟨spelling, spelled, -, whole⟩ := bare_run?_eq_some.mp recognised
              have letters := isLetter_of_map_fold_eq spelled letters_endenv
              have plain : '\\' ∉ spelling := fun member => Bool.noConfusion (letters _ member)
              have begins : spelling <+: tail.flatMap escape :=
                ⟨found.rest, (List.cons.inj whole).2.symm⟩
              obtain ⟨rest, rfl⟩ := Json.prefix_of_prefix_flatMap_escape plain begins
              cases absent.symm.trans (bare_run?_of_spelled spelled rest)
        · refine Absent.of_notMem fun member => sign ?_
          exact (eq_of_mem_escape (by decide) member).symm
      rw [(bare "endenv").replace_of_absent _ absent, List.flatMap_cons, List.flatMap_cons,
        replace_append _ passed, induction]

theorem openBlock_environmentHead (name : Text) :
    Code.openBlock (environmentHead name) = guard (quote name) := by
  calc Code.openBlock (environmentHead name)
      = "<% " ++ ("if (env.ENVIRONMENT === " ++ quote name ++ ")" ++ " \x7b") ++ " %>" := rfl
    _ = ("<% ".toList ++ "if (env.ENVIRONMENT === ".toList) ++ quote name ++
          (")".toList ++ " \x7b".toList ++ " %>".toList) := by simp only [List.append_assoc]
    _ = guard (quote name) := rfl

/-- The rule for `@env` goes first, and the one for `@endenv` goes over what it has written. -/
theorem replaceEach_environmentRules (text : Text) :
    replaceEach environmentRules text = endBlocks
      ((withArgument "env").replace (fun argument => guard (quote (unquote argument))) text) := by
  rw [replaceEach_eq_foldl]
  simp only [environmentRules, List.foldl_cons, List.foldl_nil, Rule.ofArgument, Rule.ofWord,
    replace_map, openBlock_environmentHead, id_eq, endBlocks]

theorem endBlocks_of_unsigned {text : Text} (unsigned : '@' ∉ text) (rest : Text) :
    endBlocks (text ++ rest) = text ++ endBlocks rest :=
  replace_append _ (Absent.of_notMem unsigned)

/-- A guard is an escaped name between two texts. -/
theorem guard_quote (name : Text) : guard (quote name) =
    "<% if (env.ENVIRONMENT === \"".toList ++ (name.flatMap escape ++ "\") \x7b %>".toList) := by
  have quoted : quote name = ['"'] ++ name.flatMap escape ++ ['"'] := rfl
  calc guard (quote name)
      = "<% if (env.ENVIRONMENT === ".toList ++ quote name ++ ") \x7b %>".toList := rfl
    _ = ("<% if (env.ENVIRONMENT === ".toList ++ ['"']) ++
          (name.flatMap escape ++ (['"'] ++ ") \x7b %>".toList)) := by
        simp only [quoted, List.append_assoc]
    _ = _ := rfl

/-- In a guard the rule for `@endenv` changes the name, and the name only. -/
theorem endBlocks_guard (name rest : Text) :
    endBlocks (guard (quote name) ++ rest) = guard (quote (endBlocks name)) ++ endBlocks rest := by
  have cut : endBlocks (name.flatMap escape ++ ("\") \x7b %>".toList ++ rest)) =
      endBlocks (name.flatMap escape) ++ endBlocks ("\") \x7b %>".toList ++ rest) := by
    refine replace_append_of_contained (Local.bare "endenv") _ (Contained.bare ?_ _)
    rintro head ⟨⟩
    decide
  rw [guard_quote, guard_quote, List.append_assoc, endBlocks_of_unsigned (by decide),
    List.append_assoc, cut, endBlocks_flatMap_escape, endBlocks_of_unsigned (by decide)]
  simp only [List.append_assoc]

/-- A text survives just where it has no `@endenv` in any letter case. -/
theorem endBlocks_eq_iff {text : Text} :
    endBlocks text = text ↔
      ∀ spelling : Text, spelling.map fold = "endenv".toList.map fold →
        ¬ '@' :: spelling <:+: text := by
  constructor
  · rintro same spelling spelled ⟨front, back, whole⟩
    have unused : (bare "endenv").uses text = [] := by
      have changes := unused_or_parted_replace (bare "endenv") (by decide)
        (fun _ => Code.closeBlock) (fun _ _ _ => by decide) text
      rw [show (bare "endenv").replace (fun _ => Code.closeBlock) text = text from same] at changes
      exact changes.resolve_right (Parted.irrefl text)
    have absent := absent_of_firstUse?_none (uses_eq_nil_iff.mp unused)
    have suffix : '@' :: (spelling ++ back) <:+ text := ⟨front, by simp [← whole]⟩
    have none := absent _ suffix (List.cons_ne_nil _ _)
    rw [List.append_nil] at none
    cases none.symm.trans (bare_run?_of_spelled spelled back)
  · intro unspelled
    cases used : (bare "endenv").firstUse? 0 text with
    | none => exact replace_of_firstUse?_none _ _ used
    | some use =>
        obtain ⟨spelling, spelled, -, whole⟩ :=
          bare_run?_eq_some.mp ((bare "endenv").run?_of_firstUse? used)
        have here : '@' :: spelling <:+: text.drop use.1 := ⟨[], use.2.rest, whole.symm⟩
        exact absurd (here.trans (List.drop_suffix _ _).isInfix) (unspelled spelling spelled)

/-- The name that a guard compares with is the unquoted one just where the argument has no
`@endenv` in any letter case. -/
theorem guardedName_eq_iff {argument : Text} :
    guardedName argument = unquote argument ↔
      ∀ spelling : Text, spelling.map fold = "endenv".toList.map fold →
        ¬ '@' :: spelling <:+: argument := by
  rw [guardedName, endBlocks_eq_iff]
  refine forall₂_congr fun spelling spelled => not_congr ?_
  have letters := isLetter_of_map_fold_eq spelled letters_endenv
  rw [← occurrences_pos_iff, ← occurrences_pos_iff, occurrences_unquote letters]

theorem guard_injective : Function.Injective guard := by
  intro literal other same
  exact List.append_cancel_left (List.append_cancel_right same)

/-- What the pass makes of a use of `@env` and of the text behind it. -/
theorem replaceEach_environmentRules_called {written argument before : Text}
    (spelled : written.map fold = "env".toList.map fold) (closed : ')' ∉ argument)
    (unsigned : '@' ∉ before) (rest : Text) :
    replaceEach environmentRules (before ++ (called written argument ++ rest)) =
      before ++ (guard (quote (guardedName argument)) ++ replaceEach environmentRules rest) := by
  have found := withArgument_run? spelled closed rest
  rw [replaceEach_environmentRules, replaceEach_environmentRules,
    replace_append _ (Absent.of_notMem unsigned), replace_of_found _ _ found,
    endBlocks_of_unsigned unsigned, endBlocks_guard]
  rfl

/-- The guard of `@env(argument)` compares with one complete literal, whatever the argument
holds.  It is a literal of the unquoted argument just where the argument has no `@endenv`;
otherwise the ends of blocks are closed in it too.  Guards are told apart by the names that
they compare with. -/
theorem environment_guard (compiler : Compiler) (bound : Nat) (context : Context)
    {written argument before : Text} (spelled : written.map fold = "env".toList.map fold)
    (closed : ')' ∉ argument) (unsigned : '@' ∉ before) (rest : Text) :
    (compiler.runPass bound .environment (before ++ (called written argument ++ rest))).run
        context =
      some (before ++ (guard (quote (guardedName argument)) ++
        replaceEach environmentRules rest), context) ∧
    Json.IsLiteral (guardedName argument) (quote (guardedName argument)) ∧
    (Json.IsLiteral (unquote argument) (quote (guardedName argument)) ↔
      ∀ spelling : Text, spelling.map fold = "endenv".toList.map fold →
        ¬ '@' :: spelling <:+: argument) ∧
    ∀ other, guard (quote (guardedName argument)) = guard (quote (guardedName other)) ↔
      guardedName argument = guardedName other := by
  refine ⟨?_, Json.isLiteral_quote _, ?_, fun other => ?_⟩
  · exact congrArg (fun text => some (text, context))
      (replaceEach_environmentRules_called spelled closed unsigned rest)
  · rw [Json.isLiteral_quote_iff, guardedName_eq_iff]
  · rw [guard_injective.eq_iff, Json.quote_injective.eq_iff]

/-- A name with a quote, a backslash and a line break survives. -/
theorem environment_guard_of_special_name :
    let literal := quote (guardedName "'b\x22\\\nc'")
    (({ registry := {}, loader := .ofTable [] } : Compiler).runPass 0 .environment
        "a @Env('b\x22\\\nc')@endenv").run {} =
      some ("a ".toList ++ (guard literal ++ "<% \x7d %>".toList), {}) ∧
    Json.IsLiteral "b\x22\\\nc" literal := by
  have spelled : "Env".toList.map fold = "env".toList.map fold := by decide
  have closed : ')' ∉ "'b\x22\\\nc'".toList := by decide
  have unsigned : '@' ∉ "a ".toList := by decide
  obtain ⟨ran, -, survives, -⟩ := environment_guard
    { registry := {}, loader := .ofTable [] } 0 {} spelled closed unsigned "@endenv"
  have ends : replaceEach environmentRules "@endenv" = "<% \x7d %>".toList := by decide +kernel
  rw [ends] at ran
  refine ⟨ran, survives.mpr fun spelling _ inside => ?_⟩
  exact absurd (inside.subset List.mem_cons_self) (by decide)

/-- An `@endenv` in a name is closed like one that ends a block, so the name does not survive,
and two names share a guard. -/
theorem endenv_in_name_is_closed :
    let compiler : Compiler := { registry := {}, loader := .ofTable [] }
    let lowered := "<% if (env.ENVIRONMENT === \x22a<% \x7d %>b\x22) \x7b %>".toList
    (compiler.runPass 0 .environment "@env(a@endenvb)").run {} = some (lowered, {}) ∧
      (compiler.runPass 0 .environment "@env(a<% \x7d %>b)").run {} = some (lowered, {}) ∧
      unquote "a@endenvb" ≠ unquote "a<% \x7d %>b" ∧
      ∀ literal, lowered = guard literal → ¬ Json.IsLiteral (unquote "a@endenvb") literal := by
  refine ⟨by decide +kernel, by decide +kernel, by decide, ?_⟩
  intro literal same isLiteral
  have own : guard (quote "a<% \x7d %>b") = guard literal := by
    rw [← same]
    decide
  rw [← guard_injective own] at isLiteral
  exact absurd (Json.isLiteral_quote_iff.mp isLiteral) (by decide)

end Directive

end Scriptlet
