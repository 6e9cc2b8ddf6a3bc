import Scriptlet.Proofs.Directive.Leftover
import Scriptlet.Proofs.Text.Openings

/-!
# What passes leave over

A directive that ends a form, but that no form opens, is left over behind the pass for forms.
All the passes behind that one keep it, as none of their own names begins like it, but for the
loops: `endfor` begins `endform`.  So loops are idle only where no sign stands before what one
of their directives begins with, whatever goes on behind that.
-/

namespace Scriptlet

open Text (occurrences)

namespace Directive

open Pattern

/-- Entries that no sign of a text opens leave it alone. -/
theorem replaceEach_of_unopened {entries : List Entry} {text : Text}
    (unopened : ∀ entry ∈ entries, Text.Unopened entry.opening text) :
    replaceEach (entries.map Entry.rule) text = text := by
  apply replaceEach_of_absent_text
  rw [List.forall_mem_map]
  intro entry listed
  apply entry.rule_opened.absent
  intro tail suffix
  rw [List.append_nil]
  exact unopened entry listed tail suffix

end Directive

namespace Pass

/-- The pass for forms and the passes behind it, but for loops and custom directives. -/
def fromForms : List Pass :=
  [.forms, .environment, .jumps, .conditionals, .switches, .caseLabels, .existenceGuards,
   .rawCode, .yields, .method, .comments, .echoes]

end Pass

namespace Compiler

open Pattern Directive

/-- The passages that a pass takes out of a text: form blocks, with the directive that ends
them, switch blocks, whose bodies are compiled anew, places that are filled, and comments. -/
def taken (context : Context) (text : Text) : Pass → List Text
  | .forms => (formBlock.uses text).map Found.written
  | .switches => (switchBlock.uses text).map Found.written
  | .yields =>
      ((yielding.uses text).filter fun use =>
        (Table.get? (Text.unquote use.captured.2) context.sections).isSome).map Found.written
  | .comments => (comment.uses text).map Found.written
  | _ => []

/-- The passages that a row of passes takes out, each from the text that comes to it. -/
def takenBy (compiler : Compiler) (compile : Text → Compilation Text) :
    List Pass → Text → Context → List Text
  | [], _, _ => []
  | pass :: passes, text, context =>
      taken context text pass ++
        match (compiler.apply compile pass text).run context with
        | some (next, middle) => compiler.takenBy compile passes next middle
        | none => []

section Lost

variable {α : Type} {passage : Text} {uses : List (Found α)} {lost : Found α → Nat}

/-- What is lost in all uses is no more than what is written in those where something is. -/
private theorem sum_le_sum_filter (gone : Found α → Bool)
    (bounded : ∀ use ∈ uses, lost use ≤ occurrences passage use.written)
    (kept : ∀ use ∈ uses, gone use = false → lost use = 0) :
    (uses.map lost).sum ≤
      (((uses.filter gone).map Found.written).map (occurrences passage)).sum := by
  induction uses with
  | nil => exact Nat.le_refl _
  | cons use uses induction =>
      rw [List.forall_mem_cons] at bounded kept
      have others := induction bounded.2 kept.2
      have here := bounded.1
      cases isGone : gone use with
      | true =>
          rw [List.filter_cons_of_pos isGone]
          simp only [List.map_cons, List.sum_cons]
          omega
      | false =>
          have none := kept.1 isGone
          rw [List.filter_cons_of_neg (by simp [isGone])]
          simp only [List.map_cons, List.sum_cons]
          omega

private theorem sum_le_sum_written
    (bounded : ∀ use ∈ uses, lost use ≤ occurrences passage use.written) :
    (uses.map lost).sum ≤ ((uses.map Found.written).map (occurrences passage)).sum := by
  have all := sum_le_sum_filter (fun _ => true) bounded (fun _ _ none => by cases none)
  rwa [List.filter_true] at all

/-- What a replacement takes out is in what it replaces. -/
private theorem occurrences_le_replace_taken {first mark : Char} {word : Text}
    {pattern : Pattern first α} (unmarked : first ∉ word)
    (encloses : pattern.Encloses (mark :: word)) (replacement : α → Text) (text : Text) :
    occurrences (mark :: word) text ≤
      occurrences (mark :: word) (pattern.replace replacement text) +
        (((pattern.uses text).map Found.written).map (occurrences (mark :: word))).sum := by
  have replaced := occurrences_replace_le unmarked encloses replacement text
  have lost := sum_le_sum_written fun use (_ : use ∈ pattern.uses text) =>
    Nat.sub_le (occurrences (mark :: word) use.written)
      (occurrences (mark :: word) (replacement use.captured))
  omega

end Lost

variable {compiler : Compiler} {compile : Text → Compilation Text} {word text result : Text}
  {context after : Context}

/-- Closing marks are no part of a directive's name and its sign. -/
private theorem closer_notMem (letters : ∀ character ∈ word, Text.isLetter character)
    {closer : Char} (listed : closer ∈ [')', '\x7d']) : closer ∉ '@' :: word := by
  have special : ∀ closer ∈ [')', '\x7d'], closer ≠ '@' ∧ Text.isLetter closer = false := by
    decide
  exact notMem_sign letters (special closer listed).1 (special closer listed).2

private theorem occurrences_le_forms (letters : ∀ character ∈ word, Text.isLetter character)
    (apart : ∀ name ∈ Pass.names .forms, Text.Apart name word)
    (limits : ∀ ending ∈ Pass.endings .forms,
      ending.map Text.fold <+: word.map Text.fold → word.length ≤ ending.length)
    (context : Context) (text : Text) :
    occurrences ('@' :: word) text ≤ occurrences ('@' :: word) (lowerForms text) +
      ((taken context text .forms).map (occurrences ('@' :: word))).sum := by
  have unsigned := Text.unsigned_of_letters letters
  have blocks : formBlock.Encloses ('@' :: word) :=
    Encloses.blockOf (limits _ List.mem_cons_self)
      (Pass.endings_letters .forms _ List.mem_cons_self) unsigned
  have lowered := occurrences_le_replace_taken unsigned blocks formBlockCode text
  have named : ∀ entry ∈ controlEntries, entry.name ∈ Pass.names .forms :=
    fun _ listed => List.mem_cons_of_mem _ (List.mem_map_of_mem listed)
  have controls := occurrences_le_replaceEach_entries letters
    (fun entry listed => Pass.names_letters .forms _ (named entry listed))
    (fun entry listed => apart _ (named entry listed)) (controlEntries_keep letters)
    (formBlock.replace formBlockCode text)
  rw [lowerForms_eq, controlRules_eq, taken]
  omega

/-- Only a place that is filled is taken out. -/
private theorem occurrences_le_fill (letters : ∀ character ∈ word, Text.isLetter character)
    (context : Context) (text : Text) :
    occurrences ('@' :: word) text ≤
      occurrences ('@' :: word) (yielding.replace (resolveYield context) text) +
        ((taken context text .yields).map (occurrences ('@' :: word))).sum := by
  have places : yielding.Encloses ('@' :: word) :=
    Encloses.of_last (EndsWith.withArgument _).keepingWritten (closer_notMem letters (by decide))
  have filled := occurrences_replace_le (Text.unsigned_of_letters letters) places
    (resolveYield context) text
  have lost := sum_le_sum_filter
    (fun use => (Table.get? (Text.unquote use.captured.2) context.sections).isSome)
    (fun use (_ : use ∈ yielding.uses text) =>
      Nat.sub_le (occurrences ('@' :: word) use.written)
        (occurrences ('@' :: word) (resolveYield context use.captured))) ?_
  · rw [taken]
    omega
  · intro use listed unfilled
    rw [Option.isSome_eq_false_iff, Option.isNone_iff_eq_none] at unfilled
    rw [resolveYield, unfilled, Option.getD_none, captured_written listed]
    exact Nat.sub_self _

private theorem occurrences_le_dropComments
    (letters : ∀ character ∈ word, Text.isLetter character) (context : Context) (text : Text) :
    occurrences ('@' :: word) text ≤ occurrences ('@' :: word) (dropComments text) +
      ((taken context text .comments).map (occurrences ('@' :: word))).sum := by
  have unbraced : '\x7b' ∉ word := fun member =>
    notMem_sign letters (by decide) (by decide) (List.mem_cons_of_mem '@' member)
  have marks : comment.Encloses ('@' :: word) :=
    Encloses.of_last (EndsWith.between rfl) (closer_notMem letters (by decide))
  exact occurrences_le_replace_taken unbraced marks (fun _ => []) text

/-- A pass with names that are apart from a word keeps its occurrences, apart from those in the
passages that it takes out. -/
theorem occurrences_le_apply {pass : Pass}
    (letters : ∀ character ∈ word, Text.isLetter character)
    (behind : pass ∉ [Pass.extensions, .inlineSections, .blockSections, .inclusions,
      .customDirectives])
    (apart : ∀ name ∈ pass.names, Text.Apart name word)
    (limits : ∀ ending ∈ pass.endings,
      ending.map Text.fold <+: word.map Text.fold → word.length ≤ ending.length)
    (ran : (compiler.apply compile pass text).run context = some (result, after)) :
    occurrences ('@' :: word) text ≤ occurrences ('@' :: word) result +
      ((taken context text pass).map (occurrences ('@' :: word))).sum := by
  cases follows : pass.entries? with
  | some entries =>
      rw [apply_of_entries compiler compile follows] at ran
      obtain ⟨rfl, -⟩ := Compilation.run_pure_eq_some.mp ran
      have named : ∀ entry ∈ entries, entry.name ∈ pass.names :=
        fun _ => Pass.mem_names_of_entries follows
      have kept := occurrences_le_replaceEach_entries letters
        (fun entry listed => pass.names_letters _ (named entry listed))
        (fun entry listed => apart _ (named entry listed)) (entries_keep letters follows) text
      exact kept.trans (Nat.le_add_right _ _)
  | none =>
      cases pass with
      | forms =>
          obtain ⟨rfl, -⟩ := Compilation.run_pure_eq_some.mp ran
          exact occurrences_le_forms letters apart limits context text
      | switches =>
          have unsigned := Text.unsigned_of_letters letters
          have blocks : switchBlock.Encloses ('@' :: word) :=
            Encloses.blockOf (limits _ List.mem_cons_self)
              (Pass.endings_letters .switches _ List.mem_cons_self) unsigned
          have lowered := occurrences_replaceM_le unsigned blocks ran
          rw [taken, List.map_map]
          exact lowered
      | yields =>
          obtain ⟨rfl, -⟩ : yielding.replace (resolveYield context) text = result ∧ _ :=
            Compilation.run_pure_eq_some.mp ran
          exact occurrences_le_fill letters context text
      | comments =>
          obtain ⟨rfl, -⟩ := Compilation.run_pure_eq_some.mp ran
          exact occurrences_le_dropComments letters context text
      | echoes =>
          obtain ⟨rfl, -⟩ := Compilation.run_pure_eq_some.mp ran
          exact (occurrences_le_interpolate letters .output text).trans (Nat.le_add_right _ _)
      | extensions => exact absurd (by decide) behind
      | inlineSections => exact absurd (by decide) behind
      | blockSections => exact absurd (by decide) behind
      | inclusions => exact absurd (by decide) behind
      | customDirectives => exact absurd (by decide) behind
      | _ => cases follows

/-- So does a row of passes, each of which does. -/
theorem occurrences_le_foldlM {passage : Text} {passes : List Pass}
    (each : ∀ pass ∈ passes, ∀ text result context after,
      (compiler.apply compile pass text).run context = some (result, after) →
      occurrences passage text ≤ occurrences passage result +
        ((taken context text pass).map (occurrences passage)).sum)
    (ran : (passes.foldlM (fun text pass => compiler.apply compile pass text) text).run context =
      some (result, after)) :
    occurrences passage text ≤ occurrences passage result +
      ((compiler.takenBy compile passes text context).map (occurrences passage)).sum := by
  induction passes generalizing text context with
  | nil =>
      obtain ⟨rfl, -⟩ := Compilation.run_pure_eq_some.mp ran
      exact Nat.le_add_right _ _
  | cons pass passes induction =>
      rw [List.forall_mem_cons] at each
      rw [List.foldlM_cons] at ran
      obtain ⟨next, middle, passRan, furtherRan⟩ := Compilation.run_bind_eq_some.mp ran
      have here := each.1 _ _ _ _ passRan
      have further := induction each.2 furtherRan
      simp only [takenBy, passRan, List.map_append, List.sum_append]
      omega

variable (compiler compile)

/-- A pass that compiles nothing ends, and leaves the context alone. -/
private theorem exists_run_apply {pass : Pass} (listed : pass ∈ Pass.fromForms)
    (uncompiled : pass ≠ .switches) (text : Text) (context : Context) :
    ∃ result, (compiler.apply compile pass text).run context = some (result, context) := by
  cases follows : pass.entries? with
  | some entries =>
      rw [apply_of_entries compiler compile follows]
      exact ⟨_, rfl⟩
  | none =>
      cases pass with
      | extensions => exact absurd listed (by decide)
      | inlineSections => exact absurd listed (by decide)
      | blockSections => exact absurd listed (by decide)
      | inclusions => exact absurd listed (by decide)
      | customDirectives => exact absurd listed (by decide)
      | switches => exact absurd rfl uncompiled
      | forms => exact ⟨_, rfl⟩
      | yields => exact ⟨_, rfl⟩
      | comments => exact ⟨_, rfl⟩
      | echoes => exact ⟨_, rfl⟩
      | _ => cases follows

private theorem exists_run_foldlM {passes : List Pass}
    (listed : ∀ pass ∈ passes, pass ∈ Pass.fromForms)
    (uncompiled : .switches ∉ passes) (text : Text) (context : Context) :
    ∃ result, (passes.foldlM (fun text pass => compiler.apply compile pass text) text).run
      context = some (result, context) := by
  induction passes generalizing text with
  | nil => exact ⟨text, rfl⟩
  | cons pass passes induction =>
      rw [List.forall_mem_cons] at listed
      rw [List.mem_cons, not_or] at uncompiled
      obtain ⟨next, ran⟩ := exists_run_apply compiler compile listed.1 (Ne.symm uncompiled.1) text
        context
      obtain ⟨result, furtherRan⟩ := induction listed.2 uncompiled.2 next
      rw [List.foldlM_cons]
      exact ⟨result, Compilation.run_bind_eq_some.mpr ⟨next, context, ran, furtherRan⟩⟩

/-- A pass that only follows rules, such as the one for loops, is idle on a text in which no
sign stands before what one of its directives begins with.  Directives that end forms are kept
as they are spelled, in texts and in arguments, by every row of the passes from the forms on
but for loops: only those in form blocks, switch blocks, filled places and comments go.  Where
no switch is compiled, such a row ends, and leaves the context alone. -/
theorem form_ending_kept (compiler : Compiler) (compile : Text → Compilation Text)
    (text : Text) :
    (∀ pass entries, pass.entries? = some entries →
      (∀ entry ∈ entries, Text.Unopened entry.opening text) →
      compiler.apply compile pass text = pure text) ∧
    ∀ passes, passes ⊆ Pass.fromForms → ∀ context,
      (.switches ∉ passes → ∃ result,
        (passes.foldlM (fun text pass => compiler.apply compile pass text) text).run context =
          some (result, context)) ∧
      ∀ result after,
        (passes.foldlM (fun text pass => compiler.apply compile pass text) text).run context =
          some (result, after) →
        ∀ form : Text, form.map Text.fold = "endform".toList.map Text.fold →
          occurrences ('@' :: form) text ≤ occurrences ('@' :: form) result +
            ((compiler.takenBy compile passes text context).map
              (occurrences ('@' :: form))).sum := by
  refine ⟨fun pass entries follows unopened => ?_, fun passes listed context =>
    ⟨fun uncompiled => exists_run_foldlM compiler compile listed uncompiled text context,
      fun result after ran form folded => ?_⟩⟩
  · rw [apply_of_entries compiler compile follows, replaceEach_of_unopened unopened]
  · have letters : ∀ character ∈ form, Text.isLetter character :=
      Text.isLetter_of_map_fold_eq folded (by decide)
    have size : form.length = "endform".toList.length := by
      simpa using congrArg List.length folded
    have named : ∀ pass ∈ Pass.fromForms, ∀ name ∈ pass.names, Text.Apart name "endform" := by
      decide +kernel
    have ended : ∀ pass ∈ Pass.fromForms, ∀ ending ∈ pass.endings,
        ending.map Text.fold <+: "endform".toList.map Text.fold →
          "endform".toList.length ≤ ending.length := by
      decide
    refine occurrences_le_foldlM (fun pass member text result context after ran => ?_) ran
    have inRow := listed member
    refine occurrences_le_apply letters ?_ ?_ ?_ ran
    · have behind : ∀ pass ∈ Pass.fromForms, pass ∉ [Pass.extensions, .inlineSections,
          .blockSections, .inclusions, .customDirectives] := by
        decide
      exact behind pass inRow
    · intro name nameListed
      rw [Text.Apart, folded]
      exact named pass inRow name nameListed
    · intro ending endingListed
      rw [folded, size]
      exact ended pass inRow ending endingListed

/-- Left-over directives in an argument and in an echo, in mixed letter case, and a text with
signs that open no directive for loops. -/
theorem form_ending_kept_in_argument :
    let compiler : Compiler := { registry := {}, loader := .ofTable [] }
    let idle : Text := "@for @foreach @endwhil (@end for)"
    let text : Text := "@if(@EndForm) a \x7b\x7b @EndForm \x7d\x7d"
    let form : Text := "EndForm"
    let passes : List Pass := [.forms, .conditionals, .yields, .echoes]
    (∀ entry ∈ loopEntries, Text.Unopened entry.opening idle) ∧
      compiler.apply (compiler.compile 0) .loops idle = pure idle ∧
      passes ⊆ Pass.fromForms ∧ .switches ∉ passes ∧
      form.map Text.fold = "endform".toList.map Text.fold ∧
      occurrences ('@' :: form) text = 2 ∧
      ∃ result, (passes.foldlM (fun text pass => compiler.apply (compiler.compile 0) pass text)
          text).run {} = some (result, {}) ∧
        2 ≤ occurrences ('@' :: form) result := by
  intro compiler idle text form passes
  have unopened : ∀ entry ∈ loopEntries, Text.Unopened entry.opening idle := by decide
  have unchanged := (form_ending_kept compiler (compiler.compile 0) idle).1 .loops _ rfl unopened
  have listed : passes ⊆ Pass.fromForms := by decide
  have uncompiled : .switches ∉ passes := by decide
  have folded : form.map Text.fold = "endform".toList.map Text.fold := by decide
  have twice : occurrences ('@' :: form) text = 2 := by decide
  have row := (form_ending_kept compiler (compiler.compile 0) text).2 passes listed {}
  obtain ⟨result, ran⟩ := row.1 uncompiled
  have kept := row.2 result {} ran form folded
  have nothing : compiler.takenBy (compiler.compile 0) passes text {} = [] := by
    decide +kernel
  rw [nothing, twice] at kept
  exact ⟨unopened, unchanged, listed, uncompiled, folded, twice, result, ran, kept⟩

/-- The pass for loops takes the beginning of a left-over directive, and of any word that goes
on behind `endfor`, for the end of a loop. -/
theorem form_ending_replaced_by_loops :
    let compiler : Compiler := { registry := {}, loader := .ofTable [] }
    let text : Text := "@endform"
    Text.words text = ["endform".toList] ∧ '(' ∉ text ∧
      Directive.lowerForms text = text ∧
      compiler.apply (compiler.compile 0) .loops text = pure "<% \x7d %>m".toList ∧
      compiler.apply (compiler.compile 0) .loops "@endfortune" = pure "<% \x7d %>tune".toList ∧
      compiler.Compiles text {} "<% \x7d %>m" {} := by
  intro compiler text
  have rules : ∀ text, compiler.apply (compiler.compile 0) .loops text =
      pure (replaceEach loopRules text) := fun _ => rfl
  refine ⟨by decide, by decide, by decide +kernel, ?_, ?_, 1, by decide +kernel⟩
  · rw [rules]
    exact congrArg pure (by decide +kernel)
  · rw [rules]
    exact congrArg pure (by decide +kernel)

end Compiler

end Scriptlet
