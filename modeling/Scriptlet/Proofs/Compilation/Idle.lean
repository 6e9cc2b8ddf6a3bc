import Scriptlet.Compiler
import Scriptlet.Proofs.Directive.Entry
import Scriptlet.Proofs.Pattern.Uses

/-!
# Idle passes

A pass leaves a text and the context alone if no word of the text begins with the
name of one of its directives.  A text that gives the passes for directives nothing
to do goes right through to the custom directives.
-/

namespace Scriptlet

namespace Pattern

variable {first : Char} {α : Type}

theorem replace_of_absent_text {pattern : Pattern first α} (replacement : α → Text)
    {text : Text} (absent : pattern.Absent text []) :
    pattern.replace replacement text = text :=
  pattern.replace_of_firstUse?_none replacement (firstUse?_of_absent_passage absent)

theorem replaceM_of_absent_text {m : Type → Type} [Monad m] {pattern : Pattern first α}
    (replacement : α → m Text) {text : Text} (absent : pattern.Absent text []) :
    pattern.replaceM replacement text = pure text :=
  pattern.replaceM_of_firstUse?_none replacement (firstUse?_of_absent_passage absent)

/-- Where a pattern is used just once, its replacement takes the place of the use. -/
theorem run_replaceM_of_once {pattern : Pattern first α}
    {replacement : α → Compilation Text} {front use back replaced : Text} {captured : α}
    {context after : Context} (frontAbsent : pattern.Absent front (use ++ back))
    (found : pattern.run? (use ++ back) = some ⟨use, captured, back⟩)
    (backAbsent : pattern.Absent back [])
    (ran : (replacement captured).run context = some (replaced, after)) :
    (pattern.replaceM replacement (front ++ (use ++ back))).run context =
      some (front ++ (replaced ++ back), after) := by
  rw [replaceM_append replacement frontAbsent, pattern.replaceM_of_found replacement found,
    replaceM_of_absent_text replacement backAbsent]
  simp [ran]

theorem uses_of_absent_text {pattern : Pattern first α} {text : Text}
    (absent : pattern.Absent text []) : pattern.uses text = [] :=
  uses_of_firstUse?_none (firstUse?_of_absent_passage absent)

theorem replaceEach_of_absent_text {patterns : List (Pattern first Text)} {text : Text}
    (absent : ∀ pattern ∈ patterns, pattern.Absent text []) :
    replaceEach patterns text = text :=
  replaceEach_of_unused fun pattern member => uses_of_absent_text (absent pattern member)

end Pattern

theorem Registry.apply_of_unregistered {registry : Registry}
    (unregistered : registry.directives = []) (text : Text) : registry.apply text = text := by
  rw [Registry.apply, unregistered, List.map_nil, Pattern.replaceEach_eq_foldl, List.foldl_nil]

theorem Registry.apply_of_unsigned (registry : Registry) {text : Text} (unsigned : '@' ∉ text) :
    registry.apply text = text := by
  apply Pattern.replaceEach_of_absent_text
  intro pattern member
  exact Pattern.Absent.of_notMem unsigned

namespace Directive

theorem replaceEach_of_words {entries : List Entry} {text : Text}
    (letters : ∀ entry ∈ entries, ∀ character ∈ entry.name, Text.isLetter character)
    (unused : ∀ entry ∈ entries, ∀ word ∈ Text.words text,
      ¬ entry.name.map Text.fold <+: word) :
    Pattern.replaceEach (entries.map Entry.rule) text = text := by
  apply Pattern.replaceEach_of_absent_text
  intro pattern member
  obtain ⟨entry, entryMember, rfl⟩ := List.mem_map.mp member
  exact entry.rule_named.absent_of_words (letters entry entryMember)
    (unused entry entryMember)

theorem lowerForms_of_unused {text : Text} (blocks : formBlock.uses text = [])
    (controls : ∀ rule ∈ controlRules, rule.uses text = []) : lowerForms text = text := by
  rw [lowerForms]
  cases text.length with
  | zero => exact Pattern.replaceEach_of_unused controls
  | succ bound =>
      rw [lowerFormsWithin,
        formBlock.replace_of_firstUse?_none _ (Pattern.uses_eq_nil_iff.mp blocks)]
      exact Pattern.replaceEach_of_unused controls

theorem lowerForms_of_words {text : Text}
    (unused : ∀ name ∈ Pass.forms.names, ∀ word ∈ Text.words text,
      ¬ name.map Text.fold <+: word) :
    lowerForms text = text := by
  have absent : ∀ {α : Type} {name : Text} {pattern : Pattern '@' α},
      name ∈ Pass.forms.names → Pattern.Named name pattern → pattern.uses text = [] :=
    fun listed named => Pattern.uses_of_absent_text
      (named.absent_of_words (Pass.names_letters .forms _ listed) (unused _ listed))
  apply lowerForms_of_unused
  · exact absent List.mem_cons_self ((Pattern.Called.withArgument _).blockOf _).named
  · intro rule listed
    rw [controlRules_eq] at listed
    obtain ⟨entry, entryListed, rfl⟩ := List.mem_map.mp listed
    exact absent (List.mem_cons_of_mem _ (List.mem_map_of_mem entryListed)) entry.rule_named

end Directive

namespace Compiler

variable (compiler : Compiler) (compile : Text → Compilation Text)

/-- A pass for directives of this library is idle on a text that names none of
them. -/
theorem apply_of_words {pass : Pass} {text : Text}
    (builtIn : pass ∉ [Pass.customDirectives, .comments, .echoes])
    (unused : ∀ name ∈ pass.names, ∀ word ∈ Text.words text,
      ¬ name.map Text.fold <+: word) :
    compiler.apply compile pass text = pure text := by
  have absent : ∀ {α : Type} {name : Text} {pattern : Pattern '@' α},
      name ∈ pass.names → Pattern.Named name pattern → pattern.Absent text [] :=
    fun listed named =>
      named.absent_of_words (Pass.names_letters pass _ listed) (unused _ listed)
  cases follows : pass.entries? with
  | some entries =>
      rw [apply_of_entries compiler compile follows, Directive.replaceEach_of_words]
      · intro entry listed
        exact Pass.names_letters pass entry.name (Pass.mem_names_of_entries follows listed)
      · intro entry listed
        exact unused entry.name (Pass.mem_names_of_entries follows listed)
  | none =>
      cases pass with
      | extensions =>
          exact Pattern.replaceM_of_absent_text _
            (absent List.mem_cons_self (Pattern.Called.withSomeArgument _).named)
      | inlineSections =>
          exact Pattern.replaceM_of_absent_text _
            (absent List.mem_cons_self (Pattern.Called.withKeyAndValue _).named)
      | blockSections =>
          exact Pattern.replaceM_of_absent_text _
            (absent List.mem_cons_self ((Pattern.Called.withSomeArgument _).blockOf _).named)
      | inclusions =>
          exact Pattern.replaceM_of_absent_text _
            (absent List.mem_cons_self (Pattern.Called.withArgument _).named)
      | forms =>
          rw [apply, Directive.lowerForms_of_words unused]
      | switches =>
          exact Pattern.replaceM_of_absent_text _
            (absent List.mem_cons_self ((Pattern.Called.withArgument _).blockOf _).named)
      | yields =>
          have unresolved : yielding.Absent text [] :=
            absent List.mem_cons_self (Pattern.Called.withArgument _).named.keepingWritten
          funext context
          simp only [apply, Pattern.replace_of_absent_text _ unresolved]
          rfl
      | customDirectives => simp at builtIn
      | comments => simp at builtIn
      | echoes => simp at builtIn
      | _ => cases follows

theorem foldlM_of_idle {passes : List Pass} {text : Text}
    (idle : ∀ pass ∈ passes, compiler.apply compile pass text = pure text) :
    passes.foldlM (fun text pass => compiler.apply compile pass text) text =
      (pure text : Compilation Text) := by
  induction passes with
  | nil => rfl
  | cons pass passes induction =>
      rw [List.foldlM_cons, idle pass List.mem_cons_self, pure_bind]
      exact induction fun other member => idle other (List.mem_cons_of_mem pass member)

/-- The passes after one that ran go on from its text and context. -/
theorem run_foldlM_cons {pass : Pass} {passes : List Pass} {text next : Text}
    {context after : Context}
    (ran : (compiler.apply compile pass text).run context = some (next, after)) :
    ((pass :: passes).foldlM (fun text pass => compiler.apply compile pass text) text).run
        context =
      (passes.foldlM (fun text pass => compiler.apply compile pass text) next).run after := by
  rw [List.foldlM_cons, StateT.run_bind, ran]
  rfl

theorem run_yields (text : Text) (context : Context) :
    (compiler.apply compile .yields text).run context =
      some (yielding.replace (resolveYield context) text, context) :=
  rfl

theorem apply_comments_of_absent {text : Text} (absent : Directive.comment.Absent text []) :
    compiler.apply compile .comments text = pure text := by
  rw [apply, Directive.dropComments, Pattern.replace_of_absent_text _ absent]

theorem apply_echoes_of_absent {text : Text}
    (absent : ∀ pattern ∈ Echo.patterns .output, pattern.Absent text []) :
    compiler.apply compile .echoes text = pure text := by
  rw [apply, Echo.interpolate, Pattern.replaceEach_of_absent_text absent]

theorem apply_comments_of_unbraced {text : Text} (unbraced : '\x7b' ∉ text) :
    compiler.apply compile .comments text = pure text :=
  compiler.apply_comments_of_absent compile (Pattern.Absent.of_notMem unbraced)

theorem apply_echoes_of_unbraced {text : Text} (unbraced : '\x7b' ∉ text) :
    compiler.apply compile .echoes text = pure text :=
  compiler.apply_echoes_of_absent compile fun _ _ => Pattern.Absent.of_notMem unbraced

/-- No pass changes a text without signs, comments and echoes. -/
theorem apply_of_unsigned {pass : Pass} {text : Text} (unsigned : '@' ∉ text)
    (comments : Directive.comment.Absent text [])
    (echoes : ∀ pattern ∈ Echo.patterns .output, pattern.Absent text []) :
    compiler.apply compile pass text = pure text := by
  by_cases last : pass ∈ [Pass.customDirectives, .comments, .echoes]
  · simp only [List.mem_cons, List.not_mem_nil, or_false] at last
    rcases last with rfl | rfl | rfl
    · rw [apply, compiler.registry.apply_of_unsigned unsigned]
    · exact compiler.apply_comments_of_absent compile comments
    · exact compiler.apply_echoes_of_absent compile echoes
  · apply apply_of_words compiler compile last
    simp [Text.words_of_unsigned unsigned]

/-- What comes of a text after the passes for the directives of this library. -/
def finish (text : Text) : Text :=
  Text.trim (Echo.interpolate .output (Directive.dropComments (compiler.registry.apply text)))

/-- A text that names no directive of this library is compiled by the last passes. -/
theorem compile_of_words {text : Text}
    (unused : ∀ pass : Pass, ∀ name ∈ pass.names, ∀ word ∈ Text.words text,
      ¬ name.map Text.fold <+: word) (bound : Nat) :
    compiler.compile (bound + 1) text = pure (compiler.finish text) := by
  let directivePasses := Pass.all.take 15
  have idle : ∀ pass ∈ directivePasses,
      compiler.apply (compiler.compile bound) pass text = pure text := by
    intro pass listed
    apply apply_of_words
    · revert pass
      decide
    · exact unused pass
  have split : Pass.all = directivePasses ++ [Pass.customDirectives, .comments, .echoes] := rfl
  rw [Compiler.compile, split, List.foldlM_append, foldlM_of_idle _ _ idle]
  rfl

/-- A text without signs only loses its comments and has its echoes replaced. -/
theorem compile_of_unsigned {text : Text} (unsigned : '@' ∉ text) (bound : Nat) :
    compiler.compile (bound + 1) text =
      pure (Text.trim (Echo.interpolate .output (Directive.dropComments text))) := by
  rw [compile_of_words compiler (by simp [Text.words_of_unsigned unsigned]), finish,
    compiler.registry.apply_of_unsigned unsigned]

end Compiler

end Scriptlet
