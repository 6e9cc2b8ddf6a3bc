import Scriptlet.Proofs.Compilation.Bound
import Scriptlet.Proofs.Compilation.Idle
import Scriptlet.Proofs.Compilation.Level
import Scriptlet.Proofs.Composition.Item
import Scriptlet.Proofs.Pattern.Marks

/-!
# Inlined views

A plain text that includes or extends a view compiles to that text with the compiled view
in the place of the directive, as long as the compiled view has no signs and no marks.  The
passes behind the inlining find nothing in it, nor where it meets the text around it.
-/

namespace Scriptlet.Composition

open Pattern

/-- The directives that name a view, and the passes that look for them. -/
inductive Inlines : Text → Pass → Prop
  | inclusion : Inlines "include" .inclusions
  | extension : Inlines "extends" .extensions

/-- A plain text with a directive for a view. -/
def around (front : List Plain) (word : Text) (name : ViewName) (back : List Plain) : Text :=
  plainText front ++ (Text.called word (quoted name.text) ++ plainText back)

variable {front back : List Plain} {name : ViewName} {word compiled : Text} {pass : Pass}
  {compiler : Compiler} {compile : Text → Compilation Text} {context after : Context}

/-- The pass that looks for a directive puts the compiled view into its place. -/
theorem Inlines.run_apply (inlines : Inlines word pass) (front back : List Plain)
    (nested : (compiler.compileNested compile name.text).run context =
      some (compiled, after)) :
    (compiler.apply compile pass (around front word name back)).run context =
      some (plainText front ++ (compiled ++ plainText back), after) := by
  have signs : '@' ∈ ['@', '\x7b', '\x7d'] := by decide
  have unquoted : Text.unquote (quoted name.text) = name.text :=
    (unquote_quoted _).trans name.unquoted
  rw [← unquoted] at nested
  cases inlines with
  | inclusion =>
      exact run_replaceM_of_once (Absent.of_notMem (notMem_plainText signs front))
        (withArgument_run? rfl name.quoted_closed _)
        (Absent.of_notMem (notMem_plainText signs back)) nested
  | extension =>
      have closed : ')' ∉ name.text ++ ['\x27'] :=
        fun member => name.quoted_closed (List.mem_cons_of_mem _ member)
      exact run_replaceM_of_once (Absent.of_notMem (notMem_plainText signs front))
        (withSomeArgument_run? rfl '\x27' closed _)
        (Absent.of_notMem (notMem_plainText signs back)) nested

theorem words_around (letters : ∀ character ∈ word, Text.isLetter character) :
    Text.words (around front word name back) = [word.map Text.fold] := by
  have signs : '@' ∈ ['@', '\x7b', '\x7d'] := by decide
  have unsigned : '@' ∉ '(' :: (quoted name.text ++ ')' :: plainText back) := by
    simp [name.quoted_unsigned, notMem_plainText signs back]
  rw [around, Text.words_append_of_unsigned (notMem_plainText signs front), Text.called_append,
    Text.words_directive letters rfl, Text.words_of_unsigned unsigned]

/-- The passes before the one that looks for a directive do not know its word. -/
theorem Inlines.earlier_idle (inlines : Inlines word pass) (compiler : Compiler)
    (compile : Text → Compilation Text) (front : List Plain) (name : ViewName)
    (back : List Plain) :
    ∃ earlier later, Pass.all = earlier ++ pass :: later ∧
      ∀ other ∈ earlier, compiler.apply compile other (around front word name back) =
        pure (around front word name back) := by
  cases inlines with
  | extension => exact ⟨[], Pass.all.drop 1, rfl, nofun⟩
  | inclusion =>
      refine ⟨[.extensions, .inlineSections, .blockSections], Pass.all.drop 4, rfl, ?_⟩
      have apart : ∀ other ∈ [Pass.extensions, .inlineSections, .blockSections],
          other ∉ [Pass.customDirectives, .comments, .echoes] ∧
            ∀ name ∈ other.names, ¬ name.map Text.fold <+: "include".toList.map Text.fold := by
        decide +kernel
      intro other listed
      apply compiler.apply_of_words compile (apart other listed).1
      rw [words_around (Pass.names_letters .inclusions "include" List.mem_cons_self)]
      simpa using (apart other listed).2

/-- Between marks there is nothing to find where a text without marks stands between plain
texts. -/
private theorem between_absent {others : Text} {last : Char} {closers : Text}
    (closes : '\x7d' ∈ last :: closers) (unmarked : ¬ '\x7b' :: others <:+: compiled) :
    (between (literal '\x7b' others) (literal last closers)).Absent
      (plainText front ++ (compiled ++ plainText back)) [] := by
  refine Absent.append (Absent.of_notMem (notMem_plainText (by decide) front)) ?_
  exact absent_between_of_unclosed closes (notMem_plainText (by decide) back) unmarked

/-- No pass changes a text without signs and marks between plain texts. -/
theorem apply_of_unmarked (unsigned : '@' ∉ compiled) (unmarked : Text.Unmarked compiled)
    (front back : List Plain) (pass : Pass) :
    compiler.apply compile pass (plainText front ++ (compiled ++ plainText back)) =
      pure (plainText front ++ (compiled ++ plainText back)) := by
  have noBraces : ¬ "\x7b\x7b".toList <:+: compiled := unmarked _ List.mem_cons_self
  have noComment : ¬ "\x7b\x7b--".toList <:+: compiled := fun comment =>
    noBraces ((List.prefix_append "\x7b\x7b".toList "--".toList).isInfix.trans comment)
  apply compiler.apply_of_unsigned compile
  · simp [unsigned, notMem_plainText]
  · exact between_absent (by decide) noComment
  · intro pattern member
    simp only [Echo.patterns, List.mem_cons, List.not_mem_nil, or_false] at member
    rcases member with rfl | rfl
    · apply Absent.map
      exact between_absent (by decide) (unmarked "\x7b!!" (by decide))
    · apply Absent.map
      exact between_absent (by decide) noBraces

/-- All passes together leave the compiled view between the plain texts. -/
theorem Inlines.run_compile (inlines : Inlines word pass) {bound : Nat}
    (nested : (compiler.compileNested (compiler.compile bound) name.text).run context =
      some (compiled, after))
    (unsigned : '@' ∉ compiled) (unmarked : Text.Unmarked compiled) :
    (compiler.compile (bound + 1) (around front word name back)).run context =
      some (Text.trim (plainText front ++ (compiled ++ plainText back)), after) := by
  obtain ⟨earlier, later, split, earlierIdle⟩ :=
    inlines.earlier_idle compiler (compiler.compile bound) front name back
  have inlined := inlines.run_apply front back nested
  have laterIdle : ∀ other ∈ later, compiler.apply (compiler.compile bound) other
      (plainText front ++ (compiled ++ plainText back)) =
        pure (plainText front ++ (compiled ++ plainText back)) :=
    fun other _ => apply_of_unmarked unsigned unmarked front back other
  rw [Compiler.compile, split, List.foldlM_append,
    compiler.foldlM_of_idle (compiler.compile bound) earlierIdle, pure_bind, StateT.run_bind,
    compiler.run_foldlM_cons _ inlined, compiler.foldlM_of_idle _ laterIdle]
  rfl

/-- Including or extending a view within one more level compiles to the plain text around
the directive with the view, compiled at the level of the directive, in its place.  The
sections are the same too, and so are the diagnostics, but for the limit that the warnings
about views nested too deeply name. -/
theorem compiles_around {source : Text}
    (loaded : compiler.loader.load name.text = .ok source)
    (within : context.depth ≤ compiler.depthLimit)
    (compiles : compiler.Compiles source context compiled after)
    (unsigned : '@' ∉ compiled) (unmarked : Text.Unmarked compiled)
    (front back : List Plain) (inlines : Inlines word pass) :
    ∃ final,
      compiler.raised.Compiles (around front word name back) context
        (Text.trim (plainText front ++ (compiled ++ plainText back))) final ∧
      final.sections = after.sections ∧ final.depth = after.depth ∧
      ∃ recorded raised, after.diagnostics = context.diagnostics ++ recorded ∧
        final.diagnostics = context.diagnostics ++ raised ∧
        List.Forall₂ (Diagnostic.Raised compiler.depthLimit) recorded raised := by
  obtain ⟨bound, ran⟩ := compiles
  have below : context.depth < compiler.raised.depthLimit := Nat.lt_succ_of_le within
  obtain ⟨inner, innerRan, deeper⟩ :=
    compiler.compile_simulates_deeper context.diagnostics bound source context context.enter
      after compiled (Context.Deeper.enter_self _ context) ran
  have nested : (compiler.raised.compileNested (compiler.raised.compile bound) name.text).run
      context = some (compiled, inner.leave) := by
    rw [Compiler.compileNested_run_of_ok below loaded, innerRan]
    rfl
  refine ⟨inner.leave, ⟨bound + 1, inlines.run_compile nested unsigned unmarked⟩,
    deeper.sections_eq, ?_, deeper.diagnostics⟩
  rw [Context.leave, deeper.depth_eq]
  rfl

/-- A view at the last level that the limit allows, with a custom directive, a stored
section, and a view that is nested too deeply. -/
theorem compiles_around_at_limit :
    let shout : Directive := ⟨"shout", fun argument? => argument?.getD [] ++ "!".toList⟩
    let compiler : Compiler :=
      { registry := ⟨[shout]⟩, loader := .ofTable [("v", "@include('n')@yield('k') @shout(a)")],
        depthLimit := 1 }
    let context : Context :=
      { sections := [("k", "1")], diagnostics := [.nestedNotFound "m" "m"], depth := 1 }
    let after : Context := context.record (.nestedTooDeep "n" 1)
    let name : ViewName := ⟨"v", Text.forall_notMem rfl, rfl⟩
    (compiler.loader.load name.text = .ok "@include('n')@yield('k') @shout(a)".toList ∧
      context.depth ≤ compiler.depthLimit ∧
      compiler.Compiles "@include('n')@yield('k') @shout(a)" context "1 a!" after ∧
      '@' ∉ "1 a!".toList ∧ Text.Unmarked "1 a!") ∧
    ∃ final,
      compiler.raised.Compiles "-@extends('v')-" context "-1 a!-" final ∧
      final.sections = [("k".toList, "1".toList)] ∧ final.depth = 1 ∧
      ∃ recorded raised,
        [.nestedNotFound "m" "m", .nestedTooDeep "n" 1] =
          Diagnostic.nestedNotFound "m" "m" :: recorded ∧
        final.diagnostics = .nestedNotFound "m" "m" :: raised ∧
        List.Forall₂ (Diagnostic.Raised 1) recorded raised := by
  intro shout compiler context after name
  have loaded : compiler.loader.load name.text =
      .ok "@include('n')@yield('k') @shout(a)".toList := rfl
  have compiles : compiler.Compiles "@include('n')@yield('k') @shout(a)" context "1 a!" after :=
    ⟨1, by decide +kernel⟩
  have unmarked : Text.Unmarked "1 a!" := by
    rw [Text.Unmarked]
    decide
  refine ⟨⟨loaded, Nat.le_refl 1, compiles, by decide, unmarked⟩, ?_⟩
  exact compiles_around loaded (Nat.le_refl 1) compiles (by decide) unmarked
    [⟨'-', by decide⟩] [⟨'-', by decide⟩] .extension

end Scriptlet.Composition
