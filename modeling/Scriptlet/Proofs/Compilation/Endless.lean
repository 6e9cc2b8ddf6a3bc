import Mathlib.Data.List.Infix
import Scriptlet.Proofs.Compilation.Idle
import Scriptlet.Proofs.Compilation.Termination
import Scriptlet.Proofs.Directive.Name

/-!
# Compiles that do not end

Comments are taken out only after the directives of a view, so a view can come out of
its compile as a block that extends the view again.  The block is compiled in its turn
on the level of the text around it, where the limit is as far away as before.
-/

namespace Scriptlet

/-- The directives of a registry have the names that can be registered. -/
def Registry.WellNamed (registry : Registry) : Prop :=
  ∀ directive ∈ registry.directives, Registry.isName directive.name = true

namespace Registry

/-- A text whose signs stand before braces has no uses of custom directives. -/
theorem apply_of_braces {registry : Registry} (named : registry.WellNamed) {text : Text}
    (braces : ∀ tail ∈ text.tails, tail.head? = some '@' → tail.tail.head? = some '\x7b') :
    registry.apply text = text := by
  apply Pattern.replaceEach_of_absent_text
  intro pattern member
  obtain ⟨directive, directiveMember, rfl⟩ := List.mem_map.mp member
  apply directive.pattern_named.absent
  intro tail suffix begins
  rw [List.append_nil] at begins
  have brace : tail.head? = some '\x7b' :=
    braces _ ((List.mem_tails _ _).mpr suffix) rfl
  have ofName := named directive directiveMember
  have unbraced := notMem_map_fold_of_isName ofName (by decide : '\x7b' ∈ '@' :: Text.stops)
  obtain ⟨behind, rfl⟩ := List.head?_eq_some_iff.mp brace
  cases folded : directive.name.map Text.fold with
  | nil => exact (isName_iff.mp ofName).1 (List.map_eq_nil_iff.mp folded)
  | cons first others =>
      rw [folded, List.map_cons, List.cons_prefix_cons] at begins
      rw [folded, begins.1] at unbraced
      exact unbraced List.mem_cons_self

end Registry

namespace Compiler

/-- A view that becomes `recurringBlock` when it is compiled. -/
def recurringView : Text :=
  "@\x7b\x7b----\x7d\x7dsection('k')@\x7b\x7b----\x7d\x7dextends('a')@\x7b\x7b----\x7d\x7dendsection"

/-- A section whose body extends the view `a`. -/
def recurringBlock : Text :=
  "@section('k')@extends('a')@endsection"

/-- A text that extends the view `a`. -/
def recurringSource : Text :=
  "@extends('a')"

variable {compiler : Compiler} {bound : Nat} {context : Context}

theorem compile_recurringView (named : compiler.registry.WellNamed) :
    compiler.compile (bound + 1) recurringView = pure recurringBlock := by
  have wordless : ∀ word ∈ Text.words recurringView, word = [] := by
    decide
  have unused : ∀ pass : Pass, ∀ name ∈ pass.names, ∀ word ∈ Text.words recurringView,
      ¬ name.map Text.fold <+: word := by
    intro pass name listed word member begins
    rw [wordless word member, List.prefix_nil, List.map_eq_nil_iff] at begins
    exact Pass.names_ne_nil pass name listed begins
  have custom : compiler.registry.apply recurringView = recurringView :=
    Registry.apply_of_braces named (by decide)
  have finished : Text.trim (Echo.interpolate .output
      (Directive.dropComments recurringView)) = recurringBlock := by
    decide +kernel
  rw [compile_of_words compiler unused, finish, custom, finished]

private theorem run_extensions (below : context.depth < compiler.depthLimit)
    (loaded : compiler.loader.load "a" = .ok recurringView)
    (compile : Text → Compilation Text) :
    (compiler.apply compile .extensions recurringSource).run context =
      ((compile recurringView).run context.enter).map fun outcome =>
        (outcome.1, outcome.2.leave) := by
  have found : extension.run? recurringSource = some ⟨recurringSource, "'a'", []⟩ := by
    decide
  have named : Text.unquote "'a'" = "a".toList := by decide
  rw [apply, extension.replaceM_of_found _ found, StateT.run_bind, named,
    compileNested_run_of_ok below loaded, extension.replaceM_nil]
  cases compiled : (compile recurringView).run context.enter with
  | none => rfl
  | some outcome =>
      obtain ⟨text, inner⟩ := outcome
      simp

private theorem apply_inlineSections (compile : Text → Compilation Text) :
    compiler.apply compile .inlineSections recurringBlock = pure recurringBlock := by
  have unused : inlineSection.firstUse? 0 recurringBlock = none := by
    decide
  exact inlineSection.replaceM_of_firstUse?_none storeInline unused

private theorem run_blockSections {compile : Text → Compilation Text}
    (endless : (compile recurringSource).run context = none) :
    (compiler.apply compile .blockSections recurringBlock).run context = none := by
  have found : blockSection.run? recurringBlock =
      some ⟨recurringBlock, ("'k'", recurringSource), []⟩ := by
    decide
  rw [apply, blockSection.replaceM_of_found _ found, StateT.run_bind, storeBlock,
    StateT.run_bind, endless]
  rfl

/-- A text that extends the recurring view compiles within no bound. -/
theorem compile_recurringSource (named : compiler.registry.WellNamed)
    (loaded : compiler.loader.load "a" = .ok recurringView)
    (below : context.depth < compiler.depthLimit) :
    (compiler.compile bound recurringSource).run context = none := by
  have passes : Pass.all =
      .extensions :: .inlineSections :: .blockSections :: Pass.all.drop 3 := rfl
  induction bound generalizing context with
  | zero => rfl
  | succ bound induction =>
      cases ran : (compiler.compile (bound + 1) recurringSource).run context with
      | none => rfl
      | some outcome =>
          obtain ⟨compiled, after⟩ := outcome
          rw [Compiler.compile, passes, List.foldlM_cons] at ran
          obtain ⟨_, _, folded, -⟩ := Compilation.run_bind_eq_some.mp ran
          obtain ⟨extended, middle, first, rest⟩ := Compilation.run_bind_eq_some.mp folded
          rw [run_extensions below loaded] at first
          cases bound with
          | zero => cases first
          | succ bound =>
              rw [compile_recurringView named] at first
              cases first
              rw [List.foldlM_cons, apply_inlineSections, pure_bind, List.foldlM_cons] at rest
              obtain ⟨_, _, third, -⟩ := Compilation.run_bind_eq_some.mp rest
              have left : context.enter.leave = context := rfl
              rw [left, run_blockSections (induction below)] at third
              cases third

private theorem exists_signs_le (views : Table Text Text) :
    ∃ largest, ∀ name view, (View.Loader.ofTable views).load name = .ok view →
      Text.signs view ≤ largest := by
  have found : ∃ largest, ∀ name view, views.get? name = some view →
      Text.signs view ≤ largest := by
    induction views with
    | nil => exact ⟨0, fun name view got => by cases got⟩
    | cons entry rest induction =>
        obtain ⟨largest, small⟩ := induction
        refine ⟨max (Text.signs entry.2) largest, ?_⟩
        intro name view got
        simp only [Table.get?] at got
        split at got
        · cases got
          exact Nat.le_max_left _ _
        · exact (small name view got).trans (Nat.le_max_right _ _)
  obtain ⟨largest, small⟩ := found
  refine ⟨largest, ?_⟩
  intro name view loaded
  simp only [View.Loader.ofTable] at loaded
  split at loaded
  · rename_i source got
    cases loaded
    exact small name view got
  · cases loaded

/-- Compiles end whatever the views are exactly where no nested view is compiled, and
they end everywhere if the views leave no signs. -/
theorem compiles_end_iff {registry : Registry} (named : registry.WellNamed)
    (depthLimit : Nat) (context : Context) :
    ((∀ (views : Table Text Text) (source : Text), ∃ compiled after,
        Compiles ⟨registry, .ofTable views, depthLimit⟩ source context compiled after) ↔
      depthLimit ≤ context.depth) ∧
    ∀ views : Table Text Text, LeavesNoSigns ⟨registry, .ofTable views, depthLimit⟩ →
      ∀ source, ∃ compiled after,
        Compiles ⟨registry, .ofTable views, depthLimit⟩ source context compiled after := by
  have ends : ∀ views : Table Text Text,
      (context.depth < depthLimit → LeavesNoSigns ⟨registry, .ofTable views, depthLimit⟩) →
      ∀ source, ∃ compiled after,
        Compiles ⟨registry, .ofTable views, depthLimit⟩ source context compiled after := by
    intro views unsigned source
    let compiler : Compiler := ⟨registry, .ofTable views, depthLimit⟩
    obtain ⟨largest, small⟩ := exists_signs_le views
    let needed := Text.signs source + (depthLimit - context.depth) * (largest + 1)
    have ended : Compilation.Ends (fun other => other.depth = context.depth) (fun _ => True)
        (compiler.compile (needed + 1) source) :=
      compile_ends (fun below => ⟨unsigned below, small⟩) (Nat.lt_succ_self needed)
    obtain ⟨compiled, after, ran, -, -⟩ := ended context rfl
    exact ⟨compiled, after, needed + 1, ran⟩
  refine ⟨⟨?_, ?_⟩, ?_⟩
  · intro always
    apply Nat.le_of_not_lt
    intro below
    obtain ⟨compiled, after, bound, ran⟩ := always [("a", recurringView)] recurringSource
    rw [compile_recurringSource named rfl below] at ran
    cases ran
  · intro reached views source
    exact ends views (fun below => absurd below (Nat.not_lt_of_le reached)) source
  · intro views unsigned source
    exact ends views (fun _ => unsigned) source

theorem compiles_end_iff_at_one_level :
    (⟨[⟨"shout", fun _ => []⟩]⟩ : Registry).WellNamed ∧
      ¬ ∀ (views : Table Text Text) (source : Text), ∃ compiled after,
        Compiles ⟨⟨[⟨"shout", fun _ => []⟩]⟩, .ofTable views, 1⟩ source {} compiled after := by
  have named : (⟨[⟨"shout", fun _ => []⟩]⟩ : Registry).WellNamed := by
    intro directive member
    rw [List.mem_singleton] at member
    subst member
    decide
  refine ⟨named, ?_⟩
  rw [(compiles_end_iff named 1 {}).1]
  decide

/-- One view that extends itself through a block is enough. -/
theorem recurringSource_never_compiles :
    ¬ ∃ compiled after,
      Compiles ⟨{}, .ofTable [("a", recurringView)], 50⟩ recurringSource {} compiled after := by
  rintro ⟨compiled, after, bound, ran⟩
  rw [compile_recurringSource (by intro directive member; cases member) rfl (by decide)] at ran
  cases ran

end Compiler

end Scriptlet
