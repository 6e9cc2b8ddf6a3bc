import Scriptlet.Proofs.Compilation.Congruence

/-!
# What a compile does to its context

A compile that ends is back at the nesting depth it started from.  It records
warnings about nested views behind the diagnostics that are there already, and it
stores sections without ever taking one out.  The same holds of every single pass.
-/

namespace Scriptlet

/-- A warning that a view was left out because it was missing, unusable or nested
too deeply. -/
def Diagnostic.ConcernsNesting (diagnostic : Diagnostic) : Prop :=
  diagnostic.severity = .warning ∧
    (diagnostic.code? = some nestedNotFoundCode ∨
      diagnostic.code? = some nestedUnreadableCode ∨
      diagnostic.code? = some nestedTooDeepCode) ∧
    ∃ view, diagnostic.view? = some view

theorem Diagnostic.nestedTooDeep_concernsNesting (view : Text) (limit : Nat) :
    (Diagnostic.nestedTooDeep view limit).ConcernsNesting :=
  ⟨rfl, .inr (.inr rfl), view, rfl⟩

theorem Diagnostic.nestedUnusable_concernsNesting (view : Text) (failure : Failure) :
    (Diagnostic.nestedUnusable view failure).ConcernsNesting := by
  cases failure with
  | viewNotFound name path => exact ⟨rfl, .inl rfl, view, rfl⟩
  | _ => exact ⟨rfl, .inr (.inl rfl), view, rfl⟩

/-- How the context after a compile is related to the context before it. -/
structure Context.Grows (before after : Context) : Prop where
  depth_eq : after.depth = before.depth
  recorded : ∃ appended, after.diagnostics = before.diagnostics ++ appended ∧
    ∀ diagnostic ∈ appended, diagnostic.ConcernsNesting
  keeps : ∀ key, Table.contains key before.sections → Table.contains key after.sections

namespace Context.Grows

theorem refl (context : Context) : context.Grows context where
  depth_eq := rfl
  recorded := ⟨[], by simp, by simp⟩
  keeps := fun _ stored => stored

theorem trans (first second third : Context)
    (left : first.Grows second) (right : second.Grows third) : first.Grows third where
  depth_eq := right.depth_eq.trans left.depth_eq
  recorded := by
    obtain ⟨early, earlyEq, earlyWarn⟩ := left.recorded
    obtain ⟨late, lateEq, lateWarn⟩ := right.recorded
    refine ⟨early ++ late, ?_, ?_⟩
    · rw [lateEq, earlyEq, List.append_assoc]
    · intro diagnostic member
      rcases List.mem_append.mp member with isEarly | isLate
      · exact earlyWarn diagnostic isEarly
      · exact lateWarn diagnostic isLate
  keeps := fun key stored => right.keeps key (left.keeps key stored)

theorem record {diagnostic : Diagnostic} (concerns : diagnostic.ConcernsNesting)
    (context : Context) : context.Grows (context.record diagnostic) where
  depth_eq := rfl
  recorded := ⟨[diagnostic], rfl, by simpa using concerns⟩
  keeps := fun _ stored => stored

theorem store (key content : Text) (context : Context) :
    context.Grows (context.store key content) where
  depth_eq := rfl
  recorded := ⟨[], by simp [Context.store], by simp⟩
  keeps := by
    intro other stored
    by_cases same : key = other
    · simp [Context.store, Table.contains, Table.get?_insert, same]
    · simpa [Context.store, Table.contains, Table.get?_insert, same] using stored

/-- Entering a level and leaving it again cancel. -/
theorem leave {outer inner : Context} (grown : outer.enter.Grows inner) :
    outer.Grows inner.leave where
  depth_eq := by
    have entered := grown.depth_eq
    simp only [Context.enter] at entered
    simp [Context.leave, entered]
  recorded := grown.recorded
  keeps := grown.keeps

end Context.Grows

namespace Compiler

open Compilation

variable {compiler : Compiler} {compile : Text → Compilation Text}

theorem compileNested_grows (grows : ∀ source, Respects Context.Grows (compile source))
    (name : Text) : Respects Context.Grows (compiler.compileNested compile name) := by
  intro before after result ran
  rcases compileNested_cases ran with
    ⟨diagnostic, origin, -, rfl⟩ | ⟨source, inner, -, -, innerRan, rfl⟩
  · apply Context.Grows.record
    rcases origin with rfl | ⟨failure, rfl⟩
    · exact Diagnostic.nestedTooDeep_concernsNesting name compiler.depthLimit
    · exact Diagnostic.nestedUnusable_concernsNesting name failure
  · exact Context.Grows.leave (grows source _ _ _ innerRan)

private theorem grows_compositional :
    Compositional fun first _ => Respects Context.Grows first :=
  Respects.compositional Context.Grows.refl Context.Grows.trans

/-- A pass only lets the context grow if the compiles inside it do. -/
theorem apply_grows (grows : ∀ source, Respects Context.Grows (compile source))
    (pass : Pass) (text : Text) :
    Respects Context.Grows (compiler.apply compile pass text) := by
  refine @apply_related _ grows_compositional compiler compiler rfl compile compile ?_ ?_ grows
    (compileNested_grows grows) pass text
  · exact fun key content => Respects.ofModify (Context.Grows.store key content)
  · intro text before after result ran
    cases ran
    exact Context.Grows.refl before

/-- By induction on the bound: every compile inside a pass has a smaller one. -/
theorem compile_grows (compiler : Compiler) (bound : Nat) (source : Text) :
    Respects Context.Grows (compiler.compile bound source) := by
  induction bound generalizing source with
  | zero =>
      intro before after result ran
      cases ran
  | succ bound induction =>
      exact @compile_related _ grows_compositional compiler compiler bound bound
        (apply_grows induction) source

/-- Wherever a compile or a single pass ends, the depth is what it was, only
warnings about nested views were added behind the diagnostics, and no section key
is lost. -/
theorem context_grows (compiler : Compiler) (bound : Nat) (text result : Text)
    (before after : Context) :
    ((compiler.compile bound text).run before = some (result, after) →
        before.Grows after) ∧
      ∀ pass, (compiler.runPass bound pass text).run before = some (result, after) →
        before.Grows after := by
  constructor
  · intro ran
    exact compile_grows compiler bound text before after result ran
  · intro pass ran
    exact apply_grows (compile_grows compiler bound) pass text before after result ran

/-- A block section and a missing view, compiled where a section and a diagnostic
are there already. -/
theorem context_grows_of_missing_view :
    let compiler : Compiler := { registry := {}, loader := .ofTable [] }
    let before : Context :=
      { sections := [("a", "1")], diagnostics := [.nestedTooDeep "v" 3], depth := 2 }
    let after : Context :=
      { sections := [("a", "1"), ("k", "b")],
        diagnostics := [.nestedTooDeep "v" 3, .nestedNotFound "n" "n"], depth := 2 }
    (compiler.compile 2 "@section('k')b@include(n)@endsection").run before =
        some ([], after) ∧
      before.Grows after := by
  intro compiler before after
  have ran : (compiler.compile 2 "@section('k')b@include(n)@endsection").run before =
      some ([], after) := by
    decide +kernel
  exact ⟨ran, (context_grows compiler 2 _ [] before after).1 ran⟩

end Compiler

end Scriptlet
