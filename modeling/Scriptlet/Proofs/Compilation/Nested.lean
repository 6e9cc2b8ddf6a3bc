import Scriptlet.Proofs.Compilation.Run

/-!
# Nested views

What compiling a nested view does to the context depends on two questions: is
there a level left, and does the loader serve the view.
-/

namespace Scriptlet

/-- The diagnostic for a nested view that could not be loaded. -/
def Diagnostic.nestedUnusable (view : Text) : Failure → Diagnostic
  | .viewNotFound _ path => .nestedNotFound view path
  | failure => .nestedUnreadable view failure

namespace Compiler

variable {compiler : Compiler} {compile : Text → Compilation Text} {name : Text}
  {context : Context}

theorem compileNested_run_of_limit (reached : compiler.depthLimit ≤ context.depth) :
    (compiler.compileNested compile name).run context =
      some ([], context.record (.nestedTooDeep name compiler.depthLimit)) := by
  simp [compileNested, reached]

theorem compileNested_run_of_ok {source : Text}
    (below : context.depth < compiler.depthLimit)
    (loaded : compiler.loader.load name = .ok source) :
    (compiler.compileNested compile name).run context =
      ((compile source).run context.enter).map fun outcome =>
        (outcome.1, outcome.2.leave) := by
  have open_ : ¬ compiler.depthLimit ≤ context.depth := Nat.not_le_of_gt below
  simp only [compileNested, StateT.run_bind, StateT.run_get, Option.pure_def,
    Option.bind_eq_bind, Option.bind_some, open_, if_false, loaded]
  cases compiled : (compile source).run context.enter with
  | none => simp [compiled]
  | some outcome => simp [compiled]

theorem compileNested_run_of_error {failure : Failure}
    (below : context.depth < compiler.depthLimit)
    (unloaded : compiler.loader.load name = .error failure) :
    (compiler.compileNested compile name).run context =
      some ([], context.record (.nestedUnusable name failure)) := by
  have open_ : ¬ compiler.depthLimit ≤ context.depth := Nat.not_le_of_gt below
  cases failure <;>
    simp [compileNested, open_, unloaded, Diagnostic.nestedUnusable]

/-- Compiling a nested view records that it is left out, or compiles its source
one level deeper. -/
theorem compileNested_cases {result : Text} {after : Context}
    (ran : (compiler.compileNested compile name).run context = some (result, after)) :
    (∃ diagnostic,
        (diagnostic = .nestedTooDeep name compiler.depthLimit ∨
          ∃ failure, diagnostic = .nestedUnusable name failure) ∧
        result = [] ∧ after = context.record diagnostic) ∨
      (∃ source inner, context.depth < compiler.depthLimit ∧
        compiler.loader.load name = .ok source ∧
        (compile source).run context.enter = some (result, inner) ∧
        after = inner.leave) := by
  by_cases reached : compiler.depthLimit ≤ context.depth
  · rw [compileNested_run_of_limit reached] at ran
    cases ran
    exact .inl ⟨_, .inl rfl, rfl, rfl⟩
  · have below : context.depth < compiler.depthLimit := Nat.lt_of_not_le reached
    cases loaded : compiler.loader.load name with
    | error failure =>
        rw [compileNested_run_of_error below loaded] at ran
        cases ran
        exact .inl ⟨_, .inr ⟨failure, rfl⟩, rfl, rfl⟩
    | ok source =>
        rw [compileNested_run_of_ok below loaded, Option.map_eq_some_iff] at ran
        obtain ⟨⟨compiled, inner⟩, innerRan, pairEq⟩ := ran
        cases pairEq
        exact .inr ⟨source, inner, below, rfl, innerRan, rfl⟩

end Compiler

end Scriptlet
