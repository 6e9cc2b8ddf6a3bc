import Scriptlet.Proofs.Compilation.Bound
import Scriptlet.Proofs.Compilation.Simulation
import Scriptlet.Proofs.Compilation.Termination

/-!
# Compiles at the limit of nesting

At the limit every nested view is left out before a loader is asked for it.  So a compile
there depends on its source and its context only, and it ends: all that it still compiles
are the bodies of blocks, which have fewer signs than the text around them.
-/

namespace Scriptlet

/-- Two contexts are the same one, in which no further level is left. -/
structure Context.AtLimit (limit : Nat) (first second : Context) : Prop where
  same : second = first
  reached : limit ≤ first.depth

theorem Context.AtLimit.sharesSections (limit : Nat) :
    Compilation.SharesSections (AtLimit limit) where
  sections_eq atLimit := congrArg Context.sections atLimit.same
  store key content atLimit := ⟨congrArg (Context.store key content) atLimit.same, atLimit.reached⟩

namespace Compiler

open Compilation

variable {registry : Registry} {limit : Nat}

/-- A nested view is left out, whatever would be loaded and however it would be compiled. -/
theorem compileNested_simulates_atLimit (first second : View.Loader)
    (firstCompile secondCompile : Text → Compilation Text) (name : Text) :
    Simulates (Context.AtLimit limit)
      (compileNested ⟨registry, first, limit⟩ firstCompile name)
      (compileNested ⟨registry, second, limit⟩ secondCompile name) := by
  intro before other after result atLimit ran
  obtain ⟨rfl, reached⟩ := atLimit
  rw [compileNested_run_of_limit reached] at ran
  cases ran
  exact ⟨_, compileNested_run_of_limit reached, rfl, reached⟩

/-- By induction on the bound: every compile inside a pass has a smaller one. -/
theorem compile_simulates_atLimit (first second : View.Loader) (bound : Nat) (source : Text) :
    Simulates (Context.AtLimit limit) (compile ⟨registry, first, limit⟩ bound source)
      (compile ⟨registry, second, limit⟩ bound source) := by
  induction bound generalizing source with
  | zero =>
      intro before other after result _ ran
      cases ran
  | succ bound induction =>
      have sameRegistry : (Compiler.mk registry second limit).registry =
          (Compiler.mk registry first limit).registry := rfl
      apply compile_simulates
      apply apply_simulates sameRegistry (Context.AtLimit.sharesSections limit) induction
      exact compileNested_simulates_atLimit first second _ _

/-- At the limit of nesting a compile ends with compiles nested no deeper than the source
has signs, and every loader gives the same text, sections and diagnostics. -/
theorem compiles_at_limit (registry : Registry) {limit : Nat} {context : Context}
    (reached : limit ≤ context.depth) (source : Text) :
    ∃ compiled after, after.depth = context.depth ∧
      ∀ (loader : View.Loader) (bound : Nat), Text.signs source < bound →
        (compile ⟨registry, loader, limit⟩ bound source).run context = some (compiled, after) := by
  let emptyLoader := View.Loader.ofTable []
  have ends : Ends (fun inner => inner.depth = context.depth) (fun _ => True)
      (compile ⟨registry, emptyLoader, limit⟩ (Text.signs source + 1) source) := by
    have noLevels : limit - context.depth = 0 := Nat.sub_eq_zero_of_le reached
    have enough : Text.signs source + (limit - context.depth) * (0 + 1) <
        Text.signs source + 1 := by
      omega
    apply compile_ends _ enough
    intro below
    exact absurd below (Nat.not_lt_of_le reached)
  obtain ⟨compiled, after, ran, level, -⟩ := ends context rfl
  refine ⟨compiled, after, level, ?_⟩
  intro loader bound enough
  obtain ⟨final, loaded, atLimit⟩ := compile_simulates_atLimit emptyLoader loader _ source
    context context after compiled ⟨rfl, reached⟩ ran
  rw [atLimit.same] at loaded
  exact compile_refines enough source _ _ _ loaded

/-- A section with a view and a switch in it, compiled one level beyond the limit. -/
theorem compiles_at_limit_of_nested_blocks :
    let shout : Directive := ⟨"shout", fun argument? => argument?.getD [] ++ "!".toList⟩
    let source : Text :=
      "@section('s')@include('v')@switch(a)@shout(b)@endswitch@endsection[@yield('s')]"
    let context : Context := { sections := [("k", "1")], depth := 2 }
    let content : Text := "<% switch (a) \x7b %>b!<% \x7d %>"
    1 ≤ context.depth ∧ Text.signs source = 7 ∧
      ∀ (loader : View.Loader) (bound : Nat), 7 < bound →
        (compile ⟨⟨[shout]⟩, loader, 1⟩ bound source).run context =
          some ("[" ++ content ++ "]",
            { sections := [("k", "1"), ("s", content)],
              diagnostics := [.nestedTooDeep "v" 1], depth := 2 }) := by
  intro shout source context content
  have reached : 1 ≤ context.depth := by decide
  have signs : Text.signs source = 7 := by decide
  have ran : (compile ⟨⟨[shout]⟩, .ofTable [], 1⟩ 8 source).run context =
      some ("[" ++ content ++ "]",
        { sections := [("k", "1"), ("s", content)],
          diagnostics := [.nestedTooDeep "v" 1], depth := 2 }) := by
    decide +kernel
  obtain ⟨compiled, after, -, agrees⟩ := compiles_at_limit ⟨[shout]⟩ reached source
  rw [signs] at agrees
  have same := (agrees (.ofTable []) 8 (by decide)).symm.trans ran
  refine ⟨reached, signs, ?_⟩
  intro loader bound enough
  exact (agrees loader bound enough).trans same

end Compiler

end Scriptlet
