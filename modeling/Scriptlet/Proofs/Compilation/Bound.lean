import Scriptlet.Proofs.Compilation.Congruence

/-!
# The bound of a compile

A bound that is large enough decides nothing: a compile that answers within a bound
gives the same answer within every larger one.  So two compiles of a source that both
answer, within whatever bounds, answer the same.
-/

namespace Scriptlet

namespace Compilation

variable {α : Type}

/-- Wherever the first computation answers, the second one gives the same answer. -/
def Refines (first second : Compilation α) : Prop :=
  ∀ (before after : Context) (result : α),
    first.run before = some (result, after) → second.run before = some (result, after)

theorem Refines.compositional : Compositional Refines where
  ofPure value before after result ran := ran
  bind refines nextRefines before after result ran := by
    obtain ⟨value, middle, firstRan, nextRan⟩ := run_bind_eq_some.mp ran
    have secondRan := refines before middle value firstRan
    exact run_bind_eq_some.mpr
      ⟨value, middle, secondRan, nextRefines value middle after result nextRan⟩

end Compilation

namespace Compiler

open Compilation

variable {compiler : Compiler} {first second : Text → Compilation Text}

theorem compileNested_refines (refines : ∀ source, Refines (first source) (second source))
    (name : Text) :
    Refines (compiler.compileNested first name) (compiler.compileNested second name) := by
  intro before after result ran
  by_cases reached : compiler.depthLimit ≤ before.depth
  · rwa [compileNested_run_of_limit reached] at ran ⊢
  · have below : before.depth < compiler.depthLimit := Nat.lt_of_not_le reached
    cases loaded : compiler.loader.load name with
    | error failure =>
        rwa [compileNested_run_of_error below loaded] at ran ⊢
    | ok source =>
        rw [compileNested_run_of_ok below loaded] at ran ⊢
        obtain ⟨inner, innerRan, pairEq⟩ := Option.map_eq_some_iff.mp ran
        rw [refines source _ _ _ innerRan, Option.map_some, pairEq]

theorem apply_refines (refines : ∀ source, Refines (first source) (second source))
    (pass : Pass) (text : Text) :
    Refines (compiler.apply first pass text) (compiler.apply second pass text) := by
  apply apply_related Refines.compositional rfl
  · exact fun key content before after result ran => ran
  · exact fun text before after result ran => ran
  · exact refines
  · exact compileNested_refines refines

theorem compile_refines_succ (bound : Nat) (source : Text) :
    Refines (compiler.compile bound source) (compiler.compile (bound + 1) source) := by
  induction bound generalizing source with
  | zero =>
      intro before after result ran
      cases ran
  | succ bound induction =>
      exact compile_related Refines.compositional (apply_refines induction) source

theorem compile_refines {bound larger : Nat} (within : bound ≤ larger) (source : Text) :
    Refines (compiler.compile bound source) (compiler.compile larger source) := by
  induction within with
  | refl => exact fun _ _ _ ran => ran
  | step _ induction =>
      intro before after result ran
      exact compile_refines_succ _ _ _ _ _ (induction _ _ _ ran)

/-- Two compiles of a source that both answer answer the same. -/
theorem compile_unique {left right : Nat} {source : Text} {before : Context}
    {leftOutcome rightOutcome : Text × Context}
    (leftRan : (compiler.compile left source).run before = some leftOutcome)
    (rightRan : (compiler.compile right source).run before = some rightOutcome) :
    leftOutcome = rightOutcome := by
  have leftAgain := compile_refines (Nat.le_max_left left right) _ _ _ _ leftRan
  have rightAgain := compile_refines (Nat.le_max_right left right) _ _ _ _ rightRan
  exact Option.some.inj (leftAgain.symm.trans rightAgain)

end Compiler

end Scriptlet
