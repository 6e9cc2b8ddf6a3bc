import Mathlib.Data.List.Forall2
import Scriptlet.Proofs.Compilation.Growth
import Scriptlet.Proofs.Compilation.Simulation

/-!
# Levels of nesting

One level further down, and with a limit that is one level higher, a compile does the
same.  Only the warnings about views that are nested too deeply name the other limit.
-/

namespace Scriptlet

/-- The same problem where the limit is one level higher. -/
inductive Diagnostic.Raised (limit : Nat) : Diagnostic → Diagnostic → Prop
  | nestedTooDeep (view : Text) :
      Raised limit (.nestedTooDeep view limit) (.nestedTooDeep view (limit + 1))
  | other {diagnostic : Diagnostic} :
      diagnostic.code? ≠ some nestedTooDeepCode → Raised limit diagnostic diagnostic

theorem Diagnostic.nestedUnusable_raised (limit : Nat) (view : Text) (failure : Failure) :
    Diagnostic.Raised limit (.nestedUnusable view failure) (.nestedUnusable view failure) := by
  apply Diagnostic.Raised.other
  cases failure with
  | viewNotFound => exact (by decide : some nestedNotFoundCode ≠ some nestedTooDeepCode)
  | _ => exact (by decide : some nestedUnreadableCode ≠ some nestedTooDeepCode)

/-- The same context one level further down.  The first diagnostics were there before the
levels parted. -/
structure Context.Deeper (limit : Nat) (shared : List Diagnostic) (upper lower : Context) :
    Prop where
  sections_eq : lower.sections = upper.sections
  depth_eq : lower.depth = upper.depth + 1
  diagnostics : ∃ recorded raised, upper.diagnostics = shared ++ recorded ∧
    lower.diagnostics = shared ++ raised ∧
    List.Forall₂ (Diagnostic.Raised limit) recorded raised

namespace Context.Deeper

variable {limit : Nat} {shared : List Diagnostic} {upper lower : Context}

theorem enter_self (limit : Nat) (context : Context) :
    Deeper limit context.diagnostics context context.enter where
  sections_eq := rfl
  depth_eq := rfl
  diagnostics := ⟨[], [], (List.append_nil _).symm, (List.append_nil _).symm, .nil⟩

theorem enter (deeper : Deeper limit shared upper lower) :
    Deeper limit shared upper.enter lower.enter where
  sections_eq := deeper.sections_eq
  depth_eq := congrArg (· + 1) deeper.depth_eq
  diagnostics := deeper.diagnostics

theorem leave (deeper : Deeper limit shared upper lower) (below : 0 < upper.depth) :
    Deeper limit shared upper.leave lower.leave where
  sections_eq := deeper.sections_eq
  depth_eq := by
    have depth_eq := deeper.depth_eq
    simp only [Context.leave]
    omega
  diagnostics := deeper.diagnostics

theorem record {first second : Diagnostic} (deeper : Deeper limit shared upper lower)
    (raised : Diagnostic.Raised limit first second) :
    Deeper limit shared (upper.record first) (lower.record second) where
  sections_eq := deeper.sections_eq
  depth_eq := deeper.depth_eq
  diagnostics := by
    obtain ⟨recorded, raisedOnes, upperEq, lowerEq, related⟩ := deeper.diagnostics
    refine ⟨recorded ++ [first], raisedOnes ++ [second], ?_, ?_, ?_⟩
    · simp only [Context.record, upperEq, List.append_assoc]
    · simp only [Context.record, lowerEq, List.append_assoc]
    · exact List.rel_append related (.cons raised .nil)

theorem sharesSections (limit : Nat) (shared : List Diagnostic) :
    Compilation.SharesSections (Deeper limit shared) where
  sections_eq deeper := deeper.sections_eq
  store key content deeper :=
    ⟨congrArg (Table.insert key content) deeper.sections_eq, deeper.depth_eq, deeper.diagnostics⟩

end Context.Deeper

namespace Compiler

open Compilation

/-- The same compiler with a limit that is one level higher. -/
def raised (compiler : Compiler) : Compiler :=
  { compiler with depthLimit := compiler.depthLimit + 1 }

variable {compiler : Compiler} {shared : List Diagnostic}

theorem compileNested_simulates_deeper {upperCompile lowerCompile : Text → Compilation Text}
    (compiled : ∀ source, Simulates (Context.Deeper compiler.depthLimit shared)
      (upperCompile source) (lowerCompile source))
    (grows : ∀ source, Respects Context.Grows (upperCompile source)) (name : Text) :
    Simulates (Context.Deeper compiler.depthLimit shared)
      (compiler.compileNested upperCompile name)
      (compiler.raised.compileNested lowerCompile name) := by
  intro upper lower after result deeper ran
  have depth_eq := deeper.depth_eq
  by_cases reached : compiler.depthLimit ≤ upper.depth
  · have lowerReached : compiler.raised.depthLimit ≤ lower.depth :=
      depth_eq ▸ Nat.succ_le_succ reached
    rw [compileNested_run_of_limit reached] at ran
    cases ran
    exact ⟨_, compileNested_run_of_limit lowerReached, deeper.record (.nestedTooDeep name)⟩
  · have below : upper.depth < compiler.depthLimit := Nat.lt_of_not_le reached
    have lowerBelow : lower.depth < compiler.raised.depthLimit :=
      depth_eq ▸ Nat.succ_lt_succ below
    cases loaded : compiler.loader.load name with
    | error failure =>
        rw [compileNested_run_of_error below loaded] at ran
        cases ran
        exact ⟨_, compileNested_run_of_error lowerBelow loaded,
          deeper.record (Diagnostic.nestedUnusable_raised _ name failure)⟩
    | ok source =>
        rw [compileNested_run_of_ok below loaded, Option.map_eq_some_iff] at ran
        obtain ⟨⟨_, inner⟩, innerRan, pairEq⟩ := ran
        cases pairEq
        obtain ⟨final, finalRan, finalDeeper⟩ := compiled source _ _ _ _ deeper.enter innerRan
        refine ⟨final.leave, ?_, finalDeeper.leave ?_⟩
        · rw [compileNested_run_of_ok lowerBelow loaded, finalRan]
          rfl
        · rw [(grows source _ _ _ innerRan).depth_eq]
          exact Nat.succ_pos upper.depth

/-- A level further down, a compile does the same within a limit that is one level
higher. -/
theorem compile_simulates_deeper (compiler : Compiler) (shared : List Diagnostic) (bound : Nat)
    (source : Text) :
    Simulates (Context.Deeper compiler.depthLimit shared) (compiler.compile bound source)
      (compiler.raised.compile bound source) := by
  induction bound generalizing source with
  | zero =>
      intro upper lower after result _ ran
      cases ran
  | succ bound induction =>
      have sameRegistry : compiler.raised.registry = compiler.registry := rfl
      apply compile_simulates
      apply apply_simulates sameRegistry (Context.Deeper.sharesSections _ shared) induction
      exact compileNested_simulates_deeper induction (compile_grows compiler bound)

end Compiler

end Scriptlet
