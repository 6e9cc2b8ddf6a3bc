import Scriptlet.Proofs.Compilation.Congruence

/-!
# Compilations that simulate one another

A compilation simulates another one if from related contexts it gives the same answer
and leaves related contexts.  All that the passes do to a context is to store sections, to
look them up, and to compile nested views; so a relation that the first two respect
carries over from nested views to whole compiles.
-/

namespace Scriptlet

namespace Compilation

variable {α β : Type} {relation : Context → Context → Prop}

/-- The second computation simulates the first one. -/
def Simulates (relation : Context → Context → Prop) (first second : Compilation α) : Prop :=
  ∀ (before other after : Context) (result : α), relation before other →
    first.run before = some (result, after) →
    ∃ final, second.run other = some (result, final) ∧ relation after final

/-- Related contexts hold the same sections, and go on to do so. -/
structure SharesSections (relation : Context → Context → Prop) : Prop where
  sections_eq : ∀ {first second}, relation first second → second.sections = first.sections
  store : ∀ {first second} (key content : Text), relation first second →
    relation (first.store key content) (second.store key content)

namespace Simulates

theorem ofPure (value : α) :
    Simulates relation (pure value : Compilation α) (pure value) := by
  intro before other after result related ran
  cases ran
  exact ⟨other, rfl, related⟩

theorem ofModify {change : Context → Context}
    (changes : ∀ {first second}, relation first second →
      relation (change first) (change second)) :
    Simulates relation (modify change : Compilation PUnit) (modify change) := by
  intro before other after result related ran
  cases ran
  exact ⟨change other, rfl, changes related⟩

theorem bind {first second : Compilation α} {firstNext secondNext : α → Compilation β}
    (simulates : Simulates relation first second)
    (nextSimulates : ∀ value, Simulates relation (firstNext value) (secondNext value)) :
    Simulates relation (first >>= firstNext) (second >>= secondNext) := by
  intro before other after result related ran
  obtain ⟨value, middle, firstRan, nextRan⟩ := run_bind_eq_some.mp ran
  obtain ⟨otherMiddle, secondRan, middleRelated⟩ :=
    simulates _ _ _ _ related firstRan
  obtain ⟨final, finalRan, finalRelated⟩ :=
    nextSimulates value _ _ _ _ middleRelated nextRan
  exact ⟨final, run_bind_eq_some.mpr ⟨value, otherMiddle, secondRan, finalRan⟩, finalRelated⟩

theorem compositional : Compositional (Simulates relation) where
  ofPure := ofPure
  bind := bind

end Simulates

end Compilation

namespace Compiler

open Compilation

variable {first second : Compiler} {relation : Context → Context → Prop}

/-- A pass is simulated where the compiles that it starts are. -/
theorem apply_simulates (sameRegistry : second.registry = first.registry)
    (shares : SharesSections relation)
    {firstCompile secondCompile : Text → Compilation Text}
    (compiled : ∀ source, Simulates relation (firstCompile source) (secondCompile source))
    (nested : ∀ name, Simulates relation (first.compileNested firstCompile name)
      (second.compileNested secondCompile name))
    (pass : Pass) (text : Text) :
    Simulates relation (first.apply firstCompile pass text)
      (second.apply secondCompile pass text) := by
  apply apply_related Simulates.compositional sameRegistry
  · exact fun key content => .ofModify fun related => shares.store key content related
  · intro text before other after result related ran
    cases ran
    refine ⟨other, ?_, related⟩
    have resolved : resolveYield other = resolveYield before := by
      funext use
      rw [resolveYield, resolveYield, shares.sections_eq related]
    exact congrArg (fun resolve => some (yielding.replace resolve text, other)) resolved
  · exact compiled
  · exact nested

/-- A compile is simulated where its passes are. -/
theorem compile_simulates {bound larger : Nat}
    (applied : ∀ pass text, Simulates relation
      (first.apply (first.compile bound) pass text)
      (second.apply (second.compile larger) pass text)) (source : Text) :
    Simulates relation (first.compile (bound + 1) source)
      (second.compile (larger + 1) source) :=
  compile_related Simulates.compositional applied source

end Compiler

end Scriptlet
