import Scriptlet.Compiler
import Scriptlet.Proofs.Pattern.Uses

/-!
# Runs of compilations

A run of a sequence of compilations splits into the runs of its parts.  So a
relation between the context before a run and the context after it, which
composes, holds of a whole compile as soon as it holds of the few steps that
touch the context.
-/

namespace Scriptlet

namespace Compilation

variable {α β : Type}

theorem run_bind_eq_some
    {first : Compilation α} {next : α → Compilation β}
    {before after : Context} {result : β} :
    (first >>= next).run before = some (result, after) ↔
      ∃ value middle, first.run before = some (value, middle) ∧
        (next value).run middle = some (result, after) := by
  rw [StateT.run_bind]
  simp only [Option.bind_eq_bind, Option.bind_eq_some_iff, Prod.exists]

theorem run_pure_eq_some
    {value result : α} {before after : Context} :
    (pure value : Compilation α).run before = some (result, after) ↔
      value = result ∧ before = after := by
  rw [StateT.run_pure]
  simp

theorem run_modify_eq_some
    {change : Context → Context} {before after : Context} {result : PUnit} :
    (modify change : Compilation PUnit).run before = some (result, after) ↔
      change before = after := by
  constructor
  · intro ran
    cases ran
    rfl
  · intro changed
    subst changed
    rfl

/-- What holds of a value in its context and is kept by each step holds in the end. -/
theorem run_foldlM_invariant {invariant : α → Context → Prop} {step : α → β → Compilation α}
    {items : List β}
    (kept : ∀ item ∈ items, ∀ value before result after, invariant value before →
      (step value item).run before = some (result, after) → invariant result after)
    {value result : α} {before after : Context} (holds : invariant value before)
    (ran : (items.foldlM step value).run before = some (result, after)) :
    invariant result after := by
  induction items generalizing value before with
  | nil =>
      obtain ⟨rfl, rfl⟩ := run_pure_eq_some.mp ran
      exact holds
  | cons item items induction =>
      rw [List.forall_mem_cons] at kept
      rw [List.foldlM_cons] at ran
      obtain ⟨next, middle, stepRan, restRan⟩ := run_bind_eq_some.mp ran
      exact induction kept.2 (kept.1 value before next middle holds stepRan) restRan

/-- Every run that ends relates the context before it to the one after it. -/
def Respects (relation : Context → Context → Prop) (compilation : Compilation α) : Prop :=
  ∀ (before after : Context) (result : α),
    compilation.run before = some (result, after) → relation before after

namespace Respects

variable {relation : Context → Context → Prop}

theorem ofPure (reflexive : ∀ context, relation context context) (value : α) :
    Respects relation (pure value : Compilation α) := by
  intro before after result ran
  obtain ⟨_, same⟩ := run_pure_eq_some.mp ran
  exact same ▸ reflexive before

theorem ofModify {change : Context → Context}
    (changes : ∀ context, relation context (change context)) :
    Respects relation (modify change : Compilation PUnit) := by
  intro before after result ran
  exact run_modify_eq_some.mp ran ▸ changes before

theorem bind
    (transitive : ∀ first second third,
      relation first second → relation second third → relation first third)
    {first : Compilation α} {next : α → Compilation β}
    (firstRespects : Respects relation first)
    (nextRespects : ∀ value, Respects relation (next value)) :
    Respects relation (first >>= next) := by
  intro before after result ran
  obtain ⟨value, middle, firstRan, nextRan⟩ := run_bind_eq_some.mp ran
  exact transitive before middle after (firstRespects _ _ _ firstRan)
    (nextRespects value _ _ _ nextRan)

end Respects

end Compilation

end Scriptlet
