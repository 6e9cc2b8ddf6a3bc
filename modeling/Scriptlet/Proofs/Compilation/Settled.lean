import Scriptlet.Proofs.Compilation.Bound
import Scriptlet.Proofs.Compilation.Idle

/-!
# Settled texts

A text is settled in a context if there is nothing in it for any pass to replace.  Compiling
such a text only trims it, and leaves the context as it is.
-/

namespace Scriptlet.Compiler

open Directive

variable {compiler : Compiler} {compile : Text → Compilation Text} {context : Context}
  {text : Text} {pass : Pass}

/-- A pass has nothing to replace in a text.  A place for a section that the context does not
hold stays as it is written, so it does not count. -/
def Rests (compiler : Compiler) (context : Context) (text : Text) : Pass → Prop
  | .extensions => extension.uses text = []
  | .inlineSections => inlineSection.uses text = []
  | .blockSections => blockSection.uses text = []
  | .inclusions => inclusion.uses text = []
  | .forms => formBlock.uses text = [] ∧ ∀ rule ∈ controlRules, rule.uses text = []
  | .switches => switchBlock.uses text = []
  | .yields => ∀ use ∈ yielding.uses text,
      Table.get? (Text.unquote use.captured.2) context.sections = none
  | .customDirectives => ∀ directive ∈ compiler.registry.directives,
      directive.pattern.uses text = []
  | .comments => comment.uses text = []
  | .echoes => ∀ pattern ∈ Echo.patterns .output, pattern.uses text = []
  | pass => ∀ entry ∈ pass.entries?.getD [], entry.rule.uses text = []

instance : Decidable (compiler.Rests context text pass) := by
  cases pass <;> unfold Rests <;> infer_instance

/-- No pass has anything to replace in a text. -/
def Settled (compiler : Compiler) (context : Context) (text : Text) : Prop :=
  ∀ pass ∈ Pass.all, compiler.Rests context text pass

instance : Decidable (compiler.Settled context text) :=
  inferInstanceAs (Decidable (∀ pass ∈ Pass.all, compiler.Rests context text pass))

theorem rests_iff_of_entries {entries : List Entry} (follows : pass.entries? = some entries) :
    compiler.Rests context text pass ↔ ∀ entry ∈ entries, entry.rule.uses text = [] := by
  cases pass <;> cases follows <;> rfl

theorem resolve_of_rests (rests : compiler.Rests context text .yields) :
    yielding.replace (resolveYield context) text = text := by
  apply Pattern.replace_of_kept
  intro use listed
  rw [resolveYield, rests use listed, Option.getD_none]
  exact Pattern.captured_written listed

/-- A pass that has nothing to replace leaves the text and the context alone. -/
theorem run_apply_of_rests (rests : compiler.Rests context text pass) :
    (compiler.apply compile pass text).run context = some (text, context) := by
  have idle : ∀ {α : Type} {pattern : Pattern '@' α} (replacement : α → Compilation Text),
      pattern.uses text = [] →
        (pattern.replaceM replacement text).run context = some (text, context) := by
    intro α pattern replacement unused
    rw [pattern.replaceM_of_firstUse?_none _ (Pattern.uses_eq_nil_iff.mp unused)]
    rfl
  cases follows : pass.entries? with
  | some entries =>
      rw [rests_iff_of_entries follows] at rests
      rw [apply_of_entries compiler compile follows, Pattern.replaceEach_of_unused]
      · rfl
      · exact List.forall_mem_map.mpr rests
  | none =>
      cases pass with
      | extensions => exact idle _ rests
      | inlineSections => exact idle _ rests
      | blockSections => exact idle _ rests
      | inclusions => exact idle _ rests
      | switches => exact idle _ rests
      | forms =>
          rw [apply, lowerForms_of_unused rests.1 rests.2]
          rfl
      | yields => rw [run_yields, resolve_of_rests rests]
      | customDirectives =>
          rw [apply, Registry.apply, Pattern.replaceEach_of_unused]
          · rfl
          · exact List.forall_mem_map.mpr rests
      | comments =>
          rw [apply, dropComments,
            comment.replace_of_firstUse?_none _ (Pattern.uses_eq_nil_iff.mp rests)]
          rfl
      | echoes =>
          rw [apply, Echo.interpolate, Pattern.replaceEach_of_unused rests]
          rfl
      | _ => cases follows

/-- Passes that have nothing to replace leave the text and the context alone. -/
theorem run_foldlM_of_rests {passes : List Pass}
    (rest : ∀ pass ∈ passes, compiler.Rests context text pass) :
    (passes.foldlM (fun text pass => compiler.apply compile pass text) text).run context =
      some (text, context) := by
  induction passes with
  | nil => rfl
  | cons pass passes induction =>
      rw [List.forall_mem_cons] at rest
      rw [run_foldlM_cons compiler compile (run_apply_of_rests rest.1), induction rest.2]

/-- A settled text is only trimmed. -/
theorem Settled.compiles (settled : compiler.Settled context text) :
    compiler.Compiles text context (Text.trim text) context := by
  refine ⟨1, ?_⟩
  rw [compile, StateT.run_bind, run_foldlM_of_rests settled]
  rfl

end Scriptlet.Compiler
