import Scriptlet.Proofs.Composition.Store
import Scriptlet.Proofs.Composition.Written

/-!
# Uses in rows of items

Each of the patterns for sections, places and layouts is found where an item of its
kind is written, whatever follows the item, and nowhere else in a row of items.
-/

namespace Scriptlet.Composition

open Pattern

theorem extension_absent (item : Item) (rest : Text) :
    Compiler.extension.Absent item.print rest := by
  have named : Named "extends" Compiler.extension := (Called.withSomeArgument _).named
  cases item with
  | plain character =>
      exact Absent.of_notMem (notMem_plainText (by decide) [character])
  | place key =>
      exact named.absent_called (by decide) (quoted_unsigned key)
        (by decide) rest
  | inlineSection key value =>
      exact named.absent_called (by decide) (argument_unsigned key.isKey value.isValue)
        (by decide) rest
  | blockSection key body =>
      apply Absent.append
      · exact named.absent_called (by decide) (quoted_unsigned key)
          (by decide) _
      · exact absent_ending named body (by decide) rest

/-- The pattern of inline sections finds these and passes over all other items. -/
theorem inlineSection_finds (item : Item) (rest : Text) :
    (∃ captured, (∀ context, (Compiler.storeInline captured).run context =
        some (item.withoutInline, store? item.inlineDefinition? context)) ∧
      Compiler.inlineSection.run? (item.print ++ rest) =
        some ⟨item.print, captured, rest⟩) ∨
    ((item.withoutInline = item.print ∧
        ∀ context, store? item.inlineDefinition? context = context) ∧
      Compiler.inlineSection.Absent item.print rest) := by
  have named : Named "section" Compiler.inlineSection := (Called.withKeyAndValue _).named
  cases item with
  | plain character =>
      refine .inr ⟨⟨rfl, fun _ => rfl⟩, ?_⟩
      exact Absent.of_notMem (notMem_plainText (by decide) [character])
  | place key =>
      refine .inr ⟨⟨rfl, fun _ => rfl⟩, ?_⟩
      exact named.absent_called (by decide) (quoted_unsigned key)
        (by decide) rest
  | inlineSection key value =>
      exact .inl ⟨_, run_storeInline key.isKey value.isValue,
        inlineSection_run? key.isKey value.isValue rest⟩
  | blockSection key body =>
      exact .inr ⟨⟨rfl, fun _ => rfl⟩, inlineSection_absent_block key.isKey body rest⟩

/-- Where bodies compile to their trimmed text, the pattern of block sections finds
these in what the inline sections have left. -/
theorem blockSection_finds {compile : Text → Compilation Text}
    (compiled : ∀ body context, (compile (plainText body)).run context =
      some (Text.trim (plainText body), context)) (item : Item) (rest : Text) :
    (∃ captured, (∀ context, (Compiler.storeBlock compile captured).run context =
        some (item.withoutSections, store? item.blockDefinition? context)) ∧
      Compiler.blockSection.run? (item.withoutInline ++ rest) =
        some ⟨item.withoutInline, captured, rest⟩) ∨
    ((item.withoutSections = item.withoutInline ∧
        ∀ context, store? item.blockDefinition? context = context) ∧
      Compiler.blockSection.Absent item.withoutInline rest) := by
  have named : Named "section" Compiler.blockSection :=
    ((Called.withSomeArgument _).blockOf _).named
  cases item with
  | plain character =>
      refine .inr ⟨⟨rfl, fun _ => rfl⟩, ?_⟩
      exact Absent.of_notMem (notMem_plainText (by decide) [character])
  | place key =>
      refine .inr ⟨⟨rfl, fun _ => rfl⟩, ?_⟩
      exact named.absent_called (by decide) (quoted_unsigned key)
        (by decide) rest
  | inlineSection key value =>
      exact .inr ⟨⟨rfl, fun _ => rfl⟩, Absent.nil⟩
  | blockSection key body =>
      exact .inl ⟨_, run_storeBlock compiled key.isKey body,
        blockSection_run? key.isKey body rest⟩

/-- The pattern of places finds these in what the sections have left. -/
theorem yielding_finds (context : Context) (item : Item) (rest : Text) :
    (∃ captured, Compiler.resolveYield context captured = item.filled context.sections ∧
      Compiler.yielding.run? (item.withoutSections ++ rest) =
        some ⟨item.withoutSections, captured, rest⟩) ∨
    (item.filled context.sections = item.withoutSections ∧
      Compiler.yielding.Absent item.withoutSections rest) := by
  cases item with
  | plain character =>
      exact .inr ⟨rfl, Absent.of_notMem (notMem_plainText (by decide) [character])⟩
  | place key =>
      have closed : ')' ∉ quoted key.text :=
        notMem_quoted (by decide) fun member => key.plain _ member (by decide)
      have found : (withArgument "yield").run?
          (Text.called "yield" (quoted key.text) ++ rest) =
            some ⟨Text.called "yield" (quoted key.text), quoted key.text, rest⟩ :=
        withArgument_run? rfl closed rest
      refine .inl ⟨(Text.called "yield" (quoted key.text), quoted key.text), ?_, ?_⟩
      · rw [Compiler.resolveYield, unquote_quoted, key.unquoted]
        rfl
      · exact keepingWritten_run? found
  | inlineSection key value => exact .inr ⟨rfl, Absent.nil⟩
  | blockSection key body => exact .inr ⟨rfl, Absent.nil⟩

end Scriptlet.Composition
