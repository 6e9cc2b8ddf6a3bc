import Mathlib.Tactic.Choose
import Scriptlet.Compiler.Context
import Scriptlet.Proofs.Compilation.Run
import Scriptlet.Proofs.Pattern.Absence

/-!
# Texts put together from items

Where a pattern is found in a text, item by item, the uses of the pattern are known:
it is found exactly as some items are written and is absent from the others.  Then
replacing its uses replaces these items.
-/

namespace Scriptlet.Pattern

variable {first : Char} {α ι : Type} {pattern : Pattern first α} {written replaced : ι → Text}

/-- The items that the pattern is found as, before the items that follow them, are
replaced. -/
theorem replace_flatMap {replacement : α → Text} {items : List ι}
    (each : ∀ item others, (item :: others) <:+ items →
      (∃ captured, replacement captured = replaced item ∧
        pattern.run? (written item ++ others.flatMap written) =
          some ⟨written item, captured, others.flatMap written⟩) ∨
      (replaced item = written item ∧
        pattern.Absent (written item) (others.flatMap written))) :
    pattern.replace replacement (items.flatMap written) = items.flatMap replaced := by
  induction items with
  | nil => exact pattern.replace_nil replacement
  | cons item others induction =>
      have further := induction fun later rest suffix =>
        each later rest (suffix.trans (List.suffix_cons item others))
      rw [List.flatMap_cons, List.flatMap_cons]
      rcases each item others List.suffix_rfl with ⟨captured, lowered, found⟩ | ⟨kept, absent⟩
      · rw [pattern.replace_of_found replacement found, lowered, further]
      · rw [replace_append replacement absent, kept, further]

/-- The same where the replacements change the context, each by the change of its
item. -/
theorem replaceM_flatMap {replacement : α → Compilation Text}
    {change : ι → Context → Context} {items : List ι}
    (each : ∀ item others, (item :: others) <:+ items →
      (∃ captured, (∀ context, (replacement captured).run context =
          some (replaced item, change item context)) ∧
        pattern.run? (written item ++ others.flatMap written) =
          some ⟨written item, captured, others.flatMap written⟩) ∨
      ((replaced item = written item ∧ ∀ context, change item context = context) ∧
        pattern.Absent (written item) (others.flatMap written)))
    (context : Context) :
    (pattern.replaceM replacement (items.flatMap written)).run context =
      some (items.flatMap replaced,
        items.foldl (fun changed item => change item changed) context) := by
  induction items generalizing context with
  | nil =>
      rw [List.flatMap_nil, pattern.replaceM_nil]
      rfl
  | cons item others induction =>
      have further := induction fun later rest suffix =>
        each later rest (suffix.trans (List.suffix_cons item others))
      rw [List.flatMap_cons, List.flatMap_cons, List.foldl_cons]
      rcases each item others List.suffix_rfl with
        ⟨captured, effect, found⟩ | ⟨⟨kept, unchanged⟩, absent⟩
      · rw [pattern.replaceM_of_found replacement found]
        simp [effect, further]
      · rw [replaceM_append replacement absent]
        simp [unchanged, further, kept]

/-- Several patterns change a passage, one after another, whatever follows it.  Each of them is
found as the whole passage, and replaced by what it captures, or absent from it. -/
def Rewrites : List (Pattern first Text) → (written replaced : Text) → Prop
  | [], written, replaced => replaced = written
  | pattern :: patterns, written, replaced => ∃ middle,
      ((∀ rest, pattern.run? (written ++ rest) = some ⟨written, middle, rest⟩) ∨
        (middle = written ∧ ∀ rest, pattern.Absent written rest)) ∧
      Rewrites patterns middle replaced

theorem Rewrites.of_absent {patterns : List (Pattern first Text)} {passage : Text}
    (absent : ∀ pattern ∈ patterns, ∀ rest, pattern.Absent passage rest) :
    Rewrites patterns passage passage := by
  induction patterns with
  | nil => rfl
  | cons pattern patterns induction =>
      rw [List.forall_mem_cons] at absent
      exact ⟨passage, .inr ⟨rfl, absent.1⟩, induction absent.2⟩

/-- Patterns that change each item on its own change a text put together from the items. -/
theorem replaceEach_flatMap {patterns : List (Pattern first Text)} {items : List ι}
    (each : ∀ item, Rewrites patterns (written item) (replaced item)) :
    replaceEach patterns (items.flatMap written) = items.flatMap replaced := by
  rw [replaceEach_eq_foldl]
  induction patterns generalizing written with
  | nil =>
      rw [funext each]
      rfl
  | cons pattern patterns induction =>
      choose middle first later using each
      have changed : pattern.replace id (items.flatMap written) = items.flatMap middle := by
        apply replace_flatMap
        intro item others _
        exact (first item).imp (fun found => ⟨_, rfl, found _⟩) fun kept => ⟨kept.1, kept.2 _⟩
      rw [List.foldl_cons, changed, induction later]

end Scriptlet.Pattern
