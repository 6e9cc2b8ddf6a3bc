import Scriptlet.Proofs.Pattern.Marks
import Scriptlet.Proofs.Pattern.Uses
import Scriptlet.Proofs.Compilation.Run
import Scriptlet.Proofs.Text.Parting

/-!
# Replacements that part texts

A replacement that begins plainly parts the text with it from the text with the use.  So
replacing leaves a text alone, as nothing is used in it, or parts from it.
-/

namespace Scriptlet.Pattern

open Text

variable {first : Char} {α : Type} {pattern : Pattern first α} {text : Text}

theorem parted_of_firstUse? (sign : first ∈ ['@', '\x7b']) {use : Nat × Found α}
    (used : pattern.firstUse? 0 text = some use) {replaced : Text}
    (plain : beginsPlainly replaced = true) (after : Text) :
    Parted text (text.take use.1 ++ (replaced ++ after)) := by
  have begins := pattern.starts (pattern.run?_of_firstUse? used)
  obtain ⟨written, writtenEq⟩ := List.head?_eq_some_iff.mp begins
  refine ⟨text.take use.1, first, written ++ use.2.rest, replaced ++ after, sign,
    beginsPlainly_append plain after, ?_, rfl⟩
  rw [← List.cons_append, ← writtenEq]
  exact pattern.firstUse?_whole used

/-- Replacing parts from a text as soon as one use is replaced plainly and the others are
kept or replaced plainly too. -/
theorem parted_replace (sign : first ∈ ['@', '\x7b']) {replacement : α → Text}
    (each : ∀ use ∈ pattern.uses text, replacement use.captured = use.written ∨
      beginsPlainly (replacement use.captured) = true)
    (changed : ∃ use ∈ pattern.uses text, beginsPlainly (replacement use.captured) = true) :
    Parted text (pattern.replace replacement text) := by
  fun_induction uses pattern text with
  | case1 text unused => simp at changed
  | case2 text use used shorter induction =>
      rw [List.forall_mem_cons] at each
      simp only [List.mem_cons, exists_eq_or_imp] at changed
      rw [pattern.replace_of_firstUse?_some replacement used]
      by_cases plain : beginsPlainly (replacement use.2.captured) = true
      · exact parted_of_firstUse? sign used plain _
      · have kept := each.1.resolve_right plain
        have later := induction each.2 (changed.resolve_left plain)
        have whole := (later.append_left use.2.written).append_left (text.take use.1)
        rw [← pattern.firstUse?_whole used] at whole
        rwa [kept]

/-- Replacing every use plainly parts from a text with a use. -/
theorem unused_or_parted_replace (pattern : Pattern first α) (sign : first ∈ ['@', '\x7b'])
    (replacement : α → Text)
    (plain : ∀ tail found, pattern.run? tail = some found →
      beginsPlainly (replacement found.captured) = true) (text : Text) :
    pattern.uses text = [] ∨ Parted text (pattern.replace replacement text) := by
  cases used : pattern.firstUse? 0 text with
  | none => exact .inl (uses_of_firstUse?_none used)
  | some use =>
      right
      rw [pattern.replace_of_firstUse?_some replacement used]
      exact parted_of_firstUse? sign used (plain _ _ (pattern.run?_of_firstUse? used)) _

theorem unused_or_parted_replaceEach (sign : first ∈ ['@', '\x7b'])
    {patterns : List (Pattern first Text)}
    (plain : ∀ pattern ∈ patterns, ∀ tail found, pattern.run? tail = some found →
      beginsPlainly found.captured = true) (text : Text) :
    (∀ pattern ∈ patterns, pattern.uses text = []) ∨
      Parted text (replaceEach patterns text) := by
  induction patterns generalizing text with
  | nil => exact .inl nofun
  | cons pattern patterns induction =>
      rw [List.forall_mem_cons] at plain
      have further := induction plain.2 (pattern.replace id text)
      have next : replaceEach (pattern :: patterns) text =
          replaceEach patterns (pattern.replace id text) := by
        simp only [replaceEach_eq_foldl, List.foldl_cons]
      rw [next, List.forall_mem_cons]
      rcases pattern.unused_or_parted_replace sign id plain.1 text with unused | parted
      · rw [pattern.replace_of_firstUse?_none id (uses_eq_nil_iff.mp unused)] at further ⊢
        exact further.imp_left fun others => ⟨unused, others⟩
      · rcases further with others | again
        · rw [replaceEach_of_unused others]
          exact .inr parted
        · exact .inr (parted.trans again)

/-- The same for patterns that are given by items. -/
theorem unused_or_parted_replaceEach_map (sign : first ∈ ['@', '\x7b']) {ι : Type}
    {rule : ι → Pattern first Text} {items : List ι}
    (plain : ∀ item ∈ items, ∀ tail found, (rule item).run? tail = some found →
      beginsPlainly found.captured = true) (text : Text) :
    (∀ item ∈ items, (rule item).uses text = []) ∨
      Parted text (replaceEach (items.map rule) text) := by
  have parts := unused_or_parted_replaceEach sign (List.forall_mem_map.mpr plain) text
  exact parts.imp_left List.forall_mem_map.mp

/-- The same with effects, where the replacing ends. -/
theorem unused_or_parted_replaceM (sign : first ∈ ['@', '\x7b'])
    {replacement : α → Compilation Text} {before after : Context} {result : Text}
    (plain : ∀ captured before replaced after,
      (replacement captured).run before = some (replaced, after) →
        beginsPlainly replaced = true)
    (ran : (pattern.replaceM replacement text).run before = some (result, after)) :
    pattern.uses text = [] ∨ Parted text result := by
  cases used : pattern.firstUse? 0 text with
  | none => exact .inl (uses_of_firstUse?_none used)
  | some use =>
      right
      rw [pattern.replaceM_of_firstUse?_some replacement used] at ran
      obtain ⟨replaced, middle, replacedRan, ran⟩ := Compilation.run_bind_eq_some.mp ran
      obtain ⟨rest, final, -, ran⟩ := Compilation.run_bind_eq_some.mp ran
      obtain ⟨rfl, -⟩ := Compilation.run_pure_eq_some.mp ran
      exact parted_of_firstUse? sign used (plain _ _ _ _ replacedRan) rest

end Scriptlet.Pattern

namespace Scriptlet.Text.Parted

/-- Dropping comments does not bring a parted text back to one in which no comment begins. -/
theorem dropComments {original text : Text} (parted : Parted original text)
    (uncommented : ¬ "\x7b\x7b--".toList <:+: original) :
    Parted original (Directive.dropComments text) := by
  rw [Directive.dropComments]
  cases used : Directive.comment.firstUse? 0 text with
  | none => rwa [Directive.comment.replace_of_firstUse?_none _ used]
  | some use =>
      have written := Pattern.written_of_between (Directive.comment.run?_of_firstUse? used)
      have whole := Directive.comment.firstUse?_whole used
      rw [written, List.append_assoc] at whole
      rw [Directive.comment.replace_of_firstUse?_some _ used]
      exact parted.before_mark (by decide) uncommented whole _

end Scriptlet.Text.Parted
