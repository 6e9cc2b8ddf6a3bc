import Scriptlet.Pattern.Replace

/-!
# Uses

The uses of a pattern are what a replacement takes the places of, from left to right.  A
replacement that writes every use as it is written already changes nothing.
-/

namespace Scriptlet.Pattern

variable {first : Char} {α : Type} {pattern : Pattern first α} {text : Text}

/-- What is found of a pattern in a text, where the search goes on after each find. -/
def uses (pattern : Pattern first α) (text : Text) : List (Found α) :=
  match searched : pattern.firstUse? 0 text with
  | none => []
  | some use =>
      have := pattern.firstUse?_rest_shorter searched
      use.2 :: pattern.uses use.2.rest
termination_by text.length
decreasing_by assumption

theorem uses_of_firstUse?_none (unused : pattern.firstUse? 0 text = none) :
    pattern.uses text = [] := by
  rw [uses]
  split
  · rfl
  · rename_i use used
    rw [unused] at used
    cases used

theorem uses_of_firstUse?_some {use : Nat × Found α}
    (used : pattern.firstUse? 0 text = some use) :
    pattern.uses text = use.2 :: pattern.uses use.2.rest := by
  rw [uses]
  split
  · rename_i unused
    rw [used] at unused
    cases unused
  · rename_i other otherUsed
    rw [used] at otherUsed
    cases otherUsed
    rfl

theorem uses_eq_nil_iff : pattern.uses text = [] ↔ pattern.firstUse? 0 text = none := by
  cases used : pattern.firstUse? 0 text with
  | none => simp [uses_of_firstUse?_none used]
  | some use => simp [uses_of_firstUse?_some used]

/-- A property of the finds of a pattern holds of its uses. -/
theorem forall_uses {property : Found α → Prop}
    (each : ∀ tail found, pattern.run? tail = some found → property found) (text : Text) :
    ∀ use ∈ pattern.uses text, property use := by
  fun_induction uses pattern text with
  | case1 text unused => simp
  | case2 text use used shorter induction =>
      rw [List.forall_mem_cons]
      exact ⟨each _ _ (pattern.run?_of_firstUse? used), induction⟩

/-- Where a pattern keeps how it is written, each of its uses captures that. -/
theorem captured_written {use : Found (Text × α)}
    (listed : use ∈ pattern.keepingWritten.uses text) : use.captured.1 = use.written := by
  revert use
  apply forall_uses
  intro tail found recognised
  simp only [keepingWritten, Option.map_eq_some_iff] at recognised
  obtain ⟨inner, -, rfl⟩ := recognised
  rfl

theorem replace_of_kept {replacement : α → Text}
    (kept : ∀ use ∈ pattern.uses text, replacement use.captured = use.written) :
    pattern.replace replacement text = text := by
  fun_induction uses pattern text with
  | case1 text unused => exact pattern.replace_of_firstUse?_none replacement unused
  | case2 text use used shorter induction =>
      rw [List.forall_mem_cons] at kept
      rw [pattern.replace_of_firstUse?_some replacement used, kept.1, induction kept.2]
      exact (pattern.firstUse?_whole used).symm

/-- Replacements that agree on all uses give the same text. -/
theorem replace_congr {replacement other : α → Text}
    (same : ∀ use ∈ pattern.uses text, replacement use.captured = other use.captured) :
    pattern.replace replacement text = pattern.replace other text := by
  fun_induction uses pattern text with
  | case1 text unused =>
      rw [pattern.replace_of_firstUse?_none replacement unused,
        pattern.replace_of_firstUse?_none other unused]
  | case2 text use used shorter induction =>
      rw [List.forall_mem_cons] at same
      rw [pattern.replace_of_firstUse?_some replacement used,
        pattern.replace_of_firstUse?_some other used, same.1, induction same.2]

theorem replaceEach_of_unused {patterns : List (Pattern first Text)}
    (unused : ∀ pattern ∈ patterns, pattern.uses text = []) :
    replaceEach patterns text = text := by
  rw [replaceEach_eq_foldl]
  induction patterns with
  | nil => rfl
  | cons pattern patterns induction =>
      rw [List.forall_mem_cons] at unused
      rw [List.foldl_cons,
        pattern.replace_of_firstUse?_none id (uses_eq_nil_iff.mp unused.1)]
      exact induction unused.2

end Scriptlet.Pattern
