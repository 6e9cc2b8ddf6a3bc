import Scriptlet.Proofs.Compilation.Run

/-!
# Computations that end

A computation ends at some contexts if it answers at each of them, with a good value
and a context of the same kind.  Sequences end where their parts do, and replacing
the uses of a pattern ends where each replacement does.
-/

namespace Scriptlet.Compilation

variable {α β : Type}

/-- The computation answers a good value at every context of a kind, and stays among
these contexts. -/
def Ends (kind : Context → Prop) (good : α → Prop) (compilation : Compilation α) : Prop :=
  ∀ context, kind context →
    ∃ value after, compilation.run context = some (value, after) ∧ kind after ∧ good value

namespace Ends

variable {kind : Context → Prop}

theorem ofPure {good : α → Prop} {value : α} (isGood : good value) :
    Ends kind good (pure value : Compilation α) := by
  intro context isKind
  exact ⟨value, context, rfl, isKind, isGood⟩

theorem ofModify {change : Context → Context}
    (keeps : ∀ context, kind context → kind (change context)) :
    Ends kind (fun _ => True) (modify change : Compilation PUnit) := by
  intro context isKind
  exact ⟨⟨⟩, change context, rfl, keeps context isKind, trivial⟩

theorem bind {first : Compilation α} {next : α → Compilation β}
    {middle : α → Prop} {good : β → Prop} (firstEnds : Ends kind middle first)
    (nextEnds : ∀ value, middle value → Ends kind good (next value)) :
    Ends kind good (first >>= next) := by
  intro context isKind
  obtain ⟨value, between, firstRan, betweenKind, isMiddle⟩ := firstEnds context isKind
  obtain ⟨result, after, nextRan, afterKind, isGood⟩ :=
    nextEnds value isMiddle between betweenKind
  have ran := Compilation.run_bind_eq_some.mpr ⟨value, between, firstRan, nextRan⟩
  exact ⟨result, after, ran, afterKind, isGood⟩

theorem weaken {compilation : Compilation α} {good weaker : α → Prop}
    (ends : Ends kind good compilation) (weakerThan : ∀ value, good value → weaker value) :
    Ends kind weaker compilation := by
  intro context isKind
  obtain ⟨value, after, ran, afterKind, isGood⟩ := ends context isKind
  exact ⟨value, after, ran, afterKind, weakerThan value isGood⟩

/-- Replacements that relate to what they replace make a text that relates to the
whole one. -/
theorem replaceM {first : Char} (relates : Text → Text → Prop) (pattern : Pattern first α)
    {replacement : α → Compilation Text}
    (kept : ∀ text, relates text text)
    (appended : ∀ left right leftReplaced rightReplaced, relates left leftReplaced →
      relates right rightReplaced → relates (left ++ right) (leftReplaced ++ rightReplaced))
    {text : Text}
    (each : ∀ tail found, tail <:+ text → pattern.run? tail = some found →
      Ends kind (relates found.written) (replacement found.captured)) :
    Ends kind (relates text) (pattern.replaceM replacement text) := by
  induction text using pattern.search_induction with
  | nil =>
      rw [pattern.replaceM_nil]
      exact ofPure (kept [])
  | found text found recognised induction =>
      have whole := pattern.whole recognised
      have restSuffix : found.rest <:+ text := ⟨found.written, whole.symm⟩
      have rest := induction fun other otherFound suffix =>
        each other otherFound (suffix.trans restSuffix)
      rw [pattern.replaceM_of_found replacement recognised]
      apply bind (each _ found List.suffix_rfl recognised)
      intro replaced replacedRelates
      apply bind rest
      intro restReplaced restRelates
      apply ofPure
      rw [whole]
      exact appended _ _ _ _ replacedRelates restRelates
  | absent head tail unrecognised induction =>
      have rest := induction fun other otherFound suffix =>
        each other otherFound (suffix.trans (List.suffix_cons head tail))
      rw [pattern.replaceM_of_absent replacement unrecognised, ← bind_pure_comp]
      apply bind rest
      intro restReplaced restRelates
      exact ofPure (appended [head] tail [head] restReplaced (kept [head]) restRelates)

theorem foldlM {step : α → β → Compilation α} {good : α → Prop} {items : List β}
    (each : ∀ item ∈ items, ∀ value, good value → Ends kind good (step value item))
    {value : α} (isGood : good value) : Ends kind good (items.foldlM step value) := by
  induction items generalizing value with
  | nil => exact ofPure isGood
  | cons item items induction =>
      rw [List.foldlM_cons]
      apply bind (each item List.mem_cons_self value isGood)
      intro next nextGood
      exact induction (fun other member => each other (List.mem_cons_of_mem item member)) nextGood

end Ends

end Scriptlet.Compilation
