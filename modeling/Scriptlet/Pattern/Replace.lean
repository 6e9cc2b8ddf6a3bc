import Scriptlet.Pattern.Search

/-!
# Replacing

Every use of a pattern is replaced from left to right, and the search goes on
after it.  Character by character this means: where the pattern is found, its
replacement stands in the place of what is written, and any other character is
kept.  Replacing each use by how it is written changes nothing.  The uses of several
patterns are replaced one pattern after another.
-/

namespace Scriptlet.Pattern

variable {first : Char} {α : Type}

def replace (pattern : Pattern first α) (replacement : α → Text) (text : Text) : Text :=
  match searched : pattern.firstUse? 0 text with
  | none => text
  | some use =>
      have := pattern.firstUse?_rest_shorter searched
      text.take use.1 ++
        (replacement use.2.captured ++ pattern.replace replacement use.2.rest)
termination_by text.length
decreasing_by assumption

/-- Replace every use of a pattern, from left to right, where the replacements
may have effects. -/
def replaceM {m : Type → Type} [Monad m] (pattern : Pattern first α)
    (replacement : α → m Text) (text : Text) : m Text :=
  match searched : pattern.firstUse? 0 text with
  | none => pure text
  | some use =>
      have := pattern.firstUse?_rest_shorter searched
      do
        let replaced ← replacement use.2.captured
        let rest ← pattern.replaceM replacement use.2.rest
        return text.take use.1 ++ (replaced ++ rest)
termination_by text.length
decreasing_by assumption

theorem replace_of_firstUse?_none (pattern : Pattern first α) (replacement : α → Text)
    {text : Text} (unused : pattern.firstUse? 0 text = none) :
    pattern.replace replacement text = text := by
  rw [replace]
  split
  · rfl
  · rename_i use used
    rw [unused] at used
    cases used

theorem replace_of_firstUse?_some (pattern : Pattern first α) (replacement : α → Text)
    {text : Text} {use : Nat × Found α} (used : pattern.firstUse? 0 text = some use) :
    pattern.replace replacement text =
      text.take use.1 ++
        (replacement use.2.captured ++ pattern.replace replacement use.2.rest) := by
  rw [replace]
  split
  · rename_i unused
    rw [used] at unused
    cases unused
  · rename_i other otherUsed
    rw [used] at otherUsed
    cases otherUsed
    rfl

@[simp] theorem replace_nil (pattern : Pattern first α) (replacement : α → Text) :
    pattern.replace replacement [] = [] :=
  pattern.replace_of_firstUse?_none replacement rfl

/-- Where the pattern is found, its replacement stands. -/
theorem replace_of_found (pattern : Pattern first α) (replacement : α → Text) {text : Text}
    {found : Found α} (recognised : pattern.run? text = some found) :
    pattern.replace replacement text =
      replacement found.captured ++ pattern.replace replacement found.rest := by
  rw [pattern.replace_of_firstUse?_some replacement (pattern.firstUse?_of_found recognised 0)]
  rfl

/-- Where the pattern is not found, a character is kept. -/
theorem replace_of_absent (pattern : Pattern first α) (replacement : α → Text) {head : Char}
    {tail : Text} (absent : pattern.run? (head :: tail) = none) :
    pattern.replace replacement (head :: tail) =
      head :: pattern.replace replacement tail := by
  have moved := pattern.firstUse?_of_absent absent 0
  rw [pattern.firstUse?_succ] at moved
  cases used : pattern.firstUse? 0 tail with
  | none =>
      rw [used] at moved
      rw [pattern.replace_of_firstUse?_none replacement moved,
        pattern.replace_of_firstUse?_none replacement used]
  | some use =>
      rw [used] at moved
      rw [pattern.replace_of_firstUse?_some replacement moved,
        pattern.replace_of_firstUse?_some replacement used, List.take_succ_cons, List.cons_append]

/-- Replace every use of each of several patterns by what it captures, one pattern
after another.  A text that uses none of them is looked through once. -/
def replaceEach (patterns : List (Pattern first Text)) (text : Text) : Text :=
  if ((oneOf patterns).firstUse? 0 text).isNone then text
  else patterns.foldl (fun replaced pattern => pattern.replace id replaced) text

/-- Replacing the uses of several patterns is replacing those of the first one and
then those of the others. -/
theorem replaceEach_eq_foldl (patterns : List (Pattern first Text)) (text : Text) :
    replaceEach patterns text =
      patterns.foldl (fun replaced pattern => pattern.replace id replaced) text := by
  rw [replaceEach]
  split
  · rename_i unused
    rw [Option.isNone_iff_eq_none] at unused
    have kept : ∀ pattern ∈ patterns, pattern.replace id text = text := fun pattern listed =>
      pattern.replace_of_firstUse?_none id (firstUse?_of_oneOf listed unused)
    clear unused
    induction patterns with
    | nil => rfl
    | cons pattern others ih =>
        rw [List.foldl_cons, kept pattern List.mem_cons_self]
        exact ih fun other listed => kept other (List.mem_cons_of_mem pattern listed)
  · rfl

/-- A text is gone through by what is found of a pattern and, where nothing is found, by
single characters. -/
@[elab_as_elim]
theorem search_induction (pattern : Pattern first α) {motive : Text → Prop}
    (nil : motive [])
    (found : ∀ text found, pattern.run? text = some found → motive found.rest → motive text)
    (absent : ∀ head tail, pattern.run? (head :: tail) = none → motive tail →
      motive (head :: tail))
    (text : Text) : motive text := by
  generalize measured : text.length = size
  induction size using Nat.strongRecOn generalizing text with
  | ind size induction =>
      subst measured
      cases text with
      | nil => exact nil
      | cons head tail =>
          cases recognised : pattern.run? (head :: tail) with
          | some use =>
              exact found _ use recognised
                (induction _ (pattern.rest_shorter recognised) use.rest rfl)
          | none =>
              exact absent head tail recognised
                (induction _ (Nat.lt_succ_self tail.length) tail rfl)

/-- Replacing each use by how it is written changes nothing. -/
theorem replace_written (pattern : Pattern first α) (text : Text) :
    pattern.keepingWritten.replace Prod.fst text = text := by
  induction text using pattern.search_induction with
  | nil => simp
  | found text found recognised induction =>
      have kept : pattern.keepingWritten.run? text =
          some ⟨found.written, (found.written, found.captured), found.rest⟩ := by
        simp [keepingWritten, recognised]
      rw [pattern.keepingWritten.replace_of_found Prod.fst kept, induction]
      exact (pattern.whole recognised).symm
  | absent head tail unrecognised induction =>
      have absent : pattern.keepingWritten.run? (head :: tail) = none := by
        simp [keepingWritten, unrecognised]
      rw [pattern.keepingWritten.replace_of_absent Prod.fst absent, induction]

section Effects

variable {m : Type → Type} [Monad m]

theorem replaceM_of_firstUse?_none (pattern : Pattern first α) (replacement : α → m Text)
    {text : Text} (unused : pattern.firstUse? 0 text = none) :
    pattern.replaceM replacement text = pure text := by
  rw [replaceM]
  split
  · rfl
  · rename_i use used
    rw [unused] at used
    cases used

theorem replaceM_of_firstUse?_some (pattern : Pattern first α) (replacement : α → m Text)
    {text : Text} {use : Nat × Found α} (used : pattern.firstUse? 0 text = some use) :
    pattern.replaceM replacement text = (do
      let replaced ← replacement use.2.captured
      let rest ← pattern.replaceM replacement use.2.rest
      return text.take use.1 ++ (replaced ++ rest)) := by
  rw [replaceM]
  split
  · rename_i unused
    rw [used] at unused
    cases unused
  · rename_i other otherUsed
    rw [used] at otherUsed
    cases otherUsed
    rfl

@[simp] theorem replaceM_nil (pattern : Pattern first α) (replacement : α → m Text) :
    pattern.replaceM replacement [] = pure [] :=
  pattern.replaceM_of_firstUse?_none replacement rfl

theorem replaceM_of_found (pattern : Pattern first α) (replacement : α → m Text) {text : Text}
    {found : Found α} (recognised : pattern.run? text = some found) :
    pattern.replaceM replacement text = (do
      let replaced ← replacement found.captured
      let rest ← pattern.replaceM replacement found.rest
      return replaced ++ rest) := by
  rw [pattern.replaceM_of_firstUse?_some replacement (pattern.firstUse?_of_found recognised 0)]
  rfl

theorem replaceM_of_absent [LawfulMonad m] (pattern : Pattern first α)
    (replacement : α → m Text) {head : Char} {tail : Text}
    (absent : pattern.run? (head :: tail) = none) :
    pattern.replaceM replacement (head :: tail) =
      (head :: ·) <$> pattern.replaceM replacement tail := by
  have moved := pattern.firstUse?_of_absent absent 0
  rw [pattern.firstUse?_succ] at moved
  cases used : pattern.firstUse? 0 tail with
  | none =>
      rw [used] at moved
      rw [pattern.replaceM_of_firstUse?_none replacement moved,
        pattern.replaceM_of_firstUse?_none replacement used, map_pure]
  | some use =>
      rw [used] at moved
      rw [pattern.replaceM_of_firstUse?_some replacement moved,
        pattern.replaceM_of_firstUse?_some replacement used]
      simp

end Effects

end Scriptlet.Pattern
