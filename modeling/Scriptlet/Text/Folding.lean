import Scriptlet.Text

/-!
# Letter case

Directive names are recognised in any letter case, by simple Unicode case
folding.  Names are made of ASCII letters and digits, and exactly two characters
outside ASCII fold onto an ASCII letter: the long s (U+017F) onto `s` and the
Kelvin sign (U+212A) onto `k`.
-/

namespace Scriptlet.Text

/-- The ASCII letter that a character folds onto, in lower case; every other
character stands for itself. -/
def fold (character : Char) : Char :=
  if character = '\u017f' then 's'
  else if character = '\u212a' then 'k'
  else character.toLower

/-- The beginning of a text that spells `word` in any letter case, and the text
after it. -/
def cutWord? : (word text : Text) → Option (Text × Text)
  | [], text => some ([], text)
  | _ :: _, [] => none
  | letter :: word, head :: tail =>
      if fold head = fold letter then
        (cutWord? word tail).map fun cut => (head :: cut.1, cut.2)
      else none

theorem cutWord?_eq_some {word text written rest : Text}
    (cut : cutWord? word text = some (written, rest)) :
    text = written ++ rest ∧ written.map fold = word.map fold := by
  induction word generalizing text written with
  | nil =>
      simp only [cutWord?, Option.some.injEq, Prod.mk.injEq] at cut
      obtain ⟨rfl, rfl⟩ := cut
      simp
  | cons letter word ih =>
      cases text with
      | nil => simp [cutWord?] at cut
      | cons head tail =>
          simp only [cutWord?] at cut
          split at cut
          · rename_i same
            simp only [Option.map_eq_some_iff] at cut
            obtain ⟨⟨tailWritten, tailRest⟩, tailCut, pairEq⟩ := cut
            simp only [Prod.mk.injEq] at pairEq
            obtain ⟨rfl, rfl⟩ := pairEq
            obtain ⟨whole, folded⟩ := ih tailCut
            simp [whole, folded, same]
          · simp at cut

/-- A word is found in front of a text exactly when the text begins with a
spelling of it. -/
theorem cutWord?_append {word written rest : Text}
    (spelled : written.map fold = word.map fold) :
    cutWord? word (written ++ rest) = some (written, rest) := by
  induction word generalizing written with
  | nil =>
      have empty : written = [] := by simpa using spelled
      simp [cutWord?, empty]
  | cons letter word ih =>
      cases written with
      | nil => simp at spelled
      | cons head tail =>
          simp only [List.map_cons, List.cons.injEq] at spelled
          simp [cutWord?, spelled.1, ih spelled.2]

end Scriptlet.Text
