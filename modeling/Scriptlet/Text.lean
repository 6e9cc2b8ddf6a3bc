/-!
# Text

Views, directive arguments, compiled code and messages are all lists of Unicode
characters.  A string literal stands for its characters, and the operations
below are the ones every other module shares: cutting characters off both ends,
and finding the first place where a text goes on with something.
-/

namespace Scriptlet

abbrev Text := List Char

instance : Coe String Text := ⟨String.toList⟩

namespace Text

/-- Remove the characters of one class from both ends. -/
def trimBy (unwanted : Char → Bool) (text : Text) : Text :=
  ((text.dropWhile unwanted).reverse.dropWhile unwanted).reverse

/-- The text before the first `stop` and the text after it. -/
def cutAt? (stop : Char) (text : Text) : Option (Text × Text) :=
  match text.dropWhile (· ≠ stop) with
  | [] => none
  | _ :: after => some (text.takeWhile (· ≠ stop), after)

def inQuotes (text : Text) : Text :=
  '"' :: text ++ ['"']

theorem cutAt?_cons_self (stop : Char) (tail : Text) :
    cutAt? stop (stop :: tail) = some ([], tail) := by
  simp [cutAt?]

theorem cutAt?_cons_of_ne {stop head : Char} (other : head ≠ stop) (tail : Text) :
    cutAt? stop (head :: tail) =
      (cutAt? stop tail).map fun cut => (head :: cut.1, cut.2) := by
  simp only [cutAt?, List.dropWhile_cons, List.takeWhile_cons, ne_eq, other, not_false_eq_true,
    decide_true, if_true]
  split <;> simp_all

theorem cutAt?_eq_some {stop : Char} {text before after : Text}
    (cut : cutAt? stop text = some (before, after)) :
    text = before ++ stop :: after ∧ stop ∉ before := by
  induction text generalizing before with
  | nil => simp [cutAt?] at cut
  | cons head tail ih =>
      by_cases same : head = stop
      · subst same
        rw [cutAt?_cons_self] at cut
        simp only [Option.some.injEq, Prod.mk.injEq] at cut
        obtain ⟨rfl, rfl⟩ := cut
        simp
      · rw [cutAt?_cons_of_ne same] at cut
        simp only [Option.map_eq_some_iff] at cut
        obtain ⟨⟨tailBefore, tailAfter⟩, tailCut, pairEq⟩ := cut
        simp only [Prod.mk.injEq] at pairEq
        obtain ⟨rfl, rfl⟩ := pairEq
        obtain ⟨whole, absent⟩ := ih tailCut
        refine ⟨by simp [whole], ?_⟩
        simp only [List.mem_cons, not_or]
        exact ⟨fun equal => same equal.symm, absent⟩

/-- There is no cut exactly when the character does not occur. -/
theorem cutAt?_eq_none_iff {stop : Char} {text : Text} :
    cutAt? stop text = none ↔ stop ∉ text := by
  induction text with
  | nil => simp [cutAt?]
  | cons head tail ih =>
      by_cases same : head = stop
      · subst same
        simp [cutAt?_cons_self]
      · simp only [cutAt?_cons_of_ne same, Option.map_eq_none_iff, ih, List.mem_cons, not_or]
        exact ⟨fun absent => ⟨fun equal => same equal.symm, absent⟩, fun both => both.2⟩

end Text

end Scriptlet
