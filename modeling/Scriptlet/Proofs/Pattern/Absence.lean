import Scriptlet.Pattern.Replace

/-!
# Passages without a use

A pattern is absent from a passage, before some further text, if it is found at no
place of the passage.  Searching and replacing then go over the passage and leave
it as it is, so a text can be taken apart into passages.
-/

namespace Scriptlet.Pattern

variable {first : Char} {α : Type}

/-- No place of the passage, read on into the rest, begins a find. -/
def Absent (pattern : Pattern first α) (passage rest : Text) : Prop :=
  ∀ tail, tail <:+ passage → tail ≠ [] → pattern.run? (tail ++ rest) = none

theorem run?_eq_none_of_ne (pattern : Pattern first α) {head : Char} (other : head ≠ first)
    (tail : Text) : pattern.run? (head :: tail) = none := by
  cases recognised : pattern.run? (head :: tail) with
  | none => rfl
  | some found =>
      have begins := pattern.head?_of_run? recognised
      simp [other] at begins

namespace Absent

variable {pattern : Pattern first α} {rest : Text}

theorem nil : pattern.Absent [] rest := by
  intro tail suffix nonempty
  exact absurd (List.suffix_nil.mp suffix) nonempty

theorem cons {head : Char} {passage : Text}
    (here : pattern.run? (head :: (passage ++ rest)) = none)
    (further : pattern.Absent passage rest) : pattern.Absent (head :: passage) rest := by
  intro tail suffix nonempty
  rcases List.suffix_cons_iff.mp suffix with whole | later
  · rw [whole]
    exact here
  · exact further tail later nonempty

theorem head {character : Char} {passage : Text}
    (absent : pattern.Absent (character :: passage) rest) :
    pattern.run? (character :: (passage ++ rest)) = none :=
  absent (character :: passage) List.suffix_rfl (List.cons_ne_nil character passage)

theorem tail {character : Char} {passage : Text}
    (absent : pattern.Absent (character :: passage) rest) : pattern.Absent passage rest :=
  fun tail suffix => absent tail (suffix.trans (List.suffix_cons character passage))

/-- A pattern is absent from a passage without the character that it begins with. -/
theorem of_notMem {passage : Text} (unmarked : first ∉ passage) :
    pattern.Absent passage rest := by
  induction passage with
  | nil => exact nil
  | cons head passage induction =>
      rw [List.mem_cons, not_or] at unmarked
      exact cons (pattern.run?_eq_none_of_ne (Ne.symm unmarked.1) _) (induction unmarked.2)

theorem map {β : Type} {passage : Text} (absent : pattern.Absent passage rest)
    (change : α → β) : (pattern.map change).Absent passage rest := by
  intro tail suffix nonempty
  have none := absent tail suffix nonempty
  simp only [Pattern.map, Scan.map, none, Option.map_none]

theorem append {left right : Text} (leftAbsent : pattern.Absent left (right ++ rest))
    (rightAbsent : pattern.Absent right rest) : pattern.Absent (left ++ right) rest := by
  induction left with
  | nil => exact rightAbsent
  | cons head left induction =>
      rw [List.cons_append]
      apply cons
      · rw [List.append_assoc]
        exact leftAbsent.head
      · exact induction leftAbsent.tail

end Absent

theorem firstUse?_append {pattern : Pattern first α} {passage rest : Text}
    (absent : pattern.Absent passage rest) (passed : Nat) :
    pattern.firstUse? passed (passage ++ rest) =
      pattern.firstUse? (passed + passage.length) rest := by
  induction passage generalizing passed with
  | nil => rfl
  | cons head passage induction =>
      rw [List.cons_append, pattern.firstUse?_of_absent absent.head, induction absent.tail,
        List.length_cons, Nat.add_right_comm, Nat.add_assoc]

theorem firstUse?_of_absent_passage {pattern : Pattern first α} {text : Text}
    (absent : pattern.Absent text []) : pattern.firstUse? 0 text = none := by
  have searched := firstUse?_append absent 0
  rwa [List.append_nil, firstUse?_nil] at searched

theorem absent_of_firstUse?_none {pattern : Pattern first α} {text : Text}
    (unused : pattern.firstUse? 0 text = none) : pattern.Absent text [] := by
  induction text with
  | nil => exact Absent.nil
  | cons head tail induction =>
      cases recognised : pattern.run? (head :: tail) with
      | some found => cases (pattern.firstUse?_of_found recognised 0).symm.trans unused
      | none =>
          rw [pattern.firstUse?_of_absent recognised, pattern.firstUse?_succ,
            Option.map_eq_none_iff] at unused
          exact Absent.cons (by rwa [List.append_nil]) (induction unused)

theorem replace_append {pattern : Pattern first α} (replacement : α → Text)
    {passage rest : Text} (absent : pattern.Absent passage rest) :
    pattern.replace replacement (passage ++ rest) =
      passage ++ pattern.replace replacement rest := by
  induction passage with
  | nil => rfl
  | cons head passage induction =>
      rw [List.cons_append, pattern.replace_of_absent replacement absent.head,
        induction absent.tail, List.cons_append]

/-- Replacing with effects keeps a passage without a use. -/
theorem replaceM_append {m : Type → Type} [Monad m] [LawfulMonad m]
    {pattern : Pattern first α} (replacement : α → m Text)
    {passage rest : Text} (absent : pattern.Absent passage rest) :
    pattern.replaceM replacement (passage ++ rest) =
      (passage ++ ·) <$> pattern.replaceM replacement rest := by
  induction passage with
  | nil => simp
  | cons head passage induction =>
      rw [List.cons_append, pattern.replaceM_of_absent replacement absent.head,
        induction absent.tail]
      simp only [Functor.map_map, List.cons_append]

theorem replaceEach_append {patterns : List (Pattern first Text)} {passage : Text}
    (absent : ∀ pattern ∈ patterns, ∀ rest, pattern.Absent passage rest) (rest : Text) :
    replaceEach patterns (passage ++ rest) = passage ++ replaceEach patterns rest := by
  simp only [replaceEach_eq_foldl]
  induction patterns generalizing rest with
  | nil => rfl
  | cons pattern patterns induction =>
      rw [List.forall_mem_cons] at absent
      rw [List.foldl_cons, List.foldl_cons, replace_append id (absent.1 rest), induction absent.2]

end Scriptlet.Pattern
