import Scriptlet.Proofs.Text.Trim
import Scriptlet.Proofs.Text.Words
import Scriptlet.Text.Quoted

/-!
# Occurrences of a passage

How often a passage stands in a text.  Putting texts together loses no occurrence, and brings
in none if the passage cannot go across the seam.  Trimming and quoting keep the occurrences
of a word.
-/

namespace Scriptlet.Text

/-- How often a passage stands in a text. -/
def occurrences (passage : Text) : Text → Nat
  | [] => 0
  | head :: tail =>
      (if passage.isPrefixOf (head :: tail) then 1 else 0) + occurrences passage tail

variable {passage left right text inner : Text}

theorem occurrences_cons_of_begins {head : Char} {tail : Text}
    (begins : passage <+: head :: tail) :
    occurrences passage (head :: tail) = 1 + occurrences passage tail := by
  rw [occurrences, if_pos (List.isPrefixOf_iff_prefix.mpr begins)]

theorem occurrences_cons_of_elsewhere {head : Char} {tail : Text}
    (elsewhere : ¬ passage <+: head :: tail) :
    occurrences passage (head :: tail) = occurrences passage tail := by
  rw [occurrences, if_neg (List.isPrefixOf_iff_prefix.not.mpr elsewhere), Nat.zero_add]

theorem occurrences_tail_le (passage : Text) (head : Char) (tail : Text) :
    occurrences passage tail ≤ occurrences passage (head :: tail) :=
  Nat.le_add_left _ _

theorem occurrences_append_le (passage left right : Text) :
    occurrences passage left + occurrences passage right ≤
      occurrences passage (left ++ right) := by
  induction left with
  | nil => simp [occurrences]
  | cons head left induction =>
      rw [List.cons_append]
      by_cases begins : passage <+: head :: left
      · have still : passage <+: head :: (left ++ right) :=
          begins.trans (List.prefix_append (head :: left) right)
        rw [occurrences_cons_of_begins begins, occurrences_cons_of_begins still]
        omega
      · rw [occurrences_cons_of_elsewhere begins]
        exact induction.trans (occurrences_tail_le passage head _)

theorem occurrences_le_of_isInfix (inside : inner <:+: text) :
    occurrences passage inner ≤ occurrences passage text := by
  obtain ⟨front, back, rfl⟩ := inside
  have outer := occurrences_append_le passage (front ++ inner) back
  have inFront := occurrences_append_le passage front inner
  omega

/-- A passage stands in a text where it is counted. -/
theorem occurrences_pos_iff {first : Char} {others : Text} :
    0 < occurrences (first :: others) text ↔ first :: others <:+: text := by
  constructor
  · intro counted
    induction text with
    | nil => cases counted
    | cons head tail induction =>
        by_cases begins : first :: others <+: head :: tail
        · exact begins.isInfix
        · rw [occurrences_cons_of_elsewhere begins] at counted
          exact List.infix_cons (induction counted)
  · intro inside
    have once : occurrences (first :: others) (first :: others) =
        1 + occurrences (first :: others) others := occurrences_cons_of_begins List.prefix_rfl
    have within : occurrences (first :: others) (first :: others) ≤
        occurrences (first :: others) text := occurrences_le_of_isInfix inside
    omega

/-- A passage that cannot go across the seam stands in one of the two texts. -/
theorem occurrences_append
    (apart : ∀ before into, passage = before ++ into → before ≠ [] → into ≠ [] →
      before <:+ left → ¬ into <+: right) :
    occurrences passage (left ++ right) =
      occurrences passage left + occurrences passage right := by
  induction left with
  | nil => simp [occurrences]
  | cons head left induction =>
      have further := induction fun before into whole nonempty filled suffix =>
        apart before into whole nonempty filled (suffix.trans (List.suffix_cons head left))
      rw [List.cons_append]
      by_cases begins : passage <+: head :: left
      · have still : passage <+: head :: (left ++ right) :=
          begins.trans (List.prefix_append (head :: left) right)
        rw [occurrences_cons_of_begins begins, occurrences_cons_of_begins still, further,
          Nat.add_assoc]
      · have nowhere : ¬ passage <+: head :: (left ++ right) := by
          rintro ⟨rest, whole⟩
          rw [← List.cons_append] at whole
          rcases List.append_eq_append_iff.mp whole with
            ⟨further, inLeft, -⟩ | ⟨into, passageEq, intoEq⟩
          · exact begins ⟨further, inLeft.symm⟩
          · cases into with
            | nil => exact begins (by simp [passageEq])
            | cons next into =>
                exact apart _ _ passageEq (List.cons_ne_nil _ _) (List.cons_ne_nil _ _)
                  List.suffix_rfl ⟨rest, intoEq.symm⟩
        rw [occurrences_cons_of_elsewhere begins, occurrences_cons_of_elsewhere nowhere, further]

/-- The last character of the first text keeps a passage without it from going across. -/
theorem occurrences_append_of_last {last : Char} (ends : left.getLast? = some last)
    (unused : last ∉ passage) :
    occurrences passage (left ++ right) =
      occurrences passage left + occurrences passage right := by
  apply occurrences_append
  intro before into whole nonempty filled suffix begins
  obtain ⟨front, frontEq⟩ := suffix
  have same : before.getLast? = some last := by
    rw [← frontEq, List.getLast?_append] at ends
    cases inBefore : before.getLast? with
    | none => exact absurd (List.getLast?_eq_none_iff.mp inBefore) nonempty
    | some character => rwa [inBefore, Option.some_or] at ends
  exact unused (whole ▸ List.mem_append_left into (List.mem_of_getLast? same))

/-- A passage does not stand in a text without its first character. -/
theorem occurrences_eq_zero {first : Char} {others : Text} (absent : first ∉ text) :
    occurrences (first :: others) text = 0 := by
  induction text with
  | nil => rfl
  | cons head tail induction =>
      rw [List.mem_cons, not_or] at absent
      have elsewhere : ¬ first :: others <+: head :: tail :=
        fun begins => absent.1 (List.cons_prefix_cons.mp begins).1
      rw [occurrences_cons_of_elsewhere elsewhere, induction absent.2]

variable (text) in
/-- Characters that the passage does not have hold no part of it. -/
theorem occurrences_between {first : Char} {others : Text}
    (leftUnused : first ∉ left) (rightUnused : ∀ character ∈ right, character ∉ first :: others) :
    occurrences (first :: others) (left ++ (text ++ right)) =
      occurrences (first :: others) text := by
  have front : occurrences (first :: others) (left ++ (text ++ right)) =
      occurrences (first :: others) left + occurrences (first :: others) (text ++ right) := by
    apply occurrences_append
    intro before into whole nonempty _ suffix _
    cases before with
    | nil => exact nonempty rfl
    | cons head before =>
        obtain ⟨rfl, -⟩ := List.cons.inj whole
        exact leftUnused (suffix.subset List.mem_cons_self)
  have back : occurrences (first :: others) (text ++ right) =
      occurrences (first :: others) text + occurrences (first :: others) right := by
    apply occurrences_append
    intro before into whole _ filled _ begins
    cases into with
    | nil => exact filled rfl
    | cons head into =>
        have inRight : head ∈ right := begins.subset List.mem_cons_self
        exact rightUnused head inRight (whole ▸ List.mem_append_right before List.mem_cons_self)
  have rightAbsent : first ∉ right := fun member => rightUnused first member List.mem_cons_self
  rw [front, back, occurrences_eq_zero leftUnused, occurrences_eq_zero rightAbsent, Nat.zero_add,
    Nat.add_zero]

/-- Trimming keeps the occurrences of a passage without unwanted characters. -/
theorem occurrences_trimBy {unwanted : Char → Bool} {first : Char} {others : Text}
    (wanted : ∀ character ∈ first :: others, unwanted character = false) (text : Text) :
    occurrences (first :: others) (trimBy unwanted text) =
      occurrences (first :: others) text := by
  obtain ⟨front, back, whole, frontUnwanted, backUnwanted⟩ := trimBy_parts unwanted text
  have frontUnused : first ∉ front := by
    intro member
    have kept := wanted first List.mem_cons_self
    rw [frontUnwanted first member] at kept
    cases kept
  have backUnused : ∀ character ∈ back, character ∉ first :: others := by
    intro character member listed
    have kept := wanted character listed
    rw [backUnwanted character member] at kept
    cases kept
  have kept := occurrences_between (trimBy unwanted text) frontUnused backUnused
  rw [← whole] at kept
  exact kept.symm

theorem escape_of_isLetter {character : Char} (letter : isLetter character = true) :
    escape character = [character] := by
  have range := letter_range letter
  have other : ∀ special, isLetter special = false → character ≠ special := by
    rintro special plain rfl
    rw [letter] at plain
    cases plain
  unfold escape
  rw [if_neg (other _ rfl), if_neg (other _ rfl), if_neg (other _ rfl), if_neg (other _ rfl),
    if_neg (other _ rfl), if_neg (other _ rfl), if_neg (other _ rfl), if_neg (by omega)]

/-- Quoting keeps the occurrences of a passage that is not escaped. -/
theorem occurrences_quote_le {first : Char} {others : Text}
    (plain : ∀ character ∈ first :: others, escape character = [character]) (text : Text) :
    occurrences (first :: others) text ≤ occurrences (first :: others) (quote text) := by
  have unescaped : ∀ part : Text, (∀ character ∈ part, escape character = [character]) →
      part.flatMap escape = part := by
    intro part plainPart
    rw [List.flatMap_congr plainPart, List.flatMap_singleton']
  have escaped : occurrences (first :: others) text ≤
      occurrences (first :: others) (text.flatMap escape) := by
    induction text with
    | nil => exact Nat.le_refl _
    | cons head tail induction =>
        rw [List.flatMap_cons]
        by_cases begins : first :: others <+: head :: tail
        · rw [List.cons_prefix_cons] at begins
          obtain ⟨rfl, rest, rfl⟩ := begins
          have still : first :: others <+: first :: ((others ++ rest).flatMap escape) := by
            rw [List.flatMap_append,
              unescaped others fun _ member => plain _ (List.mem_cons_of_mem first member)]
            exact List.prefix_append (first :: others) _
          have here : first :: others <+: first :: (others ++ rest) :=
            List.prefix_append (first :: others) rest
          rw [plain first List.mem_cons_self, List.singleton_append,
            occurrences_cons_of_begins still, occurrences_cons_of_begins here]
          omega
        · have appended := occurrences_append_le (first :: others) (escape head)
            (tail.flatMap escape)
          rw [occurrences_cons_of_elsewhere begins]
          omega
  exact escaped.trans (occurrences_le_of_isInfix ⟨['"'], ['"'], by simp [quote, inQuotes]⟩)

end Scriptlet.Text
