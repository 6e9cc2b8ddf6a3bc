import Mathlib.Tactic.SplitIfs
import Scriptlet.Text.Blank
import Scriptlet.Text.Folding

/-!
# The words of a text

A directive is recognised by the letters after its sign.  The words of a text are
the longest runs of letters after each sign, in lower case.  A directive whose name
begins none of these words does not occur in the text, whatever else is written
there.
-/

namespace Scriptlet.Text

/-- What is said of all characters of a text is checked on the text, not on all characters that
there are. -/
instance (priority := 2000) decidableForallMem (text : Text) (property : Char → Prop)
    [DecidablePred property] : Decidable (∀ character ∈ text, property character) :=
  List.decidableBAll property text

instance (priority := 2000) decidableExistsMem (text : Text) (property : Char → Prop)
    [DecidablePred property] : Decidable (∃ character ∈ text, property character) :=
  List.decidableBEx property text

/-- Whether a character folds onto a letter of a directive name. -/
def isLetter (character : Char) : Bool :=
  'a' ≤ fold character && fold character ≤ 'z'

def startsWithLetter (text : Text) : Bool :=
  text.head?.any isLetter

def words : Text → List Text
  | [] => []
  | head :: tail =>
      if head = '@' then (tail.takeWhile isLetter).map fold :: words tail else words tail

theorem letters_of_all {names : List Text} (letters : names.all (·.all isLetter) = true) :
    ∀ name ∈ names, ∀ character ∈ name, isLetter character := fun name listed =>
  List.all_eq_true.mp (List.all_eq_true.mp letters name listed)

theorem isLetter_congr {left right : Char} (same : fold left = fold right) :
    isLetter left = isLetter right := by
  simp only [isLetter, same]

theorem letter_range {character : Char} (letter : isLetter character = true) :
    character.toNat = 0x17f ∨ character.toNat = 0x212a ∨
      (65 ≤ character.toNat ∧ character.toNat ≤ 90) ∨
      (97 ≤ character.toNat ∧ character.toNat ≤ 122) := by
  unfold isLetter fold at letter
  split_ifs at letter with long kelvin
  · exact .inl (by rw [long]; rfl)
  · exact .inr (.inl (by rw [kelvin]; rfl))
  · unfold Char.toLower at letter
    simp only [Char.le_def, Bool.and_eq_true, decide_eq_true_eq, UInt32.le_iff_toNat_le] at letter
    split_ifs at letter with upper
    · exact .inr (.inr (.inl upper))
    · exact .inr (.inr (.inr letter))

theorem isBlank_of_isLetter {character : Char} (letter : isLetter character = true) :
    isBlank character = false := by
  have range := letter_range letter
  simp only [isBlank, blankRanges, List.any_cons, List.any_nil, Bool.or_false,
    Bool.or_eq_false_iff, Bool.and_eq_false_iff, decide_eq_false_iff_not]
  omega

theorem isLetter_of_map_fold_eq {written name : Text}
    (spelled : written.map fold = name.map fold)
    (letters : ∀ character ∈ name, isLetter character) :
    ∀ character ∈ written, isLetter character := by
  intro character member
  have folded : fold character ∈ name.map fold := by
    rw [← spelled]
    exact List.mem_map_of_mem member
  obtain ⟨letter, letterMember, same⟩ := List.mem_map.mp folded
  rw [← isLetter_congr same]
  exact letters letter letterMember

/-- The letters in front of a text that goes on with something else. -/
theorem takeWhile_letters {written rest : Text}
    (letters : ∀ character ∈ written, isLetter character)
    (separate : startsWithLetter rest = false) :
    (written ++ rest).takeWhile isLetter = written := by
  rw [List.takeWhile_append_of_pos letters]
  cases rest with
  | nil => simp
  | cons head tail =>
      have other : isLetter head = false := by simpa [startsWithLetter] using separate
      simp [other]

/-- A name of letters in front of a text is in front of its letters. -/
theorem prefix_takeWhile_letters {name text : Text}
    (letters : ∀ character ∈ name, isLetter character)
    (begins : name.map fold <+: text.map fold) :
    name.map fold <+: (text.takeWhile isLetter).map fold := by
  induction name generalizing text with
  | nil => exact List.nil_prefix
  | cons letter name induction =>
      cases text with
      | nil => simp at begins
      | cons head tail =>
          simp only [List.map_cons, List.cons_prefix_cons] at begins
          obtain ⟨same, rest⟩ := begins
          have headLetter : isLetter head = true := by
            rw [← isLetter_congr same]
            exact letters letter List.mem_cons_self
          rw [List.takeWhile_cons_of_pos headLetter, List.map_cons, List.map_cons,
            List.cons_prefix_cons]
          exact ⟨same, induction
            (fun character member => letters character (List.mem_cons_of_mem letter member))
            rest⟩

/-- A sign of a text in two parts stands in the second one, or in the first one, where what
is behind it goes on with the second one. -/
theorem sign_suffix_append {left right tail : Text} (suffix : '@' :: tail <:+ left ++ right) :
    '@' :: tail <:+ right ∨ ∃ inside, '@' :: inside <:+ left ∧ tail = inside ++ right := by
  obtain ⟨before, whole⟩ := suffix
  rcases List.append_eq_append_iff.mp whole with ⟨inside, leftEq, signEq⟩ | ⟨further, _, rightEq⟩
  · cases inside with
    | nil => exact .inl (signEq ▸ List.suffix_rfl)
    | cons head inside =>
        rw [List.cons_append, List.cons.injEq] at signEq
        exact .inr ⟨inside, ⟨before, by rw [leftEq, signEq.1]⟩, signEq.2⟩
  · exact .inl ⟨further, rightEq.symm⟩

theorem words_cons_sign (tail : Text) :
    words ('@' :: tail) = (tail.takeWhile isLetter).map fold :: words tail := by
  simp [words]

theorem words_cons_of_ne {head : Char} (other : head ≠ '@') (tail : Text) :
    words (head :: tail) = words tail := by
  simp [words, other]

/-- A text without signs adds no words to what follows it. -/
theorem words_append_of_unsigned {left : Text} (unsigned : '@' ∉ left) (right : Text) :
    words (left ++ right) = words right := by
  induction left with
  | nil => rfl
  | cons head tail induction =>
      rw [List.mem_cons, not_or] at unsigned
      rw [List.cons_append, words_cons_of_ne (Ne.symm unsigned.1), induction unsigned.2]

theorem words_of_unsigned {text : Text} (unsigned : '@' ∉ text) : words text = [] := by
  have appended := words_append_of_unsigned unsigned []
  rwa [List.append_nil] at appended

/-- The sign, letters, and a text that does not go on with a letter. -/
theorem words_directive {written rest : Text}
    (letters : ∀ character ∈ written, isLetter character)
    (separate : startsWithLetter rest = false) :
    words ('@' :: (written ++ rest)) = written.map fold :: words rest := by
  have unsigned : '@' ∉ written := by
    intro member
    have sign := letters '@' member
    revert sign
    decide
  rw [words_cons_sign, takeWhile_letters letters separate, words_append_of_unsigned unsigned]

/-- Every place of a text where a sign stands has its word. -/
theorem mem_words_of_suffix {tail text : Text} (suffix : ('@' :: tail) <:+ text) :
    (tail.takeWhile isLetter).map fold ∈ words text := by
  induction text with
  | nil => simp at suffix
  | cons head rest induction =>
      rcases List.suffix_cons_iff.mp suffix with here | later
      · cases here
        rw [words_cons_sign]
        exact List.mem_cons_self
      · by_cases sign : head = '@'
        · subst sign
          rw [words_cons_sign]
          exact List.mem_cons_of_mem _ (induction later)
        · rw [words_cons_of_ne sign]
          exact induction later

end Scriptlet.Text
