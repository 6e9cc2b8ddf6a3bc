import Scriptlet.Proofs.Pattern.Recognition
import Scriptlet.Proofs.Text.Trim

/-!
# Texts with visible ends

Trimming stops at a text that neither begins nor ends with a blank.  Directives are such
texts, so a row of single characters and directives is trimmed item by item.
-/

namespace Scriptlet

/-- A text that neither begins nor ends with a blank. -/
structure Tight (text : Text) : Prop where
  first : ∃ character, [character] <+: text ∧ Text.isBlank character = false
  last : ∃ character, [character] <:+ text ∧ Text.isBlank character = false

namespace Tight

theorem between {left right : Text}
    (first : ∃ character, [character] <+: left ∧ Text.isBlank character = false)
    (last : ∃ character, [character] <:+ right ∧ Text.isBlank character = false)
    (middle : Text) : Tight (left ++ middle ++ right) where
  first := by
    obtain ⟨character, begins, visible⟩ := first
    rw [List.append_assoc]
    exact ⟨character, begins.trans (List.prefix_append left _), visible⟩
  last := by
    obtain ⟨character, ends, visible⟩ := last
    exact ⟨character, ends.trans (List.suffix_append _ right), visible⟩

theorem ofCalled (name argument : Text) : Tight (Text.called name argument) where
  first := ⟨'@', ⟨_, rfl⟩, by decide⟩
  last := by
    have parts : Text.called name argument = ('@' :: (name ++ '(' :: argument)) ++ [')'] := by
      simp [Text.called]
    exact ⟨')', parts ▸ List.suffix_append _ _, by decide⟩

theorem ofBare {written : Text} (letters : ∀ character ∈ written, Text.isLetter character) :
    Tight ('@' :: written) where
  first := ⟨'@', ⟨_, rfl⟩, by decide⟩
  last := by
    refine ⟨('@' :: written).getLast (List.cons_ne_nil _ _),
      ⟨_, List.dropLast_append_getLast (List.cons_ne_nil _ _)⟩, ?_⟩
    rcases List.mem_cons.mp (List.getLast_mem (List.cons_ne_nil '@' written)) with sign | letter
    · rw [sign]
      decide
    · exact Text.isBlank_of_isLetter (letters _ letter)

/-- Trimming keeps a passage that neither begins nor ends with a blank. -/
theorem isInfix_trim {passage text : Text} (tight : Tight passage) (inside : passage <:+: text) :
    passage <:+: Text.trim text := by
  have front := Text.isInfix_dropWhile tight.first inside
  obtain ⟨character, ends, visible⟩ := tight.last
  have lastFirst : ∃ character, [character] <+: passage.reverse ∧ Text.isBlank character = false :=
    ⟨character, List.reverse_prefix.mpr ends, visible⟩
  have back := Text.isInfix_dropWhile lastFirst (List.reverse_infix.mpr front)
  rwa [← List.reverse_infix, List.reverse_reverse] at back

theorem trim_eq {text : Text} (tight : Tight text) : Text.trim text = text := by
  have kept := tight.isInfix_trim List.infix_rfl
  exact (Text.trim_isInfix text).eq_of_length_le kept.length_le

theorem append {left right : Text} (leftTight : Tight left) (rightTight : Tight right) :
    Tight (left ++ right) := by
  have whole := between leftTight.first rightTight.last []
  rwa [List.append_nil] at whole

end Tight

/-- A text that trimming leaves as it is. -/
def Trimmed (text : Text) : Prop :=
  Text.trim text = text

namespace Trimmed

theorem nil : Trimmed [] :=
  rfl

/-- A text without blanks at its ends has visible ends, if it has any. -/
theorem tight {text : Text} (trimmed : Trimmed text) (nonempty : text ≠ []) : Tight text := by
  have front : text.dropWhile Text.isBlank = text := by
    have within := (Text.trimBy_isPrefix Text.isBlank text).length_le
    rw [← Text.trim, trimmed] at within
    exact (List.dropWhile_suffix Text.isBlank).eq_of_length_le within
  have back : text.reverse.dropWhile Text.isBlank = text.reverse := by
    rw [Trimmed, Text.trim, Text.trimBy, front] at trimmed
    exact List.reverse_eq_iff.mp trimmed
  constructor
  · obtain ⟨character, others, rfl⟩ := List.exists_cons_of_ne_nil nonempty
    have visible := List.head?_dropWhile_not Text.isBlank (character :: others)
    rw [front] at visible
    exact ⟨character, ⟨others, rfl⟩, by simpa using visible⟩
  · obtain ⟨character, others, reversed⟩ :=
      List.exists_cons_of_ne_nil (mt List.reverse_eq_nil_iff.mp nonempty)
    have visible := List.head?_dropWhile_not Text.isBlank text.reverse
    rw [back, reversed] at visible
    refine ⟨character, ⟨others.reverse, ?_⟩, by simpa using visible⟩
    rw [← List.reverse_cons, ← reversed, List.reverse_reverse]

theorem append {left right : Text} (leftTrimmed : Trimmed left) (rightTrimmed : Trimmed right) :
    Trimmed (left ++ right) := by
  by_cases leftEmpty : left = []
  · rwa [leftEmpty, List.nil_append]
  by_cases rightEmpty : right = []
  · rwa [rightEmpty, List.append_nil]
  have tight := (leftTrimmed.tight leftEmpty).append (rightTrimmed.tight rightEmpty)
  exact tight.trim_eq

theorem flatten {parts : List Text} (each : ∀ part ∈ parts, Trimmed part) :
    Trimmed parts.flatten := by
  induction parts with
  | nil => exact nil
  | cons part parts induction =>
      rw [List.forall_mem_cons] at each
      rw [List.flatten_cons]
      exact each.1.append (induction each.2)

end Trimmed

theorem WrittenTightly.ofTight {α : Type} {blank : α → Bool} {written : α → Text} {item : α}
    (visible : blank item = false) (tight : Tight (written item)) :
    WrittenTightly blank written item where
  ofBlank := fun isBlank => by rw [visible] at isBlank; cases isBlank
  head := fun _ => by
    obtain ⟨character, ⟨others, whole⟩, characterVisible⟩ := tight.first
    exact ⟨character, by rw [← whole]; rfl, characterVisible⟩
  last := fun _ => by
    obtain ⟨character, ⟨others, whole⟩, characterVisible⟩ := tight.last
    exact ⟨character, by rw [← whole, List.getLast?_concat], characterVisible⟩

theorem WrittenTightly.ofCharacter {α : Type} {blank : α → Bool} {written : α → Text} {item : α}
    {character : Char} (single : written item = [character])
    (blankEq : blank item = Text.isBlank character) : WrittenTightly blank written item where
  ofBlank := fun isBlank => ⟨character, single, blankEq ▸ isBlank⟩
  head := fun visible => ⟨character, by rw [single]; rfl, blankEq ▸ visible⟩
  last := fun visible => ⟨character, by rw [single]; rfl, blankEq ▸ visible⟩

end Scriptlet
