import Scriptlet.Proofs.Directive.Signs
import Scriptlet.Proofs.Template.Tree
import Scriptlet.Proofs.Text.Quiet
import Scriptlet.Proofs.Text.Tight

/-!
# The codes of directives

No pass finds anything in the code of a directive.  A code that stands on its own is
enclosed in angle brackets, so trimming keeps it.
-/

namespace Scriptlet

/-- A text in which no pass finds anything. -/
def Inert (text : Text) : Prop :=
  '@' ∉ text ∧ Text.isQuiet text = true

instance (text : Text) : Decidable (Inert text) :=
  inferInstanceAs (Decidable (_ ∧ _))

namespace Inert

variable {left middle right : Text}

theorem append (leftInert : Inert left) (rightInert : Inert right) : Inert (left ++ right) :=
  ⟨by simp [leftInert.1, rightInert.1], Text.isQuiet_append leftInert.2 rightInert.2⟩

theorem between (leftInert : Inert left) (middleInert : Inert middle)
    (rightInert : Inert right) : Inert (left ++ middle ++ right) :=
  (leftInert.append middleInert).append rightInert

theorem ofUnbraced {text : Text} (unsigned : '@' ∉ text) (unbraced : '\x7b' ∉ text) :
    Inert text :=
  ⟨unsigned, Text.isQuiet_of_unbraced unbraced⟩

end Inert

/-- A text that begins and ends with angle brackets. -/
def Enclosed (text : Text) : Prop :=
  ['<'] <+: text ∧ ['>'] <:+ text

instance (text : Text) : Decidable (Enclosed text) :=
  inferInstanceAs (Decidable (_ ∧ _))

namespace Enclosed

theorem between {left right : Text} (opened : ['<'] <+: left) (closed : ['>'] <:+ right)
    (middle : Text) : Enclosed (left ++ middle ++ right) := by
  rw [Enclosed, List.append_assoc]
  refine ⟨opened.trans (List.prefix_append left _), ?_⟩
  rw [← List.append_assoc]
  exact closed.trans (List.suffix_append _ right)

end Enclosed

theorem Tight.ofEnclosed {text : Text} (enclosed : Enclosed text) : Tight text where
  first := ⟨'<', enclosed.1, by decide⟩
  last := ⟨'>', enclosed.2, by decide⟩

/-- Escaping a character brings in no sign and no brace. -/
theorem Text.eq_of_mem_escape {character other : Char} (special : character ∈ ['@', '\x7b'])
    (member : character ∈ escape other) : character = other := by
  have digits : ∀ value < 16, hexDigit value ∉ ['@', '\x7b'] := by
    decide
  have letter : ∀ {first second : Char}, first ∉ ['@', '\x7b'] → second ∉ ['@', '\x7b'] →
      character = first ∨ character = second → character = other := by
    rintro first second plain plainSecond (rfl | rfl)
    · exact absurd special plain
    · exact absurd special plainSecond
  unfold escape at member
  split_ifs at member <;> simp only [List.mem_cons, List.not_mem_nil, or_false] at member
  any_goals exact letter (by decide) (by decide) member
  · rcases member with rfl | rfl | rfl | rfl | rfl | rfl
    · exact absurd special (by decide)
    · exact absurd special (by decide)
    · exact absurd special (by decide)
    · exact absurd special (by decide)
    · exact absurd special (digits _ (by omega))
    · exact absurd special (digits _ (by omega))
  · exact member

theorem Text.notMem_quote {character : Char} (special : character ∈ ['@', '\x7b'])
    {text : Text} (absent : character ∉ text) : character ∉ quote text := by
  intro member
  have quoted : character = '"' ∨ character ∈ text.flatMap escape := by
    simpa [quote, inQuotes, or_comm, or_assoc] using member
  rcases quoted with rfl | escaped
  · simp at special
  · obtain ⟨other, otherMember, inEscape⟩ := List.mem_flatMap.mp escaped
    exact absent (eq_of_mem_escape special inEscape ▸ otherMember)
namespace Template

theorem Argument.inert_of_isInfix (argument : Argument) {part : Text}
    (inside : part <:+: argument.text) : Inert part := by
  apply Inert.ofUnbraced
  · exact fun member => argument.plain _ (inside.subset member) (by simp)
  · exact fun member => argument.plain _ (inside.subset member) (by simp)

theorem Called.code_inert (directive : Called) (argument : Argument) :
    Inert (directive.code argument.text) := by
  have trimmed := argument.inert_of_isInfix (Text.trim_isInfix argument.text)
  have unquoted := argument.inert_of_isInfix (Text.unquote_isInfix argument.text)
  have plain : ∀ character ∈ ['@', '\x7b'], character ∉ Text.unquote argument.text := by
    intro character special member
    apply argument.plain _ ((Text.unquote_isInfix argument.text).subset member)
    simp only [List.mem_cons, List.not_mem_nil, or_false] at special ⊢
    rcases special with rfl | rfl <;> simp
  have quoted : Inert (Text.quote (Text.unquote argument.text)) :=
    Inert.ofUnbraced (Text.notMem_quote (by simp) (plain _ (by simp)))
      (Text.notMem_quote (by simp) (plain _ (by simp)))
  cases directive with
  | method => exact Inert.between (by decide) unquoted (by decide)
  | env => exact Inert.between (by decide) quoted (by decide)
  | isset =>
      refine Inert.between ?_ trimmed (by decide)
      exact Inert.between (by decide) trimmed (by decide)
  | _ => exact Inert.between (by decide) trimmed (by decide)

theorem Bare.code_inert (directive : Bare) : Inert directive.code := by
  cases directive <;> decide

theorem Called.code_enclosed (directive : Called) (argument : Text) :
    Enclosed (directive.code argument) := by
  cases directive with
  | isset =>
      refine Enclosed.between ?_ (by decide) _
      refine List.IsPrefix.trans ?_ (List.prefix_append _ _)
      exact List.IsPrefix.trans (by decide) (List.prefix_append _ _)
  | _ => exact Enclosed.between (by decide) (by decide) _

theorem Bare.code_enclosed {directive : Bare} (code : directive ∉ [Bare.php, .endphp]) :
    Enclosed directive.code := by
  cases directive with
  | php => simp at code
  | endphp => simp at code
  | _ => decide

end Template

end Scriptlet
