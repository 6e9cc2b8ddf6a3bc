import Scriptlet.Proofs.Compilation.Idle
import Scriptlet.Proofs.Nesting.Written

/-!
# Nested forms

Forms are lowered as switches are: each pair of directives is replaced, and the text between
them, where no form ends, has only its controls lowered.
-/

namespace Scriptlet

/-- A text is lowered by any bound that admits a block: only the empty text has no such
bound, and there is nothing to lower in it. -/
theorem Directive.lowerForms_of_within {text lowered : Text}
    (within : ∀ bound, lowerFormsWithin (bound + 1) text = lowered) :
    lowerForms text = lowered := by
  rw [lowerForms]
  cases size : text.length with
  | zero =>
      have blockless := within 0
      rw [List.length_eq_zero_iff.mp size] at blockless ⊢
      rwa [lowerFormsWithin, formBlock.replace_nil] at blockless
  | succ bound => exact within bound

namespace Nesting

open Directive Pattern Template

private theorem interpolated_inert (argument : Argument) :
    Inert (Echo.interpolate .bare (Text.trim argument.text)) := by
  have trimmed := argument.inert_of_isInfix (Text.trim_isInfix argument.text)
  have unbraced : '\x7b' ∉ Text.trim argument.text := fun member =>
    argument.plain _ ((Text.trim_isInfix argument.text).subset member) (by decide)
  rwa [Echo.interpolate, replaceEach_of_absent_text fun _ _ => Absent.of_notMem unbraced]

private theorem formStatement_inert {method : Text} (inert : Inert method) (argument : Argument) :
    Inert (formStatement method argument.text) := by
  have name := (Inert.append (by decide : Inert "form.") inert).append (by decide : Inert "(")
  have call := (name.append (interpolated_inert argument)).append (by decide : Inert ")")
  exact Inert.between (by decide) (call.append (by decide)) (by decide)

private theorem formStatement_enclosed (method argument : Text) :
    Enclosed (formStatement method argument) :=
  Enclosed.between (by decide) (by decide) _

/-- Forms with their controls. -/
def forms : Dialect where
  opening := "form"
  closing := "endform"
  labels := controlEntries
  head := formStatement "start"
  foot := formClosing
  apart := by decide +kernel
  letters := Text.letters_of_all (by decide +kernel)
  head_inert := formStatement_inert (by decide)
  head_opens argument := (formStatement_enclosed _ argument).1
  foot_inert := by decide
  foot_closes := by decide
  label_inert := by
    have plain : ∀ method ∈ ["input", "textarea", "submit", "button", "label", "select"],
        Inert method.toList := by
      decide
    intro entry listed argument
    obtain ⟨method, member, rfl⟩ := List.mem_map.mp listed
    exact formStatement_inert (plain method member) argument
  label_enclosed := by
    intro entry listed argument
    obtain ⟨method, -, rfl⟩ := List.mem_map.mp listed
    exact formStatement_enclosed _ argument

theorem forms_block : forms.block = formBlock :=
  rfl

variable {tokens : List (Token forms)}

/-- Every text between a pair of directives is lowered on its own. -/
private def LowersPairs (lower : Text → Text) (tokens : List (Token forms)) : Prop :=
  ∀ opening argument body closing, Segment.block opening argument body closing ∈ segments tokens →
    lower (Text.trim (body.flatMap Token.print)) = Text.trim (body.flatMap Token.code)

private theorem lowerFormsWithin_succ {bound : Nat}
    (pairs : LowersPairs (lowerFormsWithin bound) tokens) :
    lowerFormsWithin (bound + 1) (tokens.flatMap Token.print) =
      (segments tokens).flatMap Segment.code := by
  have blocks : formBlock.replace
      (fun block => formStatement "start" block.1 ++ lowerFormsWithin bound (Text.trim block.2)
        ++ formClosing) (tokens.flatMap Token.print) =
      (segments tokens).flatMap Segment.paired := by
    rw [← forms_block]
    apply replace_block
    intro opening argument body closing listed
    rw [pairs opening argument body closing listed]
    rfl
  rw [lowerFormsWithin, blocks]
  exact replaceEach_flatMap rewrites_segment

private theorem lowerFormsWithin_unclosed (bound : Nat) (unclosed : Unclosed tokens) :
    lowerFormsWithin bound (tokens.flatMap Token.print) = tokens.flatMap Token.code := by
  cases bound with
  | zero => exact replaceEach_flatMap rewrites_token
  | succ bound =>
      have pairs : LowersPairs (lowerFormsWithin bound) tokens := fun _ _ _ _ listed =>
        absurd listed (block_notMem_of_unclosed unclosed)
      rw [lowerFormsWithin_succ pairs, segments_of_unclosed unclosed]
      exact List.flatMap_map _ _ _

/-- A row is lowered to the code of its pairs. -/
theorem lowerForms_tokens (tokens : List (Token forms)) :
    lowerForms (tokens.flatMap Token.print) = (segments tokens).flatMap Segment.code := by
  apply lowerForms_of_within
  intro bound
  apply lowerFormsWithin_succ
  intro opening argument body closing listed
  rw [trim_print, lowerFormsWithin_unclosed bound (unclosed_trimmed listed), trim_code]

end Nesting

end Scriptlet
