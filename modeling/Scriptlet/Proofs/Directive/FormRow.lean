import Scriptlet.Proofs.Nesting.Forms

/-!
# Rows of forms

Forms that do not stand in each other are lowered in the order of the source: every control
where it stands, and every block with its lowered body between the statements that open and
close the form.  Arguments and texts may hold braces, so an echo in an argument is lowered
as a part of it.
-/

namespace Scriptlet.FormRow

open Directive Pattern Template

/-- The directives with an argument that may stand in a form or outside of one. -/
inductive Control where
  | input
  | textarea
  | submit
  | button
  | label
  | select

def Control.method : Control → String
  | .input => "input"
  | .textarea => "textarea"
  | .submit => "submit"
  | .button => "button"
  | .label => "label"
  | .select => "select"

structure Argument where
  text : Text
  unsigned : '@' ∉ text
  closed : ')' ∉ text

/-- An argument in code: trimmed, and with the expressions of its echoes. -/
def Argument.code (argument : Argument) : Text :=
  Echo.interpolate .bare (Text.trim argument.text)

/-- The statement that calls a method of the form. -/
def statement (method : Text) (argument : Argument) : Text :=
  "<% form." ++ method ++ "(" ++ argument.code ++ "); %>"

/-- The statements that close a form and print what its calls have gathered. -/
def closing : Text :=
  "<% form.end(); %>\n<%- form.output() %>"

inductive Piece where
  | plain (character : Char) (unsigned : character ≠ '@')
  | call (control : Control) (spelling : Spelling control.method.toList) (argument : Argument)

namespace Piece

def print : Piece → Text
  | .plain character _ => [character]
  | .call _ spelling argument => Text.called spelling.written argument.text

def code : Piece → Text
  | .plain character _ => [character]
  | .call control _ argument => statement control.method.toList argument

def isBlank : Piece → Bool
  | .plain character _ => Text.isBlank character
  | .call _ _ _ => false

end Piece

/-- A part of a row: a piece outside of forms, or a form with pieces in it. -/
inductive Part where
  | outside (piece : Piece)
  | block (opening : Spelling "form") (argument : Argument) (body : List Piece)
      (closing : Spelling "endform")

namespace Part

def print : Part → Text
  | .outside piece => piece.print
  | .block opening argument body closing =>
      Text.called opening.written argument.text ++
        (body.flatMap Piece.print ++ '@' :: closing.written)

def code : Part → Text
  | .outside piece => piece.code
  | .block _ argument body _ =>
      statement "start" argument ++ (trimItems Piece.isBlank body).flatMap Piece.code ++ closing

end Part

theorem statement_eq (method : Text) (argument : Argument) :
    formStatement method argument.text = statement method argument := by
  calc formStatement method argument.text
      = "<% " ++ ("form." ++ method ++ "(" ++ argument.code ++ ")" ++ ";") ++ " %>" := rfl
    _ = ("<% ".toList ++ "form.".toList) ++ method ++ "(" ++ argument.code ++
          (")".toList ++ (";".toList ++ " %>".toList)) := by
        simp only [List.append_assoc]
    _ = statement method argument := rfl

theorem closing_eq : formClosing = closing := by
  decide

theorem statement_unsigned {method : Text} (plain : '@' ∉ method) (argument : Argument) :
    '@' ∉ statement method argument := by
  rw [← Text.signs_eq_zero] at plain ⊢
  have lowered := signs_formStatement_le plain argument.text
  rw [Text.signs_eq_zero.mpr argument.unsigned, statement_eq] at lowered
  exact Nat.eq_zero_of_le_zero lowered

namespace Control

def entry (control : Control) : Entry :=
  .argument control.method.toList (formStatement control.method.toList)

theorem entry_listed (control : Control) : control.entry ∈ controlEntries := by
  have listed : control.method ∈ ["input", "textarea", "submit", "button", "label", "select"] := by
    cases control <;> decide
  exact List.mem_map_of_mem listed

theorem method_listed (control : Control) :
    control.method.toList ∈ controlEntries.map Entry.name :=
  List.mem_map_of_mem control.entry_listed

theorem letters (control : Control) :
    ∀ character ∈ control.method.toList, Text.isLetter character := by
  have written : control.method.toList.all Text.isLetter = true := by
    cases control <;> decide
  exact List.all_eq_true.mp written

end Control

namespace Piece

/-- Every sign of a piece stands before the name of a control. -/
theorem print_signed (piece : Piece) :
    Text.SignedBy (controlEntries.map Entry.name) piece.print := by
  cases piece with
  | plain character unsigned =>
      exact Text.SignedBy.of_unsigned fun member => unsigned (List.mem_singleton.mp member).symm
  | call control spelling argument =>
      exact Text.SignedBy.of_called control.method_listed spelling.spelled
        (spelling.unsigned control.letters) argument.unsigned

theorem code_unsigned (piece : Piece) : '@' ∉ piece.code := by
  cases piece with
  | plain character unsigned => exact fun member => unsigned (List.mem_singleton.mp member).symm
  | call control spelling argument =>
      exact statement_unsigned (by cases control <;> decide) argument

theorem rewrites (piece : Piece) : Rewrites controlRules piece.print piece.code := by
  cases piece with
  | plain character unsigned =>
      exact Rewrites.of_absent fun _ _ _ =>
        Absent.of_notMem fun member => unsigned (List.mem_singleton.mp member).symm
  | call control spelling argument =>
      have signed : Text.SignedBy [control.entry.name]
          (control.entry.print spelling.written argument.text) :=
        Text.SignedBy.of_called List.mem_cons_self spelling.spelled
          (spelling.unsigned control.letters) argument.unsigned
      have codeEq : control.entry.code argument.text =
          code (.call control spelling argument) :=
        statement_eq control.method.toList argument
      have unsigned := code_unsigned (.call control spelling argument)
      rw [← codeEq] at unsigned ⊢
      exact Entry.rewrites Nesting.forms.labels_apart control.entry_listed spelling.spelled
        argument.closed signed unsigned

theorem writtenTightly (piece : Piece) : WrittenTightly isBlank print piece := by
  cases piece with
  | plain character unsigned => exact WrittenTightly.ofCharacter rfl rfl
  | call control spelling argument => exact WrittenTightly.ofTight rfl (Tight.ofCalled _ _)

end Piece

theorem body_signed (body : List Piece) :
    Text.SignedBy (controlEntries.map Entry.name) (body.flatMap Piece.print) :=
  Text.SignedBy.flatMap fun piece _ => piece.print_signed

/-- Pieces are lowered one by one, however many forms may be nested. -/
theorem lowerFormsWithin_pieces (bound : Nat) (body : List Piece) :
    lowerFormsWithin bound (body.flatMap Piece.print) = body.flatMap Piece.code := by
  cases bound with
  | zero => exact replaceEach_flatMap Piece.rewrites
  | succ bound =>
      have absent : formBlock.Absent (body.flatMap Piece.print) [] := by
        apply (body_signed body).absent (Nesting.block_named Nesting.forms)
        exact fun name listed => Nesting.forms.opening_apart name (List.mem_cons_of_mem _ listed)
      rw [lowerFormsWithin, replace_of_absent_text _ absent]
      exact replaceEach_flatMap Piece.rewrites

namespace Part

/-- A block is found as a whole, as no form ends in its body. -/
theorem block_run? (opening : Spelling "form") (argument : Argument) (body : List Piece)
    (closing : Spelling "endform") (rest : Text) :
    formBlock.run? ((block opening argument body closing).print ++ rest) =
      some ⟨(block opening argument body closing).print,
        (argument.text, body.flatMap Piece.print), rest⟩ := by
  have opened := withArgument_run? opening.spelled argument.closed
    (body.flatMap Piece.print ++ '@' :: (closing.written ++ rest))
  have unended : (bare "endform").Absent (body.flatMap Piece.print)
      ('@' :: (closing.written ++ rest)) :=
    (body_signed body).absent (Named.ofBare _) Nesting.forms.closing_apart _
  have found := blockOf_run? closing.spelled opened rfl unended
  simpa [print, formBlock] using found

/-- What the replacement of blocks leaves of a part. -/
def blocksLowered : Part → Text
  | .outside piece => piece.print
  | part => part.code

theorem rewrites (part : Part) : Rewrites controlRules part.blocksLowered part.code := by
  cases part with
  | outside piece => exact piece.rewrites
  | block opening argument body closing =>
      have start := statement_unsigned (by decide : '@' ∉ "start".toList) argument
      have lowered : '@' ∉ (trimItems Piece.isBlank body).flatMap Piece.code := by
        intro member
        obtain ⟨piece, -, inCode⟩ := List.mem_flatMap.mp member
        exact piece.code_unsigned inCode
      have ending : '@' ∉ FormRow.closing := by decide
      have unsigned : '@' ∉ code (block opening argument body closing) := by
        simp only [code, List.mem_append, not_or]
        exact ⟨⟨start, lowered⟩, ending⟩
      exact Rewrites.of_absent fun _ _ _ => Absent.of_notMem unsigned

end Part

/-- The blocks of a row are replaced where they stand. -/
theorem replace_blocks (bound : Nat) (parts : List Part) :
    formBlock.replace
        (fun block => formStatement "start" block.1 ++ lowerFormsWithin bound (Text.trim block.2)
          ++ formClosing)
        (parts.flatMap Part.print) = parts.flatMap Part.blocksLowered := by
  apply replace_flatMap
  intro part others _
  cases part with
  | outside piece =>
      refine .inr ⟨rfl, piece.print_signed.absent (Nesting.block_named Nesting.forms) ?_ _⟩
      exact fun name listed => Nesting.forms.opening_apart name (List.mem_cons_of_mem _ listed)
  | block opening argument body closing =>
      refine .inl ⟨_, ?_, Part.block_run? opening argument body closing _⟩
      have trimmed : Text.trim (body.flatMap Piece.print) =
          (trimItems Piece.isBlank body).flatMap Piece.print :=
        trim_flatMap fun piece _ => piece.writtenTightly
      rw [trimmed, lowerFormsWithin_pieces, statement_eq, closing_eq]
      rfl

/-- Forms that do not stand in each other are lowered in the order of the source, and what
is not a form directive is left as it is. -/
theorem lowerForms_row (parts : List Part) :
    lowerForms (parts.flatMap Part.print) = parts.flatMap Part.code := by
  apply lowerForms_of_within
  intro bound
  rw [lowerFormsWithin, replace_blocks]
  exact replaceEach_flatMap Part.rewrites

end Scriptlet.FormRow
