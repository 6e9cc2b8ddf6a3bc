import Scriptlet.Proofs.Directive.Entry
import Scriptlet.Proofs.Pattern.Counting
import Scriptlet.Proofs.Text.Trim

/-!
# Signs in lowered directives

Up to the switches, no pass over the text adds signs: the code of a directive has
at most the signs of its argument.
-/

namespace Scriptlet

namespace Text

theorem signs_trim_le (text : Text) : signs (trim text) ≤ signs text :=
  signs_le_of_sublist (trim_isInfix text).sublist

theorem signs_unquote_le (text : Text) : signs (unquote text) ≤ signs text :=
  signs_le_of_sublist (unquote_isInfix text).sublist

theorem signs_escape_le (character : Char) : signs (escape character) ≤ signs [character] := by
  have digits : ∀ value < 16, hexDigit value ≠ '@' := by decide
  by_cases control : character.toNat < 0x20
  · have high := digits (character.toNat / 16) (by omega)
    have low := digits (character.toNat % 16) (by omega)
    unfold escape
    split_ifs <;> simp [signs, List.count_cons, high, low]
  · unfold escape
    rw [if_neg control]
    split_ifs <;> simp [signs]

theorem signs_quote_le (text : Text) : signs (quote text) ≤ signs text := by
  have escaped : signs (text.flatMap escape) ≤ signs text := by
    induction text with
    | nil => exact Nat.le_refl _
    | cons head tail induction =>
        have whole := signs_append [head] tail
        rw [List.singleton_append] at whole
        rw [List.flatMap_cons, signs_append, whole]
        exact Nat.add_le_add (signs_escape_le head) induction
  have quoted : signs (quote text) = signs (text.flatMap escape) := by
    simp [quote, inQuotes, signs]
  exact quoted ▸ escaped

theorem signs_append_plain {closing : Text} (plain : signs closing = 0) (text : Text) :
    signs (text ++ closing) = signs text := by
  rw [signs_append, plain, Nat.add_zero]

/-- What stands between two texts without signs has all of them. -/
theorem signs_between {opening closing : Text} (plainOpening : signs opening = 0)
    (plainClosing : signs closing = 0) (text : Text) :
    signs (opening ++ text ++ closing) = signs text := by
  rw [signs_append_plain plainClosing, signs_append, plainOpening, Nat.zero_add]

end Text

namespace Code

theorem signs_statement (code : Text) : Text.signs (statement code) = Text.signs code :=
  Text.signs_between (by decide) (by decide) code

theorem signs_output (expression : Text) :
    Text.signs (output expression) = Text.signs expression :=
  Text.signs_between (by decide) (by decide) expression

theorem signs_openBlock (head : Text) : Text.signs (openBlock head) = Text.signs head := by
  have brace : Text.signs (head ++ " \x7b".toList) = Text.signs head :=
    Text.signs_append_plain (by decide) head
  exact (signs_statement _).trans brace

theorem signs_nextBlock (head : Text) : Text.signs (nextBlock head) = Text.signs head := by
  have braces : Text.signs ("\x7d ".toList ++ head ++ " \x7b".toList) = Text.signs head :=
    Text.signs_between (by decide) (by decide) head
  exact (signs_statement _).trans braces

theorem signs_escapeCall (expression : Text) :
    Text.signs (escapeCall expression) = Text.signs expression :=
  Text.signs_between (by decide) (by decide) expression

theorem signs_formCall {method : Text} (plain : Text.signs method = 0) (arguments : Text) :
    Text.signs (formCall method arguments) = Text.signs arguments := by
  have head : ∀ call parenthesis : Text, Text.signs call = 0 → Text.signs parenthesis = 0 →
      Text.signs (call ++ method ++ parenthesis) = 0 := by
    intro call parenthesis plainCall plainParenthesis
    rw [Text.signs_between plainCall plainParenthesis, plain]
  exact Text.signs_between (head _ _ (by decide) (by decide)) (by decide)
    arguments

end Code

namespace Echo

theorem Mode.signs_code (mode : Mode) (expression : Text) :
    Text.signs (mode.code expression) = Text.signs expression := by
  cases mode with
  | output => exact Code.signs_output expression
  | bare => rfl

theorem signs_interpolate_le (mode : Mode) (text : Text) :
    Text.signs (interpolate mode text) ≤ Text.signs text := by
  apply Pattern.signs_replaceEach_le
  intro pattern member
  simp only [patterns, List.mem_cons, List.not_mem_nil, or_false] at member
  rcases member with rfl | rfl
  · apply Pattern.map_carries
    apply (Pattern.between_carries _ _).weaken
    intro echo
    rw [mode.signs_code]
    exact Text.signs_trim_le echo
  · apply Pattern.map_carries
    apply (Pattern.between_carries _ _).weaken
    intro echo
    rw [mode.signs_code, Code.signs_escapeCall]
    exact Text.signs_trim_le echo

end Echo

namespace Directive

theorem signs_dropComments_le (text : Text) :
    Text.signs (dropComments text) ≤ Text.signs text := by
  apply Pattern.signs_replace_le
  exact (Scan.Carries.nothing _).weaken fun _ => Nat.le_refl _

/-- The code of an entry has no signs but those of its argument. -/
def Entry.AddsNoSigns : Entry → Prop
  | .argument _ code => ∀ argument, Text.signs (code argument) ≤ Text.signs argument
  | .word _ code => Text.signs code = 0

theorem signs_replaceEach_le {entries : List Entry}
    (saving : ∀ entry ∈ entries, entry.AddsNoSigns) (text : Text) :
    Text.signs (Pattern.replaceEach (entries.map Entry.rule) text) ≤ Text.signs text := by
  apply Pattern.signs_replaceEach_le
  intro pattern member
  obtain ⟨entry, entryMember, rfl⟩ := List.mem_map.mp member
  have entrySaving := saving entry entryMember
  cases entry with
  | argument name code =>
      apply Pattern.map_carries
      apply (Pattern.withArgument_carries name).weaken
      intro argument
      exact Nat.le_succ_of_le (entrySaving argument)
  | word name code =>
      apply Pattern.map_carries
      apply (Pattern.bare_carries name).weaken
      intro _
      exact Nat.le_trans (Nat.le_of_eq entrySaving) (Nat.zero_le 1)

theorem signs_formStatement_le {method : Text} (plain : Text.signs method = 0)
    (argument : Text) : Text.signs (formStatement method argument) ≤ Text.signs argument := by
  have call := Code.signs_formCall plain (Echo.interpolate .bare (Text.trim argument))
  have semicolon : ∀ code, Text.signs (code ++ ";".toList) = Text.signs code :=
    Text.signs_append_plain (by decide)
  have lowered : Text.signs (formStatement method argument) =
      Text.signs (Echo.interpolate .bare (Text.trim argument)) :=
    (Code.signs_statement _).trans ((semicolon _).trans call)
  rw [lowered]
  exact (Echo.signs_interpolate_le .bare _).trans (Text.signs_trim_le argument)

theorem controlEntries_addNoSigns : ∀ entry ∈ controlEntries, entry.AddsNoSigns := by
  intro entry member
  obtain ⟨method, methodMember, rfl⟩ := List.mem_map.mp member
  have plain : ∀ method ∈ ["input", "textarea", "submit", "button", "label", "select"],
      Text.signs method.toList = 0 := by
    decide
  exact signs_formStatement_le (plain method methodMember)

theorem signs_lowerForms_le (text : Text) : Text.signs (lowerForms text) ≤ Text.signs text := by
  have within : ∀ bound text, Text.signs (lowerFormsWithin bound text) ≤ Text.signs text := by
    intro bound
    induction bound with
    | zero => exact fun text => signs_replaceEach_le controlEntries_addNoSigns text
    | succ bound induction =>
        intro text
        apply (signs_replaceEach_le controlEntries_addNoSigns _).trans
        apply Pattern.signs_replace_le
        apply (Pattern.blockOf_carries _ (Pattern.withArgument_carries _)).weaken
        intro block
        have plain : Text.signs "start" = 0 := by decide
        have opening := signs_formStatement_le plain block.1
        have body := (induction (Text.trim block.2)).trans (Text.signs_trim_le block.2)
        have closing : Text.signs formClosing = 0 := by decide
        rw [Text.signs_append, Text.signs_append, closing, Nat.add_zero]
        exact Nat.le_succ_of_le (Nat.add_le_add opening body)
  exact within text.length text

private theorem signs_trim_between_le {opening closing : Text}
    (plainOpening : Text.signs opening = 0) (plainClosing : Text.signs closing = 0)
    (argument : Text) :
    Text.signs (opening ++ Text.trim argument ++ closing) ≤ Text.signs argument := by
  rw [Text.signs_between plainOpening plainClosing]
  exact Text.signs_trim_le argument

private theorem block_addsNoSigns (name : Text) {opening closing : Text}
    (plainOpening : Text.signs opening = 0) (plainClosing : Text.signs closing = 0) :
    (Entry.block name opening closing).AddsNoSigns := by
  intro argument
  rw [Code.signs_openBlock]
  exact signs_trim_between_le plainOpening plainClosing argument

private theorem conditionalJump_addsNoSigns (name : Text) {statement : Text}
    (plain : Text.signs statement = 0) :
    (Entry.argument name (conditionalJump statement)).AddsNoSigns := by
  intro argument
  have code : ∀ opening middle closing : Text, Text.signs opening = 0 → Text.signs middle = 0 →
      Text.signs closing = 0 →
      Text.signs (opening ++ Text.trim argument ++ middle ++ statement ++ closing) ≤
        Text.signs argument := by
    intro opening middle closing plainOpening plainMiddle plainClosing
    rw [Text.signs_append, Text.signs_append, plain, plainClosing]
    exact signs_trim_between_le plainOpening plainMiddle argument
  have saving := code "if (" ") \x7b " " \x7d" (by decide) (by decide)
    (by decide)
  exact (Nat.le_of_eq (Code.signs_statement _)).trans saving

theorem environmentEntries_addNoSigns : ∀ entry ∈ environmentEntries, entry.AddsNoSigns := by
  intro entry member
  simp only [environmentEntries, List.mem_cons, List.not_mem_nil, or_false] at member
  rcases member with rfl | rfl
  · intro argument
    have head : Text.signs (environmentHead (Text.unquote argument)) =
        Text.signs (Text.quote (Text.unquote argument)) :=
      Text.signs_between (by decide) (by decide) _
    rw [Code.signs_openBlock, head]
    exact (Text.signs_quote_le _).trans (Text.signs_unquote_le argument)
  · exact (by decide : Text.signs Code.closeBlock = 0)

theorem loopEntries_addNoSigns : ∀ entry ∈ loopEntries, entry.AddsNoSigns := by
  intro entry member
  simp only [loopEntries, List.mem_cons, List.not_mem_nil, or_false] at member
  have closing : Text.signs Code.closeBlock = 0 := by decide
  rcases member with rfl | rfl | rfl | rfl | rfl | rfl
  · exact block_addsNoSigns "foreach" (by decide) (by decide)
  · exact closing
  · exact block_addsNoSigns "for" (by decide) (by decide)
  · exact closing
  · exact block_addsNoSigns "while" (by decide) (by decide)
  · exact closing

theorem jumpEntries_addNoSigns : ∀ entry ∈ jumpEntries, entry.AddsNoSigns := by
  intro entry member
  simp only [jumpEntries, List.mem_cons, List.not_mem_nil, or_false] at member
  rcases member with rfl | rfl | rfl | rfl
  · exact conditionalJump_addsNoSigns "continue" (by decide)
  · exact conditionalJump_addsNoSigns "break" (by decide)
  · exact (by decide : Text.signs (Code.statement "continue;") = 0)
  · exact (by decide : Text.signs (Code.statement "break;") = 0)

theorem conditionalEntries_addNoSigns : ∀ entry ∈ conditionalEntries, entry.AddsNoSigns := by
  intro entry member
  simp only [conditionalEntries, List.mem_cons, List.not_mem_nil, or_false] at member
  rcases member with rfl | rfl | rfl | rfl
  · exact block_addsNoSigns "if" (by decide) (by decide)
  · intro argument
    rw [Code.signs_nextBlock]
    exact signs_trim_between_le (by decide) (by decide) argument
  · exact (by decide : Text.signs (Code.nextBlock "else") = 0)
  · exact (by decide : Text.signs Code.closeBlock = 0)

end Directive

end Scriptlet
