import Scriptlet.Echo
import Scriptlet.Proofs.Pattern.Items
import Scriptlet.Proofs.Pattern.Marks
import Scriptlet.Proofs.Template.Tree
import Scriptlet.Proofs.Text.Trim

/-!
# Rows of echoes

Echoes between quiet texts are replaced one by one by their trimmed expressions, first those
that are not escaped.  The second replacement reads what the first one leaves.  In an output
statement an expression stands between spaces; a bare one may end in a brace, so nothing that
begins with a brace may follow it.
-/

namespace Scriptlet

namespace Template

theorem trim_spaced (text : Text) : Text.trim (spaced text) = Text.trim text := by
  have space : ∀ character ∈ [' '], Text.isBlank character = true :=
    List.forall_mem_singleton.mpr (by decide)
  have front := Text.trimBy_unwanted_append space (text ++ [' '])
  have back := Text.trimBy_append_unwanted space text
  exact front.trans back

/-- A text between spaces is quiet in front of a closing mark. -/
theorem spaced_quiet {text closing : Text} (unmarked : Text.Unmarked text)
    (quiet : Text.isQuiet closing = true) (nonempty : closing ≠ []) :
    Text.isQuiet (spaced text ++ closing) = true := by
  have separate : Text.separates (' ' :: closing) = true := by
    cases closing with
    | nil => exact absurd rfl nonempty
    | cons head tail => simp [Text.separates]
  have spaceQuiet : Text.isQuiet (' ' :: closing) = true := by
    simpa [Text.isQuiet] using quiet
  have behind := Text.isQuiet_append_of_unmarked unmarked separate spaceQuiet
  simpa [spaced, Text.isQuiet] using behind

end Template

namespace EchoRow

open Pattern
open Template (spaced trim_spaced spaced_quiet)

/-- A text in which no echo begins or ends. -/
structure Expression where
  text : Text
  unmarked : ∀ mark ∈ ["\x7b\x7b", "\x7d\x7d", "\x7b!!", "!!\x7d"], ¬ mark.toList <:+: text

/-- A part of a row.  A text without braces is quiet. -/
inductive Piece where
  | plain (text : Text) (quiet : Text.isQuiet text = true)
  | escaped (expression : Expression)
  | unescaped (expression : Expression)

namespace Piece

def print : Piece → Text
  | .plain text _ => text
  | .escaped expression => "\x7b\x7b" ++ spaced expression.text ++ "\x7d\x7d"
  | .unescaped expression => "\x7b!!" ++ spaced expression.text ++ "!!\x7d"

def code : Echo.Mode → Piece → Text
  | _, .plain text _ => text
  | .output, .escaped expression => "<%- escapeHtml(" ++ Text.trim expression.text ++ ") %>"
  | .output, .unescaped expression => "<%- " ++ Text.trim expression.text ++ " %>"
  | .bare, .escaped expression => "escapeHtml(" ++ Text.trim expression.text ++ ")"
  | .bare, .unescaped expression => Text.trim expression.text

/-- What a piece is after the echoes that are not escaped are replaced. -/
def halfEchoed (mode : Echo.Mode) : Piece → Text
  | .unescaped expression => code mode (.unescaped expression)
  | piece => piece.print

end Piece

/-- No echo of a row stands right in front of a brace, as the next echo begins with one. -/
def Separated : List Piece → Prop
  | [] => True
  | .plain _ _ :: others => Separated others
  | _ :: others => (others.flatMap Piece.print).head? ≠ some '\x7b' ∧ Separated others

theorem Separated.behind {pieces others : List Piece} {expression : Expression}
    (separated : Separated pieces) (suffix : .unescaped expression :: others <:+ pieces) :
    (others.flatMap Piece.print).head? ≠ some '\x7b' := by
  induction pieces with
  | nil => cases List.suffix_nil.mp suffix
  | cons piece later induction =>
      rcases List.suffix_cons_iff.mp suffix with same | further
      · cases same
        exact separated.1
      · cases piece with
        | plain text quiet => exact induction separated further
        | escaped other => exact induction separated.2 further
        | unescaped other => exact induction separated.2 further

/-- The first replacement puts no brace in front of a row that has none there. -/
theorem head?_halfEchoed_ne (mode : Echo.Mode) {pieces : List Piece}
    (unbraced : (pieces.flatMap Piece.print).head? ≠ some '\x7b') :
    (pieces.flatMap (Piece.halfEchoed mode)).head? ≠ some '\x7b' := by
  induction pieces with
  | nil => exact unbraced
  | cons piece others induction =>
      cases piece with
      | plain text quiet =>
          cases text with
          | nil => exact induction unbraced
          | cons head tail => exact unbraced
      | escaped expression => exact absurd rfl unbraced
      | unescaped expression => exact absurd rfl unbraced

namespace Expression

variable (expression : Expression)

theorem isUnmarked : Text.Unmarked expression.text := by
  intro mark listed
  apply expression.unmarked
  simp only [List.mem_cons, List.not_mem_nil, or_false] at listed ⊢
  rcases listed with rfl | rfl <;> simp

theorem trim_isUnmarked : Text.Unmarked (Text.trim expression.text) :=
  fun mark listed infixed =>
    expression.isUnmarked mark listed (infixed.trans (Text.trim_isInfix expression.text))

/-- The closing mark of an echo is absent from an expression between spaces. -/
theorem end_absent {last : Char} {closers : Text}
    (mark : ∃ closing ∈ ["\x7d\x7d", "!!\x7d"], closing.toList = last :: closers)
    (spaceless : ' ' ∉ last :: closers) (rest : Text) :
    (Pattern.literal last closers).Absent (spaced expression.text) rest := by
  obtain ⟨closing, listed, closingEq⟩ := mark
  have nowhere : ¬ last :: closers <:+: ' ' :: expression.text := by
    intro infixed
    rcases List.infix_cons_iff.mp infixed with begins | inside
    · exact spaceless ((List.cons_prefix_cons.mp begins).1 ▸ List.mem_cons_self)
    · rw [← closingEq] at inside
      refine expression.unmarked closing ?_ inside
      simp only [List.mem_cons, List.not_mem_nil, or_false] at listed ⊢
      rcases listed with rfl | rfl <;> simp
  exact absent_of_not_infix spaceless nowhere

theorem unescaped_run? (rest : Text) :
    Echo.unescapedPattern.run? (Piece.print (.unescaped expression) ++ rest) =
      some ⟨Piece.print (.unescaped expression), spaced expression.text, rest⟩ :=
  between_run? (by decide) (by decide) (expression.end_absent (by decide) (by decide) _)

theorem escaped_run? (rest : Text) :
    Echo.escapedPattern.run? (Piece.print (.escaped expression) ++ rest) =
      some ⟨Piece.print (.escaped expression), spaced expression.text, rest⟩ :=
  between_run? (by decide) (by decide) (expression.end_absent (by decide) (by decide) _)

/-- A pattern whose mark goes on differently is absent from an escaped echo. -/
theorem absent_from_escaped {α : Type} {pattern : Pattern '\x7b' α} {mark : String}
    (opened : Opened mark.toList pattern)
    (quieted : ∃ opening ∈ ["\x7b\x7b", "\x7b!!"], opening.toList <+: mark.toList)
    (apart : ∀ tail, ¬ mark.toList <+: '\x7b' :: '\x7b' :: ' ' :: tail ∧
      ¬ mark.toList <+: '\x7b' :: ' ' :: tail) (rest : Text) :
    pattern.Absent (Piece.print (.escaped expression)) rest := by
  have parts : Piece.print (.escaped expression) =
      '\x7b' :: '\x7b' :: (spaced expression.text ++ "\x7d\x7d".toList) :=
    rfl
  rw [parts]
  apply Absent.cons (run?_eq_none_of_opened opened (apart _).1)
  apply Absent.cons (run?_eq_none_of_opened opened (apart _).2)
  exact absent_of_quiet opened quieted
    (spaced_quiet expression.isUnmarked (by decide) (by decide)) rest

theorem escaped_output_quiet : Text.isQuiet (Piece.code .output (.escaped expression)) = true :=
  Text.isQuiet_between (by decide) expression.trim_isUnmarked (by decide) (by decide)

theorem unescaped_output_quiet :
    Text.isQuiet (Piece.code .output (.unescaped expression)) = true :=
  Text.isQuiet_between (by decide) expression.trim_isUnmarked (by decide) (by decide)

end Expression

private theorem between_between_eq {outer inner right outerRight left whole : Text}
    (leftEq : outer ++ inner = left) (rightEq : right ++ outerRight = whole) (middle : Text) :
    outer ++ (inner ++ middle ++ right) ++ outerRight = left ++ middle ++ whole := by
  subst leftEq rightEq
  simp only [List.append_assoc]

theorem code_unescaped (mode : Echo.Mode) (expression : Expression) :
    mode.code (Text.trim expression.text) = Piece.code mode (.unescaped expression) := by
  cases mode with
  | output => rfl
  | bare => rfl

theorem code_escaped (mode : Echo.Mode) (expression : Expression) :
    mode.code (Code.escapeCall (Text.trim expression.text)) =
      Piece.code mode (.escaped expression) := by
  cases mode with
  | output => exact between_between_eq (by decide) (by decide) _
  | bare => rfl

/-- The echoes of a row that are not escaped are replaced, whatever stands between them. -/
theorem replace_unescaped (mode : Echo.Mode) (pieces : List Piece) :
    (Echo.unescapedPattern.map fun echo => mode.code (Text.trim echo)).replace id
      (pieces.flatMap Piece.print) = pieces.flatMap (Piece.halfEchoed mode) := by
  have opened : Opened "\x7b!!".toList Echo.unescapedPattern := Opened.ofBetween _ _ _
  have quieted : ∃ opening ∈ ["\x7b\x7b", "\x7b!!"], opening.toList <+: "\x7b!!".toList := by
    decide
  apply replace_flatMap
  intro piece others _
  cases piece with
  | plain text quiet => exact .inr ⟨rfl, (absent_of_quiet opened quieted quiet _).map _⟩
  | escaped expression =>
      refine .inr ⟨rfl, (expression.absent_from_escaped opened quieted ?_ _).map _⟩
      intro tail
      have mark : "\x7b!!".toList = ['\x7b', '!', '!'] := by decide
      simp [mark]
  | unescaped expression =>
      refine .inl ⟨_, ?_, map_run?_eq_some.mpr ⟨_, expression.unescaped_run? _, rfl⟩⟩
      rw [trim_spaced]
      exact code_unescaped mode expression

/-- No escaped echo begins in an expression, also in front of a text without a brace. -/
theorem escaped_absent_before_unbraced {text rest : Text} (unmarked : Text.Unmarked text)
    (unbraced : rest.head? ≠ some '\x7b') : Echo.escapedPattern.Absent text rest := by
  have opened : Opened ['\x7b', '\x7b'] Echo.escapedPattern := Opened.ofBetween _ _ _
  intro tail suffix nonempty
  apply run?_eq_none_of_opened opened
  intro begins
  match tail with
  | [] => exact nonempty rfl
  | [last] =>
      obtain ⟨others, joined⟩ := begins
      obtain ⟨-, rfl⟩ := List.cons.inj joined
      exact unbraced rfl
  | first :: second :: others =>
      have inside : ['\x7b', '\x7b'] <+: first :: second :: others := by
        simpa using begins
      exact unmarked "\x7b\x7b" List.mem_cons_self (inside.isInfix.trans suffix.isInfix)

/-- What the first replacement leaves of an echo holds no escaped one. -/
theorem escaped_absent_from_unescaped {mode : Echo.Mode} {pieces others : List Piece}
    {expression : Expression} (separated : mode = .bare → Separated pieces)
    (suffix : .unescaped expression :: others <:+ pieces) :
    Echo.escapedPattern.Absent (Piece.code mode (.unescaped expression))
      (others.flatMap (Piece.halfEchoed mode)) := by
  cases mode with
  | output =>
      have opened : Opened "\x7b\x7b".toList Echo.escapedPattern := Opened.ofBetween _ _ _
      exact absent_of_quiet opened (by decide) expression.unescaped_output_quiet _
  | bare =>
      apply escaped_absent_before_unbraced expression.trim_isUnmarked
      exact head?_halfEchoed_ne .bare ((separated rfl).behind suffix)

/-- Then the escaped echoes are replaced. -/
theorem replace_escaped {mode : Echo.Mode} {pieces : List Piece}
    (separated : mode = .bare → Separated pieces) :
    (Echo.escapedPattern.map fun echo => mode.code (Code.escapeCall (Text.trim echo))).replace id
      (pieces.flatMap (Piece.halfEchoed mode)) = pieces.flatMap (Piece.code mode) := by
  have opened : Opened "\x7b\x7b".toList Echo.escapedPattern := Opened.ofBetween _ _ _
  apply replace_flatMap
  intro piece others suffix
  cases piece with
  | plain text quiet => exact .inr ⟨rfl, (absent_of_quiet opened (by decide) quiet _).map _⟩
  | escaped expression =>
      refine .inl ⟨_, ?_, map_run?_eq_some.mpr ⟨_, expression.escaped_run? _, rfl⟩⟩
      rw [trim_spaced]
      exact code_escaped mode expression
  | unescaped expression =>
      exact .inr ⟨rfl, (escaped_absent_from_unescaped separated suffix).map _⟩

theorem interpolate_eq (mode : Echo.Mode) (text : Text) :
    Echo.interpolate mode text =
      (Echo.escapedPattern.map fun echo => mode.code (Code.escapeCall (Text.trim echo))).replace id
        ((Echo.unescapedPattern.map fun echo => mode.code (Text.trim echo)).replace id text) := by
  rw [Echo.interpolate, replaceEach_eq_foldl, Echo.patterns, List.foldl_cons, List.foldl_cons,
    List.foldl_nil]

/-- In either mode a row becomes the row of the codes of its pieces. -/
theorem interpolate_row (mode : Echo.Mode) (pieces : List Piece)
    (separated : mode = .bare → Separated pieces) :
    Echo.interpolate mode (pieces.flatMap Piece.print) = pieces.flatMap (Piece.code mode) := by
  rw [interpolate_eq, replace_unescaped, replace_escaped separated]

/-- A row of bare echoes whose expressions have single braces, the first one next to a text
that would complete a mark. -/
def bracesRow : List Piece :=
  [.unescaped ⟨"\x7b!", by decide⟩, .plain "!" (by decide), .escaped ⟨" $a \x7d", by decide⟩,
    .plain ", " (by decide), .unescaped ⟨"$b", by decide⟩]

theorem interpolate_row_of_braces :
    (Echo.Mode.bare = .bare → Separated bracesRow) ∧
      Echo.interpolate .bare
          "\x7b!! \x7b! !!\x7d!\x7b\x7b  $a \x7d \x7d\x7d, \x7b!! $b !!\x7d" =
        "\x7b!!escapeHtml($a \x7d), $b".toList := by
  have separated : Separated bracesRow := by
    refine ⟨?_, ?_, ?_, trivial⟩ <;> decide
  exact ⟨fun _ => separated, interpolate_row .bare bracesRow fun _ => separated⟩

end EchoRow

end Scriptlet
