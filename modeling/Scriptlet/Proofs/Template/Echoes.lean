import Scriptlet.Proofs.Template.EchoRow

/-!
# Comments and echoes

After the directives are lowered, a template is a row of quiet texts, comments and
echoes.  The last passes take the comments out, which leaves a row of echoes.
-/

namespace Scriptlet.Template

open Pattern

/-- An expression as it stands in a row of echoes. -/
def Expression.echoed (expression : Expression) : EchoRow.Expression :=
  ⟨expression.text, expression.unmarked⟩

inductive Stretch where
  | quiet (text : Text) (isQuiet : Text.isQuiet text = true)
  | comment (text : List Plain)
  | escaped (expression : Expression)
  | unescaped (expression : Expression)

namespace Stretch

def print : Stretch → Text
  | .quiet text _ => text
  | .comment text => Passage.print (.comment text)
  | .escaped expression => Passage.print (.escaped expression)
  | .unescaped expression => Passage.print (.unescaped expression)

def code : Stretch → Text
  | .quiet text _ => text
  | .comment text => Passage.code (.comment text)
  | .escaped expression => Passage.code (.escaped expression)
  | .unescaped expression => Passage.code (.unescaped expression)

/-- What a stretch is after the comments are taken out. -/
def uncommented : Stretch → EchoRow.Piece
  | .quiet text isQuiet => .plain text isQuiet
  | .comment _ => .plain [] rfl
  | .escaped expression => .escaped expression.echoed
  | .unescaped expression => .unescaped expression.echoed

end Stretch

/-- A comment ends where its closing mark does, whatever dashes are before it. -/
private theorem commentEnd_absent (text : List Plain) (rest : Text) :
    (Pattern.literal '-' "-\x7d\x7d").Absent (plainText text)
      ("--\x7d\x7d".toList ++ rest) := by
  intro tail suffix nonempty
  have unbraced : '\x7d' ∉ tail := fun member =>
    notMem_plainText (by decide) text (suffix.subset member)
  have opened : Opened ['-', '-', '\x7d', '\x7d'] (Pattern.literal '-' "-\x7d\x7d") :=
    fun _ _ => prefix_of_literal
  have closing : "--\x7d\x7d".toList = ['-', '-', '\x7d', '\x7d'] := by decide
  apply run?_eq_none_of_opened opened
  rw [closing]
  intro begins
  -- the third character would have to be a brace
  match tail with
  | [] => exact nonempty rfl
  | [first] => simp at begins
  | [first, second] => simp at begins
  | first :: second :: third :: others =>
      simp only [List.cons_append, List.cons_prefix_cons] at begins
      exact unbraced (begins.2.2.1 ▸ by simp)

theorem comment_finds (stretch : Stretch) (rest : Text) :
    (∃ captured : Text, [] = stretch.uncommented.print ∧
      Directive.comment.run? (stretch.print ++ rest) =
        some ⟨stretch.print, captured, rest⟩) ∨
    (stretch.uncommented.print = stretch.print ∧
      Directive.comment.Absent stretch.print rest) := by
  have opened : Opened "\x7b\x7b--".toList Directive.comment := Opened.ofBetween _ _ _
  have quieted : ∃ opening ∈ ["\x7b\x7b", "\x7b!!"],
      opening.toList <+: "\x7b\x7b--".toList := by
    decide
  cases stretch with
  | quiet text isQuiet => exact .inr ⟨rfl, absent_of_quiet opened quieted isQuiet rest⟩
  | comment text =>
      exact .inl ⟨plainText text, rfl,
        between_run? (by decide) (by decide) (commentEnd_absent text rest)⟩
  | escaped expression =>
      refine .inr ⟨rfl, expression.echoed.absent_from_escaped opened quieted ?_ rest⟩
      intro tail
      have mark : "\x7b\x7b--".toList = ['\x7b', '\x7b', '-', '-'] := by decide
      simp [mark]
  | unescaped expression =>
      have parts : Passage.print (.unescaped expression) =
          '\x7b' :: ("!!".toList ++ (spaced expression.text ++ "!!\x7d".toList)) :=
        rfl
      have quietTail : Text.isQuiet
          ("!!".toList ++ (spaced expression.text ++ "!!\x7d".toList)) = true :=
        Text.isQuiet_append (by decide)
          (spaced_quiet expression.echoed.isUnmarked (by decide) (by decide))
      have absent : Directive.comment.Absent (Passage.print (.unescaped expression)) rest := by
        rw [parts]
        refine Absent.cons (run?_eq_none_of_opened opened ?_)
          (absent_of_quiet opened quieted quietTail rest)
        intro begins
        have second := (List.cons_prefix_cons.mp (List.cons_prefix_cons.mp begins).2).1
        cases second
      exact .inr ⟨rfl, absent⟩

/-- The last passes replace every stretch by its code. -/
theorem echoes_of_stretches (stretches : List Stretch) :
    Echo.interpolate .output (Directive.dropComments (stretches.flatMap Stretch.print)) =
      stretches.flatMap Stretch.code := by
  have comments : Directive.dropComments (stretches.flatMap Stretch.print) =
      (stretches.map Stretch.uncommented).flatMap EchoRow.Piece.print := by
    rw [List.flatMap_map]
    exact replace_flatMap fun stretch _ _ => comment_finds stretch _
  have separated : Echo.Mode.output = .bare →
      EchoRow.Separated (stretches.map Stretch.uncommented) := nofun
  rw [comments, EchoRow.interpolate_eq, EchoRow.replace_unescaped,
    EchoRow.replace_escaped separated, List.flatMap_map]
  apply List.flatMap_congr
  intro stretch _
  cases stretch with
  | _ => rfl

end Scriptlet.Template
