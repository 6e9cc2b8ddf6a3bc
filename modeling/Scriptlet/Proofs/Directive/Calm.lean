import Scriptlet.Proofs.Directive.Sealed
import Scriptlet.Proofs.Template.Codes

/-!
# Calm code

The codes of directives bring in no sign and end no comment, if their arguments do not, and
they begin and end with angle brackets.
-/

namespace Scriptlet

open Text

theorem Text.Edged.between {left right : Text} (first : ∃ edge ∈ edges, left.head? = some edge)
    (last : ∃ edge ∈ edges, right.getLast? = some edge) (middle : Text) :
    Edged (left ++ middle ++ right) where
  first := by
    obtain ⟨edge, listed, begins⟩ := first
    exact ⟨edge, listed, by rw [List.append_assoc, List.head?_append, begins, Option.some_or]⟩
  last := by
    obtain ⟨edge, listed, ends⟩ := last
    exact ⟨edge, listed, by rw [List.getLast?_append, ends, Option.some_or]⟩

namespace Code

variable {code head : Text}

theorem edged_statement (code : Text) : Edged (statement code) :=
  Edged.between (by decide) (by decide) code

theorem edged_output (expression : Text) : Edged (output expression) :=
  Edged.between (by decide) (by decide) expression

theorem calm_statement (calm : Calm code) : Calm (statement code) :=
  Calm.between (by decide) calm (by decide) (by decide) (by decide)

theorem calm_openBlock (calm : Calm head) : Calm (openBlock head) :=
  calm_statement (calm.append (by decide) (.inl ⟨' ', rfl, by decide⟩))

theorem calm_nextBlock (calm : Calm head) : Calm (nextBlock head) :=
  calm_statement (Calm.between (by decide) calm (by decide) (by decide) (by decide))

end Code

namespace Text

variable {text : Text}

section Escapes

variable {passage : Text} {change : Char → Text}
  (each : ∀ character, change character = [character] ∨
    change character ≠ [] ∧ ∀ special ∈ passage, special ∉ change character)

include each

private theorem prefix_of_flatMap {part : Text} (within : part ⊆ passage)
    (begins : part <+: text.flatMap change) : part <+: text := by
  induction text generalizing part with
  | nil => exact begins
  | cons head tail induction =>
      cases part with
      | nil => exact List.nil_prefix
      | cons first part =>
          rw [List.cons_subset] at within
          rw [List.flatMap_cons] at begins
          rcases each head with kept | ⟨nonempty, others⟩
          · rw [kept, List.singleton_append, List.cons_prefix_cons] at begins
            exact List.cons_prefix_cons.mpr ⟨begins.1, induction within.2 begins.2⟩
          · obtain ⟨other, rest, changed⟩ := List.exists_cons_of_ne_nil nonempty
            rw [changed, List.cons_append, List.cons_prefix_cons] at begins
            have member : first ∈ change head := by
              rw [changed, begins.1]
              exact List.mem_cons_self
            exact absurd member (others first within.1)

/-- A passage that changed characters have no part of is not brought in by them. -/
private theorem infix_of_flatMap (nonempty : passage ≠ [])
    (inside : passage <:+: text.flatMap change) : passage <:+: text := by
  induction text with
  | nil => exact inside
  | cons head tail induction =>
      rw [List.flatMap_cons] at inside
      rcases each head with kept | ⟨-, others⟩
      · rw [kept, List.singleton_append] at inside
        rcases List.infix_cons_iff.mp inside with begins | later
        · have whole : (head :: tail).flatMap change = head :: tail.flatMap change := by
            rw [List.flatMap_cons, kept, List.singleton_append]
          exact (prefix_of_flatMap each (List.Subset.refl passage) (whole ▸ begins)).isInfix
        · exact (induction later).trans (List.suffix_cons head tail).isInfix
      · have later : passage <:+: tail.flatMap change := by
          cases changed : change head with
          | nil => rwa [changed] at inside
          | cons first rest =>
              obtain ⟨last, ends⟩ : ∃ last, (change head).getLast? = some last := by
                rw [changed]
                exact ⟨_, List.getLast?_cons⟩
              have guarded : last ∉ passage := fun member =>
                others last member (List.mem_of_getLast? ends)
              rcases infix_of_guarded (.inr ⟨last, ends, guarded⟩) inside with inHead | inTail
              · obtain ⟨special, further, rfl⟩ := List.exists_cons_of_ne_nil nonempty
                exact absurd (inHead.subset List.mem_cons_self) (others special List.mem_cons_self)
              · exact inTail
        exact (induction later).trans (List.suffix_cons head tail).isInfix

end Escapes

/-- Escaping a character brings in no part of the end of a comment. -/
private theorem escape_cases (character : Char) :
    escape character = [character] ∨
      escape character ≠ [] ∧ ∀ special ∈ commentEnd, special ∉ escape character := by
  have digits : ∀ value < 16, ∀ special ∈ commentEnd, special ≠ hexDigit value := by
    decide
  unfold escape
  split_ifs
  iterate 7 next => exact .inr ⟨List.cons_ne_nil _ _, by decide⟩
  · refine .inr ⟨List.cons_ne_nil _ _, fun special listed => ?_⟩
    have others : ∀ special ∈ commentEnd, special ∉ ['\\', 'u', '0', '0'] := by decide
    have first := digits (character.toNat / 16) (by omega) special listed
    have second := digits (character.toNat % 16) (by omega) special listed
    simpa [first, second] using others special listed
  · exact .inl rfl

theorem calm_quote (calm : Calm text) : Calm (quote text) := by
  have escaped : Calm (text.flatMap escape) := by
    refine ⟨fun member => ?_, fun ended =>
      calm.unended (infix_of_flatMap escape_cases (by decide) ended)⟩
    obtain ⟨other, listed, inEscape⟩ := List.mem_flatMap.mp member
    exact calm.unsigned (eq_of_mem_escape (by decide) inEscape ▸ listed)
  have quoted : quote text = ['"'] ++ text.flatMap escape ++ ['"'] := by
    simp [quote, inQuotes]
  rw [quoted]
  exact Calm.between (by decide) escaped (by decide) (by decide) (by decide)

end Text

namespace Directive

open Pattern

/-- Code around the trimmed argument is calm if what is around it is. -/
private theorem tames_of_trim {code : Text → Text} (edged : ∀ argument, Edged (code argument))
    (calm : ∀ argument, Calm (trim argument) → Calm (code argument)) : Tames "@" code := by
  intro argument free unended
  have calmArgument : Calm argument := ⟨free '@' (by decide), unended⟩
  exact ⟨edged argument, calm argument (calmArgument.of_isInfix (trim_isInfix argument))⟩

private theorem tame_block {name opening closing : Text} (calmOpening : Calm opening)
    (calmClosing : Calm closing) (opened : ∃ last ∈ ['(', '"', ' '], opening.getLast? = some last)
    (closed : ∃ head ∈ [')', '"', ' ', ':', ';'], closing.head? = some head) :
    (Entry.block name opening closing).Tame "@" :=
  tames_of_trim (fun _ => Code.edged_statement _) fun _ calm =>
    Code.calm_openBlock (Calm.between calmOpening calm calmClosing opened closed)

private theorem tame_jump {name statement : Text} (calmStatement : Calm statement)
    (begins : ∃ head, statement.head? = some head ∧ head ∉ commentEnd) :
    (Entry.argument name (conditionalJump statement)).Tame "@" := by
  refine tames_of_trim (fun _ => Code.edged_statement _) fun argument calm => ?_
  apply Code.calm_statement
  have head : Calm ("if (".toList ++ trim argument ++ ") \x7b ".toList) :=
    Calm.between (by decide) calm (by decide) (by decide) (by decide)
  exact (head.append calmStatement (.inl begins)).append (by decide) (.inl ⟨' ', rfl, by decide⟩)

private theorem calm_existenceHead {expression : Text} (calm : Calm expression) :
    Calm (existenceHead expression) := by
  have tested : Calm ("if (typeof (".toList ++ expression ++
      ") !== \"undefined\" && (".toList) :=
    Calm.between (by decide) calm (by decide) (by decide) (by decide)
  exact Calm.between tested calm (by decide) ⟨'(', by decide, by rw [List.getLast?_append]; rfl⟩
    (by decide)

private theorem calm_methodField {method : Text} (calm : Calm method) :
    Calm (methodField method) := by
  have quoted : inQuotes method = ['"'] ++ method ++ ['"'] := by
    simp [inQuotes]
  have inside : Calm (inQuotes method) :=
    quoted ▸ Calm.between (by decide) calm (by decide) (by decide) (by decide)
  have front : Calm "<input type=\"hidden\" name=\"_method\" value=".toList := by decide
  exact (front.append inside (.inr ⟨'=', rfl, by decide⟩)).append (by decide)
    (.inl ⟨' ', rfl, by decide⟩)

private theorem edged_methodField (method : Text) : Edged (methodField method) :=
  Edged.between (by decide) (by decide) (inQuotes method)

/-- The code of every pass that follows rules is calm. -/
theorem entries_tame {pass : Pass} {entries : List Entry} (follows : pass.entries? = some entries) :
    ∀ entry ∈ entries, entry.Tame "@" := by
  have word : ∀ {name code : Text}, Edged code ∧ Calm code → (Entry.word name code).Tame "@" :=
    id
  cases pass <;> cases follows
  all_goals
    simp only [environmentEntries, loopEntries, jumpEntries, conditionalEntries, caseLabelEntries,
      existenceEntries, rawCodeEntries, methodEntries, List.forall_mem_cons, List.not_mem_nil,
      false_implies, implies_true, and_true]
  case environment =>
    refine ⟨fun argument free unended => ⟨Code.edged_statement _, Code.calm_openBlock ?_⟩,
      word (by decide)⟩
    have calm : Calm argument := ⟨free '@' (by decide), unended⟩
    exact Calm.between (by decide) (calm_quote (calm.of_isInfix (unquote_isInfix argument)))
      (by decide) (by decide) (by decide)
  case loops =>
    exact ⟨tame_block (by decide) (by decide) (by decide) (by decide), word (by decide),
      tame_block (by decide) (by decide) (by decide) (by decide), word (by decide),
      tame_block (by decide) (by decide) (by decide) (by decide), word (by decide)⟩
  case jumps =>
    exact ⟨tame_jump (by decide) ⟨_, rfl, by decide⟩, tame_jump (by decide) ⟨_, rfl, by decide⟩,
      word (by decide), word (by decide)⟩
  case conditionals =>
    refine ⟨tame_block (by decide) (by decide) (by decide) (by decide), ?_, word (by decide),
      word (by decide)⟩
    exact tames_of_trim (fun _ => Code.edged_statement _) fun _ calm =>
      Code.calm_nextBlock (Calm.between (by decide) calm (by decide) (by decide) (by decide))
  case caseLabels =>
    refine ⟨tames_of_trim (fun _ => Code.edged_statement _) fun _ calm => ?_, word (by decide)⟩
    exact Code.calm_statement
      (Calm.between (by decide) calm (by decide) (by decide) (by decide))
  case existenceGuards =>
    refine ⟨tames_of_trim (fun _ => Code.edged_statement _) fun _ calm => ?_, word (by decide),
      tame_block (by decide) (by decide) (by decide) (by decide), word (by decide)⟩
    exact Code.calm_openBlock (calm_existenceHead calm)
  case rawCode => exact ⟨word (by decide), word (by decide)⟩
  case method =>
    intro argument free unended
    have calm : Calm argument := ⟨free '@' (by decide), unended⟩
    exact ⟨edged_methodField _, calm_methodField (calm.of_isInfix (unquote_isInfix argument))⟩

/-- In arguments without a brace there is no echo to lower, so the code of forms is calm. -/
theorem tames_formStatement {method : Text}
    (calmMethod : Calm ("form.".toList ++ method ++ ['('])) :
    Tames "@\x7b" (formStatement method) := by
  intro argument free unended
  have calm : Calm argument := ⟨free '@' (by decide), unended⟩
  have unbraced : '\x7b' ∉ trim argument := fun member =>
    free '\x7b' (by decide) ((trim_isInfix argument).subset member)
  have lowered : Echo.interpolate .bare (trim argument) = trim argument :=
    replaceEach_of_absent_text fun _ _ => Absent.of_notMem unbraced
  have call : Calm (Code.formCall method (trim argument)) :=
    Calm.between calmMethod (calm.of_isInfix (trim_isInfix argument)) (by decide)
      ⟨'(', by decide, by rw [List.getLast?_append]; rfl⟩ (by decide)
  refine ⟨Code.edged_statement _, Code.calm_statement ?_⟩
  rw [lowered]
  exact call.append (by decide) (.inl ⟨';', rfl, by decide⟩)

theorem controlEntries_tame : ∀ entry ∈ controlEntries, entry.Tame "@\x7b" := by
  have methods : ∀ method ∈ ["input", "textarea", "submit", "button", "label", "select"],
      Calm ("form.".toList ++ method.toList ++ ['(']) := by
    decide
  intro entry listed
  obtain ⟨method, methodListed, rfl⟩ := List.mem_map.mp listed
  exact tames_formStatement (methods method methodListed)

end Directive

end Scriptlet
