import Scriptlet.Pattern.Search
import Scriptlet.Proofs.Pattern.Absence
import Scriptlet.Proofs.Text.Words

/-!
# Patterns of named directives

A directive pattern is found only where its name stands behind a sign, and most of
them only where an opening parenthesis follows the name.  So the words of a text
tell which directives cannot be in it.
-/

namespace Scriptlet.Pattern

variable {α β : Type}

/-- Finds of the pattern have this name behind the sign. -/
def Named (name : Text) (pattern : Pattern '@' α) : Prop :=
  ∀ tail found, pattern.run? ('@' :: tail) = some found →
    name.map Text.fold <+: tail.map Text.fold

/-- Finds of the pattern have this name and an opening parenthesis behind the
sign. -/
def Called (name : Text) (pattern : Pattern '@' α) : Prop :=
  ∀ tail found, pattern.run? ('@' :: tail) = some found →
    ∃ written rest, tail = written ++ '(' :: rest ∧
      written.map Text.fold = name.map Text.fold

theorem bare_run? (name tail : Text) :
    (bare name).run? ('@' :: tail) =
      (Text.cutWord? name tail).map fun cut => ⟨'@' :: cut.1, (), cut.2⟩ := by
  simp only [bare, map, andThen, exactly, Scan.map, Scan.andThen, Scan.exactly, Scan.word,
    if_true, Option.bind_some, Option.map_map]
  rfl

theorem andThen_run?_eq_some {first : Char} {pattern : Pattern first α} {scan : Scan β}
    {text : Text} {found : Found (α × β)} :
    (pattern.andThen scan).run? text = some found ↔
      ∃ head next, pattern.run? text = some head ∧ scan.run? head.rest = some next ∧
        found = ⟨head.written ++ next.written, (head.captured, next.captured),
          next.rest⟩ := by
  simp only [andThen, Scan.andThen, Option.bind_eq_some_iff, Option.map_eq_some_iff]
  constructor
  · rintro ⟨head, headFound, next, nextFound, rfl⟩
    exact ⟨head, next, headFound, nextFound, rfl⟩
  · rintro ⟨head, next, headFound, nextFound, rfl⟩
    exact ⟨head, headFound, next, nextFound, rfl⟩

theorem map_run?_eq_some {first : Char} {pattern : Pattern first α} {change : α → β}
    {text : Text} {found : Found β} :
    (pattern.map change).run? text = some found ↔
      ∃ inner, pattern.run? text = some inner ∧
        found = ⟨inner.written, change inner.captured, inner.rest⟩ := by
  simp only [map, Scan.map, Option.map_eq_some_iff]
  constructor
  · rintro ⟨inner, innerFound, rfl⟩
    exact ⟨inner, innerFound, rfl⟩
  · rintro ⟨inner, innerFound, rfl⟩
    exact ⟨inner, innerFound, rfl⟩

/-- Replacing what is made of the captures is replacing the captures. -/
theorem replace_map {first : Char} (pattern : Pattern first α) (change : α → β)
    (replacement : β → Text) (text : Text) :
    (pattern.map change).replace replacement text =
      pattern.replace (fun captured => replacement (change captured)) text := by
  induction text using pattern.search_induction with
  | nil => rw [replace_nil, replace_nil]
  | found text found recognised induction =>
      have changed : (pattern.map change).run? text =
          some ⟨found.written, change found.captured, found.rest⟩ :=
        map_run?_eq_some.mpr ⟨found, recognised, rfl⟩
      rw [(pattern.map change).replace_of_found replacement changed,
        pattern.replace_of_found _ recognised, induction]
  | absent head tail unrecognised induction =>
      have absent : (pattern.map change).run? (head :: tail) = none := by
        simp only [map, Scan.map, unrecognised, Option.map_none]
      rw [(pattern.map change).replace_of_absent replacement absent,
        pattern.replace_of_absent _ unrecognised, induction]

namespace Named

theorem ofBare (name : Text) : Named name (bare name) := by
  intro tail found recognised
  rw [bare_run?, Option.map_eq_some_iff] at recognised
  obtain ⟨⟨written, rest⟩, cut, -⟩ := recognised
  obtain ⟨whole, spelled⟩ := Text.cutWord?_eq_some cut
  rw [whole, List.map_append, spelled]
  exact List.prefix_append _ _

theorem map {name : Text} {pattern : Pattern '@' α} (named : Named name pattern)
    (change : α → β) : Named name (pattern.map change) := by
  intro tail found recognised
  obtain ⟨inner, innerFound, -⟩ := map_run?_eq_some.mp recognised
  exact named tail inner innerFound

theorem andThen {name : Text} {pattern : Pattern '@' α} (named : Named name pattern)
    (scan : Scan β) : Named name (pattern.andThen scan) := by
  intro tail found recognised
  obtain ⟨head, next, headFound, -, -⟩ := andThen_run?_eq_some.mp recognised
  exact named tail head headFound

theorem keepingWritten {name : Text} {pattern : Pattern '@' α} (named : Named name pattern) :
    Named name pattern.keepingWritten := by
  intro tail found recognised
  simp only [Pattern.keepingWritten, Option.map_eq_some_iff] at recognised
  obtain ⟨inner, innerFound, -⟩ := recognised
  exact named tail inner innerFound

/-- A directive is absent where its name begins no word. -/
theorem absent {name : Text} {pattern : Pattern '@' α} (named : Named name pattern)
    {passage rest : Text}
    (elsewhere : ∀ tail, ('@' :: tail) <:+ passage →
      ¬ name.map Text.fold <+: (tail ++ rest).map Text.fold) :
    pattern.Absent passage rest := by
  intro tail suffix nonempty
  cases tail with
  | nil => exact absurd rfl nonempty
  | cons head tail =>
      by_cases sign : head = '@'
      · subst sign
        cases recognised : pattern.run? ('@' :: tail ++ rest) with
        | none => rfl
        | some found => exact absurd (named _ _ recognised) (elsewhere tail suffix)
      · exact pattern.run?_eq_none_of_ne sign _

/-- A directive is absent where the only sign stands before something else than its
name. -/
theorem absent_of_apart {name : Text} {pattern : Pattern '@' α} (named : Named name pattern)
    {start further : Text} (unsigned : '@' ∉ start ++ further)
    (apart : ¬ name.map Text.fold <+: start.map Text.fold ∧
      ¬ start.map Text.fold <+: name.map Text.fold) (rest : Text) :
    pattern.Absent ('@' :: (start ++ further)) rest := by
  have none : pattern.run? ('@' :: (start ++ further ++ rest)) = none := by
    cases recognised : pattern.run? ('@' :: (start ++ further ++ rest)) with
    | none => rfl
    | some found =>
        have begins := named _ found recognised
        rw [List.append_assoc, List.map_append] at begins
        rcases List.prefix_or_prefix_of_prefix begins (List.prefix_append _ _) with
          shorter | longer
        · exact absurd shorter apart.1
        · exact absurd longer apart.2
  exact Absent.cons none (Absent.of_notMem unsigned)

/-- A directive is absent from a text if its name begins none of the words. -/
theorem absent_of_words {name : Text} {pattern : Pattern '@' α} (named : Named name pattern)
    (letters : ∀ character ∈ name, Text.isLetter character)
    {text : Text} (unused : ∀ word ∈ Text.words text, ¬ name.map Text.fold <+: word) :
    pattern.Absent text [] := by
  apply named.absent
  intro tail suffix begins
  rw [List.append_nil] at begins
  exact unused _ (Text.mem_words_of_suffix suffix)
    (Text.prefix_takeWhile_letters letters begins)

end Named

namespace Called

theorem named {name : Text} {pattern : Pattern '@' α} (called : Called name pattern) :
    Named name pattern := by
  intro tail found recognised
  obtain ⟨written, rest, rfl, spelled⟩ := called tail found recognised
  rw [List.map_append, spelled]
  exact List.prefix_append _ _

theorem ofBare (name : Text) (scan : Scan α) :
    Called name ((bare name).andThen ((Scan.exactly '(').andThen scan)) := by
  intro tail found recognised
  obtain ⟨head, next, headFound, nextFound, -⟩ := andThen_run?_eq_some.mp recognised
  rw [bare_run?, Option.map_eq_some_iff] at headFound
  obtain ⟨⟨written, rest⟩, cut, rfl⟩ := headFound
  obtain ⟨whole, spelled⟩ := Text.cutWord?_eq_some cut
  cases rest with
  | nil => simp [Scan.andThen, Scan.exactly] at nextFound
  | cons opening rest =>
      by_cases parenthesis : opening = '('
      · subst parenthesis
        exact ⟨written, rest, whole, spelled⟩
      · simp [Scan.andThen, Scan.exactly, parenthesis] at nextFound

theorem map {name : Text} {pattern : Pattern '@' α} (called : Called name pattern)
    (change : α → β) : Called name (pattern.map change) := by
  intro tail found recognised
  obtain ⟨inner, innerFound, -⟩ := map_run?_eq_some.mp recognised
  exact called tail inner innerFound

theorem andThen {name : Text} {pattern : Pattern '@' α} (called : Called name pattern)
    (scan : Scan β) : Called name (pattern.andThen scan) := by
  intro tail found recognised
  obtain ⟨head, next, headFound, -, -⟩ := andThen_run?_eq_some.mp recognised
  exact called tail head headFound

theorem withArgument (name : Text) : Called name (withArgument name) :=
  (ofBare name _).map _

theorem withSomeArgument (name : Text) : Called name (withSomeArgument name) :=
  (ofBare name _).map _

theorem withKeyAndValue (name : Text) : Called name (withKeyAndValue name) :=
  (ofBare name _).map _

theorem blockOf {name : Text} {opening : Pattern '@' α} (called : Called name opening)
    (ending : Text) : Called name (blockOf opening ending) :=
  (called.andThen _).map _

end Called

end Scriptlet.Pattern
