import Scriptlet.Proofs.Pattern.Absence
import Scriptlet.Proofs.Pattern.Named

/-!
# Directives as they are written

A directive pattern finds what a view writes: the name behind the sign, spelled in any
letter case, and the argument between parentheses.  What follows is left alone.
-/

namespace Scriptlet

namespace Text

/-- `@name(argument)`. -/
def called (name argument : Text) : Text :=
  '@' :: (name ++ '(' :: (argument ++ [')']))

theorem called_append (name argument rest : Text) :
    called name argument ++ rest = '@' :: (name ++ '(' :: (argument ++ ')' :: rest)) := by
  simp [called]

theorem cutAt?_append {stop : Char} {before : Text} (absent : stop ∉ before) (after : Text) :
    cutAt? stop (before ++ stop :: after) = some (before, after) := by
  induction before with
  | nil => exact cutAt?_cons_self stop after
  | cons head tail induction =>
      rw [List.mem_cons, not_or] at absent
      rw [List.cons_append, cutAt?_cons_of_ne (Ne.symm absent.1), induction absent.2]
      rfl

end Text

namespace Scan

theorem exactly_run? (character : Char) (rest : Text) :
    (exactly character).run? (character :: rest) = some ⟨[character], (), rest⟩ := by
  simp [exactly]

theorem through_run? {stop : Char} {before : Text} (absent : stop ∉ before) (rest : Text) :
    (through stop).run? (before ++ stop :: rest) = some ⟨before ++ [stop], before, rest⟩ := by
  simp [through, Text.cutAt?_append absent]

theorem oneThenThrough_run? {stop : Char} (first : Char) {before : Text}
    (absent : stop ∉ before) (rest : Text) :
    (oneThenThrough stop).run? (first :: (before ++ stop :: rest)) =
      some ⟨first :: (before ++ [stop]), first :: before, rest⟩ := by
  simp [oneThenThrough, map, andThen, character, through_run? absent]

theorem run_run? {member : Char → Bool} {before : Text} (nonempty : before ≠ [])
    (members : ∀ character ∈ before, member character = true) {stop : Char}
    (other : member stop = false) (rest : Text) :
    (run member).run? (before ++ stop :: rest) = some ⟨before, before, stop :: rest⟩ := by
  have taken : (before ++ stop :: rest).takeWhile member = before := by
    rw [List.takeWhile_append_of_pos members, List.takeWhile_cons_of_neg (by simp [other]),
      List.append_nil]
  have dropped : (before ++ stop :: rest).dropWhile member = stop :: rest := by
    rw [List.dropWhile_append_of_pos members, List.dropWhile_cons_of_neg (by simp [other])]
  simp only [run, taken, dropped, if_neg nonempty]

theorem andThen_run? {α β : Type} {first : Scan α} {second : Scan β} {text : Text}
    {head : Found α} {next : Found β} (headFound : first.run? text = some head)
    (nextFound : second.run? head.rest = some next) :
    (first.andThen second).run? text =
      some ⟨head.written ++ next.written, (head.captured, next.captured), next.rest⟩ := by
  simp [andThen, headFound, nextFound]

end Scan

namespace Pattern

variable {α β : Type} {name written : Text}

/-- A directive is absent from another one with parentheses that is not its own. -/
theorem Named.absent_called {pattern : Pattern '@' α} (named : Named name pattern)
    (writtenUnsigned : '@' ∉ written) {argument : Text} (unsigned : '@' ∉ argument)
    (apart : ¬ name.map Text.fold <+: (written ++ ['(']).map Text.fold ∧
      ¬ (written ++ ['(']).map Text.fold <+: name.map Text.fold) (rest : Text) :
    pattern.Absent (Text.called written argument) rest := by
  have parts : Text.called written argument =
      '@' :: ((written ++ ['(']) ++ (argument ++ [')'])) := by
    simp [Text.called]
  rw [parts]
  apply named.absent_of_apart _ apart
  simp [writtenUnsigned, unsigned]

section Separate

variable {pattern : Pattern '@' α} {rest : Text}

/-- A directive is not found where a word is written that its name does not begin. -/
theorem Named.run?_eq_none (named : Named name pattern)
    (letters : ∀ character ∈ name, Text.isLetter character)
    (writtenLetters : ∀ character ∈ written, Text.isLetter character)
    (separate : Text.startsWithLetter rest = false)
    (apart : ¬ name.map Text.fold <+: written.map Text.fold) :
    pattern.run? ('@' :: (written ++ rest)) = none := by
  cases recognised : pattern.run? ('@' :: (written ++ rest)) with
  | none => rfl
  | some found =>
      have begins := Text.prefix_takeWhile_letters letters (named _ found recognised)
      rw [Text.takeWhile_letters writtenLetters separate] at begins
      exact absurd begins apart

/-- A directive with parentheses is only found where its own name is written and a
parenthesis follows. -/
theorem Called.run?_eq_none (called : Called name pattern)
    (letters : ∀ character ∈ name, Text.isLetter character)
    (writtenLetters : ∀ character ∈ written, Text.isLetter character)
    (separate : Text.startsWithLetter rest = false)
    (apart : rest.head? = some '(' → written.map Text.fold ≠ name.map Text.fold) :
    pattern.run? ('@' :: (written ++ rest)) = none := by
  cases recognised : pattern.run? ('@' :: (written ++ rest)) with
  | none => rfl
  | some found =>
      obtain ⟨spelled, further, whole, folded⟩ := called _ found recognised
      have spelledLetters := Text.isLetter_of_map_fold_eq folded letters
      have same : written = spelled := by
        rw [← Text.takeWhile_letters writtenLetters separate, whole]
        exact Text.takeWhile_letters spelledLetters rfl
      subst same
      have rest_eq := List.append_cancel_left whole
      exact absurd folded (apart (by rw [rest_eq]; rfl))

end Separate

theorem bare_run?_of_spelled (spelled : written.map Text.fold = name.map Text.fold)
    (rest : Text) :
    (bare name).run? ('@' :: (written ++ rest)) = some ⟨'@' :: written, (), rest⟩ := by
  rw [bare_run?, Text.cutWord?_append spelled]
  rfl

/-- A directive with its parentheses, whatever is recognised between them. -/
private theorem bare_andThen_run? (spelled : written.map Text.fold = name.map Text.fold)
    {scan : Scan α} {inside : Text} {next : Found α}
    (nextFound : scan.run? inside = some next) :
    ((bare name).andThen ((Scan.exactly '(').andThen scan)).run?
        ('@' :: (written ++ '(' :: inside)) =
      some ⟨'@' :: (written ++ '(' :: next.written), ((), (), next.captured), next.rest⟩ := by
  have opened := Scan.andThen_run? (Scan.exactly_run? '(' inside) nextFound
  have whole := andThen_run?_eq_some.mpr
    ⟨_, _, bare_run?_of_spelled spelled ('(' :: inside), opened, rfl⟩
  rw [whole]
  rfl

theorem withArgument_run? (spelled : written.map Text.fold = name.map Text.fold)
    {argument : Text} (closed : ')' ∉ argument) (rest : Text) :
    (withArgument name).run? (Text.called written argument ++ rest) =
      some ⟨Text.called written argument, argument, rest⟩ := by
  have found := bare_andThen_run? spelled (Scan.through_run? closed rest)
  rw [Text.called_append]
  exact map_run?_eq_some.mpr ⟨_, found, rfl⟩

theorem withSomeArgument_run? (spelled : written.map Text.fold = name.map Text.fold)
    (first : Char) {others : Text} (closed : ')' ∉ others) (rest : Text) :
    (withSomeArgument name).run? (Text.called written (first :: others) ++ rest) =
      some ⟨Text.called written (first :: others), first :: others, rest⟩ := by
  have found := bare_andThen_run? spelled (Scan.oneThenThrough_run? first closed rest)
  rw [Text.called_append]
  exact map_run?_eq_some.mpr ⟨_, found, rfl⟩

/-- A directive with an optional argument is found with all of an argument that is closed. -/
theorem withOptionalArgument_run? (spelled : written.map Text.fold = name.map Text.fold)
    {argument : Text} (closed : ')' ∉ argument) (rest : Text) :
    (withOptionalArgument name).run? (Text.called written argument ++ rest) =
      some ⟨Text.called written argument, some argument, rest⟩ := by
  have opened := Scan.andThen_run? (Scan.exactly_run? '(' (argument ++ ')' :: rest))
    (Scan.through_run? closed rest)
  have taken : ((Scan.exactly '(').andThen (Scan.through ')')).optional.run?
      ('(' :: (argument ++ ')' :: rest)) =
        some ⟨'(' :: (argument ++ [')']), some ((), argument), rest⟩ := by
    simp [Scan.optional, opened]
  have found := andThen_run?_eq_some.mpr
    ⟨_, _, bare_run?_of_spelled spelled ('(' :: (argument ++ ')' :: rest)), taken, rfl⟩
  rw [Text.called_append]
  exact map_run?_eq_some.mpr ⟨_, found, rfl⟩

/-- A directive with an optional argument is found without one where no parenthesis
follows its name. -/
theorem withOptionalArgument_run?_of_bare (spelled : written.map Text.fold = name.map Text.fold)
    {rest : Text} (bareUse : rest.head? ≠ some '(') :
    (withOptionalArgument name).run? ('@' :: (written ++ rest)) =
      some ⟨'@' :: written, none, rest⟩ := by
  have unopened : (Scan.exactly '(').run? rest = none := by
    cases rest with
    | nil => rfl
    | cons head tail =>
        have other : head ≠ '(' := by simpa using bareUse
        simp [Scan.exactly, other]
  have skipped : ((Scan.exactly '(').andThen (Scan.through ')')).optional.run? rest =
      some ⟨[], none, rest⟩ := by
    simp [Scan.optional, Scan.andThen, unopened]
  have found := andThen_run?_eq_some.mpr ⟨_, _, bare_run?_of_spelled spelled rest, skipped, rfl⟩
  rw [List.append_nil] at found
  exact map_run?_eq_some.mpr ⟨_, found, rfl⟩

theorem keepingWritten_run? {first : Char} {pattern : Pattern first α} {text : Text}
    {found : Found α} (recognised : pattern.run? text = some found) :
    pattern.keepingWritten.run? text =
      some ⟨found.written, (found.written, found.captured), found.rest⟩ := by
  simp [keepingWritten, recognised]

private def isKeyCharacter (character : Char) : Bool :=
  character ≠ ',' && character ≠ ')'

theorem withKeyAndValue_run? (spelled : written.map Text.fold = name.map Text.fold)
    {key : Text} (nonempty : key ≠ []) (plain : ∀ character ∈ key, character ∉ [',', ')'])
    (first : Char) {others : Text} (closed : ')' ∉ others) (rest : Text) :
    (withKeyAndValue name).run?
        (Text.called written (key ++ ',' :: first :: others) ++ rest) =
      some ⟨Text.called written (key ++ ',' :: first :: others), (key, first :: others),
        rest⟩ := by
  have keyCharacters : ∀ character ∈ key, isKeyCharacter character = true := by
    intro character member
    simpa [isKeyCharacter] using plain character member
  have value := Scan.oneThenThrough_run? first closed rest
  have comma := Scan.andThen_run? (Scan.exactly_run? ',' _) value
  have keyed := Scan.andThen_run?
    (Scan.run_run? nonempty keyCharacters (by decide : isKeyCharacter ',' = false) _) comma
  have found := bare_andThen_run? spelled keyed
  have whole : Text.called written (key ++ ',' :: first :: others) ++ rest =
      '@' :: (written ++ '(' :: (key ++ ',' :: (first :: (others ++ ')' :: rest)))) := by
    simp [Text.called]
  rw [whole]
  exact map_run?_eq_some.mpr ⟨_, found, by simp [Text.called]⟩

/-- An argument without a comma is no key with a value. -/
theorem withKeyAndValue_run?_of_key (spelled : written.map Text.fold = name.map Text.fold)
    {key : Text} (nonempty : key ≠ []) (plain : ∀ character ∈ key, character ∉ [',', ')'])
    (rest : Text) : (withKeyAndValue name).run? (Text.called written key ++ rest) = none := by
  have keyCharacters : ∀ character ∈ key, isKeyCharacter character = true := by
    intro character member
    simpa [isKeyCharacter] using plain character member
  have keyed := Scan.run_run? nonempty keyCharacters (by decide : isKeyCharacter ')' = false) rest
  have named := bare_run?_of_spelled spelled ('(' :: (key ++ ')' :: rest))
  have opened := Scan.exactly_run? '(' (key ++ ')' :: rest)
  have noComma : (Scan.exactly ',').run? (')' :: rest) = none := by
    simp [Scan.exactly]
  rw [Text.called_append, Option.eq_none_iff_forall_not_mem]
  intro found recognised
  obtain ⟨_, recognised, -⟩ := map_run?_eq_some.mp recognised
  obtain ⟨head, next, headFound, nextFound, -⟩ := andThen_run?_eq_some.mp recognised
  rw [named] at headFound
  cases headFound
  simp only [Scan.andThen, Option.bind_eq_some_iff, Option.map_eq_some_iff] at nextFound
  obtain ⟨_, parenthesis, _, ⟨_, keyFound, _, ⟨_, comma, _⟩, _⟩, _⟩ := nextFound
  rw [opened] at parenthesis
  cases parenthesis
  cases keyFound.symm.trans keyed
  rw [noComma] at comma
  cases comma

/-- The text up to an ending is found if the ending is absent from it. -/
theorem upTo_run? {first : Char} {ending : Pattern first α} {inside rest : Text}
    {last : Found α} (ended : ending.run? rest = some last) (absent : ending.Absent inside rest) :
    (upTo ending).run? (inside ++ rest) =
      some ⟨inside ++ last.written, (inside, last.captured), last.rest⟩ := by
  have used : ending.firstUse? 0 (inside ++ rest) = some (inside.length, last) := by
    rw [firstUse?_append absent, Nat.zero_add]
    exact ending.firstUse?_of_found ended inside.length
  simp [upTo, used]

/-- A block is found up to the first use of the directive that ends it. -/
theorem blockOf_run? {first : Char} {opening : Pattern first α} {ending closing : Text}
    (spelled : closing.map Text.fold = ending.map Text.fold)
    {text body rest : Text} {head : Found α}
    (opened : opening.run? text = some head)
    (follows : head.rest = body ++ '@' :: (closing ++ rest))
    (absent : (bare ending).Absent body ('@' :: (closing ++ rest))) :
    (blockOf opening ending).run? text =
      some ⟨head.written ++ (body ++ '@' :: closing), (head.captured, body), rest⟩ := by
  have ended := upTo_run? (bare_run?_of_spelled spelled rest) absent
  rw [← follows] at ended
  have whole := andThen_run?_eq_some.mpr ⟨_, _, opened, ended, rfl⟩
  exact map_run?_eq_some.mpr ⟨_, whole, rfl⟩

/-- A block is not found if the directive that ends it is absent behind its head. -/
theorem blockOf_run?_of_unended {first : Char} {opening : Pattern first α} {ending text : Text}
    {head : Found α} (opened : opening.run? text = some head)
    (absent : (bare ending).Absent head.rest []) :
    (blockOf opening ending).run? text = none := by
  have unended : (upTo (bare ending)).run? head.rest = none := by
    simp [upTo, firstUse?_of_absent_passage absent]
  rw [Option.eq_none_iff_forall_not_mem]
  intro found recognised
  obtain ⟨_, bothFound, -⟩ := map_run?_eq_some.mp recognised
  obtain ⟨other, _, otherOpened, ended, -⟩ := andThen_run?_eq_some.mp bothFound
  cases opened.symm.trans otherOpened
  cases unended.symm.trans ended

end Pattern

end Scriptlet
