import Mathlib.Algebra.GroupWithZero.Nat
import Scriptlet.Proofs.Compilation.Frames
import Scriptlet.Proofs.Compilation.Run
import Scriptlet.Proofs.Text.Occurrences

/-!
# Directives that are left over

A pass only replaces what begins with one of its own names.  So a directive that no earlier
pass took is still there behind every pass whose names are apart from its own: in the text
between the uses, and also in their arguments, which the code of a directive takes over.  Only
what is compiled anew, filled or commented out may go with the text around it.
-/

namespace Scriptlet

open Text (occurrences)

variable {word : Text}

namespace Text

theorem unsigned_of_letters {text : Text} (letters : ∀ character ∈ text, isLetter character) :
    '@' ∉ text := by
  intro member
  have letter := letters '@' member
  revert letter
  decide

/-- Where a name is spelled, no word stands that is apart from it. -/
theorem sign_not_begins {name spelled : Text} (folded : spelled.map fold = name.map fold)
    (apart : Apart name word) (rest : Text) : ¬ '@' :: word <+: '@' :: (spelled ++ rest) := by
  intro begins
  have inside := (List.cons_prefix_cons.mp begins).2
  rcases List.prefix_or_prefix_of_prefix inside (List.prefix_append spelled rest) with
    shorter | longer
  · exact apart.2 (folded ▸ shorter.map fold)
  · exact apart.1 (folded ▸ longer.map fold)

/-- A word does not go across the end of a name, unless the name begins the word and the word
goes on. -/
theorem occurrences_append_of_spelled {name spelled : Text}
    (folded : spelled.map fold = name.map fold)
    (limits : name.map fold <+: word.map fold → word.length ≤ name.length)
    (unsigned : '@' ∉ spelled) (wordUnsigned : '@' ∉ word) (front rest : Text) :
    occurrences ('@' :: word) (front ++ '@' :: spelled ++ rest) =
      occurrences ('@' :: word) (front ++ '@' :: spelled) +
        occurrences ('@' :: word) rest := by
  apply occurrences_append
  intro before into whole nonempty filled suffix _
  cases before with
  | nil => exact nonempty rfl
  | cons head before =>
      obtain ⟨rfl, wordEq⟩ := List.cons.inj whole
      rcases sign_suffix_append suffix with inName | ⟨inside, -, beforeEq⟩
      · rcases List.suffix_cons_iff.mp inName with same | further
        · obtain ⟨-, rfl⟩ := List.cons.inj same
          have begins : before <+: word := wordEq ▸ List.prefix_append before into
          have short := limits (folded ▸ begins.map fold)
          have sameLength : before.length = name.length := by
            simpa using congrArg List.length folded
          have some := List.length_pos_iff.mpr filled
          have parts : word.length = before.length + into.length := by
            rw [← List.length_append]
            exact congrArg List.length wordEq
          omega
        · exact unsigned (further.subset List.mem_cons_self)
      · rw [wordEq, beforeEq] at wordUnsigned
        simp at wordUnsigned

end Text

namespace Pattern

variable {first : Char} {α : Type} {pattern : Pattern first α} {passage text : Text}

/-- No occurrence of the passage begins in a find and goes on behind it. -/
def Encloses (passage : Text) (pattern : Pattern first α) : Prop :=
  ∀ ⦃text found⦄, pattern.run? text = some found →
    occurrences passage text =
      occurrences passage found.written + occurrences passage found.rest

namespace Encloses

theorem map {β : Type} (encloses : pattern.Encloses passage) (change : α → β) :
    (pattern.map change).Encloses passage := by
  intro text found recognised
  obtain ⟨inner, innerFound, rfl⟩ := map_run?_eq_some.mp recognised
  exact encloses innerFound

theorem of_last {last : Char} (ends : pattern.EndsWith last) (unused : last ∉ passage) :
    pattern.Encloses passage := by
  intro text found recognised
  rw [pattern.whole recognised]
  exact Text.occurrences_append_of_last (ends recognised) unused

theorem bare {name : Text}
    (limits : name.map Text.fold <+: word.map Text.fold → word.length ≤ name.length)
    (letters : ∀ character ∈ name, Text.isLetter character) (wordUnsigned : '@' ∉ word) :
    (bare name).Encloses ('@' :: word) := by
  intro text found recognised
  obtain ⟨spelled, folded, written, -⟩ := bare_run?_eq_some.mp recognised
  have spelledUnsigned : '@' ∉ spelled :=
    Text.unsigned_of_letters (Text.isLetter_of_map_fold_eq folded letters)
  rw [(Pattern.bare name).whole recognised, written]
  exact Text.occurrences_append_of_spelled folded limits spelledUnsigned wordUnsigned [] found.rest

theorem blockOf {ending : Text}
    (limits : ending.map Text.fold <+: word.map Text.fold → word.length ≤ ending.length)
    (letters : ∀ character ∈ ending, Text.isLetter character) (wordUnsigned : '@' ∉ word) :
    (blockOf pattern ending).Encloses ('@' :: word) := by
  intro text found recognised
  obtain ⟨head, closing, -, -, folded, written, -, -⟩ := exists_of_blockOf recognised
  have closingUnsigned : '@' ∉ closing :=
    Text.unsigned_of_letters (Text.isLetter_of_map_fold_eq folded letters)
  rw [(Pattern.blockOf pattern ending).whole recognised, written, ← List.append_assoc]
  exact Text.occurrences_append_of_spelled folded limits closingUnsigned wordUnsigned _ found.rest

end Encloses

variable {mark : Char} (unmarked : first ∉ word)

include unmarked

private theorem occurrences_of_firstUse? (encloses : pattern.Encloses (mark :: word))
    {use : Nat × Found α} (used : pattern.firstUse? 0 text = some use) :
    occurrences (mark :: word) text = occurrences (mark :: word) (text.take use.1) +
      (occurrences (mark :: word) use.2.written + occurrences (mark :: word) use.2.rest) := by
  have recognised := pattern.run?_of_firstUse? used
  have inUse := encloses recognised
  have whole := pattern.whole recognised
  have parts : text = text.take use.1 ++ text.drop use.1 := (List.take_append_drop _ _).symm
  rw [← inUse]
  conv_lhs => rw [parts]
  apply Text.occurrences_append
  intro before into passageEq nonempty filled _ begins
  cases before with
  | nil => exact nonempty rfl
  | cons head before =>
      have begun := pattern.head?_of_run? recognised
      cases into with
      | nil => exact filled rfl
      | cons character into =>
          obtain ⟨rest, restEq⟩ := begins
          rw [← restEq] at begun
          cases begun
          obtain ⟨-, wordEq⟩ := List.cons.inj passageEq
          exact unmarked (wordEq ▸ List.mem_append_right before List.mem_cons_self)

/-- Replacing takes out the occurrences in what it replaces, as far as the replacements do not
have them. -/
theorem occurrences_replace_le (encloses : pattern.Encloses (mark :: word))
    (replacement : α → Text) (text : Text) :
    occurrences (mark :: word) text ≤
      occurrences (mark :: word) (pattern.replace replacement text) +
        ((pattern.uses text).map fun use => occurrences (mark :: word) use.written -
          occurrences (mark :: word) (replacement use.captured)).sum := by
  fun_induction uses pattern text with
  | case1 text unused =>
      rw [pattern.replace_of_firstUse?_none replacement unused]
      exact Nat.le_add_right _ _
  | case2 text use used shorter induction =>
      have split := occurrences_of_firstUse? unmarked encloses used
      have front := Text.occurrences_append_le (mark :: word) (text.take use.1)
        (replacement use.2.captured ++ pattern.replace replacement use.2.rest)
      have back := Text.occurrences_append_le (mark :: word) (replacement use.2.captured)
        (pattern.replace replacement use.2.rest)
      rw [pattern.replace_of_firstUse?_some replacement used, List.map_cons, List.sum_cons]
      omega

/-- Replacements that keep the occurrences in what they replace lose none. -/
theorem occurrences_le_replace (encloses : pattern.Encloses (mark :: word))
    {replacement : α → Text}
    (kept : ∀ tail found, pattern.run? tail = some found →
      occurrences (mark :: word) found.written ≤
        occurrences (mark :: word) (replacement found.captured)) (text : Text) :
    occurrences (mark :: word) text ≤
      occurrences (mark :: word) (pattern.replace replacement text) := by
  have bounded := occurrences_replace_le unmarked encloses replacement text
  have none : ((pattern.uses text).map fun use => occurrences (mark :: word) use.written -
      occurrences (mark :: word) (replacement use.captured)).sum = 0 := by
    rw [List.sum_eq_zero_iff_forall_eq_nat, List.forall_mem_map]
    exact forall_uses (fun tail found recognised =>
      Nat.sub_eq_zero_of_le (kept tail found recognised)) text
  rwa [none, Nat.add_zero] at bounded

theorem occurrences_replaceM_le (encloses : pattern.Encloses (mark :: word))
    {replacement : α → Compilation Text} {context after : Context} {result : Text}
    (ran : (pattern.replaceM replacement text).run context = some (result, after)) :
    occurrences (mark :: word) text ≤ occurrences (mark :: word) result +
      ((pattern.uses text).map fun use => occurrences (mark :: word) use.written).sum := by
  fun_induction uses pattern text generalizing context result with
  | case1 text unused =>
      rw [pattern.replaceM_of_firstUse?_none replacement unused] at ran
      obtain ⟨rfl, -⟩ := Compilation.run_pure_eq_some.mp ran
      exact Nat.le_add_right _ _
  | case2 text use used shorter induction =>
      rw [pattern.replaceM_of_firstUse?_some replacement used] at ran
      obtain ⟨replaced, middle, -, ran⟩ := Compilation.run_bind_eq_some.mp ran
      obtain ⟨rest, final, restRan, ran⟩ := Compilation.run_bind_eq_some.mp ran
      obtain ⟨rfl, rfl⟩ := Compilation.run_pure_eq_some.mp ran
      have split := occurrences_of_firstUse? unmarked encloses used
      have further := induction restRan
      have front := Text.occurrences_append_le (mark :: word) (text.take use.1)
        (replaced ++ rest)
      have back := Text.occurrences_append_le (mark :: word) replaced rest
      rw [List.map_cons, List.sum_cons]
      omega

theorem occurrences_le_replaceEach {patterns : List (Pattern first Text)}
    (encloses : ∀ pattern ∈ patterns, pattern.Encloses (mark :: word))
    (kept : ∀ pattern ∈ patterns, ∀ tail found, pattern.run? tail = some found →
      occurrences (mark :: word) found.written ≤ occurrences (mark :: word) found.captured)
    (text : Text) :
    occurrences (mark :: word) text ≤ occurrences (mark :: word) (replaceEach patterns text) := by
  rw [replaceEach_eq_foldl]
  induction patterns generalizing text with
  | nil => exact Nat.le_refl _
  | cons pattern patterns induction =>
      rw [List.forall_mem_cons] at encloses kept
      exact (occurrences_le_replace unmarked encloses.1 kept.1 text).trans
        (induction encloses.2 kept.2 _)

end Pattern

namespace Code

theorem isInfix_statement (code : Text) : code <:+: statement code :=
  ⟨opening, closing, rfl⟩

theorem isInfix_openBlock (head : Text) : head <:+: openBlock head :=
  (List.prefix_append head _).isInfix.trans (isInfix_statement _)

theorem isInfix_nextBlock (head : Text) : head <:+: nextBlock head :=
  List.IsInfix.trans ⟨"\x7d ".toList, " \x7b".toList, rfl⟩ (isInfix_statement _)

theorem isInfix_formCall (method arguments : Text) : arguments <:+: formCall method arguments :=
  ⟨"form.".toList ++ method ++ "(".toList, ")".toList, rfl⟩

end Code

theorem Echo.Mode.isInfix_code (mode : Mode) (expression : Text) :
    expression <:+: mode.code expression := by
  cases mode with
  | output => exact ⟨"<%- ".toList, Code.closing, rfl⟩
  | bare => exact List.infix_rfl

namespace Directive

open Pattern Text

/-- The code of an entry has all occurrences of the passage that its argument has. -/
def Entry.Keeps (passage : Text) : Entry → Prop
  | .argument _ code => ∀ argument,
      occurrences passage argument ≤ occurrences passage (code argument)
  | .word _ _ => True

private theorem isInfix_existenceHead (expression : Text) :
    expression <:+: existenceHead expression :=
  ⟨"if (typeof (".toList ++ expression ++ ") !== \"undefined\" && (".toList, ") !== null)".toList,
    rfl⟩

private theorem isInfix_methodField (method : Text) : method <:+: methodField method := by
  have quoted : method <:+: inQuotes method := ⟨['"'], ['"'], by simp [inQuotes]⟩
  exact quoted.trans
    ⟨"<input type=\"hidden\" name=\"_method\" value=".toList, " />".toList, rfl⟩

private theorem isQuoting_other :
    ∀ character ∈ [' ', '\t', '\n', '\r', '\x00', '\x0b', '"', '\x27'], character ≠ '@' ∧
      isLetter character = false := by
  decide

/-- The marks of an echo have no part of the word. -/
theorem occurrences_of_between {first last : Char} {others closers : Text}
    (opened : '@' ∉ first :: others)
    (closed : ∀ character ∈ last :: closers, character ∉ '@' :: word) {text : Text}
    {found : Found Text}
    (recognised :
      (between (literal first others) (literal last closers)).run? text = some found) :
    occurrences ('@' :: word) found.written = occurrences ('@' :: word) found.captured := by
  rw [written_of_between recognised]
  exact occurrences_between _ opened closed

section Letters

variable (letters : ∀ character ∈ word, isLetter character)

include letters

theorem notMem_sign {special : Char} (sign : special ≠ '@') (other : isLetter special = false) :
    special ∉ '@' :: word := by
  intro member
  rcases List.mem_cons.mp member with same | inWord
  · exact sign same
  · rw [letters special inWord] at other
    cases other

theorem occurrences_trim (text : Text) :
    occurrences ('@' :: word) (trim text) = occurrences ('@' :: word) text := by
  apply occurrences_trimBy
  intro character member
  rcases List.mem_cons.mp member with rfl | inWord
  · decide
  · exact isBlank_of_isLetter (letters character inWord)

theorem occurrences_unquote (text : Text) :
    occurrences ('@' :: word) (unquote text) = occurrences ('@' :: word) text := by
  apply occurrences_trimBy
  intro character member
  cases quoting : isQuoting character with
  | false => rfl
  | true =>
      have special := isQuoting_other character (by simpa [isQuoting] using quoting)
      exact absurd member (notMem_sign letters special.1 special.2)

/-- What is written between quotes has the occurrences of the text. -/
theorem occurrences_le_quote (text : Text) :
    occurrences ('@' :: word) text ≤ occurrences ('@' :: word) (quote text) := by
  apply occurrences_quote_le
  intro character member
  rcases List.mem_cons.mp member with rfl | inWord
  · decide
  · exact escape_of_isLetter (letters character inWord)

/-- Code with the trimmed argument in it keeps the occurrences of the argument. -/
private theorem occurrences_le_of_trim {argument code : Text} (inside : trim argument <:+: code) :
    occurrences ('@' :: word) argument ≤ occurrences ('@' :: word) code := by
  rw [← occurrences_trim letters argument]
  exact occurrences_le_of_isInfix inside

private theorem occurrences_le_of_unquote {argument code : Text}
    (inside : unquote argument <:+: code) :
    occurrences ('@' :: word) argument ≤ occurrences ('@' :: word) code := by
  rw [← occurrences_unquote letters argument]
  exact occurrences_le_of_isInfix inside

private theorem unused_of_braces {closing : Text} (braces : ∀ character ∈ closing,
    character ∈ ['\x7d', '!', '-']) : ∀ character ∈ closing, character ∉ '@' :: word := by
  intro character member
  have special : ∀ other ∈ ['\x7d', '!', '-'], other ≠ '@' ∧ isLetter other = false := by
    decide
  have other := special character (braces character member)
  exact notMem_sign letters other.1 other.2

private theorem brace_unused : '\x7d' ∉ '@' :: word :=
  notMem_sign letters (by decide) (by decide)

private theorem brace_notMem : '\x7b' ∉ word := fun member =>
  notMem_sign letters (by decide) (by decide) (List.mem_cons_of_mem '@' member)

/-- Echoes take over all that their expressions have. -/
theorem occurrences_le_interpolate (mode : Echo.Mode) (text : Text) :
    occurrences ('@' :: word) text ≤ occurrences ('@' :: word) (Echo.interpolate mode text) := by
  have each : ∀ {first last : Char} {others closers : Text} (code : Text → Text),
      '@' ∉ first :: others → (∀ character ∈ last :: closers, character ∈ ['\x7d', '!', '-']) →
      (∀ expression, expression <:+: code expression) → ∀ tail found,
      ((between (literal first others) (literal last closers)).map
        fun echo => code (trim echo)).run? tail = some found →
      occurrences ('@' :: word) found.written ≤ occurrences ('@' :: word) found.captured := by
    intro first last others closers code opened closed holds tail found recognised
    obtain ⟨inner, innerFound, rfl⟩ := map_run?_eq_some.mp recognised
    rw [occurrences_of_between opened (unused_of_braces letters closed) innerFound]
    exact occurrences_le_of_trim letters (holds _)
  apply occurrences_le_replaceEach (brace_notMem letters)
  · rw [Echo.patterns]
    simp only [List.forall_mem_cons, List.not_mem_nil, false_implies, implies_true, and_true]
    exact ⟨(Encloses.of_last (EndsWith.between rfl) (brace_unused letters)).map _,
      (Encloses.of_last (EndsWith.between rfl) (brace_unused letters)).map _⟩
  · rw [Echo.patterns]
    simp only [List.forall_mem_cons, List.not_mem_nil, false_implies, implies_true, and_true]
    refine ⟨each mode.code (by decide) (by decide) mode.isInfix_code,
      each (fun echo => mode.code (Code.escapeCall echo)) (by decide) (by decide) ?_⟩
    intro expression
    exact List.IsInfix.trans ⟨"escapeHtml(".toList, ")".toList, rfl⟩ (mode.isInfix_code _)

private theorem keeps_block (name opening closing : Text) :
    (Entry.block name opening closing).Keeps ('@' :: word) := fun _ =>
  occurrences_le_of_trim letters
    (List.IsInfix.trans ⟨opening, closing, rfl⟩ (Code.isInfix_openBlock _))

private theorem keeps_jump (name statement : Text) :
    (Entry.argument name (conditionalJump statement)).Keeps ('@' :: word) := by
  intro argument
  apply occurrences_le_of_trim letters
  refine List.IsInfix.trans ⟨"if (".toList, ") \x7b ".toList ++ (statement ++ " \x7d".toList), ?_⟩
    (Code.isInfix_statement _)
  simp only [List.append_assoc]

/-- Form directives take over their arguments with the echoes in them lowered. -/
private theorem keeps_formStatement (name method : Text) :
    (Entry.argument name (formStatement method)).Keeps ('@' :: word) := by
  intro argument
  have inside : Echo.interpolate .bare (trim argument) <:+: formStatement method argument :=
    (Code.isInfix_formCall method _).trans
      ((List.prefix_append _ _).isInfix.trans (Code.isInfix_statement _))
  rw [← occurrences_trim letters argument]
  exact (occurrences_le_interpolate letters .bare _).trans (occurrences_le_of_isInfix inside)

theorem controlEntries_keep : ∀ entry ∈ controlEntries, entry.Keeps ('@' :: word) := by
  intro entry listed
  obtain ⟨method, -, rfl⟩ := List.mem_map.mp listed
  exact keeps_formStatement letters _ _

/-- All that entries capture goes over into their code. -/
theorem entries_keep {pass : Pass} {entries : List Entry} (follows : pass.entries? = some entries) :
    ∀ entry ∈ entries, entry.Keeps ('@' :: word) := by
  cases pass <;> cases follows
  all_goals
    simp only [environmentEntries, loopEntries, jumpEntries, conditionalEntries, caseLabelEntries,
      existenceEntries, rawCodeEntries, methodEntries, List.forall_mem_cons, List.not_mem_nil,
      false_implies, implies_true, and_true]
  case environment =>
    refine ⟨fun argument => ?_, trivial⟩
    rw [← occurrences_unquote letters argument]
    refine (occurrences_le_quote letters _).trans (occurrences_le_of_isInfix ?_)
    exact List.IsInfix.trans ⟨"if (env.ENVIRONMENT === ".toList, ")".toList, rfl⟩
      (Code.isInfix_openBlock _)
  case loops =>
    exact ⟨keeps_block letters _ _ _, trivial, keeps_block letters _ _ _, trivial,
      keeps_block letters _ _ _, trivial⟩
  case jumps =>
    exact ⟨keeps_jump letters _ _, keeps_jump letters _ _, trivial, trivial⟩
  case conditionals =>
    refine ⟨keeps_block letters _ _ _, fun argument => ?_, trivial, trivial⟩
    exact occurrences_le_of_trim letters
      (List.IsInfix.trans ⟨"else if (".toList, ")".toList, rfl⟩ (Code.isInfix_nextBlock _))
  case caseLabels =>
    refine ⟨fun argument => ?_, trivial⟩
    exact occurrences_le_of_trim letters
      (List.IsInfix.trans ⟨"case ".toList, ":".toList, rfl⟩ (Code.isInfix_statement _))
  case existenceGuards =>
    refine ⟨fun argument => ?_, trivial, keeps_block letters _ _ _, trivial⟩
    exact occurrences_le_of_trim letters
      ((isInfix_existenceHead _).trans (Code.isInfix_openBlock _))
  case method =>
    intro argument
    exact occurrences_le_of_unquote letters (isInfix_methodField _)
  all_goals exact ⟨trivial, trivial⟩

section Entries

variable {entry : Entry} (named : ∀ character ∈ entry.name, isLetter character)
  (apart : Apart entry.name word)

include named apart

theorem encloses_rule : entry.rule.Encloses ('@' :: word) := by
  cases entry with
  | argument name code =>
      have unused : ')' ∉ '@' :: word := notMem_sign letters (by decide) (by decide)
      exact (Encloses.of_last (EndsWith.withArgument name) unused).map code
  | word name code =>
      exact (Encloses.bare (fun begins => absurd begins apart.1) named
        (unsigned_of_letters letters)).map _

/-- An entry takes its argument over, and has no occurrence in its name. -/
theorem occurrences_le_of_rule (keeps : entry.Keeps ('@' :: word)) {text : Text}
    {found : Found Text} (recognised : entry.rule.run? text = some found) :
    occurrences ('@' :: word) found.written ≤ occurrences ('@' :: word) found.captured := by
  cases entry with
  | argument name code =>
      obtain ⟨inner, innerFound, rfl⟩ := map_run?_eq_some.mp recognised
      obtain ⟨spelled, folded, -, written, -⟩ := withArgument_run?_eq_some.mp innerFound
      have unsigned : '@' ∉ spelled ++ ['('] := by
        have spelledUnsigned := unsigned_of_letters (isLetter_of_map_fold_eq folded named)
        simp [spelledUnsigned]
      have unused : ∀ character ∈ [')'], character ∉ '@' :: word := by
        rw [List.forall_mem_singleton]
        exact notMem_sign letters (by decide) (by decide)
      have inWritten : occurrences ('@' :: word) inner.written =
          occurrences ('@' :: word) inner.captured := by
        have parts : spelled ++ '(' :: (inner.captured ++ [')']) =
            spelled ++ ['('] ++ (inner.captured ++ [')']) := by
          simp
        rw [written, called, occurrences_cons_of_elsewhere (sign_not_begins folded apart _),
          parts, occurrences_between _ unsigned unused]
      exact inWritten.le.trans (keeps inner.captured)
  | word name code =>
      obtain ⟨inner, innerFound, rfl⟩ := map_run?_eq_some.mp recognised
      obtain ⟨spelled, folded, written, -⟩ := bare_run?_eq_some.mp innerFound
      have elsewhere := sign_not_begins folded apart []
      have unsigned := unsigned_of_letters (isLetter_of_map_fold_eq folded named)
      rw [List.append_nil] at elsewhere
      rw [written, occurrences_cons_of_elsewhere elsewhere, occurrences_eq_zero unsigned]
      exact Nat.zero_le _

end Entries

/-- Entries that are apart from a word keep its occurrences, one entry after another. -/
theorem occurrences_le_replaceEach_entries {entries : List Entry}
    (named : ∀ entry ∈ entries, ∀ character ∈ entry.name, isLetter character)
    (apart : ∀ entry ∈ entries, Apart entry.name word)
    (keep : ∀ entry ∈ entries, entry.Keeps ('@' :: word)) (text : Text) :
    occurrences ('@' :: word) text ≤
      occurrences ('@' :: word) (replaceEach (entries.map Entry.rule) text) := by
  apply occurrences_le_replaceEach (unsigned_of_letters letters)
  · rw [List.forall_mem_map]
    exact fun entry listed => encloses_rule letters (named entry listed) (apart entry listed)
  · rw [List.forall_mem_map]
    exact fun entry listed _ _ => occurrences_le_of_rule letters (named entry listed)
      (apart entry listed) (keep entry listed)

end Letters

end Directive

end Scriptlet
