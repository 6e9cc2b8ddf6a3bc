import Mathlib.Tactic.SplitIfs
import Scriptlet.Toml.Printer

/-!
# Strings of settings

A printed string is read back, in whichever style it is printed and whatever its characters
are.  Between three quotes the text itself may hold one or two quotes in a row, and these may
stand directly before the closing ones.
-/

namespace Scriptlet.Toml

/-- What may stand for a character between double quotes. -/
inductive WritesCharacter : Char → Text → Prop where
  | plain {character : Char} (unquoted : character ≠ '"') (unescaped : character ≠ '\\')
      (legible : isPlain character) : WritesCharacter character [character]
  | short (letter : Char) {character : Char} (known : escaped? letter = some character) :
      WritesCharacter character ['\\', letter]
  | numeric {character first second : Char} {firstValue secondValue : Nat}
      (firstKnown : Text.hexValue? first = some firstValue)
      (secondKnown : Text.hexValue? second = some secondValue)
      (code : firstValue * 16 + secondValue = character.toNat)
      (valid : isCodePoint character.toNat) :
      WritesCharacter character ['\\', 'u', '0', '0', first, second]

theorem escape_writes (character : Char) : WritesCharacter character (escape character) := by
  unfold escape
  split_ifs with backspace tab line feed carriage quote backslash control
  · exact .short 'b' (by rw [backspace]; rfl)
  · exact .short 't' (by rw [tab]; rfl)
  · exact .short 'n' (by rw [line]; rfl)
  · exact .short 'f' (by rw [feed]; rfl)
  · exact .short 'r' (by rw [carriage]; rfl)
  · exact .short '"' (by rw [quote]; rfl)
  · exact .short '\\' (by rw [backslash]; rfl)
  · have high := Text.hexValue?_upperHexDigit (character.toNat / 16) (by omega)
    have low := Text.hexValue?_upperHexDigit (character.toNat % 16) (by omega)
    have valid : isCodePoint character.toNat := by
      simp only [isCodePoint, Bool.or_eq_true, decide_eq_true_eq]
      omega
    exact .numeric high low (by omega) valid
  · have legible : isPlain character := by
      simp only [isPlain, Bool.or_eq_true, Bool.and_eq_true, decide_eq_true_eq]
      omega
    exact .plain quote backslash legible

/-- No letter of a short escape begins another kind of escape. -/
theorem escaped?_short {letter character : Char} (known : escaped? letter = some character) :
    letter ≠ 'u' ∧ letter ≠ 'U' ∧ letter ≠ '\n' ∧ letter ≠ '\r' ∧ isSpace letter = false := by
  unfold escaped? at known
  split at known
  all_goals first | decide | cases known

theorem hexValue?_zero : Text.hexValue? '0' = some 0 := by
  decide

theorem WritesCharacter.readBasic? {character : Char} {piece : Text}
    (writes : WritesCharacter character piece) (rest : Text) :
    readBasic? .plain (piece ++ rest) =
      (Toml.readBasic? .plain rest).map (withCharacter character) := by
  cases writes with
  | plain unquoted unescaped legible => simp [Toml.readBasic?, unquoted, unescaped, legible]
  | short letter known =>
      simp [Toml.readBasic?, escaped?_short known, known]
  | numeric firstKnown secondKnown code valid =>
      simp [Toml.readBasic?, hexValue?_zero, firstKnown, secondKnown, code, valid]

theorem WritesCharacter.readBasicLines? {character : Char} {piece : Text}
    (writes : WritesCharacter character piece) (rest : Text) :
    readBasicLines? .plain (piece ++ rest) =
      (Toml.readBasicLines? .plain rest).map (withCharacter character) := by
  cases writes with
  | plain unquoted unescaped legible =>
      have noReturn : character ≠ '\r' := by
        rintro rfl
        exact absurd legible (by decide)
      simp [Toml.readBasicLines?, unquoted, unescaped, legible, noReturn]
  | short letter known =>
      simp [Toml.readBasicLines?, escaped?_short known, known]
  | numeric firstKnown secondKnown code valid =>
      simp [Toml.readBasicLines?, hexValue?_zero, firstKnown, secondKnown, code, valid]

theorem readBasic?_flatMap_escape (text rest : Text) :
    readBasic? .plain (text.flatMap escape ++ '"' :: rest) = some (text, rest) := by
  induction text with
  | nil => simp [readBasic?]
  | cons character text induction =>
      rw [List.flatMap_cons, List.append_assoc, (escape_writes character).readBasic?, induction]
      rfl

theorem ne_cons_of_head? {first : Char} {text : Text} (other : text.head? ≠ some first)
    (further : Text) : text ≠ first :: further := by
  rintro rfl
  exact other rfl

/-- A reader of the text between three quotes of a kind. -/
structure ReadsLines (quote : Char) (read? : Text → Option (Text × Text)) : Prop where
  three : ∀ rest, read? (quote :: quote :: quote :: rest) = closeQuotes? quote rest
  single : ∀ {rest}, (∀ further, rest ≠ quote :: quote :: further) →
    read? (quote :: rest) = (read? rest).map (withCharacter quote)

namespace ReadsLines

variable {quote : Char} {read? : Text → Option (Text × Text)} (reads : ReadsLines quote read?)
  {count : Nat} {rest : Text}

include reads

/-- One or two quotes in front of another character are text. -/
theorem replicate (few : count ≤ 2) (other : rest.head? ≠ some quote) :
    read? (List.replicate count quote ++ rest) =
      (read? rest).map fun read => (List.replicate count quote ++ read.1, read.2) := by
  have apart := ne_cons_of_head? other
  match count with
  | 0 => simp
  | 1 => exact reads.single fun _ => apart _
  | 2 =>
      have apartOne (further : Text) : quote :: rest ≠ quote :: quote :: further :=
        fun same => apart further (List.cons.inj same).2
      rw [List.replicate_succ, List.cons_append, List.replicate_one, List.singleton_append,
        reads.single apartOne, reads.single fun _ => apart _, Option.map_map]
      rfl

/-- One or two quotes directly before the closing ones are text. -/
theorem close (few : count ≤ 2) (other : rest.head? ≠ some quote) :
    read? (List.replicate count quote ++ quote :: quote :: quote :: rest) =
      some (List.replicate count quote, rest) := by
  have row : List.replicate count quote ++ quote :: quote :: quote :: rest =
      quote :: quote :: quote :: (List.replicate count quote ++ rest) := by
    match count with
    | 0 => rfl
    | 1 => rfl
    | 2 => rfl
  have none : rest.takeWhile (· = quote) = [] := by
    cases rest with
    | nil => rfl
    | cons first rest => exact List.takeWhile_cons_of_neg (by simpa using other)
  have quotes : (List.replicate count quote ++ rest).takeWhile (· = quote) =
      List.replicate count quote := by
    rw [List.takeWhile_append_of_pos (by simp), none, List.append_nil]
  rw [row, reads.three, closeQuotes?, quotes]
  match count with
  | 0 => rfl
  | 1 => rfl
  | 2 => rfl

end ReadsLines

theorem readsLines_basic : ReadsLines '"' (readBasicLines? .plain) where
  three _ := by simp [readBasicLines?]
  single apart := by
    rw [readBasicLines?]
    · simp [isPlain]
    · simpa using apart
    · simp

theorem readsLines_literal : ReadsLines '\x27' readLiteralLines? where
  three _ := by simp [readLiteralLines?]
  single apart := by
    rw [readLiteralLines?]
    · simp [isPlain]
    · simpa using apart
    · simp

/-- A character is escaped by itself or by something that begins with a backslash. -/
theorem WritesCharacter.begins {character : Char} {piece : Text}
    (writes : WritesCharacter character piece) :
    (piece = [character] ∧ character ≠ '"' ∧ isPlain character) ∨
      ∃ letters, piece = '\\' :: letters := by
  cases writes with
  | plain unquoted _ legible => exact .inl ⟨rfl, unquoted, legible⟩
  | short _ _ => exact .inr ⟨_, rfl⟩
  | numeric _ _ _ _ => exact .inr ⟨_, rfl⟩

theorem head?_escape (character : Char) (further : Text) :
    (escape character ++ further).head? ≠ some '"' := by
  rcases (escape_writes character).begins with ⟨same, unquoted, -⟩ | ⟨letters, same⟩
  · simpa [same] using unquoted
  · simp [same]

/-- The induction is on the text, with the quotes directly before it still to be read, as it
depends on what follows whether they close the string. -/
theorem readBasicLines?_escapeLines {rest : Text} (other : rest.head? ≠ some '"') (text : Text) :
    ∀ {quotes}, quotes ≤ 2 →
      readBasicLines? .plain (List.replicate quotes '"' ++ (escapeLines quotes text ++
        '"' :: '"' :: '"' :: rest)) = some (List.replicate quotes '"' ++ text, rest) := by
  have reads := readsLines_basic
  induction text with
  | nil =>
      intro quotes few
      rw [escapeLines, List.nil_append, List.append_nil]
      exact reads.close few other
  | cons character text induction =>
      intro quotes few
      have start := induction (Nat.zero_le 2)
      rw [List.replicate_zero, List.nil_append, List.nil_append] at start
      have written {piece : Text} (apart : ∀ further, (piece ++ further).head? ≠ some '"')
          (read : ∀ further, readBasicLines? .plain (piece ++ further) =
            (readBasicLines? .plain further).map (withCharacter character)) :
          readBasicLines? .plain (List.replicate quotes '"' ++ ((piece ++ escapeLines 0 text) ++
            '"' :: '"' :: '"' :: rest)) =
              some (List.replicate quotes '"' ++ character :: text, rest) := by
        rw [List.append_assoc, reads.replicate few (apart _), read, start]
        rfl
      rw [escapeLines]
      split_ifs with quote room newline
      · have row := induction (Nat.succ_le_of_lt room)
        rw [List.replicate_succ', List.append_assoc, List.append_assoc] at row
        subst quote
        exact row
      · exact written (by simp) (WritesCharacter.short '"' (by rw [quote]; rfl)).readBasicLines?
      · have read (further : Text) : readBasicLines? .plain (['\n'] ++ further) =
            (readBasicLines? .plain further).map (withCharacter '\n') := by simp [readBasicLines?]
        subst newline
        exact written (by simp) read
      · exact written (head?_escape character) (escape_writes character).readBasicLines?

theorem readLiteral?_append {text : Text} (plain : ∀ character ∈ text, isPlain character)
    (unquoted : '\x27' ∉ text) (rest : Text) :
    readLiteral? (text ++ '\x27' :: rest) = some (text, rest) := by
  induction text with
  | nil => simp [readLiteral?]
  | cons character text induction =>
      rw [List.forall_mem_cons] at plain
      rw [List.mem_cons, not_or] at unquoted
      rw [List.cons_append, readLiteral?, if_neg (Ne.symm unquoted.1), if_pos plain.1,
        induction plain.2 unquoted.2]
      rfl

theorem hasThree_cons {mark first : Char} {text : Text} (three : hasThree mark text) :
    hasThree mark (first :: text) := by
  match text with
  | second :: third :: text => rw [hasThree, three, Bool.or_true]

theorem hasThree_append (before : Text) {mark : Char} {text : Text}
    (three : hasThree mark text) : hasThree mark (before ++ text) := by
  induction before with
  | nil => exact three
  | cons first before induction => exact hasThree_cons induction

/-- The induction is the one for escaped lines: quotes directly before the text are still to be
read. -/
theorem readLiteralLines?_append {rest : Text} (other : rest.head? ≠ some '\x27') {text : Text}
    (plain : ∀ character ∈ text, character = '\n' ∨ isPlain character) :
    ∀ {quotes}, quotes ≤ 2 → ¬ hasThree '\x27' (List.replicate quotes '\x27' ++ text) →
      readLiteralLines? (List.replicate quotes '\x27' ++ (text ++
        '\x27' :: '\x27' :: '\x27' :: rest)) =
          some (List.replicate quotes '\x27' ++ text, rest) := by
  have reads := readsLines_literal
  induction text with
  | nil =>
      intro quotes few _
      rw [List.nil_append, List.append_nil]
      exact reads.close few other
  | cons character text induction =>
      intro quotes few apart
      rw [List.forall_mem_cons] at plain
      by_cases quote : character = '\x27'
      · subst quote
        have more : quotes + 1 ≤ 2 := by
          rcases Nat.lt_or_eq_of_le few with fewer | rfl
          · exact fewer
          · exact absurd rfl apart
        have row := induction plain.2 more
        rw [List.replicate_succ', List.append_assoc, List.append_assoc] at row
        exact row apart
      · have apartBehind : ¬ hasThree '\x27' text := fun three =>
          apart (hasThree_append _ (hasThree_cons three))
        have start := induction plain.2 (Nat.zero_le 2) apartBehind
        rw [List.replicate_zero, List.nil_append, List.nil_append] at start
        have noReturn : character ≠ '\r' := by
          rintro rfl
          exact absurd plain.1 (by decide)
        have read :
            readLiteralLines? (character :: (text ++ '\x27' :: '\x27' :: '\x27' :: rest)) =
              some (character :: text, rest) := by
          rw [readLiteralLines?, if_pos (by simpa using plain.1), start]
          · rfl
          · simp [quote]
          · simp [noReturn]
        rw [List.cons_append, reads.replicate few (by simpa using quote), read]
        rfl

/-- A break behind the opening quotes is taken back, and where none is put the string does not
begin with one. -/
theorem skipFirstNewline_openingBreak {text body : Text}
    (apart : '\n' ∉ text → afterNewline? body = none) :
    skipFirstNewline (openingBreak text ++ body) = body := by
  unfold openingBreak
  split_ifs with lines
  · rfl
  · rw [List.nil_append, skipFirstNewline, apart (by simpa using lines)]
    rfl

namespace StringStyle

theorem verbatim_of {text : Text} (style : of text = verbatim) :
    (∀ character ∈ text, isPlain character) ∧ '\x27' ∉ text := by
  unfold of at style
  dsimp only at style
  split_ifs at style with bare apart
  simp only [Bool.and_eq_true, Bool.not_eq_true', List.all_eq_true, Bool.or_eq_true,
    decide_eq_true_eq, List.contains_eq_mem, decide_eq_false_iff_not] at apart
  obtain ⟨⟨legible, oneLine⟩, unquoted⟩ := apart
  refine ⟨fun character member => (legible character member).resolve_left ?_, unquoted⟩
  rintro rfl
  exact oneLine member

theorem verbatimLines_of {text : Text} (style : of text = verbatimLines) :
    (∀ character ∈ text, character = '\n' ∨ isPlain character) ∧ ¬ hasThree '\x27' text := by
  unfold of at style
  dsimp only at style
  split_ifs at style with bare apart quoted marked
  simp only [Bool.and_eq_true, Bool.not_eq_true', List.all_eq_true, Bool.or_eq_true,
    decide_eq_true_eq] at marked
  exact ⟨marked.1, ne_true_of_eq_false marked.2⟩

end StringStyle

theorem afterNewline?_cons {first : Char} (sameLine : first ≠ '\n') (noReturn : first ≠ '\r')
    (rest : Text) : afterNewline? (first :: rest) = none := by
  simp [afterNewline?, sameLine, noReturn]

/-- A text without breaks begins with none between three double quotes. -/
theorem afterNewline?_escapeLines {text : Text} (oneLine : '\n' ∉ text) (rest : Text) :
    afterNewline? (escapeLines 0 text ++ '"' :: rest) = none := by
  cases text with
  | nil => rfl
  | cons character text =>
      rw [escapeLines]
      split_ifs with quote room newline
      · rfl
      · rfl
      · exact absurd (newline ▸ List.mem_cons_self) oneLine
      · rcases (escape_writes character).begins with ⟨same, -, legible⟩ | ⟨letters, same⟩
        · rw [same]
          refine afterNewline?_cons newline ?_ _
          rintro rfl
          exact absurd legible (by decide)
        · rw [same]
          exact afterNewline?_cons (by decide) (by decide) _

/-- A text without breaks begins with none between three single quotes. -/
theorem afterNewline?_plain {text : Text}
    (plain : ∀ character ∈ text, character = '\n' ∨ isPlain character) (oneLine : '\n' ∉ text)
    (rest : Text) : afterNewline? (text ++ '\x27' :: rest) = none := by
  cases text with
  | nil => rfl
  | cons character text =>
      rw [List.mem_cons, not_or] at oneLine
      refine afterNewline?_cons (Ne.symm oneLine.1) ?_ _
      rintro rfl
      exact absurd (plain _ List.mem_cons_self) (by decide)

/-- A single quote of either kind opens a string on one line unless two more follow. -/
theorem readString?_basic {rest : Text} (apart : ∀ further, rest ≠ '"' :: '"' :: further) :
    readString? ('"' :: rest) = readBasic? .plain rest := by
  rw [readString?]
  simpa using apart

theorem readString?_literal {rest : Text}
    (apart : ∀ further, rest ≠ '\x27' :: '\x27' :: further) :
    readString? ('\x27' :: rest) = readLiteral? rest := by
  rw [readString?]
  simpa using apart

theorem readString?_escaped (text : Text) {rest : Text} (unquoted : rest.head? ≠ some '"') :
    readString? ('"' :: (text.flatMap escape ++ '"' :: rest)) = some (text, rest) := by
  have apart (further : Text) :
      text.flatMap escape ++ '"' :: rest ≠ '"' :: '"' :: further := by
    cases text with
    | nil => exact fun same => ne_cons_of_head? unquoted _ (List.cons.inj same).2
    | cons character text =>
        rw [List.flatMap_cons, List.append_assoc]
        exact ne_cons_of_head? (head?_escape character _) _
  rw [readString?_basic apart, readBasic?_flatMap_escape]

theorem readString?_verbatim {text rest : Text} (plain : ∀ character ∈ text, isPlain character)
    (unquoted : '\x27' ∉ text) (noApostrophe : rest.head? ≠ some '\x27') :
    readString? ('\x27' :: (text ++ '\x27' :: rest)) = some (text, rest) := by
  have apart (further : Text) : text ++ '\x27' :: rest ≠ '\x27' :: '\x27' :: further := by
    cases text with
    | nil => exact fun same => ne_cons_of_head? noApostrophe _ (List.cons.inj same).2
    | cons character text =>
        rintro same
        exact unquoted ((List.cons.inj same).1 ▸ List.mem_cons_self)
  rw [readString?_literal apart, readLiteral?_append plain unquoted]

theorem readString?_escapedLines (text : Text) {rest : Text}
    (unquoted : rest.head? ≠ some '"') :
    readString? ('"' :: '"' :: '"' :: (openingBreak text ++ (escapeLines 0 text ++
      '"' :: '"' :: '"' :: rest))) = some (text, rest) := by
  have start := skipFirstNewline_openingBreak fun oneLine : '\n' ∉ text =>
    afterNewline?_escapeLines oneLine ('"' :: '"' :: rest)
  rw [readString?, start]
  exact readBasicLines?_escapeLines unquoted text (Nat.zero_le 2)

theorem readString?_verbatimLines {text rest : Text}
    (plain : ∀ character ∈ text, character = '\n' ∨ isPlain character)
    (few : ¬ hasThree '\x27' text) (noApostrophe : rest.head? ≠ some '\x27') :
    readString? ('\x27' :: '\x27' :: '\x27' :: (openingBreak text ++ (text ++
      '\x27' :: '\x27' :: '\x27' :: rest))) = some (text, rest) := by
  have start := skipFirstNewline_openingBreak fun oneLine =>
    afterNewline?_plain plain oneLine ('\x27' :: '\x27' :: rest)
  rw [readString?, start]
  exact readLiteralLines?_append noApostrophe plain (Nat.zero_le 2) few

theorem printString_begins (text : Text) :
    ∃ others, printString text = '"' :: others ∨ printString text = '\x27' :: others := by
  unfold printString
  cases StringStyle.of text with
  | escaped => exact ⟨_, .inl rfl⟩
  | verbatim => exact ⟨_, .inr rfl⟩
  | escapedLines => exact ⟨_, .inl rfl⟩
  | verbatimLines => exact ⟨_, .inr rfl⟩

/-- A printed string is read back, in front of anything but a quote. -/
theorem readString?_printString (text : Text) {rest : Text} (unquoted : rest.head? ≠ some '"')
    (noApostrophe : rest.head? ≠ some '\x27') :
    readString? (printString text ++ rest) = some (text, rest) := by
  unfold printString
  cases style : StringStyle.of text with
  | escaped =>
      rw [List.append_assoc, List.append_assoc]
      exact readString?_escaped text unquoted
  | verbatim =>
      obtain ⟨plain, noQuote⟩ := StringStyle.verbatim_of style
      rw [List.append_assoc, List.append_assoc]
      exact readString?_verbatim plain noQuote noApostrophe
  | escapedLines =>
      rw [List.append_assoc, List.append_assoc, List.append_assoc]
      exact readString?_escapedLines text unquoted
  | verbatimLines =>
      obtain ⟨plain, few⟩ := StringStyle.verbatimLines_of style
      rw [List.append_assoc, List.append_assoc, List.append_assoc]
      exact readString?_verbatimLines plain few noApostrophe

end Scriptlet.Toml
