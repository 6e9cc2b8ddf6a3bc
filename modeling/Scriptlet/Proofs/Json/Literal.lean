import Mathlib.Tactic.SplitIfs
import Scriptlet.Json.Parser
import Scriptlet.Text.Quoted

/-!
# Literals of texts

Between its quotes a string literal is a row of pieces, one for each character that it
stands for.  Quotes, backslashes and control characters stand only in escaped form, so
reading a literal stops at its closing quote whatever comes after it.  Quoting a text writes
such a literal of that text.
-/

namespace Scriptlet.Json

open Text

/-- The ways in which one character may be written inside a string literal. -/
inductive WritesCharacter (character : Char) : Text → Prop where
  | plain (unquoted : character ≠ '"') (unescaped : character ≠ '\\')
      (printable : 0x20 ≤ character.toNat) : WritesCharacter character [character]
  | short (letter : Char) (known : shortEscape? letter = some character) :
      WritesCharacter character ['\\', letter]
  | numeric (first second third fourth : Char) {a b c d : Nat}
      (firstValue : hexValue? first = some a) (secondValue : hexValue? second = some b)
      (thirdValue : hexValue? third = some c) (fourthValue : hexValue? fourth = some d)
      (code : character.toNat = ((a * 16 + b) * 16 + c) * 16 + d) :
      WritesCharacter character ['\\', 'u', first, second, third, fourth]

/-- What stands between the quotes of a literal, piece by piece. -/
inductive WritesText : Text → Text → Prop where
  | nil : WritesText [] []
  | cons {character : Char} {piece value body : Text} (here : WritesCharacter character piece)
      (further : WritesText value body) : WritesText (character :: value) (piece ++ body)

theorem escape_writes (character : Char) : WritesCharacter character (escape character) := by
  unfold escape
  split_ifs with quote backslash backspace feed line carriage tab control
  · exact .short '"' (by rw [quote]; rfl)
  · exact .short '\\' (by rw [backslash]; rfl)
  · exact .short 'b' (by rw [backspace]; rfl)
  · exact .short 'f' (by rw [feed]; rfl)
  · exact .short 'n' (by rw [line]; rfl)
  · exact .short 'r' (by rw [carriage]; rfl)
  · exact .short 't' (by rw [tab]; rfl)
  · have zero : hexValue? '0' = some 0 := by decide
    have high := hexValue?_hexDigit (character.toNat / 16) (by omega)
    have low := hexValue?_hexDigit (character.toNat % 16) (by omega)
    exact .numeric '0' '0' _ _ zero zero high low (by omega)
  · exact .plain quote backslash (Nat.le_of_not_lt control)

/-- A character is escaped by nothing or by a backslash. -/
theorem escape_begins (character : Char) :
    escape character = [character] ∨ ∃ letters, escape character = '\\' :: letters := by
  have writes := escape_writes character
  generalize escape character = piece at writes ⊢
  cases writes with
  | plain _ _ _ => exact .inl rfl
  | short letter _ => exact .inr ⟨_, rfl⟩
  | numeric _ _ _ _ _ _ _ _ _ => exact .inr ⟨_, rfl⟩

/-- A passage without backslashes begins an escaped text only if it begins the text. -/
theorem prefix_of_prefix_flatMap_escape {passage text : Text} (plain : '\\' ∉ passage)
    (begins : passage <+: text.flatMap escape) : passage <+: text := by
  induction text generalizing passage with
  | nil => exact begins
  | cons head text induction =>
      cases passage with
      | nil => exact List.nil_prefix
      | cons first passage =>
          rw [List.mem_cons, not_or] at plain
          rw [List.flatMap_cons] at begins
          rcases escape_begins head with same | ⟨letters, escaped⟩
          · rw [same, List.singleton_append, List.cons_prefix_cons] at begins
            exact List.cons_prefix_cons.mpr ⟨begins.1, induction plain.2 begins.2⟩
          · rw [escaped, List.cons_append, List.cons_prefix_cons] at begins
            exact absurd begins.1.symm plain.1

theorem flatMap_escape_writes (text : Text) : WritesText text (text.flatMap escape) := by
  induction text with
  | nil => exact .nil
  | cons character text induction => exact .cons (escape_writes character) induction

/-- No half of a pair is a character. -/
theorem NumericEscape.of_toNat (character : Char) :
    NumericEscape.of none character.toNat = .character character := by
  have valid : character.toNat < 0xD800 ∨ 0xDFFF < character.toNat ∧ character.toNat < 0x110000 :=
    character.valid
  rw [NumericEscape.of, if_neg (by omega), if_neg (by omega), Char.ofNat_toNat]

theorem shortEscape?_listed {letter character : Char}
    (known : shortEscape? letter = some character) :
    letter ∈ ['"', '\\', '/', 'b', 'f', 'n', 'r', 't'] := by
  unfold shortEscape? at known
  split at known
  all_goals first | decide | cases known

/-- Reading goes over a piece and finds the character that it writes. -/
theorem WritesCharacter.readLiteral? {character : Char} {piece : Text}
    (writes : WritesCharacter character piece) (rest : Text) :
    readLiteral? none .plain (piece ++ rest) =
      (Json.readLiteral? none .plain rest).map fun read => (character :: read.1, read.2) := by
  cases writes with
  | plain unquoted unescaped printable =>
      have legible : ¬ character.toNat < 0x20 := by omega
      simp [Json.readLiteral?, unquoted, unescaped, legible]
  | short letter known =>
      have listed := shortEscape?_listed known
      have other : letter ≠ 'u' := by
        rintro rfl
        exact absurd listed (by decide)
      simp [Json.readLiteral?, other, known]
  | numeric first second third fourth firstValue secondValue thirdValue fourthValue code =>
      simp [Json.readLiteral?, firstValue, secondValue, thirdValue, fourthValue, ← code,
        NumericEscape.of_toNat]

theorem WritesText.readLiteral? {value body : Text} (writes : WritesText value body)
    (rest : Text) : readLiteral? none .plain (body ++ '"' :: rest) = some (value, rest) := by
  induction writes with
  | nil => simp [Json.readLiteral?]
  | cons here _ induction =>
      rw [List.append_assoc, here.readLiteral?, induction]
      rfl

theorem hexValue?_printable {digit : Char} {value : Nat} (known : hexValue? digit = some value) :
    0x20 ≤ digit.toNat := by
  have printable {bound : Char} (low : bound ≤ digit) (high : 0x20 ≤ bound.toNat) :
      0x20 ≤ digit.toNat := Nat.le_trans high (UInt32.le_iff_toNat_le.mp low)
  unfold hexValue? at known
  split_ifs at known with decimal lower upper
  · exact printable decimal.1 (by decide)
  · exact printable lower.1 (by decide)
  · exact printable upper.1 (by decide)

theorem WritesCharacter.printable {character : Char} {piece : Text}
    (writes : WritesCharacter character piece) : ∀ written ∈ piece, 0x20 ≤ written.toNat := by
  cases writes with
  | plain _ _ printable => simpa using printable
  | short letter known =>
      have letters : ∀ listed ∈ ['"', '\\', '/', 'b', 'f', 'n', 'r', 't'],
          0x20 ≤ listed.toNat := by decide
      simp [letters letter (shortEscape?_listed known)]
  | numeric first second third fourth firstValue secondValue thirdValue fourthValue _ =>
      simp [hexValue?_printable firstValue, hexValue?_printable secondValue,
        hexValue?_printable thirdValue, hexValue?_printable fourthValue]

theorem WritesText.printable {value body : Text} (writes : WritesText value body) :
    ∀ written ∈ body, 0x20 ≤ written.toNat := by
  induction writes with
  | nil => exact fun _ member => absurd member List.not_mem_nil
  | cons here _ induction => exact List.forall_mem_append.mpr ⟨here.printable, induction⟩

/-- One complete string literal, and the text that it stands for. -/
structure IsLiteral (value literal : Text) : Prop where
  quoted : ∃ body, literal = inQuotes body ∧ WritesText value body
  printable : ∀ written ∈ literal, 0x20 ≤ written.toNat
  parses : Value.parse? literal = some (.string value)
  stops : ∀ rest, readValue? nestingLimit (literal ++ rest) = some (.string value, rest)

theorem isLiteral_inQuotes {value body : Text} (writes : WritesText value body) :
    IsLiteral value (inQuotes body) := by
  have stops : ∀ rest, readValue? nestingLimit (inQuotes body ++ rest) =
      some (.string value, rest) := by
    intro rest
    have whole : inQuotes body ++ rest = '"' :: (body ++ '"' :: rest) := by simp [inQuotes]
    have begins : skipBlanks ('"' :: (body ++ '"' :: rest)) = '"' :: (body ++ '"' :: rest) := rfl
    rw [whole, nestingLimit, readValue?, begins]
    exact congrArg (Option.map fun read => (Value.string read.1, read.2)) (writes.readLiteral? rest)
  constructor
  case quoted => exact ⟨body, rfl, writes⟩
  case printable =>
    have ends : ∀ written ∈ ['"'], 0x20 ≤ written.toNat := by decide
    exact List.forall_mem_append.mpr ⟨List.forall_mem_append.mpr ⟨ends, writes.printable⟩, ends⟩
  case parses =>
    have whole := stops []
    rw [List.append_nil] at whole
    rw [Value.parse?, whole]
    rfl
  case stops => exact stops

theorem isLiteral_quote (text : Text) : IsLiteral text (quote text) :=
  isLiteral_inQuotes (flatMap_escape_writes text)

/-- A literal stands for one text only. -/
theorem IsLiteral.unique {value other literal : Text} (isLiteral : IsLiteral value literal)
    (alsoLiteral : IsLiteral other literal) : value = other := by
  have same := isLiteral.parses.symm.trans alsoLiteral.parses
  simpa using same

/-- A quoted text is a literal of that text only. -/
theorem isLiteral_quote_iff {value text : Text} : IsLiteral value (quote text) ↔ text = value :=
  ⟨fun isLiteral => (isLiteral_quote text).unique isLiteral,
    fun same => same ▸ isLiteral_quote text⟩

theorem quote_injective : Function.Injective quote := by
  intro text other same
  exact isLiteral_quote_iff.mp (same ▸ isLiteral_quote other)

end Scriptlet.Json
