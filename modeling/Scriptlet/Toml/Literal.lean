import Scriptlet.Text.Hexadecimal

/-!
# String literals of settings

Strings stand between double quotes with escapes, or between single quotes as
they are.  Three quotes instead of one allow several lines.  Every reader takes
the text after the opening quotes to the string and the text after the closing
ones.
-/

namespace Scriptlet.Toml

/-- Characters that may stand in strings and comments: no control characters
besides the tab. -/
def isPlain (character : Char) : Bool :=
  character = '\t' || (0x20 ≤ character.toNat && character.toNat ≠ 0x7F)

def isSpace (character : Char) : Bool :=
  character = ' ' || character = '\t'

def afterNewline? : Text → Option Text
  | '\n' :: rest => some rest
  | '\r' :: '\n' :: rest => some rest
  | _ => none

/-- The character that a backslash and one letter stand for. -/
def escaped? : Char → Option Char
  | 'b' => some '\x08'
  | 't' => some '\t'
  | 'n' => some '\n'
  | 'f' => some '\x0c'
  | 'r' => some '\r'
  | '"' => some '"'
  | '\\' => some '\\'
  | _ => none

/-- Where a reader stands inside a string with escapes. -/
inductive EscapeState where
  | plain
  | escaped
  /-- Inside a numeric escape, with so many digits to come after the next one. -/
  | numeric (digits value : Nat)
  /-- After a backslash and white space, before the line break that they hide. -/
  | beforeBreak
  /-- After a hidden line break, before the next text. -/
  | afterBreak

/-- Put a character in front of what a reader has read. -/
def withCharacter (character : Char) (read : Text × Text) : Text × Text :=
  (character :: read.1, read.2)

/-- Whether a number is the code point of a character. -/
def isCodePoint (value : Nat) : Bool :=
  value < 0xD800 || (0xE000 ≤ value && value < 0x110000)

def readBasic? : EscapeState → Text → Option (Text × Text)
  | _, [] => none
  | .plain, head :: tail =>
      if head = '"' then some ([], tail)
      else if head = '\\' then readBasic? .escaped tail
      else if isPlain head then (readBasic? .plain tail).map (withCharacter head)
      else none
  | .escaped, head :: tail =>
      if head = 'u' then readBasic? (.numeric 3 0) tail
      else if head = 'U' then readBasic? (.numeric 7 0) tail
      else
        match escaped? head with
        | some character => (readBasic? .plain tail).map (withCharacter character)
        | none => none
  | .numeric digits value, head :: tail =>
      match Text.hexValue? head with
      | none => none
      | some digit =>
          let next := value * 16 + digit
          match digits with
          | digits + 1 => readBasic? (.numeric digits next) tail
          | 0 =>
              if isCodePoint next then
                (readBasic? .plain tail).map (withCharacter (Char.ofNat next))
              else none
  | .beforeBreak, _ => none
  | .afterBreak, _ => none

/-- Up to two quotes that stand directly before three closing ones, and what
follows those, given the text after three quotes. -/
def closeQuotes? (quote : Char) (text : Text) : Option (Text × Text) :=
  match text.takeWhile (· = quote) with
  | [] => some ([], text)
  | [_] => some ([quote], text.drop 1)
  | [_, _] => some ([quote, quote], text.drop 2)
  | _ => none

def readBasicLines? : EscapeState → Text → Option (Text × Text)
  | .plain, '"' :: '"' :: '"' :: rest => closeQuotes? '"' rest
  | .plain, '\r' :: '\n' :: rest => (readBasicLines? .plain rest).map (withCharacter '\n')
  | .plain, head :: tail =>
      if head = '\\' then readBasicLines? .escaped tail
      else if head = '\n' || isPlain head then
        (readBasicLines? .plain tail).map (withCharacter head)
      else none
  | .escaped, '\r' :: '\n' :: rest => readBasicLines? .afterBreak rest
  | .escaped, head :: tail =>
      if head = 'u' then readBasicLines? (.numeric 3 0) tail
      else if head = 'U' then readBasicLines? (.numeric 7 0) tail
      else if head = '\n' then readBasicLines? .afterBreak tail
      else if isSpace head then readBasicLines? .beforeBreak tail
      else
        match escaped? head with
        | some character => (readBasicLines? .plain tail).map (withCharacter character)
        | none => none
  | .numeric digits value, head :: tail =>
      match Text.hexValue? head with
      | none => none
      | some digit =>
          let next := value * 16 + digit
          match digits with
          | digits + 1 => readBasicLines? (.numeric digits next) tail
          | 0 =>
              if isCodePoint next then
                (readBasicLines? .plain tail).map (withCharacter (Char.ofNat next))
              else none
  | .beforeBreak, '\r' :: '\n' :: rest => readBasicLines? .afterBreak rest
  | .beforeBreak, head :: tail =>
      if head = '\n' then readBasicLines? .afterBreak tail
      else if isSpace head then readBasicLines? .beforeBreak tail
      else none
  | .afterBreak, '\r' :: '\n' :: rest => readBasicLines? .afterBreak rest
  | .afterBreak, '"' :: '"' :: '"' :: rest => closeQuotes? '"' rest
  | .afterBreak, head :: tail =>
      if head = '\n' || isSpace head then readBasicLines? .afterBreak tail
      else if head = '\\' then readBasicLines? .escaped tail
      else if isPlain head then (readBasicLines? .plain tail).map (withCharacter head)
      else none
  | _, [] => none

def readLiteral? : Text → Option (Text × Text)
  | [] => none
  | head :: tail =>
      if head = '\x27' then some ([], tail)
      else if isPlain head then (readLiteral? tail).map (withCharacter head)
      else none

/-- Read a string of several lines without escapes. -/
def readLiteralLines? : Text → Option (Text × Text)
  | [] => none
  | '\x27' :: '\x27' :: '\x27' :: rest => closeQuotes? '\x27' rest
  | '\r' :: '\n' :: rest => (readLiteralLines? rest).map (withCharacter '\n')
  | head :: tail =>
      if head = '\n' || isPlain head then (readLiteralLines? tail).map (withCharacter head)
      else none

/-- The text after a line break directly after three opening quotes. -/
def skipFirstNewline (text : Text) : Text :=
  (afterNewline? text).getD text

/-- Read a string of any kind from its opening quotes on. -/
def readString? : Text → Option (Text × Text)
  | '"' :: '"' :: '"' :: rest => readBasicLines? .plain (skipFirstNewline rest)
  | '"' :: rest => readBasic? .plain rest
  | '\x27' :: '\x27' :: '\x27' :: rest => readLiteralLines? (skipFirstNewline rest)
  | '\x27' :: rest => readLiteral? rest
  | _ => none

end Scriptlet.Toml
