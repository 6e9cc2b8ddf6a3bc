import Scriptlet.Decimal.Integer
import Scriptlet.Toml.Literal

/-!
# Writing settings

A setting is written on a line of its own.  A string stands between double quotes
where it needs no escape there, between single quotes or three quotes where it
needs none there, and is written with escapes otherwise.
-/

namespace Scriptlet.Toml

/-- How one character is written between double quotes. -/
def escape (character : Char) : Text :=
  if character = '\x08' then ['\\', 'b']
  else if character = '\t' then ['\\', 't']
  else if character = '\n' then ['\\', 'n']
  else if character = '\x0c' then ['\\', 'f']
  else if character = '\r' then ['\\', 'r']
  else if character = '"' then ['\\', '"']
  else if character = '\\' then ['\\', '\\']
  else if character.toNat < 0x20 ∨ character.toNat = 0x7F then
    ['\\', 'u', '0', '0', Text.upperHexDigit (character.toNat / 16),
      Text.upperHexDigit (character.toNat % 16)]
  else [character]

/-- A text between three double quotes, after so many double quotes in a row.  Every
third one of a row is written with an escape, so that no row closes the string. -/
def escapeLines : (quotes : Nat) → Text → Text
  | _, [] => []
  | quotes, character :: rest =>
      if character = '"' then
        if quotes < 2 then '"' :: escapeLines (quotes + 1) rest
        else '\\' :: '"' :: escapeLines 0 rest
      else if character = '\n' then '\n' :: escapeLines 0 rest
      else escape character ++ escapeLines 0 rest

/-- Whether a character stands three times in a row somewhere. -/
def hasThree (mark : Char) : Text → Bool
  | first :: second :: third :: rest =>
      (first = mark && second = mark && third = mark) || hasThree mark (second :: third :: rest)
  | _ => false

inductive StringStyle where
  | escaped
  | verbatim
  | escapedLines
  | verbatimLines
deriving DecidableEq

/-- The style of a string: the first one that holds it without an escape, and
where there is none, escapes between the quotes that its line breaks need. -/
def StringStyle.of (text : Text) : StringStyle :=
  let lines := text.contains '\n'
  let plain := text.all fun character => character = '\n' || isPlain character
  let backslash := text.contains '\\'
  if plain && !lines && !backslash && !text.contains '"' then .escaped
  else if plain && !lines && !text.contains '\x27' then .verbatim
  else if plain && !backslash && !hasThree '"' text then .escapedLines
  else if plain && !hasThree '\x27' text then .verbatimLines
  else if lines then .escapedLines
  else .escaped

/-- The line break after three opening quotes, which is no part of the string.  It
is written where the string has line breaks of its own. -/
def openingBreak (text : Text) : Text :=
  if text.contains '\n' then ['\n'] else []

def printString (text : Text) : Text :=
  match StringStyle.of text with
  | .escaped => "\"" ++ text.flatMap escape ++ "\""
  | .verbatim => "\x27" ++ text ++ "\x27"
  | .escapedLines => "\"\"\"" ++ openingBreak text ++ escapeLines 0 text ++ "\"\"\""
  | .verbatimLines => "\x27\x27\x27" ++ openingBreak text ++ text ++ "\x27\x27\x27"

def printBoolean : Bool → Text
  | true => "true"
  | false => "false"

def printSetting (key value : Text) : Text :=
  key ++ " = " ++ value ++ "\n"

end Scriptlet.Toml
