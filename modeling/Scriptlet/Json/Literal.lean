import Scriptlet.Text.Hexadecimal

/-!
# Reading string literals

A string literal is read character by character.  What matters between two
characters is a short state: plain text, just after a backslash, or inside the
four digits of a numeric escape.  Two numeric escapes in a row may form one
character beyond U+FFFF; a lone half of such a pair is refused.
-/

namespace Scriptlet.Json

inductive LiteralState where
  | plain
  | escaped
  | numeric (digits : Nat) (value : Nat)

/-- The character that a backslash and one letter stand for. -/
def shortEscape? : Char → Option Char
  | '"' => some '"'
  | '\\' => some '\\'
  | '/' => some '/'
  | 'b' => some '\x08'
  | 'f' => some '\x0c'
  | 'n' => some '\n'
  | 'r' => some '\r'
  | 't' => some '\t'
  | _ => none

/-- What a complete numeric escape stands for, given the first half of a pair
where one came before it. -/
inductive NumericEscape where
  | character (value : Char)
  | firstHalf (value : Nat)
  | refused

/-- Join a numeric escape with the first half before it. -/
def NumericEscape.of (first? : Option Nat) (value : Nat) : NumericEscape :=
  match first? with
  | some first =>
      if 0xDC00 ≤ value ∧ value < 0xE000 then
        .character (Char.ofNat (0x10000 + (first - 0xD800) * 0x400 + (value - 0xDC00)))
      else .refused
  | none =>
      if 0xD800 ≤ value ∧ value < 0xDC00 then .firstHalf value
      else if 0xDC00 ≤ value ∧ value < 0xE000 then .refused
      else .character (Char.ofNat value)

/-- Read the rest of a string literal: its text, and what follows the closing
quote. -/
def readLiteral? (first? : Option Nat) : LiteralState → Text → Option (Text × Text)
  | _, [] => none
  | .plain, head :: tail =>
      if head = '\\' then readLiteral? first? .escaped tail
      else if first?.isSome then none
      else if head = '"' then some ([], tail)
      else if head.toNat < 0x20 then none
      else (readLiteral? none .plain tail).map fun read => (head :: read.1, read.2)
  | .escaped, head :: tail =>
      if head = 'u' then readLiteral? first? (.numeric 0 0) tail
      else if first?.isSome then none
      else
        match shortEscape? head with
        | some character =>
            (readLiteral? none .plain tail).map fun read => (character :: read.1, read.2)
        | none => none
  | .numeric digits value, head :: tail =>
      match Text.hexValue? head with
      | none => none
      | some digit =>
          let next := value * 16 + digit
          if digits < 3 then readLiteral? first? (.numeric (digits + 1) next) tail
          else
            match NumericEscape.of first? next with
            | .character character =>
                (readLiteral? none .plain tail).map fun read => (character :: read.1, read.2)
            | .firstHalf half => readLiteral? (some half) .plain tail
            | .refused => none

end Scriptlet.Json
