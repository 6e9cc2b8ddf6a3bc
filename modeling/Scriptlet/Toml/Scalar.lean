import Scriptlet.Decimal.Integer
import Scriptlet.Toml.Item
import Scriptlet.Toml.Literal

/-!
# Numbers, truth values and dates of settings

Numbers may have single underscores between their digits.  Floats and dates are
only checked to be well formed, as no setting takes one.
-/

namespace Scriptlet.Toml

/-- Digits at the front of a text, with single underscores between them taken
out, given that a digit stands before the text. -/
def moreDigits (digit : Char → Bool) : Text → Text × Text
  | '_' :: head :: tail =>
      if digit head then withCharacter head (moreDigits digit tail) else ([], '_' :: head :: tail)
  | head :: tail =>
      if digit head then withCharacter head (moreDigits digit tail) else ([], head :: tail)
  | [] => ([], [])

/-- One or more digits at the front of a text, with single underscores between
them taken out. -/
def readDigits? (digit : Char → Bool) : Text → Option (Text × Text)
  | head :: tail => if digit head then some (withCharacter head (moreDigits digit tail)) else none
  | [] => none

/-- The digits of a decimal integer, where a leading zero stands alone. -/
def readDecimal? : Text → Option (Text × Text)
  | '0' :: rest => some (['0'], rest)
  | text => readDigits? Decimal.isDigit text

def valueIn (base : Nat) (digits : Text) : Nat :=
  digits.foldl (fun value digit => base * value + (Text.hexValue? digit).getD 0) 0

/-- An integer in a base other than ten, after the mark of its base. -/
def readBased? (base : Nat) (text : Text) : Option (Item × Text) :=
  match readDigits? (fun character => (Text.hexValue? character).any (· < base)) text with
  | some (digits, rest) =>
      if Decimal.fitsSigned64 (valueIn base digits) then
        some (.integer (valueIn base digits), rest)
      else none
  | none => none

def readFraction? : Text → Option (Text × Text)
  | '.' :: rest => readDigits? Decimal.isDigit rest
  | _ => none

def readExponent? : Text → Option (Int × Text)
  | mark :: rest =>
      if mark = 'e' ∨ mark = 'E' then
        let negative := rest.head? = some '-'
        let unsigned := if negative ∨ rest.head? = some '+' then rest.drop 1 else rest
        (readDigits? Decimal.isDigit unsigned).map fun read =>
          let value : Int := Decimal.valueOf read.1
          (if negative then -value else value, read.2)
      else none
  | [] => none

/-- Whether `digits · 10 ^ exponent` is too large for a double. -/
def overflows (digits : Text) (exponent : Int) : Bool :=
  let value := Decimal.valueOf digits
  let leading : Int := exponent + (Decimal.ofNat value).length
  if value = 0 || leading < 300 then false
  else if 400 < leading then true
  else
    (Nat.pow 2 54 - 1) * Nat.pow 2 970 * Nat.pow 10 (-exponent).toNat
      ≤ value * Nat.pow 10 exponent.toNat

/-- A float whose sign and integer digits are read. -/
def readFloat? (negative : Bool) (digits : Text) (text : Text) : Option (Item × Text) :=
  let fraction? := readFraction? text
  let (fraction, afterFraction) := fraction?.getD ([], text)
  match readExponent? afterFraction with
  | some (exponent, rest) =>
      if !negative && overflows (digits ++ fraction) (exponent - fraction.length) then none
      else some (.float, rest)
  | none =>
      match fraction? with
      | some (fraction, rest) =>
          if !negative && overflows (digits ++ fraction) (-(fraction.length : Int)) then none
          else some (.float, rest)
      | none => none

/-- A decimal integer or a float, with an optional sign. -/
def readSigned? (text : Text) : Option (Item × Text) :=
  let negative := text.head? = some '-'
  let unsigned := if negative ∨ text.head? = some '+' then text.drop 1 else text
  match unsigned with
  | 'i' :: 'n' :: 'f' :: rest => some (.float, rest)
  | 'n' :: 'a' :: 'n' :: rest => some (.float, rest)
  | _ =>
      match readDecimal? unsigned with
      | none => none
      | some (digits, rest) =>
          if (readFraction? rest).isSome || (readExponent? rest).isSome then
            readFloat? negative digits rest
          else
            let value : Int := Decimal.valueOf digits
            let signed := if negative then -value else value
            if Decimal.fitsSigned64 signed then some (.integer signed, rest) else none

def readTwo? (least greatest : Nat) : Text → Option (Nat × Text)
  | tens :: ones :: rest =>
      let value := Decimal.digitValue tens * 10 + Decimal.digitValue ones
      if Decimal.isDigit tens && Decimal.isDigit ones && least ≤ value && value ≤ greatest then
        some (value, rest)
      else none
  | _ => none

def after? (character : Char) : Text → Option Text
  | head :: tail => if head = character then some tail else none
  | [] => none

def daysIn (year month : Nat) : Nat :=
  if month = 2 then
    if year % 4 = 0 && (year % 100 ≠ 0 || year % 400 = 0) then 29 else 28
  else if month ∈ [4, 6, 9, 11] then 30
  else 31

def afterDate? (text : Text) : Option Text := do
  let (century, rest) ← readTwo? 0 99 text
  let (year, rest) ← readTwo? 0 99 rest
  let (month, rest) ← readTwo? 1 12 (← after? '-' rest)
  let (day, rest) ← readTwo? 1 31 (← after? '-' rest)
  if day ≤ daysIn (century * 100 + year) month then some rest else none

def afterTime? (text : Text) : Option Text := do
  let (_, rest) ← readTwo? 0 23 text
  let (_, rest) ← readTwo? 0 59 (← after? ':' rest)
  let (_, rest) ← readTwo? 0 60 (← after? ':' rest)
  match rest with
  | '.' :: digit :: others =>
      if Decimal.isDigit digit then some (others.dropWhile Decimal.isDigit) else some rest
  | _ => some rest

def afterOffset? : Text → Option Text
  | 'Z' :: rest => some rest
  | 'z' :: rest => some rest
  | sign :: rest =>
      if sign = '+' ∨ sign = '-' then do
        let (_, rest) ← readTwo? 0 23 rest
        let (_, rest) ← readTwo? 0 59 (← after? ':' rest)
        return rest
      else none
  | [] => none

def afterTimeOfDate? : Text → Option Text
  | mark :: rest =>
      if mark = 'T' ∨ mark = 't' ∨ mark = ' ' then
        (afterTime? rest).map fun rest => (afterOffset? rest).getD rest
      else none
  | [] => none

def afterDateTime? (text : Text) : Option Text :=
  match afterDate? text with
  | some rest => some ((afterTimeOfDate? rest).getD rest)
  | none => afterTime? text

/-- A number, a truth value or a date at the front of a text. -/
def readScalar? (text : Text) : Option (Item × Text) :=
  match text with
  | 't' :: 'r' :: 'u' :: 'e' :: rest => some (.boolean true, rest)
  | 'f' :: 'a' :: 'l' :: 's' :: 'e' :: rest => some (.boolean false, rest)
  | _ =>
      match afterDateTime? text with
      | some rest => some (.dateTime, rest)
      | none =>
          match text with
          | '0' :: 'x' :: rest => readBased? 16 rest
          | '0' :: 'o' :: rest => readBased? 8 rest
          | '0' :: 'b' :: rest => readBased? 2 rest
          | _ => readSigned? text

end Scriptlet.Toml
