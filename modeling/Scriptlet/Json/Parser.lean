import Scriptlet.Json.Value
import Scriptlet.Json.Literal

/-!
# Reading values

A reader takes a text to a value and the text after it.  Nesting is limited to a
given depth, so the reader of a value recurses on that depth, and the readers of
items and entries recurse on a bound that the text's length gives.
-/

namespace Scriptlet.Json

/-- How deeply arrays and objects may nest, the outermost one included. -/
def nestingLimit : Nat := 128

def skipBlanks (text : Text) : Text :=
  text.dropWhile fun character =>
    character = ' ' || character = '\n' || character = '\t' || character = '\r'

/-- Digits of a number, read into a 64-bit significand and a decimal exponent. -/
structure Accumulated where
  significand : Nat
  exponent : Int
  full : Bool

def Accumulated.overflows (read : Accumulated) (digit : Nat) : Bool :=
  read.full || Decimal.wordCount64 ≤ read.significand * 10 + digit

/-- One more digit before the point.  A digit that does not fit counts as a zero. -/
def Accumulated.beforePoint (read : Accumulated) (character : Char) : Accumulated :=
  let digit := Decimal.digitValue character
  if read.overflows digit then { read with exponent := read.exponent + 1, full := true }
  else { read with significand := read.significand * 10 + digit }

/-- One more digit after the point.  A digit that does not fit is left out, with
all after it. -/
def Accumulated.afterPoint (read : Accumulated) (character : Char) : Accumulated :=
  let digit := Decimal.digitValue character
  if read.overflows digit then { read with full := true }
  else { read with
    significand := read.significand * 10 + digit
    exponent := read.exponent - 1 }

def powerOfTen (exponent : Nat) : Float :=
  Float.ofScientific 1 false exponent

/-- Divide by a power of ten, at most 308 powers at a time. -/
def divideByPower : (steps : Nat) → Float → (power : Nat) → Float
  | 0, value, _ => value
  | steps + 1, value, power =>
      if power ≤ 308 then value / powerOfTen power
      else divideByPower steps (value / powerOfTen 308) (power - 308)

/-- The double for a significand and a decimal exponent, unless it is too
large. -/
def Accumulated.toDouble? (read : Accumulated) : Option Float :=
  let significand := (UInt64.ofNat read.significand).toFloat
  if read.exponent < 0 then some (divideByPower 4 significand read.exponent.natAbs)
  else if 308 < read.exponent then if read.significand = 0 then some significand else none
  else
    let scaled := significand * powerOfTen read.exponent.toNat
    if scaled.isInf then none else some scaled

/-- The digits at the front of a text, of which there must be one, and the text
after them. -/
def readDigits? (text : Text) : Option (Text × Text) :=
  let digits := text.takeWhile Decimal.isDigit
  if digits = [] then none else some (digits, text.dropWhile Decimal.isDigit)

/-- The fraction digits at the front of a text, if a point is there. -/
def readFraction? : Text → Option (Option Text × Text)
  | '.' :: rest => (readDigits? rest).map fun read => (some read.1, read.2)
  | rest => some (none, rest)

/-- The exponent at the front of a text, if there is one. -/
def readExponent? : Text → Option (Option Int × Text)
  | mark :: rest =>
      if mark = 'e' ∨ mark = 'E' then
        match rest with
        | '-' :: digits =>
            (readDigits? digits).map fun read => (some (-(Decimal.valueOf read.1 : Int)), read.2)
        | '+' :: digits =>
            (readDigits? digits).map fun read => (some (Decimal.valueOf read.1 : Int), read.2)
        | digits =>
            (readDigits? digits).map fun read => (some (Decimal.valueOf read.1 : Int), read.2)
      else some (none, mark :: rest)
  | [] => some (none, [])

/-- The number that a sign, integer digits, fraction digits and an exponent
denote: an integer where it is written as one and fits 64 bits, else a double. -/
def Number.of? (negative : Bool) (digits : Text) (fraction? : Option Text)
    (exponent? : Option Int) : Option Number :=
  let value := Decimal.valueOf digits
  if fraction?.isNone ∧ exponent?.isNone ∧ ¬negative ∧ value < Decimal.wordCount64 then
    some (.integer value)
  else if fraction?.isNone ∧ exponent?.isNone ∧ negative ∧ 0 < value
      ∧ value ≤ Decimal.signedLimit64 then
    some (.integer (-(value : Int)))
  else
    let before := digits.foldl Accumulated.beforePoint ⟨0, 0, false⟩
    let after := (fraction?.getD []).foldl Accumulated.afterPoint { before with full := false }
    let whole := { after with exponent := after.exponent + exponent?.getD 0 }
    whole.toDouble?.map fun magnitude =>
      .double (if negative then (-magnitude).toBits else magnitude.toBits)

/-- A number at the front of a text.  A leading zero stands alone. -/
def readNumber? (text : Text) : Option (Number × Text) := do
  let negative := text.head? = some '-'
  let (digits, afterDigits) ← readDigits? (if negative then text.drop 1 else text)
  if digits.head? = some '0' ∧ digits.length ≠ 1 then none
  let (fraction?, afterFraction) ← readFraction? afterDigits
  let (exponent?, rest) ← readExponent? afterFraction
  let number ← Number.of? negative digits fraction? exponent?
  return (number, rest)

def readItems? (readItem? : Text → Option (Value × Text)) :
    (bound : Nat) → Text → Option (List Value × Text)
  | 0, _ => none
  | bound + 1, text => do
      let (item, afterItem) ← readItem? text
      match skipBlanks afterItem with
      | ',' :: rest =>
          let (items, rest) ← readItems? readItem? bound rest
          return (item :: items, rest)
      | ']' :: rest => return ([item], rest)
      | _ => none

def readEntries? (readItem? : Text → Option (Value × Text)) :
    (bound : Nat) → Text → Option (List (Text × Value) × Text)
  | 0, _ => none
  | bound + 1, text => do
      let ('"' :: body) := skipBlanks text | none
      let (key, afterKey) ← readLiteral? none .plain body
      let (':' :: afterColon) := skipBlanks afterKey | none
      let (item, afterItem) ← readItem? afterColon
      match skipBlanks afterItem with
      | ',' :: rest =>
          let (entries, rest) ← readEntries? readItem? bound rest
          return ((key, item) :: entries, rest)
      | '\x7d' :: rest => return ([(key, item)], rest)
      | _ => none

/-- A value at the front of a text, nested less deeply than the given depth. -/
def readValue? : (depth : Nat) → Text → Option (Value × Text)
  | 0, _ => none
  | depth + 1, text =>
      match skipBlanks text with
      | 'n' :: 'u' :: 'l' :: 'l' :: rest => some (.null, rest)
      | 't' :: 'r' :: 'u' :: 'e' :: rest => some (.boolean true, rest)
      | 'f' :: 'a' :: 'l' :: 's' :: 'e' :: rest => some (.boolean false, rest)
      | '"' :: rest =>
          (readLiteral? none .plain rest).map fun read => (.string read.1, read.2)
      | '[' :: rest =>
          if depth = 0 then none
          else
            match skipBlanks rest with
            | ']' :: rest => some (.array [], rest)
            | items =>
                (readItems? (readValue? depth) (items.length + 1) items).map
                  fun read => (.array read.1, read.2)
      | '\x7b' :: rest =>
          if depth = 0 then none
          else
            match skipBlanks rest with
            | '\x7d' :: rest => some (.object [], rest)
            | entries =>
                (readEntries? (readValue? depth) (entries.length + 1) entries).map
                  fun read => (.object (Table.ofPairs read.1), read.2)
      | other => (readNumber? other).map fun read => (.number read.1, read.2)

def Value.parse? (text : Text) : Option Value :=
  match readValue? nestingLimit text with
  | some (value, rest) => if skipBlanks rest = [] then some value else none
  | none => none

end Scriptlet.Json
