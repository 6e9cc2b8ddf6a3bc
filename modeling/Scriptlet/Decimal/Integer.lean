import Scriptlet.Text

/-!
# Decimal integers

Integers are written with the digits `0` to `9`, without leading zeros and with
a minus sign where they are negative.  They are read with any leading zeros and
with an optional sign of either kind.
-/

namespace Scriptlet.Decimal

/-- Whether a character is one of the ten ASCII digits. -/
def isDigit (character : Char) : Bool :=
  '0' ≤ character && character ≤ '9'

def digitValue (character : Char) : Nat :=
  character.toNat - '0'.toNat

def ofNat (number : Nat) : Text :=
  Nat.toDigits 10 number

/-- An integer in digits, with a minus sign where it is negative. -/
def ofInt : Int → Text
  | .ofNat number => ofNat number
  | .negSucc number => '-' :: ofNat (number + 1)

def valueOf (digits : Text) : Nat :=
  digits.foldl (fun value digit => 10 * value + digitValue digit) 0

/-- The number that a text denotes, where it is a row of one or more digits. -/
def readNat? (text : Text) : Option Nat :=
  if text ≠ [] ∧ text.all isDigit then some (valueOf text) else none

/-- The integer that a text denotes, where it is an optional sign and a row of
one or more digits. -/
def readInt? : Text → Option Int
  | '-' :: digits => (readNat? digits).map fun value => -(value : Int)
  | '+' :: digits => (readNat? digits).map fun value => (value : Int)
  | digits => (readNat? digits).map fun value => (value : Int)

def wordCount64 : Nat := 18446744073709551616

/-- The least natural number that fits no signed word of 64 bits. -/
def signedLimit64 : Nat := 9223372036854775808

/-- Whether an integer fits a signed word of 64 bits. -/
def fitsSigned64 (value : Int) : Bool :=
  -(signedLimit64 : Int) ≤ value && value < (signedLimit64 : Int)

/-- Whether an integer fits an unsigned word of 64 bits. -/
def fitsUnsigned64 (value : Int) : Bool :=
  0 ≤ value && value < (wordCount64 : Int)

/-- The integer that a text denotes, where it also fits a signed word of 64
bits. -/
def readSigned64? (text : Text) : Option Int :=
  (readInt? text).filter fitsSigned64

end Scriptlet.Decimal
