import Scriptlet.Text

/-!
# Blank characters

The white space of this library is the Unicode property `White_Space`: the
trimmed ends of arguments and of compiled code, and the runs that compression
shortens, are all decided by one table.
-/

namespace Scriptlet.Text

/-- The characters with the property `White_Space`, as inclusive ranges of code
points. -/
def blankRanges : List (Nat × Nat) :=
  [(0x09, 0x0D), (0x20, 0x20), (0x85, 0x85), (0xA0, 0xA0), (0x1680, 0x1680),
   (0x2000, 0x200A), (0x2028, 0x2029), (0x202F, 0x202F), (0x205F, 0x205F),
   (0x3000, 0x3000)]

def isBlank (character : Char) : Bool :=
  blankRanges.any fun range => range.1 ≤ character.toNat && character.toNat ≤ range.2

def trim (text : Text) : Text :=
  trimBy isBlank text

def startsBlank : Text → Bool
  | [] => false
  | head :: _ => isBlank head

/-- Replace every maximal run of white space by one space. -/
def collapseBlanks : Text → Text
  | [] => []
  | head :: tail =>
      if isBlank head then
        if startsBlank tail then collapseBlanks tail else ' ' :: collapseBlanks tail
      else head :: collapseBlanks tail

/-- Everything that core calls white space is blank. -/
theorem isBlank_of_isWhitespace {character : Char}
    (white : character.isWhitespace = true) : isBlank character = true := by
  simp only [Char.isWhitespace, Bool.or_eq_true, decide_eq_true_eq] at white
  rcases white with ((rfl | rfl) | rfl) | rfl <;> decide

end Scriptlet.Text
