import Mathlib.Data.Nat.Digits.Defs
import Scriptlet.Decimal.Integer

/-!
# Decimal numerals

A numeral is a row of one or more digits behind an optional sign of either kind.  Reading an
integer accepts just the numerals, and takes them to the integers that they denote.  Writing
a number gives a numeral without leading zeros, so different numbers are written differently.
-/

namespace Scriptlet.Decimal

/-- A text is a numeral of an integer, with any leading zeros. -/
inductive Denotes : Text → Int → Prop where
  | unsigned {digits : Text} (nonempty : digits ≠ []) (all : digits.all isDigit) :
      Denotes digits (valueOf digits)
  | plus {digits : Text} (nonempty : digits ≠ []) (all : digits.all isDigit) :
      Denotes ('+' :: digits) (valueOf digits)
  | minus {digits : Text} (nonempty : digits ≠ []) (all : digits.all isDigit) :
      Denotes ('-' :: digits) (-(valueOf digits : Int))

theorem readNat?_eq_some {text : Text} {value : Nat} :
    readNat? text = some value ↔ (text ≠ [] ∧ text.all isDigit) ∧ valueOf text = value := by
  rw [readNat?, Option.ite_none_right_eq_some, Option.some_inj]

theorem readNat?_of_digits {digits : Text} (nonempty : digits ≠ []) (all : digits.all isDigit) :
    readNat? digits = some (valueOf digits) :=
  readNat?_eq_some.mpr ⟨⟨nonempty, all⟩, rfl⟩

/-- Reading accepts just the numerals. -/
theorem readInt?_eq_some_iff {text : Text} {value : Int} :
    readInt? text = some value ↔ Denotes text value := by
  constructor
  · intro read
    unfold readInt? at read
    split at read
    all_goals
      obtain ⟨signed, signedRead, rfl⟩ := Option.map_eq_some_iff.mp read
      obtain ⟨number, numberRead, same⟩ := Option.bind_eq_some_iff.mp signedRead
      obtain ⟨⟨nonempty, all⟩, rfl⟩ := readNat?_eq_some.mp numberRead
      cases same
    · exact .minus nonempty all
    · exact .plus nonempty all
    · exact .unsigned nonempty all
  · intro denotes
    cases denotes with
    | unsigned nonempty all =>
        unfold readInt?
        split
        · exact absurd all (by simp [isDigit])
        · exact absurd all (by simp [isDigit])
        · rw [readNat?_of_digits nonempty all]
          rfl
    | plus nonempty all => simp [readInt?, readNat?_of_digits nonempty all]
    | minus nonempty all => simp [readInt?, readNat?_of_digits nonempty all]

theorem fitsSigned64_iff {value : Int} :
    fitsSigned64 value ↔ -(signedLimit64 : Int) ≤ value ∧ value < signedLimit64 := by
  simp [fitsSigned64]

theorem readSigned64?_eq_some_iff {text : Text} {value : Int} :
    readSigned64? text = some value ↔ Denotes text value ∧ fitsSigned64 value := by
  rw [readSigned64?, Option.filter_eq_some_iff, readInt?_eq_some_iff]

theorem valueOf_ofNat (number : Nat) : valueOf (ofNat number) = number :=
  Nat.ofDigitChars_ten_toDigits

theorem ofNat_injective : Function.Injective ofNat :=
  Function.LeftInverse.injective valueOf_ofNat

theorem ofNat_ne_nil (number : Nat) : ofNat number ≠ [] :=
  Nat.toDigits_ne_nil

theorem isDigit_eq (character : Char) : isDigit character = character.isDigit := by
  simp only [isDigit, Char.isDigit, Char.le_def, ge_iff_le]

theorem isDigit_of_mem_ofNat {number : Nat} {character : Char}
    (member : character ∈ ofNat number) : isDigit character := by
  rw [isDigit_eq]
  exact Nat.isDigit_of_mem_toDigits (by decide) (by decide) member

/-- A written number begins with a zero only if it is zero. -/
theorem head?_ofNat {number : Nat} (positive : 0 < number) :
    (ofNat number).head? ≠ some '0' := by
  induction number using Nat.strongRecOn with
  | ind number induction =>
      rw [ofNat, Nat.toDigits_eq_if (by decide)]
      split
      · simpa [Nat.digitChar_eq_zero] using positive.ne'
      · have higher : 0 < number / 10 := by omega
        have shorter : number / 10 < number := by omega
        have kept := induction (number / 10) shorter higher
        obtain ⟨first, others, digits⟩ := List.exists_cons_of_ne_nil (ofNat_ne_nil (number / 10))
        rw [digits] at kept
        rw [← ofNat, digits]
        exact kept

theorem ne_of_isDigit {digit mark : Char} (inside : isDigit digit)
    (outside : isDigit mark = false) : digit ≠ mark := by
  rintro rfl
  exact absurd inside (ne_true_of_eq_false outside)

theorem exists_first_digit (number : Nat) :
    ∃ first others, ofNat number = first :: others ∧ isDigit first := by
  obtain ⟨first, others, same⟩ := List.exists_cons_of_ne_nil (ofNat_ne_nil number)
  exact ⟨first, others, same, isDigit_of_mem_ofNat (same ▸ List.mem_cons_self)⟩

theorem ofInt_eq (value : Int) :
    ofInt value = (if value < 0 then ['-'] else []) ++ ofNat value.natAbs := by
  cases value with
  | ofNat number => rfl
  | negSucc number =>
      rw [if_pos (Int.negSucc_lt_zero number)]
      rfl

theorem exists_first_of_ofInt (value : Int) :
    ∃ first others, ofInt value = first :: others ∧ (first = '-' ∨ isDigit first) := by
  obtain ⟨first, others, same, digit⟩ := exists_first_digit value.natAbs
  rw [ofInt_eq, same]
  split_ifs
  · exact ⟨'-', first :: others, rfl, .inl rfl⟩
  · exact ⟨first, others, rfl, .inr digit⟩

end Scriptlet.Decimal
