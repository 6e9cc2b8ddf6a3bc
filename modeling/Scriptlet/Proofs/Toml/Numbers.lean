import Scriptlet.Proofs.Decimal.Integer
import Scriptlet.Toml.Scalar

/-!
# Integers of settings

A printed integer is read back from the end of a line: it is no date, no float and no integer
in another base.
-/

namespace Scriptlet.Toml

/-- What is left of a line that holds digits to its end. -/
inductive DigitLine : Text → Prop where
  | stop (rest : Text) : DigitLine ('\n' :: rest)
  | digit {digit : Char} {line : Text} (isDigit : Decimal.isDigit digit)
      (further : DigitLine line) : DigitLine (digit :: line)

namespace DigitLine

theorem append {digits : Text} (all : ∀ digit ∈ digits, Decimal.isDigit digit) (rest : Text) :
    DigitLine (digits ++ '\n' :: rest) := by
  induction digits with
  | nil => exact .stop rest
  | cons first digits induction =>
      rw [List.forall_mem_cons] at all
      exact .digit all.1 (induction all.2)

theorem behind {digit : Char} {line : Text} (digits : DigitLine (digit :: line))
    (isDigit : Decimal.isDigit digit) : DigitLine line := by
  cases digits with
  | stop _ => exact absurd isDigit (by decide)
  | digit _ further => exact further

variable {line : Text} (digits : DigitLine line)

include digits

theorem readTwo? {least greatest value : Nat} {rest : Text}
    (read : readTwo? least greatest line = some (value, rest)) : DigitLine rest := by
  unfold Toml.readTwo? at read
  split at read
  · rename_i tens ones others
    obtain ⟨inRange, same⟩ := Option.ite_none_right_eq_some.mp read
    simp only [Bool.and_eq_true] at inRange
    obtain rfl : others = rest := (Prod.mk.inj (Option.some.inj same)).2
    exact (digits.behind inRange.1.1.1).behind inRange.1.1.2
  · cases read

theorem after?_eq_none {mark : Char} (noDigit : Decimal.isDigit mark = false)
    (sameLine : mark ≠ '\n') : after? mark line = none := by
  cases digits with
  | stop rest => exact if_neg (Ne.symm sameLine)
  | digit isDigit _ => exact if_neg (Decimal.ne_of_isDigit isDigit noDigit)

/-- A row of digits is no date, and no time either. -/
theorem afterDateTime?_eq_none : afterDateTime? line = none := by
  have noDate : afterDate? line = none := by
    rw [Option.eq_none_iff_forall_ne_some]
    intro rest read
    obtain ⟨⟨century, afterCentury⟩, centuryRead, read⟩ := Option.bind_eq_some_iff.mp read
    obtain ⟨⟨year, afterYear⟩, yearRead, read⟩ := Option.bind_eq_some_iff.mp read
    have ends := (digits.readTwo? centuryRead).readTwo? yearRead
    obtain ⟨afterMark, mark, -⟩ := Option.bind_eq_some_iff.mp read
    rw [ends.after?_eq_none rfl (by decide)] at mark
    cases mark
  have noTime : afterTime? line = none := by
    rw [Option.eq_none_iff_forall_ne_some]
    intro rest read
    obtain ⟨⟨hour, afterHour⟩, hourRead, read⟩ := Option.bind_eq_some_iff.mp read
    obtain ⟨afterMark, mark, -⟩ := Option.bind_eq_some_iff.mp read
    rw [(digits.readTwo? hourRead).after?_eq_none rfl (by decide)] at mark
    cases mark
  rw [afterDateTime?, noDate, noTime]

end DigitLine

theorem moreDigits_append {digits : Text} (all : ∀ digit ∈ digits, Decimal.isDigit digit)
    (rest : Text) :
    moreDigits Decimal.isDigit (digits ++ '\n' :: rest) = (digits, '\n' :: rest) := by
  induction digits with
  | nil =>
      rw [List.nil_append, moreDigits]
      · rfl
      · simp
  | cons first digits induction =>
      rw [List.forall_mem_cons] at all
      have noGap : first ≠ '_' := Decimal.ne_of_isDigit all.1 rfl
      rw [List.cons_append, moreDigits, if_pos all.1, induction all.2]
      · rfl
      · simp [noGap]

theorem readDigits?_append {digits : Text} (nonempty : digits ≠ [])
    (all : ∀ digit ∈ digits, Decimal.isDigit digit) (rest : Text) :
    readDigits? Decimal.isDigit (digits ++ '\n' :: rest) = some (digits, '\n' :: rest) := by
  obtain ⟨first, others, rfl⟩ := List.exists_cons_of_ne_nil nonempty
  rw [List.forall_mem_cons] at all
  rw [List.cons_append, readDigits?, if_pos all.1, moreDigits_append all.2]
  rfl

/-- A printed number has no leading zero, so all its digits are read. -/
theorem readDecimal?_ofNat (number : Nat) (rest : Text) :
    readDecimal? (Decimal.ofNat number ++ '\n' :: rest) =
      some (Decimal.ofNat number, '\n' :: rest) := by
  cases number with
  | zero => rfl
  | succ number =>
      have digits := readDigits?_append (Decimal.ofNat_ne_nil (number + 1))
        (fun _ => Decimal.isDigit_of_mem_ofNat) rest
      have head := Decimal.head?_ofNat (Nat.succ_pos number)
      obtain ⟨first, others, same⟩ := List.exists_cons_of_ne_nil (Decimal.ofNat_ne_nil (number + 1))
      rw [same] at digits head ⊢
      rw [readDecimal?]
      · exact digits
      · simpa using head

theorem readSigned?_ofInt {value : Int} (fits : Decimal.fitsSigned64 value) (rest : Text) :
    readSigned? (Decimal.ofInt value ++ '\n' :: rest) = some (.integer value, '\n' :: rest) := by
  have digits := readDecimal?_ofNat value.natAbs rest
  have magnitude := Decimal.valueOf_ofNat value.natAbs
  have noFraction : (readFraction? ('\n' :: rest)).isSome = false := rfl
  have noExponent : (readExponent? ('\n' :: rest)).isSome = false := rfl
  obtain ⟨first, others, same, isDigit⟩ := Decimal.exists_first_digit value.natAbs
  have noSign : first ≠ '-' ∧ first ≠ '+' :=
    ⟨Decimal.ne_of_isDigit isDigit rfl, Decimal.ne_of_isDigit isDigit rfl⟩
  have noWord : first ≠ 'i' ∧ first ≠ 'n' :=
    ⟨Decimal.ne_of_isDigit isDigit rfl, Decimal.ne_of_isDigit isDigit rfl⟩
  rw [same] at digits magnitude
  rw [List.cons_append] at digits
  rw [Decimal.ofInt_eq, same]
  by_cases negative : value < 0
  · have signed : -(Decimal.valueOf (first :: others) : Int) = value := by omega
    simp [readSigned?, negative, noWord, digits, noFraction, noExponent, signed, fits]
  · have signed : (Decimal.valueOf (first :: others) : Int) = value := by omega
    simp [readSigned?, negative, noSign, noWord, digits, noFraction, noExponent, signed, fits]

/-- A minus sign begins no date and no time. -/
theorem afterDateTime?_minus (line : Text) : afterDateTime? ('-' :: line) = none := by
  cases line with
  | nil => rfl
  | cons _ _ => rfl

/-- A printed integer is read back at the end of a line. -/
theorem readScalar?_ofInt {value : Int} (fits : Decimal.fitsSigned64 value) (rest : Text) :
    readScalar? (Decimal.ofInt value ++ '\n' :: rest) = some (.integer value, '\n' :: rest) := by
  rw [← readSigned?_ofInt fits rest]
  rcases Int.lt_trichotomy value 0 with negative | rfl | positive
  · rw [Decimal.ofInt_eq, if_pos negative]
    simp [readScalar?, afterDateTime?_minus]
  · rfl
  · have noDate : afterDateTime? (Decimal.ofNat value.natAbs ++ '\n' :: rest) = none :=
      (DigitLine.append (fun _ => Decimal.isDigit_of_mem_ofNat) rest).afterDateTime?_eq_none
    have head := Decimal.head?_ofNat (Int.natAbs_pos.mpr positive.ne')
    obtain ⟨first, others, same, isDigit⟩ := Decimal.exists_first_digit value.natAbs
    have noWord : first ≠ 't' ∧ first ≠ 'f' :=
      ⟨Decimal.ne_of_isDigit isDigit rfl, Decimal.ne_of_isDigit isDigit rfl⟩
    rw [same] at head noDate
    rw [List.head?_cons, ne_eq, Option.some_inj] at head
    rw [List.cons_append] at noDate
    rw [Decimal.ofInt_eq, if_neg (Int.not_lt.mpr positive.le), List.nil_append, same]
    simp [readScalar?, noWord, noDate, head]

end Scriptlet.Toml
