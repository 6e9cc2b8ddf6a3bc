import Scriptlet.Decimal.Integer

/-!
# Shortest decimals

A binary floating-point number `significand · 2 ^ exponent` stands for an
interval of reals, those that round to it.  Its shortest decimal is the point of
the coarsest grid `10 ^ t` that has a point in the interval, and of two such
points the nearer one.  Everything is exact arithmetic on natural numbers.
-/

namespace Scriptlet.Decimal

/-- A positive number `significand · 2 ^ exponent`, with the interval of reals
that round to it: `lower`, `middle` and `upper` count units of
`2 ^ (exponent - 2)`, and the ends belong to it where `closed` holds. -/
structure Interval where
  lower : Nat
  middle : Nat
  upper : Nat
  closed : Bool
  exponent : Int

/-- A positive number `digits · 10 ^ exponent`. -/
structure Scientific where
  digits : Nat
  exponent : Int

/-- The part of an integer power that stands in a numerator. -/
def powerAbove (base : Nat) (exponent : Int) : Nat :=
  Nat.pow base exponent.toNat

/-- The part of an integer power that stands in a denominator. -/
def powerBelow (base : Nat) (exponent : Int) : Nat :=
  Nat.pow base (-exponent).toNat

/-- The point of the grid `10 ^ grid` that lies in the interval and is nearest to
its middle. -/
def Interval.onGrid? (interval : Interval) (grid : Int) : Option Nat :=
  let scale := powerAbove 2 (interval.exponent - 2) * powerBelow 10 grid
  let unit := powerAbove 10 grid * powerBelow 2 (interval.exponent - 2)
  let inside (point : Nat) : Bool :=
    if interval.closed then
      interval.lower * scale ≤ point * unit && point * unit ≤ interval.upper * scale
    else
      interval.lower * scale < point * unit && point * unit < interval.upper * scale
  let below := interval.middle * scale / unit
  let above := below + 1
  match inside below, inside above with
  | true, true =>
      let distanceBelow := interval.middle * scale - below * unit
      let distanceAbove := above * unit - interval.middle * scale
      if distanceBelow < distanceAbove ||
          (distanceBelow == distanceAbove && below % 2 == 0) then some below
      else some above
  | true, false => some below
  | false, true => some above
  | false, false => none

/-- The point on the coarsest grid, searching at most `steps` grids downwards. -/
def Interval.coarsest (interval : Interval) : (steps : Nat) → (grid : Int) → Scientific
  | 0, grid => ⟨(interval.onGrid? grid).getD 0, grid⟩
  | steps + 1, grid =>
      match interval.onGrid? grid with
      | some digits => ⟨digits, grid⟩
      | none => interval.coarsest steps (grid - 1)

def fractionCount : Nat := 4503599627370496

def exponentCount : Nat := 2048

/-- The interval of the positive double with the given stored fraction and
stored exponent. -/
def Interval.ofDouble (fraction storedExponent : Nat) : Interval :=
  let significand := if storedExponent = 0 then fraction else fractionCount + fraction
  let exponent : Int := (if storedExponent = 0 then 1 else (storedExponent : Int)) - 1075
  let narrow := fraction = 0 ∧ 1 < storedExponent
  { lower := 4 * significand - (if narrow then 1 else 2)
    middle := 4 * significand
    upper := 4 * significand + 2
    closed := significand % 2 = 0
    exponent }

/-- The leading exponents for which a number is written positionally. -/
structure Layout where
  leastPositional : Int
  greatestPositional : Int

/-- A positive decimal in a layout: positional with a point and at least one
digit on either side of it, or one digit before the point and an exponent with
its sign. -/
def Scientific.render (layout : Layout) (number : Scientific) : Text :=
  let digits := ofNat number.digits
  let leading : Int := number.exponent + digits.length - 1
  if layout.leastPositional ≤ leading ∧ leading ≤ layout.greatestPositional then
    if 0 ≤ number.exponent then
      digits ++ List.replicate number.exponent.toNat '0' ++ ".0"
    else if 0 ≤ leading then
      digits.take (leading.toNat + 1) ++ "." ++ digits.drop (leading.toNat + 1)
    else
      "0." ++ List.replicate ((-leading).toNat - 1) '0' ++ digits
  else
    let significand :=
      match digits with
      | first :: second :: others => first :: '.' :: second :: others
      | short => short
    let sign : Text := if 0 ≤ leading then "+" else "-"
    significand ++ "e" ++ sign ++ ofNat leading.natAbs

/-- The shortest decimal that reads back as the finite double with these bits. -/
def ofDouble (layout : Layout) (bits : UInt64) : Text :=
  let fraction := bits.toNat % fractionCount
  let storedExponent := bits.toNat / fractionCount % exponentCount
  let sign : Text := if signedLimit64 ≤ bits.toNat then "-" else ""
  let magnitude : Text :=
    if fraction = 0 ∧ storedExponent = 0 then "0.0"
    else ((Interval.ofDouble fraction storedExponent).coarsest 700 309).render layout
  sign ++ magnitude

end Scriptlet.Decimal
