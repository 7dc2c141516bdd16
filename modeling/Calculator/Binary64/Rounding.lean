import Calculator.Binary64.Basic

/-!
# Rounding to the nearest number

A quotient of natural numbers, taken in units of 2⁻¹⁰⁷⁴, goes to the nearest magnitude. A quotient
midway between two goes to the one with an even significand, and one from 2¹⁰²⁴ - 2⁹⁷⁰ on has no
finite magnitude.
-/

namespace Calculator

/-- The whole number nearest to `num / den`, where a half goes to the even neighbour. -/
def roundHalfEven (num den : Nat) : Nat :=
  let quotient := num / den
  let twice := 2 * (num % den)
  if twice < den then quotient
  else if den < twice then quotient + 1
  else quotient + quotient % 2

/-- The exponent at which a magnitude of `units` units keeps 53 binary digits. -/
def exponentFor (units : Nat) : Nat :=
  units.log2 - 52

/-- The magnitude nearest to `num / den` units, if there is a finite one. -/
def Magnitude.nearest? (num den : Nat) : Option Magnitude :=
  let exponent := exponentFor (num / den)
  let significand := roundHalfEven num (den * 2 ^ exponent)
  if significand = 2 ^ 53 then Magnitude.ofParts? (2 ^ 52) (exponent + 1)
  else Magnitude.ofParts? significand exponent

namespace Binary64

/-- The number nearest to `num / den` units with the given sign, infinite where it is too large. -/
def round (negative : Bool) (num den : Nat) : Binary64 :=
  match Magnitude.nearest? num den with
  | some m => .finite negative m
  | none => .infinite negative

/-- The number nearest to a natural number. -/
def ofNat (n : Nat) : Binary64 :=
  round false (n * unitsPerOne) 1

/-- The number nearest to `significand * 10 ^ exponent`. -/
def ofDecimal (negative : Bool) (significand : Nat) (exponent : Int) : Binary64 :=
  match exponent with
  | .ofNat k => round negative (significand * 10 ^ k * unitsPerOne) 1
  | .negSucc k => round negative (significand * unitsPerOne) (10 ^ (k + 1))

end Binary64

end Calculator
