import Calculator.Binary64.Rounding

/-!
# The shortest decimals

Of the decimals that read back as a magnitude, the ones with the fewest digits, and of these the
nearest. Two may be equally near, and then a rule decides which one is meant.
-/

namespace Calculator

/-- The decimal number `significand * 10 ^ exponent`. -/
structure Decimal where
  significand : Nat
  exponent : Int
deriving DecidableEq, Repr

/-- Which of two decimals is meant that are equally near to a number: the larger, or the one whose
last digit is even. -/
inductive TieRule where
  | away
  | even
deriving DecidableEq, Repr

/-- The decimal digits of a natural number, the first one not zero unless it is the only one. -/
def decimalDigits (n : Nat) : List Char :=
  Nat.toDigits 10 n

namespace Magnitude

/-- Whether a decimal reads back as a magnitude. -/
def readsFrom (m : Magnitude) (d : Decimal) : Bool :=
  Binary64.ofDecimal false d.significand d.exponent = .finite false m

/-- A magnitude in units of `10 ^ place`, as a quotient. -/
def quotientAt (m : Magnitude) (place : Int) : Nat × Nat :=
  match place with
  | .ofNat k => (m.units, unitsPerOne * 10 ^ k)
  | .negSucc k => (m.units * 10 ^ (k + 1), unitsPerOne)

/-- The nearest decimal with its last digit at `place` that reads back, if there is one. -/
def decimalAt? (tie : TieRule) (m : Magnitude) (place : Int) : Option Decimal :=
  let (num, den) := m.quotientAt place
  let below : Decimal := ⟨num / den, place⟩
  let above : Decimal := ⟨num / den + 1, place⟩
  match m.readsFrom below, m.readsFrom above with
  | true, true =>
    let twice := 2 * (num % den)
    if twice < den then some below
    else if den < twice then some above
    else match tie with
      | .away => some above
      | .even => if below.significand % 2 = 0 then some below else some above
  | true, false => some below
  | false, true => some above
  | false, false => none

/-- Whether a magnitude is at least `10 ^ place`. -/
def reaches (m : Magnitude) (place : Int) : Bool :=
  let (num, den) := m.quotientAt place
  den ≤ num

/-- The place of the first digit of a magnitude that is not zero: 0 for the ones. The number of
binary digits gives it up to one, for `2 ^ 100000` has about 30103 digits. -/
def leadingPlace (m : Magnitude) : Int :=
  let guess := ((m.units.log2 : Int) - 1074) * 30103 / 100000
  if m.reaches (guess + 1) then guess + 1
  else if m.reaches guess then guess
  else guess - 1

/-- All digits of a magnitude. Every unit has a decimal of 1074 places. -/
def exactDecimal (m : Magnitude) : Decimal :=
  ⟨m.units * 5 ^ 1074, -1074⟩

/-- The nearest of the decimals with the fewest digits that read back. Seventeen always suffice. -/
def shortest (tie : TieRule) (m : Magnitude) : Decimal :=
  let places := (List.range 17).map (fun count : Nat => m.leadingPlace - count)
  (places.findSome? (m.decimalAt? tie)).getD m.exactDecimal

end Magnitude

end Calculator
