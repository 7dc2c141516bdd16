import Calculator.Binary64.Arithmetic

/-!
# Powers

A power is correctly rounded. Where the exact power may be a number with few digits, or lie midway
between two numbers, it is worked out exactly; that covers small whole exponents, powers of two and
the roots that come out even. Everywhere else the power is enclosed by logarithm and exponential
series between two bounds, more tightly until both round to the same number.
-/

namespace Calculator

/-! ## Exact powers -/

/-- The square root of `n`, if it is a whole number. -/
def squareRoot? (n : Nat) : Option Nat :=
  let root := (List.range (n.log2 / 2 + 1)).reverse.foldl
    (fun r i => if (r + 2 ^ i) ^ 2 ≤ n then r + 2 ^ i else r) 0
  if root ^ 2 = n then some root else none

/-- The positive number `odd * 2 ^ shift`. With an odd factor this form is unique. -/
structure OddForm where
  odd : Nat
  shift : Int
deriving DecidableEq

namespace OddForm

/-- The odd form of a number of units that is not zero. -/
def ofUnits (units : Nat) : OddForm :=
  let twos := (units ^^^ (units - 1)).log2
  ⟨units / 2 ^ twos, (twos : Int) - 1074⟩

/-- The square root of a number, if it has an odd form itself. -/
def squareRoot? (x : OddForm) : Option OddForm :=
  if x.shift % 2 = 0 then (Calculator.squareRoot? x.odd).map (⟨·, x.shift / 2⟩) else none

/-- The root of degree `2 ^ k` of a number, if it has an odd form itself. -/
def root? (x : OddForm) : Nat → Option OddForm
  | 0 => some x
  | k + 1 => x.squareRoot?.bind (root? · k)

end OddForm

/-- The number nearest to `num * 2 ^ shift / den`. -/
def Binary64.roundShifted (negative : Bool) (num den : Nat) (shift : Int) : Binary64 :=
  match shift + 1074 with
  | .ofNat k => .round negative (num * 2 ^ k) den
  | .negSucc k => .round negative num (den * 2 ^ (k + 1))

/-- The largest exponent whose powers are worked out as quotients. -/
def exactExponentLimit : Nat :=
  64

/-- The power of `units` units to a whole exponent, worked out as a quotient and rounded once. -/
def Binary64.exactPower (negative : Bool) (units exponent : Nat) (inverse : Bool) : Binary64 :=
  if inverse then .round negative (unitsPerOne ^ exponent * unitsPerOne) (units ^ exponent)
  else .round negative (units ^ exponent * unitsPerOne) (unitsPerOne ^ exponent)

/-- A power of two, zero or infinite where its exponent is far out of range. -/
def Binary64.powerOfTwo (negative : Bool) (exponent : Int) : Binary64 :=
  if exponent < -1200 then .finite negative .zero
  else if 1100 < exponent then .infinite negative
  else .roundShifted negative 1 1 exponent

/-! ## Enclosing a power by series

A fixed-point number `n` of precision `p` stands for `n / 2 ^ p`. The allowances for errors are
generous: they hold for every precision up to 2¹⁰.
-/

/-- Twice the inverse hyperbolic tangent of `z`, of the sign of `z`, by `terms` terms of its series
at precision `p`. -/
def twiceArtanh (p terms : Nat) (z : Int) : Int :=
  let square := z * z / 2 ^ p
  let step := fun (sum, power) (i : Nat) =>
    (sum + power / (2 * i + 1 : Nat), power * square / 2 ^ p)
  2 * ((List.range terms).foldl step (0, z)).1

/-- The natural logarithm of two at precision `p`. -/
def logTwo (p : Nat) : Int :=
  twiceArtanh p (p / 3 + 2) (2 ^ p / 3)

/-- The natural logarithm of a number of units that is not zero, at precision `p`. It is off by at
most `2 ^ 23`. -/
def logUnits (p units : Nat) : Int :=
  let digits := units.log2
  let high := 2 ^ (2 * digits + 1) < units ^ 2
  let scale := if high then digits + 1 else digits
  let z := ((units : Int) - 2 ^ scale) * 2 ^ p / ((units : Int) + 2 ^ scale)
  twiceArtanh p (p / 5 + 2) z + ((scale : Int) - 1074) * logTwo p

/-- The exponential of `x`, from 0 to 1, at precision `p`. -/
def expSeries (p : Nat) (x : Int) : Int :=
  let step := fun (sum, power) (i : Nat) =>
    (sum + power, power * x / (2 ^ p * (i + 1 : Nat)))
  ((List.range (p / 4 + 10)).foldl step (0, 2 ^ p)).1

/-- Two numbers between which `units` units to the power of `exponent` units lie, worked out at
precision `p` and rounded. -/
def Binary64.powerBounds (negative : Bool) (units : Nat) (exponent : Int) (p : Nat) :
    Binary64 × Binary64 :=
  let log := logUnits p units * exponent / unitsPerOne
  let logError : Nat := 2 ^ 23 * exponent.natAbs / unitsPerOne + 2
  let two := logTwo p
  let shift := log / two
  if shift < -1200 then (.finite negative .zero, .finite negative .zero)
  else if 1100 < shift then (.infinite negative, .infinite negative)
  else
    let power := expSeries p (log - shift * two)
    let error : Nat := 4 * (logError + 2 ^ 23) + 2 ^ 12
    (roundShifted negative (power - (error : Int)).toNat 1 (shift - p),
      roundShifted negative (power + (error : Int)).toNat 1 (shift - p))

/-- The one number that both bounds at precision `p` are, if they are. -/
def Binary64.powerAt? (negative : Bool) (units : Nat) (exponent : Int) (p : Nat) :
    Option Binary64 :=
  let (low, high) := powerBounds negative units exponent p
  if low = high then some low else none

/-- The number that both bounds are at the first precision at which they are one and the same, or
else the lower bound at a precision of 1024. -/
def Binary64.enclosedPower (negative : Bool) (units : Nat) (exponent : Int) : Binary64 :=
  ([256, 512].findSome? (powerAt? negative units exponent)).getD
    (powerBounds negative units exponent 1024).1

/-- The power of `units` units, not one, to an exponent that is not small and whole. From an
exponent of 2⁶⁴ on every such power is out of range. -/
def Binary64.seriesPower (negative : Bool) (units : Nat) (exponent : Int) : Binary64 :=
  if 2 ^ 64 * unitsPerOne ≤ exponent.natAbs then
    if unitsPerOne < units ↔ 0 < exponent then .infinite negative else .finite negative .zero
  else enclosedPower negative units exponent

/-! ## The power of two numbers -/

namespace Binary64

/-- The power of `units` units, not zero, to the power of `exponent` units, not zero. -/
def positivePower (negative : Bool) (units : Nat) (exponent : Int) : Binary64 :=
  let size := exponent.natAbs
  let inverse := exponent < 0
  if units = unitsPerOne then round negative units 1
  else if size % unitsPerOne = 0 && size / unitsPerOne ≤ exactExponentLimit then
    exactPower negative units (size / unitsPerOne) inverse
  else
    let power := OddForm.ofUnits size
    match (OddForm.ofUnits units).root? (-power.shift).toNat with
    | some ⟨1, shift⟩ =>
      let whole := power.odd * 2 ^ power.shift.toNat
      powerOfTwo negative (shift * (if inverse then -(whole : Int) else whole))
    | some ⟨odd, shift⟩ =>
      if !inverse && power.odd * 2 ^ power.shift.toNat ≤ exactExponentLimit then
        roundShifted negative (odd ^ power.odd) 1 (shift * power.odd)
      else seriesPower negative units exponent
    | none => seriesPower negative units exponent

/-- Whether a finite number is whole and odd. -/
def isOdd : Binary64 → Bool
  | .finite _ m => m.units % (2 * unitsPerOne) == unitsPerOne
  | _ => false

/-- The power. Every number to the power zero is one, and so is one to every power. Of the powers
of a negative number only those with a whole exponent are numbers. -/
def pow (x y : Binary64) : Binary64 :=
  let one := round false unitsPerOne 1
  if y.isZero || x = one then one
  else
    match x, y with
    | .nan, _ => .nan
    | _, .nan => .nan
    | .infinite a, y =>
      if y.isBelowZero then .finite (a && y.isOdd) .zero else .infinite (a && y.isOdd)
    | .finite _ m, .infinite b =>
      if m.units = unitsPerOne then one
      else if decide (unitsPerOne < m.units) = !b then .infinite false
      else zero
    | .finite a m, .finite b n =>
      if m.significand = 0 then
        if b then .infinite (a && y.isOdd) else .finite (a && y.isOdd) .zero
      else if a && !y.isIntegral then .nan
      else positivePower (a && y.isOdd) m.units (n.signed b)

end Binary64

end Calculator
