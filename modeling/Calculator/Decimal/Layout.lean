import Calculator.Decimal.Shortest

/-!
# Number texts

How a number is laid out as text. One rule chooses the digits, the shortest that read back, and a
format says how they are set: which decimal is meant by a tie, where an exponent takes over, and
whether a whole number shows a point. Results are shown in a text of their own, which keeps a point
on whole numbers below 10¹⁶ and never has an exponent.
-/

namespace Calculator

/-- How the digits of a number are set. -/
structure NumberFormat where
  /-- Which of two equally near decimals is written. -/
  tie : TieRule
  /-- The places of a first digit for which no exponent is written, if only some do without. -/
  positional : Option (Int × Int)
  /-- Whether a whole number without exponent gets a point and a zero. -/
  pointed : Bool

/-- Numbers inside a text have all their digits, and a point only where there is a fraction. -/
def NumberFormat.plain : NumberFormat :=
  ⟨.away, none, false⟩

/-- Numbers in a data format have an exponent below 10⁻⁵ and from 10¹⁶ on, and else a point. -/
def NumberFormat.data : NumberFormat :=
  ⟨.even, some (-5, 15), true⟩

namespace Decimal

/-- The digits of a decimal without zeros at the end, and the place of the last one. -/
def trimmed (d : Decimal) : List Char × Int :=
  let reversed := (decimalDigits d.significand).reverse
  let zeros := reversed.takeWhile (· == '0')
  ((reversed.dropWhile (· == '0')).reverse, d.exponent + (zeros.length : Int))

end Decimal

/-- Digits set without an exponent, the last one at `place`. -/
def positionalText (pointed : Bool) (digits : List Char) (place : Int) : List Char :=
  match place with
  | .ofNat zeros =>
    digits ++ List.replicate zeros '0' ++ if pointed then ['.', '0'] else []
  | .negSucc k =>
    if k + 1 < digits.length then
      digits.take (digits.length - (k + 1)) ++ '.' :: digits.drop (digits.length - (k + 1))
    else '0' :: '.' :: List.replicate (k + 1 - digits.length) '0' ++ digits

/-- Digits set with one before the point and an exponent, the first one at `place`. -/
def exponentText (digits : List Char) (place : Int) : List Char :=
  let sign := if place < 0 then '-' else '+'
  digits.take 1 ++ (if digits.length = 1 then [] else '.' :: digits.drop 1) ++
    'e' :: sign :: decimalDigits place.natAbs

/-- A magnitude as text. -/
def NumberFormat.magnitudeText (format : NumberFormat) (m : Magnitude) : List Char :=
  if m.significand = 0 then if format.pointed then ['0', '.', '0'] else ['0']
  else
    let (digits, place) := (m.shortest format.tie).trimmed
    let leading := place + (digits.length : Int) - 1
    let positional := match format.positional with
      | none => true
      | some (low, high) => low ≤ leading && leading ≤ high
    if positional then positionalText format.pointed digits place
    else exponentText digits leading

/-- The sign of a negative number, and nothing before another one. -/
def signText (negative : Bool) : List Char :=
  if negative then ['-'] else []

/-- A number inside a text. -/
def plainChars : Binary64 → List Char
  | .finite negative m => signText negative ++ NumberFormat.plain.magnitudeText m
  | .infinite negative => signText negative ++ ['i', 'n', 'f']
  | .nan => ['N', 'a', 'N']

/-- A number inside a text. -/
def plainText (x : Binary64) : String :=
  String.ofList (plainChars x)

/-- Whether a number is whole and its size less than 10¹⁶. -/
def isShortWhole : Binary64 → Bool
  | .finite _ m => m.units % unitsPerOne == 0 && m.units / unitsPerOne < 10 ^ 16
  | _ => false

/-- A result: a whole number below 10¹⁶ has a point and a zero, and any other is as in a text. -/
def resultChars (x : Binary64) : List Char :=
  match x with
  | .finite negative m =>
    if isShortWhole x then
      signText negative ++ decimalDigits (m.units / unitsPerOne) ++ ['.', '0']
    else plainChars x
  | _ => plainChars x

/-- A result as text. -/
def resultText (x : Binary64) : String :=
  String.ofList (resultChars x)

end Calculator
