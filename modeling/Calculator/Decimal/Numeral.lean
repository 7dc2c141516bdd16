import Calculator.Binary64.Rounding

/-!
# Numerals

A numeral is a run of decimal digits with at most one point in it. It is read as the number
nearest to what it denotes, however many digits it has.
-/

namespace Calculator

/-- The number that a digit denotes. -/
def digitValue (c : Char) : Nat :=
  c.toNat - '0'.toNat

/-- The number that a run of digits denotes. -/
def digitsValue (digits : List Char) : Nat :=
  Nat.ofDigitChars 10 digits 0

/-- A numeral: the digits before the point and, where there is a point, those after it. -/
structure Numeral where
  whole : List Char
  fraction : Option (List Char)
deriving DecidableEq, Repr

namespace Numeral

/-- The longest numeral at the front of a text, which starts with a digit, and what follows it. -/
def take (cs : List Char) : Numeral × List Char :=
  let whole := cs.takeWhile Char.isDigit
  match cs.dropWhile Char.isDigit with
  | '.' :: rest => (⟨whole, some (rest.takeWhile Char.isDigit)⟩, rest.dropWhile Char.isDigit)
  | rest => (⟨whole, none⟩, rest)

/-- The characters of a numeral. -/
def chars (n : Numeral) : List Char :=
  match n.fraction with
  | some digits => n.whole ++ '.' :: digits
  | none => n.whole

/-- The digits of a numeral without its point. -/
def digits (n : Numeral) : List Char :=
  n.whole ++ n.fraction.getD []

/-- The number of digits after the point. -/
def places (n : Numeral) : Nat :=
  (n.fraction.getD []).length

/-- The number nearest to what a numeral denotes. -/
def value (n : Numeral) : Binary64 :=
  .ofDecimal false (digitsValue n.digits) (-(n.places : Int))

end Numeral

end Calculator
