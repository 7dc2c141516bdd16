import Calculator.Binary64.Basic

/-!
# The interchange format

A number as a word of 64 bits: the sign, eleven bits of exponent and 52 bits of significand. The
magnitudes in order have the words 0, 1, 2 and so on, since the first of the 53 digits of a
significand is not stored and carries into the exponent.
-/

namespace Calculator.Binary64

/-- The word of positive infinity. -/
def infinityBits : Nat :=
  2047 * 2 ^ 52

/-- The word of a number; the one that is not a number has the quiet word without payload. -/
def toBits : Binary64 → Nat
  | .finite negative m =>
    (if negative then 2 ^ 63 else 0) + (m.exponent * 2 ^ 52 + m.significand)
  | .infinite negative => (if negative then 2 ^ 63 else 0) + infinityBits
  | .nan => infinityBits + 2 ^ 51

/-- The magnitude whose word is `word`, if it is finite. -/
def magnitudeOfBits? (word : Nat) : Option Magnitude :=
  let field := word / 2 ^ 52
  let fraction := word % 2 ^ 52
  if field = 0 then Magnitude.ofParts? fraction 0
  else Magnitude.ofParts? (2 ^ 52 + fraction) (field - 1)

/-- The number that a word of 64 bits stands for. -/
def ofBits (word : Nat) : Binary64 :=
  let negative := 2 ^ 63 ≤ word
  let word := word % 2 ^ 63
  match magnitudeOfBits? word with
  | some m => .finite negative m
  | none => if word = infinityBits then .infinite negative else .nan

end Calculator.Binary64
