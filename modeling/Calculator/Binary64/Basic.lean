/-!
# Binary floating-point numbers of 64 bits

A number is finite, infinite or not a number. Every finite number is a sign and a magnitude, and
every magnitude is a whole number of units of 2⁻¹⁰⁷⁴, the least positive one. So the exact result
of an operation on finite numbers is a quotient of natural numbers, and the operations round such
quotients once.
-/

namespace Calculator

/-- Powers are the ones of the core library, whichever other powers a module sees. -/
@[default_instance 10001]
instance (priority := high) corePow {α : Type} [NatPow α] : Pow α Nat :=
  instPowNat

/-- The parts of a magnitude in their one form: at most 53 binary digits, an exponent in range,
and all 53 digits in use unless the exponent is the least one. -/
def Canonical (significand exponent : Nat) : Prop :=
  significand < 2 ^ 53 ∧ exponent ≤ 2045 ∧ (exponent = 0 ∨ 2 ^ 52 ≤ significand)

instance (significand exponent : Nat) : Decidable (Canonical significand exponent) :=
  inferInstanceAs (Decidable (_ ∧ _ ∧ _))

/-- A finite magnitude, `significand * 2 ^ exponent` units of 2⁻¹⁰⁷⁴. -/
structure Magnitude where
  significand : Nat
  exponent : Nat
  canonical : Canonical significand exponent
deriving DecidableEq

/-- A binary floating-point number of 64 bits. All that are not a number count as one. -/
inductive Binary64 where
  | finite (negative : Bool) (magnitude : Magnitude)
  | infinite (negative : Bool)
  | nan
deriving DecidableEq

/-- The number one has this many units. -/
def unitsPerOne : Nat :=
  2 ^ 1074

namespace Magnitude

/-- The size of a magnitude in units of 2⁻¹⁰⁷⁴. -/
def units (m : Magnitude) : Nat :=
  m.significand * 2 ^ m.exponent

/-- The size of a magnitude with a sign before it. -/
def signed (m : Magnitude) (negative : Bool) : Int :=
  if negative then -(m.units : Int) else m.units

/-- The magnitude zero. -/
def zero : Magnitude :=
  ⟨0, 0, by decide⟩

/-- The magnitude with the given parts, if they are in canonical form. -/
def ofParts? (significand exponent : Nat) : Option Magnitude :=
  if h : Canonical significand exponent then some ⟨significand, exponent, h⟩ else none

end Magnitude

namespace Binary64

/-- Positive zero. -/
def zero : Binary64 :=
  .finite false .zero

/-- Whether a number is neither infinite nor undefined. -/
def isFinite : Binary64 → Bool
  | .finite .. => true
  | _ => false

/-- Whether a number is one of the two infinities. -/
def isInfinite : Binary64 → Bool
  | .infinite _ => true
  | _ => false

/-- Whether a number is one of the two zeros. -/
def isZero : Binary64 → Bool
  | .finite _ m => m.significand == 0
  | _ => false

/-- Whether a number lies below zero; negative zero does not. -/
def isBelowZero : Binary64 → Bool
  | .finite negative m => negative && m.significand != 0
  | .infinite negative => negative
  | .nan => false

/-- Whether a number is finite and whole. -/
def isIntegral : Binary64 → Bool
  | .finite _ m => m.units % unitsPerOne == 0
  | _ => false

/-- The number with the other sign. -/
def neg : Binary64 → Binary64
  | .finite negative m => .finite (!negative) m
  | .infinite negative => .infinite (!negative)
  | .nan => .nan

/-- The number without its sign. -/
def abs : Binary64 → Binary64
  | .finite _ m => .finite false m
  | .infinite _ => .infinite false
  | .nan => .nan

/-- The order of numbers: infinities at the ends, and one that is not a number below nothing. -/
def lt : Binary64 → Binary64 → Bool
  | .finite a m, .finite b n => decide (m.signed a < n.signed b)
  | .finite .., .infinite b => !b
  | .infinite a, .finite .. => a
  | .infinite a, .infinite b => a && !b
  | _, _ => false

/-- Equality as numbers: the two zeros are equal, and one that is not a number equals nothing. -/
def eqv : Binary64 → Binary64 → Bool
  | .finite a m, .finite b n => m == n && (a == b || m.significand == 0)
  | .infinite a, .infinite b => a == b
  | _, _ => false

end Binary64

end Calculator
