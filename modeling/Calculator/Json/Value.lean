import Calculator.Binary64.Arithmetic
import Calculator.Decimal.Numeral

/-!
# JSON values

A value as it is written: numbers keep their digits and texts their escapes, for it depends on the
reader what becomes of them. A number is read with a significand of 64 bits, and is scaled by one
multiplication or by divisions, so its last digit may differ from that of the nearest number.
-/

namespace Calculator

/-- A number as it is written. The digits before the point come first. -/
structure JsonNumber where
  negative : Bool
  whole : List Char
  fraction : Option (List Char)
  exponent : Option Int
deriving DecidableEq, Repr

/-- A part of a text: a character, or an escape that gives a unit of UTF-16. -/
inductive TextPart where
  | char (c : Char)
  | unit (n : Nat)
deriving DecidableEq, Repr

/-- A value as it is written. An object keeps the order of its members and may repeat a name. -/
inductive Json where
  | null
  | bool (b : Bool)
  | number (n : JsonNumber)
  | text (parts : List TextPart)
  | array (elements : List Json)
  | object (members : List (List TextPart × Json))

/-! ## Numbers -/

/-- Appends digits to a significand as long as it stays below 2⁶⁴. The second number counts the
digits that are left. -/
def appendDigits (significand : Nat) : List Char → Nat × Nat
  | [] => (significand, 0)
  | c :: cs =>
    let next := 10 * significand + digitValue c
    if next < 2 ^ 64 then appendDigits next cs else (significand, cs.length + 1)

/-- A number divided by `10 ^ k`, in steps of at most 308 places. -/
def scaleDown (x : Binary64) (k : Nat) : Binary64 :=
  if k ≤ 308 then x.div (.ofNat (10 ^ k))
  else if x.isZero then x
  else scaleDown (x.div (.ofNat (10 ^ 308))) (k - 308)
termination_by k

/-- A number multiplied by `10 ^ k`, if the product is in range. -/
def scaleUp? (x : Binary64) (k : Nat) : Option Binary64 :=
  if k ≤ 308 then
    let product := x.mul (.ofNat (10 ^ k))
    if product.isInfinite then none else some product
  else if x.isZero then some x
  else none

namespace JsonNumber

/-- The significand and the exponent of ten that a number is read with, without its sign. Digits
that do not fit the significand are dropped, and those before the point raise the exponent. -/
def parts (n : JsonNumber) : Nat × Int :=
  let fraction := n.fraction.getD []
  let (whole, dropped) := appendDigits 0 n.whole
  let (significand, left) := appendDigits whole fraction
  (significand, (dropped : Int) - ((fraction.length - left : Nat) : Int) + n.exponent.getD 0)

/-- The number that is read, if it is in range. -/
def value? (n : JsonNumber) : Option Binary64 :=
  let (significand, exponent) := n.parts
  let size := match exponent with
    | .ofNat k => scaleUp? (.ofNat significand) k
    | .negSucc k => some (scaleDown (.ofNat significand) (k + 1))
  size.map fun x => if n.negative then x.neg else x

/-- The natural number below 2⁶⁴ that is written, if it is one without point and exponent. -/
def natural? (n : JsonNumber) : Option Nat :=
  if n.negative || n.fraction.isSome || n.exponent.isSome then none
  else
    let value := digitsValue n.whole
    if value < 2 ^ 64 then some value else none

end JsonNumber

/-! ## Texts -/

/-- Whether a unit of UTF-16 is the first of a pair. -/
def isHighUnit (n : Nat) : Bool :=
  0xd800 ≤ n && n ≤ 0xdbff

/-- Whether a unit of UTF-16 is the second of a pair. -/
def isLowUnit (n : Nat) : Bool :=
  0xdc00 ≤ n && n ≤ 0xdfff

/-- The characters of a text, if every escaped unit is a character by itself or one of a pair. -/
def textChars? : List TextPart → Option (List Char)
  | [] => some []
  | .char c :: parts => (textChars? parts).map (c :: ·)
  | .unit high :: .unit low :: parts =>
    if isHighUnit high then
      if isLowUnit low then
        let c := Char.ofNat (0x10000 + (high - 0xd800) * 0x400 + (low - 0xdc00))
        (textChars? parts).map (c :: ·)
      else none
    else if isLowUnit high then none
    else (textChars? (.unit low :: parts)).map (Char.ofNat high :: ·)
  | .unit n :: parts =>
    if isHighUnit n || isLowUnit n then none
    else (textChars? parts).map (Char.ofNat n :: ·)

/-- The text that parts make, if they make one. -/
def textOf? (parts : List TextPart) : Option String :=
  (textChars? parts).map String.ofList

/-! ## Sound values -/

mutual

/-- Whether a value has at most the given number of levels of arrays and objects, its texts are
texts and its numbers are in range. -/
def Json.isSound (levels : Nat) : Json → Bool
  | .null => true
  | .bool _ => true
  | .number n => n.value?.isSome
  | .text parts => (textChars? parts).isSome
  | .array elements => levels != 0 && Json.areSound (levels - 1) elements
  | .object members => levels != 0 && Json.membersAreSound (levels - 1) members

/-- Whether all values of a list are sound. -/
def Json.areSound (levels : Nat) : List Json → Bool
  | [] => true
  | j :: js => j.isSound levels && Json.areSound levels js

/-- Whether all values of the members of an object are sound, and their names texts. -/
def Json.membersAreSound (levels : Nat) : List (List TextPart × Json) → Bool
  | [] => true
  | (name, j) :: members =>
    (textChars? name).isSome && j.isSound levels && Json.membersAreSound levels members

end

end Calculator
