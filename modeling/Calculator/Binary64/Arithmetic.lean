import Calculator.Binary64.Rounding

/-!
# Arithmetic

The four operations, the remainder and the nearest whole number. On finite numbers each works out
the exact result in units and rounds it once; the remainder and the whole number need no rounding.
-/

namespace Calculator.Binary64

/-- The sum. Opposite numbers add up to positive zero. -/
def add : Binary64 → Binary64 → Binary64
  | .finite a m, .finite b n =>
    if a = b then round a (m.units + n.units) 1
    else if m.units = n.units then zero
    else if n.units < m.units then round a (m.units - n.units) 1
    else round b (n.units - m.units) 1
  | .finite .., .infinite b => .infinite b
  | .infinite a, .finite .. => .infinite a
  | .infinite a, .infinite b => if a = b then .infinite a else .nan
  | _, _ => .nan

/-- The difference. -/
def sub (x y : Binary64) : Binary64 :=
  add x y.neg

/-- The product. -/
def mul : Binary64 → Binary64 → Binary64
  | .finite a m, .finite b n => round (a != b) (m.units * n.units) unitsPerOne
  | .finite a m, .infinite b => if m.significand = 0 then .nan else .infinite (a != b)
  | .infinite a, .finite b n => if n.significand = 0 then .nan else .infinite (a != b)
  | .infinite a, .infinite b => .infinite (a != b)
  | _, _ => .nan

/-- The quotient. A number that is not zero has an infinite quotient by zero. -/
def div : Binary64 → Binary64 → Binary64
  | .finite a m, .finite b n =>
    if n.significand = 0 then
      if m.significand = 0 then .nan else .infinite (a != b)
    else round (a != b) (m.units * unitsPerOne) n.units
  | .finite a _, .infinite b => .finite (a != b) .zero
  | .infinite a, .finite b _ => .infinite (a != b)
  | _, _ => .nan

/-- The exact remainder of the quotient cut off toward zero. It has the sign of the dividend. -/
def rem : Binary64 → Binary64 → Binary64
  | .finite a m, .finite _ n =>
    if n.significand = 0 then .nan else round a (m.units % n.units) 1
  | .finite a m, .infinite _ => .finite a m
  | _, _ => .nan

/-- The nearest whole number, where a half goes away from zero. The sign stays. -/
def roundHalfAway : Binary64 → Binary64
  | .finite a m =>
    round a ((2 * m.units + unitsPerOne) / (2 * unitsPerOne) * unitsPerOne) 1
  | x => x

end Calculator.Binary64
