import Calculator.Proofs.Grammar
import Mathlib.Algebra.Ring.Nat

/-!
# Where a reader of an expression stands

A reader who takes the tokens of an expression one by one needs no tree to know which tokens may
come next and how many levels are open: whether an operand is due, and for every open group how many
exponents and how many signs in it are not complete. The first token that may not come next, or the
first level too many, gives the one error of the whole list.
-/

namespace Calculator

/-- What is open in a group, which is the whole expression or a parenthesis: the exponents of the
power that is being read, and the signs that still wait for their operand. -/
structure Group where
  exponents : Nat
  signs : Nat
deriving DecidableEq, Repr

/-- Where a reader of an expression stands: whether an operand is due, the innermost group, and the
groups around it from the inside to the outside. -/
structure Situation where
  due : Bool
  inner : Group
  outer : List Group
deriving DecidableEq, Repr

/-- The levels of a group: one for the group, and one for each exponent and each sign. -/
def Group.levels (g : Group) : Nat :=
  1 + g.exponents + g.signs

namespace Situation

/-- The situation before the first token. -/
def start : Situation :=
  ⟨true, ⟨0, 0⟩, []⟩

/-- The number of open levels: one for the whole expression, and one for each open parenthesis, each
exponent of a power that is being read and each sign that waits for its operand. -/
def level (σ : Situation) : Nat :=
  σ.inner.levels + (σ.outer.map Group.levels).sum

/-- The situation when an operand of the innermost group is complete, and with it `exponents`
exponents of its power. No sign waits any more. -/
def completed (σ : Situation) (exponents : Nat) : Situation :=
  ⟨false, ⟨exponents, 0⟩, σ.outer⟩

/-- The situation behind a token where an operand was due: a number is one, and a sign or `(` opens
a level. -/
def readDue (σ : Situation) : TokenKind → Situation
  | .number => σ.completed σ.inner.exponents
  | .plus | .minus => ⟨true, ⟨σ.inner.exponents, σ.inner.signs + 1⟩, σ.outer⟩
  | .openParen => ⟨true, ⟨0, 0⟩, σ.inner :: σ.outer⟩
  | _ => σ

/-- The situation behind a token where no operand was due: `^` opens a level, the other operators
end the power before them with its exponents, and `)` completes an operand of the group around. -/
def readComplete (σ : Situation) : TokenKind → Situation
  | .caret => ⟨true, ⟨σ.inner.exponents + 1, 0⟩, σ.outer⟩
  | .plus | .minus | .star | .slash | .percent => ⟨true, ⟨0, 0⟩, σ.outer⟩
  | .closeParen => match σ.outer with
    | [] => σ
    | g :: outer => ⟨false, ⟨g.exponents, 0⟩, outer⟩
  | _ => σ

/-- The situation behind a token. A token that may not come next changes nothing. -/
def read (σ : Situation) (k : TokenKind) : Situation :=
  if σ.due then σ.readDue k else σ.readComplete k

/-- What is wrong with a token that comes next, if anything is. -/
def fault? (σ : Situation) (t : Token) : Option Fault :=
  if σ.due then
    match t.kind with
    | .number => if t.value.isSome then none else some .valueMissing
    | .plus | .minus | .openParen => none
    | _ => some .operandExpected
  else if Category.sum.continues t.kind then none
  else
    match σ.outer with
    | [] => if t.kind = .endOfInput then none else some .trailingInput
    | _ :: _ => if t.kind = .closeParen then none else some .unclosedParen

/-- The error that stops a reader with the given limit, and the tokens that he has not taken then,
if an error stops him. He looks at the level before he looks at the next token, and a number without
a value is taken before it is found wrong. -/
def failure? (limit : Nat) (stop : Token) : Situation → List Token →
    Option (StructuralError × List Token)
  | σ, [] =>
    if limit < σ.level then some ((Fault.tooDeep limit).errorAt stop, [])
    else (σ.fault? stop).map fun f => (f.errorAt stop, [])
  | σ, t :: ts =>
    if limit < σ.level then some ((Fault.tooDeep limit).errorAt t, t :: ts)
    else
      match σ.fault? t with
      | some f => some (f.errorAt t, if f = .valueMissing then ts else t :: ts)
      | none => failure? limit stop (σ.read t.kind) ts

/-! ## What a token does -/

variable {σ : Situation} {limit : Nat} {stop t : Token} {ts : List Token}

/-- A complete operand opens no level. -/
theorem level_completed_le (σ : Situation) : (σ.completed σ.inner.exponents).level ≤ σ.level := by
  simp only [completed, level, Group.levels]
  omega

/-- A complete operand closes no level where no sign waits. -/
theorem level_completed_eq (hsigns : σ.inner.signs = 0) :
    (σ.completed σ.inner.exponents).level = σ.level := by
  simp only [completed, level, Group.levels, hsigns]

/-- A sign where an operand is due waits for its operand. -/
theorem read_sign {k : TokenKind} {sign : Sign} (hdue : σ.due = true)
    (hk : Sign.ofKind? k = some sign) :
    σ.read k = ⟨true, ⟨σ.inner.exponents, σ.inner.signs + 1⟩, σ.outer⟩ := by
  rw [read, if_pos hdue]
  cases k <;> cases hk <;> rfl

/-- A sign opens a level. -/
theorem level_read_sign {k : TokenKind} {sign : Sign} (hdue : σ.due = true)
    (hk : Sign.ofKind? k = some sign) : (σ.read k).level = σ.level + 1 := by
  rw [read_sign hdue hk]
  simp only [level, Group.levels]
  omega

/-- A sign may come where an operand is due. -/
theorem fault?_sign {sign : Sign} (hdue : σ.due = true) (ht : Sign.ofKind? t.kind = some sign) :
    σ.fault? t = none := by
  cases hk : t.kind <;> rw [hk] at ht <;> cases ht
  all_goals simp only [fault?, hdue, if_true, hk]

/-- A parenthesis where an operand is due starts a group. -/
theorem read_openParen (hdue : σ.due = true) :
    σ.read .openParen = ⟨true, ⟨0, 0⟩, σ.inner :: σ.outer⟩ := by
  rw [read, if_pos hdue]
  rfl

/-- A parenthesis opens a level. -/
theorem level_read_openParen (hdue : σ.due = true) :
    (σ.read .openParen).level = σ.level + 1 := by
  rw [read_openParen hdue]
  simp only [level, Group.levels, List.map_cons, List.sum_cons]
  omega

/-- A parenthesis may come where an operand is due. -/
theorem fault?_openParen (hdue : σ.due = true) (ht : t.kind = .openParen) : σ.fault? t = none := by
  simp only [fault?, hdue, if_true, ht]

/-- A number is a complete operand. -/
theorem read_number (hdue : σ.due = true) :
    σ.read .number = σ.completed σ.inner.exponents := by
  rw [read, if_pos hdue]
  rfl

/-- A number where an operand is due must have a value. -/
theorem fault?_number (hdue : σ.due = true) (ht : t.kind = .number) :
    σ.fault? t = if t.value.isSome then none else some .valueMissing := by
  simp only [fault?, hdue, if_true, ht]

/-- An exponent opens a level on top of the exponents before it. -/
theorem level_read_caret (σ : Situation) (exponents : Nat) :
    ((σ.completed exponents).read .caret).level = (σ.completed exponents).level + 1 := by
  simp only [read, completed, Bool.false_eq_true, if_false, readComplete, level, Group.levels]
  omega

/-- Behind an operator of a sum or a product the group starts anew with an operand. -/
theorem read_operator {k : TokenKind} {operator : Operator} (exponents : Nat)
    (hk : Operator.ofSumKind? k = some operator ∨ Operator.ofProductKind? k = some operator) :
    (σ.completed exponents).read k = ⟨true, ⟨0, 0⟩, σ.outer⟩ := by
  rcases hk with hk | hk <;> cases k <;> cases hk <;> rfl

/-! ## How a reader goes on -/

/-- A level too many stops a reader before the next token. -/
theorem failure?_of_lt (h : limit < σ.level) :
    σ.failure? limit stop ts = some ((Fault.tooDeep limit).errorAt (ts.headD stop), ts) := by
  cases ts <;> simp only [failure?, if_pos h, List.headD_nil, List.headD_cons]

/-- A reader takes a token that may come next. -/
theorem failure?_of_none (hlevel : σ.level ≤ limit) (h : σ.fault? t = none) :
    σ.failure? limit stop (t :: ts) = (σ.read t.kind).failure? limit stop ts := by
  simp only [failure?, if_neg (Nat.not_lt.mpr hlevel), h]

/-- A token that may not come next stops a reader. -/
theorem failure?_of_some {f : Fault} (hlevel : σ.level ≤ limit) (h : σ.fault? t = some f) :
    σ.failure? limit stop (t :: ts) =
      some (f.errorAt t, if f = .valueMissing then ts else t :: ts) := by
  simp only [failure?, if_neg (Nat.not_lt.mpr hlevel), h]

/-- What is wrong with the next token, which may be the end token, stops a reader in front of it
unless it is a value that is missing. -/
theorem failure?_of_fault {f : Fault} (hlevel : σ.level ≤ limit)
    (h : σ.fault? (ts.headD stop) = some f) (hf : f ≠ .valueMissing) :
    σ.failure? limit stop ts = some (f.errorAt (ts.headD stop), ts) := by
  cases ts with
  | nil =>
    rw [List.headD_nil] at h
    simp only [failure?, if_neg (Nat.not_lt.mpr hlevel), h, Option.map_some, List.headD_nil]
  | cons t ts =>
    rw [List.headD_cons] at h ⊢
    rw [failure?_of_some hlevel h, if_neg hf]

/-! ## What may follow a complete operand -/

/-- A complete operand goes on with the kinds of tokens that go on with a sum. -/
theorem fault?_completed_of_continues (exponents : Nat)
    (h : Category.sum.continues t.kind = true) : (σ.completed exponents).fault? t = none := by
  simp only [fault?, completed, Bool.false_eq_true, if_false, h, if_true]

/-- In a parenthesis a complete operand that does not go on must be closed. -/
theorem fault?_completed_of_cons (exponents : Nat) {g : Group} {outer : List Group}
    (h : Category.sum.continues t.kind = false) (houter : σ.outer = g :: outer) :
    (σ.completed exponents).fault? t =
      if t.kind = .closeParen then none else some .unclosedParen := by
  simp only [fault?, completed, Bool.false_eq_true, if_false, h, houter]

/-- Outside of all parentheses a complete operand that does not go on must be at the end. -/
theorem fault?_completed_of_nil (exponents : Nat) (h : Category.sum.continues t.kind = false)
    (houter : σ.outer = []) :
    (σ.completed exponents).fault? t =
      if t.kind = .endOfInput then none else some .trailingInput := by
  simp only [fault?, completed, Bool.false_eq_true, if_false, h, houter]

end Situation

end Calculator
