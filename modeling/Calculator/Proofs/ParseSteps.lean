import Calculator.Proofs.Grammar

/-!
# The steps of a parse

What the parse of each category does in a state, written as a case split on the current token and on
what the parses inside of it do. Later proofs take a parse apart with these equations alone.
-/

namespace Calculator

namespace ParseState

theorem current_mk (ts : List Token) (stop : Token) (depth : Nat) :
    current ⟨ts, stop, depth⟩ = ts.headD stop := rfl

@[simp]
theorem current_cons (t : Token) (ts : List Token) (stop : Token) (depth : Nat) :
    current ⟨t :: ts, stop, depth⟩ = t := rfl

@[simp]
theorem advance_cons (t : Token) (ts : List Token) (stop : Token) (depth : Nat) :
    advance ⟨t :: ts, stop, depth⟩ = ⟨ts, stop, depth⟩ := rfl

end ParseState

namespace Parse

/-- A parse after another one starts where that one stopped. -/
theorem bind_apply {α β : Type} (p : Parse α) (f : α → Parse β) (s : ParseState) :
    (p >>= f) s = match p s with
      | (.ok a, t) => f a t
      | (.error e, t) => (.error e, t) := by
  have hbind : (p >>= f) s = ExceptT.bindCont f (p s).1 (p s).2 := rfl
  rw [hbind]
  rcases p s with ⟨e | a, t⟩ <;> rfl

/-! ## Levels -/

/-- A parse on the next level comes back to the level it was started on. -/
theorem nested_of_eq {α : Type} {limit depth : Nat} (h : depth < limit) {p : Parse α}
    {ts us : List Token} {stop : Token} {result : Except StructuralError α}
    (hp : p ⟨ts, stop, depth + 1⟩ = (result, ⟨us, stop, depth + 1⟩)) :
    nested limit p ⟨ts, stop, depth⟩ = (result, ⟨us, stop, depth⟩) := by
  simp only [nested, if_pos h, hp, Nat.add_sub_cancel]

/-- There is no parse on the next level where the limit leaves no room for one. -/
theorem nested_of_le {α : Type} {limit depth : Nat} (h : limit ≤ depth) (p : Parse α)
    (ts : List Token) (stop : Token) :
    nested limit p ⟨ts, stop, depth⟩ =
      (.error ((Fault.tooDeep limit).errorAt (ts.headD stop)), ⟨ts, stop, depth⟩) := by
  simp only [nested, if_neg (Nat.not_lt.mpr h)]
  rfl

/-! ## Chains -/

/-- A chain is an operand and what goes on from it. -/
theorem chain_apply (operator? : TokenKind → Option Operator) (operand : Parse Expr) (fuel : Nat)
    (s : ParseState) :
    chain operator? operand fuel s = match operand s with
      | (.ok e, t) => chainFrom operator? operand fuel e t
      | (.error e, t) => (.error e, t) := by
  rw [chain, bind_apply]
  rcases operand s with ⟨e | e, t⟩ <;> rfl

/-- A chain ends where no operator of its own follows. -/
theorem chainFrom_of_none {operator? : TokenKind → Option Operator} (operand : Parse Expr)
    (fuel : Nat) (e : Expr) {s : ParseState} (h : operator? s.current.kind = none) :
    chainFrom operator? operand fuel e s = (.ok e, s) := by
  cases fuel with
  | zero => rfl
  | succ fuel => rw [chainFrom, h]

/-- A chain goes on behind an operator of its own. -/
theorem chainFrom_of_some {operator? : TokenKind → Option Operator} (operand : Parse Expr)
    (fuel : Nat) (e : Expr) {s : ParseState} {operator : Operator}
    (h : operator? s.current.kind = some operator) :
    chainFrom operator? operand (fuel + 1) e s = match operand s.advance with
      | (.ok r, t) => chainFrom operator? operand fuel (.combine operator e r) t
      | (.error e, t) => (.error e, t) := by
  rw [chainFrom, h]
  rcases operand s.advance with ⟨r | r, t⟩ <;> rfl

/-! ## The parse of each category -/

/-- The parse of a category. In it `inside` bounds the expressions between parentheses, and `fuel`
the chains, the exponents and the signs. -/
def ofCategory (limit inside fuel : Nat) : Category → Parse Expr
  | .sum => sum limit (expression limit inside) fuel
  | .product => product limit (expression limit inside) fuel
  | .power => power limit (expression limit inside) fuel
  | .operand => signed limit (expression limit inside) fuel
  | .primary => primary (expression limit inside)

variable (limit inside fuel : Nat) (s : ParseState)

/-- A sum is a chain of products. -/
theorem sum_apply :
    ofCategory limit inside fuel .sum s = match ofCategory limit inside fuel .product s with
      | (.ok e, t) =>
        chainFrom Operator.ofSumKind? (ofCategory limit inside fuel .product) fuel e t
      | (.error e, t) => (.error e, t) :=
  chain_apply _ _ _ s

/-- A product is a chain of powers. -/
theorem product_apply :
    ofCategory limit inside fuel .product s = match ofCategory limit inside fuel .power s with
      | (.ok e, t) =>
        chainFrom Operator.ofProductKind? (ofCategory limit inside fuel .power) fuel e t
      | (.error e, t) => (.error e, t) :=
  chain_apply _ _ _ s

/-- A power is an operand and, behind a `^`, a power on the next level. -/
theorem power_apply :
    ofCategory limit inside (fuel + 1) .power s =
      match ofCategory limit inside (fuel + 1) .operand s with
      | (.ok base, t) =>
        if t.current.kind = .caret then
          match nested limit (ofCategory limit inside fuel .power) t.advance with
          | (.ok e, u) => (.ok (.combine .pow base e), u)
          | (.error e, u) => (.error e, u)
        else (.ok base, t)
      | (.error e, t) => (.error e, t) := by
  simp only [ofCategory]
  rw [power, bind_apply]
  rcases signed limit (expression limit inside) (fuel + 1) s with ⟨e | base, t⟩
  · rfl
  · simp only [bind_apply, peek]
    split
    · simp only [bind_apply, take]
      rcases nested limit (power limit (expression limit inside) fuel) t.advance with
        ⟨e | e, u⟩ <;> rfl
    · rfl

/-- An operand is a sign and an operand on the next level, or a primary. -/
theorem operand_apply :
    ofCategory limit inside (fuel + 1) .operand s = match Sign.ofKind? s.current.kind with
      | some sign => match nested limit (ofCategory limit inside fuel .operand) s.advance with
        | (.ok e, t) => (.ok (.withSign sign s.current.span e), t)
        | (.error e, t) => (.error e, t)
      | none => ofCategory limit inside (fuel + 1) .primary s := by
  simp only [ofCategory]
  rw [signed, bind_apply]
  simp only [peek]
  cases Sign.ofKind? s.current.kind with
  | none => rfl
  | some sign =>
    simp only [bind_apply, take]
    rcases nested limit (signed limit (expression limit inside) fuel) s.advance with
      ⟨e | e, t⟩ <;> rfl

/-- A primary is a number with a value, or an expression between parentheses. -/
theorem primary_apply :
    ofCategory limit inside fuel .primary s = match s.current.kind with
      | .number => match s.current.value with
        | some literal => (.ok (.number literal.value s.current.span), s.advance)
        | none => (.error (Fault.valueMissing.errorAt s.current), s.advance)
      | .openParen => match expression limit inside s.advance with
        | (.ok e, t) =>
          if t.current.kind = .closeParen then (.ok e, t.advance)
          else (.error (Fault.unclosedParen.errorAt t.current), t)
        | (.error e, t) => (.error e, t)
      | _ => (.error (Fault.operandExpected.errorAt s.current), s) := by
  simp only [ofCategory]
  rw [primary, bind_apply]
  simp only [peek]
  cases s.current.kind with
  | number =>
    simp only [bind_apply, take]
    cases s.current.value <;> rfl
  | openParen =>
    simp only [bind_apply, take]
    rcases expression limit inside s.advance with ⟨e | e, t⟩
    · rfl
    · simp only [peek]
      split <;> rfl
  | _ => rfl

/-- An expression is a sum on the next level. -/
theorem expression_apply :
    expression limit (inside + 1) s =
      nested limit (ofCategory limit inside (inside + 1) .sum) s :=
  rfl

/-- A whole is an expression with the end token behind it. -/
theorem whole_apply :
    whole limit fuel s = match expression limit fuel s with
      | (.ok e, t) =>
        if t.current.kind = .endOfInput then (.ok e, t)
        else (.error (Fault.trailingInput.errorAt t.current), t)
      | (.error e, t) => (.error e, t) := by
  rw [whole, bind_apply]
  rcases expression limit fuel s with ⟨e | e, t⟩
  · rfl
  · simp only [bind_apply, peek]
    split <;> rfl

end Parse

end Calculator
