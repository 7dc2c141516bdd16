import Calculator.Parse.Expression

/-!
# The grammar of expressions

Which lists of tokens make an expression, which tree each of them makes, and how deeply its levels
are nested. A sum and a product group from the left, so their rules are recursive on the left; a
power groups from the right. A sign binds more tightly than a power. What makes a part of each
category is then spelled out by kinds of tokens and nodes of trees.
-/

namespace Calculator

/-! ## Kinds of tokens -/

/-- Kinds that are read as something are different from a kind that is not. -/
theorem TokenKind.ne_of_some {α : Type} {read? : TokenKind → Option α} {k k' : TokenKind} {a : α}
    (h : read? k = some a) (hnone : read? k' = none) : k ≠ k' := by
  rintro rfl
  rw [h] at hnone
  cases hnone

/-- A sum is made by `+` and `-`. -/
theorem Operator.ofSumKind?_eq_some_iff {k : TokenKind} {operator : Operator} :
    ofSumKind? k = some operator ↔ k = .plus ∧ operator = .add ∨ k = .minus ∧ operator = .sub := by
  cases k <;> simp [ofSumKind?, eq_comm]

/-- A product is made by `*`, `/` and `%`. -/
theorem Operator.ofProductKind?_eq_some_iff {k : TokenKind} {operator : Operator} :
    ofProductKind? k = some operator ↔
      k = .star ∧ operator = .mul ∨ k = .slash ∧ operator = .div ∨
        k = .percent ∧ operator = .mod := by
  cases k <;> simp [ofProductKind?, eq_comm]

/-- The signs are `+` and `-`. -/
theorem Sign.ofKind?_eq_some_iff {k : TokenKind} {sign : Sign} :
    ofKind? k = some sign ↔ k = .plus ∧ sign = .plus ∨ k = .minus ∧ sign = .minus := by
  cases k <;> simp [ofKind?, eq_comm]

/-! ## The grammar -/

/-- The parts of the grammar, from the loosest to the tightest. -/
inductive Category where
  | sum
  | product
  | power
  | operand
  | primary
deriving DecidableEq, Repr

/-- The kinds of tokens that go on with a complete part instead of ending it. -/
def Category.continues : Category → TokenKind → Bool
  | sum, k => k == .caret || (Operator.ofProductKind? k).isSome || (Operator.ofSumKind? k).isSome
  | product, k => k == .caret || (Operator.ofProductKind? k).isSome
  | power, k => k == .caret
  | operand, _ => false
  | primary, _ => false

/-- `Derives c ts e n`: the tokens `ts` make the tree `e` as a part of the category `c`, and inside
of it up to `n` levels, and no more, are open at a time. Every parenthesis, every sign and every
exponent opens a level; the level that the part itself lies on does not count. -/
inductive Derives : Category → List Token → Expr → Nat → Prop where
  /-- A product alone is a sum. -/
  | sumOfProduct {ts : List Token} {e : Expr} {n : Nat} :
      Derives .product ts e n → Derives .sum ts e n
  /-- A sum, `+` or `-`, and a product. -/
  | addition {ts us : List Token} {l r : Expr} {m n : Nat} {t : Token} {operator : Operator} :
      Derives .sum ts l m → Operator.ofSumKind? t.kind = some operator → Derives .product us r n →
      Derives .sum (ts ++ t :: us) (.combine operator l r) (max m n)
  /-- A power alone is a product. -/
  | productOfPower {ts : List Token} {e : Expr} {n : Nat} :
      Derives .power ts e n → Derives .product ts e n
  /-- A product, `*`, `/` or `%`, and a power. -/
  | multiplication {ts us : List Token} {l r : Expr} {m n : Nat} {t : Token}
      {operator : Operator} :
      Derives .product ts l m → Operator.ofProductKind? t.kind = some operator →
      Derives .power us r n →
      Derives .product (ts ++ t :: us) (.combine operator l r) (max m n)
  /-- An operand alone is a power. -/
  | powerOfOperand {ts : List Token} {e : Expr} {n : Nat} :
      Derives .operand ts e n → Derives .power ts e n
  /-- An operand, `^`, and a power one level deeper. -/
  | raising {ts us : List Token} {b e : Expr} {m n : Nat} {t : Token} :
      Derives .operand ts b m → t.kind = .caret → Derives .power us e n →
      Derives .power (ts ++ t :: us) (.combine .pow b e) (max m (n + 1))
  /-- A primary alone is an operand. -/
  | operandOfPrimary {ts : List Token} {e : Expr} {n : Nat} :
      Derives .primary ts e n → Derives .operand ts e n
  /-- A sign, and an operand one level deeper. -/
  | signing {ts : List Token} {e : Expr} {n : Nat} {t : Token} {sign : Sign} :
      Sign.ofKind? t.kind = some sign → Derives .operand ts e n →
      Derives .operand (t :: ts) (.withSign sign t.span e) (n + 1)
  /-- A number that has a value. -/
  | number {t : Token} {literal : Literal} :
      t.kind = .number → t.value = some literal →
      Derives .primary [t] (.number literal.value t.span) 0
  /-- A sum one level deeper, in parentheses. -/
  | group {ts : List Token} {e : Expr} {n : Nat} {opening closing : Token} :
      opening.kind = .openParen → Derives .sum ts e n → closing.kind = .closeParen →
      Derives .primary (opening :: (ts ++ [closing])) e (n + 1)

namespace Derives

variable {c : Category} {ts : List Token} {e : Expr} {n : Nat}

/-! ## The rules spelled out -/

/-- A sum is a product, or a sum, `+` or `-`, and a product. -/
theorem sum_iff :
    Derives .sum ts e n ↔
      Derives .product ts e n ∨
      ∃ (us vs : List Token) (t : Token) (l r : Expr) (m k : Nat),
        ts = us ++ t :: vs ∧ n = max m k ∧ Derives .sum us l m ∧ Derives .product vs r k ∧
          (t.kind = .plus ∧ e = .binary .add l r (l.span.merge r.span) ∨
            t.kind = .minus ∧ e = .binary .sub l r (l.span.merge r.span)) := by
  constructor
  · intro h
    cases h with
    | sumOfProduct h => exact .inl h
    | addition hl hop hr =>
      refine .inr ⟨_, _, _, _, _, _, _, rfl, rfl, hl, hr, ?_⟩
      rcases Operator.ofSumKind?_eq_some_iff.mp hop with ⟨hk, rfl⟩ | ⟨hk, rfl⟩
      · exact .inl ⟨hk, rfl⟩
      · exact .inr ⟨hk, rfl⟩
  · rintro (h | ⟨us, vs, t, l, r, m, k, rfl, rfl, hl, hr, ⟨hk, rfl⟩ | ⟨hk, rfl⟩⟩)
    · exact .sumOfProduct h
    · exact .addition hl (by rw [hk]; rfl) hr
    · exact .addition hl (by rw [hk]; rfl) hr

/-- A product is a power, or a product, `*`, `/` or `%`, and a power. -/
theorem product_iff :
    Derives .product ts e n ↔
      Derives .power ts e n ∨
      ∃ (us vs : List Token) (t : Token) (l r : Expr) (m k : Nat),
        ts = us ++ t :: vs ∧ n = max m k ∧ Derives .product us l m ∧ Derives .power vs r k ∧
          (t.kind = .star ∧ e = .binary .mul l r (l.span.merge r.span) ∨
            t.kind = .slash ∧ e = .binary .div l r (l.span.merge r.span) ∨
            t.kind = .percent ∧ e = .binary .mod l r (l.span.merge r.span)) := by
  constructor
  · intro h
    cases h with
    | productOfPower h => exact .inl h
    | multiplication hl hop hr =>
      refine .inr ⟨_, _, _, _, _, _, _, rfl, rfl, hl, hr, ?_⟩
      rcases Operator.ofProductKind?_eq_some_iff.mp hop with ⟨hk, rfl⟩ | ⟨hk, rfl⟩ | ⟨hk, rfl⟩
      · exact .inl ⟨hk, rfl⟩
      · exact .inr (.inl ⟨hk, rfl⟩)
      · exact .inr (.inr ⟨hk, rfl⟩)
  · rintro (h | ⟨us, vs, t, l, r, m, k, rfl, rfl, hl, hr, ⟨hk, rfl⟩ | ⟨hk, rfl⟩ | ⟨hk, rfl⟩⟩)
    · exact .productOfPower h
    · exact .multiplication hl (by rw [hk]; rfl) hr
    · exact .multiplication hl (by rw [hk]; rfl) hr
    · exact .multiplication hl (by rw [hk]; rfl) hr

/-- A power is an operand, or an operand, `^`, and a power one level deeper. -/
theorem power_iff :
    Derives .power ts e n ↔
      Derives .operand ts e n ∨
      ∃ (us vs : List Token) (t : Token) (l r : Expr) (m k : Nat),
        ts = us ++ t :: vs ∧ n = max m (k + 1) ∧ Derives .operand us l m ∧
          Derives .power vs r k ∧ t.kind = .caret ∧
          e = .binary .pow l r (l.span.merge r.span) := by
  constructor
  · intro h
    cases h with
    | powerOfOperand h => exact .inl h
    | raising hb hk he => exact .inr ⟨_, _, _, _, _, _, _, rfl, rfl, hb, he, hk, rfl⟩
  · rintro (h | ⟨us, vs, t, l, r, m, k, rfl, rfl, hl, hr, hk, rfl⟩)
    · exact .powerOfOperand h
    · exact .raising hl hk hr

/-- An operand is a primary, or `+` or `-` and an operand one level deeper. -/
theorem operand_iff :
    Derives .operand ts e n ↔
      Derives .primary ts e n ∨
      ∃ (us : List Token) (t : Token) (x : Expr) (k : Nat),
        ts = t :: us ∧ n = k + 1 ∧ Derives .operand us x k ∧
          (t.kind = .plus ∧ e = .signed .plus x (t.span.merge x.span) ∨
            t.kind = .minus ∧ e = .signed .minus x (t.span.merge x.span)) := by
  constructor
  · intro h
    cases h with
    | operandOfPrimary h => exact .inl h
    | signing hsign h =>
      refine .inr ⟨_, _, _, _, rfl, rfl, h, ?_⟩
      rcases Sign.ofKind?_eq_some_iff.mp hsign with ⟨hk, rfl⟩ | ⟨hk, rfl⟩
      · exact .inl ⟨hk, rfl⟩
      · exact .inr ⟨hk, rfl⟩
  · rintro (h | ⟨us, t, x, k, rfl, rfl, h, ⟨hk, rfl⟩ | ⟨hk, rfl⟩⟩)
    · exact .operandOfPrimary h
    · exact .signing (by rw [hk]; rfl) h
    · exact .signing (by rw [hk]; rfl) h

/-- A primary is a number token with a value, or `(`, a sum one level deeper, and `)`. -/
theorem primary_iff :
    Derives .primary ts e n ↔
      (∃ (t : Token) (literal : Literal), ts = [t] ∧ n = 0 ∧ t.kind = .number ∧
        t.value = some literal ∧ e = .number literal.value t.span) ∨
      ∃ (opening closing : Token) (us : List Token) (k : Nat),
        ts = opening :: (us ++ [closing]) ∧ n = k + 1 ∧ opening.kind = .openParen ∧
          Derives .sum us e k ∧ closing.kind = .closeParen := by
  constructor
  · intro h
    cases h with
    | number hk hvalue => exact .inl ⟨_, _, rfl, rfl, hk, hvalue, rfl⟩
    | group hopen h hclose => exact .inr ⟨_, _, _, _, rfl, rfl, hopen, h, hclose⟩
  · rintro (⟨t, literal, rfl, rfl, hk, hvalue, rfl⟩ |
      ⟨opening, closing, us, k, rfl, rfl, hopen, h, hclose⟩)
    · exact .number hk hvalue
    · exact .group hopen h hclose

/-! ## Parts of several categories -/

/-- A primary is an operand and a power as well. -/
theorem power_of_primary (h : Derives .primary ts e n) : Derives .power ts e n :=
  .powerOfOperand (.operandOfPrimary h)

/-- A primary is an operand, a power and a product as well. -/
theorem product_of_primary (h : Derives .primary ts e n) : Derives .product ts e n :=
  .productOfPower (power_of_primary h)

/-- A primary is an operand, a power, a product and a sum as well. -/
theorem sum_of_primary (h : Derives .primary ts e n) : Derives .sum ts e n :=
  .sumOfProduct (product_of_primary h)

/-- An operand is a power, a product and a sum as well. -/
theorem sum_of_operand (h : Derives .operand ts e n) : Derives .sum ts e n :=
  .sumOfProduct (.productOfPower (.powerOfOperand h))

/-- Every part has a token. -/
theorem ne_nil (h : Derives c ts e n) : ts ≠ [] := by
  induction h with
  | sumOfProduct _ ih => exact ih
  | productOfPower _ ih => exact ih
  | powerOfOperand _ ih => exact ih
  | operandOfPrimary _ ih => exact ih
  | addition => exact List.append_ne_nil_of_right_ne_nil _ (List.cons_ne_nil _ _)
  | multiplication => exact List.append_ne_nil_of_right_ne_nil _ (List.cons_ne_nil _ _)
  | raising => exact List.append_ne_nil_of_right_ne_nil _ (List.cons_ne_nil _ _)
  | signing => exact List.cons_ne_nil _ _
  | number => exact List.cons_ne_nil _ _
  | group => exact List.cons_ne_nil _ _

/-- No part reaches over an end token. -/
theorem kind_ne_endOfInput (h : Derives c ts e n) : ∀ t ∈ ts, t.kind ≠ .endOfInput := by
  induction h with
  | sumOfProduct _ ih => exact ih
  | productOfPower _ ih => exact ih
  | powerOfOperand _ ih => exact ih
  | operandOfPrimary _ ih => exact ih
  | addition _ hop _ ihl ihr =>
    rw [List.forall_mem_append, List.forall_mem_cons]
    exact ⟨ihl, TokenKind.ne_of_some hop rfl, ihr⟩
  | multiplication _ hop _ ihl ihr =>
    rw [List.forall_mem_append, List.forall_mem_cons]
    exact ⟨ihl, TokenKind.ne_of_some hop rfl, ihr⟩
  | raising _ hk _ ihl ihr =>
    rw [List.forall_mem_append, List.forall_mem_cons]
    exact ⟨ihl, by simp [hk], ihr⟩
  | signing hsign _ ih =>
    rw [List.forall_mem_cons]
    exact ⟨TokenKind.ne_of_some hsign rfl, ih⟩
  | number hk _ => simp [hk]
  | group ho _ hc ih =>
    rw [List.forall_mem_cons, List.forall_mem_append]
    exact ⟨by simp [ho], ih, by simp [hc]⟩

end Derives

end Calculator
