import Calculator.Proofs.ParseSteps

/-!
# What the grammar derives is read

Where the tokens at the front make a part of the grammar, the token behind them does not go on with
it and the limit leaves room for its levels, the parse of its category takes these tokens and makes
the same tree. Since a parse has one result, no list of tokens makes two trees.
-/

namespace Calculator

namespace Parse

variable {limit : Nat} {stop : Token}

/-- What a parse of a category does with tokens that make a part of this category. A sum or a
product is read up to the point where its chain may still go on, the other parts to their end. -/
def Reads (limit : Nat) (stop : Token) (c : Category) (ts : List Token) (e : Expr) (n : Nat) :
    Prop :=
  ∀ (us : List Token) (inside fuel depth : Nat), (ts ++ us).length < fuel →
    (ts ++ us).length ≤ inside → depth + n ≤ limit →
    match c with
    | .sum => Category.product.continues (us.headD stop).kind = false →
      ∃ left, us.length < left ∧ ofCategory limit inside fuel .sum ⟨ts ++ us, stop, depth⟩ =
        chainFrom Operator.ofSumKind? (ofCategory limit inside fuel .product) left e
          ⟨us, stop, depth⟩
    | .product => Category.power.continues (us.headD stop).kind = false →
      ∃ left, us.length < left ∧ ofCategory limit inside fuel .product ⟨ts ++ us, stop, depth⟩ =
        chainFrom Operator.ofProductKind? (ofCategory limit inside fuel .power) left e
          ⟨us, stop, depth⟩
    | c => c.continues (us.headD stop).kind = false →
      ofCategory limit inside fuel c ⟨ts ++ us, stop, depth⟩ = (.ok e, ⟨us, stop, depth⟩)

/-- A parse takes the tokens of a part to their end where the token behind them does not go on. -/
theorem Reads.run_eq {c : Category} {ts us : List Token} {e : Expr} {n inside fuel depth : Nat}
    (h : Reads limit stop c ts e n) (hfuel : (ts ++ us).length < fuel)
    (hinside : (ts ++ us).length ≤ inside) (hn : depth + n ≤ limit)
    (hend : c.continues (us.headD stop).kind = false) :
    ofCategory limit inside fuel c ⟨ts ++ us, stop, depth⟩ = (.ok e, ⟨us, stop, depth⟩) := by
  have h := h us inside fuel depth hfuel hinside hn
  cases c with
  | sum =>
    simp only [Category.continues, Bool.or_eq_false_iff, Option.isSome_eq_false_iff,
      Option.isNone_iff_eq_none] at h hend
    obtain ⟨left, -, hrun⟩ := h hend.1
    rw [hrun]
    exact chainFrom_of_none _ _ _ hend.2
  | product =>
    simp only [Category.continues, Bool.or_eq_false_iff, Option.isSome_eq_false_iff,
      Option.isNone_iff_eq_none] at h hend
    obtain ⟨left, -, hrun⟩ := h hend.1
    rw [hrun]
    exact chainFrom_of_none _ _ _ hend.2
  | power => exact h hend
  | operand => exact h hend
  | primary => exact h hend

/-- An operator of a sum does not go on with a product. -/
theorem product_continues_of_ofSumKind? {k : TokenKind} {operator : Operator}
    (h : Operator.ofSumKind? k = some operator) : Category.product.continues k = false := by
  rcases Operator.ofSumKind?_eq_some_iff.mp h with ⟨rfl, -⟩ | ⟨rfl, -⟩ <;> rfl

/-- An operator of a product does not go on with a power. -/
theorem power_continues_of_ofProductKind? {k : TokenKind} {operator : Operator}
    (h : Operator.ofProductKind? k = some operator) : Category.power.continues k = false := by
  rcases Operator.ofProductKind?_eq_some_iff.mp h with ⟨rfl, -⟩ | ⟨rfl, -⟩ | ⟨rfl, -⟩ <;> rfl

/-- No primary starts with a sign. -/
theorem sign_of_primary {ts : List Token} {e : Expr} {n : Nat} (h : Derives .primary ts e n)
    (us : List Token) (depth : Nat) :
    Sign.ofKind? (ParseState.current ⟨ts ++ us, stop, depth⟩).kind = none := by
  cases h with
  | number hk _ =>
    rw [List.cons_append, ParseState.current_cons, hk]
    rfl
  | group ho _ _ =>
    rw [List.cons_append, ParseState.current_cons, ho]
    rfl

/-- A chain takes in one operand more, and still has more fuel than there are tokens. -/
theorem chainFrom_step {operator? : TokenKind → Option Operator} {operand : Parse Expr}
    {l r : Expr} {t : Token} {operator : Operator} {ts us : List Token} {left depth : Nat}
    (hop : operator? t.kind = some operator) (hleft : (t :: (ts ++ us)).length < left)
    (hr : operand ⟨ts ++ us, stop, depth⟩ = (.ok r, ⟨us, stop, depth⟩)) :
    ∃ k, us.length < k ∧ chainFrom operator? operand left l ⟨t :: (ts ++ us), stop, depth⟩ =
      chainFrom operator? operand k (.combine operator l r) ⟨us, stop, depth⟩ := by
  simp only [List.length_cons, List.length_append] at hleft
  obtain ⟨k, rfl⟩ : ∃ k, left = k + 1 := ⟨left - 1, by omega⟩
  refine ⟨k, by omega, ?_⟩
  rw [chainFrom_of_some _ _ _ hop, ParseState.advance_cons, hr]

/-- Where the grammar derives a part, the parse of its category takes its tokens and makes its
tree. -/
theorem reads_of_derives {c : Category} {ts : List Token} {e : Expr} {n : Nat}
    (h : Derives c ts e n) : Reads limit stop c ts e n := by
  -- a chain is derived from the left, so its parse is followed up to where the chain may go on
  induction h with
  | sumOfProduct _ ih =>
    intro us inside fuel depth hfuel hinside hn hend
    refine ⟨fuel, by simp only [List.length_append] at hfuel; omega, ?_⟩
    rw [sum_apply, ih.run_eq hfuel hinside hn hend]
  | addition _ hop _ ihl ihr =>
    intro us inside fuel depth hfuel hinside hn hend
    rw [List.append_assoc, List.cons_append] at hfuel hinside ⊢
    obtain ⟨left, hleft, hrun⟩ := ihl _ inside fuel depth hfuel hinside (by omega)
      (product_continues_of_ofSumKind? hop)
    rw [hrun]
    simp only [List.length_append, List.length_cons] at hfuel hinside
    exact chainFrom_step hop hleft (ihr.run_eq (by simp only [List.length_append]; omega)
      (by simp only [List.length_append]; omega) (by omega) hend)
  | productOfPower _ ih =>
    intro us inside fuel depth hfuel hinside hn hend
    refine ⟨fuel, by simp only [List.length_append] at hfuel; omega, ?_⟩
    rw [product_apply, ih.run_eq hfuel hinside hn hend]
  | multiplication _ hop _ ihl ihr =>
    intro us inside fuel depth hfuel hinside hn hend
    rw [List.append_assoc, List.cons_append] at hfuel hinside ⊢
    obtain ⟨left, hleft, hrun⟩ := ihl _ inside fuel depth hfuel hinside (by omega)
      (power_continues_of_ofProductKind? hop)
    rw [hrun]
    simp only [List.length_append, List.length_cons] at hfuel hinside
    exact chainFrom_step hop hleft (ihr.run_eq (by simp only [List.length_append]; omega)
      (by simp only [List.length_append]; omega) (by omega) hend)
  | powerOfOperand _ ih =>
    intro us inside fuel depth hfuel hinside hn hend
    obtain ⟨fuel, rfl⟩ : ∃ k, fuel = k + 1 := ⟨fuel - 1, by omega⟩
    have hcaret : (us.headD stop).kind ≠ .caret := by simpa [Category.continues] using hend
    rw [power_apply, ih.run_eq hfuel hinside hn rfl]
    exact if_neg hcaret
  | @raising ts vs b e m n t _ hk _ ihb ihe =>
    intro us inside fuel depth hfuel hinside hn hend
    obtain ⟨fuel, rfl⟩ : ∃ k, fuel = k + 1 := ⟨fuel - 1, by omega⟩
    rw [List.append_assoc, List.cons_append] at hfuel hinside ⊢
    rw [power_apply, ihb.run_eq hfuel hinside (by omega) rfl]
    simp only [List.length_append, List.length_cons] at hfuel hinside
    -- the exponent is read with one unit of fuel less, on the next level
    have hexponent : ofCategory limit inside fuel .power ⟨vs ++ us, stop, depth + 1⟩ =
        (.ok e, ⟨us, stop, depth + 1⟩) :=
      ihe.run_eq (by simp only [List.length_append]; omega)
        (by simp only [List.length_append]; omega) (by omega) hend
    simp only [ParseState.current_cons, hk, if_true, ParseState.advance_cons,
      nested_of_eq (show depth < limit by omega) hexponent]
  | operandOfPrimary h ih =>
    intro us inside fuel depth hfuel hinside hn hend
    obtain ⟨fuel, rfl⟩ : ∃ k, fuel = k + 1 := ⟨fuel - 1, by omega⟩
    rw [operand_apply, sign_of_primary h]
    exact ih.run_eq hfuel hinside hn rfl
  | @signing ts e n t sign hsign _ ih =>
    intro us inside fuel depth hfuel hinside hn hend
    obtain ⟨fuel, rfl⟩ : ∃ k, fuel = k + 1 := ⟨fuel - 1, by omega⟩
    rw [List.cons_append, List.length_cons] at hfuel hinside
    have hoperand : ofCategory limit inside fuel .operand ⟨ts ++ us, stop, depth + 1⟩ =
        (.ok e, ⟨us, stop, depth + 1⟩) :=
      ih.run_eq (by omega) (by omega) (by omega) rfl
    rw [operand_apply]
    simp only [List.cons_append, ParseState.current_cons, hsign, ParseState.advance_cons,
      nested_of_eq (show depth < limit by omega) hoperand]
  | number hk hv =>
    intro us inside fuel depth hfuel hinside hn hend
    rw [primary_apply]
    simp only [List.cons_append, List.nil_append, ParseState.current_cons, hk, hv,
      ParseState.advance_cons]
  | @group ts e n opening closing ho _ hc ih =>
    intro us inside fuel depth hfuel hinside hn hend
    rw [List.cons_append, List.append_assoc, List.singleton_append] at hfuel hinside ⊢
    rw [List.length_cons] at hinside
    obtain ⟨inside, rfl⟩ : ∃ k, inside = k + 1 := ⟨inside - 1, by omega⟩
    have hsum : ofCategory limit inside (inside + 1) .sum ⟨ts ++ closing :: us, stop, depth + 1⟩ =
        (.ok e, ⟨closing :: us, stop, depth + 1⟩) :=
      ih.run_eq (by omega) (by omega) (by omega) (by rw [List.headD_cons, hc]; rfl)
    rw [primary_apply]
    simp only [ParseState.current_cons, ho, ParseState.advance_cons, expression_apply,
      nested_of_eq (show depth < limit by omega) hsum, hc, if_true]

/-- A list of tokens that makes a sum is read as a whole, where the limit leaves room for one level
more than are open inside of it. -/
theorem whole_of_derives {ts : List Token} {e : Expr} {n : Nat} (h : Derives .sum ts e n)
    (hstop : stop.kind = .endOfInput) (hn : n + 1 ≤ limit) :
    whole limit (ts.length + 1) ⟨ts, stop, 0⟩ = (.ok e, ⟨[], stop, 0⟩) := by
  have hsum : ofCategory limit ts.length (ts.length + 1) .sum ⟨ts ++ [], stop, 1⟩ =
      (.ok e, ⟨[], stop, 1⟩) :=
    (reads_of_derives h).run_eq (by simp) (by simp) (by omega)
      (by rw [List.headD_nil, hstop]; rfl)
  rw [List.append_nil] at hsum
  rw [whole_apply, expression_apply, nested_of_eq (show 0 < limit by omega) hsum]
  exact if_pos hstop

end Parse

/-- No list of tokens makes two trees. -/
theorem Derives.tree_unique {ts : List Token} {e f : Expr} {m n : Nat}
    (he : Derives .sum ts e m) (hf : Derives .sum ts f n) : e = f := by
  have hread : Parse.whole (max m n + 1) (ts.length + 1) ⟨ts, .endOfInput 0, 0⟩ =
      (.ok e, ⟨[], .endOfInput 0, 0⟩) :=
    Parse.whole_of_derives he rfl (by omega)
  rw [Parse.whole_of_derives hf rfl (by omega)] at hread
  cases hread
  rfl

end Calculator
