import Calculator.Expr.Text
import Calculator.Proofs.HighestLevel
import Calculator.Proofs.Scanning

/-!
# The text of an expression is parsed to the expression

The text of an expression whose numbers are finite and have no sign is one primary of the grammar:
a number, or a parenthesis around one sign or one operator. So it does not depend on any rule of
precedence that the text is parsed to the same tree again, and the levels that are open inside of
the text can be counted on the tree.
-/

namespace Calculator

namespace Expr

/-- All numbers of an expression are finite and have no sign. -/
def Unsigned : Expr → Prop
  | number value _ => ∃ m : Magnitude, value = .finite false m
  | signed _ operand _ => operand.Unsigned
  | binary _ left right _ => left.Unsigned ∧ right.Unsigned

/-- The number of levels inside the text of an expression that are open at a time: a parenthesis is
one, and a sign or an exponent in it is another one. -/
def levels : Expr → Nat
  | number .. => 0
  | signed _ operand _ => 2 + operand.levels
  | binary operator left right _ =>
    1 + max left.levels (right.levels + if operator = .pow then 1 else 0)

/-- An expression with the same empty span at each of its parts. -/
def withoutSpans : Expr → Expr
  | number value _ => .number value (.point 0)
  | signed sign operand _ => .signed sign operand.withoutSpans (.point 0)
  | binary operator left right _ =>
    .binary operator left.withoutSpans right.withoutSpans (.point 0)

end Expr

/-! ## The symbols of signs and operators -/

/-- The symbol of a sign makes a token that is read as this sign. -/
theorem Sign.exists_kind (sign : Sign) :
    ∃ k, TokenKind.ofSymbol? sign.symbol = some k ∧ Sign.ofKind? k = some sign := by
  cases sign <;> exact ⟨_, rfl, rfl⟩

/-- Two primaries with an operator of a sum between them are a sum. -/
theorem Derives.sum_of_ofSumKind? {ts us : List Token} {l r : Expr} {m n : Nat} {t : Token}
    {operator : Operator} (hl : Derives .primary ts l m) (hr : Derives .primary us r n)
    (hop : Operator.ofSumKind? t.kind = some operator) :
    Derives .sum (ts ++ t :: us) (.combine operator l r) (max m n) :=
  .addition hl.sum_of_primary hop hr.product_of_primary

/-- Two primaries with an operator of a product between them are a sum. -/
theorem Derives.sum_of_ofProductKind? {ts us : List Token} {l r : Expr} {m n : Nat} {t : Token}
    {operator : Operator} (hl : Derives .primary ts l m) (hr : Derives .primary us r n)
    (hop : Operator.ofProductKind? t.kind = some operator) :
    Derives .sum (ts ++ t :: us) (.combine operator l r) (max m n) :=
  .sumOfProduct (.multiplication hl.product_of_primary hop hr.power_of_primary)

/-- The symbol of an operator makes a token that joins two primaries to a sum with this operator at
its root. An exponent opens a level. -/
theorem Operator.exists_kind (operator : Operator) :
    ∃ k, TokenKind.ofSymbol? operator.symbol = some k ∧
      ∀ {ts us : List Token} {l r : Expr} {m n : Nat} {t : Token}, t.kind = k →
        Derives .primary ts l m → Derives .primary us r n →
        Derives .sum (ts ++ t :: us) (.combine operator l r)
          (max m (n + if operator = .pow then 1 else 0)) := by
  cases operator with
  | add => exact ⟨.plus, rfl, fun ht hl hr => hl.sum_of_ofSumKind? hr (by rw [ht]; rfl)⟩
  | sub => exact ⟨.minus, rfl, fun ht hl hr => hl.sum_of_ofSumKind? hr (by rw [ht]; rfl)⟩
  | mul => exact ⟨.star, rfl, fun ht hl hr => hl.sum_of_ofProductKind? hr (by rw [ht]; rfl)⟩
  | div => exact ⟨.slash, rfl, fun ht hl hr => hl.sum_of_ofProductKind? hr (by rw [ht]; rfl)⟩
  | mod => exact ⟨.percent, rfl, fun ht hl hr => hl.sum_of_ofProductKind? hr (by rw [ht]; rfl)⟩
  | pow =>
    refine ⟨.caret, rfl, fun ht hl hr => ?_⟩
    have hpower := Derives.raising (.operandOfPrimary hl) ht hr.power_of_primary
    exact .sumOfProduct (.productOfPower hpower)

/-! ## From the text to the tree -/

/-- A text between parentheses that is scanned to a sum is scanned to a primary with them. -/
theorem exists_reads_group {cs rest : List Char} {ts : List Token} {f : Expr} {p q n : Nat}
    (hreads : Scanner.Reads ⟨p + 1, cs⟩ ts ⟨q, ')' :: rest⟩) (hsum : Derives .sum ts f n) :
    ∃ us, Scanner.Reads ⟨p, '(' :: cs⟩ us ⟨q + 1, rest⟩ ∧ Derives .primary us f (n + 1) := by
  have hclose : Scanner.Reads ⟨q, ')' :: rest⟩ [Scanner.symbolToken .closeParen ')' q]
      ⟨q + 1, rest⟩ := .symbol rfl (.nil _)
  exact ⟨_, .symbol (k := .openParen) rfl (hreads.append hclose), .group rfl hsum rfl⟩

/-- The text of an expression is scanned to tokens that make the expression again, as a primary with
as many levels as its text opens. -/
theorem Expr.exists_reads (e : Expr) (he : e.Unsigned) (p : Nat) {rest : List Char}
    (hrest : EndsNumeral rest) :
    ∃ ts q f, Scanner.Reads ⟨p, e.charsBefore rest⟩ ts ⟨q, rest⟩ ∧
      Derives .primary ts f e.levels ∧ f.withoutSpans = e.withoutSpans := by
  -- a part stands in front of `)` or of a blank, so what follows the text is kept general
  induction e generalizing p rest with
  | number value span =>
    obtain ⟨m, rfl⟩ := he
    obtain ⟨n, hn, htext, hvalue⟩ := exists_numeral_of_magnitude m
    have hchars : charsBefore (.number (.finite false m) span) rest = n.chars ++ rest :=
      congrArg (· ++ rest) htext
    rw [hchars]
    refine ⟨_, _, _, .numeral hn hrest (.nil _), .number rfl rfl, ?_⟩
    rw [withoutSpans, withoutSpans, Literal.value_ofNumeral, hvalue]
  | signed sign operand span ih =>
    obtain ⟨k, hk, hsign⟩ := sign.exists_kind
    obtain ⟨ts, q, f, hreads, hderives, hspans⟩ :=
      ih he (p + 2) (endsNumeral_cons rest (c := ')') rfl (by decide))
    have hoperand : Derives .operand (Scanner.symbolToken k sign.symbol (p + 1) :: ts)
        (.withSign sign ⟨p + 1, p + 2⟩ f) (operand.levels + 1) :=
      .signing hsign (.operandOfPrimary hderives)
    obtain ⟨us, hgroup, hprimary⟩ :=
      exists_reads_group (.symbol hk hreads) hoperand.sum_of_operand
    refine ⟨us, q + 1, .withSign sign ⟨p + 1, p + 2⟩ f, hgroup, ?_, ?_⟩
    · rw [levels, Nat.add_comm 2]
      exact hprimary
    · rw [withSign, withoutSpans, withoutSpans, hspans]
  | binary operator left right span ihl ihr =>
    obtain ⟨k, hk, hjoin⟩ := operator.exists_kind
    obtain ⟨ts, q, l, hleft, hl, hlspans⟩ :=
      ihl he.1 (p + 1) (endsNumeral_cons _ (c := ' ') rfl (by decide))
    obtain ⟨us, q', r, hright, hr, hrspans⟩ :=
      ihr he.2 (q + 3) (endsNumeral_cons rest (c := ')') rfl (by decide))
    have hne : us ≠ [] := hr.ne_nil
    have hoperator : Scanner.Reads
        ⟨q, ' ' :: operator.symbol :: ' ' :: right.charsBefore (')' :: rest)⟩
        (Scanner.symbolToken k operator.symbol (q + 1) :: us) ⟨q', ')' :: rest⟩ :=
      .of_blank rfl (List.cons_ne_nil _ _) (.symbol hk (.of_blank rfl hne hright))
    obtain ⟨ws, hgroup, hprimary⟩ := exists_reads_group (hleft.append hoperator) (hjoin rfl hl hr)
    refine ⟨ws, q' + 1, .combine operator l r, hgroup, ?_, ?_⟩
    · rw [levels, Nat.add_comm 1]
      exact hprimary
    · rw [combine, withoutSpans, withoutSpans, hlspans, hrspans]

/-- The text of an expression is scanned to tokens that make the expression again before the end
token. -/
theorem Expr.exists_tokens (e : Expr) (he : e.Unsigned) :
    ∃ tokens f, tokenize e.text.toList = .ok tokens ∧
      Derives .sum (beforeEnd tokens) f e.levels ∧ f.withoutSpans = e.withoutSpans := by
  obtain ⟨ts, p, f, hreads, hderives, hspans⟩ := e.exists_reads he 0 endsNumeral_nil
  refine ⟨ts ++ [.endOfInput p], f, ?_, ?_, hspans⟩
  · rw [text, String.toList_ofList]
    exact hreads.tokenize_eq
  · rw [(beforeEnd_append rfl hderives.kind_ne_endOfInput).1]
    exact hderives.sum_of_primary

/-- **The text of an expression is parsed to the expression.** The text of an expression whose
numbers are finite and have no sign consists of tokens. With a limit that leaves room for the levels
of the text and the level of the whole expression, they are parsed to the same expression up to its
spans; with any other limit there is a level too many. -/
theorem parse_text (e : Expr) (he : e.Unsigned) :
    ∃ tokens, tokenize e.text.toList = .ok tokens ∧ ∀ limit,
      (1 + e.levels ≤ limit →
        ∃ f, parse limit tokens = .ok f ∧ f.withoutSpans = e.withoutSpans) ∧
      (limit < 1 + e.levels →
        ∃ err, parse limit tokens = .error err ∧ err.code = .nestingTooDeep) := by
  obtain ⟨tokens, f, htokens, hderives, hspans⟩ := e.exists_tokens he
  refine ⟨tokens, htokens, fun limit => ⟨fun hlimit => ?_, fun hlimit => ?_⟩⟩
  · exact ⟨f, parse_eq_ok_iff.mpr ⟨e.levels, by omega, hderives⟩, hspans⟩
  · have hlt : limit < e.levels + 1 := by omega
    obtain ⟨t, hparse⟩ := parse_eq_tooDeep hderives hlt
    exact ⟨_, hparse, rfl⟩

/-- `(0.5 ^ (-0.5))` needs five levels: the whole, two parentheses, an exponent and a sign. -/
theorem parse_text_signed_exponent :
    let half : Expr := .number (.finite false ⟨2 ^ 52, 1021, by decide⟩) (.point 0)
    let e : Expr := .binary .pow half (.signed .minus half (.point 0)) (.point 0)
    e.text = "(0.5 ^ (-0.5))" ∧ ∃ tokens, tokenize e.text.toList = .ok tokens ∧
      (∃ f, parse 5 tokens = .ok f ∧ f.withoutSpans = e.withoutSpans) ∧
      (∃ err, parse 4 tokens = .error err ∧ err.code = .nestingTooDeep) := by
  intro half e
  refine ⟨by decide +kernel, ?_⟩
  obtain ⟨tokens, htokens, hparse⟩ := parse_text e ⟨⟨_, rfl⟩, _, rfl⟩
  exact ⟨tokens, htokens, (hparse 5).1 (by decide), (hparse 4).2 (by decide)⟩

end Calculator
