import Calculator.Proofs.ErrorPlaces
import Mathlib.Data.List.Forall2

/-!
# Texts with the same words

Blanks only part the words of a text. If two texts have the same words, then reading and evaluating
them goes through the same steps, and only the places differ. A relation between the places of the
one text and those of the other is carried along: from the tokens to the nodes of the trees, where a
node starts at the first of its tokens, and from the nodes to the errors.
-/

namespace Calculator

/-! ## The same error at another place -/

/-- The error at the place `p`. -/
def LexicalError.moveTo (e : LexicalError) (p : Nat) : LexicalError :=
  { e with position := p }

/-- The error at the place `p`. -/
def StructuralError.moveTo (e : StructuralError) (p : Nat) : StructuralError :=
  { e with position := p }

/-- The error at the place `p`. -/
def EvaluationError.moveTo : EvaluationError → Nat → EvaluationError
  | divisionByZero _, p => divisionByZero p
  | moduloByZero _, p => moduloByZero p
  | domain base exponent _, p => domain base exponent p
  | zeroToNegativePower _, p => zeroToNegativePower p
  | overflow context _, p => overflow context p
  | depthExceeded limit _, p => depthExceeded limit p

/-- The error at the place `p`, with all else that it says. -/
def Error.moveTo : Error → Nat → Error
  | lexical e, p => lexical (e.moveTo p)
  | structural e, p => structural (e.moveTo p)
  | evaluation e, p => evaluation (e.moveTo p)

/-- An error lies where it is moved to. -/
@[simp] theorem Error.position_moveTo (e : Error) (p : Nat) : (e.moveTo p).position = p := by
  cases e with
  | lexical => rfl
  | structural => rfl
  | evaluation e => cases e <;> rfl

/-! ## Tokens and trees that differ in their places only -/

/-- Tokens of the same word at places that `R` relates. -/
structure Token.Alike (R : Nat → Nat → Prop) (t u : Token) : Prop where
  kind_eq : t.kind = u.kind
  lexeme_eq : t.lexeme = u.lexeme
  value_eq : t.value = u.value
  place : R t.position u.position

/-- Expressions of the same shape, with the same leaves, whose nodes start at places that `R`
relates. -/
inductive Expr.Alike (R : Nat → Nat → Prop) : Expr → Expr → Prop where
  | number {x : Binary64} {s t : Span} :
      R s.start t.start → Alike R (.number x s) (.number x t)
  | signed {sign : Sign} {e f : Expr} {s t : Span} :
      R s.start t.start → Alike R e f → Alike R (.signed sign e s) (.signed sign f t)
  | binary {operator : Operator} {l r l' r' : Expr} {s t : Span} :
      R s.start t.start → Alike R l l' → Alike R r r' →
      Alike R (.binary operator l r s) (.binary operator l' r' t)

/-- Of two related pairs of places, the lesser places are related as well. -/
def MinClosed (R : Nat → Nat → Prop) : Prop :=
  ∀ ⦃p q p' q' : Nat⦄, R p q → R p' q' → R (min p p') (min q q')

section Alike

variable {R : Nat → Nat → Prop}

/-- Expressions that are alike start at related places. -/
theorem Expr.Alike.place {e f : Expr} (h : e.Alike R f) : R e.span.start f.span.start := by
  cases h with
  | number hp => exact hp
  | signed hp => exact hp
  | binary hp => exact hp

/-- A sign before an operand makes expressions that are alike. -/
theorem Expr.Alike.withSign {e f : Expr} {t u : Token} (hR : MinClosed R) (h : e.Alike R f)
    (ht : t.Alike R u) (sign : Sign) :
    (Expr.withSign sign t.span e).Alike R (.withSign sign u.span f) :=
  .signed (hR ht.place h.place) h

/-- An operator between two operands makes expressions that are alike. -/
theorem Expr.Alike.combine {l r l' r' : Expr} (hR : MinClosed R) (hl : l.Alike R l')
    (hr : r.Alike R r') (operator : Operator) :
    (Expr.combine operator l r).Alike R (.combine operator l' r') :=
  .binary (hR hl.place hr.place) hl hr

/-! ## Reading -/

/-- A list that is related to a list in two parts has two parts as well. -/
theorem exists_of_forall₂_append {α β : Type} {S : α → β → Prop} {as bs : List α} {cs : List β}
    (h : List.Forall₂ S (as ++ bs) cs) :
    ∃ cs₁ cs₂, cs = cs₁ ++ cs₂ ∧ List.Forall₂ S as cs₁ ∧ List.Forall₂ S bs cs₂ := by
  have hflip : List.Forall₂ (flip S) cs (as ++ bs) := h.flip
  exact ⟨cs.take as.length, cs.drop as.length, (List.take_append_drop _ _).symm,
    (List.forall₂_take_append cs as bs hflip).flip, (List.forall₂_drop_append cs as bs hflip).flip⟩

/-- Two parts with a token between them, and tokens that are alike. -/
theorem exists_of_forall₂_infix {ts us vs : List Token} {t : Token}
    (h : List.Forall₂ (Token.Alike R) (ts ++ t :: us) vs) :
    ∃ ts' t' us', vs = ts' ++ t' :: us' ∧ List.Forall₂ (Token.Alike R) ts ts' ∧ t.Alike R t' ∧
      List.Forall₂ (Token.Alike R) us us' := by
  obtain ⟨ts', vs', rfl, hts, hvs⟩ := exists_of_forall₂_append h
  obtain ⟨t', us', ht, hus, rfl⟩ := List.forall₂_cons_left_iff.mp hvs
  exact ⟨ts', t', us', rfl, hts, ht, hus⟩

/-- Tokens that are alike make expressions that are alike, with the same levels. -/
theorem Derives.exists_alike (hR : MinClosed R) {c : Category} {ts us : List Token} {e : Expr}
    {n : Nat} (h : Derives c ts e n) (hus : List.Forall₂ (Token.Alike R) ts us) :
    ∃ f, Derives c us f n ∧ e.Alike R f := by
  induction h generalizing us with
  | sumOfProduct _ ih =>
    obtain ⟨f, hf, halike⟩ := ih hus
    exact ⟨f, .sumOfProduct hf, halike⟩
  | productOfPower _ ih =>
    obtain ⟨f, hf, halike⟩ := ih hus
    exact ⟨f, .productOfPower hf, halike⟩
  | powerOfOperand _ ih =>
    obtain ⟨f, hf, halike⟩ := ih hus
    exact ⟨f, .powerOfOperand hf, halike⟩
  | operandOfPrimary _ ih =>
    obtain ⟨f, hf, halike⟩ := ih hus
    exact ⟨f, .operandOfPrimary hf, halike⟩
  | addition _ hop _ ihl ihr =>
    obtain ⟨ls, t, rs, rfl, hls, ht, hrs⟩ := exists_of_forall₂_infix hus
    obtain ⟨l, hl, hlalike⟩ := ihl hls
    obtain ⟨r, hr, hralike⟩ := ihr hrs
    exact ⟨_, .addition hl (ht.kind_eq ▸ hop) hr, hlalike.combine hR hralike _⟩
  | multiplication _ hop _ ihl ihr =>
    obtain ⟨ls, t, rs, rfl, hls, ht, hrs⟩ := exists_of_forall₂_infix hus
    obtain ⟨l, hl, hlalike⟩ := ihl hls
    obtain ⟨r, hr, hralike⟩ := ihr hrs
    exact ⟨_, .multiplication hl (ht.kind_eq ▸ hop) hr, hlalike.combine hR hralike _⟩
  | raising _ hk _ ihl ihr =>
    obtain ⟨ls, t, rs, rfl, hls, ht, hrs⟩ := exists_of_forall₂_infix hus
    obtain ⟨l, hl, hlalike⟩ := ihl hls
    obtain ⟨r, hr, hralike⟩ := ihr hrs
    exact ⟨_, .raising hl (ht.kind_eq ▸ hk) hr, hlalike.combine hR hralike _⟩
  | signing hsign _ ih =>
    obtain ⟨t, us, ht, hrest, rfl⟩ := List.forall₂_cons_left_iff.mp hus
    obtain ⟨f, hf, halike⟩ := ih hrest
    exact ⟨_, .signing (ht.kind_eq ▸ hsign) hf, halike.withSign hR ht _⟩
  | number hk hvalue =>
    obtain ⟨t, us, ht, hrest, rfl⟩ := List.forall₂_cons_left_iff.mp hus
    obtain rfl := List.forall₂_nil_left_iff.mp hrest
    exact ⟨_, .number (ht.kind_eq ▸ hk) (ht.value_eq ▸ hvalue), .number ht.place⟩
  | group ho _ hc ih =>
    obtain ⟨opening, us, hopening, hrest, rfl⟩ := List.forall₂_cons_left_iff.mp hus
    obtain ⟨us, closing, vs, rfl, hus', hclosing, hvs⟩ := exists_of_forall₂_infix hrest
    obtain rfl := List.forall₂_nil_left_iff.mp hvs
    obtain ⟨f, hf, halike⟩ := ih hus'
    exact ⟨f, .group (hopening.kind_eq ▸ ho) hf (hclosing.kind_eq ▸ hc), halike⟩

/-- The same is wrong with tokens that are alike. -/
theorem Situation.fault?_alike {t u : Token} (h : t.Alike R u) (σ : Situation) :
    σ.fault? t = σ.fault? u := by
  simp only [fault?, h.kind_eq, h.value_eq]

/-- A fault makes the same error at tokens that are alike, each at its own place. -/
theorem Fault.errorAt_alike {t u : Token} (h : t.Alike R u) (f : Fault) :
    f.errorAt u = (f.errorAt t).moveTo u.position := by
  rw [errorAt, errorAt, StructuralError.moveTo, h.lexeme_eq]

/-- Where an error stops a reader of some tokens, the same error stops him at a related place in
tokens that are alike. -/
theorem Situation.exists_failure?_alike {ts us : List Token} {stop stop' : Token} {limit : Nat}
    (h : List.Forall₂ (Token.Alike R) ts us) (hstop : stop.Alike R stop') {σ : Situation}
    {err : StructuralError} {rest : List Token}
    (hfail : σ.failure? limit stop ts = some (err, rest)) :
    ∃ q rest', R err.position q ∧ σ.failure? limit stop' us = some (err.moveTo q, rest') := by
  induction h generalizing σ with
  | nil =>
    rw [failure?] at hfail ⊢
    split at hfail
    · next hlevel =>
      cases hfail
      exact ⟨_, _, hstop.place, by rw [if_pos hlevel, Fault.errorAt_alike hstop]⟩
    · next hlevel =>
      rw [fault?_alike hstop] at hfail
      obtain ⟨f, hf, hpair⟩ := Option.map_eq_some_iff.mp hfail
      cases hpair
      refine ⟨_, [], hstop.place, ?_⟩
      rw [if_neg hlevel, hf, Option.map_some, Fault.errorAt_alike hstop]
  | @cons t u ts us htu _ ih =>
    by_cases hlevel : limit < σ.level
    · rw [failure?, if_pos hlevel] at hfail
      cases hfail
      exact ⟨_, _, htu.place, by rw [failure?, if_pos hlevel, Fault.errorAt_alike htu]⟩
    have hroom := Nat.not_lt.mp hlevel
    cases hfault : σ.fault? t with
    | some f =>
      rw [failure?_of_some hroom hfault] at hfail
      rw [fault?_alike htu] at hfault
      cases hfail
      refine ⟨u.position, if f = .valueMissing then us else u :: us, htu.place, ?_⟩
      rw [failure?_of_some hroom hfault, Fault.errorAt_alike htu]
    | none =>
      rw [failure?_of_none hroom hfault] at hfail
      rw [fault?_alike htu] at hfault
      obtain ⟨q, rest', hq, hother⟩ := ih hfail
      exact ⟨q, rest', hq, by rwa [failure?_of_none hroom hfault, ← htu.kind_eq]⟩

/-! ## Evaluating -/

/-- The result `y` follows the result `x`: the same value, or the same error at a related place. -/
inductive Follows (R : Nat → Nat → Prop) :
    Except EvaluationError Binary64 → Except EvaluationError Binary64 → Prop where
  | ok (x : Binary64) : Follows R (.ok x) (.ok x)
  | error {err : EvaluationError} {q : Nat} :
      R err.position q → Follows R (.error err) (.error (err.moveTo q))

namespace Follows

variable {x y : Except EvaluationError Binary64}

/-- What is done with a value keeps results one after the other. -/
theorem bind (h : Follows R x y) {f g : Binary64 → Except EvaluationError Binary64}
    (hfg : ∀ a, Follows R (f a) (g a)) : Follows R (x >>= f) (y >>= g) := by
  cases h with
  | ok a => exact hfg a
  | error hq => exact .error hq

/-- A number is required to be finite at related places. -/
theorem requireFinite {p q : Nat} (h : R p q) (context : String) (a : Binary64) :
    Follows R (requireFinite context p a) (Calculator.requireFinite context q a) := by
  unfold Calculator.requireFinite
  split
  · exact .ok a
  · exact .error h

/-- An operator is applied at related places. -/
theorem apply {p q p' q' : Nat} (hright : R p q) (hstart : R p' q') (operator : Operator)
    (a b : Binary64) : Follows R (operator.apply a b p p') (operator.apply a b q q') := by
  cases operator with
  | add => exact requireFinite hstart _ _
  | sub => exact requireFinite hstart _ _
  | mul => exact requireFinite hstart _ _
  | div =>
    simp only [Operator.apply, quotient]
    split
    · exact .error hright
    · exact requireFinite hstart _ _
  | mod =>
    simp only [Operator.apply, modulo]
    split
    · exact .error hright
    · exact requireFinite hstart _ _
  | pow =>
    simp only [Operator.apply, power]
    split
    · exact .error hstart
    · split
      · exact .error hstart
      · exact requireFinite hstart _ _

end Follows

/-- The values of expressions that are alike follow one another. -/
theorem Expr.Alike.follows {e f : Expr} (h : e.Alike R f) (limit room : Nat) :
    Follows R (e.valueWithin limit room) (f.valueWithin limit room) := by
  induction h generalizing room with
  | number hp =>
    cases room with
    | zero => exact .error hp
    | succ room => exact .requireFinite hp _ _
  | signed hp _ ih =>
    cases room with
    | zero => exact .error hp
    | succ room => exact (ih room).bind fun a => .ok _
  | binary hp _ hr ihl ihr =>
    cases room with
    | zero => exact .error hp
    | succ room =>
      exact (ihl room).bind fun a => (ihr room).bind fun b => .apply hr.place hp _ a b

end Alike

/-! ## The words of a text determine what it comes to -/

/-- The value of a token is determined by its kind and its lexeme. -/
theorem MakesWord.value_eq {p : Nat} {chars : List Char} {t : Token}
    (h : MakesWord p chars (.ok t)) :
    t.value = if t.kind = .number then some (.ofNumeral (Numeral.take t.lexeme.toList).1)
      else none := by
  cases h with
  | @numeral n hn =>
    have htake := Numeral.take_chars_append hn (endsNumeral_nil.endsBefore n)
    rw [List.append_nil] at htake
    show some (Literal.ofNumeral n) =
      some (.ofNumeral (Numeral.take (String.ofList n.chars).toList).1)
    rw [String.toList_ofList, htake]
  | symbol hk => exact (if_neg (Scanner.symbol_ne_number hk)).symm

/-- Tokens of the same word, wherever they stand. -/
structure Token.SameWord (t u : Token) : Prop where
  kind_eq : t.kind = u.kind
  lexeme_eq : t.lexeme = u.lexeme

/-- The places of one and the same token in two lists of tokens. -/
def SameToken (ts us : List Token) (p q : Nat) : Prop :=
  ∃ (i : Nat) (a b : Token), ts[i]? = some a ∧ us[i]? = some b ∧ p = a.position ∧
    q = b.position

/-- A later token of a list starts at a later place. -/
theorem InOrder.position_le {ts : List Token} (h : InOrder ts) {i j : Nat} {a b : Token}
    (ha : ts[i]? = some a) (hb : ts[j]? = some b) (hij : i ≤ j) : a.position ≤ b.position := by
  obtain ⟨hi, rfl⟩ := List.getElem?_eq_some_iff.mp ha
  obtain ⟨hj, rfl⟩ := List.getElem?_eq_some_iff.mp hb
  rcases Nat.eq_or_lt_of_le hij with rfl | hlt
  · exact Nat.le_refl _
  · exact List.pairwise_iff_getElem.mp h i j hi hj hlt

/-- In lists of tokens that follow one another, the first of two tokens has the lesser place in the
one list and in the other. -/
theorem minClosed_sameToken {ts us : List Token} (hts : InOrder ts) (hus : InOrder us) :
    MinClosed (SameToken ts us) := by
  rintro p q p' q' ⟨i, a, b, ha, hb, rfl, rfl⟩ ⟨j, a', b', ha', hb', rfl, rfl⟩
  rcases Nat.le_total i j with hij | hji
  · have hle := hts.position_le ha ha' hij
    have hle' := hus.position_le hb hb' hij
    exact ⟨i, a, b, ha, hb, Nat.min_eq_left hle, Nat.min_eq_left hle'⟩
  · have hle := hts.position_le ha' ha hji
    have hle' := hus.position_le hb' hb hji
    exact ⟨j, a', b', ha', hb', Nat.min_eq_right hle, Nat.min_eq_right hle'⟩

/-- The tokens of a text and its end token follow one another. -/
theorem LaidOut.inOrder_append_end {text : List Char} {ts : List Token}
    (h : LaidOut 0 text (ts.map .ok)) : InOrder (ts ++ [.endOfInput text.length]) := by
  refine List.pairwise_append.mpr ⟨h.inOrder, List.pairwise_singleton _ _, fun t ht u hu => ?_⟩
  obtain rfl := List.mem_singleton.mp hu
  exact Nat.le_of_lt (h.standsAt ht).position_lt

/-- The tokens of a text follow one another. -/
theorem inOrder_of_tokenize {text : List Char} {ts : List Token} (h : tokenize text = .ok ts) :
    InOrder ts := by
  obtain ⟨words, rfl, hlaid⟩ := exists_laidOut_of_tokenize h
  exact hlaid.inOrder_append_end

/-- The tokens of a text before the end, and the end token. -/
theorem eq_beforeEnd_of_tokenize {text : List Char} {ts : List Token}
    (h : tokenize text = .ok ts) : ts = beforeEnd ts ++ [endOf ts] := by
  obtain ⟨words, rfl, hlaid⟩ := exists_laidOut_of_tokenize h
  rw [(hlaid.beforeEnd_eq _).1, (hlaid.beforeEnd_eq _).2]

/-- The value of a token of a text is determined by its kind and its lexeme. -/
theorem value_eq_of_tokenize {text : List Char} {ts : List Token} (h : tokenize text = .ok ts)
    {t : Token} (ht : t ∈ ts) :
    t.value = if t.kind = .number then some (.ofNumeral (Numeral.take t.lexeme.toList).1)
      else none := by
  obtain ⟨words, rfl, hlaid⟩ := exists_laidOut_of_tokenize h
  rcases List.mem_append.mp ht with ht | ht
  · obtain ⟨before, chars, behind, -, hword⟩ :=
      hlaid.exists_append_of_mem (List.mem_map_of_mem ht)
    exact hword.value_eq
  · obtain rfl := List.mem_singleton.mp ht
    rfl

/-- Tokens of the same words in two texts are alike, each standing for itself. -/
theorem forall₂_alike_of_tokenize {text text' : List Char} {ts us : List Token}
    (hts : tokenize text = .ok ts) (hus : tokenize text' = .ok us)
    (hwords : List.Forall₂ Token.SameWord ts us) :
    List.Forall₂ (Token.Alike (SameToken ts us)) ts us := by
  refine List.forall₂_iff_get.mpr ⟨hwords.length_eq, fun i hi hj => ?_⟩
  obtain ⟨hkind, hlexeme⟩ := (List.forall₂_iff_get.mp hwords).2 i hi hj
  refine ⟨hkind, hlexeme, ?_, i, _, _, List.getElem?_eq_getElem hi, List.getElem?_eq_getElem hj,
    rfl, rfl⟩
  rw [value_eq_of_tokenize hts (List.get_mem ts ⟨i, hi⟩),
    value_eq_of_tokenize hus (List.get_mem us ⟨i, hj⟩), hkind, hlexeme]

/-- In lists of tokens that are alike, so are the tokens before the end and the end tokens. -/
theorem alike_parts {R : Nat → Nat → Prop} {ts us : List Token}
    (hts : ts = beforeEnd ts ++ [endOf ts]) (hus : us = beforeEnd us ++ [endOf us])
    (h : List.Forall₂ (Token.Alike R) ts us) :
    List.Forall₂ (Token.Alike R) (beforeEnd ts) (beforeEnd us) ∧ (endOf ts).Alike R (endOf us) := by
  rw [hts] at h
  obtain ⟨vs, stop, rest, hsplit, hvs, hstop, hrest⟩ := exists_of_forall₂_infix h
  obtain rfl := List.forall₂_nil_left_iff.mp hrest
  rw [hus] at hsplit
  obtain ⟨hbefore, hend⟩ := List.append_inj' hsplit rfl
  cases hend
  exact ⟨hbefore ▸ hvs, hstop⟩

/-- Texts whose tokens are alike have the same value, or the same error at related places. -/
theorem answer_of_alike {R : Nat → Nat → Prop} (hR : MinClosed R) {s t : String}
    {ts us : List Token} (hs : tokenize s.toList = .ok ts) (ht : tokenize t.toList = .ok us)
    (halike : List.Forall₂ (Token.Alike R) ts us) (limits : Limits) :
    (∃ x, answer limits s = .ok x ∧ answer limits t = .ok x) ∨
    ∃ (e : Error) (q : Nat), R e.position q ∧ answer limits s = .error e ∧
      answer limits t = .error (e.moveTo q) := by
  obtain ⟨hbefore, hstop⟩ := alike_parts (eq_beforeEnd_of_tokenize hs)
    (eq_beforeEnd_of_tokenize ht) halike
  rw [answer_eq, answer_eq, hs, ht]
  dsimp only
  cases hparse : parse limits.nesting ts with
  | error err =>
    obtain ⟨rest, hfail⟩ := parse_eq_error_iff.mp hparse
    obtain ⟨q, rest', hq, hfail'⟩ := Situation.exists_failure?_alike hbefore hstop hfail
    rw [parse_eq_error_iff.mpr ⟨rest', hfail'⟩]
    exact .inr ⟨.structural err, q, hq, rfl, rfl⟩
  | ok e =>
    obtain ⟨n, hn, hderives⟩ := parse_eq_ok_iff.mp hparse
    obtain ⟨f, hf, halike⟩ := hderives.exists_alike hR hbefore
    rw [parse_eq_ok_iff.mpr ⟨n, hn, hf⟩]
    have hvalues := halike.follows limits.evaluation limits.evaluation
    rw [← evaluate_eq, ← evaluate_eq] at hvalues
    dsimp only
    generalize evaluate limits.evaluation e = x at hvalues
    generalize evaluate limits.evaluation f = y at hvalues
    cases hvalues with
    | ok x => exact .inl ⟨x, rfl, rfl⟩
    | @error err q hq => exact .inr ⟨.evaluation err, q, hq, rfl, rfl⟩

/-- **Blanks never affect the answer.** Two texts with the same words, whatever blanks part them,
have the same value, or they have the same error with all that it says, and it lies in both of them
at one and the same token. -/
theorem answer_of_sameWords {s t : String} {ts us : List Token}
    (hs : tokenize s.toList = .ok ts) (ht : tokenize t.toList = .ok us)
    (hwords : List.Forall₂ Token.SameWord ts us) (limits : Limits) :
    (∃ x, answer limits s = .ok x ∧ answer limits t = .ok x) ∨
    ∃ (e : Error) (i : Nat) (a b : Token), ts[i]? = some a ∧ us[i]? = some b ∧
      e.position = a.span.start ∧ answer limits s = .error e ∧
      answer limits t = .error (e.moveTo b.span.start) := by
  have hR := minClosed_sameToken (inOrder_of_tokenize hs) (inOrder_of_tokenize ht)
  have halike := forall₂_alike_of_tokenize hs ht hwords
  rcases answer_of_alike hR hs ht halike limits with hvalue | ⟨e, q, hq, hanswer, hanswer'⟩
  · exact .inl hvalue
  · obtain ⟨i, a, b, ha, hb, hp, rfl⟩ := hq
    exact .inr ⟨e, i, a, b, ha, hb, hp, hanswer, hanswer'⟩

/-- In `7%0` and in `7 % (tab) 0` it is the third token that the remainder fails at. -/
theorem answer_of_sameWords_remainder :
    let ts : List Token := [⟨.number, "7", some (.integer 7), ⟨0, 1⟩⟩,
      ⟨.percent, "%", none, ⟨1, 2⟩⟩, ⟨.number, "0", some (.integer 0), ⟨2, 3⟩⟩, .endOfInput 3]
    let us : List Token := [⟨.number, "7", some (.integer 7), ⟨0, 1⟩⟩,
      ⟨.percent, "%", none, ⟨2, 3⟩⟩, ⟨.number, "0", some (.integer 0), ⟨5, 6⟩⟩, .endOfInput 6]
    tokenize "7%0".toList = .ok ts ∧ tokenize "7 % \t0".toList = .ok us ∧
      List.Forall₂ Token.SameWord ts us ∧
      ∃ (e : Error) (i : Nat) (a b : Token), ts[i]? = some a ∧ us[i]? = some b ∧
        e.position = a.span.start ∧ answer .standard "7%0" = .error e ∧
        answer .standard "7 % \t0" = .error (e.moveTo b.span.start) := by
  intro ts us
  have hs : tokenize "7%0".toList = .ok ts := by decide +kernel
  have ht : tokenize "7 % \t0".toList = .ok us := by decide +kernel
  have hwords : List.Forall₂ Token.SameWord ts us :=
    .cons ⟨rfl, rfl⟩ (.cons ⟨rfl, rfl⟩ (.cons ⟨rfl, rfl⟩ (.cons ⟨rfl, rfl⟩ .nil)))
  refine ⟨hs, ht, hwords, ?_⟩
  rcases answer_of_sameWords hs ht hwords .standard with ⟨x, hx, -⟩ | herror
  · have hfails : answer .standard "7%0" = .error (.evaluation (.moduloByZero 2)) := by
      decide +kernel
    rw [hfails] at hx
    cases hx
  · exact herror

end Calculator
