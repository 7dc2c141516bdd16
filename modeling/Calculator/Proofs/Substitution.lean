import Calculator.Proofs.Concatenation
import Calculator.Proofs.Rendering
import Calculator.Proofs.SameWords

/-!
# Putting an expression in the place of a number

A number is a primary, and so is an expression in parentheses. So where a text has a number, another
text may stand in parentheses, and the tree is the same but for the leaf of this number, whose place
the tree of the other text takes. The levels of the two texts add up at most.
-/

namespace Calculator

/-! ## Leaves -/

namespace Expr

/-- The leaves of an expression from left to right. -/
def leaves : Expr → List Expr
  | number x s => [number x s]
  | signed _ operand _ => operand.leaves
  | binary _ left right _ => left.leaves ++ right.leaves

/-- The expression with the tree `f` in the place of its leaf number `j`, counted from the left. -/
def replaceLeaf : Expr → Nat → Expr → Expr
  | number x s, j, f => if j = 0 then f else number x s
  | signed sign operand s, j, f => signed sign (operand.replaceLeaf j f) s
  | binary operator left right s, j, f =>
    if j < left.leaves.length then binary operator (left.replaceLeaf j f) right s
    else binary operator left (right.replaceLeaf (j - left.leaves.length) f) s

variable {f l r : Expr}

/-- A leaf on the left is replaced on the left. -/
theorem withoutSpans_combine_left {l' : Expr} {j : Nat} (operator : Operator)
    (hj : j < l.leaves.length) (h : l'.withoutSpans = (l.replaceLeaf j f).withoutSpans) :
    (combine operator l' r).withoutSpans =
      ((combine operator l r).replaceLeaf j f).withoutSpans := by
  rw [combine, combine, replaceLeaf, if_pos hj, withoutSpans, withoutSpans, h]

/-- A leaf on the right is replaced on the right. -/
theorem withoutSpans_combine_right {r' : Expr} {j : Nat} (operator : Operator)
    (h : r'.withoutSpans = (r.replaceLeaf j f).withoutSpans) :
    (combine operator l r').withoutSpans =
      ((combine operator l r).replaceLeaf (l.leaves.length + j) f).withoutSpans := by
  rw [combine, combine, replaceLeaf, if_neg (Nat.not_lt.mpr (Nat.le_add_right _ _)),
    Nat.add_sub_cancel_left, withoutSpans, withoutSpans, h]

/-- Expressions that are alike differ in their spans only. -/
theorem Alike.withoutSpans_eq {R : Nat → Nat → Prop} {e f : Expr} (h : e.Alike R f) :
    e.withoutSpans = f.withoutSpans := by
  induction h with
  | number => rfl
  | signed _ _ ih => rw [withoutSpans, withoutSpans, ih]
  | binary _ _ _ ihl ihr => rw [withoutSpans, withoutSpans, ihl, ihr]

end Expr

/-- The leaf that a token makes, if it is a number. -/
def Token.leaf? (t : Token) : Option Expr :=
  if t.kind = .number then t.value.map fun literal => .number literal.value t.span else none

/-- A token that makes a leaf is a number. -/
theorem Token.kind_of_leaf? {t : Token} {leaf : Expr} (h : t.leaf? = some leaf) :
    t.kind = .number := by
  by_contra hk
  rw [leaf?, if_neg hk] at h
  cases h

/-- A token that is no number makes no leaf. -/
theorem Token.leaf?_of_ne {t : Token} (h : t.kind ≠ .number) : t.leaf? = none :=
  if_neg h

/-- The leaves of two parts with an operator between them. -/
theorem filterMap_leaf?_operator {ts us : List Token} {t : Token} (h : t.kind ≠ .number) :
    (ts ++ t :: us).filterMap Token.leaf? =
      ts.filterMap Token.leaf? ++ us.filterMap Token.leaf? := by
  rw [List.filterMap_append, List.filterMap_cons_none (Token.leaf?_of_ne h)]

/-- The leaves of a tree are those of its tokens. -/
theorem Derives.leaves_eq {c : Category} {ts : List Token} {e : Expr} {n : Nat}
    (h : Derives c ts e n) : e.leaves = ts.filterMap Token.leaf? := by
  induction h with
  | sumOfProduct _ ih => exact ih
  | productOfPower _ ih => exact ih
  | powerOfOperand _ ih => exact ih
  | operandOfPrimary _ ih => exact ih
  | addition _ hop _ ihl ihr =>
    rw [filterMap_leaf?_operator (TokenKind.ne_of_some hop rfl), ← ihl, ← ihr]
    rfl
  | multiplication _ hop _ ihl ihr =>
    rw [filterMap_leaf?_operator (TokenKind.ne_of_some hop rfl), ← ihl, ← ihr]
    rfl
  | raising _ hk _ ihl ihr =>
    rw [filterMap_leaf?_operator (by simp [hk]), ← ihl, ← ihr]
    rfl
  | signing hsign _ ih =>
    rw [List.filterMap_cons_none (Token.leaf?_of_ne (TokenKind.ne_of_some hsign rfl)), ← ih]
    rfl
  | number hk hvalue =>
    rw [List.filterMap_cons_some (b := .number _ _)]
    · rfl
    · rw [Token.leaf?, if_pos hk, hvalue]
      rfl
  | group ho _ hc ih =>
    rw [List.filterMap_cons_none (Token.leaf?_of_ne (by simp [ho])),
      filterMap_leaf?_operator (by simp [hc]), ← ih]
    simp

/-! ## A primary in the place of a number -/

section

variable {number : Token} {ws : List Token} {f : Expr} {k : Nat}

/-- Wherever the number stands among the tokens `ts`, the tokens `ws` may stand in its place: they
make the tree `e` with the tree `f` in the place of its leaf, and up to `k` levels more. -/
def Substitutes (number : Token) (ws : List Token) (f : Expr) (k : Nat) (c : Category)
    (ts : List Token) (e : Expr) (n : Nat) : Prop :=
  ∀ xs ys, ts = xs ++ number :: ys → ∃ g n', Derives c (xs ++ ws ++ ys) g n' ∧ n' ≤ n + k ∧
    g.withoutSpans = (e.replaceLeaf (xs.filterMap Token.leaf?).length f).withoutSpans

/-- What is a part of one category may be a part of another one. -/
theorem Substitutes.of_rule {c c' : Category} {ts : List Token} {e : Expr} {n : Nat}
    (h : Substitutes number ws f k c ts e n)
    (rule : ∀ {ts e n}, Derives c ts e n → Derives c' ts e n) :
    Substitutes number ws f k c' ts e n := by
  intro xs ys hsplit
  obtain ⟨g, n', hg, hn, htree⟩ := h xs ys hsplit
  exact ⟨g, n', rule hg, hn, htree⟩

/-- What may stand in the place of a number in two parts may do so with an operator between them. -/
theorem Substitutes.combine {leaf : Expr} (hleaf : number.leaf? = some leaf) {c c₁ c₂ : Category}
    {ts us : List Token} {t : Token} (ht : t.kind ≠ .number) {operator : Operator} {d : Nat}
    (rule : ∀ {ts us l r m n}, Derives c₁ ts l m → Derives c₂ us r n →
      Derives c (ts ++ t :: us) (.combine operator l r) (max m (n + d)))
    {l r : Expr} {m n : Nat} (hl : Derives c₁ ts l m) (hr : Derives c₂ us r n)
    (hls : Substitutes number ws f k c₁ ts l m) (hrs : Substitutes number ws f k c₂ us r n) :
    Substitutes number ws f k c (ts ++ t :: us) (.combine operator l r) (max m (n + d)) := by
  intro xs ys hsplit
  rcases append_cons_cases hsplit with ⟨zs, rfl, rfl⟩ | ⟨-, rfl, -⟩ | ⟨zs, rfl, rfl⟩
  · -- the number stands on the left
    obtain ⟨g, m', hg, hm, htree⟩ := hls xs zs rfl
    refine ⟨.combine operator g r, max m' (n + d), ?_, by omega, ?_⟩
    · have hderives := rule hg hr
      rwa [List.append_assoc _ zs] at hderives
    · refine Expr.withoutSpans_combine_left operator ?_ htree
      rw [hl.leaves_eq, List.filterMap_append, List.filterMap_cons_some hleaf, List.length_append,
        List.length_cons]
      omega
  · exact absurd (Token.kind_of_leaf? hleaf) ht
  · -- the number stands on the right
    obtain ⟨g, n', hg, hn, htree⟩ := hrs zs ys rfl
    refine ⟨.combine operator l g, max m (n' + d), ?_, by omega, ?_⟩
    · have hderives := rule hl hg
      rwa [← List.cons_append, ← List.append_assoc, ← List.cons_append, ← List.append_assoc]
        at hderives
    · rw [filterMap_leaf?_operator ht, List.length_append, ← hl.leaves_eq]
      exact Expr.withoutSpans_combine_right operator htree

/-- **A primary may stand in the place of a number.** -/
theorem Derives.substitutes {c : Category} {ts : List Token} {e : Expr} {n : Nat}
    (h : Derives c ts e n) {leaf : Expr} (hleaf : number.leaf? = some leaf)
    (hws : Derives .primary ws f k) : Substitutes number ws f k c ts e n := by
  have hnumber := Token.kind_of_leaf? hleaf
  induction h with
  | sumOfProduct _ ih => exact ih.of_rule .sumOfProduct
  | productOfPower _ ih => exact ih.of_rule .productOfPower
  | powerOfOperand _ ih => exact ih.of_rule .powerOfOperand
  | operandOfPrimary _ ih => exact ih.of_rule .operandOfPrimary
  | addition hl hop hr ihl ihr =>
    exact .combine hleaf (d := 0) (TokenKind.ne_of_some hop rfl) (fun hl hr => .addition hl hop hr)
      hl hr ihl ihr
  | multiplication hl hop hr ihl ihr =>
    exact .combine hleaf (d := 0) (TokenKind.ne_of_some hop rfl)
      (fun hl hr => .multiplication hl hop hr) hl hr ihl ihr
  | raising hl hk hr ihl ihr =>
    exact .combine hleaf (d := 1) (by simp [hk]) (fun hl hr => .raising hl hk hr) hl hr ihl ihr
  | @signing ts e n t sign hsign _ ih =>
    intro xs ys hsplit
    cases xs with
    | nil =>
      cases hsplit
      exact absurd hnumber (TokenKind.ne_of_some hsign rfl)
    | cons x xs =>
      cases hsplit
      obtain ⟨g, n', hg, hn, htree⟩ := ih xs ys rfl
      refine ⟨.withSign sign t.span g, n' + 1, .signing hsign hg, by omega, ?_⟩
      rw [List.filterMap_cons_none (Token.leaf?_of_ne (TokenKind.ne_of_some hsign rfl)),
        Expr.withSign, Expr.withSign, Expr.replaceLeaf, Expr.withoutSpans, Expr.withoutSpans, htree]
  | number hk hvalue =>
    -- the number is the only token, and its leaf is the whole tree
    intro xs ys hsplit
    cases xs with
    | nil =>
      cases hsplit
      refine ⟨f, k, ?_, Nat.le_add_left _ _, rfl⟩
      rwa [List.nil_append, List.append_nil]
    | cons x xs =>
      have htail := congrArg List.tail hsplit
      cases xs <;> cases htail
  | @group ts e n opening closing ho _ hc ih =>
    -- the number is neither of the parentheses, so it stands between them
    intro xs ys hsplit
    cases xs with
    | nil =>
      cases hsplit
      rw [ho] at hnumber
      cases hnumber
    | cons x xs =>
      injection hsplit with hopening hsplit
      subst hopening
      rcases append_cons_cases hsplit with ⟨zs, rfl, rfl⟩ | ⟨-, rfl, -⟩ | ⟨zs, -, hnil⟩
      · obtain ⟨g, n', hg, hn, htree⟩ := ih xs zs rfl
        refine ⟨g, n' + 1, ?_, by omega, ?_⟩
        · have hderives := Derives.group ho hg hc
          rwa [List.append_assoc _ zs, ← List.cons_append] at hderives
        · rw [List.filterMap_cons_none (Token.leaf?_of_ne (by simp [ho])), htree]
      · rw [hc] at hnumber
        cases hnumber
      · cases zs <;> cases hnil

end

/-! ## A text in the place of a number -/

/-- The same tokens, wherever they stand. -/
def Moved (ts us : List Token) : Prop :=
  List.Forall₂ (Token.Alike fun _ _ => True) ts us

namespace Moved

variable {ts us ts' us' : List Token}

/-- Tokens that are moved in two ways. -/
theorem of_shift (ts : List Token) (i j : Nat) : Moved (ts.map (.shift i)) (ts.map (.shift j)) := by
  rw [Moved, List.forall₂_map_left_iff, List.forall₂_map_right_iff, List.forall₂_same]
  exact fun t _ => ⟨rfl, rfl, rfl, trivial⟩

/-- Tokens are where they are. -/
theorem refl (ts : List Token) : Moved ts ts :=
  List.forall₂_same.mpr fun _ _ => ⟨rfl, rfl, rfl, trivial⟩

/-- Moved tokens may be moved further. -/
theorem shift (h : Moved ts us) (k : Nat) : Moved ts (us.map (.shift k)) := by
  rw [Moved, List.forall₂_map_right_iff]
  exact h.imp fun t u halike => ⟨halike.kind_eq, halike.lexeme_eq, halike.value_eq, trivial⟩

/-- Tokens behind other tokens are moved with them. -/
theorem append (h : Moved ts us) (h' : Moved ts' us') : Moved (ts ++ ts') (us ++ us') :=
  List.rel_append h h'

end Moved

/-- Moved tokens make the same tree but for the spans. -/
theorem Derives.exists_moved {c : Category} {ts us : List Token} {e : Expr} {n : Nat}
    (h : Derives c ts e n) (hus : Moved ts us) :
    ∃ g, Derives c us g n ∧ g.withoutSpans = e.withoutSpans := by
  obtain ⟨g, hg, halike⟩ := h.exists_alike (fun _ _ _ _ _ _ => trivial) hus
  exact ⟨g, hg, halike.withoutSpans_eq.symm⟩

/-- The tokens of a text in parentheses between two texts are those of the three texts with the
parentheses between them. -/
theorem exists_tokenize_group {front text back : List Char} {xs us ys : List Token}
    (hfront : tokenize front = .ok (xs ++ [.endOfInput front.length]))
    (htext : tokenize text = .ok (us ++ [.endOfInput text.length]))
    (hback : tokenize back = .ok ys) (k : Nat) :
    ∃ vs, tokenize (front ++ '(' :: (text ++ ')' :: back)) = .ok vs ∧
      Moved (xs ++ Scanner.symbolToken .openParen '(' 0 ::
        (us ++ Scanner.symbolToken .closeParen ')' 0 :: ys.map (.shift k))) vs := by
  have hclosing := tokenize_symbol_cons (c := ')') rfl back
  rw [hback] at hclosing
  have hgroup : tokenize (text ++ ')' :: back) = _ := tokenize_append htext fun t _ _ =>
    t.not_goesOn_cons rfl (by decide) back
  rw [hclosing] at hgroup
  have hopening := tokenize_symbol_cons (c := '(') rfl (text ++ ')' :: back)
  rw [hgroup] at hopening
  have hall : tokenize (front ++ '(' :: (text ++ ')' :: back)) = _ :=
    tokenize_append hfront fun t _ _ => t.not_goesOn_cons rfl (by decide) _
  rw [hopening] at hall
  refine ⟨_, hall, ?_⟩
  -- each text in front moves all that stands behind it
  have hbehind := (Moved.refl [Scanner.symbolToken .closeParen ')' 0]).append (.of_shift ys k 1)
  have hinside := (Moved.refl us).append (hbehind.shift text.length)
  have hwhole := (Moved.refl [Scanner.symbolToken .openParen '(' 0]).append (hinside.shift 1)
  exact (Moved.refl xs).append (hwhole.shift front.length)

/-- The leaves of some tokens of a text are the numbers among them. -/
theorem length_filterMap_leaf? {text : List Char} {ts xs : List Token}
    (h : tokenize text = .ok ts) (hxs : ∀ t ∈ xs, t ∈ ts) :
    (xs.filterMap Token.leaf?).length = xs.countP (·.kind == .number) := by
  rw [List.length_filterMap_eq_countP]
  refine List.countP_congr fun t ht => ?_
  rw [beq_iff_eq, Token.leaf?, value_eq_of_tokenize h (hxs t ht)]
  by_cases hk : t.kind = .number
  · rw [if_pos hk, if_pos hk]
    exact iff_of_true rfl hk
  · rw [if_neg hk]
    exact iff_of_false Bool.false_ne_true hk

/-- A number token of a text makes a leaf. -/
theorem exists_leaf?_eq {text : List Char} {ts : List Token} (h : tokenize text = .ok ts)
    {t : Token} (ht : t ∈ ts) (hk : t.kind = .number) :
    ∃ literal, t.value = some literal ∧ t.leaf? = some (.number literal.value t.span) := by
  have hvalue := value_eq_of_tokenize h ht
  rw [if_pos hk] at hvalue
  refine ⟨_, hvalue, ?_⟩
  rw [Token.leaf?, if_pos hk, hvalue]
  rfl

/-- A text whose tokens have been moved has the same tree but for the spans. -/
theorem exists_parse_of_moved {text : List Char} {ts vs : List Token} {stop : Token} {g : Expr}
    {n limit : Nat} (hvs : tokenize text = .ok vs) (hts : Derives .sum ts g n) (hn : n + 1 ≤ limit)
    (hstop : stop.kind = .endOfInput) (hmoved : Moved (ts ++ [stop]) vs) :
    ∃ g', parse limit vs = .ok g' ∧ g'.withoutSpans = g.withoutSpans := by
  obtain ⟨hbefore, hend⟩ := beforeEnd_append hstop hts.kind_ne_endOfInput
  have hsplit : ts ++ [stop] = beforeEnd (ts ++ [stop]) ++ [endOf (ts ++ [stop])] := by
    rw [hbefore, hend]
  obtain ⟨hparts, -⟩ := alike_parts hsplit (eq_beforeEnd_of_tokenize hvs) hmoved
  rw [hbefore] at hparts
  obtain ⟨g', hg', hspans⟩ := hts.exists_moved hparts
  exact ⟨g', parse_eq_ok_iff.mpr ⟨n, hn, hg'⟩, hspans⟩

/-- **An expression in parentheses may stand in the place of a number.** Take a text that has a
tree, one of its number tokens, and another text that has a tree. With the other text in parentheses
in the place of the characters of the token, the text has a tree again, with no more levels than the
two have together, and this is the tree of the text with the tree of the other one in the place of
the leaf that the token makes. -/
theorem parse_replaceLeaf {s t : List Char} {before behind us : List Token} {number : Token}
    {m₁ m₂ : Nat} {e f : Expr} (hs : tokenize s = .ok (before ++ number :: behind))
    (hnumber : number.kind = .number) (he : parse m₁ (before ++ number :: behind) = .ok e)
    (ht : tokenize t = .ok us) (hf : parse m₂ us = .ok f) :
    let j := before.countP (·.kind == .number)
    (∃ literal, number.value = some literal ∧
      e.leaves[j]? = some (.number literal.value number.span)) ∧
    ∃ vs g, tokenize (s.take number.span.start ++ '(' :: (t ++ ')' :: s.drop number.span.stop)) =
        .ok vs ∧
      parse (m₁ + m₂) vs = .ok g ∧ g.withoutSpans = (e.replaceLeaf j f).withoutSpans := by
  intro j
  obtain ⟨front, chars, back, ys, rfl, hfront, hword, hback, hbehind⟩ :=
    exists_split_of_tokenize hs (by simp [hnumber])
  obtain ⟨ts, hts, hlaid⟩ := exists_laidOut_of_tokenize hs
  obtain ⟨behind₀, rfl, hend⟩ := exists_eq_append_end hts (by simp [hnumber])
  obtain ⟨us₀, rfl, hlaid'⟩ := exists_laidOut_of_tokenize ht
  obtain ⟨n, hn, hderives⟩ := parse_eq_ok_iff.mp he
  obtain ⟨k, hk, hderives'⟩ := parse_eq_ok_iff.mp hf
  rw [hts, (hlaid.beforeEnd_eq _).1] at hderives
  rw [(hlaid'.beforeEnd_eq _).1] at hderives'
  -- the token makes leaf number `j` of the tree
  have hmem : number ∈ before ++ number :: behind := List.mem_append_right _ List.mem_cons_self
  obtain ⟨literal, hvalue, hleaf⟩ := exists_leaf?_eq hs hmem hnumber
  have hj : (before.filterMap Token.leaf?).length = j :=
    length_filterMap_leaf? hs fun t ht => List.mem_append_left _ ht
  refine ⟨⟨literal, hvalue, ?_⟩, ?_⟩
  · rw [hderives.leaves_eq, List.filterMap_append, List.filterMap_cons_some hleaf, ← hj,
      List.getElem?_append_right (Nat.le_refl _), Nat.sub_self]
    rfl
  -- the other text in parentheses is a primary and stands in the place of the token
  have hgroup : Derives .primary (Scanner.symbolToken .openParen '(' 0 ::
      (us₀ ++ [Scanner.symbolToken .closeParen ')' 0])) f (k + 1) := .group rfl hderives' rfl
  obtain ⟨g, n', hg, hn', htree⟩ := hderives.substitutes hleaf hgroup before behind₀ rfl
  rw [hj] at htree
  -- and the whole text has these tokens
  have hspan : number.span = ⟨front.length, front.length + chars.length⟩ := hword.extent_eq
  obtain ⟨vs, hvs, hmoved⟩ := exists_tokenize_group hfront ht hback (front.length + chars.length)
  have hsame : Moved (before ++ Scanner.symbolToken .openParen '(' 0 ::
      (us₀ ++ [Scanner.symbolToken .closeParen ')' 0]) ++ behind₀ ++
      [.endOfInput (front ++ chars ++ back).length]) vs := by
    rw [← hbehind, hend] at hmoved
    simp only [List.append_assoc, List.cons_append, List.nil_append] at hmoved ⊢
    exact hmoved
  have hroom : n' + 1 ≤ m₁ + m₂ := by omega
  obtain ⟨g', hparse, hspans⟩ := exists_parse_of_moved hvs hg hroom rfl hsame
  refine ⟨vs, g', ?_, hparse, hspans.trans htree⟩
  have htake : (front ++ chars ++ back).take front.length = front := by
    rw [List.append_assoc, List.take_left]
  have hdrop : (front ++ chars ++ back).drop (front.length + chars.length) = back := by
    rw [← List.length_append, List.drop_left]
  rw [hspan, htake, hdrop]
  exact hvs

/-- In `2-3^4` the difference `-1-5` takes the place of the base of the power, which binds more
tightly than a difference does. -/
theorem parse_replaceLeaf_base :
    let before : List Token :=
      [⟨.number, "2", some (.integer 2), ⟨0, 1⟩⟩, ⟨.minus, "-", none, ⟨1, 2⟩⟩]
    let number : Token := ⟨.number, "3", some (.integer 3), ⟨2, 3⟩⟩
    let behind : List Token :=
      [⟨.caret, "^", none, ⟨3, 4⟩⟩, ⟨.number, "4", some (.integer 4), ⟨4, 5⟩⟩, .endOfInput 5]
    let us : List Token := [⟨.minus, "-", none, ⟨0, 1⟩⟩, ⟨.number, "1", some (.integer 1), ⟨1, 2⟩⟩,
      ⟨.minus, "-", none, ⟨2, 3⟩⟩, ⟨.number, "5", some (.integer 5), ⟨3, 4⟩⟩, .endOfInput 4]
    let two : Expr := .number (.ofNat 2) ⟨0, 1⟩
    let four : Expr := .number (.ofNat 4) ⟨4, 5⟩
    let e : Expr := .combine .sub two (.combine .pow (.number (.ofNat 3) ⟨2, 3⟩) four)
    let f : Expr := .combine .sub (.withSign .minus ⟨0, 1⟩ (.number (.ofNat 1) ⟨1, 2⟩))
      (.number (.ofNat 5) ⟨3, 4⟩)
    tokenize "2-3^4".toList = .ok (before ++ number :: behind) ∧ number.kind = .number ∧
      parse 2 (before ++ number :: behind) = .ok e ∧ tokenize "-1-5".toList = .ok us ∧
      parse 2 us = .ok f ∧
      ∃ vs g, tokenize "2-(-1-5)^4".toList = .ok vs ∧ parse 4 vs = .ok g ∧
        g.withoutSpans = (Expr.combine .sub two (.combine .pow f four)).withoutSpans := by
  intro before number behind us two four e f
  have hs : tokenize "2-3^4".toList = .ok (before ++ number :: behind) := by decide +kernel
  have he : parse 2 (before ++ number :: behind) = .ok e := by decide +kernel
  have ht : tokenize "-1-5".toList = .ok us := by decide +kernel
  have hf : parse 2 us = .ok f := by decide +kernel
  exact ⟨hs, rfl, he, ht, hf, (parse_replaceLeaf hs rfl he ht hf).2⟩

end Calculator
