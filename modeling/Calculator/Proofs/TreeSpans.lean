import Calculator.Proofs.Substitution

/-!
# How a tree lies in its text

The span of a number is that of its token. An operand with a sign starts at the sign and ends where
the operand ends, and two operands with an operator run from the start of the left one to the end of
the right one. What lies between a sign or an operator and an operand is blanks and the parentheses
that open in front of the operand, or that close behind it. So no span hides that something is out
of order.
-/

namespace Calculator

/-! ## Symbols -/

/-- The character of a symbol is the name of its kind. -/
theorem TokenKind.toList_text_of_ofSymbol? {c : Char} {k : TokenKind}
    (h : TokenKind.ofSymbol? c = some k) : k.text.toList = [c] := by
  unfold TokenKind.ofSymbol? at h
  split at h <;> cases h <;> decide

/-- The kinds of tokens that make an operator of a sum have its symbol as name. -/
theorem Operator.toList_text_of_ofSumKind? {k : TokenKind} {operator : Operator}
    (h : Operator.ofSumKind? k = some operator) : k.text.toList = [operator.symbol] := by
  rcases Operator.ofSumKind?_eq_some_iff.mp h with ⟨rfl, rfl⟩ | ⟨rfl, rfl⟩ <;> rfl

/-- The kinds of tokens that make an operator of a product have its symbol as name. -/
theorem Operator.toList_text_of_ofProductKind? {k : TokenKind} {operator : Operator}
    (h : Operator.ofProductKind? k = some operator) : k.text.toList = [operator.symbol] := by
  rcases Operator.ofProductKind?_eq_some_iff.mp h with ⟨rfl, rfl⟩ | ⟨rfl, rfl⟩ | ⟨rfl, rfl⟩ <;> rfl

/-- The kinds of tokens that make a sign have its symbol as name. -/
theorem Sign.toList_text_of_ofKind? {k : TokenKind} {sign : Sign}
    (h : Sign.ofKind? k = some sign) : k.text.toList = [sign.symbol] := by
  rcases Sign.ofKind?_eq_some_iff.mp h with ⟨rfl, rfl⟩ | ⟨rfl, rfl⟩ <;> rfl

/-- A token whose kind has one character as name is read from this character. -/
theorem MakesWord.chars_eq {p : Nat} {chars : List Char} {t : Token} {c : Char}
    (h : MakesWord p chars (.ok t)) (hkind : t.kind.text.toList = [c]) : chars = [c] := by
  cases h with
  | numeral =>
    have hlength : TokenKind.number.text.toList.length = 1 := congrArg List.length hkind
    exact absurd hlength (by decide)
  | symbol hsymbol => exact (TokenKind.toList_text_of_ofSymbol? hsymbol).symm.trans hkind

/-! ## Parts of a text -/

/-- Two spans of which one comes first run from its start to the end of the other one. -/
theorem Span.merge_eq {a b : Span} (hstart : a.start ≤ b.start) (hstop : a.stop ≤ b.stop) :
    a.merge b = ⟨a.start, b.stop⟩ := by
  rw [merge, Nat.min_eq_left hstart, Nat.max_eq_right hstop]

/-- A text with a word among its words comes apart at this word. -/
theorem LaidOut.exists_of_append {p : Nat} {text : List Char}
    {front back : List (Except LexicalError Token)} {w : Except LexicalError Token}
    (h : LaidOut p text (front ++ w :: back)) :
    ∃ before blanks chars behind, text = before ++ (blanks ++ chars ++ behind) ∧
      LaidOut p before front ∧ (∀ c ∈ blanks, isBlank c = true) ∧
      MakesWord (p + before.length + blanks.length) chars w ∧
      LaidOut (p + before.length + blanks.length + chars.length) behind back := by
  induction front generalizing p text with
  | nil =>
    cases h with
    | word hblanks hword hrest => exact ⟨[], _, _, _, rfl, .blanks nofun, hblanks, hword, hrest⟩
  | cons v front ih =>
    cases h with
    | @word _ blanks chars rest _ _ hblanks hword hrest =>
      obtain ⟨before, blanks', chars', behind, rfl, hbefore, hblanks', hword', hbehind⟩ := ih hrest
      have hplace : p + (blanks ++ chars ++ before).length =
          p + blanks.length + chars.length + before.length := by
        rw [List.length_append, List.length_append]
        omega
      refine ⟨blanks ++ chars ++ before, blanks', chars', behind, ?_, .word hblanks hword hbefore,
        hblanks', ?_, ?_⟩
      · simp only [List.append_assoc]
      · rwa [hplace]
      · rwa [hplace]

/-- The characters `part` stand at the offset `p` of a text. -/
def OccursAt (text : List Char) (p : Nat) (part : List Char) : Prop :=
  ∃ before behind, text = before ++ part ++ behind ∧ p = before.length

namespace OccursAt

variable {text part part' : List Char} {p : Nat}

/-- A text stands at its own start. -/
theorem self (text : List Char) : OccursAt text 0 text :=
  ⟨[], [], (List.append_nil _).symm, rfl⟩

/-- The first part of what stands in a text. -/
theorem left (h : OccursAt text p (part ++ part')) : OccursAt text p part := by
  obtain ⟨before, behind, rfl, rfl⟩ := h
  refine ⟨before, part' ++ behind, ?_, rfl⟩
  simp only [List.append_assoc]

/-- The other part of what stands in a text. -/
theorem right (h : OccursAt text p (part ++ part')) {q : Nat} (hq : q = p + part.length) :
    OccursAt text q part' := by
  obtain ⟨before, behind, rfl, rfl⟩ := h
  refine ⟨before ++ part, behind, ?_, ?_⟩
  · simp only [List.append_assoc]
  · rw [hq, List.length_append]

/-- A part of a text ends in the text. -/
theorem add_length_le (h : OccursAt text p part) : p + part.length ≤ text.length := by
  obtain ⟨before, behind, rfl, rfl⟩ := h
  rw [List.length_append, List.length_append]
  exact Nat.le_add_right _ _

/-- A part of a text is what stands between its ends. -/
theorem extract_eq (h : OccursAt text p part) {q : Nat} (hq : q = p + part.length) :
    text.extract p q = part := by
  obtain ⟨before, behind, rfl, rfl⟩ := h
  rw [hq, List.append_assoc]
  simp

/-- A single character of a text. -/
theorem getElem?_eq {c : Char} (h : OccursAt text p [c]) : text[p]? = some c := by
  obtain ⟨before, behind, rfl, rfl⟩ := h
  simp

end OccursAt

/-- Blanks, and one other character any number of times. -/
def BlanksAnd (d : Char) (cs : List Char) : Prop :=
  ∀ c ∈ cs, isBlank c = true ∨ c = d

namespace BlanksAnd

variable {d : Char} {cs ds : List Char}

/-- Blanks alone. -/
theorem of_blanks (h : ∀ c ∈ cs, isBlank c = true) : BlanksAnd d cs :=
  fun c hc => .inl (h c hc)

/-- The character alone. -/
theorem singleton (d : Char) : BlanksAnd d [d] :=
  fun _ hc => .inr (List.mem_singleton.mp hc)

/-- One text behind the other. -/
theorem append (h : BlanksAnd d cs) (h' : BlanksAnd d ds) : BlanksAnd d (cs ++ ds) :=
  fun c hc => (List.mem_append.mp hc).elim (h c) (h' c)

end BlanksAnd

/-! ## Nodes in their text -/

/-- How a node lies in its text. A number has the span of its token, and the characters there are a
numeral that it is the value of. A sign is the first character of its node, the node ends with the
operand, and only blanks and opening parentheses lie between. Two operands start and end their node,
the left one ends before the right one starts, and between them there is nothing but the operator,
with blanks and closing parentheses before it, and blanks and opening parentheses behind it. -/
def Expr.LiesIn (text : List Char) (tokens : List Token) : Expr → Prop
  | .number x s => ∃ n : Numeral, n.Proper ∧ x = n.value ∧
      text.extract s.start s.stop = n.chars ∧
      ∃ t ∈ tokens, t.kind = .number ∧ t.span = s ∧ t.lexeme.toList = n.chars
  | .signed sign operand s => text[s.start]? = some sign.symbol ∧
      s.start < operand.span.start ∧ s.stop = operand.span.stop ∧
      BlanksAnd '(' (text.extract (s.start + 1) operand.span.start)
  | .binary operator left right s => s.start = left.span.start ∧ s.stop = right.span.stop ∧
      left.span.stop ≤ right.span.start ∧ ∃ front back,
        text.extract left.span.stop right.span.start = front ++ operator.symbol :: back ∧
        BlanksAnd ')' front ∧ BlanksAnd '(' back

/-- A node has characters of its text and lies in it. -/
structure Expr.WellPlaced (text : List Char) (tokens : List Token) (e : Expr) : Prop where
  start_lt : e.span.start < e.span.stop
  stop_le : e.span.stop ≤ text.length
  liesIn : e.LiesIn text tokens

/-- An expression that is read from the part `part` of a text, at the offset `p`, takes all of it
but for blanks and opening parentheses in front and blanks and closing parentheses behind, and all
of its nodes lie in the text. -/
def Expr.Fills (text : List Char) (tokens : List Token) (p : Nat) (part : List Char) (e : Expr) :
    Prop :=
  ∃ front core back, part = front ++ core ++ back ∧ BlanksAnd '(' front ∧ BlanksAnd ')' back ∧
    core ≠ [] ∧ e.span = ⟨p + front.length, p + front.length + core.length⟩ ∧
    ∀ f ∈ e.nodes, f.WellPlaced text tokens

namespace Expr.Fills

variable {text part part' : List Char} {tokens : List Token} {e l r : Expr} {p q : Nat}

/-- The nodes of an expression that takes a part of a text lie well in it. -/
theorem wellPlaced (h : e.Fills text tokens p part) : ∀ f ∈ e.nodes, f.WellPlaced text tokens := by
  obtain ⟨_, _, _, -, -, -, -, -, hnodes⟩ := h
  exact hnodes

/-- More blanks and parentheses around an expression leave it where it is. -/
theorem widen (h : e.Fills text tokens p part) {front back : List Char}
    (hfront : BlanksAnd '(' front) (hback : BlanksAnd ')' back) (hq : p = q + front.length) :
    e.Fills text tokens q (front ++ part ++ back) := by
  obtain ⟨front', core, back', rfl, hfront', hback', hcore, hspan, hnodes⟩ := h
  refine ⟨front ++ front', core, back' ++ back, ?_, hfront.append hfront', hback'.append hback,
    hcore, ?_, hnodes⟩
  · simp only [List.append_assoc]
  · rw [hspan, hq, List.length_append, Nat.add_assoc q]

/-- A numeral of the text is a number. -/
theorem number {n : Numeral} (hoccurs : OccursAt text p n.chars) (hn : n.Proper)
    (hmem : Scanner.numeralToken n p ∈ tokens) :
    (Expr.number n.value ⟨p, p + n.chars.length⟩).Fills text tokens p n.chars := by
  have hne := (MakesWord.numeral hn (p := p)).chars_ne_nil
  refine ⟨[], n.chars, [], (List.append_nil _).symm, nofun, nofun, hne, rfl, fun f hf => ?_⟩
  cases List.mem_singleton.mp hf
  constructor
  · exact Nat.lt_add_of_pos_right (List.length_pos_iff.mpr hne)
  · exact hoccurs.add_length_le
  · exact ⟨n, hn, rfl, hoccurs.extract_eq rfl, _, hmem, rfl, rfl, String.toList_ofList⟩

/-- A sign in front of an expression. -/
theorem withSign {blanks : List Char} {sign : Sign} {signSpan : Span}
    (hoccurs : OccursAt text p (blanks ++ [sign.symbol] ++ part))
    (hblanks : ∀ c ∈ blanks, isBlank c = true)
    (hsign : signSpan = ⟨p + blanks.length, p + blanks.length + 1⟩)
    (h : e.Fills text tokens (p + blanks.length + 1) part) :
    (Expr.withSign sign signSpan e).Fills text tokens p (blanks ++ [sign.symbol] ++ part) := by
  obtain ⟨front, core, back, rfl, hfront, hback, hcore, hspan, hnodes⟩ := h
  have hpos := List.length_pos_iff.mpr hcore
  have hmerge : signSpan.merge e.span =
      ⟨p + blanks.length, p + blanks.length + (sign.symbol :: (front ++ core)).length⟩ := by
    rw [hsign, hspan, Span.merge_eq (by dsimp only; omega) (by dsimp only; omega)]
    simp only [List.length_cons, List.length_append, Nat.add_assoc, Nat.add_comm 1]
  have hwhole : blanks ++ [sign.symbol] ++ (front ++ core ++ back) =
      blanks ++ sign.symbol :: (front ++ core) ++ back := by
    simp only [List.append_assoc, List.cons_append, List.nil_append]
  rw [Expr.withSign, hmerge, hwhole]
  rw [hwhole] at hoccurs
  refine ⟨blanks, sign.symbol :: (front ++ core), back, rfl, .of_blanks hblanks, hback,
    List.cons_ne_nil _ _, rfl, fun f hf => ?_⟩
  rcases List.mem_cons.mp hf with rfl | hf
  · have hnode : OccursAt text (p + blanks.length) ([sign.symbol] ++ (front ++ core)) :=
      hoccurs.left.right rfl
    have hgap : OccursAt text (p + blanks.length + 1) front := (hnode.right rfl).left
    constructor
    · exact Nat.lt_add_of_pos_right (Nat.succ_pos _)
    · exact hnode.add_length_le
    · refine ⟨hnode.left.getElem?_eq, ?_, ?_, ?_⟩
      · rw [hspan]
        exact Nat.lt_of_lt_of_le (Nat.lt_succ_self _) (Nat.le_add_right _ _)
      · rw [hspan, List.length_cons, List.length_append]
        dsimp only
        omega
      · rw [hspan]
        exact (hgap.extract_eq rfl).symm ▸ hfront
  · exact hnodes f hf

/-- An operator between two expressions. -/
theorem combine {blanks : List Char} {operator : Operator}
    (hoccurs : OccursAt text p (part ++ (blanks ++ [operator.symbol] ++ part')))
    (hblanks : ∀ c ∈ blanks, isBlank c = true) (hl : l.Fills text tokens p part)
    (hr : r.Fills text tokens (p + part.length + blanks.length + 1) part') :
    (Expr.combine operator l r).Fills text tokens p
      (part ++ (blanks ++ [operator.symbol] ++ part')) := by
  obtain ⟨front, core, back, rfl, hfront, hback, hcore, hspan, hnodes⟩ := hl
  obtain ⟨front', core', back', rfl, hfront', hback', hcore', hspan', hnodes'⟩ := hr
  have hpos := List.length_pos_iff.mpr hcore
  have hpos' := List.length_pos_iff.mpr hcore'
  let gap := back ++ blanks ++ operator.symbol :: front'
  have hgap : gap.length = back.length + blanks.length + (front'.length + 1) := by
    simp only [gap, List.length_append, List.length_cons]
  have hstart : r.span.start = l.span.stop + gap.length := by
    rw [hspan, hspan', hgap]
    simp only [List.length_append]
    omega
  have hstop : r.span.stop = p + front.length + (core ++ gap ++ core').length := by
    rw [hspan']
    simp only [List.length_append, hgap]
    omega
  have hmerge : l.span.merge r.span =
      ⟨p + front.length, p + front.length + (core ++ gap ++ core').length⟩ := by
    rw [Span.merge_eq ?_ ?_, hstop, hspan]
    · rw [hstart, hspan]
      dsimp only
      omega
    · rw [hstop, hspan, List.append_assoc, List.length_append, ← Nat.add_assoc]
      exact Nat.le_add_right _ _
  have hwhole : front ++ core ++ back ++ (blanks ++ [operator.symbol] ++ (front' ++ core' ++ back'))
      = front ++ (core ++ gap ++ core') ++ back' := by
    simp only [gap, List.append_assoc, List.cons_append, List.nil_append]
  rw [Expr.combine, hmerge, hwhole]
  rw [hwhole] at hoccurs
  refine ⟨front, core ++ gap ++ core', back', rfl, hfront, hback',
    List.append_ne_nil_of_right_ne_nil _ hcore', rfl, fun f hf => ?_⟩
  rcases List.mem_cons.mp hf with rfl | hf
  · have hnode := hoccurs.left.right rfl
    have hmiddle : OccursAt text l.span.stop gap := hnode.left.right (by rw [hspan])
    constructor
    · exact Nat.lt_add_of_pos_right (by simp only [List.length_append]; omega)
    · exact hnode.add_length_le
    · refine ⟨?_, hstop.symm, ?_, back ++ blanks, front', hmiddle.extract_eq hstart,
        hback.append (.of_blanks hblanks), hfront'⟩
      · rw [hspan]
      · rw [hstart]
        exact Nat.le_add_right _ _
  · exact (List.mem_append.mp hf).elim (hnodes f) (hnodes' f)

end Expr.Fills

/-! ## Trees in their text -/

/-- An expression that is read from the tokens `ts` takes each part of the text that has these
tokens as its words. -/
def Expr.FillsWords (text : List Char) (tokens ts : List Token) (e : Expr) : Prop :=
  (∀ t ∈ ts, t ∈ tokens) → ∀ p part, OccursAt text p part → LaidOut p part (ts.map .ok) →
    e.Fills text tokens p part

namespace Expr.FillsWords

variable {text : List Char} {tokens ts us : List Token} {e l r : Expr} {t : Token}

/-- A number token makes a number. -/
theorem number {literal : Literal} (hkind : t.kind = .number) (hvalue : t.value = some literal) :
    (Expr.number literal.value t.span).FillsWords text tokens [t] := by
  intro hts p part hoccurs hlaid
  cases hlaid with
  | @word _ blanks chars rest _ _ hblanks hword hrest =>
    cases hrest with
    | blanks hrest =>
      cases hword with
      | numeral hn =>
        cases hvalue
        rw [Literal.value_ofNumeral]
        have hnumeral := hoccurs.left.right rfl
        exact (Fills.number hnumeral hn (hts _ List.mem_cons_self)).widen
          (.of_blanks hblanks) (.of_blanks hrest) rfl
      | symbol hsymbol => exact absurd hkind (Scanner.symbol_ne_number hsymbol)

/-- A token that makes a sign in front of an operand. -/
theorem withSign {sign : Sign} (hkind : t.kind.text.toList = [sign.symbol])
    (h : e.FillsWords text tokens ts) :
    (Expr.withSign sign t.span e).FillsWords text tokens (t :: ts) := by
  intro hts p part hoccurs hlaid
  cases hlaid with
  | @word _ blanks chars rest _ _ hblanks hword hrest =>
    have hspan := hword.extent_eq
    obtain rfl := hword.chars_eq hkind
    have hoperand : OccursAt text (p + blanks.length + 1) rest :=
      hoccurs.right (by rw [List.length_append, List.length_singleton, Nat.add_assoc])
    exact .withSign hoccurs hblanks hspan (h (List.forall_mem_cons.mp hts).2 _ _ hoperand hrest)

/-- A token that makes an operator between two operands. -/
theorem combine {operator : Operator} (hkind : t.kind.text.toList = [operator.symbol])
    (hl : l.FillsWords text tokens ts) (hr : r.FillsWords text tokens us) :
    (Expr.combine operator l r).FillsWords text tokens (ts ++ t :: us) := by
  intro hts p part hoccurs hlaid
  rw [List.map_append, List.map_cons] at hlaid
  obtain ⟨part, blanks, chars, part', rfl, hpart, hblanks, hword, hpart'⟩ := hlaid.exists_of_append
  obtain rfl := hword.chars_eq hkind
  have hright : OccursAt text (p + part.length + blanks.length + 1) part' := by
    refine (hoccurs.right rfl).right ?_
    rw [List.length_append, List.length_singleton, ← Nat.add_assoc]
  obtain ⟨hleftmem, hrightmem⟩ := List.forall_mem_append.mp hts
  exact .combine hoccurs hblanks (hl hleftmem _ _ hoccurs.left hpart)
    (hr (List.forall_mem_cons.mp hrightmem).2 _ _ hright hpart')

/-- An expression in parentheses. -/
theorem group {opening closing : Token} (ho : opening.kind = .openParen)
    (hc : closing.kind = .closeParen) (h : e.FillsWords text tokens ts) :
    e.FillsWords text tokens (opening :: (ts ++ [closing])) := by
  intro hts p part hoccurs hlaid
  rw [List.map_cons, List.map_append] at hlaid
  cases hlaid with
  | @word _ blanks chars rest _ _ hblanks hword hrest =>
    obtain rfl := hword.chars_eq (c := '(') (ho ▸ rfl)
    obtain ⟨part, blanks', chars', behind, rfl, hpart, hblanks', hword', hbehind⟩ :=
      hrest.exists_of_append
    obtain rfl := hword'.chars_eq (c := ')') (hc ▸ rfl)
    cases hbehind with
    | blanks hbehind =>
      have hinside : OccursAt text (p + blanks.length + 1) part := by
        refine (hoccurs.right ?_).left
        rw [List.length_append, List.length_singleton, Nat.add_assoc]
      have hfront : BlanksAnd '(' (blanks ++ ['(']) :=
        .append (.of_blanks hblanks) (.singleton _)
      have hback : BlanksAnd ')' (blanks' ++ [')'] ++ behind) :=
        .append (.append (.of_blanks hblanks') (.singleton _)) (.of_blanks hbehind)
      have hmem := (List.forall_mem_append.mp (List.forall_mem_cons.mp hts).2).1
      have hwhole : e.Fills text tokens p _ := (h hmem _ _ hinside hpart).widen hfront hback (by
        rw [List.length_append, List.length_singleton, Nat.add_assoc])
      rwa [List.append_assoc _ part] at hwhole

end Expr.FillsWords

/-- An expression of the grammar takes the part of a text that has its tokens as words. -/
theorem Derives.fillsWords {c : Category} {ts : List Token} {e : Expr} {n : Nat}
    (h : Derives c ts e n) (text : List Char) (tokens : List Token) :
    e.FillsWords text tokens ts := by
  induction h with
  | sumOfProduct _ ih => exact ih
  | productOfPower _ ih => exact ih
  | powerOfOperand _ ih => exact ih
  | operandOfPrimary _ ih => exact ih
  | addition _ hop _ ihl ihr => exact .combine (Operator.toList_text_of_ofSumKind? hop) ihl ihr
  | multiplication _ hop _ ihl ihr =>
    exact .combine (Operator.toList_text_of_ofProductKind? hop) ihl ihr
  | raising _ hk _ ihl ihr => exact .combine (hk ▸ rfl) ihl ihr
  | signing hsign _ ih => exact .withSign (Sign.toList_text_of_ofKind? hsign) ih
  | number hk hvalue => exact .number hk hvalue
  | group ho _ hc ih => exact .group ho hc ih

/-! ## Nodes inside of one another -/

/-- One span lies inside of the other. -/
def Span.Within (a b : Span) : Prop :=
  b.start ≤ a.start ∧ a.stop ≤ b.stop

/-- A span inside of a span that is inside of another one. -/
theorem Span.Within.trans {a b c : Span} (h : a.Within b) (h' : b.Within c) : a.Within c :=
  ⟨Nat.le_trans h'.1 h.1, Nat.le_trans h.2 h'.2⟩

namespace Expr

variable {e f g : Expr} {text : List Char} {tokens : List Token}

/-- The nodes of a node are nodes of the expression. -/
theorem mem_nodes_trans (hf : f ∈ e.nodes) (hg : g ∈ f.nodes) : g ∈ e.nodes := by
  induction e with
  | number =>
    cases List.mem_singleton.mp hf
    exact hg
  | signed sign operand s ih =>
    rcases List.mem_cons.mp hf with rfl | hf
    · exact hg
    · exact List.mem_cons_of_mem _ (ih hf)
  | binary operator left right s ihl ihr =>
    rcases List.mem_cons.mp hf with rfl | hf
    · exact hg
    refine List.mem_cons_of_mem _ (List.mem_append.mpr ?_)
    exact (List.mem_append.mp hf).imp ihl ihr

/-- The leaves of an expression are nodes of it. -/
theorem mem_nodes_of_mem_leaves (h : f ∈ e.leaves) : f ∈ e.nodes := by
  induction e with
  | number => exact h
  | signed sign operand s ih => exact List.mem_cons_of_mem _ (ih h)
  | binary operator left right s ihl ihr =>
    refine List.mem_cons_of_mem _ (List.mem_append.mpr ?_)
    exact (List.mem_append.mp h).imp ihl ihr

/-- Where all nodes lie well, they lie inside of the whole. -/
theorem within_of_wellPlaced (h : ∀ f ∈ e.nodes, f.WellPlaced text tokens) :
    ∀ f ∈ e.nodes, f.span.Within e.span := by
  induction e with
  | number =>
    intro f hf
    cases List.mem_singleton.mp hf
    exact ⟨Nat.le_refl _, Nat.le_refl _⟩
  | signed sign operand s ih =>
    obtain ⟨hself, hoperand⟩ := List.forall_mem_cons.mp h
    obtain ⟨-, hstart, hstop, -⟩ := hself.liesIn
    have hinside : operand.span.Within s := ⟨Nat.le_of_lt hstart, Nat.le_of_eq hstop.symm⟩
    refine List.forall_mem_cons.mpr ⟨⟨Nat.le_refl _, Nat.le_refl _⟩, fun f hf => ?_⟩
    exact (ih hoperand f hf).trans hinside
  | binary operator left right s ihl ihr =>
    obtain ⟨hself, hoperands⟩ := List.forall_mem_cons.mp h
    obtain ⟨hleft, hright⟩ := List.forall_mem_append.mp hoperands
    obtain ⟨hstart, hstop, horder, -⟩ := hself.liesIn
    have hstart_lt := (hleft left left.self_mem_nodes).start_lt
    have hstart_lt' := (hright right right.self_mem_nodes).start_lt
    have hinside : left.span.Within s := ⟨Nat.le_of_eq hstart, by omega⟩
    have hinside' : right.span.Within s := ⟨by omega, Nat.le_of_eq hstop.symm⟩
    refine List.forall_mem_cons.mpr ⟨⟨Nat.le_refl _, Nat.le_refl _⟩, ?_⟩
    refine List.forall_mem_append.mpr ⟨fun f hf => ?_, fun f hf => ?_⟩
    · exact (ihl hleft f hf).trans hinside
    · exact (ihr hright f hf).trans hinside'

/-- Where all nodes lie well, the leaves lie one behind the other. -/
theorem pairwise_leaves_of_wellPlaced (h : ∀ f ∈ e.nodes, f.WellPlaced text tokens) :
    e.leaves.Pairwise fun f g => f.span.stop ≤ g.span.start := by
  induction e with
  | number => exact List.pairwise_singleton _ _
  | signed sign operand s ih => exact ih (List.forall_mem_cons.mp h).2
  | binary operator left right s ihl ihr =>
    obtain ⟨hself, hoperands⟩ := List.forall_mem_cons.mp h
    obtain ⟨hleft, hright⟩ := List.forall_mem_append.mp hoperands
    obtain ⟨-, -, horder, -⟩ := hself.liesIn
    refine List.pairwise_append.mpr ⟨ihl hleft, ihr hright, fun f hf g hg => ?_⟩
    have hstop := (within_of_wellPlaced hleft f (mem_nodes_of_mem_leaves hf)).2
    have hstart := (within_of_wellPlaced hright g (mem_nodes_of_mem_leaves hg)).1
    omega

end Expr

/-- **How a tree lies in its text.** Whatever text has a tree, each node of the tree has characters
of the text, and its span is what it says: that of a number is the span of its token, a sign is the
first character of its node, and an operator stands between its operands, with nothing but blanks
and the parentheses around the operands beside it. So each node lies inside of the nodes above it,
and the leaves lie one behind the other. -/
theorem tree_spans_exact {text : List Char} {tokens : List Token} {tree : Expr} {limit : Nat}
    (htokens : tokenize text = .ok tokens) (htree : parse limit tokens = .ok tree) :
    (∀ e ∈ tree.nodes, e.WellPlaced text tokens ∧ ∀ f ∈ e.nodes, f.span.Within e.span) ∧
      tree.leaves.Pairwise fun f g =>
        f.span.stop ≤ g.span.start ∧ f.span.start < g.span.start := by
  obtain ⟨ts, rfl, hlaid⟩ := exists_laidOut_of_tokenize htokens
  obtain ⟨n, -, hderives⟩ := parse_eq_ok_iff.mp htree
  rw [(hlaid.beforeEnd_eq _).1] at hderives
  have hmem : ∀ t ∈ ts, t ∈ ts ++ [Token.endOfInput text.length] :=
    fun t ht => List.mem_append_left _ ht
  have hfills : tree.Fills text _ 0 text :=
    hderives.fillsWords text _ hmem 0 text (.self text) hlaid
  have hplaced := hfills.wellPlaced
  constructor
  · intro e he
    have hinside := fun f hf => hplaced f (Expr.mem_nodes_trans he hf)
    exact ⟨hplaced e he, Expr.within_of_wellPlaced hinside⟩
  · refine (Expr.pairwise_leaves_of_wellPlaced hplaced).imp_of_mem fun hf _ hle => ⟨hle, ?_⟩
    have hlt := (hplaced _ (Expr.mem_nodes_of_mem_leaves hf)).start_lt
    omega

/-- In `(1) + -( 2*3)` the sum runs from its first number to its last one, over a gap with both
parentheses around the operator. -/
theorem tree_spans_exact_group :
    let text := "(1) + -( 2*3)".toList
    let tokens : List Token := [⟨.openParen, "(", none, ⟨0, 1⟩⟩,
      ⟨.number, "1", some (.integer 1), ⟨1, 2⟩⟩, ⟨.closeParen, ")", none, ⟨2, 3⟩⟩,
      ⟨.plus, "+", none, ⟨4, 5⟩⟩, ⟨.minus, "-", none, ⟨6, 7⟩⟩, ⟨.openParen, "(", none, ⟨7, 8⟩⟩,
      ⟨.number, "2", some (.integer 2), ⟨9, 10⟩⟩, ⟨.star, "*", none, ⟨10, 11⟩⟩,
      ⟨.number, "3", some (.integer 3), ⟨11, 12⟩⟩, ⟨.closeParen, ")", none, ⟨12, 13⟩⟩,
      .endOfInput 13]
    let product : Expr :=
      .binary .mul (.number (.ofNat 2) ⟨9, 10⟩) (.number (.ofNat 3) ⟨11, 12⟩) ⟨9, 12⟩
    let tree : Expr :=
      .binary .add (.number (.ofNat 1) ⟨1, 2⟩) (.signed .minus product ⟨6, 12⟩) ⟨1, 12⟩
    tokenize text = .ok tokens ∧ parse 3 tokens = .ok tree ∧
      (∀ e ∈ tree.nodes, e.WellPlaced text tokens ∧ ∀ f ∈ e.nodes, f.span.Within e.span) ∧
      tree.leaves.Pairwise fun f g =>
        f.span.stop ≤ g.span.start ∧ f.span.start < g.span.start := by
  intro text tokens product tree
  have htokens : tokenize text = .ok tokens := by decide +kernel
  have htree : parse 3 tokens = .ok tree := by decide +kernel
  exact ⟨htokens, htree, tree_spans_exact htokens htree⟩

end Calculator
