import Calculator.Proofs.ParseProgram

/-!
# Every call of a parse

The procedures of a parse, whose recursion nothing bounds, come to the same as the parse that runs
with a bound, as long as the bound exceeds the number of tokens left. So a parse has a run, and all
calls in it return; and what holds of every run holds of the parse: each level that is opened is
closed once, and nothing behind the first end token is read.
-/

namespace Calculator

/-- The parse of a procedure. In it `inside` bounds the expressions between parentheses, and `fuel`
the chains, the exponents and the signs. -/
def Parse.ofProcedure (limit inside fuel : Nat) : Procedure → Parse Expr
  | .expression => Parse.expression limit inside
  | .part c => Parse.ofCategory limit inside fuel c

/-- A program has a run from a cursor that ends like a parse: with the same result, at a cursor that
stands for the same state. -/
def Program.ComesTo (limit : Nat) (s : TokenStream) (p : Program) (c : Cursor)
    (outcome : Except StructuralError Expr × ParseState) : Prop :=
  ∃ events d, Runs limit s p c events outcome.1 d ∧ s.view d = outcome.2

namespace Program.ComesTo

variable {limit : Nat} {s : TokenStream} {c : Cursor}
  {outcome : Except StructuralError Expr × ParseState}

/-- A return comes to its result. -/
theorem finish {result : Except StructuralError Expr} {t : ParseState} (h : s.view c = t) :
    (Program.finish result).ComesTo limit s c (result, t) :=
  ⟨[], c, .finish, h⟩

/-- A look at the current token comes to what follows it. -/
theorem peek {next : Token → Program} (h : (next (s.current c)).ComesTo limit s c outcome) :
    (Program.peek next).ComesTo limit s c outcome := by
  obtain ⟨events, d, hrun, hview⟩ := h
  exact ⟨events, d, .peek hrun, hview⟩

/-- To take the current token comes to what follows behind it. -/
theorem advance {next : Token → Program}
    (h : (next (s.current c)).ComesTo limit s (s.advance c) outcome) :
    (Program.advance next).ComesTo limit s c outcome := by
  obtain ⟨events, d, hrun, hview⟩ := h
  exact ⟨_, d, .advance hrun, hview⟩

/-- To go back in a loop comes to another round of it. -/
theorem again {k : Chain} {left : Expr} (h : (k.round left).ComesTo limit s c outcome) :
    (Program.again k left).ComesTo limit s c outcome := by
  obtain ⟨events, d, hrun, hview⟩ := h
  exact ⟨events, d, .again hrun, hview⟩

/-- What follows a call begins at the cursor where the call has returned. -/
theorem call {p : Procedure} {next : Except StructuralError Expr → Program}
    {result : Except StructuralError Expr} {t : ParseState}
    (hp : p.body.ComesTo limit s c (result, t)) (hc : c.position ≤ s.endIndex)
    (hnext : ∀ d, s.view d = t → d.position ≤ s.endIndex → Returned c result d →
      (next result).ComesTo limit s d outcome) :
    (Program.call p next).ComesTo limit s c outcome := by
  obtain ⟨inner, d, hbody, hview⟩ := hp
  obtain ⟨outer, e, hrest, hview'⟩ :=
    hnext d hview (hbody.position_le_endIndex hc) (hbody.returned (p.keeps_body s c))
  exact ⟨_, e, .call hbody hrest, hview'⟩

/-- What needs the result of a call is what a parse does that needs the result of a parse. -/
theorem require {p : Procedure} {next : Expr → Program}
    {called : Except StructuralError Expr × ParseState}
    {goOn : Expr → ParseState → Except StructuralError Expr × ParseState}
    (hp : p.body.ComesTo limit s c called) (hc : c.position ≤ s.endIndex)
    (hnext : ∀ e d, d.position ≤ s.endIndex → c.position < d.position →
      (next e).ComesTo limit s d (goOn e (s.view d))) :
    (Program.require p next).ComesTo limit s c (match called with
      | (.ok e, t) => goOn e t
      | (.error err, t) => (.error err, t)) := by
  obtain ⟨result, t⟩ := called
  refine call hp hc fun d hview hd hreturned => ?_
  cases result with
  | error err => exact finish hview
  | ok e =>
    subst hview
    exact hnext e d hd (hreturned.position_lt e rfl)

/-- What is made of a call on the next level is what is made of the parse on the next level. -/
theorem nested {p : Procedure} (make : Expr → Expr) {parse : Parse Expr}
    (hp : p.body.ComesTo limit s c.enter (parse (s.view c.enter))) (hc : c.position ≤ s.endIndex) :
    (Program.nested p make).ComesTo limit s c (match Parse.nested limit parse (s.view c) with
      | (.ok e, t) => (.ok (make e), t)
      | (.error err, t) => (.error err, t)) := by
  by_cases hlt : c.depth < limit
  · obtain ⟨events, d, hbody, hview⟩ := hp
    have hnested : Parse.nested limit parse (s.view c) =
        ((parse (s.view c.enter)).1, s.view d.leave) := by
      rw [Parse.nested, if_pos (show (s.view c).depth < limit from hlt)]
      change ((parse (s.view c.enter)).1, { (parse (s.view c.enter)).2 with
        depth := (parse (s.view c.enter)).2.depth - 1 }) = _
      rw [← hview]
      rfl
    rw [hnested]
    generalize (parse (s.view c.enter)).1 = result at hbody ⊢
    cases result with
    | ok e => exact ⟨_, d.leave, .enter hlt (.call hbody (.leave .finish)), rfl⟩
    | error err => exact ⟨_, d.leave, .enter hlt (.call hbody (.leave .finish)), rfl⟩
  · have hnested : Parse.nested limit parse (s.view c) =
        (.error ((Fault.tooDeep limit).errorAt (s.current c)), s.view c) := by
      rw [Parse.nested, if_neg (show ¬(s.view c).depth < limit from hlt),
        TokenStream.current_view hc]
    rw [hnested]
    exact ⟨_, c, .tooDeep (Nat.not_lt.mp hlt), rfl⟩

end Program.ComesTo

namespace Parse

variable {limit : Nat} {s : TokenStream} {inside : Nat}

/-- Every expression between parentheses is what its procedure comes to. -/
def InsideComesTo (limit : Nat) (s : TokenStream) (inside : Nat) : Prop :=
  ∀ c : Cursor, c.position ≤ s.endIndex → s.left c < inside →
    Procedure.expression.body.ComesTo limit s c (expression limit inside (s.view c))

/-- A primary is what its procedure comes to. -/
theorem primary_comesTo (hinside : InsideComesTo limit s inside) (fuel : Nat) {c : Cursor}
    (hc : c.position ≤ s.endIndex) (hleft : s.left c ≤ inside) :
    (Procedure.part .primary).body.ComesTo limit s c
      (ofCategory limit inside fuel .primary (s.view c)) := by
  rw [primary_apply, TokenStream.current_view hc, ← TokenStream.view_advance hc, Procedure.body]
  refine .peek ?_
  cases hkind : (s.current c).kind with
  | number =>
    refine .advance ?_
    cases (s.current c).value with
    | none => exact .finish rfl
    | some literal => exact .finish rfl
  | openParen =>
    have hadvance := TokenStream.position_advance_le hc
    have hless := TokenStream.left_advance hc (by rw [hkind]; decide)
    have hexpression := hinside (s.advance c) hadvance (Nat.lt_of_lt_of_le hless hleft)
    refine .advance (.require hexpression hadvance fun e d hd _ => .peek ?_)
    rw [TokenStream.current_view hd]
    by_cases hclose : (s.current d).kind = .closeParen
    · rw [if_pos hclose, if_pos hclose]
      exact .advance (.finish (TokenStream.view_advance hd))
    · rw [if_neg hclose, if_neg hclose]
      exact .finish rfl
  | _ => exact .finish rfl

/-- An operand is what its procedure comes to. -/
theorem operand_comesTo (hinside : InsideComesTo limit s inside) (fuel : Nat) :
    ∀ {c : Cursor}, c.position ≤ s.endIndex → s.left c ≤ inside → s.left c < fuel →
      (Procedure.part .operand).body.ComesTo limit s c
        (ofCategory limit inside fuel .operand (s.view c)) := by
  induction fuel with
  | zero =>
    intro c _ _ hfuel
    omega
  | succ fuel ih =>
    intro c hc hleft hfuel
    rw [operand_apply, TokenStream.current_view hc, ← TokenStream.view_advance hc, Procedure.body]
    refine .peek ?_
    cases hsign : Sign.ofKind? (s.current c).kind with
    | none =>
      have hprimary := primary_comesTo hinside (fuel + 1) hc hleft
      dsimp only
      generalize ofCategory limit inside (fuel + 1) .primary (s.view c) = outcome at hprimary ⊢
      obtain ⟨result, t⟩ := outcome
      exact hprimary.call hc fun d hview _ _ => .finish hview
    | some sign =>
      have hadvance := TokenStream.position_advance_le hc
      have hless := TokenStream.left_advance hc (TokenKind.ne_of_some hsign rfl)
      have hoperand := ih (c := (s.advance c).enter) hadvance
        (Nat.le_trans (Nat.le_of_lt hless) hleft)
        (Nat.lt_of_lt_of_le hless (Nat.le_of_lt_succ hfuel))
      exact .advance (.nested _ hoperand hadvance)

/-- A power is what its procedure comes to. -/
theorem power_comesTo (hinside : InsideComesTo limit s inside) (fuel : Nat) :
    ∀ {c : Cursor}, c.position ≤ s.endIndex → s.left c ≤ inside → s.left c < fuel →
      (Procedure.part .power).body.ComesTo limit s c
        (ofCategory limit inside fuel .power (s.view c)) := by
  induction fuel with
  | zero =>
    intro c _ _ hfuel
    omega
  | succ fuel ih =>
    intro c hc hleft hfuel
    have hbase := operand_comesTo hinside (fuel + 1) hc hleft hfuel
    rw [power_apply, Procedure.body]
    refine .require hbase hc fun base d hd hlt => .peek ?_
    rw [TokenStream.current_view hd, ← TokenStream.view_advance hd]
    by_cases hcaret : (s.current d).kind = .caret
    · rw [if_pos hcaret, if_pos hcaret]
      have hadvance := TokenStream.position_advance_le hd
      have hless := TokenStream.left_advance hd (by rw [hcaret]; decide)
      have hleft' : s.left d ≤ s.left c := TokenStream.left_le_of_lt hlt
      have hexponent := ih (c := (s.advance d).enter) hadvance
        (Nat.le_trans (Nat.le_of_lt hless) (Nat.le_trans hleft' hleft))
        (Nat.lt_of_lt_of_le hless (Nat.le_trans hleft' (Nat.le_of_lt_succ hfuel)))
      exact .advance (.nested _ hexponent hadvance)
    · rw [if_neg hcaret, if_neg hcaret]
      exact .finish rfl

/-! ## Chains -/

/-- Where at most `most` tokens are left, a parse is what the procedure of a category comes to. -/
def PartComesTo (limit : Nat) (s : TokenStream) (most : Nat) (category : Category)
    (parse : Parse Expr) : Prop :=
  ∀ c : Cursor, c.position ≤ s.endIndex → s.left c ≤ most →
    (Procedure.part category).body.ComesTo limit s c (parse (s.view c))

/-- A chain goes on as the loop of its procedure does. -/
theorem chainFrom_comesTo (k : Chain) {operand : Parse Expr} {most : Nat}
    (hoperand : PartComesTo limit s most k.operand operand) (fuel : Nat) :
    ∀ {c : Cursor} (left : Expr), c.position ≤ s.endIndex → s.left c ≤ most → s.left c < fuel →
      (Program.again k left).ComesTo limit s c
        (chainFrom k.operator? operand fuel left (s.view c)) := by
  induction fuel with
  | zero =>
    intro c left _ _ hfuel
    omega
  | succ fuel ih =>
    intro c left hc hmost hfuel
    refine .again (.peek ?_)
    cases hop : k.operator? (s.current c).kind with
    | none =>
      rw [chainFrom_of_none operand (fuel + 1) left (by rw [TokenStream.current_view hc, hop])]
      exact .finish rfl
    | some operator =>
      have hne : (s.current c).kind ≠ .endOfInput :=
        TokenKind.ne_of_some hop (by cases k <;> rfl)
      have hadvance := TokenStream.position_advance_le hc
      have hless := TokenStream.left_advance hc hne
      rw [chainFrom_of_some operand fuel left (by rw [TokenStream.current_view hc, hop]),
        ← TokenStream.view_advance hc]
      refine .advance (.require (hoperand _ hadvance (by omega)) hadvance
        fun right d hd hlt => ?_)
      have hleft : s.left d ≤ s.left (s.advance c) := TokenStream.left_le_of_lt hlt
      exact ih _ hd (by omega) (by omega)

/-- A chain is what its procedure comes to if its operands are what theirs comes to. -/
theorem chain_comesTo (k : Chain) {operand : Parse Expr} {most fuel : Nat}
    (hoperand : PartComesTo limit s most k.operand operand) (hfuel : most < fuel) :
    PartComesTo limit s most k.category (chain k.operator? operand fuel) := by
  intro c hc hmost
  rw [chain_apply, Chain.body_category]
  refine .require (hoperand c hc hmost) hc fun left d hd hlt => ?_
  have hmost' := Nat.le_trans (TokenStream.left_le_of_lt hlt) hmost
  exact chainFrom_comesTo k hoperand fuel left hd hmost' (Nat.lt_of_le_of_lt hmost' hfuel)

/-! ## All procedures -/

/-- Every category is what its procedure comes to. -/
theorem ofCategory_comesTo (hinside : InsideComesTo limit s inside) {fuel : Nat}
    (category : Category) {c : Cursor} (hc : c.position ≤ s.endIndex) (hleft : s.left c ≤ inside)
    (hfuel : s.left c < fuel) :
    (Procedure.part category).body.ComesTo limit s c
      (ofCategory limit inside fuel category (s.view c)) := by
  have hpower : PartComesTo limit s (s.left c) .power (ofCategory limit inside fuel .power) :=
    fun _ hd hle =>
      power_comesTo hinside fuel hd (Nat.le_trans hle hleft) (Nat.lt_of_le_of_lt hle hfuel)
  have hproduct : PartComesTo limit s (s.left c) .product (ofCategory limit inside fuel .product) :=
    chain_comesTo .product hpower hfuel
  cases category with
  | sum => exact chain_comesTo .sum hproduct hfuel c hc (Nat.le_refl _)
  | product => exact hproduct c hc (Nat.le_refl _)
  | power => exact hpower c hc (Nat.le_refl _)
  | operand => exact operand_comesTo hinside fuel hc hleft hfuel
  | primary => exact primary_comesTo hinside fuel hc hleft

/-- An expression is what its procedure comes to. -/
theorem expression_comesTo (limit : Nat) (s : TokenStream) (inside : Nat) :
    InsideComesTo limit s inside := by
  induction inside with
  | zero =>
    intro c _ hleft
    omega
  | succ inside ih =>
    intro c hc hleft
    have hsum : (Procedure.part .sum).body.ComesTo limit s c.enter
        (ofCategory limit inside (inside + 1) .sum (s.view c.enter)) :=
      ofCategory_comesTo ih .sum hc (Nat.le_of_lt_succ hleft) hleft
    have hnested := Program.ComesTo.nested id hsum hc
    rw [expression_apply]
    generalize nested limit (ofCategory limit inside (inside + 1) .sum) (s.view c) = outcome
      at hnested ⊢
    obtain ⟨err | e, t⟩ := outcome
    · exact hnested
    · exact hnested

/-- Every procedure comes to what its parse comes to with enough fuel. -/
theorem ofProcedure_comesTo (limit : Nat) {fuel : Nat} (p : Procedure) {c : Cursor}
    (hc : c.position ≤ s.endIndex) (hinside : s.left c < inside) (hfuel : s.left c < fuel) :
    p.body.ComesTo limit s c (ofProcedure limit inside fuel p (s.view c)) := by
  cases p with
  | expression => exact expression_comesTo limit s inside c hc hinside
  | part category =>
    exact ofCategory_comesTo (expression_comesTo limit s inside) category hc
      (Nat.le_of_lt hinside) hfuel

/-- The whole of a list is what the procedures come to. -/
theorem whole_comesTo (limit : Nat) (tokens : List Token) :
    Program.whole.ComesTo limit (.ofTokens tokens) .start
      (whole limit ((ParseState.ofTokens tokens).rest.length + 1)
        (ParseState.ofTokens tokens)) := by
  have hstart : Cursor.start.position ≤ (TokenStream.ofTokens tokens).endIndex := Nat.zero_le _
  rw [← TokenStream.view_start, whole_apply]
  refine .require (expression_comesTo limit _ _ .start hstart ?_) hstart fun e d hd _ => .peek ?_
  · exact Nat.lt_succ_self _
  · rw [TokenStream.current_view hd]
    by_cases hend : ((TokenStream.ofTokens tokens).current d).kind = .endOfInput
    · rw [if_pos hend, if_pos hend]
      exact .finish rfl
    · rw [if_neg hend, if_neg hend]
      exact .finish rfl

end Parse

/-! ## The calls of a parse -/

/-- If something that happens is a call, the parse of its procedure does the same, as long as the
bounds on its recursion exceed the number of tokens left: it has the same result, and it stops in
the same state. -/
def Event.IsParse (limit : Nat) (s : TokenStream) (event : Event) : Prop :=
  ∀ (p : Procedure) (result : Except StructuralError Expr), event.action = .call p result →
    ∀ inside fuel : Nat, s.left event.before < inside → s.left event.before < fuel →
      Parse.ofProcedure limit inside fuel p (s.view event.before) = (result, s.view event.after)

/-- The parse of its procedure does the same as a call in a run. -/
theorem Runs.isParse {limit : Nat} {s : TokenStream} {p : Program} {c d : Cursor}
    {events : List Event} {result : Except StructuralError Expr}
    (h : Runs limit s p c events result d) {event : Event} (hmem : event ∈ events)
    (hposition : event.before.position ≤ s.endIndex) : event.IsParse limit s := by
  intro q returned haction inside fuel hinside hfuel
  obtain ⟨inner, hrun⟩ := h.run_of_call hmem haction
  obtain ⟨inner', d', hrun', hview⟩ :=
    Parse.ofProcedure_comesTo limit q hposition hinside hfuel
  obtain ⟨-, hresult, rfl⟩ := hrun.unique hrun'
  exact Prod.ext hresult hview.symm

/-- **The calls of a parse keep the cursor and the levels in order.** Whatever the tokens are, the
procedures have exactly one run, so that every call made in it returns, and the result of this run
is that of the parse. In it no more levels are open than the limit allows; the cursor neither goes
back nor passes the first end token; a level is closed only where one is open; and a call returns,
with a result or an error, on the level where it began, and if it succeeds, behind a token at least.
The parse of its procedure, with enough fuel, does the same as each of these calls. So what comes
after an end token has no part in the result. -/
theorem parse_calls_disciplined (limit : Nat) :
    (∀ tokens : List Token, ∃ (events : List Event) (after : Cursor),
      (∀ (events' : List Event) (result : Except StructuralError Expr) (after' : Cursor),
        Runs limit (.ofTokens tokens) .whole .start events' result after' ↔
          events' = events ∧ result = parse limit tokens ∧ after' = after) ∧
      ∀ event ∈ events, event.Disciplined limit (.ofTokens tokens) ∧
        event.IsParse limit (.ofTokens tokens)) ∧
    (∀ front back back' : List Token, (∃ t ∈ front, t.kind = .endOfInput) →
      parse limit (front ++ back) = parse limit (front ++ back')) := by
  have hstart : ∀ s : TokenStream, Cursor.start.position ≤ s.endIndex := fun _ => Nat.zero_le _
  have hruns : ∀ tokens : List Token, ∃ events after,
      Runs limit (.ofTokens tokens) .whole .start events (parse limit tokens) after := by
    intro tokens
    obtain ⟨events, after, hrun, -⟩ := Parse.whole_comesTo limit tokens
    exact ⟨events, after, hrun⟩
  constructor
  · intro tokens
    obtain ⟨events, after, hrun⟩ := hruns tokens
    refine ⟨events, after, fun events' result after' => ⟨hrun.unique, ?_⟩, fun event hmem => ?_⟩
    · rintro ⟨rfl, rfl, rfl⟩
      exact hrun
    · have hevent :=
        hrun.disciplined (Program.keeps_whole _ _) (hstart _) (Nat.zero_le _) event hmem
      exact ⟨hevent, hrun.isParse hmem (Nat.le_trans hevent.position_le hevent.position_le_end)⟩
  · intro front back back' hfront
    obtain ⟨events, after, hrun⟩ := hruns (front ++ back)
    obtain ⟨events', after', hrun'⟩ := hruns (front ++ back')
    -- the run on the one list is a run on the other, which has only one
    have hsame : ∀ c : Cursor, c.position ≤ (TokenStream.ofTokens (front ++ back)).endIndex →
        (TokenStream.ofTokens (front ++ back')).current c =
          (TokenStream.ofTokens (front ++ back)).current c :=
      fun _ hc => TokenStream.current_ofTokens_append hfront back back' hc
    exact (hrun'.unique (hrun.congr hsame (hstart _))).2.1

end Calculator
