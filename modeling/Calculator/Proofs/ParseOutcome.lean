import Calculator.Proofs.ParseSteps
import Calculator.Proofs.Situation

/-!
# What a parse comes to

A parse and a reader who only keeps his situation stop at the same place for the same reason. A
parse that succeeds has taken tokens that the grammar derives, and the reader then stands behind
them with the operand complete; a parse that fails gives the error that stops the reader.
-/

namespace Calculator

/-- The situations in which a part of a category may start. -/
def Category.StartsIn (c : Category) (σ : Situation) : Prop :=
  σ.due = true ∧ match c with
    | sum | product => σ.inner = ⟨0, 0⟩
    | power => σ.inner.signs = 0
    | operand | primary => True

namespace Parse

variable {limit : Nat} {stop : Token}

/-- What the parse of a category, started at `depth` in front of `ts`, comes to, when a reader in
front of `ts` stands in the situation `σ`. -/
inductive Outcome (limit : Nat) (stop : Token) (depth : Nat) (c : Category) (σ : Situation)
    (ts : List Token) : Except StructuralError Expr × ParseState → Prop where
  /-- The parse has taken `us`, which makes the tree, and `vs` is left. The reader goes on in front
  of `vs`, and the exponents of the last power may still count as open for him. -/
  | ok (us : List Token) (exponents : Nat) {vs : List Token} {e : Expr} {n : Nat}
      (hts : ts = us ++ vs) (hderives : Derives c us e n) (hn : σ.level + n ≤ limit)
      (hend : c.continues (vs.headD stop).kind = false)
      (hexponents : c = .operand ∨ c = .primary → exponents = σ.inner.exponents)
      (hlevel : (σ.completed exponents).level ≤ limit)
      (hreader : σ.failure? limit stop ts = (σ.completed exponents).failure? limit stop vs) :
      Outcome limit stop depth c σ ts (.ok e, ⟨vs, stop, depth⟩)
  /-- The parse stops with the error that stops the reader. -/
  | error {e : StructuralError} {vs : List Token}
      (hreader : σ.failure? limit stop ts = some (e, vs)) :
      Outcome limit stop depth c σ ts (.error e, ⟨vs, stop, depth⟩)

/-- A parse on the next level comes to what it comes to there, or to a level too many. -/
theorem Outcome.nested {c : Category} {σ : Situation} {ts : List Token} {depth : Nat}
    {p : Parse Expr} (hlevel : σ.level = depth + 1)
    (h : σ.level ≤ limit → Outcome limit stop (depth + 1) c σ ts (p ⟨ts, stop, depth + 1⟩)) :
    Outcome limit stop depth c σ ts (nested limit p ⟨ts, stop, depth⟩) := by
  by_cases hlt : depth < limit
  · have h := h (by omega)
    generalize hp : p ⟨ts, stop, depth + 1⟩ = result at h
    cases h with
    | ok us exponents hts hderives hn hend hexponents hlevel hreader =>
      rw [nested_of_eq hlt hp]
      exact .ok us exponents hts hderives hn hend hexponents hlevel hreader
    | error hreader =>
      rw [nested_of_eq hlt hp]
      exact .error hreader
  · rw [nested_of_le (Nat.not_lt.mp hlt)]
    exact .error (Situation.failure?_of_lt (by omega))

/-- What every expression between parentheses comes to. -/
def ExpressionOutcome (limit : Nat) (stop : Token) (inside : Nat) : Prop :=
  ∀ (σ : Situation) (ts : List Token) (depth : Nat), Category.sum.StartsIn σ →
    σ.level = depth + 1 → ts.length < inside →
    Outcome limit stop depth .sum σ ts (expression limit inside ⟨ts, stop, depth⟩)

/-- A token that is not the end token stands in front of the end. -/
theorem exists_cons_of_kind_ne {ts : List Token} (hstop : stop.kind = .endOfInput)
    (h : (ts.headD stop).kind ≠ .endOfInput) :
    ∃ t us, ts = t :: us ∧ t.kind = (ts.headD stop).kind := by
  cases ts with
  | nil => exact absurd hstop h
  | cons t us => exact ⟨t, us, rfl, rfl⟩

variable {inside : Nat}

/-- A group comes to a primary, or to a parenthesis that is not closed. -/
theorem group_outcome (hstop : stop.kind = .endOfInput)
    (hinside : ExpressionOutcome limit stop inside) {σ : Situation} {t : Token} {ts : List Token}
    {depth : Nat} (fuel : Nat) (hdue : σ.due = true) (hdepth : σ.level = depth)
    (hlimit : σ.level ≤ limit) (hlength : (t :: ts).length ≤ inside) (hk : t.kind = .openParen) :
    Outcome limit stop depth .primary σ (t :: ts)
      (ofCategory limit inside fuel .primary ⟨t :: ts, stop, depth⟩) := by
  have hread : σ.read t.kind = ⟨true, ⟨0, 0⟩, σ.inner :: σ.outer⟩ := by
    rw [hk, Situation.read_openParen hdue]
  have hopen : σ.failure? limit stop (t :: ts) = (σ.read t.kind).failure? limit stop ts :=
    Situation.failure?_of_none hlimit (Situation.fault?_openParen hdue hk)
  have hinner := hinside (σ.read t.kind) ts depth (by rw [hread]; exact ⟨rfl, rfl⟩)
    (by rw [hk, Situation.level_read_openParen hdue, hdepth]) hlength
  rw [primary_apply, ParseState.current_cons, hk, ParseState.advance_cons]
  generalize expression limit inside ⟨ts, stop, depth⟩ = result at hinner
  cases hinner with
  | error hreader => exact .error (hopen.trans hreader)
  | @ok us exponents vs e n hts hderives hn hend _ hlevel hreader =>
    -- the sum in the group is complete: the next token closes it, or it is the error
    have hfault := Situation.fault?_completed_of_cons exponents hend
      (show (σ.read t.kind).outer = σ.inner :: σ.outer by rw [hread])
    by_cases hclose : (vs.headD stop).kind = .closeParen
    · obtain ⟨closing, ws, rfl, hkind⟩ :=
        exists_cons_of_kind_ne hstop (by rw [hclose]; nofun)
      rw [List.headD_cons] at hclose hfault
      rw [if_pos hclose] at hfault
      simp only [ParseState.current_cons, hclose, if_true, ParseState.advance_cons]
      refine .ok (t :: (us ++ [closing])) σ.inner.exponents ?_ (.group hk hderives hclose) ?_ rfl
        (fun _ => rfl) (Nat.le_trans (Situation.level_completed_le σ) hlimit) ?_
      · rw [hts, List.cons_append, List.append_assoc, List.singleton_append]
      · rw [hk, Situation.level_read_openParen hdue] at hn
        omega
      · rw [hopen, hreader, Situation.failure?_of_none hlevel hfault, hclose, hread]
        rfl
    · rw [if_neg hclose] at hfault
      simp only [show (ParseState.current ⟨vs, stop, depth⟩).kind ≠ .closeParen from hclose,
        if_false]
      exact .error ((hopen.trans hreader).trans (Situation.failure?_of_fault hlevel hfault nofun))

/-- A primary is a number or a group. -/
theorem primary_outcome (hstop : stop.kind = .endOfInput)
    (hinside : ExpressionOutcome limit stop inside) {σ : Situation} {ts : List Token} {depth : Nat}
    (fuel : Nat) (hdue : σ.due = true) (hdepth : σ.level = depth) (hlimit : σ.level ≤ limit)
    (hlength : ts.length ≤ inside) (hsign : Sign.ofKind? (ts.headD stop).kind = none) :
    Outcome limit stop depth .primary σ ts
      (ofCategory limit inside fuel .primary ⟨ts, stop, depth⟩) := by
  cases hk : (ts.headD stop).kind with
  | number =>
    obtain ⟨t, us, rfl, hkind⟩ := exists_cons_of_kind_ne hstop (by rw [hk]; nofun)
    rw [hk] at hkind
    have hfault := Situation.fault?_number hdue hkind
    rw [primary_apply, ParseState.current_cons, hkind, ParseState.advance_cons]
    cases hv : t.value with
    | none =>
      rw [hv] at hfault
      exact .error (by rw [Situation.failure?_of_some hlimit hfault, if_pos rfl])
    | some literal =>
      rw [hv] at hfault
      refine .ok [t] σ.inner.exponents rfl (.number hkind hv) hlimit rfl (fun _ => rfl)
        (Nat.le_trans (Situation.level_completed_le σ) hlimit) ?_
      rw [Situation.failure?_of_none hlimit hfault, hkind, Situation.read_number hdue]
  | openParen =>
    obtain ⟨t, us, rfl, hkind⟩ := exists_cons_of_kind_ne hstop (by rw [hk]; nofun)
    exact group_outcome hstop hinside fuel hdue hdepth hlimit hlength hk
  | plus => rw [hk] at hsign; cases hsign
  | minus => rw [hk] at hsign; cases hsign
  | _ =>
    rw [primary_apply, ParseState.current_mk, hk]
    refine .error (Situation.failure?_of_fault hlimit ?_ nofun)
    simp only [Situation.fault?, hdue, if_true, hk]

/-- An operand is a primary behind any number of signs, each on a level of its own. -/
theorem operand_outcome (hstop : stop.kind = .endOfInput)
    (hinside : ExpressionOutcome limit stop inside) (fuel : Nat) :
    ∀ {σ : Situation} {ts : List Token} {depth : Nat}, σ.due = true → σ.level = depth →
      σ.level ≤ limit → ts.length ≤ inside → ts.length < fuel →
      Outcome limit stop depth .operand σ ts
        (ofCategory limit inside fuel .operand ⟨ts, stop, depth⟩) := by
  induction fuel with
  | zero =>
    intro σ ts depth _ _ _ _ hfuel
    omega
  | succ fuel ih =>
    intro σ ts depth hdue hdepth hlimit hlength hfuel
    rw [operand_apply, ParseState.current_mk]
    cases hsign : Sign.ofKind? (ts.headD stop).kind with
    | none =>
      have hprimary := primary_outcome hstop hinside (fuel + 1) hdue hdepth hlimit hlength hsign
      generalize ofCategory limit inside (fuel + 1) .primary ⟨ts, stop, depth⟩ = result at hprimary
      cases hprimary with
      | error hreader => exact .error hreader
      | ok us exponents hts hderives hn hend hexponents hlevel hreader =>
        exact .ok us exponents hts (.operandOfPrimary hderives) hn hend
          (fun _ => hexponents (.inr rfl)) hlevel hreader
    | some sign =>
      obtain ⟨t, ts, rfl, -⟩ := exists_cons_of_kind_ne hstop
        (by intro hend; rw [hend] at hsign; cases hsign)
      rw [List.headD_cons] at hsign
      rw [List.length_cons] at hlength hfuel
      have hread := Situation.read_sign hdue hsign
      have hdepth' : (σ.read t.kind).level = depth + 1 := by
        rw [Situation.level_read_sign hdue hsign, hdepth]
      have hopen : σ.failure? limit stop (t :: ts) = (σ.read t.kind).failure? limit stop ts :=
        Situation.failure?_of_none hlimit (Situation.fault?_sign hdue hsign)
      have hoperand : Outcome limit stop depth .operand (σ.read t.kind) ts
          (nested limit (ofCategory limit inside fuel .operand) ⟨ts, stop, depth⟩) :=
        .nested hdepth' fun hlimit' => ih (by rw [hread]) hdepth' hlimit' (by omega) (by omega)
      rw [ParseState.advance_cons, List.headD_cons]
      generalize nested limit _ _ = result at hoperand
      cases hoperand with
      | error hreader => exact .error (hopen.trans hreader)
      | ok us exponents hts hderives hn hend hexponents hlevel hreader =>
        refine .ok (t :: us) exponents (by rw [hts, List.cons_append]) (.signing hsign hderives)
          (by omega) hend (fun _ => ?_) ?_ ?_
        · rw [hexponents (.inl rfl), hread]
        · rw [hread] at hlevel
          exact hlevel
        · rw [hopen, hreader, hread]
          rfl

/-- A power is an operand with or without an exponent, which is a power on the next level. -/
theorem power_outcome (hstop : stop.kind = .endOfInput)
    (hinside : ExpressionOutcome limit stop inside) (fuel : Nat) :
    ∀ {σ : Situation} {ts : List Token} {depth : Nat}, Category.power.StartsIn σ →
      σ.level = depth → σ.level ≤ limit → ts.length ≤ inside → ts.length < fuel →
      Outcome limit stop depth .power σ ts
        (ofCategory limit inside fuel .power ⟨ts, stop, depth⟩) := by
  induction fuel with
  | zero =>
    intro σ ts depth _ _ _ _ hfuel
    omega
  | succ fuel ih =>
    intro σ ts depth hstart hdepth hlimit hlength hfuel
    have hbase := operand_outcome hstop hinside (fuel + 1) hstart.1 hdepth hlimit hlength hfuel
    rw [power_apply]
    generalize ofCategory limit inside (fuel + 1) .operand ⟨ts, stop, depth⟩ = result at hbase
    cases hbase with
    | error hreader => exact .error hreader
    | @ok us exponents vs b m hts hderives hm _ hexponents hlevel hreader =>
      by_cases hcaret : (vs.headD stop).kind = .caret
      · obtain ⟨t, ws, rfl, -⟩ := exists_cons_of_kind_ne hstop (by rw [hcaret]; nofun)
        rw [List.headD_cons] at hcaret
        simp only [ParseState.current_cons, hcaret, if_true, ParseState.advance_cons]
        have hlengths : ts.length = us.length + (ws.length + 1) := by
          rw [hts, List.length_append, List.length_cons]
        -- no sign waits where a power starts, so the base leaves the level as it was
        have hdepth' : ((σ.completed exponents).read .caret).level = depth + 1 := by
          rw [Situation.level_read_caret, hexponents (.inl rfl),
            Situation.level_completed_eq hstart.2, hdepth]
        have hopen : (σ.completed exponents).failure? limit stop (t :: ws) =
            ((σ.completed exponents).read .caret).failure? limit stop ws := by
          rw [Situation.failure?_of_none hlevel, hcaret]
          exact Situation.fault?_completed_of_continues exponents (by rw [hcaret]; rfl)
        have hexponent : Outcome limit stop depth .power ((σ.completed exponents).read .caret) ws
            (nested limit (ofCategory limit inside fuel .power) ⟨ws, stop, depth⟩) :=
          .nested hdepth' fun hlimit' => ih ⟨rfl, rfl⟩ hdepth' hlimit' (by omega) (by omega)
        generalize nested limit _ _ = result at hexponent
        cases hexponent with
        | error hreader' => exact .error (hreader.trans (hopen.trans hreader'))
        | ok us' exponents' hts' hderives' hn' hend' _ hlevel' hreader' =>
          refine .ok (us ++ t :: us') exponents' ?_ (.raising hderives hcaret hderives')
            (by omega) hend' nofun hlevel' (hreader.trans (hopen.trans hreader'))
          rw [hts, hts', List.append_assoc, List.cons_append]
      · simp only [show (ParseState.current ⟨vs, stop, depth⟩).kind ≠ .caret from hcaret, if_false]
        exact .ok us exponents hts (.powerOfOperand hderives) hm
          (beq_eq_false_iff_ne.mpr hcaret) nofun hlevel hreader

/-! ## Chains -/

/-- What makes a category the chains of another one: which operators go between the operands, and
that a chain goes on with them. -/
structure ChainOf (c d : Category) (operator? : TokenKind → Option Operator) : Prop where
  extend {ts us : List Token} {l r : Expr} {m n : Nat} {t : Token} {operator : Operator} :
    Derives c ts l m → operator? t.kind = some operator → Derives d us r n →
    Derives c (ts ++ t :: us) (.combine operator l r) (max m n)
  continues (k : TokenKind) : c.continues k = (d.continues k || (operator? k).isSome)
  operators {k : TokenKind} {operator : Operator} : operator? k = some operator →
    Operator.ofSumKind? k = some operator ∨ Operator.ofProductKind? k = some operator
  compound : ¬(c = .operand ∨ c = .primary)

/-- Sums are the chains of products. -/
theorem chainOf_sum : ChainOf .sum .product Operator.ofSumKind? :=
  ⟨.addition, fun k => by cases k <;> rfl, .inl, nofun⟩

/-- Products are the chains of powers. -/
theorem chainOf_product : ChainOf .product .power Operator.ofProductKind? :=
  ⟨.multiplication, fun k => by cases k <;> rfl, .inr, nofun⟩

/-- An operator between operands is no end token, and a sum goes on with it. -/
theorem operator_kind {k : TokenKind} {operator : Operator}
    (hk : Operator.ofSumKind? k = some operator ∨ Operator.ofProductKind? k = some operator) :
    k ≠ .endOfInput ∧ Category.sum.continues k = true := by
  rcases hk with hk | hk <;> cases k <;> cases hk <;> exact ⟨nofun, rfl⟩

/-- A chain that has read `us` up to now comes to a longer chain. Behind each operator the reader is
back in the situation in which the chain started. -/
theorem chainFrom_outcome {c d : Category} {operator? : TokenKind → Option Operator}
    (hchain : ChainOf c d operator?) (hstop : stop.kind = .endOfInput) {operand : Parse Expr}
    {σ : Situation} {ts : List Token} {depth : Nat} (hstart : Category.sum.StartsIn σ)
    (hoperand : ∀ ws : List Token, ws.length < ts.length →
      Outcome limit stop depth d σ ws (operand ⟨ws, stop, depth⟩)) (left : Nat) :
    ∀ {us vs : List Token} {e : Expr} {n : Nat} (exponents : Nat), vs.length < left →
      ts = us ++ vs → Derives c us e n → σ.level + n ≤ limit →
      d.continues (vs.headD stop).kind = false → (σ.completed exponents).level ≤ limit →
      σ.failure? limit stop ts = (σ.completed exponents).failure? limit stop vs →
      Outcome limit stop depth c σ ts (chainFrom operator? operand left e ⟨vs, stop, depth⟩) := by
  induction left with
  | zero =>
    intro us vs e n exponents hleft
    omega
  | succ left ih =>
    intro us vs e n exponents hleft hts hderives hn hend hlevel hreader
    cases hop : operator? (vs.headD stop).kind with
    | none =>
      rw [chainFrom_of_none operand (left + 1) e (s := ⟨vs, stop, depth⟩) hop]
      refine .ok us exponents hts hderives hn ?_ (fun h => absurd h hchain.compound) hlevel hreader
      rw [hchain.continues, hend, hop]
      rfl
    | some operator =>
      obtain ⟨hne, hcontinues⟩ := operator_kind (hchain.operators hop)
      obtain ⟨t, ws, rfl, -⟩ := exists_cons_of_kind_ne hstop hne
      rw [List.headD_cons] at hop hcontinues
      -- the reader is back where the chain started, so the next operand is read from there
      have hback : (σ.completed exponents).read t.kind = σ := by
        rw [Situation.read_operator exponents (hchain.operators hop), ← hstart.2, ← hstart.1]
      have hgo : (σ.completed exponents).failure? limit stop (t :: ws) =
          σ.failure? limit stop ws := by
        rw [Situation.failure?_of_none hlevel
          (Situation.fault?_completed_of_continues exponents hcontinues), hback]
      rw [List.length_cons] at hleft
      have hlengths : ts.length = us.length + (ws.length + 1) := by
        rw [hts, List.length_append, List.length_cons]
      have hright := hoperand ws (by omega)
      rw [chainFrom_of_some operand left e (s := ⟨t :: ws, stop, depth⟩) hop,
        ParseState.advance_cons]
      generalize operand ⟨ws, stop, depth⟩ = result at hright
      cases hright with
      | error hreader' => exact .error (hreader.trans (hgo.trans hreader'))
      | @ok us' exponents' vs' r n' hts' hderives' hn' hend' _ hlevel' hreader' =>
        have hlengths' : ws.length = us'.length + vs'.length := by
          rw [hts', List.length_append]
        refine ih exponents' (by omega) ?_ (hchain.extend hderives hop hderives') (by omega) hend'
          hlevel' (hreader.trans (hgo.trans hreader'))
        rw [hts, hts', List.append_assoc, List.cons_append]

/-- A chain comes to one operand or more. -/
theorem chain_outcome {c d : Category} {operator? : TokenKind → Option Operator}
    (hchain : ChainOf c d operator?) (hstop : stop.kind = .endOfInput) {operand : Parse Expr}
    (hsingle : ∀ {us : List Token} {e : Expr} {n : Nat}, Derives d us e n → Derives c us e n)
    {σ : Situation} {ts : List Token} {depth : Nat} (hstart : Category.sum.StartsIn σ)
    (hoperand : ∀ ws : List Token, ws.length ≤ ts.length →
      Outcome limit stop depth d σ ws (operand ⟨ws, stop, depth⟩)) {fuel : Nat}
    (hfuel : ts.length < fuel) :
    Outcome limit stop depth c σ ts (chain operator? operand fuel ⟨ts, stop, depth⟩) := by
  have hfirst := hoperand ts (Nat.le_refl _)
  rw [chain_apply]
  generalize operand ⟨ts, stop, depth⟩ = result at hfirst
  cases hfirst with
  | error hreader => exact .error hreader
  | @ok us exponents vs e n hts hderives hn hend _ hlevel hreader =>
    have hlengths : ts.length = us.length + vs.length := by rw [hts, List.length_append]
    exact chainFrom_outcome hchain hstop hstart
      (fun ws hws => hoperand ws (Nat.le_of_lt hws)) fuel exponents (by omega) hts
      (hsingle hderives) hn hend hlevel hreader

/-- A sum is a chain of chains of powers. -/
theorem sum_outcome (hstop : stop.kind = .endOfInput)
    (hinside : ExpressionOutcome limit stop inside) {σ : Situation} {ts : List Token}
    {depth fuel : Nat} (hstart : Category.sum.StartsIn σ) (hdepth : σ.level = depth)
    (hlimit : σ.level ≤ limit) (hlength : ts.length ≤ inside) (hfuel : ts.length < fuel) :
    Outcome limit stop depth .sum σ ts
      (ofCategory limit inside fuel .sum ⟨ts, stop, depth⟩) := by
  have hpower : Category.power.StartsIn σ := ⟨hstart.1, by rw [hstart.2]⟩
  refine chain_outcome chainOf_sum hstop .sumOfProduct hstart (fun ws hws => ?_) hfuel
  refine chain_outcome chainOf_product hstop .productOfPower hstart (fun vs hvs => ?_) (by omega)
  exact power_outcome hstop hinside fuel hpower hdepth hlimit (by omega) (by omega)

/-- An expression comes to what its sum comes to on the next level. -/
theorem expression_outcome (hstop : stop.kind = .endOfInput) (inside : Nat) :
    ExpressionOutcome limit stop inside := by
  induction inside with
  | zero =>
    intro σ ts depth _ _ hlength
    omega
  | succ inside ih =>
    intro σ ts depth hstart hdepth hlength
    rw [expression_apply]
    exact .nested hdepth fun hlimit =>
      sum_outcome hstop ih hstart hdepth hlimit (by omega) hlength

/-! ## The whole list -/

/-- A whole list of tokens comes to a tree that the grammar derives from all of its tokens, or to
the error that stops the reader, and the parse stops where he does. -/
theorem whole_outcome (limit : Nat) (stop : Token) {ts : List Token}
    (hstop : stop.kind = .endOfInput) (hts : ∀ t ∈ ts, t.kind ≠ .endOfInput) :
    (∃ e n, whole limit (ts.length + 1) ⟨ts, stop, 0⟩ = (.ok e, ⟨[], stop, 0⟩) ∧
      Derives .sum ts e n ∧ n + 1 ≤ limit ∧ Situation.start.failure? limit stop ts = none) ∨
    (∃ err us, whole limit (ts.length + 1) ⟨ts, stop, 0⟩ = (.error err, ⟨us, stop, 0⟩) ∧
      Situation.start.failure? limit stop ts = some (err, us)) := by
  have hexpression : Outcome limit stop 0 .sum Situation.start ts
      (expression limit (ts.length + 1) ⟨ts, stop, 0⟩) :=
    expression_outcome hstop (ts.length + 1) Situation.start ts 0 ⟨rfl, rfl⟩ rfl
      (Nat.lt_succ_self _)
  rw [whole_apply]
  generalize expression limit (ts.length + 1) ⟨ts, stop, 0⟩ = result at hexpression
  cases hexpression with
  | @error err us hreader => exact .inr ⟨err, us, rfl, hreader⟩
  | @ok us exponents vs e n hus hderives hn hend _ hlevel hreader =>
    have hfault := Situation.fault?_completed_of_nil exponents hend
      (show Situation.start.outer = [] from rfl)
    by_cases hvs : (vs.headD stop).kind = .endOfInput
    · -- no token of the list is the end token, so the list has been taken to its end
      obtain rfl : vs = [] := by
        cases vs with
        | nil => rfl
        | cons t ws => exact absurd hvs (hts t (by simp [hus]))
      rw [if_pos hvs] at hfault
      rw [List.append_nil] at hus
      refine .inl ⟨e, n, if_pos hvs, hus ▸ hderives, ?_, ?_⟩
      · rw [Nat.add_comm]
        exact hn
      · rw [hreader, Situation.failure?, if_neg (Nat.not_lt.mpr hlevel)]
        rw [List.headD_nil] at hfault
        rw [hfault]
        rfl
    · rw [if_neg hvs] at hfault
      exact .inr ⟨_, vs, if_neg hvs,
        hreader.trans (Situation.failure?_of_fault hlevel hfault (by decide))⟩

end Parse

end Calculator
