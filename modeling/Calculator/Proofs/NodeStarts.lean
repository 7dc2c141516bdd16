import Calculator.Proofs.EvaluationSteps
import Calculator.Proofs.Grammar

/-!
# Where the nodes of an expression start

Parentheses leave no node behind, so every node of an expression that was read from tokens starts
with a number or with a sign, also where parentheses stand around it. An evaluation that fails names
the start of a node.
-/

namespace Calculator

/-- The nodes of an expression, itself first. -/
def Expr.nodes : Expr → List Expr
  | .number value span => [.number value span]
  | .signed sign operand span => .signed sign operand span :: operand.nodes
  | .binary operator left right span =>
    .binary operator left right span :: (left.nodes ++ right.nodes)

/-- An expression is one of its nodes. -/
theorem Expr.self_mem_nodes (e : Expr) : e ∈ e.nodes := by
  cases e <;> exact List.mem_cons_self

/-! ## Errors lie at nodes -/

/-- A number that is not finite is an error at the place that is given. -/
theorem position_of_requireFinite {context : String} {p : Nat} {x : Binary64}
    {err : EvaluationError} (h : requireFinite context p x = .error err) : err.position = p := by
  rw [requireFinite] at h
  split at h
  · cases h
  · cases h
    rfl

/-- An operator that has no value fails at one of the two places that are given. -/
theorem Operator.position_of_apply {operator : Operator} {x y : Binary64} {rightStart start : Nat}
    {err : EvaluationError} (h : operator.apply x y rightStart start = .error err) :
    err.position = rightStart ∨ err.position = start := by
  cases operator with
  | add => exact .inr (position_of_requireFinite h)
  | sub => exact .inr (position_of_requireFinite h)
  | mul => exact .inr (position_of_requireFinite h)
  | div =>
    rw [apply, quotient] at h
    split at h
    · cases h
      exact .inl rfl
    · exact .inr (position_of_requireFinite h)
  | mod =>
    rw [apply, modulo] at h
    split at h
    · cases h
      exact .inl rfl
    · exact .inr (position_of_requireFinite h)
  | pow =>
    rw [apply, power] at h
    split at h
    · cases h
      exact .inr rfl
    · split at h
      · cases h
        exact .inr rfl
      · exact .inr (position_of_requireFinite h)

/-- An expression without a value fails at the start of one of its nodes. -/
theorem Expr.exists_node_of_error {limit room : Nat} {e : Expr} {err : EvaluationError}
    (h : e.valueWithin limit room = .error err) : ∃ f ∈ e.nodes, err.position = f.span.start := by
  induction e generalizing room with
  | number value span =>
    refine ⟨_, self_mem_nodes _, ?_⟩
    cases room with
    | zero =>
      cases h
      rfl
    | succ room => exact position_of_requireFinite h
  | signed sign operand span ih =>
    cases room with
    | zero =>
      cases h
      exact ⟨_, self_mem_nodes _, rfl⟩
    | succ room =>
      rcases cases_of_bind_eq_error h with hx | ⟨x, -, hx⟩
      · obtain ⟨f, hf, hposition⟩ := ih hx
        exact ⟨f, List.mem_cons_of_mem _ hf, hposition⟩
      · cases hx
  | binary operator left right span ihl ihr =>
    cases room with
    | zero =>
      cases h
      exact ⟨_, self_mem_nodes _, rfl⟩
    | succ room =>
      rcases cases_of_bind_eq_error h with hx | ⟨x, -, h⟩
      · obtain ⟨f, hf, hposition⟩ := ihl hx
        exact ⟨f, List.mem_cons_of_mem _ (List.mem_append_left _ hf), hposition⟩
      rcases cases_of_bind_eq_error h with hy | ⟨y, -, h⟩
      · obtain ⟨f, hf, hposition⟩ := ihr hy
        exact ⟨f, List.mem_cons_of_mem _ (List.mem_append_right _ hf), hposition⟩
      rcases Operator.position_of_apply h with hposition | hposition
      · refine ⟨right, ?_, hposition⟩
        exact List.mem_cons_of_mem _ (List.mem_append_right _ right.self_mem_nodes)
      · exact ⟨_, self_mem_nodes _, hposition⟩

/-! ## Nodes start at tokens -/

/-- A token with which a node starts: a number, or a sign before an operand. -/
def Token.StartsNode (t : Token) : Prop :=
  t.kind = .number ∨ ∃ sign, Sign.ofKind? t.kind = some sign

/-- Each node of an expression starts where one of the tokens starts that can start a node. -/
def Expr.StartsAt (e : Expr) (ts : List Token) : Prop :=
  ∀ f ∈ e.nodes, ∃ t ∈ ts, t.StartsNode ∧ f.span.start = t.position

/-- The starts of tokens follow one another. -/
def InOrder (ts : List Token) : Prop :=
  ts.Pairwise fun t u => t.position ≤ u.position

namespace Expr.StartsAt

variable {e l r : Expr} {ts us : List Token}

/-- More tokens do not matter. -/
theorem mono (h : e.StartsAt ts) (hts : ∀ t ∈ ts, t ∈ us) : e.StartsAt us := by
  intro f hf
  obtain ⟨t, ht, hstart⟩ := h f hf
  exact ⟨t, hts t ht, hstart⟩

/-- Two operands with an operator between them start where the left one starts. -/
theorem combine {t : Token} {operator : Operator} (hl : l.StartsAt ts) (hr : r.StartsAt us)
    (horder : InOrder (ts ++ t :: us)) :
    (Expr.combine operator l r).StartsAt (ts ++ t :: us) := by
  have hleft : l.StartsAt (ts ++ t :: us) := hl.mono fun u hu => List.mem_append_left _ hu
  have hright : r.StartsAt (ts ++ t :: us) := hr.mono fun u hu =>
    List.mem_append_right _ (List.mem_cons_of_mem _ hu)
  intro f hf
  rcases List.mem_cons.mp hf with rfl | hf
  · -- the tokens of the left operand come before those of the right one
    obtain ⟨u, hu, hnode, hstart⟩ := hl l l.self_mem_nodes
    obtain ⟨v, hv, -, hstart'⟩ := hr r r.self_mem_nodes
    have hle : u.position ≤ v.position :=
      (List.pairwise_append.mp horder).2.2 u hu v (List.mem_cons_of_mem _ hv)
    refine ⟨u, List.mem_append_left _ hu, hnode, ?_⟩
    show min l.span.start r.span.start = u.position
    omega
  · exact (List.mem_append.mp hf).elim (hleft f) (hright f)

/-- An operand with a sign before it starts with the sign. -/
theorem withSign {t : Token} {sign : Sign} (hsign : Sign.ofKind? t.kind = some sign)
    (h : e.StartsAt ts) (horder : InOrder (t :: ts)) :
    (Expr.withSign sign t.span e).StartsAt (t :: ts) := by
  intro f hf
  rcases List.mem_cons.mp hf with rfl | hf
  · obtain ⟨u, hu, -, hstart⟩ := h e e.self_mem_nodes
    have hle : t.position ≤ u.position := (List.pairwise_cons.mp horder).1 u hu
    refine ⟨t, List.mem_cons_self, .inr ⟨sign, hsign⟩, ?_⟩
    show min t.position e.span.start = t.position
    omega
  · exact h.mono (fun u hu => List.mem_cons_of_mem _ hu) f hf

end Expr.StartsAt

/-- The nodes of an expression that the grammar derives start at numbers and signs. -/
theorem Derives.startsAt {c : Category} {ts : List Token} {e : Expr} {n : Nat}
    (h : Derives c ts e n) (horder : InOrder ts) : e.StartsAt ts := by
  induction h with
  | sumOfProduct _ ih => exact ih horder
  | productOfPower _ ih => exact ih horder
  | powerOfOperand _ ih => exact ih horder
  | operandOfPrimary _ ih => exact ih horder
  | addition _ _ _ ihl ihr =>
    obtain ⟨hleft, hright, -⟩ := List.pairwise_append.mp horder
    exact (ihl hleft).combine (ihr hright.of_cons) horder
  | multiplication _ _ _ ihl ihr =>
    obtain ⟨hleft, hright, -⟩ := List.pairwise_append.mp horder
    exact (ihl hleft).combine (ihr hright.of_cons) horder
  | raising _ _ _ ihl ihr =>
    obtain ⟨hleft, hright, -⟩ := List.pairwise_append.mp horder
    exact (ihl hleft).combine (ihr hright.of_cons) horder
  | signing hsign _ ih => exact (ih horder.of_cons).withSign hsign horder
  | @number t literal hk _ =>
    intro f hf
    cases List.mem_singleton.mp hf
    exact ⟨t, List.mem_cons_self, .inl hk, rfl⟩
  | group _ _ _ ih =>
    have hinside := (List.pairwise_append.mp horder.of_cons).1
    exact (ih hinside).mono fun t ht => List.mem_cons_of_mem _ (List.mem_append_left _ ht)

end Calculator
