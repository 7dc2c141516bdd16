import Calculator.Proofs.ParseComplete
import Calculator.Proofs.ParseOutcome

/-!
# Parsing is exactly the grammar

A list of tokens is parsed up to its first end token. The parse succeeds exactly where the grammar
derives the tokens before it with no more levels than the limit allows, and it makes the tree that
the grammar makes. Where it fails, it gives the error that stops a reader.
-/

namespace Calculator

/-- The tokens before the first end token. -/
def beforeEnd (tokens : List Token) : List Token :=
  tokens.takeWhile (·.kind != .endOfInput)

/-- The token that ends a list: its first end token, or one behind a list that has none. -/
def endOf (tokens : List Token) : Token :=
  (ParseState.ofTokens tokens).stop

/-- None of the tokens before the first end token is an end token. -/
theorem kind_of_mem_beforeEnd {tokens : List Token} {t : Token} (h : t ∈ beforeEnd tokens) :
    t.kind ≠ .endOfInput := by
  simpa using List.all_eq_true.mp List.all_takeWhile t h

/-- There are no more tokens before the end than in the whole list. -/
theorem length_beforeEnd_le (tokens : List Token) :
    (beforeEnd tokens).length ≤ tokens.length :=
  (List.takeWhile_sublist _).length_le

/-- The token that ends a list is an end token. -/
theorem kind_endOf (tokens : List Token) : (endOf tokens).kind = .endOfInput := by
  simp only [endOf, ParseState.ofTokens]
  cases h : tokens.find? (·.kind == .endOfInput) with
  | none => rfl
  | some t => simpa using List.find?_some h

/-- A list is cut at its first end token, whatever comes after it. -/
theorem beforeEnd_append_cons {ts : List Token} {t : Token} (back : List Token)
    (ht : t.kind = .endOfInput) (hts : ∀ t ∈ ts, t.kind ≠ .endOfInput) :
    beforeEnd (ts ++ t :: back) = ts ∧ endOf (ts ++ t :: back) = t := by
  constructor
  · rw [beforeEnd, List.takeWhile_append_of_pos (by simpa using hts)]
    simp [ht]
  · have hfind : (ts ++ t :: back).find? (·.kind == .endOfInput) = some t := by
      rw [List.find?_append, List.find?_eq_none.mpr (by simpa using hts)]
      simp [ht]
    simp only [endOf, ParseState.ofTokens, hfind, Option.getD_some]

/-- A list that ends with its only end token is the tokens before it and this token. -/
theorem beforeEnd_append {ts : List Token} {t : Token} (ht : t.kind = .endOfInput)
    (hts : ∀ t ∈ ts, t.kind ≠ .endOfInput) :
    beforeEnd (ts ++ [t]) = ts ∧ endOf (ts ++ [t]) = t :=
  beforeEnd_append_cons [] ht hts

/-- A parse comes to a tree that the grammar derives, or to the error that stops the reader. -/
theorem parse_outcome (limit : Nat) (tokens : List Token) :
    (∃ e n, parse limit tokens = .ok e ∧ Derives .sum (beforeEnd tokens) e n ∧ n + 1 ≤ limit ∧
      Situation.start.failure? limit (endOf tokens) (beforeEnd tokens) = none) ∨
    (∃ err us, parse limit tokens = .error err ∧
      Situation.start.failure? limit (endOf tokens) (beforeEnd tokens) = some (err, us)) := by
  rcases Parse.whole_outcome limit _ (kind_endOf tokens) (fun _ => kind_of_mem_beforeEnd) with
    ⟨e, n, hrun, hderives, hn, hreader⟩ | ⟨err, us, hrun, hreader⟩
  · exact .inl ⟨e, n, congrArg Prod.fst hrun, hderives, hn, hreader⟩
  · exact .inr ⟨err, us, congrArg Prod.fst hrun, hreader⟩

/-- A parse makes a tree exactly where the grammar derives it with room for its levels. -/
theorem parse_eq_ok_iff {limit : Nat} {tokens : List Token} {e : Expr} :
    parse limit tokens = .ok e ↔ ∃ n, n + 1 ≤ limit ∧ Derives .sum (beforeEnd tokens) e n := by
  constructor
  · intro h
    rcases parse_outcome limit tokens with ⟨f, n, hf, hderives, hn, -⟩ | ⟨err, us, herr, -⟩
    · rw [h] at hf
      cases hf
      exact ⟨n, hn, hderives⟩
    · rw [h] at herr
      cases herr
  · rintro ⟨n, hn, hderives⟩
    exact congrArg Prod.fst (Parse.whole_of_derives hderives (kind_endOf tokens) hn)

/-- A parse fails exactly with the error that stops the reader. -/
theorem parse_eq_error_iff {limit : Nat} {tokens : List Token} {err : StructuralError} :
    parse limit tokens = .error err ↔ ∃ us,
      Situation.start.failure? limit (endOf tokens) (beforeEnd tokens) = some (err, us) := by
  rcases parse_outcome limit tokens with ⟨e, n, he, -, -, hreader⟩ | ⟨err', us, herr, hreader⟩
  · rw [he, hreader]
    simp
  · rw [herr, hreader]
    simp [eq_comm]

/-- **Parsing is exactly the grammar.** With a limit of `limit` levels the parse of a list of tokens
is the tree `e` if and only if the tokens before the first end token derive `e` with at most `limit`
levels open at a time, the level of the whole expression among them; and no list of tokens derives
two different trees. -/
theorem parse_exact (limit : Nat) (tokens : List Token) :
    (∀ e : Expr, parse limit tokens = .ok e ↔
      ∃ n, n + 1 ≤ limit ∧ Derives .sum (beforeEnd tokens) e n) ∧
    (∀ (ts : List Token) (e f : Expr) (m n : Nat),
      Derives .sum ts e m → Derives .sum ts f n → e = f) :=
  ⟨fun _ => parse_eq_ok_iff, fun _ _ _ _ _ he hf => he.tree_unique hf⟩

end Calculator
