import Calculator.Evaluation
import Calculator.Parse.Expression
import Calculator.Token.Scan

/-!
# The answer to a text

A text is cut into tokens, the tokens make an expression, and the expression has a value. The first
stage that fails gives the error.
-/

namespace Calculator

/-- How many levels may be open while an expression is read, and how many nodes may lie on a path
of its tree. -/
structure Limits where
  nesting : Nat
  evaluation : Nat
deriving DecidableEq, Repr

/-- The limits that hold where none are given. -/
def Limits.standard : Limits :=
  ⟨256, 1024⟩

/-- The tokens of a text, or the error in its words. -/
def tokensOf (text : String) : Except Error (List Token) :=
  (tokenize text.toList).mapError .lexical

/-- The expression of a text, or the error in its words or its structure. -/
def expressionOf (limit : Nat) (text : String) : Except Error Expr := do
  let tokens ← tokensOf text
  (parse limit tokens).mapError .structural

/-- The value of a text, or the first error in it. -/
def answer (limits : Limits) (text : String) : Except Error Binary64 := do
  let e ← expressionOf limits.nesting text
  (evaluate limits.evaluation e).mapError .evaluation

/-- The answer to a text goes through the three stages up to the first one that fails. -/
theorem answer_eq (limits : Limits) (text : String) :
    answer limits text = match tokenize text.toList with
      | .error err => .error (.lexical err)
      | .ok tokens => match parse limits.nesting tokens with
        | .error err => .error (.structural err)
        | .ok tree => match evaluate limits.evaluation tree with
          | .error err => .error (.evaluation err)
          | .ok x => .ok x := by
  rw [answer, expressionOf, tokensOf]
  cases tokenize text.toList with
  | error err => rfl
  | ok tokens =>
    change ((parse limits.nesting tokens).mapError Error.structural >>= fun e =>
      (evaluate limits.evaluation e).mapError Error.evaluation) = _
    dsimp only
    cases parse limits.nesting tokens with
    | error err => rfl
    | ok tree =>
      change (evaluate limits.evaluation tree).mapError Error.evaluation = _
      dsimp only
      cases evaluate limits.evaluation tree <;> rfl

/-- The value of a text is that of its expression. -/
theorem exists_evaluate_of_answer {limits : Limits} {text : String} {x : Binary64}
    (h : answer limits text = .ok x) : ∃ tokens tree, tokenize text.toList = .ok tokens ∧
      parse limits.nesting tokens = .ok tree ∧ evaluate limits.evaluation tree = .ok x := by
  rw [answer_eq] at h
  split at h
  · cases h
  · next tokens htokens =>
    split at h
    · cases h
    · next tree hparse =>
      split at h
      · cases h
      · next y hevaluate =>
        cases h
        exact ⟨tokens, tree, htokens, hparse, hevaluate⟩

/-- The error of a text is that of the first stage that fails. -/
theorem cases_of_answer_eq_error {limits : Limits} {text : String} {e : Error}
    (h : answer limits text = .error e) :
    (∃ err, tokenize text.toList = .error err ∧ e = .lexical err) ∨
    (∃ tokens err, tokenize text.toList = .ok tokens ∧
      parse limits.nesting tokens = .error err ∧ e = .structural err) ∨
    ∃ tokens tree err, tokenize text.toList = .ok tokens ∧
      parse limits.nesting tokens = .ok tree ∧ evaluate limits.evaluation tree = .error err ∧
      e = .evaluation err := by
  rw [answer_eq] at h
  split at h
  · next err htokens =>
    cases h
    exact .inl ⟨err, htokens, rfl⟩
  · next tokens htokens =>
    split at h
    · next err hparse =>
      cases h
      exact .inr (.inl ⟨tokens, err, htokens, hparse, rfl⟩)
    · next tree hparse =>
      split at h
      · next err hevaluate =>
        cases h
        exact .inr (.inr ⟨tokens, tree, err, htokens, hparse, hevaluate, rfl⟩)
      · cases h

end Calculator
