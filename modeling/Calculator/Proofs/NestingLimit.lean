import Calculator.Proofs.Reader

/-!
# The limit of levels

A limit of levels makes a parse fail exactly where a reader of the same tokens, whom no limit stops,
has one level too many open, and it changes nothing else. The reader's levels are counted from the
kinds of the tokens alone.
-/

namespace Calculator

namespace Situation

variable {σ : Situation} {limit more : Nat} {t : Token} {ts : List Token}

/-! ## What opens a level -/

/-- The kinds of tokens that open a level: `(`, `^`, and a sign where an operand is due. -/
def Opens (σ : Situation) (k : TokenKind) : Prop :=
  k = .openParen ∨ k = .caret ∨ (σ.due = true ∧ (k = .plus ∨ k = .minus))

/-- No other token opens a level. -/
theorem level_read_le_of_not_opens {k : TokenKind} (h : ¬ σ.Opens k) :
    (σ.read k).level ≤ σ.level := by
  obtain ⟨due, inner, outer⟩ := σ
  cases due <;> cases k <;>
    simp [Opens, read, readDue, readComplete, completed, level, Group.levels] at h ⊢
  case false.closeParen =>
    cases outer with
    | nil => simp
    | cons g outer =>
      simp only [List.map_cons, List.sum_cons, Group.levels]
      omega
  all_goals omega

/-! ## How many tokens are taken -/

/-- How many tokens a reader takes whom no limit stops. -/
def taken : Situation → List Token → Nat
  | _, [] => 0
  | σ, t :: ts =>
    match σ.fault? t with
    | some f => if f = .valueMissing then 1 else 0
    | none => taken (σ.read t.kind) ts + 1

/-- Where no limit stops a reader, he leaves the tokens that he has not taken. -/
theorem left_add_taken (stop : Token) (hlimit : σ.level + ts.length ≤ limit) :
    (σ.failure? limit stop ts).elim 0 (·.2.length) + σ.taken ts = ts.length := by
  induction ts generalizing σ with
  | nil =>
    rw [failure?, if_neg (Nat.not_lt.mpr (Nat.le_trans (Nat.le_add_right _ _) hlimit))]
    cases σ.fault? stop <;> rfl
  | cons t ts ih =>
    rw [List.length_cons] at hlimit ⊢
    cases hfault : σ.fault? t with
    | some f =>
      rw [failure?_of_some (by omega) hfault]
      simp only [taken, hfault, Option.elim_some]
      split <;> rfl
    | none =>
      have hread := level_read_le σ t.kind
      rw [failure?_of_none (by omega) hfault]
      simp only [taken, hfault]
      rw [← Nat.add_assoc, ih (by omega)]

/-! ## The first level too many -/

/-- The level behind a token is the first one above the limit. -/
def ExceedsAt (σ : Situation) (limit : Nat) (ts : List Token) (i : Nat) : Prop :=
  (∀ j ≤ i, (σ.after (ts.take j)).level ≤ limit) ∧ limit < (σ.after (ts.take (i + 1))).level

/-- There is only one first level above the limit. -/
theorem ExceedsAt.index_unique {i j : Nat} (hi : σ.ExceedsAt limit ts i)
    (hj : σ.ExceedsAt limit ts j) : i = j := by
  rcases Nat.lt_trichotomy i j with hlt | heq | hlt
  · exact absurd hi.2 (Nat.not_lt.mpr (hj.1 (i + 1) hlt))
  · exact heq
  · exact absurd hj.2 (Nat.not_lt.mpr (hi.1 (j + 1) hlt))

/-- The token behind which the level is the first one above the limit opens this level. -/
theorem ExceedsAt.opens {i : Nat} (h : σ.ExceedsAt limit ts i) :
    ∃ t, ts[i]? = some t ∧ (σ.after (ts.take i)).Opens t.kind := by
  have hle := h.1 i (Nat.le_refl i)
  have hlt := h.2
  rw [List.take_add_one] at hlt
  cases hget : ts[i]? with
  | none =>
    rw [hget, Option.toList_none, List.append_nil] at hlt
    omega
  | some t =>
    refine ⟨t, rfl, Classical.byContradiction fun hopens => ?_⟩
    have hread := level_read_le_of_not_opens hopens
    rw [hget, Option.toList_some, after_append, after_cons, after_nil] at hlt
    omega

/-- Only a number can lack its value. -/
theorem kind_of_valueMissing (h : σ.fault? t = some .valueMissing) : t.kind = .number := by
  rw [fault?] at h
  split at h
  · split at h
    · assumption
    · cases h
    · cases h
    · cases h
    · cases h
  · split at h
    · cases h
    · split at h <;> split at h <;> cases h

/-- A reader with a limit is stopped behind the first token that brings him above it, if the reader
without a limit takes this token too; and else he comes to the same as that one. -/
theorem failure?_cases (stop : Token) (hlevel : σ.level ≤ limit)
    (hmore : σ.level + ts.length ≤ more) :
    (∃ i, i < σ.taken ts ∧ σ.ExceedsAt limit ts i ∧ σ.failure? limit stop ts =
      some ((Fault.tooDeep limit).errorAt (ts.getD (i + 1) stop), ts.drop (i + 1))) ∨
    ((∀ i ≤ σ.taken ts, (σ.after (ts.take i)).level ≤ limit) ∧
      σ.failure? limit stop ts = σ.failure? more stop ts) := by
  induction ts generalizing σ with
  | nil =>
    refine .inr ⟨fun i _ => by rwa [List.take_nil], ?_⟩
    rw [failure?, failure?, if_neg (Nat.not_lt.mpr hlevel),
      if_neg (Nat.not_lt.mpr (Nat.le_trans (Nat.le_add_right _ _) hmore))]
  | cons t ts ih =>
    rw [List.length_cons] at hmore
    cases hfault : σ.fault? t with
    | some f =>
      refine .inr ⟨fun i hi => ?_, ?_⟩
      · simp only [taken, hfault] at hi
        cases i with
        | zero => exact hlevel
        | succ i =>
          split at hi
          · next hmissing =>
            -- the number is taken before it is found to lack its value
            obtain rfl : i = 0 := by omega
            have hnot : ¬ σ.Opens t.kind := by
              rw [kind_of_valueMissing (hmissing ▸ hfault)]
              simp [Opens]
            exact Nat.le_trans (level_read_le_of_not_opens hnot) hlevel
          · omega
      · rw [failure?_of_some hlevel hfault, failure?_of_some (by omega) hfault]
    | none =>
      have hread := level_read_le σ t.kind
      rw [failure?_of_none hlevel hfault, failure?_of_none (by omega) hfault]
      by_cases hexceeds : limit < (σ.read t.kind).level
      · refine .inl ⟨0, ?_, ⟨fun j hj => ?_, ?_⟩, ?_⟩
        · simp only [taken, hfault]
          omega
        · rw [Nat.le_zero.mp hj, List.take_zero, after_nil]
          exact hlevel
        · exact hexceeds
        · rw [failure?_of_lt hexceeds]
          cases ts <;> rfl
      · rcases ih (Nat.not_lt.mp hexceeds) (by omega) with ⟨i, hi, hat, hrun⟩ | ⟨hlevels, hrun⟩
        · refine .inl ⟨i + 1, ?_, ⟨fun j hj => ?_, hat.2⟩, hrun⟩
          · simp only [taken, hfault]
            omega
          · cases j with
            | zero => exact hlevel
            | succ j => exact hat.1 j (by omega)
        · refine .inr ⟨fun i hi => ?_, hrun⟩
          simp only [taken, hfault] at hi
          cases i with
          | zero => exact hlevel
          | succ i => exact hlevels i (by omega)

end Situation

/-! ## The parse with a limit and the parse without -/

/-- A parse that no limit stops. Its limit is beyond the number of tokens, and no token opens more
than one level. -/
def unlimitedRun (tokens : List Token) : Except StructuralError Expr × ParseState :=
  let s := ParseState.ofTokens tokens
  Parse.whole (tokens.length + 1) (s.rest.length + 1) s

/-- What a list of tokens is parsed to without a limit. -/
def unlimited (tokens : List Token) : Except StructuralError Expr :=
  (unlimitedRun tokens).1

/-- How many tokens a parse without a limit takes before it succeeds or fails. -/
def takenTokens (tokens : List Token) : Nat :=
  (beforeEnd tokens).length - (unlimitedRun tokens).2.rest.length

/-- The level behind the first `i` tokens. -/
def levelAfter (tokens : List Token) (i : Nat) : Nat :=
  (Situation.start.after ((beforeEnd tokens).take i)).level

/-- The level exceeds the limit for the first time behind the token at the index `i`. -/
def ExceedsFirst (limit : Nat) (tokens : List Token) (i : Nat) : Prop :=
  (∀ j ≤ i, levelAfter tokens j ≤ limit) ∧ limit < levelAfter tokens (i + 1)

/-- Two parses of the same tokens whose readers come to the same come to the same. -/
theorem parse_eq_of_failure?_eq {limit more : Nat} {tokens : List Token}
    (h : Situation.start.failure? limit (endOf tokens) (beforeEnd tokens) =
      Situation.start.failure? more (endOf tokens) (beforeEnd tokens)) :
    parse limit tokens = parse more tokens := by
  cases hrun : parse more tokens with
  | error err => rwa [parse_eq_error_iff, h, ← parse_eq_error_iff]
  | ok e =>
    rcases parse_outcome more tokens with ⟨f, n, hf, hderives, -, hnone⟩ | ⟨err, us, herr, -⟩
    · rw [hrun] at hf
      cases hf
      rcases parse_outcome limit tokens with ⟨g, m, hg, hderives', -, -⟩ | ⟨err, us, -, hsome⟩
      · rw [hg, hderives'.tree_unique hderives]
      · rw [h, hnone] at hsome
        cases hsome
    · rw [hrun] at herr
      cases herr

/-- The parse without a limit takes as many tokens as its reader. -/
theorem takenTokens_eq (tokens : List Token) :
    takenTokens tokens = Situation.start.taken (beforeEnd tokens) := by
  have hlength := length_beforeEnd_le tokens
  have hlevel : Situation.start.level + (beforeEnd tokens).length ≤ tokens.length + 1 := by
    rw [show Situation.start.level = 1 from rfl]
    omega
  have htaken := Situation.left_add_taken (endOf tokens) hlevel
  -- both the parse and its reader leave the same tokens
  rcases Parse.whole_outcome (tokens.length + 1) _ (kind_endOf tokens)
      (fun _ => kind_of_mem_beforeEnd) with ⟨e, n, hrun, -, -, hreader⟩ | ⟨err, us, hrun, hreader⟩
  · have hrest : (unlimitedRun tokens).2.rest = [] := congrArg (·.2.rest) hrun
    rw [hreader, Option.elim_none] at htaken
    rw [takenTokens, hrest, List.length_nil]
    omega
  · have hrest : (unlimitedRun tokens).2.rest = us := congrArg (·.2.rest) hrun
    rw [hreader] at htaken
    change us.length + _ = _ at htaken
    rw [takenTokens, hrest]
    omega

/-- A parse with a limit fails with a level too many exactly behind the first token that brings it
above the limit, if the parse without a limit takes this token; and else it is the parse without a
limit. -/
theorem parse_limit_cases {limit : Nat} (hlimit : 0 < limit) (tokens : List Token) :
    (∃ i, i < takenTokens tokens ∧ ExceedsFirst limit tokens i ∧ parse limit tokens =
      .error ((Fault.tooDeep limit).errorAt ((beforeEnd tokens).getD (i + 1) (endOf tokens)))) ∨
    ((∀ i ≤ takenTokens tokens, levelAfter tokens i ≤ limit) ∧
      parse limit tokens = unlimited tokens) := by
  have hlength := length_beforeEnd_le tokens
  have hlevel : Situation.start.level + (beforeEnd tokens).length ≤ tokens.length + 1 := by
    rw [show Situation.start.level = 1 from rfl]
    omega
  rw [takenTokens_eq]
  rcases Situation.failure?_cases (σ := Situation.start) (endOf tokens) hlimit hlevel with
    ⟨i, hi, hexceeds, hreader⟩ | ⟨hlevels, hreader⟩
  · exact .inl ⟨i, hi, hexceeds, parse_eq_error_iff.mpr ⟨_, hreader⟩⟩
  · exact .inr ⟨hlevels, parse_eq_of_failure?_eq hreader⟩

/-- Without a level there is no parse. -/
theorem parse_limit_zero (tokens : List Token) :
    parse 0 tokens =
      .error ((Fault.tooDeep 0).errorAt ((beforeEnd tokens).getD 0 (endOf tokens))) := by
  rw [parse_eq_error_iff, Situation.failure?_of_lt (show 0 < Situation.start.level by decide)]
  cases beforeEnd tokens <;> exact ⟨_, rfl⟩

/-- In front of the first token one level is open. -/
theorem levelAfter_zero (tokens : List Token) : levelAfter tokens 0 = 1 := rfl

/-- No list of tokens opens more levels than it has tokens, and one more. -/
theorem levelAfter_le (tokens : List Token) (i : Nat) :
    levelAfter tokens i ≤ tokens.length + 1 := by
  have hafter := Situation.level_after_le Situation.start ((beforeEnd tokens).take i)
  have htake := List.length_take_le' i (beforeEnd tokens)
  have hlength := length_beforeEnd_le tokens
  rw [show Situation.start.level = 1 from rfl] at hafter
  rw [levelAfter]
  omega

/-- The parse fails behind the first token that brings it above the limit, if it takes this token
without a limit. -/
theorem parse_of_exceedsFirst {limit i : Nat} {tokens : List Token} (hi : i < takenTokens tokens)
    (h : ExceedsFirst limit tokens i) :
    parse limit tokens = .error
      ((Fault.tooDeep limit).errorAt ((beforeEnd tokens).getD (i + 1) (endOf tokens))) := by
  have hlimit : 1 ≤ limit := levelAfter_zero tokens ▸ h.1 0 (Nat.zero_le i)
  rcases parse_limit_cases hlimit tokens with ⟨j, -, hj, hparse⟩ | ⟨hlevels, -⟩
  · rwa [Situation.ExceedsAt.index_unique h hj]
  · exact absurd (hlevels (i + 1) hi) (Nat.not_le.mpr h.2)

/-- A limit above which no token brings the parse does not change it. -/
theorem parse_eq_unlimited {limit : Nat} {tokens : List Token} (hlimit : 0 < limit)
    (h : ∀ i < takenTokens tokens, ¬ ExceedsFirst limit tokens i) :
    parse limit tokens = unlimited tokens := by
  rcases parse_limit_cases hlimit tokens with ⟨i, hi, hexceeds, -⟩ | ⟨-, hparse⟩
  · exact absurd hexceeds (h i hi)
  · exact hparse

/-- A limit beyond the number of tokens does not change the parse. -/
theorem parse_eq_unlimited_of_length_lt {limit : Nat} {tokens : List Token}
    (h : tokens.length < limit) : parse limit tokens = unlimited tokens := by
  refine parse_eq_unlimited (Nat.zero_lt_of_lt h) fun i _ hexceeds => ?_
  have hle := levelAfter_le tokens (i + 1)
  have hlt := hexceeds.2
  omega

/-- A parse that has no level too many is the same with any higher limit. -/
theorem parse_eq_of_le {limit more : Nat} {tokens : List Token} (hmore : limit ≤ more)
    (h : ∀ e, parse limit tokens = .error e → e.code ≠ .nestingTooDeep) :
    parse more tokens = parse limit tokens := by
  rcases Nat.eq_zero_or_pos limit with rfl | hlimit
  · exact absurd rfl (h _ (parse_limit_zero tokens))
  · rcases parse_limit_cases hlimit tokens with ⟨i, -, -, hfail⟩ | ⟨hlevels, hparse⟩
    · exact absurd rfl (h _ hfail)
    · rw [hparse]
      -- the levels are within the higher limit, since they are within the lower one
      refine parse_eq_unlimited (Nat.lt_of_lt_of_le hlimit hmore) fun i hi hexceeds => ?_
      have hle := hlevels (i + 1) hi
      have hlt := hexceeds.2
      omega

/-- **The limit is exact and changes nothing else.** Count the levels of a reader from the kinds of
the tokens before the first end token. Without a level, the parse fails at the first token. If the
level exceeds the limit for the first time behind a token that the parse without a limit takes, this
token opens a level, and the parse fails behind it with a level too many. In every other case the
parse is the one without a limit, which any limit beyond the number of tokens gives. So a higher
limit changes no result but a level too many. -/
theorem nesting_limit_exact (limit : Nat) (tokens : List Token) :
    (limit = 0 → parse limit tokens =
      .error ((Fault.tooDeep limit).errorAt ((beforeEnd tokens).getD 0 (endOf tokens)))) ∧
    (∀ i < takenTokens tokens, ExceedsFirst limit tokens i →
      (∃ t, (beforeEnd tokens)[i]? = some t ∧
        (Situation.start.after ((beforeEnd tokens).take i)).Opens t.kind) ∧
      parse limit tokens = .error
        ((Fault.tooDeep limit).errorAt ((beforeEnd tokens).getD (i + 1) (endOf tokens)))) ∧
    (0 < limit → (∀ i < takenTokens tokens, ¬ ExceedsFirst limit tokens i) →
      parse limit tokens = unlimited tokens) ∧
    (∀ more, tokens.length < more → parse more tokens = unlimited tokens) ∧
    (∀ more, limit ≤ more →
      (∀ e, parse limit tokens = .error e → e.code ≠ .nestingTooDeep) →
      parse more tokens = parse limit tokens) := by
  refine ⟨?_, fun i hi hexceeds => ⟨Situation.ExceedsAt.opens hexceeds, ?_⟩, ?_, ?_, ?_⟩
  · rintro rfl
    exact parse_limit_zero tokens
  · exact parse_of_exceedsFirst hi hexceeds
  · exact parse_eq_unlimited
  · exact fun more => parse_eq_unlimited_of_length_lt
  · exact fun more => parse_eq_of_le

/-- `2^-(3)` opens a fourth level at its parenthesis: three levels are too few behind it, and a
limit of four is none. -/
theorem nesting_limit_exact_power :
    let tokens : List Token :=
      [⟨.number, "2", some (.integer 2), ⟨0, 1⟩⟩, ⟨.caret, "^", none, ⟨1, 2⟩⟩,
        ⟨.minus, "-", none, ⟨2, 3⟩⟩, ⟨.openParen, "(", none, ⟨3, 4⟩⟩,
        ⟨.number, "3", some (.integer 3), ⟨4, 5⟩⟩, ⟨.closeParen, ")", none, ⟨5, 6⟩⟩]
    (ExceedsFirst 3 tokens 3 ∧ parse 3 tokens =
      .error ⟨.nestingTooDeep, "maximum nesting depth of 3 exceeded", "3", 4⟩) ∧
    ((∀ i < takenTokens tokens, ¬ ExceedsFirst 4 tokens i) ∧
      parse 4 tokens = unlimited tokens) := by
  intro tokens
  have hexceeds : ExceedsFirst 3 tokens 3 := ⟨by decide, by decide⟩
  have hnone : ∀ i < takenTokens tokens, ¬ ExceedsFirst 4 tokens i := by
    intro i hi hexceeds
    have hlevels : ∀ i < takenTokens tokens, levelAfter tokens (i + 1) ≤ 4 := by decide
    exact absurd hexceeds.2 (Nat.not_lt.mpr (hlevels i hi))
  refine ⟨⟨hexceeds, ?_⟩, hnone, ?_⟩
  · exact ((nesting_limit_exact 3 tokens).2.1 3 (by decide) hexceeds).2
  · exact (nesting_limit_exact 4 tokens).2.2.1 (by decide) hnone

end Calculator
