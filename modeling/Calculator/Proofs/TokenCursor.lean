import Calculator.Proofs.ParseExact

/-!
# A cursor on a list of tokens

The tokens of a parse as one list that is never cut, with the index of the current token. The list
ends with an end token, but there may be others in it. The cursor may advance, and it stays where it
is in front of an end token. Up to the first end token it stands for a state of a parse, which holds
the tokens that are left and knows nothing of what comes after them.
-/

namespace Calculator

/-! ## Lists with an end token -/

/-- A list with an end token is the tokens before the first one, this one and others. -/
theorem exists_eq_beforeEnd_append {tokens : List Token}
    (h : ∃ t ∈ tokens, t.kind = .endOfInput) :
    ∃ back, tokens = beforeEnd tokens ++ endOf tokens :: back := by
  obtain ⟨stop, hfind⟩ : ∃ stop, tokens.find? (·.kind == .endOfInput) = some stop := by
    rw [← Option.isSome_iff_exists, List.find?_isSome]
    simpa using h
  obtain ⟨hstop, front, back, htokens, hfront⟩ := List.find?_eq_some_iff_append.mp hfind
  have hkind : stop.kind = .endOfInput := by simpa using hstop
  have hkinds : ∀ t ∈ front, t.kind ≠ .endOfInput := by simpa using hfront
  obtain ⟨hbefore, hend⟩ := beforeEnd_append_cons back hkind hkinds
  exact ⟨back, by rw [htokens, hbefore, hend]⟩

/-- What comes after an end token changes neither the first one nor what is before it. -/
theorem beforeEnd_append_of_exists {front : List Token} (h : ∃ t ∈ front, t.kind = .endOfInput)
    (back : List Token) :
    beforeEnd (front ++ back) = beforeEnd front ∧ endOf (front ++ back) = endOf front := by
  obtain ⟨more, hfront⟩ := exists_eq_beforeEnd_append h
  have hsplit : front ++ back = beforeEnd front ++ endOf front :: (more ++ back) := by
    rw [← List.cons_append, ← List.append_assoc, ← hfront]
  rw [hsplit]
  exact beforeEnd_append_cons _ (kind_endOf front) fun _ => kind_of_mem_beforeEnd

/-- A list without an end token is all before its end, and a new end token ends it. -/
theorem beforeEnd_of_not_exists {tokens : List Token}
    (h : ¬∃ t ∈ tokens, t.kind = .endOfInput) :
    beforeEnd tokens = tokens ∧
    endOf tokens = .endOfInput ((tokens.getLast?.map (·.span.stop)).getD 0) := by
  have hall : ∀ t ∈ tokens, t.kind ≠ .endOfInput := fun t ht hend => h ⟨t, ht, hend⟩
  constructor
  · have htake : beforeEnd (tokens ++ []) = tokens ++ [] := by
      rw [beforeEnd, List.takeWhile_append_of_pos (by simpa using hall), List.takeWhile_nil]
    rwa [List.append_nil] at htake
  · have hnone : tokens.find? (·.kind == .endOfInput) = none :=
      List.find?_eq_none.mpr (by simpa using hall)
    simp only [endOf, ParseState.ofTokens, hnone, Option.getD_none]

/-! ## Streams and cursors -/

/-- Tokens as a parser holds them: the last one is an end token. -/
structure TokenStream where
  tokens : List Token
  ne_nil : tokens ≠ []
  kind_getLast : (tokens.getLast ne_nil).kind = .endOfInput

/-- The index of the current token, and the number of open levels. -/
structure Cursor where
  position : Nat
  depth : Nat
deriving DecidableEq, Repr

namespace Cursor

/-- The cursor before the first token. -/
def start : Cursor :=
  ⟨0, 0⟩

/-- The cursor one level deeper. -/
def enter (c : Cursor) : Cursor :=
  { c with depth := c.depth + 1 }

/-- The cursor one level up. From level zero it goes nowhere. -/
def leave (c : Cursor) : Cursor :=
  { c with depth := c.depth - 1 }

end Cursor

namespace TokenStream

/-- A list of tokens as a parser holds it: an end token is put behind it, unless its last token is
one. -/
def ofTokens (tokens : List Token) : TokenStream :=
  if h : ∃ hne : tokens ≠ [], (tokens.getLast hne).kind = .endOfInput then
    ⟨tokens, h.1, h.2⟩
  else
    ⟨tokens ++ [.endOfInput ((tokens.getLast?.map (·.span.stop)).getD 0)],
      List.append_ne_nil_of_right_ne_nil _ (List.cons_ne_nil _ _),
      by rw [List.getLast_append_of_ne_nil _ (List.cons_ne_nil _ _)]; rfl⟩

variable (s : TokenStream)

/-- The current token. Behind all tokens it is the last one. -/
def current (c : Cursor) : Token :=
  s.tokens.get ⟨min c.position (s.tokens.length - 1), by
    have := List.length_pos_iff.mpr s.ne_nil
    omega⟩

/-- The cursor behind the current token. In front of an end token it stays. -/
def advance (c : Cursor) : Cursor :=
  if (s.current c).kind = .endOfInput then c else { c with position := c.position + 1 }

/-- The index of the first end token. -/
def endIndex : Nat :=
  (beforeEnd s.tokens).length

/-- The state of a parse that a cursor stands for, if it is not behind the first end token. -/
def view (c : Cursor) : ParseState :=
  ⟨(beforeEnd s.tokens).drop c.position, endOf s.tokens, c.depth⟩

/-- The number of tokens from a cursor to the first end token. -/
def left (c : Cursor) : Nat :=
  s.endIndex - c.position

/-! ## The first end token -/

/-- The tokens are those before the first end token, this token and others. -/
theorem exists_tokens_eq : ∃ back, s.tokens = beforeEnd s.tokens ++ endOf s.tokens :: back :=
  exists_eq_beforeEnd_append ⟨_, List.getLast_mem s.ne_nil, s.kind_getLast⟩

variable {s} {c : Cursor}

/-- Up to the first end token the current token is the one at the position. -/
theorem getElem?_position (hc : c.position ≤ s.endIndex) :
    s.tokens[c.position]? = some (s.current c) := by
  obtain ⟨back, htokens⟩ := s.exists_tokens_eq
  have hlength := congrArg List.length htokens
  rw [List.length_append, List.length_cons] at hlength
  rw [endIndex] at hc
  have hmin : min c.position (s.tokens.length - 1) = c.position := by omega
  rw [current, List.get_eq_getElem, List.getElem?_eq_some_iff]
  exact ⟨by omega, by simp only [hmin]⟩

/-- Up to the first end token the current token is the one that the state of the parse has. -/
theorem current_view (hc : c.position ≤ s.endIndex) : (s.view c).current = s.current c := by
  obtain ⟨back, htokens⟩ := s.exists_tokens_eq
  have hindex := getElem?_position hc
  rw [htokens, ← List.head?_drop, List.drop_append_of_le_length hc] at hindex
  rw [view, ParseState.current_mk]
  cases hrest : (beforeEnd s.tokens).drop c.position with
  | nil => simpa [hrest] using hindex
  | cons t ts => simpa [hrest] using hindex

/-- Up to the first end token the current token is an end token there only. -/
theorem current_kind_iff (hc : c.position ≤ s.endIndex) :
    (s.current c).kind = .endOfInput ↔ c.position = s.endIndex := by
  rw [← current_view hc, view, ParseState.current_mk]
  cases hrest : (beforeEnd s.tokens).drop c.position with
  | nil =>
    have hle := List.drop_eq_nil_iff.mp hrest
    exact iff_of_true (kind_endOf _) (Nat.le_antisymm hc hle)
  | cons t ts =>
    have hmem : t ∈ beforeEnd s.tokens :=
      List.mem_of_mem_drop (by rw [hrest]; exact List.mem_cons_self)
    refine iff_of_false (kind_of_mem_beforeEnd hmem) fun heq => ?_
    rw [heq, endIndex, List.drop_length] at hrest
    cases hrest

/-- Up to the first end token a cursor advances as the state of the parse does. -/
theorem view_advance (hc : c.position ≤ s.endIndex) :
    s.view (s.advance c) = (s.view c).advance := by
  rw [advance, view, view, ParseState.advance]
  split
  · rename_i hend
    rw [(current_kind_iff hc).mp hend, endIndex, List.drop_length, List.tail_nil]
  · rw [List.tail_drop]

/-! ## Advancing -/

/-- A cursor advances behind a token that is no end token. -/
theorem position_advance (h : (s.current c).kind ≠ .endOfInput) :
    (s.advance c).position = c.position + 1 := by
  rw [advance, if_neg h]

/-- To advance neither opens nor closes a level. -/
@[simp]
theorem depth_advance : (s.advance c).depth = c.depth := by
  rw [advance]
  split <;> rfl

/-- A cursor does not go back when it advances. -/
theorem le_position_advance : c.position ≤ (s.advance c).position := by
  rw [advance]
  split
  · exact Nat.le_refl _
  · exact Nat.le_succ _

/-- A cursor does not advance over the first end token. -/
theorem position_advance_le (hc : c.position ≤ s.endIndex) :
    (s.advance c).position ≤ s.endIndex := by
  by_cases hend : (s.current c).kind = .endOfInput
  · rwa [advance, if_pos hend]
  · have hne := mt (current_kind_iff hc).mpr hend
    rw [position_advance hend]
    omega

/-- A token less is left behind a token that is no end token. -/
theorem left_advance (hc : c.position ≤ s.endIndex) (h : (s.current c).kind ≠ .endOfInput) :
    s.left (s.advance c) < s.left c := by
  have hne := mt (current_kind_iff hc).mpr h
  rw [left, left, position_advance h]
  omega

/-- No more tokens are left further ahead. -/
theorem left_le_of_lt {d : Cursor} (h : c.position < d.position) : s.left d ≤ s.left c :=
  Nat.sub_le_sub_left (Nat.le_of_lt h) _

/-! ## The start -/

/-- The end token that is put behind a list changes nothing up to the first end token. -/
theorem beforeEnd_ofTokens (tokens : List Token) :
    beforeEnd (ofTokens tokens).tokens = beforeEnd tokens ∧
    endOf (ofTokens tokens).tokens = endOf tokens := by
  rw [ofTokens]
  split
  · exact ⟨rfl, rfl⟩
  · by_cases hend : ∃ t ∈ tokens, t.kind = .endOfInput
    · exact beforeEnd_append_of_exists hend _
    · obtain ⟨hbefore, hstop⟩ := beforeEnd_of_not_exists hend
      rw [hbefore, hstop]
      exact beforeEnd_append rfl fun t ht hkind => hend ⟨t, ht, hkind⟩

/-- The cursor before the first token stands for the start of a parse. -/
theorem view_start (tokens : List Token) :
    (ofTokens tokens).view .start = ParseState.ofTokens tokens := by
  rw [view, (beforeEnd_ofTokens tokens).1, (beforeEnd_ofTokens tokens).2]
  rfl

/-- Lists that begin with the same tokens up to an end token have the same current tokens up to
there. -/
theorem current_ofTokens_append {front : List Token} (h : ∃ t ∈ front, t.kind = .endOfInput)
    (back back' : List Token) {c : Cursor}
    (hc : c.position ≤ (ofTokens (front ++ back)).endIndex) :
    (ofTokens (front ++ back')).current c = (ofTokens (front ++ back)).current c := by
  have hcut : ∀ more, beforeEnd (ofTokens (front ++ more)).tokens = beforeEnd front ∧
      endOf (ofTokens (front ++ more)).tokens = endOf front := by
    intro more
    rw [(beforeEnd_ofTokens _).1, (beforeEnd_ofTokens _).2]
    exact beforeEnd_append_of_exists h more
  have hc' : c.position ≤ (ofTokens (front ++ back')).endIndex := by
    rw [endIndex, (hcut back').1, ← (hcut back).1]
    exact hc
  rw [← current_view hc, ← current_view hc', view, view, (hcut back).1, (hcut back').1,
    (hcut back).2, (hcut back').2]

end TokenStream

end Calculator
