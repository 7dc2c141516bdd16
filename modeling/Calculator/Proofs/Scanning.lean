import Calculator.Proofs.NumberText
import Calculator.Token.Scan

/-!
# What a scanner hands out

A scanner that goes on from one place to another hands out the tokens between them. Each word of a
text is one step: a symbol, or a numeral that ends where it was written to end. Blanks before a word
change nothing but its place.
-/

namespace Calculator

namespace Scanner

/-! ## One step -/

/-- A blank in front of a place is skipped. -/
theorem next_of_blank {c : Char} (hc : isBlank c = true) (p : Nat) (cs : List Char) :
    next ⟨p, c :: cs⟩ = next ⟨p + 1, cs⟩ := by
  have hskip : skipBlanks ⟨p, c :: cs⟩ = skipBlanks ⟨p + 1, cs⟩ := by
    rw [skipBlanks, skipBlanks, List.takeWhile_cons_of_pos hc, List.dropWhile_cons_of_pos hc,
      List.length_cons, Nat.add_right_comm, Nat.add_assoc]
  rw [next, next, hskip]

/-- A character that is no blank starts a word. -/
theorem next_of_not_blank {c : Char} (hc : isBlank c = false) (p : Nat) (cs : List Char) :
    next ⟨p, c :: cs⟩ = word ⟨p, c :: cs⟩ := by
  rw [next, skipBlanks, List.takeWhile_cons_of_neg (by simp [hc]),
    List.dropWhile_cons_of_neg (by simp [hc])]
  rfl

/-- A symbol is neither a blank nor a digit, and makes no end token. -/
theorem symbol_spec {c : Char} {k : TokenKind} (h : TokenKind.ofSymbol? c = some k) :
    isBlank c = false ∧ c.isDigit = false ∧ k ≠ .endOfInput := by
  unfold TokenKind.ofSymbol? at h
  split at h <;> cases h <;> decide

/-- A symbol makes no number token. -/
theorem symbol_ne_number {c : Char} {k : TokenKind} (h : TokenKind.ofSymbol? c = some k) :
    k ≠ .number := by
  unfold TokenKind.ofSymbol? at h
  split at h <;> cases h <;> decide

/-- A digit is no blank. -/
theorem isBlank_of_isDigit {c : Char} (h : c.isDigit = true) : isBlank c = false := by
  obtain ⟨hlow, hhigh⟩ : 48 ≤ c.toNat ∧ c.toNat ≤ 57 := Char.isDigit_iff_toNat.mp h
  simp [isBlank]
  omega

/-- The token that a symbol makes at an offset. -/
def symbolToken (k : TokenKind) (c : Char) (p : Nat) : Token :=
  ⟨k, c.toString, none, ⟨p, p + 1⟩⟩

/-- The token that a numeral makes at an offset. -/
def numeralToken (n : Numeral) (p : Nat) : Token :=
  ⟨.number, String.ofList n.chars, some (.ofNumeral n), ⟨p, p + n.chars.length⟩⟩

/-- A symbol is handed out as its token. -/
theorem next_symbol {c : Char} {k : TokenKind} (h : TokenKind.ofSymbol? c = some k) (p : Nat)
    (cs : List Char) : next ⟨p, c :: cs⟩ = (.ok (symbolToken k c p), ⟨p + 1, cs⟩) := by
  obtain ⟨hblank, hdigit, -⟩ := symbol_spec h
  rw [next_of_not_blank hblank, word]
  simp only [hdigit, h, Bool.false_eq_true, if_false]
  rfl

/-- A numeral is handed out as its token. -/
theorem next_numeral {n : Numeral} {rest : List Char} (hn : n.Proper) (hrest : n.EndsBefore rest)
    (p : Nat) : next ⟨p, n.chars ++ rest⟩ =
      (.ok (numeralToken n p), ⟨p + n.chars.length, rest⟩) := by
  have htake := Numeral.take_chars_append hn hrest
  obtain ⟨c, cs, hchars, hdigit⟩ := hn.exists_cons
  rw [hchars, List.cons_append] at htake ⊢
  rw [next_of_not_blank (isBlank_of_isDigit hdigit), word]
  simp only [hdigit, if_true, number, htake, numeralToken, hchars]

/-- At the end of a text the end token is handed out. -/
theorem next_nil (p : Nat) : next ⟨p, []⟩ = (.ok (.endOfInput p), ⟨p, []⟩) := rfl

/-- A token before the end is one more of those found. -/
theorem collect_of_ne_end {s u : Scanner} {t : Token} (h : s.next = (.ok t, u))
    (hkind : t.kind ≠ .endOfInput) (found : List Token) :
    s.collect found = u.collect (t :: found) := by
  rw [collect]
  split
  · next heq =>
    rw [h] at heq
    cases heq
  · next token behind heq =>
    rw [h] at heq
    cases heq
    rw [dif_neg hkind]

/-- The end token is the last of those found. -/
theorem collect_of_end {s u : Scanner} {t : Token} (h : s.next = (.ok t, u))
    (hkind : t.kind = .endOfInput) (found : List Token) :
    s.collect found = .ok (t :: found).reverse := by
  rw [collect]
  split
  · next heq =>
    rw [h] at heq
    cases heq
  · next token behind heq =>
    rw [h] at heq
    cases heq
    rw [dif_pos hkind]

/-! ## Many steps -/

/-- From the place `s` a scanner hands out the tokens `ts`, none of them the end token, and comes to
the place `u`. -/
inductive Reads : Scanner → List Token → Scanner → Prop where
  | nil (s : Scanner) : Reads s [] s
  | cons {s u v : Scanner} {t : Token} {ts : List Token} :
      s.next = (.ok t, u) → t.kind ≠ .endOfInput → Reads u ts v → Reads s (t :: ts) v

namespace Reads

variable {s u v : Scanner} {ts us : List Token}

/-- A scanner goes on from the place that it came to. -/
theorem append (h : Reads s ts u) (h' : Reads u us v) : Reads s (ts ++ us) v := by
  induction h with
  | nil => exact h'
  | cons hnext hkind _ ih => exact .cons hnext hkind (ih h')

/-- A blank in front of some tokens changes nothing but the place. -/
theorem of_blank {c : Char} {cs : List Char} {p : Nat} (hc : isBlank c = true) (hne : ts ≠ [])
    (h : Reads ⟨p + 1, cs⟩ ts u) : Reads ⟨p, c :: cs⟩ ts u := by
  cases h with
  | nil => exact absurd rfl hne
  | cons hnext hkind h => exact .cons (by rw [next_of_blank hc, hnext]) hkind h

/-- A symbol in front of some tokens is one more token. -/
theorem symbol {c : Char} {k : TokenKind} {cs : List Char} {p : Nat}
    (hc : TokenKind.ofSymbol? c = some k) (h : Reads ⟨p + 1, cs⟩ ts u) :
    Reads ⟨p, c :: cs⟩ (symbolToken k c p :: ts) u :=
  .cons (next_symbol hc p cs) (symbol_spec hc).2.2 h

/-- A numeral in front of some tokens is one more token. -/
theorem numeral {n : Numeral} {rest : List Char} {p : Nat} (hn : n.Proper)
    (hrest : EndsNumeral rest) (h : Reads ⟨p + n.chars.length, rest⟩ ts u) :
    Reads ⟨p, n.chars ++ rest⟩ (numeralToken n p :: ts) u :=
  .cons (next_numeral hn (hrest.endsBefore n) p) nofun h

/-- The tokens that are handed out come behind those found before. -/
theorem collect_eq (h : Reads s ts u) (found : List Token) :
    s.collect found = u.collect (ts.reverse ++ found) := by
  induction h generalizing found with
  | nil => rfl
  | cons hnext hkind _ ih =>
    rw [collect_of_ne_end hnext hkind, ih, List.reverse_cons, List.append_assoc]
    rfl

/-- The tokens of a text that is read up to its end are the ones handed out and the end token. -/
theorem tokenize_eq {text : List Char} {p : Nat} (h : Reads (start text) ts ⟨p, []⟩) :
    tokenize text = .ok (ts ++ [.endOfInput p]) := by
  rw [tokenize, h.collect_eq, collect_of_end (next_nil p) rfl, List.reverse_cons, List.append_nil,
    List.reverse_reverse]

end Reads

end Scanner

end Calculator
