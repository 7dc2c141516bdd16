import Calculator.Proofs.Scanning

/-!
# The words of a text

A text is blanks and words in turn. A word is a numeral, a symbol, or a character that starts no
token, and a scanner hands out the words from left to right and then the end for ever, also when it
goes on behind a character that starts no token. So nothing of the text is lost but blanks, and
nothing is handed out that is not in the text.
-/

namespace Calculator

/-! ## One word -/

/-- What a scanner hands out for a word with the characters `chars` at the offset `p`. -/
inductive MakesWord : Nat → List Char → Except LexicalError Token → Prop where
  /-- A numeral makes a number token. -/
  | numeral {p : Nat} {n : Numeral} :
      n.Proper → MakesWord p n.chars (.ok (Scanner.numeralToken n p))
  /-- A symbol makes a token of its kind. -/
  | symbol {p : Nat} {c : Char} {k : TokenKind} :
      TokenKind.ofSymbol? c = some k → MakesWord p [c] (.ok (Scanner.symbolToken k c p))
  /-- A character that is no blank and starts no token is an error. -/
  | stray {p : Nat} {c : Char} :
      isBlank c = false → c.isDigit = false → TokenKind.ofSymbol? c = none →
      MakesWord p [c] (.error ⟨c, p⟩)

/-- The stretch of a text that a scanner accounts for with what it hands out: the span of a token,
or the one character that starts none. -/
def extent : Except LexicalError Token → Span
  | .ok t => t.span
  | .error e => ⟨e.position, e.position + 1⟩

namespace MakesWord

variable {p : Nat} {chars : List Char} {w : Except LexicalError Token}

/-- A word has a character. -/
theorem chars_ne_nil (h : MakesWord p chars w) : chars ≠ [] := by
  cases h with
  | numeral hn =>
    obtain ⟨c, cs, hchars, -⟩ := hn.exists_cons
    rw [hchars]
    exact List.cons_ne_nil _ _
  | symbol => exact List.cons_ne_nil _ _
  | stray => exact List.cons_ne_nil _ _

/-- No character of a word is a blank. -/
theorem not_blank (h : MakesWord p chars w) {c : Char} (hc : c ∈ chars) : isBlank c = false := by
  cases h with
  | numeral hn =>
    rcases hn.isDigit_or_eq_point hc with hdigit | rfl
    · exact Scanner.isBlank_of_isDigit hdigit
    · rfl
  | symbol hk => exact List.mem_singleton.mp hc ▸ (Scanner.symbol_spec hk).1
  | stray hblank => exact List.mem_singleton.mp hc ▸ hblank

/-- A word is accounted for from its first character to its last one. -/
theorem extent_eq (h : MakesWord p chars w) : extent w = ⟨p, p + chars.length⟩ := by
  cases h <;> rfl

/-- The lexeme of a token has the characters of the word. -/
theorem lexeme_eq {t : Token} (h : MakesWord p chars (.ok t)) : t.lexeme.toList = chars := by
  cases h with
  | numeral => exact String.toList_ofList
  | @symbol c => exact String.toList_singleton c

/-- The token of a word is not the end token. -/
theorem kind_ne_endOfInput {t : Token} (h : MakesWord p chars (.ok t)) : t.kind ≠ .endOfInput := by
  cases h with
  | numeral => exact nofun
  | symbol hk => exact (Scanner.symbol_spec hk).2.2

end MakesWord

/-- Whether a token goes on with the text behind it: a number goes on with a digit, and with a point
if it has none so far. -/
def Token.GoesOn (t : Token) (rest : List Char) : Prop :=
  t.kind = .number ∧
    ∃ c ∈ rest.head?, c.isDigit = true ∨ c = '.' ∧ '.' ∉ t.lexeme.toList

/-- A numeral has a point exactly if it has a fraction. -/
theorem Numeral.Proper.point_mem_iff {n : Numeral} (hn : n.Proper) :
    '.' ∈ n.chars ↔ n.fraction.isSome = true := by
  obtain ⟨whole, fraction⟩ := n
  cases fraction with
  | none =>
    refine iff_of_false (fun hpoint => ?_) nofun
    cases hn.isDigit_of_mem '.' (List.mem_append_left _ hpoint)
  | some digits => exact iff_of_true (List.mem_append_right _ List.mem_cons_self) rfl

/-- A numeral ends exactly where its token does not go on. -/
theorem Numeral.Proper.endsBefore_iff {n : Numeral} (hn : n.Proper) (p : Nat) (rest : List Char) :
    n.EndsBefore rest ↔ ¬ (Scanner.numeralToken n p).GoesOn rest := by
  have hlexeme : '.' ∈ (Scanner.numeralToken n p).lexeme.toList ↔ n.fraction.isSome = true := by
    rw [← hn.point_mem_iff, Scanner.numeralToken, String.toList_ofList]
  rw [Token.GoesOn, hlexeme]
  constructor
  · rintro hend ⟨-, c, hc, hdigit | ⟨hpoint, hnone⟩⟩
    · exact absurd hdigit (by simp [(hend c hc).1])
    · exact hnone ((hend c hc).2 hpoint)
  · intro hgoes c hc
    constructor
    · refine eq_false_of_ne_true fun hdigit => hgoes ⟨rfl, c, hc, .inl hdigit⟩
    · intro hpoint
      exact Classical.byContradiction fun hnone => hgoes ⟨rfl, c, hc, .inr ⟨hpoint, hnone⟩⟩

/-- A character that is no blank starts a word that ends in front of what follows it, and a scanner
goes on behind this word. -/
theorem Scanner.exists_word {c : Char} (hc : isBlank c = false) (p : Nat) (cs : List Char) :
    ∃ chars rest w, c :: cs = chars ++ rest ∧ MakesWord p chars w ∧
      (∀ t, w = .ok t → ¬ t.GoesOn rest) ∧
      word ⟨p, c :: cs⟩ = (w, ⟨p + chars.length, rest⟩) := by
  rw [word]
  by_cases hdigit : c.isDigit = true
  · obtain ⟨n, rest, htake, hn, hchars, hend⟩ := Numeral.exists_take_eq hdigit cs
    refine ⟨n.chars, rest, _, hchars, .numeral hn, ?_, ?_⟩
    · rintro t ⟨⟩
      exact (hn.endsBefore_iff p rest).mp hend
    · simp only [hdigit, if_true, number, htake, numeralToken]
  · rw [if_neg hdigit]
    cases hk : TokenKind.ofSymbol? c with
    | some k =>
      refine ⟨[c], cs, _, rfl, .symbol hk, ?_, rfl⟩
      rintro t ⟨⟩
      exact fun hgoes => symbol_ne_number hk hgoes.1
    | none =>
      refine ⟨[c], cs, _, rfl, .stray hc (by simpa using hdigit) hk, ?_, rfl⟩
      intro t ht
      cases ht

/-! ## All words -/

/-- The text `text` at the offset `p` is blanks and words in turn, and `words` is what a scanner
hands out for the words. -/
inductive LaidOut : Nat → List Char → List (Except LexicalError Token) → Prop where
  /-- Only blanks are left. -/
  | blanks {p : Nat} {text : List Char} :
      (∀ c ∈ text, isBlank c = true) → LaidOut p text []
  /-- Blanks, a word, and what follows it. -/
  | word {p : Nat} {blanks chars rest : List Char} {w : Except LexicalError Token}
      {words : List (Except LexicalError Token)} :
      (∀ c ∈ blanks, isBlank c = true) → MakesWord (p + blanks.length) chars w →
      LaidOut (p + blanks.length + chars.length) rest words →
      LaidOut p (blanks ++ chars ++ rest) (w :: words)

namespace LaidOut

variable {p : Nat} {text : List Char} {words : List (Except LexicalError Token)}

/-- There are no more words than characters. -/
theorem length_le (h : LaidOut p text words) : words.length ≤ text.length := by
  induction h with
  | blanks => exact Nat.zero_le _
  | word _ hword _ ih =>
    have hpos := List.length_pos_iff.mpr hword.chars_ne_nil
    simp only [List.length_append, List.length_cons]
    omega

/-- Every word stands somewhere in the text. -/
theorem exists_of_mem (h : LaidOut p text words) {w : Except LexicalError Token} (hw : w ∈ words) :
    ∃ before chars behind, text = before ++ chars ++ behind ∧
      MakesWord (p + before.length) chars w := by
  induction h with
  | blanks => exact absurd hw List.not_mem_nil
  | @word p blanks chars rest v words _ hword _ ih =>
    rcases List.mem_cons.mp hw with rfl | hw
    · exact ⟨blanks, chars, rest, rfl, hword⟩
    · obtain ⟨before, chars', behind, rfl, hword'⟩ := ih hw
      refine ⟨blanks ++ chars ++ before, chars', behind, ?_, ?_⟩
      · simp only [List.append_assoc]
      · rw [List.length_append, List.length_append, ← Nat.add_assoc, ← Nat.add_assoc]
        exact hword'

/-- Every word of a whole text has as its offset the number of the characters before it. -/
theorem exists_append_of_mem (h : LaidOut 0 text words) {w : Except LexicalError Token}
    (hw : w ∈ words) : ∃ before chars behind, text = before ++ chars ++ behind ∧
      MakesWord before.length chars w := by
  obtain ⟨before, chars, behind, htext, hword⟩ := h.exists_of_mem hw
  rw [Nat.zero_add] at hword
  exact ⟨before, chars, behind, htext, hword⟩

/-- No word starts in front of the text. -/
theorem le_start (h : LaidOut p text words) {w : Except LexicalError Token} (hw : w ∈ words) :
    p ≤ (extent w).start := by
  obtain ⟨before, chars, behind, -, hword⟩ := h.exists_of_mem hw
  rw [hword.extent_eq]
  exact Nat.le_add_right _ _

/-- Every word ends before the next one starts. -/
theorem pairwise (h : LaidOut p text words) :
    words.Pairwise fun v w => (extent v).stop ≤ (extent w).start := by
  induction h with
  | blanks => exact .nil
  | word _ hword hrest ih =>
    refine .cons (fun w hw => ?_) ih
    rw [hword.extent_eq]
    exact hrest.le_start hw

end LaidOut

/-- Whether an offset lies in a span. -/
def Span.Contains (s : Span) (i : Nat) : Prop :=
  s.start ≤ i ∧ i < s.stop

/-- The blanks of a text are the characters outside of its words. -/
theorem LaidOut.isBlank_iff {p : Nat} {text : List Char}
    {words : List (Except LexicalError Token)} (h : LaidOut p text words) {i : Nat} {c : Char}
    (hc : text[i]? = some c) :
    isBlank c = true ↔ ∀ w ∈ words, ¬ (extent w).Contains (p + i) := by
  induction h generalizing i with
  | blanks htext => simp [htext c (List.mem_of_getElem? hc)]
  | @word p blanks chars rest w words hblanks hword hrest ih =>
    have hlater : i < blanks.length + chars.length →
        ∀ v ∈ words, ¬ (extent v).Contains (p + i) := by
      intro hi v hv hcontains
      have hle := Nat.le_trans (hrest.le_start hv) hcontains.1
      omega
    rw [List.forall_mem_cons, hword.extent_eq]
    rcases Nat.lt_or_ge i blanks.length with hblank | hblank
    · -- a blank in front of the word
      rw [List.append_assoc, List.getElem?_append_left hblank] at hc
      refine iff_of_true (hblanks c (List.mem_of_getElem? hc)) ⟨fun hcontains => ?_, ?_⟩
      · have hle := hcontains.1
        simp only at hle
        omega
      · exact hlater (by omega)
    rcases Nat.lt_or_ge i (blanks.length + chars.length) with hchar | hchar
    · -- a character of the word
      rw [List.append_assoc, List.getElem?_append_right hblank,
        List.getElem?_append_left (by omega)] at hc
      have hnot := hword.not_blank (List.mem_of_getElem? hc)
      refine iff_of_false (by simp [hnot]) fun houtside => houtside.1 ⟨?_, ?_⟩
      · simp only
        omega
      · simp only
        omega
    · -- a character behind the word
      rw [List.getElem?_append_right (by rwa [List.length_append]), List.length_append] at hc
      have hplace : p + blanks.length + chars.length + (i - (blanks.length + chars.length)) =
          p + i := by omega
      rw [ih hc, hplace]
      refine ⟨fun houtside => ⟨fun hcontains => ?_, houtside⟩, fun houtside => houtside.2⟩
      have hlt := hcontains.2
      simp only at hlt
      omega

/-! ## What a scanner hands out -/

namespace Scanner

/-- A scanner that stands in front of blanks only comes to the end, and else it hands out the next
word, up to where this ends, and goes on behind it. -/
theorem next_cases (p : Nat) (text : List Char) :
    ((∀ c ∈ text, isBlank c = true) ∧
      next ⟨p, text⟩ = (.ok (.endOfInput (p + text.length)), ⟨p + text.length, []⟩)) ∨
    ∃ blanks chars rest w, text = blanks ++ chars ++ rest ∧ (∀ c ∈ blanks, isBlank c = true) ∧
      MakesWord (p + blanks.length) chars w ∧ (∀ t, w = .ok t → ¬ t.GoesOn rest) ∧
      next ⟨p, text⟩ = (w, ⟨p + blanks.length + chars.length, rest⟩) := by
  have hblanks : ∀ c ∈ text.takeWhile isBlank, isBlank c = true := fun c hc =>
    List.all_eq_true.mp List.all_takeWhile c hc
  have hsplit := (List.takeWhile_append_dropWhile (p := isBlank) (l := text)).symm
  have hhead := List.head?_dropWhile_not isBlank text
  rw [next, skipBlanks]
  cases hrest : text.dropWhile isBlank with
  | nil =>
    rw [hrest, List.append_nil] at hsplit
    rw [← hsplit] at hblanks ⊢
    exact .inl ⟨hblanks, rfl⟩
  | cons c cs =>
    rw [hrest] at hsplit hhead
    obtain ⟨chars, rest, w, hchars, hword, hend, hnext⟩ :=
      exists_word (c := c) hhead (p + (text.takeWhile isBlank).length) cs
    refine .inr ⟨_, chars, rest, w, ?_, hblanks, hword, hend, hnext⟩
    rw [hchars, ← List.append_assoc] at hsplit
    exact hsplit

/-- At the end of a text a scanner hands out the end token for ever. -/
theorem steps_nil (n p : Nat) : steps n ⟨p, []⟩ = List.replicate n (.ok (.endOfInput p)) := by
  induction n with
  | zero => rfl
  | succ n ih =>
    rw [steps, next_nil, ih, List.replicate_succ]

/-- A character that starts no token ends the tokens of a text. -/
theorem collect_of_error {s u : Scanner} {e : LexicalError} (h : s.next = (.error e, u))
    (found : List Token) : s.collect found = .error e := by
  rw [collect]
  split
  · next heq =>
    rw [h] at heq
    cases heq
    rfl
  · next heq =>
    rw [h] at heq
    cases heq

/-- A scanner hands out the words of a text and then the end for ever, and the tokens that it
collects are the words and the end, or the first word that is no token. -/
theorem exists_laidOut (p : Nat) (text : List Char) :
    ∃ words, LaidOut p text words ∧
      (∀ n, steps (words.length + n) ⟨p, text⟩ =
        words ++ List.replicate n (.ok (.endOfInput (p + text.length)))) ∧
      ∀ found, collect ⟨p, text⟩ found = (words.mapM id).map fun tokens =>
        found.reverse ++ tokens ++ [.endOfInput (p + text.length)] := by
  induction hlength : text.length using Nat.strongRecOn generalizing p text with
  | ind length ih =>
    rw [← hlength]
    rcases next_cases p text with
      ⟨hblanks, hnext⟩ | ⟨blanks, chars, rest, w, rfl, hblanks, hword, -, hnext⟩
    · refine ⟨[], .blanks hblanks, fun n => ?_, fun found => ?_⟩
      · cases n with
        | zero => rfl
        | succ n =>
          rw [List.length_nil, Nat.zero_add, steps, hnext, steps_nil, List.replicate_succ]
          rfl
      · rw [collect_of_end hnext rfl, List.reverse_cons]
        simp [Except.map, pure, Except.pure]
    · have hpos := List.length_pos_iff.mpr hword.chars_ne_nil
      simp only [List.length_append] at hlength ⊢
      obtain ⟨words, hlaid, hsteps, hcollect⟩ := ih rest.length (by omega)
        (p + blanks.length + chars.length) rest rfl
      have hend : p + blanks.length + chars.length + rest.length =
          p + (blanks.length + chars.length + rest.length) := by omega
      rw [hend] at hsteps hcollect
      refine ⟨w :: words, .word hblanks hword hlaid, fun n => ?_, fun found => ?_⟩
      · rw [List.length_cons, Nat.add_right_comm, steps, hnext, hsteps, List.cons_append]
      · rw [List.mapM_cons]
        cases w with
        | error e =>
          rw [collect_of_error hnext]
          rfl
        | ok t =>
          rw [collect_of_ne_end hnext hword.kind_ne_endOfInput, hcollect, List.reverse_cons]
          cases words.mapM id with
          | error e => rfl
          | ok tokens => simp [Except.map, pure, Except.pure, bind, Except.bind]

end Scanner

/-! ## Texts whose words are tokens -/

/-- Words that are all tokens are collected as these tokens. -/
theorem eq_map_ok_of_mapM {words : List (Except LexicalError Token)} {ts : List Token}
    (h : words.mapM id = .ok ts) : words = ts.map .ok := by
  induction words generalizing ts with
  | nil =>
    cases h
    rfl
  | cons w words ih =>
    rw [List.mapM_cons] at h
    cases w with
    | error e => cases h
    | ok t =>
      cases hwords : words.mapM id with
      | error e =>
        rw [hwords] at h
        cases h
      | ok us =>
        rw [hwords] at h
        cases h
        rw [List.map_cons, ih hwords]

/-- The error that words are collected to is one of the words. -/
theorem mem_of_mapM_eq_error {words : List (Except LexicalError Token)} {e : LexicalError}
    (h : words.mapM id = .error e) : .error e ∈ words := by
  induction words with
  | nil => cases h
  | cons w words ih =>
    rw [List.mapM_cons] at h
    cases w with
    | error e' =>
      cases h
      exact List.mem_cons_self
    | ok t =>
      cases hwords : words.mapM id with
      | error e' =>
        rw [hwords] at h
        cases h
        exact List.mem_cons_of_mem _ (ih hwords)
      | ok us =>
        rw [hwords] at h
        cases h

/-- The tokens of a text are its words and the end token. -/
theorem exists_laidOut_of_tokenize {text : List Char} {tokens : List Token}
    (h : tokenize text = .ok tokens) :
    ∃ ts, tokens = ts ++ [.endOfInput text.length] ∧ LaidOut 0 text (ts.map .ok) := by
  obtain ⟨words, hlaid, -, hcollect⟩ := Scanner.exists_laidOut 0 text
  have hwords := (hcollect []).symm.trans h
  cases hmap : words.mapM id with
  | error e =>
    rw [hmap] at hwords
    cases hwords
  | ok ts =>
    rw [hmap, Nat.zero_add] at hwords
    cases hwords
    exact ⟨ts, rfl, eq_map_ok_of_mapM hmap ▸ hlaid⟩

/-- A text that has no tokens has a word that is none. -/
theorem exists_laidOut_of_tokenize_eq_error {text : List Char} {e : LexicalError}
    (h : tokenize text = .error e) : ∃ words, LaidOut 0 text words ∧ .error e ∈ words := by
  obtain ⟨words, hlaid, -, hcollect⟩ := Scanner.exists_laidOut 0 text
  have hwords := (hcollect []).symm.trans h
  cases hmap : words.mapM id with
  | error e' =>
    rw [hmap] at hwords
    cases hwords
    exact ⟨words, hlaid, mem_of_mapM_eq_error hmap⟩
  | ok ts =>
    rw [hmap] at hwords
    cases hwords

/-! ## Nothing is lost and nothing is invented -/

/-- What a scanner hands out before the end agrees with the text: the lexeme of a token is the
characters of its span, of which there is at least one; a character that starts no token is the one
at its offset. -/
def StandsIn (text : List Char) : Except LexicalError Token → Prop
  | .ok t => t.kind ≠ .endOfInput ∧ t.span.start < t.span.stop ∧ t.span.stop ≤ text.length ∧
      t.lexeme.toList = text.extract t.span.start t.span.stop
  | .error e => text[e.position]? = some e.character

/-- Words cover a text: each of them stands in the text, they follow one another, and the blanks of
the text are the characters outside of them. -/
structure Covers (text : List Char) (words : List (Except LexicalError Token)) : Prop where
  standsIn : ∀ w ∈ words, StandsIn text w
  ordered : words.Pairwise fun v w => (extent v).stop ≤ (extent w).start
  isBlank_iff : ∀ i c, text[i]? = some c →
    (isBlank c = true ↔ ∀ w ∈ words, ¬ (extent w).Contains i)

/-- A word between other characters stands in the text. -/
theorem MakesWord.standsIn {before chars behind : List Char} {w : Except LexicalError Token}
    (h : MakesWord before.length chars w) : StandsIn (before ++ chars ++ behind) w := by
  cases w with
  | error e =>
    cases h with
    | stray => simp [StandsIn]
  | ok t =>
    have hpos := List.length_pos_iff.mpr h.chars_ne_nil
    have hspan : t.span = ⟨before.length, before.length + chars.length⟩ := h.extent_eq
    rw [StandsIn, hspan]
    refine ⟨h.kind_ne_endOfInput, Nat.lt_add_of_pos_right hpos, by simp, ?_⟩
    rw [h.lexeme_eq, List.append_assoc]
    simp

/-- **A scanner loses nothing and invents nothing.** In front of a text it hands out some words, not
more than the text has characters, and then the end token at the end of the text for ever, also
when some of the words are characters that start no token. The words cover the text. The tokens of
the text are the words and the end token if all words are tokens, and else there is the error of the
first word that is none. -/
theorem scan_exact (text : List Char) :
    ∃ words, words.length ≤ text.length ∧ Covers text words ∧
      (∀ n, Scanner.steps (words.length + n) (.start text) =
        words ++ List.replicate n (.ok (.endOfInput text.length))) ∧
      tokenize text = (words.mapM id).map (· ++ [.endOfInput text.length]) := by
  obtain ⟨words, hlaid, hsteps, hcollect⟩ := Scanner.exists_laidOut 0 text
  rw [Nat.zero_add] at hsteps hcollect
  refine ⟨words, hlaid.length_le, ⟨fun w hw => ?_, hlaid.pairwise, fun i c hc => ?_⟩, hsteps, ?_⟩
  · obtain ⟨before, chars, behind, rfl, hword⟩ := hlaid.exists_append_of_mem hw
    exact hword.standsIn
  · have hblank := hlaid.isBlank_iff hc
    rwa [Nat.zero_add] at hblank
  · exact hcollect []

end Calculator
