import Calculator.Proofs.Words

/-!
# Texts one behind the other

The place of a text only moves the tokens that a scanner hands out for it, and what follows a word
matters only if the word is a numeral that goes on with it. So the tokens of two texts, one behind
the other, are those of the first and, moved behind it, those of the second, unless the first ends
in a numeral that goes on. Conversely a text comes apart at each of its tokens.
-/

namespace Calculator

/-! ## Moving -/

/-- The span `k` characters further on. -/
def Span.shift (k : Nat) (s : Span) : Span :=
  ⟨k + s.start, k + s.stop⟩

/-- The token `k` characters further on. -/
def Token.shift (k : Nat) (t : Token) : Token :=
  { t with span := t.span.shift k }

/-- The error `k` characters further on. -/
def LexicalError.shift (k : Nat) (e : LexicalError) : LexicalError :=
  { e with position := k + e.position }

/-- The tokens, or the error, `k` characters further on. -/
def shiftTokens (k : Nat) : Except LexicalError (List Token) → Except LexicalError (List Token)
  | .ok ts => .ok (ts.map (.shift k))
  | .error e => .error (e.shift k)

/-- Whether a token goes on with a text is a matter of the first character of it. -/
theorem Token.GoesOn.of_head?_eq {t : Token} {rest rest' : List Char} (h : t.GoesOn rest)
    (hhead : rest.head? = rest'.head?) : t.GoesOn rest' := by
  obtain ⟨hkind, c, hc, hchar⟩ := h
  exact ⟨hkind, c, hhead ▸ hc, hchar⟩

/-- No token goes on with a character that is neither a digit nor a point. -/
theorem Token.not_goesOn_cons {c : Char} (hdigit : c.isDigit = false) (hpoint : c ≠ '.') (t : Token)
    (rest : List Char) : ¬ t.GoesOn (c :: rest) := by
  rintro ⟨-, d, hd, hchar⟩
  cases hd
  rcases hchar with hchar | ⟨hchar, -⟩
  · rw [hdigit] at hchar
    cases hchar
  · exact hpoint hchar

/-- No token goes on with a blank. -/
theorem Token.not_goesOn_of_isBlank {c : Char} (hc : isBlank c = true) (t : Token)
    (rest : List Char) : ¬ t.GoesOn (c :: rest) := by
  refine t.not_goesOn_cons (eq_false_of_ne_true fun hdigit => ?_) ?_ rest
  · rw [Scanner.isBlank_of_isDigit hdigit] at hc
    cases hc
  · rintro rfl
    cases hc

namespace Scanner

/-- The same text `k` characters further on. -/
def shift (k : Nat) (s : Scanner) : Scanner :=
  ⟨k + s.position, s.rest⟩

/-- What a scanner hands out, `k` characters further on. -/
def shiftWord (k : Nat) : Except LexicalError Token → Except LexicalError Token
  | .ok t => .ok (t.shift k)
  | .error e => .error (e.shift k)

/-- Blanks are skipped in the same way everywhere. -/
theorem skipBlanks_shift (k : Nat) (s : Scanner) :
    (s.shift k).skipBlanks = s.skipBlanks.shift k := by
  rw [skipBlanks, skipBlanks, shift, shift, Nat.add_assoc]

/-- A number token is the same everywhere but for its span. -/
theorem number_shift (k : Nat) (s : Scanner) :
    (s.shift k).number = (s.number.1.shift k, s.number.2.shift k) := by
  simp only [number, shift, Token.shift, Span.shift, Nat.add_assoc]

/-- A word is the same everywhere but for its place. -/
theorem word_shift (k : Nat) (s : Scanner) :
    (s.shift k).word = (shiftWord k s.word.1, s.word.2.shift k) := by
  obtain ⟨p, text⟩ := s
  cases text with
  | nil => rfl
  | cons c cs =>
    rw [shift, word, word]
    split
    · have hnumber := number_shift k ⟨p, c :: cs⟩
      rw [shift] at hnumber
      rw [hnumber]
      rfl
    · split <;> rfl

/-- A scanner hands out the same everywhere but for the places. -/
theorem next_shift (k : Nat) (s : Scanner) :
    (s.shift k).next = (shiftWord k s.next.1, s.next.2.shift k) := by
  rw [next, skipBlanks_shift, word_shift]
  rfl

/-- Blanks in front of a text are skipped. -/
theorem next_blanks_append {blanks : List Char} (h : ∀ c ∈ blanks, isBlank c = true) (p : Nat)
    (rest : List Char) : next ⟨p, blanks ++ rest⟩ = next ⟨p + blanks.length, rest⟩ := by
  induction blanks generalizing p with
  | nil => rfl
  | cons c cs ih =>
    obtain ⟨hc, hcs⟩ := List.forall_mem_cons.mp h
    rw [List.cons_append, next_of_blank hc, ih hcs, List.length_cons, Nat.add_assoc, Nat.add_comm 1]

/-! ## What follows a word -/

/-- A word in front of a text that it does not go on with is handed out. -/
theorem next_append {p : Nat} {chars : List Char} {w : Except LexicalError Token}
    (h : MakesWord p chars w) {rest : List Char} (hend : ∀ t, w = .ok t → ¬ t.GoesOn rest) :
    next ⟨p, chars ++ rest⟩ = (w, ⟨p + chars.length, rest⟩) := by
  cases h with
  | numeral hn => exact next_numeral hn ((hn.endsBefore_iff p rest).mpr (hend _ rfl)) p
  | symbol hk => exact next_symbol hk p rest
  | stray hblank hdigit hk =>
    rw [List.singleton_append, next_of_not_blank hblank, word]
    simp only [hdigit, hk, Bool.false_eq_true, if_false]
    rfl

/-- A token before the end is a word behind blanks, which ends in front of what is left. -/
theorem exists_word_of_next {s u : Scanner} {t : Token} (h : s.next = (.ok t, u))
    (hkind : t.kind ≠ .endOfInput) :
    ∃ blanks chars, s.rest = blanks ++ chars ++ u.rest ∧ (∀ c ∈ blanks, isBlank c = true) ∧
      MakesWord (s.position + blanks.length) chars (.ok t) ∧ ¬ t.GoesOn u.rest ∧
      u.position = s.position + blanks.length + chars.length := by
  obtain ⟨p, text⟩ := s
  rcases next_cases p text with
    ⟨-, hend⟩ | ⟨blanks, chars, rest, w, htext, hblanks, hword, hend, hnext⟩
  · rw [hend] at h
    cases h
    exact absurd rfl hkind
  · rw [hnext] at h
    cases h
    exact ⟨blanks, chars, htext, hblanks, hword, hend t rfl, rfl⟩

/-! ## What is read of a text -/

/-- The end of the text is what a scanner comes to over blanks. -/
theorem next_blanks {blanks : List Char} (h : ∀ c ∈ blanks, isBlank c = true) (p : Nat) :
    next ⟨p, blanks⟩ = (.ok (.endOfInput (p + blanks.length)), ⟨p + blanks.length, []⟩) := by
  have hnext := next_blanks_append h p []
  rw [List.append_nil] at hnext
  exact hnext

namespace Reads

variable {s u v : Scanner} {ts us : List Token}

/-- Tokens are read in the same way everywhere. -/
theorem shift (h : Reads s ts u) (k : Nat) :
    Reads (s.shift k) (ts.map (.shift k)) (u.shift k) := by
  induction h with
  | nil => exact .nil _
  | cons hnext hkind _ ih =>
    refine .cons ?_ hkind ih
    rw [next_shift, hnext]
    rfl

/-- Tokens that are read in one go may be read in two. -/
theorem exists_of_append (h : Reads s (ts ++ us) v) : ∃ u, Reads s ts u ∧ Reads u us v := by
  induction ts generalizing s with
  | nil => exact ⟨s, .nil s, h⟩
  | cons t ts ih =>
    cases h with
    | cons hnext hkind h =>
      obtain ⟨u, hts, hus⟩ := ih h
      exact ⟨u, .cons hnext hkind hts, hus⟩

/-- The last token that is read ends at the place that is come to, and does not go on there. -/
theorem last_spec (h : Reads s ts u) :
    ∀ t ∈ ts.getLast?, t.span.stop = u.position ∧ ¬ t.GoesOn u.rest := by
  induction h with
  | nil => exact nofun
  | @cons s u v t ts hnext hkind h ih =>
    cases h with
    | cons =>
      rw [List.getLast?_cons_cons]
      exact ih
    | nil =>
      intro t' ht'
      cases ht'
      obtain ⟨blanks, chars, -, -, hword, hend, hplace⟩ := exists_word_of_next hnext hkind
      have hspan : t.span = _ := hword.extent_eq
      exact ⟨(congrArg Span.stop hspan).trans hplace.symm, hend⟩

/-- The characters that tokens are read from, and any text that the last of them does not go on
with. -/
theorem exists_append (h : Reads s ts u) :
    ∃ chars, s.rest = chars ++ u.rest ∧ u.position = s.position + chars.length ∧
      (chars = [] → ts = []) ∧
      ∀ rest, (∀ t ∈ ts.getLast?, ¬ t.GoesOn rest) →
        Reads ⟨s.position, chars ++ rest⟩ ts ⟨u.position, rest⟩ := by
  induction h with
  | nil s => exact ⟨[], rfl, rfl, fun _ => rfl, fun rest _ => .nil _⟩
  | @cons s u v t ts hnext hkind h ih =>
    -- the characters of this step stand in front of those of the steps behind it
    obtain ⟨chars, hchars, hplace, hempty, hreads⟩ := ih
    obtain ⟨blanks, word, htext, hblanks, hword, hend, hplace'⟩ := exists_word_of_next hnext hkind
    refine ⟨blanks ++ word ++ chars, ?_, ?_, ?_, ?_⟩
    · rw [htext, hchars, List.append_assoc _ chars]
    · rw [hplace, hplace', List.length_append, List.length_append]
      omega
    · intro hnil
      exact absurd (List.append_eq_nil_iff.mp (List.append_eq_nil_iff.mp hnil).1).2
        hword.chars_ne_nil
    · intro rest hrest
      have hgoes : ¬ t.GoesOn (chars ++ rest) := by
        cases chars with
        | nil =>
          obtain rfl := hempty rfl
          exact hrest t rfl
        | cons c cs =>
          -- the next character is the same as before
          rw [hchars] at hend
          exact fun hgoes => hend (hgoes.of_head?_eq rfl)
      have hlast : ∀ t' ∈ ts.getLast?, ¬ t'.GoesOn rest := by
        cases ts with
        | nil => exact nofun
        | cons t' ts => rwa [List.getLast?_cons_cons] at hrest
      have hread := hreads rest hlast
      rw [hplace'] at hread
      refine .cons ?_ hkind hread
      rw [List.append_assoc, List.append_assoc, next_blanks_append hblanks, next_append hword]
      intro t' ht'
      cases ht'
      exact hgoes

/-- The end of a text stays where it is while the text is read. -/
theorem end_eq (h : Reads s ts u) : u.position + u.rest.length = s.position + s.rest.length := by
  obtain ⟨chars, hchars, hplace, -⟩ := h.exists_append
  rw [hplace, hchars, List.length_append, Nat.add_assoc]

/-- A text that is read up to blanks has the tokens read and the end token. -/
theorem collect_eq_of_blanks (h : Reads s ts u) (hblanks : ∀ c ∈ u.rest, isBlank c = true)
    (found : List Token) :
    s.collect found =
      .ok (found.reverse ++ (ts ++ [.endOfInput (s.position + s.rest.length)])) := by
  rw [h.collect_eq, collect_of_end (next_blanks hblanks u.position) rfl, h.end_eq,
    List.reverse_cons, List.reverse_append, List.reverse_reverse, List.append_assoc]

/-- A text that is read up to blanks has the tokens read and the end token. -/
theorem tokenize_eq_of_blanks {text : List Char} (h : Reads (start text) ts u)
    (hblanks : ∀ c ∈ u.rest, isBlank c = true) :
    tokenize text = .ok (ts ++ [.endOfInput text.length]) := by
  rw [tokenize, h.collect_eq_of_blanks hblanks, start, Nat.zero_add]
  rfl

/-- A text that is read up to a character that starts no token has the error there. -/
theorem tokenize_eq_error {text : List Char} {e : LexicalError} (h : Reads (start text) ts u)
    (herror : u.next = (.error e, v)) : tokenize text = .error e := by
  rw [tokenize, h.collect_eq, collect_of_error herror]

end Reads

/-- A text is read up to blanks, or up to a character that starts no token. -/
theorem exists_reads (p : Nat) (text : List Char) :
    ∃ ts u, Reads ⟨p, text⟩ ts u ∧
      ((∀ c ∈ u.rest, isBlank c = true) ∨ ∃ e v, u.next = (.error e, v)) := by
  induction hlength : text.length using Nat.strongRecOn generalizing p text with
  | ind length ih =>
    rcases next_cases p text with
      ⟨hblanks, -⟩ | ⟨blanks, chars, rest, w, rfl, hblanks, hword, -, hnext⟩
    · exact ⟨[], _, .nil _, .inl hblanks⟩
    · cases w with
      | error e => exact ⟨[], _, .nil _, .inr ⟨e, _, hnext⟩⟩
      | ok t =>
        have hpos := List.length_pos_iff.mpr hword.chars_ne_nil
        simp only [List.length_append] at hlength
        obtain ⟨ts, u, hreads, hstop⟩ := ih rest.length (by omega)
          (p + blanks.length + chars.length) rest rfl
        exact ⟨t :: ts, u, .cons hnext hword.kind_ne_endOfInput hreads, hstop⟩

/-- What is collected is a matter of the next step. -/
theorem collect_congr {s u : Scanner} (h : s.next = u.next) (found : List Token) :
    s.collect found = u.collect found := by
  obtain ⟨w, v, hnext⟩ : ∃ w v, s.next = (w, v) := ⟨_, _, rfl⟩
  rw [hnext] at h
  cases w with
  | error e => rw [collect_of_error hnext, collect_of_error h.symm]
  | ok t =>
    by_cases hkind : t.kind = .endOfInput
    · rw [collect_of_end hnext hkind, collect_of_end h.symm hkind]
    · rw [collect_of_ne_end hnext hkind, collect_of_ne_end h.symm hkind]

/-- The tokens of a text further on come behind those found before. -/
theorem collect_eq_shiftTokens (k : Nat) (text : List Char) (found : List Token) :
    collect ⟨k, text⟩ found = (shiftTokens k (tokenize text)).map (found.reverse ++ ·) := by
  obtain ⟨ts, u, hreads, hstop⟩ := exists_reads 0 text
  have hshift : Reads ⟨k, text⟩ (ts.map (.shift k)) (u.shift k) := hreads.shift k
  rcases hstop with hblanks | ⟨e, v, herror⟩
  · rw [hshift.collect_eq_of_blanks hblanks, hreads.tokenize_eq_of_blanks hblanks, shiftTokens,
      List.map_append]
    rfl
  · have hnext := next_shift k u
    rw [herror] at hnext
    rw [hshift.collect_eq, collect_of_error hnext, hreads.tokenize_eq_error herror]
    rfl

/-- The tokens of a text are those that are read up to its blanks at the end, and the end token. -/
theorem exists_reads_of_tokenize {text : List Char} {tokens : List Token}
    (h : tokenize text = .ok tokens) :
    ∃ ts u, tokens = ts ++ [.endOfInput text.length] ∧ Reads (start text) ts u ∧
      ∀ c ∈ u.rest, isBlank c = true := by
  obtain ⟨ts, u, hreads, hblanks | ⟨e, v, herror⟩⟩ := exists_reads 0 text
  · have htokens := (hreads.tokenize_eq_of_blanks hblanks).symm.trans h
    cases htokens
    exact ⟨ts, u, rfl, hreads, hblanks⟩
  · have htokens := (hreads.tokenize_eq_error herror).symm.trans h
    cases htokens

end Scanner

/-! ## Putting texts together -/

open Scanner

/-- **The tokens of a text behind another one are moved behind the tokens of this one.** This is so
unless the first text ends in a number that goes on with the second text. -/
theorem tokenize_append {front : List Char} {ts : List Token}
    (h : tokenize front = .ok (ts ++ [.endOfInput front.length])) {back : List Char}
    (hend : ∀ t ∈ ts.getLast?, t.span.stop = front.length → ¬ t.GoesOn back) :
    tokenize (front ++ back) = (shiftTokens front.length (tokenize back)).map (ts ++ ·) := by
  obtain ⟨ts', u, hsplit, hreads, hblanks⟩ := exists_reads_of_tokenize h
  obtain rfl := (List.append_inj' hsplit rfl).1
  obtain ⟨chars, hchars, -, -, happend⟩ := hreads.exists_append
  have hplace : u.position + u.rest.length = front.length := by
    rw [hreads.end_eq, start, Nat.zero_add]
  have hgoes : ∀ t ∈ ts.getLast?, ¬ t.GoesOn (u.rest ++ back) := by
    intro t ht
    cases hrest : u.rest with
    | nil =>
      -- the number ends with the first text
      rw [hrest] at hplace
      exact hend t ht ((hreads.last_spec t ht).1.trans hplace)
    | cons c cs =>
      rw [hrest] at hblanks
      exact t.not_goesOn_of_isBlank (hblanks c List.mem_cons_self) (cs ++ back)
  have hread : Reads (start (front ++ back)) ts ⟨u.position, u.rest ++ back⟩ := by
    have htext : front ++ back = chars ++ (u.rest ++ back) := by
      rw [← List.append_assoc, ← hchars]
      rfl
    rw [htext]
    exact happend _ hgoes
  rw [tokenize, hread.collect_eq, collect_congr (next_blanks_append hblanks u.position back),
    hplace, collect_eq_shiftTokens, List.append_nil, List.reverse_reverse]

/-- A symbol in front of a text is one more token in front of the tokens of the text, which are
moved. -/
theorem tokenize_symbol_cons {c : Char} {k : TokenKind} (hk : TokenKind.ofSymbol? c = some k)
    (text : List Char) :
    tokenize (c :: text) = (shiftTokens 1 (tokenize text)).map (symbolToken k c 0 :: ·) := by
  rw [tokenize, start, collect_of_ne_end (next_symbol hk 0 text) (symbol_spec hk).2.2,
    collect_eq_shiftTokens]
  rfl

/-- An error in the words of a text stays, whatever follows. -/
theorem tokenize_append_of_error {front : List Char} {e : LexicalError}
    (h : tokenize front = .error e) (back : List Char) :
    tokenize (front ++ back) = .error e := by
  obtain ⟨ts, u, hreads, hblanks | ⟨e', v, herror⟩⟩ := exists_reads 0 front
  · have htokens := (hreads.tokenize_eq_of_blanks hblanks).symm.trans h
    cases htokens
  have htokens := (hreads.tokenize_eq_error herror).symm.trans h
  cases htokens
  obtain ⟨chars, hchars, -, -, happend⟩ := hreads.exists_append
  obtain ⟨p, text⟩ := u
  rcases next_cases p text with
    ⟨-, hend⟩ | ⟨blanks, word, behind, w, rfl, hblanks, hword, -, hnext⟩
  · rw [hend] at herror
    cases herror
  rw [hnext] at herror
  cases herror
  -- what follows starts as before, with the character that starts no token or a blank before it
  have hne : blanks ++ word ++ behind ≠ [] := by
    intro hnil
    exact hword.chars_ne_nil (List.append_eq_nil_iff.mp (List.append_eq_nil_iff.mp hnil).1).2
  have hhead : (blanks ++ word ++ behind ++ back).head? = (blanks ++ word ++ behind).head? := by
    obtain ⟨c, cs, hcons⟩ := List.exists_cons_of_ne_nil hne
    rw [hcons]
    rfl
  have hread := happend (blanks ++ word ++ behind ++ back) fun t ht hgoes =>
    (hreads.last_spec t ht).2 (hgoes.of_head?_eq hhead)
  have hstray : next ⟨p, blanks ++ word ++ behind ++ back⟩ =
      (.error e, ⟨p + blanks.length + word.length, behind ++ back⟩) := by
    rw [List.append_assoc, List.append_assoc, next_blanks_append hblanks, next_append hword nofun]
  rw [← List.append_assoc, ← hchars] at hread
  exact Reads.tokenize_eq_error hread hstray

/-! ## Taking a text apart -/

/-- Two ways to part a list at an element: the one element stands before the other, is the other, or
stands behind it. -/
theorem append_cons_cases {α : Type} {as bs cs ds : List α} {a b : α}
    (h : as ++ a :: bs = cs ++ b :: ds) :
    (∃ es, as = cs ++ b :: es ∧ ds = es ++ a :: bs) ∨ (as = cs ∧ a = b ∧ bs = ds) ∨
      ∃ es, cs = as ++ a :: es ∧ bs = es ++ b :: ds := by
  rcases List.append_eq_append_iff.mp h with ⟨es, rfl, hes⟩ | ⟨es, rfl, hes⟩
  · cases es with
    | nil =>
      cases hes
      exact .inr (.inl ⟨(List.append_nil as).symm, rfl, rfl⟩)
    | cons e es =>
      cases hes
      exact .inr (.inr ⟨es, rfl, rfl⟩)
  · cases es with
    | nil =>
      cases hes
      exact .inr (.inl ⟨List.append_nil cs, rfl, rfl⟩)
    | cons e es =>
      cases hes
      exact .inl ⟨es, rfl, rfl⟩

/-- Behind any other token of a text its end token stands last. -/
theorem exists_eq_append_end {before behind ts : List Token} {t : Token} {p : Nat}
    (h : before ++ t :: behind = ts ++ [.endOfInput p]) (hkind : t.kind ≠ .endOfInput) :
    ∃ ts', ts = before ++ t :: ts' ∧ behind = ts' ++ [.endOfInput p] := by
  rcases append_cons_cases h with ⟨es, -, hnil⟩ | ⟨-, rfl, -⟩ | ⟨es, hts, hbehind⟩
  · cases es <;> cases hnil
  · exact absurd rfl hkind
  · exact ⟨es, hts, hbehind⟩

/-- A text comes apart at a token: there are the tokens of the text before it, its own characters,
and the tokens of the text behind it, which are moved. -/
theorem exists_split_of_tokenize {text : List Char} {before behind : List Token} {t : Token}
    (h : tokenize text = .ok (before ++ t :: behind)) (hkind : t.kind ≠ .endOfInput) :
    ∃ front chars back ts, text = front ++ chars ++ back ∧
      tokenize front = .ok (before ++ [.endOfInput front.length]) ∧
      MakesWord front.length chars (.ok t) ∧ tokenize back = .ok ts ∧
      behind = ts.map (.shift (front.length + chars.length)) := by
  obtain ⟨ts, u, hsplit, hreads, hblanks⟩ := exists_reads_of_tokenize h
  obtain ⟨ts', rfl, rfl⟩ := exists_eq_append_end hsplit hkind
  obtain ⟨v, hbefore, hbehind⟩ := hreads.exists_of_append
  obtain ⟨chars, hchars, hplace, -, happend⟩ := hbefore.exists_append
  cases hbehind with
  | @cons _ w _ _ _ hnext _ hbehind =>
    obtain ⟨blanks, word, hrest, hskipped, hword, -, hplace'⟩ := exists_word_of_next hnext hkind
    obtain ⟨p, back⟩ := w
    rw [start, Nat.zero_add] at hplace
    rw [hplace] at hplace' hword
    obtain rfl : p = chars.length + blanks.length + word.length := hplace'
    have htext : text = chars ++ blanks ++ word ++ back := by
      rw [hrest] at hchars
      simp only [List.append_assoc] at hchars ⊢
      exact hchars
    have hgoes : ∀ t ∈ before.getLast?, ¬ t.GoesOn blanks := by
      intro t' _
      cases blanks with
      | nil => exact fun hgoes => nomatch hgoes.2
      | cons c cs => exact t'.not_goesOn_of_isBlank (hskipped c List.mem_cons_self) cs
    -- what is read behind the token is the text there, which has been moved
    have hback := hbehind.collect_eq_of_blanks hblanks []
    rw [collect_eq_shiftTokens] at hback
    cases htokens : tokenize back with
    | error e =>
      rw [htokens] at hback
      cases hback
    | ok us =>
      rw [htokens] at hback
      refine ⟨chars ++ blanks, word, back, us, htext, ?_, ?_, htokens, ?_⟩
      · exact Reads.tokenize_eq_of_blanks (happend blanks hgoes) hskipped
      · rw [List.length_append]
        exact hword
      · have hlength : text.length = chars.length + blanks.length + word.length + back.length := by
          rw [htext, List.length_append, List.length_append, List.length_append]
        injection hback with hback
        rw [List.length_append, hlength]
        exact hback.symm

end Calculator
