import Calculator.Proofs.Concatenation

/-!
# Boundaries between texts

Where one text ends and another one begins, the tokens of the one end and those of the other begin,
unless the first text ends inside a number that goes on with the second one. Then this number is
taken on as far as it goes, and the tokens of what is left come behind it.
-/

namespace Calculator

/-! ## The longest numeral -/

namespace Numeral

/-- The longest numeral at the front of a text, and what follows it. -/
structure IsLongest (n : Numeral) (text rest : List Char) : Prop where
  proper : n.Proper
  text_eq : text = n.chars ++ rest
  length_le : ∀ (n' : Numeral) (rest' : List Char), n'.Proper → text = n'.chars ++ rest' →
    n'.chars.length ≤ n.chars.length

/-- Nothing makes a numeral longer that it does not go on with. -/
theorem eq_nil_of_chars_append {n n' : Numeral} {rest : List Char} (hn : n.Proper) (hn' : n'.Proper)
    (hchars : n'.chars = n.chars ++ rest) (hrest : n.EndsBefore rest) : rest = [] := by
  have htake := take_chars_append hn hrest
  have htake' := take_chars_append hn' (endsNumeral_nil.endsBefore n')
  rw [← hchars, ← List.append_nil n'.chars, htake'] at htake
  exact (congrArg Prod.snd htake).symm

/-- A numeral is determined by its characters. -/
theorem chars_injective {n n' : Numeral} (hn : n.Proper) (hn' : n'.Proper)
    (hchars : n.chars = n'.chars) : n = n' := by
  have htake := take_chars_append hn (endsNumeral_nil.endsBefore n)
  have htake' := take_chars_append hn' (endsNumeral_nil.endsBefore n')
  rw [hchars, htake'] at htake
  exact (congrArg Prod.fst htake).symm

/-- A numeral that ends in front of the rest of a text is the longest one at the front of it. -/
theorem isLongest_of_endsBefore {n : Numeral} {rest : List Char} (hn : n.Proper)
    (hrest : n.EndsBefore rest) : n.IsLongest (n.chars ++ rest) rest := by
  refine ⟨hn, rfl, fun n' rest' hn' htext => ?_⟩
  rcases List.append_eq_append_iff.mp htext with ⟨more, hchars, rfl⟩ | ⟨more, hchars, -⟩
  · -- the other numeral goes on behind this one, with the head of the rest
    have hmore : n.EndsBefore more := fun c hc => hrest c (by
      rw [List.head?_append, hc]
      rfl)
    obtain rfl := eq_nil_of_chars_append hn hn' hchars hmore
    rw [List.append_nil] at hchars
    exact Nat.le_of_eq (congrArg List.length hchars)
  · rw [hchars, List.length_append]
    exact Nat.le_add_right _ _

/-- A numeral that goes on with a text is taken on: there is a longest numeral, which starts with
it and is longer. -/
theorem exists_isLongest {n : Numeral} {back : List Char} (hn : n.Proper)
    (hback : ¬ n.EndsBefore back) : ∃ (n' : Numeral) (more rest : List Char),
      n'.IsLongest (n.chars ++ back) rest ∧ n'.EndsBefore rest ∧ n'.chars = n.chars ++ more ∧
        back = more ++ rest ∧ more ≠ [] := by
  obtain ⟨c, cs, hchars, hdigit⟩ := hn.exists_cons
  obtain ⟨n', rest, -, hn', htext, hrest⟩ := exists_take_eq hdigit (cs ++ back)
  rw [← List.cons_append, ← hchars] at htext
  have hlongest := isLongest_of_endsBefore hn' hrest
  rw [← htext] at hlongest
  obtain ⟨more, hmore⟩ : n.chars <+: n'.chars :=
    List.prefix_of_prefix_length_le ⟨back, rfl⟩ ⟨rest, htext.symm⟩
      (hlongest.length_le n back hn rfl)
  rw [← hmore, List.append_assoc] at htext
  obtain rfl := List.append_cancel_left htext
  refine ⟨n', more, rest, hlongest, hrest, hmore.symm, rfl, ?_⟩
  rintro rfl
  rw [List.append_nil] at hmore
  obtain rfl := chars_injective hn hn' hmore
  exact hback hrest

end Numeral

/-! ## Texts one behind the other -/

open Scanner

/-- Whether a text with the given tokens ends inside a number that goes on with another text. -/
def RunsOn (ts : List Token) (front back : List Char) : Prop :=
  ∃ t ∈ ts.getLast?, t.span.stop = front.length ∧ t.GoesOn back

/-- The word of a token that may go on is a numeral. -/
theorem MakesWord.exists_numeral {p : Nat} {chars back : List Char} {t : Token}
    (h : MakesWord p chars (.ok t)) (hgoes : t.GoesOn back) :
    ∃ n : Numeral, n.Proper ∧ chars = n.chars ∧ t = numeralToken n p := by
  cases h with
  | numeral hn => exact ⟨_, hn, rfl, rfl⟩
  | symbol hk => exact absurd hgoes.1 (symbol_ne_number hk)

/-- A number at the end of a text that goes on with another text is taken on as far as it goes, and
the tokens of what is left come behind it. -/
theorem tokenize_append_of_runsOn {front back : List Char} {ts : List Token}
    (h : tokenize front = .ok (ts ++ [.endOfInput front.length])) (hruns : RunsOn ts front back) :
    ∃ (before : List Token) (t : Token) (n : Numeral) (rest : List Char), ts = before ++ [t] ∧
      n.IsLongest (t.lexeme.toList ++ back) rest ∧ t.lexeme.length < n.chars.length ∧
      tokenize (front ++ back) =
        (shiftTokens (t.span.start + n.chars.length) (tokenize rest)).map
          (before ++ numeralToken n t.span.start :: ·) := by
  obtain ⟨t, hlast, hstop, hgoes⟩ := hruns
  obtain ⟨before, rfl⟩ := List.getLast?_eq_some_iff.mp hlast
  obtain ⟨ts', u, hsplit, hreads, -⟩ := exists_reads_of_tokenize h
  obtain rfl := (List.append_inj' hsplit rfl).1
  -- the number ends with the first text
  have hend : u.rest = [] := by
    have hplace : u.position + u.rest.length = front.length := by
      rw [hreads.end_eq, start, Nat.zero_add]
    rw [← (hreads.last_spec t hlast).1, hstop] at hplace
    exact List.length_eq_zero_iff.mp (by omega)
  obtain ⟨v, hbefore, hread⟩ := hreads.exists_of_append
  obtain ⟨hnext, hkind⟩ : v.next = (.ok t, u) ∧ t.kind ≠ .endOfInput := by
    cases hread with
    | cons hnext hkind hnil =>
      cases hnil
      exact ⟨hnext, hkind⟩
  obtain ⟨blanks, chars, hrest, hblanks, hword, -, -⟩ := exists_word_of_next hnext hkind
  obtain ⟨n, hn, rfl, rfl⟩ := hword.exists_numeral hgoes
  obtain ⟨n', more, rest, hlongest, hends, hmore, rfl, hne⟩ :=
    Numeral.exists_isLongest hn fun hends => (hn.endsBefore_iff _ back).mp hends hgoes
  refine ⟨before, _, n', rest, rfl, ?_, ?_, ?_⟩
  · rwa [numeralToken, String.toList_ofList]
  · rw [numeralToken, String.length_ofList, hmore, List.length_append]
    exact Nat.lt_add_of_pos_right (List.length_pos_iff.mpr hne)
  · -- the tokens before the number are read as before, for it starts as before
    obtain ⟨cs, htext, hplace, -, happend⟩ := hbefore.exists_append
    have hhead : (blanks ++ (n'.chars ++ rest)).head? = v.rest.head? := by
      obtain ⟨d, ds, hcons, -⟩ := hn.exists_cons
      rw [hrest, hend, hmore, hcons]
      cases blanks <;> rfl
    have hread : Reads (start (cs ++ (blanks ++ (n'.chars ++ rest)))) before
        ⟨v.position, blanks ++ (n'.chars ++ rest)⟩ :=
      happend _ fun t' ht' hgoes' => (hbefore.last_spec t' ht').2 (hgoes'.of_head?_eq hhead)
    have hnumber : next ⟨v.position, blanks ++ (n'.chars ++ rest)⟩ =
        (.ok (numeralToken n' (v.position + blanks.length)),
          ⟨v.position + blanks.length + n'.chars.length, rest⟩) := by
      rw [next_blanks_append hblanks, next_numeral hlongest.proper hends]
    have hother : (numeralToken n' (v.position + blanks.length)).kind ≠ .endOfInput := by
      intro h
      cases h
    have hstart : front ++ (more ++ rest) = cs ++ (blanks ++ (n'.chars ++ rest)) := by
      have hfront : front = cs ++ (blanks ++ n.chars ++ u.rest) := hrest ▸ htext
      rw [hfront, hend, hmore]
      simp only [List.append_assoc, List.nil_append]
    rw [hstart, tokenize, hread.collect_eq, collect_of_ne_end hnumber hother,
      collect_eq_shiftTokens, List.append_nil, List.reverse_cons, List.reverse_reverse]
    simp only [numeralToken, List.append_assoc, List.singleton_append]

/-- **Where two texts meet, their tokens meet.** Let the text `front` have tokens. Unless it ends
inside a number that goes on with the text `back`, the two texts together have tokens exactly if
`back` has, namely those of `front` and behind them those of `back`, moved by the length of `front`,
and else the first character that starts no token is that of `back`, moved likewise. If it does end
inside such a number, the longest numeral there is makes one token with it, and the tokens of what
is left come behind. -/
theorem tokens_of_append {front : List Char} {tokens : List Token}
    (h : tokenize front = .ok tokens) (back : List Char) :
    ∃ ts, tokens = ts ++ [.endOfInput front.length] ∧
      (¬ RunsOn ts front back →
        (∀ us, tokenize (front ++ back) = .ok us ↔
          ∃ vs, tokenize back = .ok vs ∧ us = ts ++ vs.map (.shift front.length)) ∧
        ∀ c p, tokenize back = .error ⟨c, p⟩ →
          tokenize (front ++ back) = .error ⟨c, front.length + p⟩) ∧
      (RunsOn ts front back → ∃ (before : List Token) (t : Token) (n : Numeral) (rest : List Char),
        ts = before ++ [t] ∧ n.IsLongest (t.lexeme.toList ++ back) rest ∧
        t.lexeme.length < n.chars.length ∧ tokenize (front ++ back) =
          (shiftTokens (t.span.start + n.chars.length) (tokenize rest)).map
            (before ++ numeralToken n t.span.start :: ·)) := by
  obtain ⟨ts, -, rfl, -, -⟩ := exists_reads_of_tokenize h
  refine ⟨ts, rfl, fun hruns => ?_, tokenize_append_of_runsOn h⟩
  rw [tokenize_append h fun t ht hstop hgoes => hruns ⟨t, ht, hstop, hgoes⟩]
  cases tokenize back with
  | error e =>
    refine ⟨fun us => iff_of_false nofun ?_, ?_⟩
    · rintro ⟨vs, hvs, -⟩
      cases hvs
    · intro c p he
      cases he
      rfl
  | ok vs =>
    refine ⟨fun us => ?_, nofun⟩
    constructor
    · intro hus
      cases hus
      exact ⟨vs, rfl, rfl⟩
    · rintro ⟨vs', hvs, rfl⟩
      cases hvs
      rfl

/-- The number at the end of `(1.2` has its point, so it does not go on with another one, which is
an error behind it. It does go on with a digit, and then the longer number is one token. -/
theorem tokens_of_append_second_point :
    let front := ['(', '1', '.', '2']
    let ts := [symbolToken .openParen '(' 0, numeralToken ⟨['1'], some ['2']⟩ 1]
    tokenize front = .ok (ts ++ [.endOfInput 4]) ∧
      tokenize (front ++ ['.', '3']) = .error ⟨'.', 4⟩ ∧
      ∃ (before : List Token) (t : Token) (n : Numeral) (rest : List Char),
        ts = before ++ [t] ∧ n.IsLongest (t.lexeme.toList ++ ['3', ')']) rest ∧
        t.lexeme.length < n.chars.length ∧ tokenize (front ++ ['3', ')']) =
          (shiftTokens (t.span.start + n.chars.length) (tokenize rest)).map
            (before ++ numeralToken n t.span.start :: ·) := by
  intro front ts
  have hnumber : Reads ⟨1, ['1', '.', '2']⟩ [numeralToken ⟨['1'], some ['2']⟩ 1] ⟨4, []⟩ :=
    Reads.numeral (n := ⟨['1'], some ['2']⟩) ⟨List.cons_ne_nil _ _, List.all_eq_true.mp rfl⟩
      endsNumeral_nil (.nil _)
  have h : tokenize front = .ok (ts ++ [.endOfInput 4]) :=
    (Reads.symbol (k := .openParen) rfl hnumber).tokenize_eq
  have herror : tokenize ['.', '3'] = .error ⟨'.', 0⟩ := (Reads.nil _).tokenize_eq_error rfl
  have hlast : numeralToken ⟨['1'], some ['2']⟩ 1 ∈ ts.getLast? := rfl
  refine ⟨h, ?_, ?_⟩
  · obtain ⟨ts', hsplit, happend, -⟩ := tokens_of_append h ['.', '3']
    obtain rfl := List.append_cancel_right hsplit
    refine (happend ?_).2 '.' 0 herror
    rintro ⟨t, ht, -, -, c, hc, hchar⟩
    cases ht
    cases hc
    exact absurd hchar (by decide +kernel)
  · obtain ⟨ts', hsplit, -, hruns⟩ := tokens_of_append h ['3', ')']
    obtain rfl := List.append_cancel_right hsplit
    exact hruns ⟨_, hlast, rfl, rfl, '3', rfl, .inl rfl⟩

end Calculator
