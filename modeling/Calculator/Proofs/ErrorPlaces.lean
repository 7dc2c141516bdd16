import Calculator.Answer
import Calculator.Proofs.NodeStarts
import Calculator.Proofs.ParseExact
import Calculator.Proofs.Words

/-!
# Where an error lies in the text

The code of an error tells the stage that failed, and its place is a character of the text that has
to do with it: the character that starts no token, the token with which the structure cannot go on,
or the number or the sign with which a node starts.
-/

namespace Calculator

/-! ## Tokens in their text -/

/-- A token of a text stands there: its lexeme is not empty, and the text at its place starts with
it. -/
structure StandsAt (text : List Char) (t : Token) : Prop where
  kind_ne : t.kind ≠ .endOfInput
  lexeme_ne : t.lexeme ≠ ""
  lexeme_isPrefix : t.lexeme.toList <+: text.drop t.position
  position_lt : t.position < text.length

/-- A word that is a token stands in its text. -/
theorem LaidOut.standsAt {text : List Char} {ts : List Token}
    (h : LaidOut 0 text (ts.map .ok)) {t : Token} (ht : t ∈ ts) : StandsAt text t := by
  obtain ⟨before, chars, behind, rfl, hword⟩ := h.exists_append_of_mem (List.mem_map_of_mem ht)
  have hposition : t.position = before.length := congrArg Span.start hword.extent_eq
  have hpos := List.length_pos_iff.mpr hword.chars_ne_nil
  refine ⟨hword.kind_ne_endOfInput, fun hempty => hword.chars_ne_nil ?_, ?_, ?_⟩
  · rw [← hword.lexeme_eq, hempty]
    rfl
  · rw [hword.lexeme_eq, hposition, List.append_assoc, List.drop_left]
    exact List.prefix_append _ _
  · rw [hposition, List.length_append, List.length_append]
    omega

/-- The tokens of a text before its end token are its words. -/
theorem LaidOut.beforeEnd_eq {text : List Char} {ts : List Token}
    (h : LaidOut 0 text (ts.map .ok)) (p : Nat) :
    beforeEnd (ts ++ [.endOfInput p]) = ts ∧ endOf (ts ++ [.endOfInput p]) = .endOfInput p :=
  beforeEnd_append rfl fun _ ht => (h.standsAt ht).kind_ne

/-- The symbols that can start a node are the two signs. -/
theorem symbol_of_startsNode {c : Char} {k : TokenKind} (hk : TokenKind.ofSymbol? c = some k)
    (hnode : k = .number ∨ ∃ sign, Sign.ofKind? k = some sign) : c = '+' ∨ c = '-' := by
  unfold TokenKind.ofSymbol? at hk
  split at hk <;> cases hk
  · exact .inl rfl
  · exact .inr rfl
  all_goals rcases hnode with hnumber | ⟨sign, hsign⟩
  all_goals first | cases hnumber | cases hsign

/-- A node starts with a digit or with a sign. -/
theorem LaidOut.exists_char_of_startsNode {text : List Char} {ts : List Token}
    (h : LaidOut 0 text (ts.map .ok)) {t : Token} (ht : t ∈ ts) (hnode : t.StartsNode) :
    ∃ c, text[t.position]? = some c ∧ (c.isDigit = true ∨ c = '+' ∨ c = '-') := by
  obtain ⟨before, chars, behind, rfl, hword⟩ := h.exists_append_of_mem (List.mem_map_of_mem ht)
  have hposition : t.position = before.length := congrArg Span.start hword.extent_eq
  rw [hposition, List.append_assoc, List.getElem?_append_right (Nat.le_refl _), Nat.sub_self]
  cases hword with
  | numeral hn =>
    obtain ⟨c, cs, hchars, hdigit⟩ := hn.exists_cons
    exact ⟨c, by rw [hchars]; rfl, .inl hdigit⟩
  | @symbol c k hk => exact ⟨c, rfl, .inr (symbol_of_startsNode hk hnode)⟩

/-- The tokens of a text follow one another. -/
theorem LaidOut.inOrder {text : List Char} {ts : List Token} (h : LaidOut 0 text (ts.map .ok)) :
    InOrder ts := by
  have hpairwise := List.pairwise_map.mp h.pairwise
  refine hpairwise.imp_of_mem fun {t u} ht _ hle => Nat.le_trans ?_ hle
  obtain ⟨before, chars, behind, -, hword⟩ := h.exists_append_of_mem (List.mem_map_of_mem ht)
  have hspan : t.span = _ := hword.extent_eq
  show t.span.start ≤ t.span.stop
  rw [hspan]
  exact Nat.le_add_right _ _

/-! ## The token of a structural error -/

/-- What stops a reader lies at one of the tokens or at the end. -/
theorem Situation.exists_errorAt {σ : Situation} {limit : Nat} {stop : Token}
    {ts us : List Token} {err : StructuralError} (h : σ.failure? limit stop ts = some (err, us)) :
    ∃ f t, (t ∈ ts ∨ t = stop) ∧ err = Fault.errorAt f t := by
  induction ts generalizing σ with
  | nil =>
    rw [failure?] at h
    split at h
    · cases h
      exact ⟨_, stop, .inr rfl, rfl⟩
    · obtain ⟨f, -, hpair⟩ := Option.map_eq_some_iff.mp h
      exact ⟨f, stop, .inr rfl, (congrArg Prod.fst hpair).symm⟩
  | cons t ts ih =>
    rw [failure?] at h
    split at h
    · cases h
      exact ⟨_, t, .inl List.mem_cons_self, rfl⟩
    · split at h
      · cases h
        exact ⟨_, t, .inl List.mem_cons_self, rfl⟩
      · obtain ⟨f, u, hu, herr⟩ := ih h
        exact ⟨f, u, hu.imp_left (List.mem_cons_of_mem t), herr⟩

/-- A parse of the tokens of a text fails at one of them or at the end of the text. -/
theorem exists_errorAt_of_parse {text : List Char} {ts : List Token} {limit : Nat}
    {err : StructuralError} (hlaid : LaidOut 0 text (ts.map .ok))
    (h : parse limit (ts ++ [.endOfInput text.length]) = .error err) :
    ∃ f t, (t ∈ ts ∨ t = .endOfInput text.length) ∧ err = Fault.errorAt f t := by
  obtain ⟨us, hreader⟩ := parse_eq_error_iff.mp h
  obtain ⟨hbefore, hstop⟩ := hlaid.beforeEnd_eq text.length
  rw [hbefore, hstop] at hreader
  exact Situation.exists_errorAt hreader

/-! ## The stages of an answer -/

/-- The numbers of the errors of a stage. -/
def Stage.codes : Stage → List Nat
  | lexical => [100]
  | structural => [200, 201, 202, 203]
  | evaluation => [300, 301, 302, 303, 304]

/-- The last stage that is tried on a text: its words fail; or it has tokens, and their structure
fails; or the tokens make an expression, which is left to be evaluated. -/
def Stage.IsLast (limits : Limits) (text : String) : Stage → Prop
  | lexical => ∃ err, tokenize text.toList = .error err
  | structural => ∃ tokens err, tokenize text.toList = .ok tokens ∧
      parse limits.nesting tokens = .error err
  | evaluation => ∃ tokens tree, tokenize text.toList = .ok tokens ∧
      parse limits.nesting tokens = .ok tree

/-- Where the errors of a stage lie. An error in the words lies at the character that it names,
which is no blank and starts no token. An error in the structure has found nothing exactly where it
lies at the end of the text, and else it lies at a token of the text with the lexeme that it has
found. An error in the value lies at a digit or at a sign. -/
def Stage.Place (text : String) (e : Error) : Stage → Prop
  | lexical => ∃ c, e = .lexical ⟨c, e.position⟩ ∧ text.toList[e.position]? = some c ∧
      isBlank c = false ∧ c.isDigit = false ∧
      c ∉ ['+', '-', '*', '/', '%', '^', '(', ')']
  | structural => ∃ err, e = .structural err ∧ (err.found = "" ↔ e.position = text.length) ∧
      (err.found ≠ "" → err.found.toList <+: text.toList.drop e.position ∧
        ∃ tokens, tokenize text.toList = .ok tokens ∧
          ∃ t ∈ tokens, t.kind ≠ .endOfInput ∧ t.position = e.position ∧ t.lexeme = err.found)
  | evaluation => ∃ c, text.toList[e.position]? = some c ∧
      (c.isDigit = true ∨ c = '+' ∨ c = '-')

/-- Only one stage is the last one. -/
theorem Stage.isLast_iff {limits : Limits} {text : String} {a : Stage}
    (h : a.IsLast limits text) (b : Stage) : b.IsLast limits text ↔ a = b := by
  cases a with
  | lexical =>
    obtain ⟨err, htokens⟩ := h
    cases b <;> simp [IsLast, htokens]
  | structural =>
    obtain ⟨tokens, err, htokens, hparse⟩ := h
    cases b <;> simp [IsLast, htokens, hparse]
  | evaluation =>
    obtain ⟨tokens, tree, htokens, hparse⟩ := h
    cases b <;> simp [IsLast, htokens, hparse]

/-- A symbol makes a token. -/
theorem not_mem_symbols {c : Char} (h : TokenKind.ofSymbol? c = none) :
    c ∉ ['+', '-', '*', '/', '%', '^', '(', ')'] := by
  intro hc
  simp only [List.mem_cons, List.not_mem_nil, or_false] at hc
  rcases hc with rfl | rfl | rfl | rfl | rfl | rfl | rfl | rfl <;> cases h

/-- An error in the words lies at a character that is no blank and starts no token. -/
theorem place_of_tokenize {text : String} {err : LexicalError}
    (h : tokenize text.toList = .error err) : Stage.lexical.Place text (.lexical err) := by
  obtain ⟨words, hlaid, hmem⟩ := exists_laidOut_of_tokenize_eq_error h
  obtain ⟨before, chars, behind, htext, hword⟩ := hlaid.exists_append_of_mem hmem
  cases hword with
  | @stray c hblank hdigit hsymbol =>
    refine ⟨c, rfl, ?_, hblank, hdigit, not_mem_symbols hsymbol⟩
    rw [htext]
    simp [Error.position]

/-- An error in the structure lies at a token of the text or at its end. -/
theorem place_of_parse {text : String} {limit : Nat} {tokens : List Token}
    {err : StructuralError} (htokens : tokenize text.toList = .ok tokens)
    (h : parse limit tokens = .error err) : Stage.structural.Place text (.structural err) := by
  obtain ⟨ts, rfl, hlaid⟩ := exists_laidOut_of_tokenize htokens
  obtain ⟨f, t, ht, rfl⟩ := exists_errorAt_of_parse hlaid h
  refine ⟨_, rfl, ?_⟩
  rw [← String.length_toList]
  rcases ht with ht | rfl
  · have hstands := hlaid.standsAt ht
    refine ⟨iff_of_false hstands.lexeme_ne (Nat.ne_of_lt hstands.position_lt), fun _ => ?_⟩
    exact ⟨hstands.lexeme_isPrefix, _, htokens, t, List.mem_append_left _ ht, hstands.kind_ne, rfl,
      rfl⟩
  · exact ⟨iff_of_true rfl rfl, fun hfound => absurd rfl hfound⟩

/-- An error in the value lies at a digit or at a sign. -/
theorem place_of_evaluate {text : String} {limits : Limits} {tokens : List Token} {tree : Expr}
    {err : EvaluationError} (htokens : tokenize text.toList = .ok tokens)
    (hparse : parse limits.nesting tokens = .ok tree)
    (h : evaluate limits.evaluation tree = .error err) :
    Stage.evaluation.Place text (.evaluation err) := by
  obtain ⟨ts, rfl, hlaid⟩ := exists_laidOut_of_tokenize htokens
  obtain ⟨n, -, hderives⟩ := parse_eq_ok_iff.mp hparse
  rw [(hlaid.beforeEnd_eq _).1] at hderives
  rw [evaluate_eq] at h
  obtain ⟨f, hf, hposition⟩ := Expr.exists_node_of_error h
  obtain ⟨t, ht, hnode, hstart⟩ := hderives.startsAt hlaid.inOrder f hf
  obtain ⟨c, hc, hchar⟩ := hlaid.exists_char_of_startsNode ht hnode
  refine ⟨c, ?_, hchar⟩
  rw [Error.position, hposition, hstart]
  exact hc

/-- An error lies in its text or at the end of it. -/
theorem Stage.Place.position_le {stage : Stage} {text : String} {e : Error}
    (h : stage.Place text e) : e.position ≤ text.length := by
  have hlt {c : Char} (hc : text.toList[e.position]? = some c) : e.position ≤ text.length := by
    obtain ⟨hlt, -⟩ := List.getElem?_eq_some_iff.mp hc
    exact String.length_toList ▸ Nat.le_of_lt hlt
  cases stage with
  | lexical =>
    obtain ⟨c, -, hc, -⟩ := h
    exact hlt hc
  | structural =>
    obtain ⟨err, -, hend, hfound⟩ := h
    by_cases hempty : err.found = ""
    · exact Nat.le_of_eq (hend.mp hempty)
    · -- what is found is the start of what follows
      have hprefix := (hfound hempty).1
      refine Nat.le_of_not_lt fun hlarge => hempty ?_
      have hnothing : text.toList.drop e.position = [] :=
        List.drop_eq_nil_of_le (String.length_toList ▸ Nat.le_of_lt hlarge)
      rw [hnothing, List.prefix_nil] at hprefix
      exact String.toList_eq_nil_iff.mp hprefix
  | evaluation =>
    obtain ⟨c, hc, -⟩ := h
    exact hlt hc

/-- The code of a structural error is one of its stage. -/
theorem Fault.code_mem (f : Fault) : f.code.number.toNat ∈ Stage.structural.codes := by
  cases f <;> exact List.mem_of_elem_eq_true rfl

/-- The code of an error in the value is one of its stage. -/
theorem EvaluationError.code_mem (err : EvaluationError) :
    err.code.number.toNat ∈ Stage.evaluation.codes := by
  cases err <;> exact List.mem_of_elem_eq_true rfl

/-- A code belongs to the stage that has it. -/
theorem ErrorCode.stage_of_mem {code : ErrorCode} {stage : Stage}
    (h : code.number.toNat ∈ stage.codes) : code.stage = stage := by
  rw [ErrorCode.stage]
  cases stage with
  | lexical => simp [List.mem_singleton.mp h]
  | structural =>
    simp only [Stage.codes, List.mem_cons, List.not_mem_nil, or_false] at h
    rcases h with h | h | h | h <;> simp [h]
  | evaluation =>
    simp only [Stage.codes, List.mem_cons, List.not_mem_nil, or_false] at h
    rcases h with h | h | h | h | h <;> simp [h]

/-- An answer that is an error comes from the last stage that is tried, with a code of this stage
and at one of its places. -/
theorem exists_stage_of_answer {limits : Limits} {text : String} {e : Error}
    (h : answer limits text = .error e) :
    ∃ stage : Stage, stage.IsLast limits text ∧ e.code.number.toNat ∈ stage.codes ∧
      stage.Place text e := by
  rcases cases_of_answer_eq_error h with ⟨err, htokens, rfl⟩ |
    ⟨tokens, err, htokens, hparse, rfl⟩ | ⟨tokens, tree, err, htokens, hparse, hevaluate, rfl⟩
  · exact ⟨.lexical, ⟨err, htokens⟩, List.mem_cons_self, place_of_tokenize htokens⟩
  · have hplace := place_of_parse htokens hparse
    refine ⟨.structural, ⟨tokens, err, htokens, hparse⟩, ?_, hplace⟩
    obtain ⟨ts, rfl, hlaid⟩ := exists_laidOut_of_tokenize htokens
    obtain ⟨f, t, -, rfl⟩ := exists_errorAt_of_parse hlaid hparse
    exact f.code_mem
  · exact ⟨.evaluation, ⟨tokens, tree, htokens, hparse⟩, err.code_mem,
      place_of_evaluate htokens hparse hevaluate⟩

/-- **Every error names its stage and lies at a character that has to do with it.** If the answer to
a text is an error, then for each stage: it is the last one that is tried on the text if and only if
the error names it and has one of its codes, and then the error lies at one of its places. -/
theorem error_place_exact {limits : Limits} {text : String} {e : Error}
    (h : answer limits text = .error e) (stage : Stage) :
    (stage.IsLast limits text ↔ e.stage = stage ∧ e.code.number.toNat ∈ stage.codes) ∧
    (stage.IsLast limits text → stage.Place text e) := by
  obtain ⟨last, hlast, hcode, hplace⟩ := exists_stage_of_answer h
  have hstage : e.stage = last := ErrorCode.stage_of_mem hcode
  rw [Stage.isLast_iff hlast, hstage]
  constructor
  · exact ⟨fun hsame => ⟨hsame, hsame ▸ hcode⟩, fun hsame => hsame.1⟩
  · rintro rfl
    exact hplace

/-- The divisor in `(7) % (-0)` rounds to zero, and the error lies at its sign behind the
parenthesis, since parentheses leave no node behind. -/
theorem error_place_exact_signed_divisor :
    let text := "(7) % (-0)"
    let e : Error := .evaluation (.moduloByZero 7)
    answer .standard text = .error e ∧ Stage.evaluation.IsLast .standard text ∧
      Stage.evaluation.Place text e := by
  intro text e
  have h : answer .standard text = .error e := by decide +kernel
  have hexact := error_place_exact h .evaluation
  have hlast := hexact.1.mpr ⟨rfl, EvaluationError.code_mem _⟩
  exact ⟨h, hlast, hexact.2 hlast⟩

end Calculator
