import Calculator.Proofs.Concatenation
import Calculator.Proofs.SameWords

/-!
# Blanks around a text

Blanks in front of a text move its tokens, and blanks behind it move its end. So they change nothing
in the answer but the place of an error, and an error that has found the end of the text lies at the
end with the blanks as it does without them. Therefore a text may be trimmed before it is answered.
-/

namespace Calculator

/-! ## Trimming -/

/-- The text `text` is `cs` without blanks at its ends. -/
structure TrimsTo (cs text : List Char) : Prop where
  /-- Only blanks are taken off. -/
  exists_blanks : ∃ u v, cs = u ++ text ++ v ∧ (∀ c ∈ u, isBlank c = true) ∧
    ∀ c ∈ v, isBlank c = true
  /-- No blank is left in front. -/
  head_not_blank : ∀ c ∈ text.head?, isBlank c = false
  /-- No blank is left behind. -/
  last_not_blank : ∀ c ∈ text.getLast?, isBlank c = false

/-- What is left at the front starts with no blank. -/
theorem trimStart_spec (cs : List Char) :
    ∃ u, cs = u ++ trimStart cs ∧ (∀ c ∈ u, isBlank c = true) ∧
      ∀ c ∈ (trimStart cs).head?, isBlank c = false := by
  refine ⟨cs.takeWhile isBlank, List.takeWhile_append_dropWhile.symm, ?_, ?_⟩
  · intro c hc
    exact List.all_eq_true.mp List.all_takeWhile c hc
  · intro c hc
    exact eq_false_of_mem_head?_dropWhile hc

/-- Trimming takes the blanks off both ends. -/
theorem trimsTo_trim (cs : List Char) : TrimsTo cs (trim cs) := by
  obtain ⟨u, hfront, hu, hhead⟩ := trimStart_spec cs
  obtain ⟨v, hback, hv, hlast⟩ := trimStart_spec (trimStart cs).reverse
  have hrest : trimStart cs = trim cs ++ v.reverse := by
    rw [trim, ← List.reverse_append, ← hback, List.reverse_reverse]
  refine ⟨⟨u, v.reverse, ?_, hu, fun c hc => hv c (List.mem_reverse.mp hc)⟩, ?_, ?_⟩
  · rw [List.append_assoc, ← hrest]
    exact hfront
  · -- the blanks that are taken off behind do not change what stands in front
    intro c hc
    rw [hrest] at hhead
    cases htrim : trim cs with
    | nil =>
      rw [htrim] at hc
      cases hc
    | cons d ds =>
      rw [htrim] at hc hhead
      exact hhead c hc
  · intro c hc
    rw [trim, List.getLast?_reverse] at hc
    exact hlast c hc

/-! ## The tokens between blanks -/

/-- Blanks have no token but the end. -/
theorem tokenize_blanks {blanks : List Char} (h : ∀ c ∈ blanks, isBlank c = true) :
    tokenize blanks = .ok [.endOfInput blanks.length] :=
  Scanner.Reads.tokenize_eq_of_blanks (.nil _) h

/-- Blanks in front of a text move its tokens. -/
theorem tokenize_blanks_append {blanks : List Char} (h : ∀ c ∈ blanks, isBlank c = true)
    (text : List Char) :
    tokenize (blanks ++ text) = shiftTokens blanks.length (tokenize text) := by
  have hblanks : tokenize blanks = .ok ([] ++ [.endOfInput blanks.length]) := tokenize_blanks h
  rw [tokenize_append hblanks nofun]
  cases shiftTokens blanks.length (tokenize text) <;> rfl

/-- Blanks behind a text move its end token. -/
theorem tokenize_append_blanks {text blanks : List Char} {ts : List Token}
    (htext : tokenize text = .ok (ts ++ [.endOfInput text.length]))
    (h : ∀ c ∈ blanks, isBlank c = true) :
    tokenize (text ++ blanks) = .ok (ts ++ [.endOfInput (text.length + blanks.length)]) := by
  rw [tokenize_append htext, tokenize_blanks h]
  · rfl
  · intro t _ _
    cases blanks with
    | nil => exact fun hgoes => nomatch hgoes.2
    | cons c cs => exact t.not_goesOn_of_isBlank (h c List.mem_cons_self) cs

/-! ## The answer between blanks -/

/-- The place `p` of a text with `n` characters is the place `q` of the text with `k` characters in
front of it and `l` characters behind it: a place in the text lies further on, and its end lies at
the end. -/
def MovesTo (k n l p q : Nat) : Prop :=
  p < n ∧ q = k + p ∨ p = n ∧ q = k + n + l

/-- Places keep their order when they are moved. -/
theorem minClosed_movesTo (k n l : Nat) : MinClosed (MovesTo k n l) := by
  intro p q p' q' h h'
  unfold MovesTo at h h' ⊢
  omega

/-- A moved token is alike. -/
theorem Token.alike_shift {t : Token} {k n l : Nat} (h : t.position < n) :
    t.Alike (MovesTo k n l) (t.shift k) :=
  ⟨rfl, rfl, rfl, .inl ⟨h, rfl⟩⟩

/-- The tokens of a text between blanks are alike. -/
theorem LaidOut.forall₂_alike_shift {text : List Char} {ts : List Token}
    (h : LaidOut 0 text (ts.map .ok)) (k l : Nat) :
    List.Forall₂ (Token.Alike (MovesTo k text.length l)) (ts ++ [.endOfInput text.length])
      (ts.map (.shift k) ++ [.endOfInput (k + text.length + l)]) := by
  have hend : (Token.endOfInput text.length).Alike (MovesTo k text.length l)
      (.endOfInput (k + text.length + l)) :=
    ⟨rfl, rfl, rfl, .inr ⟨rfl, rfl⟩⟩
  have htokens : ∀ t ∈ ts, t.Alike (MovesTo k text.length l) (t.shift k) := fun t ht =>
    Token.alike_shift (h.standsAt ht).position_lt
  clear h
  induction ts with
  | nil => exact .cons hend .nil
  | cons t ts ih =>
    obtain ⟨ht, hts⟩ := List.forall_mem_cons.mp htokens
    exact .cons ht (ih hts)

/-- Whether an error has found the end of the text. -/
def Error.FoundEnd (e : Error) : Prop :=
  ∃ err, e = .structural err ∧ err.found = ""

/-- What becomes of the answer to a text with `n` characters when `k` characters stand in front of
it and `l` characters behind it: the value stays, an error that has found the end lies at the end in
both cases, and any other error lies further on. -/
inductive Displaced (k n l : Nat) : Except Error Binary64 → Except Error Binary64 → Prop where
  | value (x : Binary64) : Displaced k n l (.ok x) (.ok x)
  | atEnd {e : Error} : e.FoundEnd → e.position = n →
      Displaced k n l (.error e) (.error (e.moveTo (k + n + l)))
  | inside {e : Error} : ¬ e.FoundEnd →
      Displaced k n l (.error e) (.error (e.moveTo (k + e.position)))

/-- An error has found the end exactly if it lies there. -/
theorem foundEnd_iff_of_answer {limits : Limits} {text : String} {e : Error}
    (h : answer limits text = .error e) : e.FoundEnd ↔ e.position = text.length := by
  have hinside {c : Char} (hc : text.toList[e.position]? = some c) : e.position ≠ text.length := by
    obtain ⟨hlt, -⟩ := List.getElem?_eq_some_iff.mp hc
    exact Nat.ne_of_lt (String.length_toList ▸ hlt)
  rcases cases_of_answer_eq_error h with ⟨err, htokens, rfl⟩ |
    ⟨tokens, err, htokens, hparse, rfl⟩ | ⟨tokens, tree, err, htokens, hparse, hevaluate, rfl⟩
  · obtain ⟨c, -, hc, -⟩ := place_of_tokenize htokens
    exact iff_of_false nofun (hinside hc)
  · obtain ⟨err', herr, hend, -⟩ := place_of_parse htokens hparse
    cases herr
    constructor
    · rintro ⟨err', herr, hfound⟩
      cases herr
      exact hend.mp hfound
    · intro hplace
      exact ⟨err, rfl, hend.mpr hplace⟩
  · obtain ⟨c, hc, -⟩ := place_of_evaluate htokens hparse hevaluate
    exact iff_of_false nofun (hinside hc)

/-- An error that is moved to where its place lies between blanks is displaced. -/
theorem displaced_of_movesTo {limits : Limits} {text : String} {e : Error} {k l q : Nat}
    (h : answer limits text = .error e) (hq : MovesTo k text.length l e.position q) :
    Displaced k text.length l (.error e) (.error (e.moveTo q)) := by
  have hend := foundEnd_iff_of_answer h
  rcases hq with ⟨hlt, rfl⟩ | ⟨hplace, rfl⟩
  · exact .inside fun hfound => Nat.ne_of_lt hlt (hend.mp hfound)
  · exact .atEnd (hend.mpr hplace) hplace

/-- The answer to a text between blanks. -/
theorem answer_displaced {u v : String} (hu : ∀ c ∈ u.toList, isBlank c = true)
    (hv : ∀ c ∈ v.toList, isBlank c = true) (limits : Limits) (t : String) :
    Displaced u.length t.length v.length (answer limits t) (answer limits (u ++ t ++ v)) := by
  have htext : (u ++ t ++ v).toList = u.toList ++ (t.toList ++ v.toList) := by
    rw [String.toList_append, String.toList_append, List.append_assoc]
  cases htokens : tokenize t.toList with
  | error err =>
    have herror := tokenize_append_of_error htokens v.toList
    have hfails : tokenize (u ++ t ++ v).toList = .error (err.shift u.toList.length) := by
      rw [htext, tokenize_blanks_append hu, herror]
      rfl
    have hanswer : answer limits t = .error (.lexical err) := by
      rw [answer_eq, htokens]
    have hanswer' : answer limits (u ++ t ++ v) =
        .error (.lexical (err.shift u.toList.length)) := by
      rw [answer_eq, hfails]
    rw [hanswer, hanswer', String.length_toList]
    exact .inside nofun
  | ok tokens =>
    obtain ⟨ts, rfl, hlaid⟩ := exists_laidOut_of_tokenize htokens
    have hmoved : tokenize (u ++ t ++ v).toList = .ok (ts.map (.shift u.length) ++
        [.endOfInput (u.length + t.toList.length + v.length)]) := by
      rw [htext, tokenize_blanks_append hu, tokenize_append_blanks htokens hv, shiftTokens,
        List.map_append, Nat.add_assoc]
      rfl
    have halike := hlaid.forall₂_alike_shift u.length v.length
    rcases answer_of_alike (minClosed_movesTo _ _ _) htokens hmoved halike limits with
      ⟨x, hx, hx'⟩ | ⟨e, q, hq, he, he'⟩
    · rw [hx, hx']
      exact .value x
    · rw [he, he']
      rw [String.length_toList] at hq
      exact displaced_of_movesTo he hq

/-- **Blanks around a text only move its errors.** Whatever blanks stand around a text, its answer
is displaced by them. So the answer to a trimmed text is that to the text itself, but for the blanks
that have been taken off in front of the place of an error. -/
theorem blanks_around_displace (limits : Limits) (t : String) :
    (∀ u v : String, (∀ c ∈ u.toList, isBlank c = true) → (∀ c ∈ v.toList, isBlank c = true) →
      Displaced u.length t.length v.length (answer limits t) (answer limits (u ++ t ++ v))) ∧
    ∃ u v : List Char, t.toList = u ++ trim t.toList ++ v ∧ (∀ c ∈ u ++ v, isBlank c = true) ∧
      Displaced u.length (trim t.toList).length v.length
        (answer limits (String.ofList (trim t.toList))) (answer limits t) := by
  refine ⟨fun u v hu hv => answer_displaced hu hv limits t, ?_⟩
  obtain ⟨u, v, htext, hu, hv⟩ := (trimsTo_trim t.toList).exists_blanks
  refine ⟨u, v, htext, List.forall_mem_append.mpr ⟨hu, hv⟩, ?_⟩
  have hdisplaced := answer_displaced (u := String.ofList u) (v := String.ofList v)
    (by rwa [String.toList_ofList]) (by rwa [String.toList_ofList]) limits
    (String.ofList (trim t.toList))
  rw [← String.ofList_append, ← String.ofList_append, ← htext, String.ofList_toList] at hdisplaced
  simp only [String.length_ofList] at hdisplaced
  exact hdisplaced

/-- The remainder in `7 % 0` fails at the same token behind a tab and in front of an ideographic
space, and what is missing in `7 %` is missing behind the blanks. -/
theorem blanks_around_displace_remainder :
    (∀ c ∈ "\t ".toList, isBlank c = true) ∧ (∀ c ∈ "\u3000".toList, isBlank c = true) ∧
    answer .standard "7 % 0" = .error (.evaluation (.moduloByZero 4)) ∧
    Displaced 2 5 1 (answer .standard "7 % 0") (answer .standard "\t 7 % 0\u3000") ∧
    Displaced 2 3 1 (answer .standard "7 %") (answer .standard "\t 7 %\u3000") := by
  have hu : ∀ c ∈ "\t ".toList, isBlank c = true := List.all_eq_true.mp rfl
  have hv : ∀ c ∈ "\u3000".toList, isBlank c = true := List.all_eq_true.mp rfl
  refine ⟨hu, hv, by decide +kernel, ?_, ?_⟩
  · exact (blanks_around_displace .standard "7 % 0").1 "\t " "\u3000" hu hv
  · exact (blanks_around_displace .standard "7 %").1 "\t " "\u3000" hu hv

end Calculator
