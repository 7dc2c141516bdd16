import Calculator.Error
import Calculator.Text.Blank
import Calculator.Token.Basic

/-!
# Scanning a text

A scanner stands in a text and hands out its tokens one after the other. It skips blanks, takes the
longest numeral, and passes over a character that starts no token after reporting it, so that it
can go on behind it. At the end of the text it hands out the end token for ever.
-/

namespace Calculator

/-- A place in a text: what is left of it, and how many characters lie before. -/
structure Scanner where
  position : Nat
  rest : List Char
deriving DecidableEq, Repr

namespace Scanner

/-- The start of a text. -/
def start (text : List Char) : Scanner :=
  ⟨0, text⟩

/-- The same place behind the blanks that follow it. -/
def skipBlanks (s : Scanner) : Scanner :=
  ⟨s.position + (s.rest.takeWhile isBlank).length, s.rest.dropWhile isBlank⟩

/-- The number token that starts at a digit, and the place behind it. -/
def number (s : Scanner) : Token × Scanner :=
  let (numeral, rest) := Numeral.take s.rest
  let stop := s.position + numeral.chars.length
  (⟨.number, String.ofList numeral.chars, some (.ofNumeral numeral), ⟨s.position, stop⟩⟩,
    ⟨stop, rest⟩)

/-- The token that starts at a place, or the character there that starts none, and the place behind
it. -/
def word : Scanner → Except LexicalError Token × Scanner
  | ⟨position, []⟩ => (.ok (.endOfInput position), ⟨position, []⟩)
  | ⟨position, c :: rest⟩ =>
    if c.isDigit then
      let (token, s) := number ⟨position, c :: rest⟩
      (.ok token, s)
    else
      match TokenKind.ofSymbol? c with
      | some kind =>
        (.ok ⟨kind, c.toString, none, ⟨position, position + 1⟩⟩, ⟨position + 1, rest⟩)
      | none => (.error ⟨c, position⟩, ⟨position + 1, rest⟩)

/-- The next token, or the next character that starts none, and the place behind it. -/
def next (s : Scanner) : Except LexicalError Token × Scanner :=
  s.skipBlanks.word

/-- What a scanner hands out in the given number of steps. -/
def steps : Nat → Scanner → List (Except LexicalError Token)
  | 0, _ => []
  | n + 1, s => s.next.1 :: steps n s.next.2

/-! ## A step makes the text shorter -/

/-- Behind a numeral less of the text is left than before it. -/
theorem length_take_lt {c : Char} {cs : List Char} (h : c.isDigit = true) :
    (Numeral.take (c :: cs)).2.length < (c :: cs).length := by
  have hle : ∀ l : List Char, (l.dropWhile Char.isDigit).length ≤ l.length := fun l =>
    (List.dropWhile_sublist Char.isDigit).length_le
  have hcs := hle cs
  simp only [Numeral.take, List.dropWhile_cons, h, if_true, List.length_cons]
  split
  · next rest heq =>
    have := hle rest
    simp only [heq, List.length_cons] at hcs
    show (rest.dropWhile Char.isDigit).length < _
    omega
  · show (cs.dropWhile Char.isDigit).length < _
    omega

/-- Blanks that are skipped are no longer left of the text. -/
theorem length_skipBlanks_le (s : Scanner) : s.skipBlanks.rest.length ≤ s.rest.length :=
  (List.dropWhile_sublist isBlank).length_le

/-- Behind a word less of the text is left than before it. -/
theorem length_word_lt {s : Scanner} (h : s.rest ≠ []) :
    s.word.2.rest.length < s.rest.length := by
  obtain ⟨position, rest⟩ := s
  match rest, h with
  | c :: rest, _ =>
    simp only [word]
    split
    · next hc => exact length_take_lt hc
    · split <;> exact Nat.lt_succ_self _

/-- A step that does not come to the end leaves less of the text. -/
theorem length_next_lt {s : Scanner} (h : s.skipBlanks.rest ≠ []) :
    s.next.2.rest.length < s.rest.length :=
  Nat.lt_of_lt_of_le (length_word_lt h) (length_skipBlanks_le s)

/-- The end token is handed out at the end of the text only. -/
theorem skipBlanks_rest_ne_nil {s : Scanner} {token : Token} (h : s.next.1 = .ok token)
    (hkind : token.kind ≠ .endOfInput) : s.skipBlanks.rest ≠ [] := by
  intro hnil
  rw [next, show s.skipBlanks = ⟨s.skipBlanks.position, []⟩ by rw [← hnil], word] at h
  injection h with h
  exact hkind (h ▸ rfl)

/-- The tokens from a place to the end of the text, after those already found, or the first
character that starts none. -/
def collect (s : Scanner) (found : List Token) : Except LexicalError (List Token) :=
  match _h : s.next with
  | (.error e, _) => .error e
  | (.ok token, behind) =>
    if _hkind : token.kind = .endOfInput then .ok (token :: found).reverse
    else collect behind (token :: found)
termination_by s.rest.length
decreasing_by
  have hnext := length_next_lt (skipBlanks_rest_ne_nil (congrArg Prod.fst _h) _hkind)
  rwa [_h] at hnext

end Scanner

/-- The tokens of a text, the last one its end, or the first character that starts none. -/
def tokenize (text : List Char) : Except LexicalError (List Token) :=
  (Scanner.start text).collect []

end Calculator
