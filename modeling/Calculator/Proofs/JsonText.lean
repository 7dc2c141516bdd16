import Calculator.Json.Encode
import Calculator.Json.Read
import Calculator.Proofs.NumberText

/-!
# Written JSON is read back

What is written as a text, as a number or as an object of written values is read as a value in front
of anything that may follow a value in an object, and what follows is left over. So each kind of
value needs to be looked at once, and whole records are read member by member.
-/

namespace Calculator

namespace Json

/-! ## Texts -/

/-- The part of a text as which an escaped character is read: a unit of UTF-16 for a control
character without an escape of its own. -/
def partOf (c : Char) : TextPart :=
  if c.toNat < 0x20 ∧ c ∉ ['\x08', '\t', '\n', '\x0c', '\r'] then .unit c.toNat else .char c

/-- The parts as which a text is read. -/
def partsOf (s : String) : List TextPart :=
  s.toList.map partOf

/-- A hexadecimal digit denotes its number. -/
theorem hexValue?_hexDigit : ∀ n < 16, hexValue? (hexDigit n) = some n := by
  decide

variable {rest behind : List Char} {parts : List TextPart}

/-- An escape of one letter is read as its character. -/
theorem readText_escape {letter c : Char} (hu : letter ≠ 'u') (hc : escaped? letter = some c)
    (h : readText rest = some (parts, behind)) :
    readText ('\\' :: letter :: rest) = some (.char c :: parts, behind) := by
  rw [readText, hc, h]
  · rfl
  · intro _ _ _ _ _ hletter
    exact absurd hletter hu

/-- A character that needs no escape is read as itself. -/
theorem readText_char {c : Char} (hquote : c ≠ '"') (hbackslash : c ≠ '\\')
    (hcontrol : ¬ c.toNat < 0x20) (h : readText rest = some (parts, behind)) :
    readText (c :: rest) = some (.char c :: parts, behind) := by
  rw [readText, h]
  · simp [hcontrol, hbackslash]
  · exact hquote
  · intro _ _ _ _ _ hc
    exact absurd hc hbackslash
  · intro _ _ hc
    exact absurd hc hbackslash

/-- A control character that is escaped as a unit of UTF-16 is read as this unit. -/
theorem readText_unit {n : Nat} (hn : n < 0x20) (h : readText rest = some (parts, behind)) :
    readText ('\\' :: 'u' :: '0' :: '0' :: hexDigit (n / 16) :: hexDigit (n % 16) :: rest) =
      some (.unit n :: parts, behind) := by
  have hzero : hexValue? '0' = some 0 := rfl
  have hhigh := hexValue?_hexDigit (n / 16) (by omega)
  have hlow := hexValue?_hexDigit (n % 16) (Nat.mod_lt _ (by decide))
  have hunit : 16 * (n / 16) + n % 16 = n := Nat.div_add_mod n 16
  rw [readText, hzero, hhigh, hlow, h]
  simp [hunit]

/-- An escaped character is read as one part. -/
theorem readText_escapedChars (c : Char) (h : readText rest = some (parts, behind)) :
    readText (escapedChars c ++ rest) = some (partOf c :: parts, behind) := by
  by_cases hquote : c = '"'
  · subst hquote
    exact readText_escape (by decide) rfl h
  by_cases hbackslash : c = '\\'
  · subst hbackslash
    exact readText_escape (by decide) rfl h
  by_cases hshort : c ∈ ['\x08', '\t', '\n', '\x0c', '\r']
  · simp only [List.mem_cons, List.not_mem_nil, or_false] at hshort
    rcases hshort with rfl | rfl | rfl | rfl | rfl
    all_goals exact readText_escape (by decide) rfl h
  · have hletters : escapedChars c = if c.toNat < 0x20 then
        ['\\', 'u', '0', '0', hexDigit (c.toNat / 16), hexDigit (c.toNat % 16)] else [c] := by
      simp only [List.mem_cons, List.not_mem_nil, or_false, not_or] at hshort
      simp [escapedChars, hquote, hbackslash, hshort]
    by_cases hcontrol : c.toNat < 0x20
    · rw [hletters, if_pos hcontrol, partOf, if_pos ⟨hcontrol, hshort⟩]
      exact readText_unit hcontrol h
    · rw [hletters, if_neg hcontrol, partOf, if_neg fun hunit => hcontrol hunit.1]
      exact readText_char hquote hbackslash hcontrol h

/-- A text is read up to its closing quotation mark. -/
theorem readText_quoted (cs : List Char) (rest : List Char) :
    readText (cs.flatMap escapedChars ++ '"' :: rest) = some (cs.map partOf, rest) := by
  induction cs with
  | nil => rfl
  | cons c cs ih =>
    rw [List.flatMap_cons, List.append_assoc, List.map_cons]
    exact readText_escapedChars c ih

/-- A unit that is a character by itself does not depend on what follows. -/
theorem textChars?_unit {n : Nat} (hn : n < 0x20) (parts : List TextPart) :
    textChars? (.unit n :: parts) = (textChars? parts).map (Char.ofNat n :: ·) := by
  have hhigh : isHighUnit n = false := by
    rw [isHighUnit, Bool.and_eq_false_iff, decide_eq_false_iff_not]
    omega
  have hlow : isLowUnit n = false := by
    rw [isLowUnit, Bool.and_eq_false_iff, decide_eq_false_iff_not]
    omega
  cases parts with
  | nil => simp [textChars?, hhigh, hlow]
  | cons part parts => cases part <;> simp [textChars?, hhigh, hlow]

/-- The parts of a text make the text. -/
theorem textChars?_map_partOf (cs : List Char) : textChars? (cs.map partOf) = some cs := by
  induction cs with
  | nil => rfl
  | cons c cs ih =>
    rw [List.map_cons, partOf]
    split
    · next hunit => rw [textChars?_unit hunit.1, ih, Option.map_some, Char.ofNat_toNat]
    · rw [textChars?, ih, Option.map_some]

/-- The parts of a text make the text. -/
@[simp] theorem textOf?_partsOf (s : String) : textOf? (partsOf s) = some s := by
  rw [textOf?, partsOf, textChars?_map_partOf, Option.map_some, String.ofList_toList]

/-! ## Numbers -/

/-- The exponent of a number as it is written, with its sign. -/
def exponentChars : Option Int → List Char
  | none => []
  | some e => 'e' :: (if e < 0 then '-' else '+') :: decimalDigits e.natAbs

/-- The point of a number and the digits after it. -/
def fractionChars : Option (List Char) → List Char
  | none => []
  | some digits => '.' :: digits

end Json

/-- The characters of a number. -/
def JsonNumber.chars (n : JsonNumber) : List Char :=
  signText n.negative ++ (n.whole ++ (Json.fractionChars n.fraction ++
    Json.exponentChars n.exponent))

/-- A number as it may be written: digits before the point, with a zero in front of no other digit,
and digits after the point if there is one. -/
structure JsonNumber.Proper (n : JsonNumber) : Prop where
  whole_ne_nil : n.whole ≠ []
  isDigit_of_mem : ∀ c ∈ n.whole, c.isDigit = true
  leading : n.whole = ['0'] ∨ n.whole.head? ≠ some '0'
  fraction_ne_nil : n.fraction ≠ some []
  isDigit_of_mem_fraction : ∀ digits ∈ n.fraction, ∀ c ∈ digits, c.isDigit = true

namespace Json

/-- What may follow a value that is a member of an object, or the whole text. -/
def EndsValue (rest : List Char) : Prop :=
  ∀ c ∈ rest.head?, c = ',' ∨ c = '}'

/-- A run of digits ends in front of something else. -/
def EndsDigits (rest : List Char) : Prop :=
  ∀ c ∈ rest.head?, c.isDigit = false

/-- Digits end at the end of a value. -/
theorem EndsValue.endsDigits {rest : List Char} (h : EndsValue rest) : EndsDigits rest := by
  intro c hc
  rcases h c hc with rfl | rfl <;> rfl

/-- A run of digits is read up to what is no digit. -/
theorem readDigits_append {digits rest : List Char} (hne : digits ≠ [])
    (hdigits : ∀ c ∈ digits, c.isDigit = true) (hrest : EndsDigits rest) :
    readDigits (digits ++ rest) = some (digits, rest) := by
  obtain ⟨htake, hdrop⟩ := span_digits hdigits hrest
  rw [readDigits, htake, hdrop]
  cases digits with
  | nil => exact absurd rfl hne
  | cons => rfl

/-- The digits before the point are read. -/
theorem readWhole_append {n : JsonNumber} (hn : n.Proper) {rest : List Char}
    (hrest : EndsDigits rest) : readWhole (n.whole ++ rest) = some (n.whole, rest) := by
  rcases hn.leading with hzero | hleading
  · rw [hzero]
    rfl
  · rw [← readDigits_append hn.whole_ne_nil hn.isDigit_of_mem hrest]
    unfold readWhole
    split
    · next rest' heq =>
      -- the first digit is not zero
      cases hwhole : n.whole with
      | nil => exact absurd hwhole hn.whole_ne_nil
      | cons c cs =>
        rw [hwhole] at hleading heq
        cases heq
        exact absurd rfl hleading
    · rfl

/-- The point and the digits after it are read. -/
theorem readFraction_append {n : JsonNumber} (hn : n.Proper) {rest : List Char}
    (hrest : EndsDigits rest) (hpoint : rest.head? ≠ some '.') :
    readFraction (fractionChars n.fraction ++ rest) = some (n.fraction, rest) := by
  cases hfraction : n.fraction with
  | none =>
    rw [fractionChars, List.nil_append]
    unfold readFraction
    split
    · exact absurd rfl hpoint
    · rfl
  | some digits =>
    have hne : digits ≠ [] := fun hnil => hn.fraction_ne_nil (by rw [hfraction, hnil])
    have hdigits := hn.isDigit_of_mem_fraction digits hfraction
    rw [fractionChars, List.cons_append, readFraction, readDigits_append hne hdigits hrest,
      Option.map_some]

/-- A decimal number has a digit. -/
theorem decimalDigits_ne_nil (n : Nat) : decimalDigits n ≠ [] :=
  Nat.toDigits_ne_nil

/-- The exponent of a number is read. -/
theorem readExponent_append (exponent : Option Int) {rest : List Char} (hrest : EndsValue rest) :
    readExponent (exponentChars exponent ++ rest) = some (exponent, rest) := by
  cases exponent with
  | none =>
    rw [exponentChars, List.nil_append]
    unfold readExponent
    split
    · rcases hrest 'e' rfl with h | h <;> cases h
    · rcases hrest 'E' rfl with h | h <;> cases h
    · rfl
  | some e =>
    have hdigits := readDigits_append (decimalDigits_ne_nil e.natAbs)
      (fun c => isDigit_of_mem_decimalDigits) hrest.endsDigits
    rw [exponentChars, List.cons_append, List.cons_append, readExponent]
    by_cases he : e < 0
    · have hvalue : -(e.natAbs : Int) = e := by omega
      simp only [if_pos he, readSignedDigits, hdigits, Option.map_some, digitsValue_decimalDigits,
        hvalue]
    · have hvalue : (e.natAbs : Int) = e := by omega
      simp only [if_neg he, readSignedDigits, hdigits, Option.map_some, digitsValue_decimalDigits,
        hvalue]

/-- Neither a digit nor a point stands at the front of what follows the digits of a number. -/
theorem head?_exponentChars {exponent : Option Int} {rest : List Char} (hrest : EndsValue rest)
    {c : Char} (hc : c ∈ (exponentChars exponent ++ rest).head?) : c.isDigit = false ∧ c ≠ '.' := by
  cases exponent with
  | none => rcases hrest c hc with rfl | rfl <;> decide
  | some e =>
    cases hc
    decide

/-- No digit stands at the front of what follows the digits before the point. -/
theorem endsDigits_fractionChars {fraction : Option (List Char)} {rest : List Char}
    (hrest : EndsDigits rest) : EndsDigits (fractionChars fraction ++ rest) := by
  cases fraction with
  | none => exact hrest
  | some digits =>
    intro c hc
    cases hc
    rfl

/-- A number is read behind its sign up to the end of the value. -/
theorem readUnsigned_append {n : JsonNumber} (hn : n.Proper) {rest : List Char}
    (hrest : EndsValue rest) :
    readUnsigned n.negative (n.whole ++ (fractionChars n.fraction ++ exponentChars n.exponent) ++
      rest) = some (n, rest) := by
  have hends : EndsDigits (exponentChars n.exponent ++ rest) := fun c hc =>
    (head?_exponentChars hrest hc).1
  have hpoint : (exponentChars n.exponent ++ rest).head? ≠ some '.' := fun hc =>
    (head?_exponentChars hrest hc).2 rfl
  rw [List.append_assoc, List.append_assoc, readUnsigned,
    readWhole_append hn (endsDigits_fractionChars hends)]
  simp only [Option.bind_eq_bind, Option.bind_some, readFraction_append hn hends hpoint,
    readExponent_append n.exponent hrest]
  rfl

/-- A number is read up to the end of the value. -/
theorem readNumber_append {n : JsonNumber} (hn : n.Proper) {rest : List Char}
    (hrest : EndsValue rest) : readNumber (n.chars ++ rest) = some (n, rest) := by
  have hread := readUnsigned_append hn hrest
  rw [JsonNumber.chars, List.append_assoc]
  cases hsign : n.negative with
  | true =>
    rw [hsign] at hread
    exact hread
  | false =>
    rw [hsign] at hread
    rw [signText, if_neg Bool.false_ne_true, List.nil_append, ← hread]
    cases hwhole : n.whole with
    | nil => exact absurd hwhole hn.whole_ne_nil
    | cons c cs =>
      have hdigit : c.isDigit = true :=
        hn.isDigit_of_mem c (hwhole ▸ List.mem_cons_self)
      rw [List.cons_append, List.cons_append, readNumber]
      rintro rest' heq
      cases heq
      cases hdigit

/-- A number starts with a digit, or with the sign in front of one. -/
theorem exists_chars_eq_cons {n : JsonNumber} (hn : n.Proper) :
    ∃ c cs, n.chars = c :: cs ∧ (c.isDigit = true ∨ c = '-') := by
  rw [JsonNumber.chars]
  cases hsign : n.negative with
  | true => exact ⟨'-', _, rfl, .inr rfl⟩
  | false =>
    cases hwhole : n.whole with
    | nil => exact absurd hwhole hn.whole_ne_nil
    | cons c cs =>
      exact ⟨c, _, rfl, .inl (hn.isDigit_of_mem c (hwhole ▸ List.mem_cons_self))⟩

/-! ## Values -/

/-- In front of what may follow a value, the characters `chars` are read as the value `j`, and no
more steps are needed than one for each character and one more. -/
def ReadsAs (chars : List Char) (j : Json) : Prop :=
  ∀ fuel rest, chars.length ≤ fuel → EndsValue rest →
    readValue (fuel + 1) (chars ++ rest) = some (j, rest)

/-- A whole text is read as its value. -/
theorem ReadsAs.read?_eq {text : String} {j : Json} (h : ReadsAs text.toList j) :
    read? text = some j := by
  have hread := h (2 * text.toList.length) [] (by omega) nofun
  rw [List.append_nil] at hread
  rw [read?]
  simp only [hread, Option.bind_eq_bind, Option.bind_some]
  rfl

/-- Nothing is skipped in front of a character that is no space. -/
theorem skipSpace_cons {c : Char} (hc : isSpace c = false) (cs : List Char) :
    skipSpace (c :: cs) = c :: cs :=
  List.dropWhile_cons_of_neg (by simp [hc])

/-- A truth value is read. -/
theorem readsAs_bool (b : Bool) : ReadsAs (if b then "true" else "false").toList (.bool b) := by
  intro fuel rest _ _
  cases b <;> rfl

/-- A text is read. -/
theorem readsAs_quoted (s : String) : ReadsAs (quoted s).toList (.text (partsOf s)) := by
  intro fuel rest _ _
  have hread := readText_quoted s.toList rest
  rw [quoted, String.toList_ofList, List.cons_append, List.cons_append, List.append_assoc]
  have hvalue : readValue (fuel + 1) ('"' :: (s.toList.flatMap escapedChars ++ (['"'] ++ rest))) =
      (readText (s.toList.flatMap escapedChars ++ '"' :: rest)).map
        fun pair => (.text pair.1, pair.2) := rfl
  rw [hvalue, hread]
  rfl

/-- A number is read. -/
theorem readsAs_number {n : JsonNumber} (hn : n.Proper) : ReadsAs n.chars (.number n) := by
  intro fuel rest _ hrest
  have hread := readNumber_append hn hrest
  obtain ⟨c, cs, hchars, hfirst⟩ := exists_chars_eq_cons hn
  -- no other kind of value starts with a digit or with a sign
  have hother : c ∉ ['n', 't', 'f', '"', '[', '{', ' ', '\n', '\t', '\r'] := by
    intro hc
    simp only [List.mem_cons, List.not_mem_nil, or_false] at hc
    rcases hc with rfl | rfl | rfl | rfl | rfl | rfl | rfl | rfl | rfl | rfl
    all_goals revert hfirst; decide
  have hspace : isSpace c = false := by
    simp only [List.mem_cons, List.not_mem_nil, or_false, not_or] at hother
    simp [isSpace, hother]
  rw [hchars, List.cons_append] at hread ⊢
  rw [readValue, skipSpace_cons hspace]
  split
  case h_7 =>
    rw [hread]
    rfl
  all_goals
    next heq =>
      obtain rfl := (List.cons.inj heq).1
      exact absurd (by decide) hother

/-- A natural number as it is written. -/
def naturalNumber (n : Nat) : JsonNumber :=
  ⟨false, decimalDigits n, none, none⟩

/-- A decimal number does not start with a zero unless it is zero. -/
theorem leading_decimalDigits (n : Nat) :
    decimalDigits n = ['0'] ∨ (decimalDigits n).head? ≠ some '0' := by
  by_cases hzero : n = 0
  · exact .inl (hzero ▸ rfl)
  refine .inr ?_
  induction n using Nat.strongRecOn with
  | ind n ih =>
    have hdigits : decimalDigits n =
        if n < 10 then [Nat.digitChar n] else decimalDigits (n / 10) ++ [Nat.digitChar (n % 10)] :=
      Nat.toDigits_eq_if (by decide)
    by_cases hlt : n < 10
    · have hdigit : ∀ k < 10, k ≠ 0 → Nat.digitChar k ≠ '0' := by decide
      rw [hdigits, if_pos hlt, List.head?_cons]
      exact fun hhead => hdigit n hlt hzero (Option.some.inj hhead)
    · have hhead := List.head?_eq_some_head (decimalDigits_ne_nil (n / 10))
      rw [hdigits, if_neg hlt, List.head?_append, hhead, Option.some_or, ← hhead]
      exact ih (n / 10) (by omega) (by omega)

/-- A natural number is read. -/
theorem readsAs_repr (n : Nat) : ReadsAs (Nat.repr n).toList (.number (naturalNumber n)) := by
  have hproper : (naturalNumber n).Proper :=
    ⟨decimalDigits_ne_nil n, fun c => isDigit_of_mem_decimalDigits, leading_decimalDigits n, nofun,
      nofun⟩
  have hchars : (Nat.repr n).toList = (naturalNumber n).chars := by
    rw [Nat.repr_eq_ofList_toDigits, String.toList_ofList]
    exact (List.append_nil _).symm
  rw [hchars]
  exact readsAs_number hproper

/-! ## Objects -/

/-- A field of an object: its name, what is written for its value, and the value as which that is
read. -/
structure WrittenField where
  name : String
  text : String
  value : Json
  readsAs : ReadsAs text.toList value

namespace WrittenField

/-- The characters of a field in its object. -/
def chars (f : WrittenField) : List Char :=
  (quoted f.name).toList ++ ':' :: f.text.toList

/-- The member as which a field is read. -/
def member (f : WrittenField) : List TextPart × Json :=
  (partsOf f.name, f.value)

end WrittenField

/-- The characters of an object. -/
theorem toList_objectJson (fields : List WrittenField) :
    (objectJson (fields.map fun f => (f.name, f.text))).toList =
      '{' :: ([','].intercalate (fields.map WrittenField.chars) ++ ['}']) := by
  have hchars : ∀ f : WrittenField, (quoted f.name ++ ":" ++ f.text).toList = f.chars := by
    intro f
    rw [String.toList_append, String.toList_append, List.append_assoc]
    rfl
  simp only [objectJson, String.toList_append, String.toList_intercalate, List.map_map,
    Function.comp_def, hchars]
  rfl

namespace WrittenField

variable (f : WrittenField) {fuel : Nat} {rest : List Char}

/-- A field starts with the quotation mark of its name. -/
theorem chars_append (rest : List Char) : f.chars ++ rest =
    '"' :: (f.name.toList.flatMap escapedChars ++ '"' :: ':' :: (f.text.toList ++ rest)) := by
  rw [chars, quoted, String.toList_ofList]
  simp

/-- The value of a field has fewer characters than the field. -/
theorem length_text_lt : f.text.toList.length < f.chars.length := by
  rw [chars, List.length_append, List.length_cons]
  omega

/-- The name and the value of a field are read. -/
theorem readMembers_eq (hfuel : f.chars.length ≤ fuel + 1) (hrest : EndsValue rest) :
    readMembers (fuel + 2) (f.chars ++ rest) =
      match skipSpace rest with
      | '}' :: rest => some ([f.member], rest)
      | ',' :: rest => do
        let (members, rest) ← readMembers (fuel + 1) rest
        return (f.member :: members, rest)
      | _ => none := by
  have hvalue := f.readsAs fuel rest (by have := f.length_text_lt; omega) hrest
  have hname := readText_quoted f.name.toList (':' :: (f.text.toList ++ rest))
  rw [f.chars_append, readMembers]
  simp only [skipSpace_cons (show isSpace '"' = false from rfl), hname, Option.bind_eq_bind,
    Option.bind_some, skipSpace_cons (show isSpace ':' = false from rfl), hvalue]
  rfl

end WrittenField

/-- The members of an object are read up to its closing brace. -/
theorem readMembers_intercalate (f : WrittenField) (fields : List WrittenField) (rest : List Char)
    (fuel : Nat)
    (hfuel : ([','].intercalate ((f :: fields).map WrittenField.chars)).length ≤ fuel) :
    readMembers (fuel + 1)
      ([','].intercalate ((f :: fields).map WrittenField.chars) ++ '}' :: rest) =
      some ((f :: fields).map WrittenField.member, rest) := by
  induction fields generalizing f fuel with
  | nil =>
    rw [List.map_singleton, List.intercalate_singleton] at hfuel ⊢
    have hpos := f.length_text_lt
    obtain ⟨fuel, rfl⟩ : ∃ k, fuel = k + 1 := ⟨fuel - 1, by omega⟩
    rw [f.readMembers_eq hfuel (by rintro c ⟨⟩; exact .inr rfl)]
    rfl
  | cons g fields ih =>
    rw [List.map_cons, List.map_cons, List.intercalate_cons_cons, ← List.map_cons] at hfuel ⊢
    simp only [List.length_append, List.length_singleton] at hfuel
    obtain ⟨fuel, rfl⟩ : ∃ k, fuel = k + 1 := ⟨fuel - 1, by omega⟩
    have hmembers := ih g fuel (by omega)
    rw [List.append_assoc, List.append_assoc, f.readMembers_eq (by omega)
      (by rintro c ⟨⟩; exact .inl rfl)]
    simp only [List.singleton_append, skipSpace_cons (show isSpace ',' = false from rfl), hmembers]
    rfl

/-- The members of an object start with a quotation mark. -/
theorem exists_intercalate_eq_cons (f : WrittenField) (fields : List WrittenField)
    (rest : List Char) : ∃ cs, [','].intercalate ((f :: fields).map WrittenField.chars) ++ rest =
      '"' :: cs := by
  cases fields with
  | nil =>
    rw [List.map_singleton, List.intercalate_singleton, f.chars_append]
    exact ⟨_, rfl⟩
  | cons g fields =>
    rw [List.map_cons, List.map_cons, List.intercalate_cons_cons, List.append_assoc, f.chars_append]
    exact ⟨_, rfl⟩

/-- An object of written values is read. -/
theorem readsAs_objectJson (f : WrittenField) (fields : List WrittenField) :
    ReadsAs (objectJson ((f :: fields).map fun f => (f.name, f.text))).toList
      (.object ((f :: fields).map WrittenField.member)) := by
  intro fuel rest hfuel _
  rw [toList_objectJson] at hfuel ⊢
  rw [List.length_cons, List.length_append, List.length_singleton] at hfuel
  obtain ⟨fuel, rfl⟩ : ∃ k, fuel = k + 1 := ⟨fuel - 1, by omega⟩
  have hmembers := readMembers_intercalate f fields rest fuel (by omega)
  obtain ⟨cs, hcs⟩ := exists_intercalate_eq_cons f fields ('}' :: rest)
  rw [List.cons_append, List.append_assoc, List.singleton_append]
  rw [hcs] at hmembers ⊢
  rw [readValue, skipSpace_cons (show isSpace '{' = false from rfl)]
  simp only [skipSpace_cons (show isSpace '"' = false from rfl)]
  split
  · next heq => cases heq
  · rw [hmembers]
    rfl

end Json

end Calculator
