import Calculator.Batch
import Calculator.Proofs.Records

/-!
# Lines of a batch

What is printed for a text is one line: whatever the text is, no blank but a space gets from it into
its answer. So the lines of several texts can be told apart again.
-/

namespace Calculator

open Json

/-! ## Texts without blanks but spaces -/

/-- The only blanks in a text are spaces. -/
def OnlySpaces (cs : List Char) : Prop :=
  ∀ c ∈ cs, isBlank c = true → c = ' '

instance (cs : List Char) : Decidable (OnlySpaces cs) :=
  List.decidableBAll _ cs

namespace OnlySpaces

variable {cs ds : List Char}

/-- Two texts behind one another. -/
@[simp] theorem append_iff : OnlySpaces (cs ++ ds) ↔ OnlySpaces cs ∧ OnlySpaces ds := by
  simp only [OnlySpaces, List.mem_append, or_imp, forall_and]

/-- A character in front of a text. -/
@[simp] theorem cons_iff {c : Char} :
    OnlySpaces (c :: cs) ↔ (isBlank c = true → c = ' ') ∧ OnlySpaces cs := by
  simp only [OnlySpaces, List.mem_cons, or_imp, forall_and, forall_eq]

/-- The empty text. -/
@[simp] theorem nil : OnlySpaces [] :=
  fun _ hc => absurd hc List.not_mem_nil

/-- A text without any blank. -/
theorem of_not_blank (h : ∀ c ∈ cs, isBlank c = false) : OnlySpaces cs := by
  intro c hc hblank
  rw [h c hc] at hblank
  cases hblank

/-- Digits are no blanks. -/
theorem of_isDigit (h : ∀ c ∈ cs, c.isDigit = true) : OnlySpaces cs :=
  of_not_blank fun c hc => Scanner.isBlank_of_isDigit (h c hc)

/-- A part of a text. -/
theorem of_subset (h : OnlySpaces cs) (hsub : ∀ c ∈ ds, c ∈ cs) : OnlySpaces ds :=
  fun c hc => h c (hsub c hc)

end OnlySpaces

/-! ## Numbers -/

/-- A natural number has digits only. -/
theorem onlySpaces_repr (n : Nat) : OnlySpaces (Nat.repr n).toList := by
  rw [Nat.repr_eq_ofList_toDigits, String.toList_ofList]
  exact .of_isDigit fun c => isDigit_of_mem_decimalDigits

/-- The digits of a decimal are digits. -/
theorem isDigit_of_mem_trimmed {d : Decimal} {c : Char} (hc : c ∈ d.trimmed.1) :
    c.isDigit = true := by
  have hmem := List.mem_reverse.mp ((List.dropWhile_subset _) (List.mem_reverse.mp hc))
  exact isDigit_of_mem_decimalDigits hmem

/-- Digits set with a point. -/
theorem onlySpaces_positionalText (pointed : Bool) {digits : List Char}
    (h : OnlySpaces digits) (place : Int) : OnlySpaces (positionalText pointed digits place) := by
  have hzeros (k : Nat) : OnlySpaces (List.replicate k '0') :=
    .of_isDigit fun c => isDigit_of_mem_zeros
  cases place with
  | ofNat zeros =>
    rw [positionalText]
    cases pointed <;> simp [h, hzeros, isBlank]
  | negSucc k =>
    have htake (n : Nat) : OnlySpaces (digits.take n) := h.of_subset fun c => List.mem_of_mem_take
    have hdrop (n : Nat) : OnlySpaces (digits.drop n) := h.of_subset fun c => List.mem_of_mem_drop
    rw [positionalText]
    split
    · simp [htake, hdrop, isBlank]
    · simp [h, hzeros, isBlank]

/-- Digits set with an exponent. -/
theorem onlySpaces_exponentText {digits : List Char} (h : OnlySpaces digits) (place : Int) :
    OnlySpaces (exponentText digits place) := by
  have htake : OnlySpaces (digits.take 1) := h.of_subset fun c => List.mem_of_mem_take
  have hdrop : OnlySpaces (digits.drop 1) := h.of_subset fun c => List.mem_of_mem_drop
  have hplace : OnlySpaces (decimalDigits place.natAbs) :=
    .of_isDigit fun c => isDigit_of_mem_decimalDigits
  rw [exponentText]
  split <;> split <;> simp_all [isBlank]

/-- The text of a magnitude in any format. -/
theorem onlySpaces_magnitudeText (format : NumberFormat) (m : Magnitude) :
    OnlySpaces (format.magnitudeText m) := by
  have hdigits : OnlySpaces (m.shortest format.tie).trimmed.1 :=
    .of_isDigit fun c => isDigit_of_mem_trimmed
  rw [NumberFormat.magnitudeText]
  split
  · cases format.pointed <;> simp [isBlank]
  · have heither (positional : Bool) (place leading : Int) :
        OnlySpaces (if positional = true then
          positionalText format.pointed (m.shortest format.tie).trimmed.1 place
        else exponentText (m.shortest format.tie).trimmed.1 leading) := by
      cases positional with
      | true => exact onlySpaces_positionalText _ hdigits _
      | false => exact onlySpaces_exponentText hdigits _
    exact heither _ _ _

/-- The sign of a number. -/
@[simp] theorem onlySpaces_signText (negative : Bool) : OnlySpaces (signText negative) := by
  cases negative <;> simp [signText, isBlank]

/-- A number inside a text. -/
theorem onlySpaces_plainChars (x : Binary64) : OnlySpaces (plainChars x) := by
  cases x with
  | finite negative m => simp [plainChars, onlySpaces_magnitudeText]
  | infinite negative => simp [plainChars, isBlank]
  | nan => simp [plainChars, isBlank]

/-- The text of a result. -/
theorem onlySpaces_resultChars (x : Binary64) : OnlySpaces (resultChars x) := by
  cases x with
  | finite negative m =>
    have hwhole : OnlySpaces (decimalDigits (m.units / unitsPerOne)) :=
      .of_isDigit fun c => isDigit_of_mem_decimalDigits
    rw [resultChars]
    split
    · simp [hwhole, isBlank]
    · exact onlySpaces_plainChars _
  | infinite negative => exact onlySpaces_plainChars (.infinite negative)
  | nan => exact onlySpaces_plainChars .nan

/-- A number as data. -/
theorem onlySpaces_numberJson (x : Binary64) : OnlySpaces (numberJson x).toList := by
  cases x with
  | finite negative m =>
    rw [numberJson, String.toList_ofList]
    simp [onlySpaces_magnitudeText]
  | infinite negative => simp [numberJson, isBlank]
  | nan => simp [numberJson, isBlank]

/-! ## Texts as JSON -/

/-- An escape has no blanks. -/
theorem onlySpaces_escapedChars {c : Char} (h : isBlank c = true → c = ' ') :
    OnlySpaces (escapedChars c) := by
  have hhex : ∀ n < 16, isBlank (hexDigit n) = false := by decide
  unfold escapedChars
  split_ifs with hquote hbackslash hback htab hline hpage hreturn hcontrol
  rotate_right 2
  · have hhigh := hhex (c.toNat / 16) (by omega)
    have hlow := hhex (c.toNat % 16) (Nat.mod_lt _ (by decide))
    have hletters : isBlank '\\' = false ∧ isBlank 'u' = false ∧ isBlank '0' = false := by decide
    simp [hhigh, hlow, hletters]
  · simpa using h
  all_goals simp [isBlank]

/-- A text between quotation marks. -/
theorem onlySpaces_quoted {s : String} (h : OnlySpaces s.toList) :
    OnlySpaces (quoted s).toList := by
  have hescaped : OnlySpaces (s.toList.flatMap escapedChars) := by
    intro d hd
    obtain ⟨c, hc, hmem⟩ := List.mem_flatMap.mp hd
    exact onlySpaces_escapedChars (h c hc) d hmem
  rw [quoted, String.toList_ofList]
  simp [hescaped, isBlank]

/-- Texts with commas between them. -/
theorem onlySpaces_intercalate {texts : List (List Char)} (h : ∀ cs ∈ texts, OnlySpaces cs) :
    OnlySpaces ([','].intercalate texts) := by
  induction texts with
  | nil => exact .nil
  | cons cs texts ih =>
    obtain ⟨hcs, hrest⟩ := List.forall_mem_cons.mp h
    cases texts with
    | nil => rwa [List.intercalate_singleton]
    | cons ds texts =>
      rw [List.intercalate_cons_cons]
      simp [hcs, ih hrest, isBlank]

/-- An object. -/
theorem onlySpaces_objectJson {fields : List (String × String)}
    (h : ∀ f ∈ fields, OnlySpaces f.1.toList ∧ OnlySpaces f.2.toList) :
    OnlySpaces (objectJson fields).toList := by
  have hmembers : ∀ cs ∈ (fields.map fun f => quoted f.1 ++ ":" ++ f.2).map String.toList,
      OnlySpaces cs := by
    intro cs hcs
    obtain ⟨s, hs, rfl⟩ := List.mem_map.mp hcs
    obtain ⟨f, hf, rfl⟩ := List.mem_map.mp hs
    simp [onlySpaces_quoted (h f hf).1, (h f hf).2, isBlank]
  have hall := onlySpaces_intercalate hmembers
  rw [List.map_map] at hall
  simp [objectJson, String.toList_intercalate, isBlank, hall]

/-! ## Messages -/

/-- What an error in the value says: fixed words, numbers, and the name of an operator. -/
theorem onlySpaces_message_of_context {err : EvaluationError}
    (h : ∀ s p, err = .overflow s p → OnlySpaces s.toList) : OnlySpaces err.message.toList := by
  have hplain (x : Binary64) : OnlySpaces (plainText x).toList := by
    rw [plainText, String.toList_ofList]
    exact onlySpaces_plainChars x
  unfold EvaluationError.message
  cases err with
  | divisionByZero p | moduloByZero p | zeroToNegativePower p =>
    dsimp only
    decide
  | domain x y p =>
    simp only [String.toList_append, OnlySpaces.append_iff, hplain, and_true]
    decide
  | overflow s p =>
    simp only [String.toList_append, OnlySpaces.append_iff, h s p rfl, true_and]
    decide
  | depthExceeded limit p =>
    simp only [String.toList_append, OnlySpaces.append_iff, onlySpaces_repr, and_true]
    decide

/-- The message of a number that is too large names what was worked out. -/
theorem onlySpaces_of_requireFinite {context : String} {p : Nat} {x : Binary64}
    {err : EvaluationError} (hcontext : OnlySpaces context.toList)
    (h : requireFinite context p x = .error err) : OnlySpaces err.message.toList := by
  rw [requireFinite] at h
  split at h
  · cases h
  · cases h
    exact onlySpaces_message_of_context fun s q hsame => by cases hsame; exact hcontext

/-- The message of an operator that is refused its operands. -/
theorem onlySpaces_of_apply {operator : Operator} {x y : Binary64} {rightStart start : Nat}
    {err : EvaluationError} (h : operator.apply x y rightStart start = .error err) :
    OnlySpaces err.message.toList := by
  cases operator with
  | add => exact onlySpaces_of_requireFinite (by decide) h
  | sub => exact onlySpaces_of_requireFinite (by decide) h
  | mul => exact onlySpaces_of_requireFinite (by decide) h
  | div =>
    rw [Operator.apply, quotient] at h
    split at h
    · cases h
      exact onlySpaces_message_of_context (by simp)
    · exact onlySpaces_of_requireFinite (by decide) h
  | mod =>
    rw [Operator.apply, modulo] at h
    split at h
    · cases h
      exact onlySpaces_message_of_context (by simp)
    · exact onlySpaces_of_requireFinite (by decide) h
  | pow =>
    rw [Operator.apply, power] at h
    split at h
    · cases h
      exact onlySpaces_message_of_context (by simp)
    · split at h
      · cases h
        exact onlySpaces_message_of_context (by simp)
      · exact onlySpaces_of_requireFinite (by decide) h

/-- The message of an expression without a value. -/
theorem onlySpaces_of_valueWithin {limit room : Nat} {e : Expr} {err : EvaluationError}
    (h : e.valueWithin limit room = .error err) : OnlySpaces err.message.toList := by
  have hdepth (p : Nat) : OnlySpaces (EvaluationError.depthExceeded limit p).message.toList :=
    onlySpaces_message_of_context (by simp)
  induction e generalizing room with
  | number value span =>
    cases room with
    | zero =>
      cases h
      exact hdepth _
    | succ room => exact onlySpaces_of_requireFinite (by decide) h
  | signed sign operand span ih =>
    cases room with
    | zero =>
      cases h
      exact hdepth _
    | succ room =>
      rcases cases_of_bind_eq_error h with hx | ⟨x, -, hx⟩
      · exact ih hx
      · cases hx
  | binary operator left right span ihl ihr =>
    cases room with
    | zero =>
      cases h
      exact hdepth _
    | succ room =>
      rcases cases_of_bind_eq_error h with hx | ⟨x, -, h⟩
      · exact ihl hx
      rcases cases_of_bind_eq_error h with hy | ⟨y, -, h⟩
      · exact ihr hy
      exact onlySpaces_of_apply h

/-- The message of a fault at a token. -/
theorem onlySpaces_errorAt (f : Fault) {t : Token} (ht : OnlySpaces t.lexeme.toList) :
    OnlySpaces (f.errorAt t).message.toList := by
  have hreason : OnlySpaces f.reason.toList := by
    unfold Fault.reason
    cases f with
    | tooDeep limit =>
      simp only [String.toList_append, OnlySpaces.append_iff, onlySpaces_repr, and_true]
      decide
    | _ => decide
  have hfound : OnlySpaces (if t.lexeme.isEmpty then "end of input"
      else "'" ++ t.lexeme ++ "'").toList := by
    split
    · decide
    · simp only [String.toList_append, OnlySpaces.append_iff, ht, and_true]
      decide
  unfold StructuralError.message Fault.errorAt
  simp only [String.toList_append, OnlySpaces.append_iff, hreason, hfound, onlySpaces_repr,
    and_true, true_and]
  decide

/-- The message of an error in the words names a character that is no blank. -/
theorem onlySpaces_lexicalMessage {err : LexicalError} (h : isBlank err.character = false) :
    OnlySpaces err.message.toList := by
  have hcharacter : OnlySpaces err.character.toString.toList := by
    simp [Char.toString, h]
  unfold LexicalError.message
  simp only [String.toList_append, OnlySpaces.append_iff, hcharacter, onlySpaces_repr, and_true]
  decide

/-- **No blank but a space gets from a text into the message of its error.** -/
theorem onlySpaces_message_of_answer {limits : Limits} {text : String} {e : Error}
    (h : answer limits text = .error e) : OnlySpaces e.message.toList := by
  rcases cases_of_answer_eq_error h with ⟨err, htokens, rfl⟩ |
    ⟨tokens, err, htokens, hparse, rfl⟩ | ⟨tokens, tree, err, htokens, hparse, hevaluate, rfl⟩
  · obtain ⟨c, hsame, -, hblank, -⟩ := place_of_tokenize htokens
    have hcharacter : err.character = c :=
      congrArg LexicalError.character (Error.lexical.inj hsame)
    exact onlySpaces_lexicalMessage (hcharacter ▸ hblank)
  · obtain ⟨ts, rfl, hlaid⟩ := exists_laidOut_of_tokenize htokens
    obtain ⟨f, t, ht, rfl⟩ := exists_errorAt_of_parse hlaid hparse
    refine onlySpaces_errorAt f ?_
    rcases ht with ht | rfl
    · -- what is found is a word of the text
      obtain ⟨before, chars, behind, -, hword⟩ :=
        hlaid.exists_append_of_mem (List.mem_map_of_mem ht)
      rw [hword.lexeme_eq]
      exact .of_not_blank fun c => hword.not_blank
    · exact .nil
  · rw [evaluate_eq] at hevaluate
    exact onlySpaces_of_valueWithin hevaluate

/-! ## Answers -/

/-- The report of an error. -/
theorem onlySpaces_report {e : Error} (h : OnlySpaces e.message.toList) :
    OnlySpaces (Report.ofError e).toJson.toList := by
  have hstage : OnlySpaces e.stage.text.toList := by
    cases e.stage <;> decide
  refine onlySpaces_objectJson ?_
  simp only [List.forall_mem_cons, List.not_mem_nil, false_implies, implies_true, and_true]
  exact ⟨⟨by decide, onlySpaces_quoted hstage⟩, ⟨by decide, onlySpaces_repr _⟩,
    ⟨by decide, onlySpaces_quoted h⟩, by decide, onlySpaces_repr _⟩

/-- The answer to a text is printed without any blank but spaces. -/
theorem onlySpaces_rendered (json : Bool) (limits : Limits) (text : String) :
    OnlySpaces (rendered json (answer limits text)).toList := by
  cases h : answer limits text with
  | ok x =>
    have hresult : OnlySpaces (resultText x).toList := by
      rw [resultText, String.toList_ofList]
      exact onlySpaces_resultChars x
    cases json with
    | false =>
      have htext : rendered false (.ok x) = "= " ++ resultText x := rfl
      rw [htext, String.toList_append, OnlySpaces.append_iff]
      exact ⟨by decide, hresult⟩
    | true =>
      have htext : rendered true (.ok x) = objectJson [("success", "true"),
        ("value", numberJson x), ("display", quoted (resultText x))] := rfl
      rw [htext]
      refine onlySpaces_objectJson ?_
      simp only [List.forall_mem_cons, List.not_mem_nil, false_implies, implies_true, and_true]
      exact ⟨by decide, ⟨by decide, onlySpaces_numberJson x⟩, by decide, onlySpaces_quoted hresult⟩
  | error e =>
    have hmessage := onlySpaces_message_of_answer h
    cases json with
    | false =>
      have htext : rendered false (.error e) = "Error: " ++ e.message := rfl
      rw [htext, String.toList_append, OnlySpaces.append_iff]
      exact ⟨by decide, hmessage⟩
    | true =>
      have htext : rendered true (.error e) = objectJson [("success", "false"),
        ("error", (Report.ofError e).toJson)] := rfl
      rw [htext]
      refine onlySpaces_objectJson ?_
      simp only [List.forall_mem_cons, List.not_mem_nil, false_implies, implies_true, and_true]
      exact ⟨by decide, by decide, onlySpaces_report hmessage⟩

/-- An answer as JSON is an object that says whether there is a value. -/
theorem exists_object_of_rendered (limits : Limits) (text : String) :
    ∃ members, read? (rendered true (answer limits text)) = some (.object members) ∧
      (object members).fields? ["success"] = some [some (.bool (answer limits text).isOk)] := by
  cases h : answer limits text with
  | ok x =>
    obtain ⟨n, hn, -⟩ := Binary64.exists_readsAs_numberJson (isFinite_of_answer h)
    have hreads := readsAs_objectJson ⟨"success", "true", .bool true, readsAs_bool true⟩
      [⟨"value", _, _, hn⟩, ⟨"display", _, _, readsAs_quoted (resultText x)⟩]
    refine ⟨_, hreads.read?_eq, ?_⟩
    rw [fields?_object (by simp)]
    rfl
  | error e =>
    have hreport := readsAs_objectJson ⟨"stage", _, _, readsAs_quoted e.stage.text⟩
      [⟨"code", _, _, readsAs_repr e.code.number.toNat⟩,
        ⟨"message", _, _, readsAs_quoted e.message⟩, ⟨"position", _, _, readsAs_repr e.position⟩]
    have hreads := readsAs_objectJson ⟨"success", "false", .bool false, readsAs_bool false⟩
      [⟨"error", _, _, hreport⟩]
    refine ⟨_, hreads.read?_eq, ?_⟩
    rw [fields?_object (by simp)]
    rfl

/-! ## Lines -/

/-- What is printed for one text more is one line in front. -/
theorem runBatch_cons (options : Options) (text : String) (texts : List String) :
    runBatch options (text :: texts) =
      ((answer options.limits text).isOk && (runBatch options texts).1,
        answerLine options.json (answer options.limits text) ++ (runBatch options texts).2) := by
  rw [runBatch, runBatch, List.map_cons, List.map_cons, List.all_cons, String.join_cons]

/-- The lines that are printed for texts can be told apart, since none of them has a line break in
it. -/
theorem splitOn_runBatch (options : Options) (texts : List String) :
    (runBatch options texts).2.toList.splitOn '\n' =
      (texts.map fun text => (rendered options.json (answer options.limits text)).toList) ++
        [[]] := by
  induction texts with
  | nil => rfl
  | cons text texts ih =>
    have hline : ∀ c ∈ (rendered options.json (answer options.limits text)).toList,
        (c == '\n') = false := by
      intro c hc
      rw [beq_eq_false_iff_ne]
      rintro rfl
      have hspace := onlySpaces_rendered options.json options.limits text '\n' hc rfl
      cases hspace
    rw [runBatch_cons, List.map_cons, List.cons_append, ← ih, String.toList_append, answerLine,
      String.toList_append, List.append_assoc]
    exact List.splitOnP_append_cons_of_forall_mem hline '\n' rfl _

/-- Texts have values if and only if each of them has one. -/
theorem runBatch_ok_iff (options : Options) (texts : List String) :
    (runBatch options texts).1 = true ↔
      ∀ text ∈ texts, ∃ x, answer options.limits text = .ok x := by
  induction texts with
  | nil => exact iff_of_true rfl nofun
  | cons text texts ih =>
    rw [runBatch_cons, Bool.and_eq_true, List.forall_mem_cons, ih]
    refine and_congr_left fun _ => ?_
    cases answer options.limits text with
    | ok x => exact iff_of_true rfl ⟨x, rfl⟩
    | error e =>
      refine iff_of_false Bool.false_ne_true ?_
      rintro ⟨x, hx⟩
      cases hx

/-- **Every text of a batch is answered on a line of its own.** What is printed for texts is the
answer to each of them in order with a line break behind it, and nothing that a text can have in it
breaks a line: the only blanks in an answer are spaces, so the lines can be told apart again. The
batch succeeds if and only if every text has a value. As JSON each line is an object whose field
`success` says whether its text has a value; within the standard limits it is the outcome of the
text. -/
theorem runBatch_lines (options : Options) (texts : List String) :
    let lines := texts.map fun text => rendered options.json (answer options.limits text)
    (runBatch options texts).2 = String.join (lines.map (· ++ "\n")) ∧
    (runBatch options texts).2.toList.splitOn '\n' = lines.map String.toList ++ [[]] ∧
    (∀ line ∈ lines, ∀ c ∈ line.toList, isBlank c = true → c = ' ') ∧
    ((runBatch options texts).1 = true ↔
      ∀ text ∈ texts, ∃ x, answer options.limits text = .ok x) ∧
    (options.json = true → ∀ (i : Nat) (line : String), lines[i]? = some line →
      ∃ text members, texts[i]? = some text ∧ read? line = some (.object members) ∧
        (object members).fields? ["success"] =
          some [some (.bool (answer options.limits text).isOk)]) ∧
    (options.json = true → options.limits = .standard → lines = texts.map evaluateJson) := by
  intro lines
  refine ⟨?_, ?_, ?_, runBatch_ok_iff options texts, ?_, ?_⟩
  · rw [runBatch, List.map_map, List.map_map]
    rfl
  · rw [splitOn_runBatch, List.map_map]
    rfl
  · intro line hline
    obtain ⟨text, -, rfl⟩ := List.mem_map.mp hline
    exact onlySpaces_rendered options.json options.limits text
  · intro hjson i line hline
    rw [List.getElem?_map, Option.map_eq_some_iff] at hline
    obtain ⟨text, htext, rfl⟩ := hline
    obtain ⟨members, hread, hsuccess⟩ := exists_object_of_rendered options.limits text
    rw [hjson]
    exact ⟨text, members, htext, hread, hsuccess⟩
  · intro hjson hlimits
    refine List.map_congr_left fun text _ => ?_
    rw [hjson, hlimits]
    rfl

end Calculator
