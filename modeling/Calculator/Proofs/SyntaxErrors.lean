import Calculator.Proofs.Reader

/-!
# Where an error in the structure lies

A parse that no limit stops fails at the first token with which no expression can go on any more,
and the code of its error says what was due there: an operand, a closing parenthesis, or the end.
-/

namespace Calculator

/-- Some list of tokens that the grammar derives, with the end token behind it, starts with tokens
of these kinds. -/
def Viable (kinds : List TokenKind) : Prop :=
  ∃ ts e n, Derives .sum ts e n ∧ kinds <+: ts.map (·.kind) ++ [.endOfInput]

/-- Behind tokens of these kinds an operand is due: there is none yet, or the last one is neither a
number nor `)`. -/
def OperandDue (kinds : List TokenKind) : Prop :=
  kinds.getLast? ≠ some .number ∧ kinds.getLast? ≠ some .closeParen

/-- How many parentheses are open behind tokens of these kinds. -/
def openParens (kinds : List TokenKind) : Nat :=
  kinds.count .openParen - kinds.count .closeParen

namespace Situation

/-! ## The situation says what is due -/

/-- A token that may come next leaves an operand due unless it completes one, and counts with the
open parentheses. -/
theorem read_of_fault?_eq_none {σ : Situation} {t : Token} (h : σ.fault? t = none)
    (ht : t.kind ≠ .endOfInput) :
    ((σ.read t.kind).due = true ↔ t.kind ≠ .number ∧ t.kind ≠ .closeParen) ∧
    (σ.read t.kind).outer.length + [t.kind].count .closeParen =
      σ.outer.length + [t.kind].count .openParen := by
  obtain ⟨due, inner, outer⟩ := σ
  cases due <;> cases hk : t.kind <;>
    simp [fault?, hk, read, readDue, readComplete, completed, Category.continues,
      Operator.ofSumKind?, Operator.ofProductKind?] at h ht ⊢
  -- what is left: no `(` may follow a complete operand, and `)` may in a group only
  · cases outer <;> simp at h
  · cases outer with
    | nil => simp at h
    | cons g outer => exact ⟨rfl, rfl⟩

/-- A situation that says what is due behind `kinds` still says it behind more tokens that may all
come next. -/
theorem after_of_kinds {σ : Situation} (kinds : List TokenKind) {ts : List Token}
    (hdue : σ.due = true ↔ OperandDue kinds)
    (hopen : σ.outer.length + kinds.count .closeParen = kinds.count .openParen)
    (h : σ.Passes ts) (hts : ∀ t ∈ ts, t.kind ≠ .endOfInput) :
    ((σ.after ts).due = true ↔ OperandDue (kinds ++ ts.map (·.kind))) ∧
    (σ.after ts).outer.length + (kinds ++ ts.map (·.kind)).count .closeParen =
      (kinds ++ ts.map (·.kind)).count .openParen := by
  induction ts generalizing σ kinds with
  | nil => simpa using ⟨hdue, hopen⟩
  | cons t ts ih =>
    obtain ⟨hdue', hopen'⟩ := read_of_fault?_eq_none h.1 (hts t List.mem_cons_self)
    rw [after_cons, List.map_cons, List.append_cons]
    refine ih _ ?_ ?_ h.2 fun u hu => hts u (List.mem_cons_of_mem _ hu)
    · rw [hdue', OperandDue, List.getLast?_concat]
      simp
    · rw [List.count_append, List.count_append]
      omega

/-- Behind tokens that may all come next, the situation says whether an operand is due and how many
parentheses are open. -/
theorem after_start {ts : List Token} (h : start.Passes ts) (hts : ∀ t ∈ ts, t.kind ≠ .endOfInput) :
    ((start.after ts).due = true ↔ OperandDue (ts.map (·.kind))) ∧
    (start.after ts).outer.length = openParens (ts.map (·.kind)) := by
  obtain ⟨hdue, hopen⟩ := after_of_kinds [] (by simp [start, OperandDue]) rfl h hts
  rw [List.nil_append] at hdue hopen
  exact ⟨hdue, by rw [openParens]; omega⟩

/-! ## Tokens that may all come next can be completed -/

/-- A number. -/
def numberToken : Token :=
  ⟨.number, "0", some (.integer 0), ⟨0, 1⟩⟩

/-- A closing parenthesis. -/
def closeToken : Token :=
  ⟨.closeParen, ")", none, ⟨0, 1⟩⟩

/-- As many closing parentheses as there are groups around lead out of all of them. -/
theorem passes_closing (inner : Group) (outer : List Group) :
    Passes ⟨false, inner, outer⟩ (List.replicate outer.length closeToken) ∧
    ∃ g, after ⟨false, inner, outer⟩ (List.replicate outer.length closeToken) = ⟨false, g, []⟩ := by
  induction outer generalizing inner with
  | nil => exact ⟨trivial, inner, rfl⟩
  | cons g outer ih =>
    rw [List.length_cons, List.replicate_succ]
    exact ⟨⟨rfl, (ih _).1⟩, (ih _).2⟩

/-- Outside of all parentheses the end may follow a complete operand. -/
theorem fault?_endOfInput {g : Group} {stop : Token} (hstop : stop.kind = .endOfInput) :
    fault? ⟨false, g, []⟩ stop = none := by
  simp [fault?, hstop, Category.continues, Operator.ofSumKind?, Operator.ofProductKind?]

/-- Every situation can be brought to the end of an expression. -/
theorem exists_completion (σ : Situation) :
    ∃ us, (∀ t ∈ us, t.kind ≠ .endOfInput) ∧ σ.Passes us ∧
      ∀ stop : Token, stop.kind = .endOfInput → (σ.after us).fault? stop = none := by
  obtain ⟨due, inner, outer⟩ := σ
  have hclosing : ∀ t ∈ List.replicate outer.length closeToken, t.kind ≠ .endOfInput := by
    intro t ht
    rw [List.eq_of_mem_replicate ht]
    nofun
  cases due with
  | false =>
    obtain ⟨hpasses, g, hafter⟩ := passes_closing inner outer
    refine ⟨_, hclosing, hpasses, fun stop hstop => ?_⟩
    rw [hafter]
    exact fault?_endOfInput hstop
  | true =>
    obtain ⟨hpasses, g, hafter⟩ := passes_closing ⟨inner.exponents, 0⟩ outer
    refine ⟨numberToken :: _, List.forall_mem_cons.mpr ⟨nofun, hclosing⟩, ⟨rfl, hpasses⟩,
      fun stop hstop => ?_⟩
    have hnumber : read ⟨true, inner, outer⟩ numberToken.kind =
        ⟨false, ⟨inner.exponents, 0⟩, outer⟩ := rfl
    rw [after_cons, hnumber, hafter]
    exact fault?_endOfInput hstop

/-- Tokens that may all come next can be completed to an expression. -/
theorem viable_of_passes {ts : List Token} (h : start.Passes ts)
    (hts : ∀ t ∈ ts, t.kind ≠ .endOfInput) : Viable (ts.map (·.kind)) := by
  obtain ⟨us, hus, hpasses, hend⟩ := exists_completion (start.after ts)
  have hall : ∀ t ∈ ts ++ us, t.kind ≠ .endOfInput := by
    intro t ht
    exact (List.mem_append.mp ht).elim (hts t) (hus t)
  have hreader : start.failure? (1 + (ts ++ us).length) (.endOfInput 0) (ts ++ us) = none :=
    failure?_eq_none (passes_append.mpr ⟨h, hpasses⟩)
      (by rw [after_append]; exact hend _ rfl) (Nat.le_refl _)
  rcases Parse.whole_outcome (1 + (ts ++ us).length) (.endOfInput 0) rfl hall with
    ⟨e, n, -, hderives, -, -⟩ | ⟨err, ws, -, herr⟩
  · refine ⟨ts ++ us, e, n, hderives, ?_⟩
    rw [List.map_append, List.append_assoc]
    exact List.prefix_append _ _
  · rw [hreader] at herr
    cases herr

/-! ## A token that may not come next cannot -/

/-- A token whose value is not missing may come next where one of its kind may. -/
theorem fault?_eq_none_of_kind {σ : Situation} {t u : Token} (hk : t.kind = u.kind)
    (hvalue : t.kind = .number → t.value.isSome = true) (hu : σ.fault? u = none) :
    σ.fault? t = none := by
  by_cases hnumber : t.kind = .number
  · cases hdue : σ.due with
    | false => simpa only [fault?, hdue, hk, Bool.false_eq_true, if_false] using hu
    | true => rw [fault?_number hdue hnumber, if_pos (hvalue hnumber)]
  · rw [← hu]
    cases hkind : u.kind <;> simp_all [fault?]

/-- The situation depends on the kinds of the tokens before it. -/
theorem after_congr {σ : Situation} {ts us : List Token}
    (h : ts.map (·.kind) = us.map (·.kind)) : σ.after ts = σ.after us := by
  rw [after, after, h]

/-- No expression starts with tokens of which the last may not come next. -/
theorem not_viable_of_fault {ts : List Token} {t : Token} {f : Fault}
    (hvalue : t.kind = .number → t.value.isSome = true) (h : (start.after ts).fault? t = some f) :
    ¬ Viable ((ts ++ [t]).map (·.kind)) := by
  rintro ⟨us, e, n, hderives, rest, hrest⟩
  have hpasses := passes_of_derives hderives (.endOfInput 0) rfl
  -- cut the derived tokens where `ts` ends; the token `u` there has the kind of `t`
  have hmap : (us ++ [Token.endOfInput 0]).map (·.kind) = ts.map (·.kind) ++ t.kind :: rest := by
    simpa [Token.endOfInput] using hrest.symm
  obtain ⟨before, behind, hcut, hbefore, hbehind⟩ := List.map_eq_append_iff.mp hmap
  obtain ⟨u, behind, rfl, hu, -⟩ := List.map_eq_cons_iff.mp hbehind
  rw [hcut, passes_append, after_congr hbefore] at hpasses
  rw [fault?_eq_none_of_kind hu.symm hvalue hpasses.2.1] at h
  cases h

/-! ## The code of a fault says what was due -/

/-- What is wrong with a token, if no value is missing: an operand is due, or the parenthesis is not
closed, or the end is due. -/
theorem fault?_eq_some {σ : Situation} {t : Token} {f : Fault}
    (hvalue : t.kind = .number → t.value.isSome = true) (h : σ.fault? t = some f) :
    f = if σ.due = true then .operandExpected
      else if 0 < σ.outer.length then .unclosedParen else .trailingInput := by
  cases hdue : σ.due with
  | true => cases hk : t.kind <;> simp_all [fault?]
  | false =>
    simp only [fault?, hdue, Bool.false_eq_true, if_false] at h ⊢
    split at h
    · cases h
    · cases houter : σ.outer with
      | nil =>
        simp only [houter] at h
        split at h <;> cases h
        rfl
      | cons g outer =>
        simp only [houter] at h
        split at h <;> cases h
        rfl

/-- The three codes tell the three cases apart. -/
theorem code_eq_iff (due : Prop) [Decidable due] (opened : Nat) {f : Fault}
    (hf : f = if due then .operandExpected
      else if 0 < opened then .unclosedParen else .trailingInput) :
    (f.code = .unexpectedToken ↔ due) ∧ (f.code = .unclosedParen ↔ ¬ due ∧ 0 < opened) ∧
      (f.code = .trailingInput ↔ ¬ due ∧ opened = 0) := by
  by_cases hdue : due
  · rw [hf, if_pos hdue]
    exact ⟨⟨fun _ => hdue, fun _ => rfl⟩, ⟨nofun, fun h => absurd hdue h.1⟩,
      ⟨nofun, fun h => absurd hdue h.1⟩⟩
  · by_cases hopen : 0 < opened
    · rw [hf, if_neg hdue, if_pos hopen]
      exact ⟨⟨nofun, fun h => absurd h hdue⟩, ⟨fun _ => ⟨hdue, hopen⟩, fun _ => rfl⟩,
        ⟨nofun, fun h => absurd hopen (by omega)⟩⟩
    · rw [hf, if_neg hdue, if_neg hopen]
      exact ⟨⟨nofun, fun h => absurd h hdue⟩, ⟨nofun, fun h => absurd h.2 hopen⟩,
        ⟨fun _ => ⟨hdue, by omega⟩, fun _ => rfl⟩⟩

end Situation

/-- An error lies at the first token with which no expression can go on, which is the token `t` at
the index `i`, and its code says what is due there: an operand; or, where an operand is complete, a
closing parenthesis if one is open and the end if none is. -/
structure LiesAtDeadEnd (tokens : List Token) (err : StructuralError) (i : Nat) (t : Token) :
    Prop where
  token : tokens[i]? = some t
  dead : ¬ Viable ((tokens.take (i + 1)).map (·.kind))
  alive : ∀ j < i, Viable ((tokens.take (j + 1)).map (·.kind))
  position : err.position = t.position
  found : err.found = t.lexeme
  unexpected : err.code = .unexpectedToken ↔ OperandDue ((tokens.take i).map (·.kind))
  unclosed : err.code = .unclosedParen ↔
    ¬ OperandDue ((tokens.take i).map (·.kind)) ∧ 0 < openParens ((tokens.take i).map (·.kind))
  trailing : err.code = .trailingInput ↔
    ¬ OperandDue ((tokens.take i).map (·.kind)) ∧ openParens ((tokens.take i).map (·.kind)) = 0

/-- A fault behind tokens that may all come next lies at a dead end. -/
theorem liesAtDeadEnd_of_fault {before rest : List Token} {t : Token} {f : Fault}
    (hpasses : Situation.start.Passes before) (hbefore : ∀ t ∈ before, t.kind ≠ .endOfInput)
    (hvalue : t.kind = .number → t.value.isSome = true)
    (hfault : (Situation.start.after before).fault? t = some f) :
    LiesAtDeadEnd (before ++ t :: rest) (f.errorAt t) before.length t := by
  obtain ⟨hdue, hopen⟩ := Situation.after_start hpasses hbefore
  obtain ⟨hunexpected, hunclosed, htrailing⟩ :=
    Situation.code_eq_iff _ _ (Situation.fault?_eq_some hvalue hfault)
  rw [hdue] at hunexpected hunclosed htrailing
  rw [hopen] at hunclosed htrailing
  have htake : (before ++ t :: rest).take before.length = before := List.take_left
  have hcut : (before ++ t :: rest).take (before.length + 1) = before ++ [t] := by
    rw [List.append_cons]
    exact List.take_left' (by simp)
  refine ⟨?_, ?_, fun j hj => ?_, rfl, rfl, ?_, ?_, ?_⟩
  · rw [List.getElem?_append_right (Nat.le_refl _), Nat.sub_self]
    rfl
  · rw [hcut]
    exact Situation.not_viable_of_fault hvalue hfault
  · rw [List.take_append_of_le_length (by omega)]
    rw [← List.take_append_drop (j + 1) before, Situation.passes_append] at hpasses
    exact Situation.viable_of_passes hpasses.1 fun t ht => hbefore t (List.mem_of_mem_take ht)
  · rw [htake]
    exact hunexpected
  · rw [htake]
    exact hunclosed
  · rw [htake]
    exact htrailing

/-- A list with one token more is the tokens before `behind`, the first token of `behind` or else
the last one, and a rest. -/
theorem exists_append_headD (before behind : List Token) (stop : Token) :
    ∃ rest, before ++ behind ++ [stop] = before ++ behind.headD stop :: rest := by
  cases behind with
  | nil => exact ⟨[], by rw [List.append_nil]; rfl⟩
  | cons t behind => exact ⟨behind ++ [stop], by rw [List.append_assoc]; rfl⟩

/-- **An error in the structure lies where no expression can go on.** Let the only end token of a
list be its last token, let no number lack its value, and let the limit exceed the number of tokens.
If the parse fails, its error lies at the first token with which no expression can go on. -/
theorem syntax_error_exact (limit : Nat) {ts : List Token} {stop : Token} {err : StructuralError}
    (hstop : stop.kind = .endOfInput) (hts : ∀ t ∈ ts, t.kind ≠ .endOfInput)
    (hvalue : ∀ t ∈ ts, t.kind = .number → t.value.isSome = true)
    (hlimit : (ts ++ [stop]).length < limit) (h : parse limit (ts ++ [stop]) = .error err) :
    ∃ i t, LiesAtDeadEnd (ts ++ [stop]) err i t := by
  obtain ⟨hbefore, hend⟩ := beforeEnd_append hstop hts
  obtain ⟨us, hreader⟩ := parse_eq_error_iff.mp h
  rw [hbefore, hend] at hreader
  rw [List.length_append, List.length_singleton] at hlimit
  have hlevel : Situation.start.level + ts.length ≤ limit := by
    rw [show Situation.start.level = 1 from rfl]
    omega
  obtain ⟨before, behind, f, rfl, hpasses, hfault, rfl⟩ :=
    Situation.exists_fault_of_failure? hlevel hreader
  obtain ⟨rest, hrest⟩ := exists_append_headD before behind stop
  rw [hrest]
  refine ⟨_, _, liesAtDeadEnd_of_fault hpasses (fun t ht => hts t (List.mem_append_left _ ht)) ?_
    hfault⟩
  cases behind with
  | nil =>
    intro hnumber
    rw [List.headD_nil, hstop] at hnumber
    cases hnumber
  | cons t behind => exact hvalue t (by simp)

/-- `(2^-3 4` lacks a closing parenthesis at its last number. -/
theorem syntax_error_exact_unclosed :
    let tokens : List Token :=
      [⟨.openParen, "(", none, ⟨0, 1⟩⟩, ⟨.number, "2", some (.integer 2), ⟨1, 2⟩⟩,
        ⟨.caret, "^", none, ⟨2, 3⟩⟩, ⟨.minus, "-", none, ⟨3, 4⟩⟩,
        ⟨.number, "3", some (.integer 3), ⟨4, 5⟩⟩, ⟨.number, "4", some (.integer 4), ⟨6, 7⟩⟩]
    let err : StructuralError := ⟨.unclosedParen, "expected ')' after expression", "4", 6⟩
    parse 8 (tokens ++ [.endOfInput 7]) = .error err ∧
      ∃ i t, LiesAtDeadEnd (tokens ++ [.endOfInput 7]) err i t :=
  ⟨rfl, syntax_error_exact 8 rfl (by decide) (by decide) (by decide) rfl⟩

end Calculator
