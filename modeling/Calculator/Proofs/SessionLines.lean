import Calculator.Proofs.SurroundingBlanks
import Calculator.Session
import Mathlib

/-!
# The lines of a session

A session is its lines: what it prints is a turn for each line, from the prompt on, and a turn
depends on its line alone. The first line that asks to quit ends the session, and without one the
end of the input does.
-/

namespace Calculator.Session

/-! ## Cutting a text into lines -/

/-- The text is cut behind each line feed into the given lines. What is left behind the last line
feed is a line too, unless it is empty. -/
inductive CutsInto : List Char → List (List Char) → Prop where
  | nil : CutsInto [] []
  | unended {line : List Char} : line ≠ [] → '\n' ∉ line → CutsInto line [line]
  | ended {line text : List Char} {lines : List (List Char)} :
      '\n' ∉ line → CutsInto text lines →
      CutsInto (line ++ '\n' :: text) ((line ++ ['\n']) :: lines)

/-- A line feed in front of a text is a line. -/
theorem linesOf_lineFeed (text : List Char) : linesOf ('\n' :: text) = ['\n'] :: linesOf text := by
  rw [linesOf, List.foldr_cons, if_pos rfl]
  rfl

/-- Any other character in front of a text belongs to its first line. -/
theorem linesOf_cons {c : Char} (hc : c ≠ '\n') (text : List Char) :
    linesOf (c :: text) = match linesOf text with
      | [] => [[c]]
      | line :: rest => (c :: line) :: rest := by
  rw [linesOf, List.foldr_cons, if_neg hc]
  rfl

/-- The lines of a text are what it is cut into. -/
theorem cutsInto_linesOf (text : List Char) : CutsInto text (linesOf text) := by
  induction text with
  | nil => exact .nil
  | cons c text ih =>
    by_cases hc : c = '\n'
    · subst hc
      rw [linesOf_lineFeed]
      exact @CutsInto.ended [] _ _ List.not_mem_nil ih
    · have hnot {line : List Char} (hline : '\n' ∉ line) : '\n' ∉ c :: line :=
        List.not_mem_cons_of_ne_of_not_mem (Ne.symm hc) hline
      rw [linesOf_cons hc]
      generalize linesOf text = lines at ih
      cases ih with
      | nil => exact .unended (List.cons_ne_nil _ _) (hnot List.not_mem_nil)
      | unended _ hline => exact .unended (List.cons_ne_nil _ _) (hnot hline)
      | ended hline hrest => exact .ended (hnot hline) hrest

/-- A text in front of a line feed is a line. -/
theorem linesOf_append_lineFeed {line : List Char} (h : '\n' ∉ line) (text : List Char) :
    linesOf (line ++ '\n' :: text) = (line ++ ['\n']) :: linesOf text := by
  induction line with
  | nil => exact linesOf_lineFeed text
  | cons c line ih =>
    obtain ⟨hc, hline⟩ := List.ne_and_not_mem_of_not_mem_cons h
    rw [List.cons_append, linesOf_cons (Ne.symm hc), ih hline]
    rfl

/-- A text without a line feed is a line, unless it is empty. -/
theorem linesOf_of_not_mem {line : List Char} (hne : line ≠ []) (h : '\n' ∉ line) :
    linesOf line = [line] := by
  induction line with
  | nil => exact absurd rfl hne
  | cons c line ih =>
    obtain ⟨hc, hline⟩ := List.ne_and_not_mem_of_not_mem_cons h
    rw [linesOf_cons (Ne.symm hc)]
    cases line with
    | nil => rfl
    | cons d ds => rw [ih (List.cons_ne_nil _ _) hline]

/-- A text is cut into its lines and nothing else. -/
theorem cutsInto_iff {text : List Char} {lines : List (List Char)} :
    CutsInto text lines ↔ lines = linesOf text := by
  constructor
  · intro h
    induction h with
    | nil => rfl
    | unended hne hline => exact (linesOf_of_not_mem hne hline).symm
    | ended hline _ ih => rw [linesOf_append_lineFeed hline, ih]
  · rintro rfl
    exact cutsInto_linesOf text

/-! ## Asking to quit -/

/-- The text is the word, with each of its letters either small or large. -/
def Spells (word text : List Char) : Prop :=
  List.Forall₂ (fun d c => c = d ∨ c = d.toUpper) word text

/-- Whether a line, without the blanks around it, asks to end the session. -/
def AsksToEnd (line : List Char) : Prop :=
  Spells "quit".toList (trim line) ∨ Spells "exit".toList (trim line)

/-- A small letter is made from itself and from its large form, and from no other character. -/
theorem toLower_eq_iff {c d : Char} (hd : d.isLower = true) :
    c.toLower = d ↔ c = d ∨ c = d.toUpper := by
  constructor
  · rintro rfl
    by_cases hc : c.isUpper = true
    · refine .inr ?_
      rw [Char.toUpper_toLower_eq_toUpper,
        Char.toUpper_eq_of_not_isLower (Char.not_isLower_of_isUpper hc)]
    · exact .inl (Char.toLower_eq_of_not_isUpper hc).symm
  · have hsame : d.toLower = d :=
      Char.toLower_eq_of_not_isUpper (Char.not_isUpper_of_isLower hd)
    rintro (rfl | rfl)
    · exact hsame
    · rw [Char.toLower_toUpper_eq_toLower, hsame]

/-- A text is made to a word of small letters exactly if it spells the word. -/
theorem map_toLower_eq_iff {word text : List Char} (hword : word.all Char.isLower = true) :
    text.map Char.toLower = word ↔ Spells word text := by
  induction word generalizing text with
  | nil => rw [Spells, List.map_eq_nil_iff, List.forall₂_nil_left_iff]
  | cons d ds ih =>
    rw [List.all_cons, Bool.and_eq_true] at hword
    obtain ⟨hd, hds⟩ := hword
    cases text with
    | nil => exact iff_of_false nofun nofun
    | cons c cs =>
      rw [Spells, List.forall₂_cons, ← toLower_eq_iff hd, ← Spells, ← ih hds, List.map_cons,
        List.cons_eq_cons]

/-- The two words that end a session are compared without regard to the case of letters. -/
theorem asksToQuit_trim_iff (line : List Char) :
    asksToQuit (trim line) = true ↔ AsksToEnd line := by
  have hquit : (trim line).map Char.toLower = "quit".toList ↔ Spells "quit".toList (trim line) :=
    map_toLower_eq_iff rfl
  have hexit : (trim line).map Char.toLower = "exit".toList ↔ Spells "exit".toList (trim line) :=
    map_toLower_eq_iff rfl
  rw [AsksToEnd, ← hquit, ← hexit, asksToQuit]
  simp only [Bool.or_eq_true, beq_iff_eq, ← String.toList_inj, String.toList_ofList]

/-- A line that asks to end the session is not blank. -/
theorem AsksToEnd.trim_ne_nil {line : List Char} (h : AsksToEnd line) : trim line ≠ [] := by
  intro hnil
  rw [AsksToEnd, hnil] at h
  rcases h with h | h <;> cases h

/-! ## Turns -/

/-- What a session prints from the prompt for a line that does not end it until the next prompt:
nothing more for a blank line, and else the answer to the line without the blanks around it. -/
def turn (options : Options) (line : List Char) : String :=
  if trim line = [] then prompt
  else prompt ++ (rendered options.json (answer options.limits (String.ofList (trim line))) ++ "\n")

/-- There is no reply to a line that asks to end the session. -/
theorem reply?_of_asksToEnd {line : List Char} (h : AsksToEnd line) (options : Options) :
    reply? options line = none := by
  have hnonempty : (trim line).isEmpty = false :=
    Bool.eq_false_iff.mpr fun hempty => h.trim_ne_nil (List.isEmpty_iff.mp hempty)
  rw [reply?, hnonempty, (asksToQuit_trim_iff line).mpr h]
  rfl

/-- The reply to any other line is its turn. -/
theorem exists_reply?_of_not_asksToEnd {line : List Char} (h : ¬ AsksToEnd line)
    (options : Options) :
    ∃ reply, reply? options line = some reply ∧ prompt ++ reply = turn options line := by
  have hquit : asksToQuit (trim line) = false :=
    Bool.eq_false_iff.mpr fun hasks => h ((asksToQuit_trim_iff line).mp hasks)
  rw [reply?, hquit, turn]
  by_cases hblank : trim line = []
  · rw [if_pos hblank]
    exact ⟨"", by rw [hblank]; rfl, String.append_empty⟩
  · rw [if_neg hblank]
    refine ⟨_, ?_, rfl⟩
    rw [if_neg (mt List.isEmpty_iff.mp hblank), if_neg Bool.false_ne_true, answerLine]

/-! ## The whole session -/

/-- What is printed for lines that do not end a session are their turns, and the session goes on
behind them. -/
theorem join_dialogue_append {before : List (List Char)} (h : ∀ line ∈ before, ¬ AsksToEnd line)
    (options : Options) (lines : List (List Char)) :
    String.join (dialogue options (before ++ lines)) =
      String.join (before.map (turn options)) ++ String.join (dialogue options lines) := by
  induction before with
  | nil => exact String.empty_append.symm
  | cons line before ih =>
    obtain ⟨hline, hbefore⟩ := List.forall_mem_cons.mp h
    obtain ⟨reply, hreply, hturn⟩ := exists_reply?_of_not_asksToEnd hline options
    rw [List.cons_append, dialogue, hreply]
    dsimp only
    rw [String.join_cons, String.join_cons, ih hbefore, List.map_cons, String.join_cons, ← hturn]
    simp only [String.append_assoc]

/-- A session without a line that asks to end it goes on to the end of its input. -/
theorem transcript_of_not_asksToEnd {input : String}
    (h : ∀ line ∈ linesOf input.toList, ¬ AsksToEnd line) (options : Options) :
    transcript options input =
      greeting ++ String.join ((linesOf input.toList).map (turn options)) ++ prompt ++ "\n" := by
  have hjoin := join_dialogue_append h options []
  rw [List.append_nil] at hjoin
  rw [transcript, String.join_cons, hjoin]
  simp only [String.append_assoc]
  rfl

/-- A session ends with the first line that asks to end it. -/
theorem transcript_of_asksToEnd {input : String} {before after : List (List Char)}
    {line : List Char} (hlines : linesOf input.toList = before ++ line :: after)
    (hbefore : ∀ line ∈ before, ¬ AsksToEnd line) (hline : AsksToEnd line) (options : Options) :
    transcript options input = greeting ++ String.join (before.map (turn options)) ++ prompt := by
  rw [transcript, String.join_cons, hlines, join_dialogue_append hbefore, dialogue,
    reply?_of_asksToEnd hline, String.append_assoc]
  rfl

/-- **A session is its lines.** The input is cut into lines in one way only. If none of them asks to
end the session, then the session prints its greeting, the turn of each line and a last prompt on a
line of its own. If one does, then the session prints its greeting, the turns of the lines before
the first such line and one more prompt, and nothing that follows matters. A line is answered
without the blanks at its ends, and an answer is the line that a batch prints for this text alone.
-/
theorem transcript_exact (options : Options) (input : String) :
    ∃ lines, (∀ ls, CutsInto input.toList ls ↔ ls = lines) ∧
      ((∀ line ∈ lines, ¬ AsksToEnd line) ∧
          transcript options input =
            greeting ++ String.join (lines.map (turn options)) ++ prompt ++ "\n" ∨
        ∃ before line after, lines = before ++ line :: after ∧
          (∀ line ∈ before, ¬ AsksToEnd line) ∧ AsksToEnd line ∧
          transcript options input =
            greeting ++ String.join (before.map (turn options)) ++ prompt) ∧
      ∀ line ∈ lines, TrimsTo line (trim line) ∧ turn options line =
        if trim line = [] then prompt
        else prompt ++ (runBatch options [String.ofList (trim line)]).2 := by
  refine ⟨linesOf input.toList, fun ls => cutsInto_iff, ?_, fun line _ => ⟨trimsTo_trim line, ?_⟩⟩
  · -- the first line that asks to end the session, if there is one
    cases hfind : (linesOf input.toList).find? fun line => asksToQuit (trim line) with
    | none =>
      have hnone : ∀ line ∈ linesOf input.toList, ¬ AsksToEnd line := fun line hline hasks =>
        List.find?_eq_none.mp hfind line hline ((asksToQuit_trim_iff line).mpr hasks)
      exact .inl ⟨hnone, transcript_of_not_asksToEnd hnone options⟩
    | some line =>
      obtain ⟨hasks, before, after, hlines, hnone⟩ := List.find?_eq_some_iff_append.mp hfind
      have hbefore : ∀ line ∈ before, ¬ AsksToEnd line := by
        intro line hline hasks
        have hnot := hnone line hline
        rw [(asksToQuit_trim_iff line).mpr hasks] at hnot
        cases hnot
      have hline := (asksToQuit_trim_iff line).mp hasks
      exact .inr ⟨before, line, after, hlines, hbefore, hline,
        transcript_of_asksToEnd hlines hbefore hline options⟩
  · rw [turn, runBatch]
    rfl

/-- Nothing behind the third line is answered. -/
example : transcript ⟨.standard, false⟩ "1+1\r\n\t\n Quit\n2+2" =
    greeting ++ ">>> = 2.0\n>>> >>> " := by
  decide +kernel

end Calculator.Session
