import Calculator.CommandLine
import Calculator.Proofs.BatchLines

/-!
# Options before the expressions

Whatever options stand before a `--`, in whatever order and form, each of them sets what it is there
for and nothing else, and what stands behind the `--` are expressions, whatever they look like. So a
command line of this kind answers its expressions line by line with the limits and in the format
that its options ask for.
-/

namespace Calculator.CommandLine

/-! ## Options -/

/-- The name of an option that takes a number. -/
def DepthOption.name : DepthOption → String
  | nesting => "max-depth"
  | evaluation => "max-eval-depth"

/-- A number as it is written in an argument: the text is read as the value. -/
structure WrittenNumber where
  text : String
  value : Nat
  number?_text : number? text = some value

/-- The digits of a number of 64 bits are read as the number. -/
theorem number?_repr {n : Nat} (hn : n < 2 ^ 64) : number? (Nat.repr n) = some n := by
  have htext : (Nat.repr n).toList = decimalDigits n := by
    rw [Nat.repr_eq_ofList_toDigits, String.toList_ofList]
    rfl
  have hdigit : ∀ c ∈ decimalDigits n, c.isDigit = true := fun c => isDigit_of_mem_decimalDigits
  have hempty : (decimalDigits n).isEmpty = false :=
    List.isEmpty_eq_false_iff.mpr (Json.decimalDigits_ne_nil n)
  simp only [number?, htext]
  split
  · next cs hplus =>
    -- digits start with no sign
    rw [hplus] at hdigit
    cases hdigit '+' List.mem_cons_self
  · rw [hempty, List.all_eq_true.mpr hdigit, digitsValue_decimalDigits, if_pos hn]
    rfl

/-- A number of 64 bits written in its digits. -/
def WrittenNumber.ofNat (n : Nat) (hn : n < 2 ^ 64) : WrittenNumber :=
  ⟨Nat.repr n, n, number?_repr hn⟩

/-- An option that may be given before the expressions: the one for JSON, the one for logs, whose
letter may be repeated, and the ones for the two limits, with the number in an argument of its own
or behind an equals sign. -/
inductive GivenOption where
  | json
  | verbose (more : Nat)
  | depth (option : DepthOption) (number : WrittenNumber) (joined : Bool)

namespace GivenOption

/-- The arguments that give an option. -/
def arguments : GivenOption → List String
  | json => ["--json"]
  | verbose more => [String.ofList ('-' :: 'v' :: List.replicate more 'v')]
  | depth option number false => ["--" ++ option.name, number.text]
  | depth option number true => ["--" ++ option.name ++ "=" ++ number.text]

/-- The name of an option that may be given only once. -/
def once? : GivenOption → Option String
  | json => some "json"
  | verbose _ => none
  | depth option _ _ => some option.name

/-- Whether an option asks for JSON. -/
def isJson : GivenOption → Bool
  | json => true
  | _ => false

/-- The number that an option gives for a limit, if it is the option for this limit. -/
def limit? (limit : DepthOption) : GivenOption → Option Nat
  | depth option number _ => if option = limit then some number.value else none
  | _ => none

/-- How often an option asks for more in the logs. -/
def verbosity : GivenOption → Nat
  | verbose more => more + 1
  | _ => 0

/-- What is asked for with one more option. -/
def addTo (o : GivenOption) (i : Invocation) : Invocation :=
  { i with
    json := i.json || o.isJson
    maxDepth := i.maxDepth.or (o.limit? .nesting)
    maxEvalDepth := i.maxEvalDepth.or (o.limit? .evaluation)
    verbosity := i.verbosity + o.verbosity }

/-- Whether an option may still be given. -/
def FreeIn (i : Invocation) : GivenOption → Prop
  | json => i.json = false
  | verbose _ => True
  | depth .nesting _ _ => i.maxDepth = none
  | depth .evaluation _ _ => i.maxEvalDepth = none

/-- An option leaves those free that have another name or may be given more than once. -/
theorem freeIn_addTo {i : Invocation} {o o' : GivenOption} (hfree : o'.FreeIn i)
    (hname : ∀ name ∈ o.once?, o'.once? ≠ some name) : o'.FreeIn (o.addTo i) := by
  cases o' with
  | json =>
    have hi : i.json = false := hfree
    have ho : o.isJson = false := by
      cases o with
      | json => exact absurd rfl (hname _ rfl)
      | _ => rfl
    exact Bool.or_eq_false_iff.mpr ⟨hi, ho⟩
  | verbose => trivial
  | depth limit =>
    have ho : o.limit? limit = none := by
      cases o with
      | depth option =>
        refine if_neg ?_
        rintro rfl
        exact hname _ rfl rfl
      | _ => rfl
    cases limit with
    | nesting =>
      have hi : i.maxDepth = none := hfree
      exact Option.or_eq_none_iff.mpr ⟨hi, ho⟩
    | evaluation =>
      have hi : i.maxEvalDepth = none := hfree
      exact Option.or_eq_none_iff.mpr ⟨hi, ho⟩

end GivenOption

/-! ## Reading options -/

/-- A letter that asks for more in the logs may be repeated. -/
theorem letters_replicate (i : Invocation) (k : Nat) :
    letters i (List.replicate k 'v') = .ok { i with verbosity := i.verbosity + k } := by
  induction k generalizing i with
  | zero => rfl
  | succ k ih =>
    rw [List.replicate_succ, letters, ih, Nat.add_assoc, Nat.add_comm 1]

/-- A limit is set that is not set yet. -/
theorem setDepth?_eq {i : Invocation} {option : DepthOption} {number : WrittenNumber}
    {joined : Bool} (hfree : (GivenOption.depth option number joined).FreeIn i) :
    setDepth? option number.text i = some ((GivenOption.depth option number joined).addTo i) := by
  obtain ⟨selfTest, json, maxDepth, maxEvalDepth, verbosity, expressions⟩ := i
  cases option with
  | nesting =>
    obtain rfl : maxDepth = none := hfree
    simp [setDepth?, number.number?_text, GivenOption.addTo, GivenOption.isJson,
      GivenOption.limit?, GivenOption.verbosity]
  | evaluation =>
    obtain rfl : maxEvalDepth = none := hfree
    simp [setDepth?, number.number?_text, GivenOption.addTo, GivenOption.isJson,
      GivenOption.limit?, GivenOption.verbosity]

/-- The name of an option that takes a number is the name of this one. -/
theorem ofName?_name (option : DepthOption) :
    DepthOption.ofName? option.name.toList = some option := by
  cases option <;> rfl

/-- An option that takes a number, with the number in an argument of its own. -/
theorem ofString_name (option : DepthOption) :
    Argument.ofString ("--" ++ option.name) = .named option.name.toList none := by
  cases option <;> rfl

/-- An option that takes a number, with the number behind an equals sign. -/
theorem ofString_name_append (option : DepthOption) (text : String) :
    Argument.ofString ("--" ++ option.name ++ "=" ++ text) =
      .named option.name.toList (some text.toList) := by
  rw [Argument.ofString, String.toList_append, String.toList_append]
  cases option <;> rfl

/-- An option is read: it sets what it is there for and nothing else. -/
theorem readFrom_arguments {i : Invocation} {o : GivenOption} (hfree : o.FreeIn i)
    (rest : List String) : readFrom i (o.arguments ++ rest) = readFrom (o.addTo i) rest := by
  cases o with
  | json =>
    have hform : Argument.ofString "--json" = .named "json".toList none := rfl
    have hname : DepthOption.ofName? "json".toList = none := rfl
    have hflag : flag i "json".toList = .ok (GivenOption.json.addTo i) := by
      obtain ⟨selfTest, json, maxDepth, maxEvalDepth, verbosity, expressions⟩ := i
      obtain rfl : json = false := hfree
      simp [flag, GivenOption.addTo, GivenOption.isJson, GivenOption.limit?,
        GivenOption.verbosity]
    rw [GivenOption.arguments, List.singleton_append, readFrom, hform]
    simp only [hname, hflag]
  | verbose more =>
    have hform : Argument.ofString (String.ofList ('-' :: 'v' :: List.replicate more 'v')) =
        .cluster (List.replicate (more + 1) 'v') := by
      rw [Argument.ofString, String.toList_ofList]
      rfl
    rw [GivenOption.arguments, List.singleton_append, readFrom, hform]
    simp only [letters_replicate]
    simp [GivenOption.addTo, GivenOption.isJson, GivenOption.limit?, GivenOption.verbosity]
  | depth option number joined =>
    have hset := setDepth?_eq hfree
    cases joined with
    | false =>
      rw [GivenOption.arguments, List.cons_append, readFrom, ofString_name]
      simp only [ofName?_name, List.singleton_append, hset]
    | true =>
      rw [GivenOption.arguments, List.singleton_append, readFrom, ofString_name_append]
      simp only [ofName?_name, String.ofList_toList, hset]

/-- What stands behind two dashes are expressions. -/
theorem readFrom_separator (i : Invocation) (texts : List String) :
    readFrom i ("--" :: texts) = .run { i with expressions := i.expressions ++ texts } := by
  have hform : Argument.ofString "--" = .separator := rfl
  rw [readFrom, hform]

/-- Options are read one after the other. -/
theorem readFrom_options {i : Invocation} {options : List GivenOption}
    (hfree : ∀ o ∈ options, o.FreeIn i)
    (honce : (options.filterMap GivenOption.once?).Nodup) (rest : List String) :
    readFrom i (options.flatMap GivenOption.arguments ++ rest) =
      readFrom (options.foldl (fun i o => o.addTo i) i) rest := by
  induction options generalizing i with
  | nil => rfl
  | cons o options ih =>
    rw [List.forall_mem_cons] at hfree
    have hother : ∀ o' ∈ options, ∀ name ∈ o.once?, o'.once? ≠ some name := by
      intro o' ho' name hname hsame
      rw [List.filterMap_cons_some hname, List.nodup_cons] at honce
      exact honce.1 (List.mem_filterMap.mpr ⟨o', ho', hsame⟩)
    have honce' : (options.filterMap GivenOption.once?).Nodup :=
      honce.sublist ((List.sublist_cons_self o options).filterMap _)
    rw [List.flatMap_cons, List.append_assoc, readFrom_arguments hfree.1, List.foldl_cons]
    exact ih (fun o' ho' => GivenOption.freeIn_addTo (hfree.2 o' ho') (hother o' ho')) honce'

/-- What is asked for with several options. -/
theorem foldl_addTo (options : List GivenOption) (i : Invocation) :
    options.foldl (fun i o => o.addTo i) i =
      { i with
        json := i.json || options.any (·.isJson)
        maxDepth := i.maxDepth.or (options.findSome? (·.limit? .nesting))
        maxEvalDepth := i.maxEvalDepth.or (options.findSome? (·.limit? .evaluation))
        verbosity := i.verbosity + (options.map (·.verbosity)).sum } := by
  induction options generalizing i with
  | nil => simp
  | cons o options ih =>
    have hfind : ∀ limit, (o :: options).findSome? (·.limit? limit) =
        (o.limit? limit).or (options.findSome? (·.limit? limit)) := by
      intro limit
      rw [List.findSome?_cons]
      cases o.limit? limit <;> rfl
    rw [List.foldl_cons, ih, hfind, hfind]
    simp [GivenOption.addTo, Bool.or_assoc, Option.or_assoc, Nat.add_assoc]

/-- What options and the expressions behind them ask for. -/
def invocationOf (options : List GivenOption) (texts : List String) : Invocation where
  selfTest := false
  json := options.any (·.isJson)
  maxDepth := options.findSome? (·.limit? .nesting)
  maxEvalDepth := options.findSome? (·.limit? .evaluation)
  verbosity := (options.map (·.verbosity)).sum
  expressions := texts

/-- Options that stand once, and the expressions behind them, are read as what they ask for. -/
theorem read_options {options : List GivenOption}
    (honce : (options.filterMap GivenOption.once?).Nodup) (texts : List String) :
    read (options.flatMap GivenOption.arguments ++ "--" :: texts) =
      .run (invocationOf options texts) := by
  have hfree : ∀ o ∈ options, o.FreeIn empty := by
    intro o _
    cases o with
    | depth option => cases option <;> rfl
    | _ => trivial
  rw [read, readFrom_options hfree honce, readFrom_separator, foldl_addTo]
  simp [invocationOf, empty]

/-- Expressions are answered line by line. -/
theorem batch?_eq {i : Invocation} (hself : i.selfTest = false) (hne : i.expressions ≠ []) :
    batch? i = some (if (runBatch (optionsOf i) i.expressions).1 then 0 else 1,
      (runBatch (optionsOf i) i.expressions).2) := by
  rw [batch?, hself, if_neg Bool.false_ne_true, if_neg (by rwa [List.isEmpty_iff])]

/-- **Options before expressions set the limits and the format, and nothing else.** Let options be
given in any order and form, each that may be given only once at most once, and behind them `--` and
one expression or more. Then the output is that of these expressions, line by line, with the limits
that are given, or else 256 and 1024, and as JSON if that is asked for. The exit code is 0 if every
expression has a value, and else 1. -/
theorem run_options {options : List GivenOption}
    (honce : (options.filterMap GivenOption.once?).Nodup) {texts : List String} (hne : texts ≠ [])
    (input : String) :
    let given : Options :=
      ⟨⟨(options.findSome? (·.limit? .nesting)).getD 256,
        (options.findSome? (·.limit? .evaluation)).getD 1024⟩, options.any (·.isJson)⟩
    ∃ code, run (options.flatMap GivenOption.arguments ++ "--" :: texts) input =
        (code, (runBatch given texts).2) ∧ (code = 0 ∨ code = 1) ∧
      (code = 0 ↔ ∀ text ∈ texts, ∃ x, answer given.limits text = .ok x) := by
  intro given
  have hgiven : optionsOf (invocationOf options texts) = given := rfl
  refine ⟨if (runBatch given texts).1 then 0 else 1, ?_, ?_, ?_⟩
  · rw [run, read_options honce]
    dsimp only
    rw [batch?_eq rfl hne, hgiven, Option.getD_some]
    rfl
  · split
    · exact .inl rfl
    · exact .inr rfl
  · rw [← runBatch_ok_iff]
    split
    · next hok => exact iff_of_true rfl hok
    · next hok => exact iff_of_false Nat.one_ne_zero hok

/-- Behind the two dashes `--json` is an expression, and it fails. The second expression has a sign
and a parenthesis, for which two levels are not enough. -/
theorem run_options_limits :
    let options : List GivenOption := [.depth .evaluation (.ofNat 5 (by decide)) true,
      .verbose 1, .depth .nesting (.ofNat 2 (by decide)) false]
    (options.filterMap GivenOption.once?).Nodup ∧
      options.flatMap GivenOption.arguments =
        ["--max-eval-depth=5", "-vv", "--max-depth", "2"] ∧
      run ["--max-eval-depth=5", "-vv", "--max-depth", "2", "--", "--json", "-(2)", "-2"] "" =
        (1, "Error: unexpected character 'j' at position 2\n" ++
          "Error: maximum nesting depth of 2 exceeded at position 2, found '2'\n= -2.0\n") := by
  intro options
  have honce : (options.filterMap GivenOption.once?).Nodup := by decide +kernel
  have hgiven : options.flatMap GivenOption.arguments =
      ["--max-eval-depth=5", "-vv", "--max-depth", "2"] := by decide +kernel
  have hne : ["--json", "-(2)", "-2"] ≠ [] := List.cons_ne_nil _ _
  obtain ⟨code, hrun, hcode, hzero⟩ := run_options honce hne ""
  have hfails : ∀ x, answer ⟨2, 5⟩ "--json" ≠ .ok x := by
    intro x
    rw [show answer ⟨2, 5⟩ "--json" = .error (.lexical ⟨'j', 2⟩) by decide +kernel]
    exact nofun
  obtain rfl : code = 1 := by
    refine hcode.resolve_left fun h => ?_
    obtain ⟨x, hx⟩ := hzero.mp h "--json" List.mem_cons_self
    exact hfails x hx
  refine ⟨honce, hgiven, ?_⟩
  rw [hgiven] at hrun
  refine hrun.trans (congrArg (Prod.mk 1) ?_)
  decide +kernel

end Calculator.CommandLine
