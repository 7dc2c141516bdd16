import Calculator.Proofs.TokenCursor

/-!
# The procedures of a parse, command by command

Without a bound on the recursion, a parse is a family of procedures that call each other. Each of
them is written here as the commands that it gives: to look at a token or to take it, to open or to
close a level, to call a procedure and to go on with what it returns. A run of such a program keeps
a record of what happens to the cursor. What a caller may rely on is verified one procedure at a
time, on the assumption that the procedures it calls keep to the same rule; runs then keep to it by
induction.
-/

namespace Calculator

/-- The procedures of a parse: one that reads an expression on a level of its own, and one for each
category of the grammar. -/
inductive Procedure where
  | expression
  | part (c : Category)
deriving DecidableEq, Repr

/-- The chains that are read in a loop: sums of products, and products of powers. -/
inductive Chain where
  | sum
  | product
deriving DecidableEq, Repr

namespace Chain

/-- What a chain is in the grammar. -/
def category : Chain → Category
  | sum => .sum
  | product => .product

/-- What stands between the operators of a chain. -/
def operand : Chain → Category
  | sum => .product
  | product => .power

/-- The operators of a chain. -/
def operator? : Chain → TokenKind → Option Operator
  | sum => Operator.ofSumKind?
  | product => Operator.ofProductKind?

end Chain

/-- What a procedure still has to do. -/
inductive Program where
  /-- The procedure returns. -/
  | finish (result : Except StructuralError Expr)
  /-- The procedure looks at the current token. -/
  | peek (next : Token → Program)
  /-- The procedure takes the current token. -/
  | advance (next : Token → Program)
  /-- The procedure opens a level. If that is one level too many, it returns with an error. -/
  | enter (next : Program)
  /-- The procedure closes a level. -/
  | leave (next : Program)
  /-- The procedure calls a procedure and goes on with what that one returns. -/
  | call (p : Procedure) (next : Except StructuralError Expr → Program)
  /-- The procedure goes back to the head of its loop, with what the chain comes to up to here. -/
  | again (k : Chain) (left : Expr)

namespace Program

/-- The procedure calls a procedure, and where that one fails, it returns with the same error. -/
def require (p : Procedure) (next : Expr → Program) : Program :=
  .call p fun
    | .ok e => next e
    | .error err => .finish (.error err)

/-- The procedure calls a procedure on the next level. It closes the level before it looks at what
has been returned, and returns what it makes of that. -/
def nested (p : Procedure) (make : Expr → Expr) : Program :=
  .enter <| .call p fun result => .leave <| .finish (result.map make)

/-- An expression, and the end token behind it. -/
def whole : Program :=
  .require .expression fun e => .peek fun token =>
    if token.kind = .endOfInput then .finish (.ok e)
    else .finish (.error (Fault.trailingInput.errorAt token))

end Program

/-- A round of the loop of a chain. -/
def Chain.round (k : Chain) (left : Expr) : Program :=
  .peek fun token =>
    match k.operator? token.kind with
    | none => .finish (.ok left)
    | some operator => .advance fun _ =>
      .require (.part k.operand) fun right => .again k (.combine operator left right)

/-- What a procedure does. -/
def Procedure.body : Procedure → Program
  | expression => .nested (.part .sum) id
  | part .sum => .require (.part .product) (.again .sum)
  | part .product => .require (.part .power) (.again .product)
  | part .power =>
    .require (.part .operand) fun base => .peek fun token =>
      if token.kind = .caret then
        .advance fun _ => .nested (.part .power) (.combine .pow base)
      else .finish (.ok base)
  | part .operand =>
    .peek fun token =>
      match Sign.ofKind? token.kind with
      | some sign => .advance fun token => .nested (.part .operand) (.withSign sign token.span)
      | none => .call (.part .primary) .finish
  | part .primary =>
    .peek fun token =>
      match token.kind with
      | .number => .advance fun token =>
        match token.value with
        | some literal => .finish (.ok (.number literal.value token.span))
        | none => .finish (.error (Fault.valueMissing.errorAt token))
      | .openParen => .advance fun _ => .require .expression fun e => .peek fun token =>
        if token.kind = .closeParen then .advance fun _ => .finish (.ok e)
        else .finish (.error (Fault.unclosedParen.errorAt token))
      | _ => .finish (.error (Fault.operandExpected.errorAt token))

/-- The procedure of a chain reads an operand and goes on in the loop. -/
theorem Chain.body_category (k : Chain) :
    (Procedure.part k.category).body = .require (.part k.operand) (.again k) := by
  cases k <;> rfl

/-! ## Runs -/

/-- What is done to a cursor. -/
inductive Action where
  | advance
  | enter
  | leave
  | call (p : Procedure) (result : Except StructuralError Expr)

/-- Something done to a cursor, with the cursor before and after it. A call lasts until it
returns. -/
structure Event where
  action : Action
  before : Cursor
  after : Cursor

/-- `Runs limit s p c events result d`: with at most `limit` levels open at a time, the program `p`
goes from the cursor `c` in the tokens `s` to a return with `result` at the cursor `d`, and `events`
are all that happens in between, calls before what happens in them. Nothing bounds a run but that it
is finite. -/
inductive Runs (limit : Nat) (s : TokenStream) :
    Program → Cursor → List Event → Except StructuralError Expr → Cursor → Prop where
  /-- A return ends the run where the cursor is. -/
  | finish {result : Except StructuralError Expr} {c : Cursor} :
      Runs limit s (.finish result) c [] result c
  /-- A look does nothing to the cursor. -/
  | peek {next : Token → Program} {c d : Cursor} {events : List Event}
      {result : Except StructuralError Expr} :
      Runs limit s (next (s.current c)) c events result d →
      Runs limit s (.peek next) c events result d
  /-- The cursor advances. -/
  | advance {next : Token → Program} {c d : Cursor} {events : List Event}
      {result : Except StructuralError Expr} :
      Runs limit s (next (s.current c)) (s.advance c) events result d →
      Runs limit s (.advance next) c (⟨.advance, c, s.advance c⟩ :: events) result d
  /-- A level is opened where the limit leaves room for one. -/
  | enter {next : Program} {c d : Cursor} {events : List Event}
      {result : Except StructuralError Expr} :
      c.depth < limit → Runs limit s next c.enter events result d →
      Runs limit s (.enter next) c (⟨.enter, c, c.enter⟩ :: events) result d
  /-- Without room for a level the run ends with an error, and none is opened. -/
  | tooDeep {next : Program} {c : Cursor} :
      limit ≤ c.depth →
      Runs limit s (.enter next) c [] (.error ((Fault.tooDeep limit).errorAt (s.current c))) c
  /-- A level is closed. -/
  | leave {next : Program} {c d : Cursor} {events : List Event}
      {result : Except StructuralError Expr} :
      Runs limit s next c.leave events result d →
      Runs limit s (.leave next) c (⟨.leave, c, c.leave⟩ :: events) result d
  /-- A procedure runs to its return, and the caller goes on from there. -/
  | call {p : Procedure} {next : Except StructuralError Expr → Program} {c d e : Cursor}
      {inner outer : List Event} {returned result : Except StructuralError Expr} :
      Runs limit s p.body c inner returned d → Runs limit s (next returned) d outer result e →
      Runs limit s (.call p next) c (⟨.call p returned, c, d⟩ :: (inner ++ outer)) result e
  /-- Another round of a loop begins. -/
  | again {k : Chain} {left : Expr} {c d : Cursor} {events : List Event}
      {result : Except StructuralError Expr} :
      Runs limit s (k.round left) c events result d →
      Runs limit s (.again k left) c events result d

namespace Runs

variable {limit : Nat} {s : TokenStream} {p : Program} {c d : Cursor} {events : List Event}
  {result : Except StructuralError Expr}

/-- A program has no two runs from the same cursor. -/
theorem unique (h : Runs limit s p c events result d) {events' : List Event}
    {result' : Except StructuralError Expr} {d' : Cursor}
    (h' : Runs limit s p c events' result' d') :
    events' = events ∧ result' = result ∧ d' = d := by
  induction h generalizing events' result' d' with
  | finish =>
    cases h'
    exact ⟨rfl, rfl, rfl⟩
  | peek _ ih =>
    cases h' with
    | peek hnext => exact ih hnext
  | advance _ ih =>
    cases h' with
    | advance hnext =>
      obtain ⟨rfl, hrest⟩ := ih hnext
      exact ⟨rfl, hrest⟩
  | enter hlt _ ih =>
    cases h' with
    | enter _ hnext =>
      obtain ⟨rfl, hrest⟩ := ih hnext
      exact ⟨rfl, hrest⟩
    | tooDeep hle => exact absurd hlt (Nat.not_lt.mpr hle)
  | tooDeep hle =>
    cases h' with
    | enter hlt _ => exact absurd hlt (Nat.not_lt.mpr hle)
    | tooDeep _ => exact ⟨rfl, rfl, rfl⟩
  | leave _ ih =>
    cases h' with
    | leave hnext =>
      obtain ⟨rfl, hrest⟩ := ih hnext
      exact ⟨rfl, hrest⟩
  | call _ _ ihbody ihnext =>
    cases h' with
    | call hbody hnext =>
      obtain ⟨rfl, rfl, rfl⟩ := ihbody hbody
      obtain ⟨rfl, hrest⟩ := ihnext hnext
      exact ⟨rfl, hrest⟩
  | again _ ih =>
    cases h' with
    | again hround => exact ih hround

/-- A run that begins in front of the first end token, or at it, does not pass it. -/
theorem position_le_endIndex (h : Runs limit s p c events result d)
    (hc : c.position ≤ s.endIndex) : d.position ≤ s.endIndex := by
  induction h with
  | finish => exact hc
  | tooDeep => exact hc
  | peek _ ih => exact ih hc
  | advance _ ih => exact ih (TokenStream.position_advance_le hc)
  | enter _ _ ih => exact ih hc
  | leave _ ih => exact ih hc
  | call _ _ ihbody ihnext => exact ihnext (ihbody hc)
  | again _ ih => exact ih hc

/-- Nothing behind the first end token is looked at: tokens that are the same up to there have the
same run. -/
theorem congr {s' : TokenStream}
    (hsame : ∀ c : Cursor, c.position ≤ s.endIndex → s'.current c = s.current c)
    (h : Runs limit s p c events result d) (hc : c.position ≤ s.endIndex) :
    Runs limit s' p c events result d := by
  induction h with
  | finish => exact .finish
  | @tooDeep next c hle =>
    rw [← hsame c hc]
    exact .tooDeep hle
  | @peek next c _ _ _ _ ih =>
    refine .peek ?_
    rw [hsame c hc]
    exact ih hc
  | @advance next c _ _ _ _ ih =>
    have hadvance : s'.advance c = s.advance c := by
      rw [TokenStream.advance, TokenStream.advance, hsame c hc]
    rw [← hadvance]
    refine .advance ?_
    rw [hsame c hc, hadvance]
    exact ih (TokenStream.position_advance_le hc)
  | enter hlt _ ih => exact .enter hlt (ih hc)
  | leave _ ih => exact .leave (ih hc)
  | call hbody _ ihbody ihnext =>
    exact .call (ihbody hc) (ihnext (hbody.position_le_endIndex hc))
  | again _ ih => exact .again (ih hc)

/-- A call in a run has a run of its own. -/
theorem run_of_call (h : Runs limit s p c events result d) {event : Event} (hmem : event ∈ events)
    {q : Procedure} {returned : Except StructuralError Expr}
    (haction : event.action = .call q returned) :
    ∃ inner, Runs limit s q.body event.before inner returned event.after := by
  induction h with
  | finish => cases hmem
  | tooDeep => cases hmem
  | peek _ ih => exact ih hmem
  | again _ ih => exact ih hmem
  | advance _ ih =>
    rcases List.mem_cons.mp hmem with rfl | hmem
    · cases haction
    · exact ih hmem
  | enter _ _ ih =>
    rcases List.mem_cons.mp hmem with rfl | hmem
    · cases haction
    · exact ih hmem
  | leave _ ih =>
    rcases List.mem_cons.mp hmem with rfl | hmem
    · cases haction
    · exact ih hmem
  | @call _ _ _ _ _ inner _ _ _ hbody _ ihbody ihnext =>
    rcases List.mem_cons.mp hmem with rfl | hmem
    · cases haction
      exact ⟨inner, hbody⟩
    · exact (List.mem_append.mp hmem).elim ihbody ihnext

end Runs

/-! ## What a caller may rely on -/

/-- What the caller may rely on when a call that began at `c` returns with `result` at `d`: the
level is the one it had, the cursor has not gone back, and if the call succeeds, it has taken a
token. -/
structure Returned (c : Cursor) (result : Except StructuralError Expr) (d : Cursor) : Prop where
  depth_eq : d.depth = c.depth
  position_le : c.position ≤ d.position
  position_lt : ∀ e, result = .ok e → c.position < d.position

/-- What makes a procedure that began at `origin` return from a cursor as its caller may rely on,
if the procedures that it calls return so. It never closes a level where none is open, and it goes
back to the head of its loop on the level where it began and behind a token at least. -/
def Program.Keeps (s : TokenStream) (origin : Cursor) : Program → Cursor → Prop
  | finish result, c => Returned origin result c
  | peek next, c => (next (s.current c)).Keeps s origin c
  | advance next, c => (next (s.current c)).Keeps s origin (s.advance c)
  | enter next, c => (∀ err, Returned origin (.error err) c) ∧ next.Keeps s origin c.enter
  | leave next, c => 0 < c.depth ∧ next.Keeps s origin c.leave
  | call _ next, c => ∀ result d, Returned c result d → (next result).Keeps s origin d
  | again _ _, c => c.depth = origin.depth ∧ origin.position < c.position

namespace Returned

variable {c d e : Cursor} {result : Except StructuralError Expr}

/-- An error may come anywhere ahead on the same level. -/
theorem error (hdepth : d.depth = c.depth) (hposition : c.position ≤ d.position)
    (err : StructuralError) : Returned c (.error err) d :=
  ⟨hdepth, hposition, nofun⟩

/-- A result may come behind a token on the same level. -/
theorem of_lt (hdepth : d.depth = c.depth) (hposition : c.position < d.position)
    (result : Except StructuralError Expr) : Returned c result d :=
  ⟨hdepth, Nat.le_of_lt hposition, fun _ _ => hposition⟩

end Returned

namespace Program

variable {s : TokenStream} {origin c : Cursor}

/-- A procedure that needs the result of a call keeps to the rule if what comes behind it does. -/
theorem keeps_require (p : Procedure) {next : Expr → Program} (hdepth : c.depth = origin.depth)
    (hposition : origin.position ≤ c.position)
    (hnext : ∀ e d, d.depth = origin.depth → origin.position < d.position →
      (next e).Keeps s origin d) :
    (require p next).Keeps s origin c := by
  intro result d hreturned
  have hdepth' := hreturned.depth_eq.trans hdepth
  cases result with
  | ok e => exact hnext e d hdepth' (Nat.lt_of_le_of_lt hposition (hreturned.position_lt e rfl))
  | error err => exact .error hdepth' (Nat.le_trans hposition hreturned.position_le) err

/-- A procedure that returns what it makes of a call on the next level keeps to the rule: the level
is closed on both ways out, and there is one to close. -/
theorem keeps_nested (p : Procedure) (make : Expr → Expr) (hdepth : c.depth = origin.depth)
    (hposition : origin.position ≤ c.position) : (nested p make).Keeps s origin c := by
  refine ⟨.error hdepth hposition, fun result d hreturned => ?_⟩
  have hopen : d.depth = origin.depth + 1 := hreturned.depth_eq.trans (congrArg (· + 1) hdepth)
  have hclosed : d.leave.depth = origin.depth := by
    rw [Cursor.leave, hopen, Nat.add_sub_cancel]
  refine ⟨by omega, ?_⟩
  cases result with
  | ok e => exact .of_lt hclosed (Nat.lt_of_le_of_lt hposition (hreturned.position_lt e rfl)) _
  | error err => exact .error hclosed (Nat.le_trans hposition hreturned.position_le) err

end Program

/-- A round of a loop keeps to the rule behind a token. -/
theorem Chain.keeps_round {s : TokenStream} {origin c : Cursor} (k : Chain) (left : Expr)
    (hdepth : c.depth = origin.depth) (hposition : origin.position < c.position) :
    (k.round left).Keeps s origin c := by
  rw [round, Program.Keeps]
  cases k.operator? (s.current c).kind with
  | none => exact .of_lt hdepth hposition _
  | some operator =>
    have hadvance : origin.position ≤ (s.advance c).position :=
      Nat.le_trans (Nat.le_of_lt hposition) TokenStream.le_position_advance
    exact Program.keeps_require (.part k.operand) (TokenStream.depth_advance.trans hdepth) hadvance
      fun _ _ hdepth' hposition' => ⟨hdepth', hposition'⟩

/-- Every procedure keeps to the rule. -/
theorem Procedure.keeps_body (s : TokenStream) (p : Procedure) (c : Cursor) :
    p.body.Keeps s c c := by
  have hstay : c.position ≤ c.position := Nat.le_refl _
  have hadvance : c.position ≤ (s.advance c).position := TokenStream.le_position_advance
  cases p with
  | expression => exact Program.keeps_nested _ _ rfl hstay
  | part category =>
    cases category with
    | sum =>
      exact Program.keeps_require _ rfl hstay fun _ _ hdepth hposition => ⟨hdepth, hposition⟩
    | product =>
      exact Program.keeps_require _ rfl hstay fun _ _ hdepth hposition => ⟨hdepth, hposition⟩
    | power =>
      refine Program.keeps_require _ rfl hstay fun base d hdepth hposition => ?_
      rw [Program.Keeps]
      split
      · exact Program.keeps_nested _ _ (TokenStream.depth_advance.trans hdepth)
          (Nat.le_trans (Nat.le_of_lt hposition) TokenStream.le_position_advance)
      · exact .of_lt hdepth hposition _
    | operand =>
      rw [body, Program.Keeps]
      split
      · exact Program.keeps_nested _ _ TokenStream.depth_advance hadvance
      · exact fun _ _ hreturned => hreturned
    | primary =>
      rw [body, Program.Keeps]
      split
      · rename_i hkind
        have hlt : c.position < (s.advance c).position := by
          rw [TokenStream.position_advance (by rw [hkind]; decide)]
          exact Nat.lt_succ_self _
        rw [Program.Keeps]
        split
        · exact .of_lt TokenStream.depth_advance hlt _
        · exact .of_lt TokenStream.depth_advance hlt _
      · refine Program.keeps_require .expression TokenStream.depth_advance hadvance
          fun e d hdepth hposition => ?_
        rw [Program.Keeps]
        split
        · exact .of_lt (TokenStream.depth_advance.trans hdepth)
            (Nat.lt_of_lt_of_le hposition TokenStream.le_position_advance) _
        · exact .of_lt hdepth hposition _
      · exact .error rfl hstay _

/-- The whole keeps to the rule as well. -/
theorem Program.keeps_whole (s : TokenStream) (c : Cursor) : whole.Keeps s c c := by
  refine keeps_require .expression rfl (Nat.le_refl _) fun e d hdepth hposition => ?_
  rw [Keeps]
  split
  · exact .of_lt hdepth hposition _
  · exact .of_lt hdepth hposition _

/-! ## Every run -/

/-- A program that keeps to the rule returns as a caller may rely on. -/
theorem Runs.returned {limit : Nat} {s : TokenStream} {p : Program} {c d : Cursor}
    {events : List Event} {result : Except StructuralError Expr}
    (h : Runs limit s p c events result d) {origin : Cursor} (hkeeps : p.Keeps s origin c) :
    Returned origin result d := by
  induction h generalizing origin with
  | finish => exact hkeeps
  | tooDeep => exact hkeeps.1 _
  | peek _ ih => exact ih hkeeps
  | advance _ ih => exact ih hkeeps
  | enter _ _ ih => exact ih hkeeps.2
  | leave _ ih => exact ih hkeeps.2
  | @call q _ c _ _ _ _ _ _ _ _ ihbody ihnext =>
    exact ihnext (hkeeps _ _ (ihbody (q.keeps_body s c)))
  | again _ ih => exact ih (Chain.keeps_round _ _ hkeeps.1 hkeeps.2)

/-- What an action does to the levels between two cursors: only to enter and to leave change their
number, a level is closed only where one is open, and a call returns as its caller may rely on. -/
def Action.Effect : Action → Cursor → Cursor → Prop
  | advance, c, d => d.depth = c.depth
  | enter, c, d => d.depth = c.depth + 1
  | leave, c, d => d.depth + 1 = c.depth
  | call _ result, c, d => Returned c result d

/-- What holds of everything that happens in a parse: no more levels are open than the limit allows,
the cursor neither goes back nor passes the first end token, and the levels are kept in order. -/
structure Event.Disciplined (limit : Nat) (s : TokenStream) (event : Event) : Prop where
  depth_before_le : event.before.depth ≤ limit
  depth_after_le : event.after.depth ≤ limit
  position_le : event.before.position ≤ event.after.position
  position_le_end : event.after.position ≤ s.endIndex
  effect : event.action.Effect event.before event.after

/-- Where a program keeps to the rule, nothing that happens on the way breaks the discipline. -/
theorem Runs.disciplined {limit : Nat} {s : TokenStream} {p : Program} {c d : Cursor}
    {events : List Event} {result : Except StructuralError Expr}
    (h : Runs limit s p c events result d) {origin : Cursor} (hkeeps : p.Keeps s origin c)
    (hposition : c.position ≤ s.endIndex) (hdepth : c.depth ≤ limit) :
    ∀ event ∈ events, event.Disciplined limit s := by
  induction h generalizing origin with
  | finish => nofun
  | tooDeep => nofun
  | peek _ ih => exact ih hkeeps hposition hdepth
  | again _ ih => exact ih (Chain.keeps_round _ _ hkeeps.1 hkeeps.2) hposition hdepth
  | @advance _ c _ _ _ _ ih =>
    have hnext := TokenStream.position_advance_le hposition
    have hlimit : (s.advance c).depth ≤ limit := by rwa [TokenStream.depth_advance]
    refine List.forall_mem_cons.mpr ⟨?_, ih hkeeps hnext hlimit⟩
    exact ⟨hdepth, hlimit, TokenStream.le_position_advance, hnext, TokenStream.depth_advance⟩
  | enter hlt _ ih =>
    refine List.forall_mem_cons.mpr ⟨?_, ih hkeeps.2 hposition hlt⟩
    exact ⟨hdepth, hlt, Nat.le_refl _, hposition, rfl⟩
  | @leave _ c _ _ _ _ ih =>
    have hlimit : c.leave.depth ≤ limit := Nat.le_trans (Nat.sub_le _ _) hdepth
    refine List.forall_mem_cons.mpr ⟨?_, ih hkeeps.2 hposition hlimit⟩
    exact ⟨hdepth, hlimit, Nat.le_refl _, hposition, Nat.sub_add_cancel hkeeps.1⟩
  | @call q _ c d _ _ _ _ _ hbody _ ihbody ihnext =>
    -- the body begins at the cursor of the call, and its return is what the rest relies on
    have hcall := hbody.returned (q.keeps_body s c)
    have hend := hbody.position_le_endIndex hposition
    have hlimit : d.depth ≤ limit := by rwa [hcall.depth_eq]
    refine List.forall_mem_cons.mpr ⟨⟨hdepth, hlimit, hcall.position_le, hend, hcall⟩, ?_⟩
    exact List.forall_mem_append.mpr ⟨ihbody (q.keeps_body s c) hposition hdepth,
      ihnext (hkeeps _ _ hcall) hend hlimit⟩

end Calculator
