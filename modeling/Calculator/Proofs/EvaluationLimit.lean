import Calculator.Proofs.EvaluationSteps

/-!
# The limit of the evaluation

A limit makes an evaluation fail at the first node that lies too deep, in the order in which nodes
are worked out, unless something that is complete before has failed already; and it changes nothing
else. The order is written down as the list of all visits to the nodes of an expression.
-/

namespace Calculator

/-- What happens to a node while an expression is worked out: it is entered, below so many
ancestors, and it is left when it is complete. -/
inductive Visit where
  | enter (node : Expr) (ancestors : Nat)
  | leave (node : Expr)

namespace Expr

/-- The number of nodes on the longest path from the root. -/
def height : Expr → Nat
  | number .. => 1
  | signed _ operand _ => operand.height + 1
  | binary _ left right _ => max left.height right.height + 1

/-- The visits to the nodes of an expression below `ancestors` nodes, if nothing ends them: a node
is entered, then its operands are visited from left to right, and then it is left. -/
def visits : Expr → Nat → List Visit
  | number value span, ancestors =>
    [.enter (number value span) ancestors, .leave (number value span)]
  | signed sign operand span, ancestors =>
    [.enter (signed sign operand span) ancestors] ++ operand.visits (ancestors + 1) ++
      [.leave (signed sign operand span)]
  | binary operator left right span, ancestors =>
    [.enter (binary operator left right span) ancestors] ++ left.visits (ancestors + 1) ++
      right.visits (ancestors + 1) ++ [.leave (binary operator left right span)]

end Expr

/-! ## The first visit at a depth -/

/-- Of some visits, the one to `node` is the first that enters a node with `depth` ancestors, and
`before` is what happens before it. -/
def FirstEntered (depth : Nat) (visits before : List Visit) (node : Expr) : Prop :=
  (∃ after, visits = before ++ .enter node depth :: after) ∧ ∀ f, Visit.enter f depth ∉ before

namespace FirstEntered

variable {depth : Nat} {visits before : List Visit} {node : Expr}

/-- What comes later does not matter. -/
theorem append (h : FirstEntered depth visits before node) (later : List Visit) :
    FirstEntered depth (visits ++ later) before node := by
  obtain ⟨⟨after, rfl⟩, hbefore⟩ := h
  exact ⟨⟨after ++ later, by rw [List.append_assoc, List.cons_append]⟩, hbefore⟩

/-- Earlier visits at other depths come before. -/
theorem prepend (h : FirstEntered depth visits before node) {earlier : List Visit}
    (hearlier : ∀ f, Visit.enter f depth ∉ earlier) :
    FirstEntered depth (earlier ++ visits) (earlier ++ before) node := by
  obtain ⟨⟨after, rfl⟩, hbefore⟩ := h
  refine ⟨⟨after, by rw [List.append_assoc]⟩, fun f hf => ?_⟩
  exact (List.mem_append.mp hf).elim (hearlier f) (hbefore f)

end FirstEntered

namespace Expr

/-- A node that is entered above some depth is not one that is entered at it. -/
theorem not_mem_enter {e : Expr} {ancestors depth : Nat} (h : ancestors ≠ depth) (f : Expr) :
    Visit.enter f depth ∉ [Visit.enter e ancestors] := by
  intro hf
  cases List.mem_singleton.mp hf
  exact h rfl

/-- An expression is entered before anything else is visited. -/
theorem firstEntered_self (e : Expr) (ancestors : Nat) :
    FirstEntered ancestors (e.visits ancestors) [] e := by
  cases e <;> exact ⟨⟨_, rfl⟩, fun _ => List.not_mem_nil⟩

/-- An expression is left when it is complete. -/
theorem leave_mem_visits (e : Expr) (ancestors : Nat) : .leave e ∈ e.visits ancestors := by
  cases e <;> simp [visits]

/-- The nodes of an expression have fewer nodes above them than the longest path has. -/
theorem enter_not_mem_visits {e : Expr} {ancestors depth : Nat} (h : ancestors + e.height ≤ depth)
    (f : Expr) : Visit.enter f depth ∉ e.visits ancestors := by
  induction e generalizing ancestors with
  | number value span =>
    rw [height] at h
    simp only [visits, List.mem_cons, Visit.enter.injEq, reduceCtorEq, List.not_mem_nil, or_false]
    omega
  | signed sign operand span ih =>
    rw [height] at h
    have hoperand := ih (show ancestors + 1 + operand.height ≤ depth by omega)
    simp only [visits, List.mem_append, List.mem_singleton, Visit.enter.injEq, reduceCtorEq,
      or_false, not_or]
    exact ⟨by omega, hoperand⟩
  | binary operator left right span ihl ihr =>
    rw [height] at h
    have hleft := ihl (show ancestors + 1 + left.height ≤ depth by omega)
    have hright := ihr (show ancestors + 1 + right.height ≤ depth by omega)
    simp only [visits, List.mem_append, List.mem_singleton, Visit.enter.injEq, reduceCtorEq,
      or_false, not_or]
    exact ⟨⟨by omega, hleft⟩, hright⟩

/-! ## The value of what is complete -/

/-- Where an expression has a value, everything that is complete in it has one. -/
theorem exists_value_of_leave {e f : Expr} {x : Binary64} (h : e.value = .ok x) {ancestors : Nat}
    (hf : .leave f ∈ e.visits ancestors) : ∃ y, f.value = .ok y := by
  induction e generalizing x ancestors with
  | number value span =>
    simp only [visits, List.mem_cons, reduceCtorEq, false_or, List.not_mem_nil, or_false,
      Visit.leave.injEq] at hf
    exact ⟨x, hf ▸ h⟩
  | signed sign operand span ih =>
    simp only [visits, List.mem_append, List.mem_singleton, reduceCtorEq, false_or,
      Visit.leave.injEq] at hf
    obtain ⟨y, hy, -⟩ := exists_of_bind_eq_ok h
    rcases hf with hf | rfl
    · exact ih hy hf
    · exact ⟨x, h⟩
  | binary operator left right span ihl ihr =>
    simp only [visits, List.mem_append, List.mem_singleton, reduceCtorEq, false_or,
      Visit.leave.injEq] at hf
    obtain ⟨y, hy, hright⟩ := exists_of_bind_eq_ok h
    obtain ⟨z, hz, -⟩ := exists_of_bind_eq_ok hright
    rcases hf with (hf | hf) | rfl
    · exact ihl hy hf
    · exact ihr hz hf
    · exact ⟨x, h⟩

/-! ## The value with a limit and the value without -/

/-- With room for its longest path, the value of an expression is the one without a limit. -/
theorem valueWithin_eq_value {e : Expr} {room : Nat} (h : e.height ≤ room) (limit : Nat) :
    e.valueWithin limit room = e.value := by
  induction e generalizing room with
  | number value span =>
    rw [height] at h
    obtain ⟨room, rfl⟩ : ∃ k, room = k + 1 := ⟨room - 1, by omega⟩
    rfl
  | signed sign operand span ih =>
    rw [height] at h
    obtain ⟨room, rfl⟩ : ∃ k, room = k + 1 := ⟨room - 1, by omega⟩
    rw [valueWithin, ih (by omega), value]
  | binary operator left right span ihl ihr =>
    rw [height] at h
    obtain ⟨room, rfl⟩ : ∃ k, room = k + 1 := ⟨room - 1, by omega⟩
    rw [valueWithin, ihl (by omega), ihr (by omega), value]

/-- Where the room of an expression is not the reason for an error, there is some, and with more
room there is more below the root. -/
theorem exists_room_of_ne {limit room more : Nat} {e : Expr}
    (h : ∀ p, e.valueWithin limit room ≠ .error (.depthExceeded limit p)) (hmore : room ≤ more) :
    ∃ below moreBelow, room = below + 1 ∧ more = moreBelow + 1 ∧ below ≤ moreBelow := by
  cases room with
  | zero => exact absurd (by rw [valueWithin]) (h e.span.start)
  | succ below => exact ⟨below, more - 1, rfl, by omega, by omega⟩

/-- A value for which some room is enough is the same with more room, whatever limit the error would
name. -/
theorem valueWithin_of_le {limit room more : Nat} {e : Expr}
    (h : ∀ p, e.valueWithin limit room ≠ .error (.depthExceeded limit p)) (hmore : room ≤ more)
    (limit' : Nat) : e.valueWithin limit' more = e.valueWithin limit room := by
  induction e generalizing room more with
  | number value span =>
    obtain ⟨room, more, rfl, rfl, -⟩ := exists_room_of_ne h hmore
    rfl
  | signed sign operand span ih =>
    obtain ⟨room, more, rfl, rfl, hle⟩ := exists_room_of_ne h hmore
    have hoperand : ∀ p, operand.valueWithin limit room ≠ .error (.depthExceeded limit p) := by
      intro p hp
      exact h p (by rw [valueWithin, hp]; rfl)
    rw [valueWithin, valueWithin, ih hoperand hle]
  | binary operator left right span ihl ihr =>
    obtain ⟨room, more, rfl, rfl, hle⟩ := exists_room_of_ne h hmore
    have hleft : ∀ p, left.valueWithin limit room ≠ .error (.depthExceeded limit p) := by
      intro p hp
      exact h p (by rw [valueWithin, hp]; rfl)
    rw [valueWithin, valueWithin, ihl hleft hle]
    -- the right operand is worked out only where the left one has a value
    cases hx : left.valueWithin limit room with
    | error err => rfl
    | ok x =>
      have hright : ∀ p, right.valueWithin limit room ≠ .error (.depthExceeded limit p) := by
        intro p hp
        exact h p (by rw [valueWithin, hx, hp]; rfl)
      rw [ihr hright hle]

end Expr

/-- How an evaluation with a limit ends at the node `node`, which has too many nodes above it, if
`before` is what happens before: where everything that is complete has a value, with the error that
this node is too deep, and else as it ends without a limit, with an error as well. -/
structure EndsAt (limit : Nat) (before : List Visit) (node : Expr)
    (value limited : Except EvaluationError Binary64) : Prop where
  tooDeep : (∀ f, .leave f ∈ before → ∃ x, f.value = .ok x) →
    limited = .error (.depthExceeded limit node.span.start)
  failed : (∃ f err, .leave f ∈ before ∧ f.value = .error err) →
    ∃ err, value = .error err ∧ limited = .error err

/-- An evaluation that ends at a node that is too deep ends with an error. -/
theorem EndsAt.exists_error {limit : Nat} {before : List Visit} {node : Expr}
    {value limited : Except EvaluationError Binary64} (h : EndsAt limit before node value limited) :
    ∃ err, limited = .error err := by
  by_cases hfail : ∃ f err, .leave f ∈ before ∧ f.value = .error err
  · obtain ⟨err, -, hlimited⟩ := h.failed hfail
    exact ⟨err, hlimited⟩
  · refine ⟨_, h.tooDeep fun f hf => ?_⟩
    cases hvalue : f.value with
    | ok x => exact ⟨x, rfl⟩
    | error err => exact absurd ⟨f, err, hf, hvalue⟩ hfail

/-- What an operand ends with, the expression around it ends with too, if everything that was
complete before the operand has a value. -/
theorem EndsAt.bind {limit : Nat} {before earlier : List Visit} {node : Expr}
    {value limited : Except EvaluationError Binary64} (h : EndsAt limit before node value limited)
    (hearlier : ∀ f, .leave f ∈ earlier → ∃ x, f.value = .ok x)
    (k l : Binary64 → Except EvaluationError Binary64) :
    EndsAt limit (earlier ++ before) node (value >>= k) (limited >>= l) := by
  constructor
  · intro hall
    rw [h.tooDeep fun f hf => hall f (List.mem_append_right _ hf)]
    rfl
  · rintro ⟨f, err, hf, hfail⟩
    rcases List.mem_append.mp hf with hf | hf
    · obtain ⟨x, hx⟩ := hearlier f hf
      rw [hfail] at hx
      cases hx
    · obtain ⟨err', hvalue, hlimited⟩ := h.failed ⟨f, err, hf, hfail⟩
      exact ⟨err', by rw [hvalue]; rfl, by rw [hlimited]; rfl⟩

/-- An expression without room is itself the first node that is too deep. -/
theorem Expr.exists_endsAt_zero (limit : Nat) (e : Expr) {ancestors depth : Nat}
    (hdepth : depth = ancestors + 0) :
    ∃ before node, FirstEntered depth (e.visits ancestors) before node ∧
      EndsAt limit before node e.value (e.valueWithin limit 0) := by
  rw [hdepth]
  refine ⟨[], e, e.firstEntered_self ancestors, fun _ => by rw [valueWithin], ?_⟩
  rintro ⟨f, err, hf, -⟩
  exact absurd hf List.not_mem_nil

/-- An expression that is higher than the room for it has a first node that is too deep, and its
evaluation ends there. -/
theorem Expr.exists_endsAt (limit : Nat) {e : Expr} {room ancestors depth : Nat}
    (h : room < e.height) (hdepth : depth = ancestors + room) :
    ∃ before node, FirstEntered depth (e.visits ancestors) before node ∧
      EndsAt limit before node e.value (e.valueWithin limit room) := by
  induction e generalizing room ancestors with
  | number value span =>
    rw [height] at h
    obtain rfl : room = 0 := by omega
    exact exists_endsAt_zero limit _ hdepth
  | signed sign operand span ih =>
    cases room with
    | zero => exact exists_endsAt_zero limit _ hdepth
    | succ room =>
      rw [height] at h
      obtain ⟨before, node, hfirst, hends⟩ :=
        ih (show room < operand.height by omega) (show depth = ancestors + 1 + room by omega)
      have henter := not_mem_enter (e := signed sign operand span)
        (show ancestors ≠ depth by omega)
      refine ⟨_, node, (hfirst.prepend henter).append _, ?_⟩
      exact hends.bind (by simp) _ _
  | binary operator left right span ihl ihr =>
    cases room with
    | zero => exact exists_endsAt_zero limit _ hdepth
    | succ room =>
      rw [height] at h
      have henter := not_mem_enter (e := binary operator left right span)
        (show ancestors ≠ depth by omega)
      by_cases hleft : room < left.height
      · obtain ⟨before, node, hfirst, hends⟩ :=
          ihl hleft (show depth = ancestors + 1 + room by omega)
        refine ⟨_, node, ((hfirst.prepend henter).append _).append _, ?_⟩
        exact hends.bind (by simp) _ _
      · -- the left operand is not too high, so the first node that is lies in the right one
        obtain ⟨before, node, hfirst, hends⟩ :=
          ihr (show room < right.height by omega) (show depth = ancestors + 1 + room by omega)
        have hvisits := enter_not_mem_visits
          (show ancestors + 1 + left.height ≤ depth by omega)
        refine ⟨_, node, ((hfirst.prepend hvisits).prepend henter).append _, ?_⟩
        rw [value, valueWithin, valueWithin_eq_value (show left.height ≤ room by omega)]
        cases hx : left.value with
        | error err =>
          refine ⟨fun hall => ?_, fun _ => ⟨err, rfl, rfl⟩⟩
          obtain ⟨x, hx'⟩ := hall left (by simp [leave_mem_visits])
          rw [hx] at hx'
          cases hx'
        | ok x =>
          have hcomplete : ∀ f, .leave f ∈ [.enter (binary operator left right span) ancestors] ++
              left.visits (ancestors + 1) → ∃ y, f.value = .ok y := by
            intro f hf
            rcases List.mem_append.mp hf with hf | hf
            · cases List.mem_singleton.mp hf
            · exact exists_value_of_leave hx hf
          exact hends.bind hcomplete _ _

/-- **The limit of an evaluation is exact and changes nothing else.** An expression that is not
higher than the limit has its value without a limit. A higher one is an error: the first node that
has as many nodes above it as the limit allows on a path is too deep, unless something that is
complete before this node is entered has no value, and then the error is the one without a limit. So
an expression that has a value is not higher than the limit, and a higher limit changes no result
but that a node is too deep. -/
theorem evaluation_limit_exact (limit : Nat) (e : Expr) :
    (e.height ≤ limit → evaluate limit e = e.value) ∧
    (limit < e.height → ∃ before node, FirstEntered limit (e.visits 0) before node ∧
      EndsAt limit before node e.value (evaluate limit e)) ∧
    (∀ x, evaluate limit e = .ok x → e.height ≤ limit) ∧
    (∀ more, limit ≤ more →
      (∀ l p, evaluate limit e ≠ .error (.depthExceeded l p)) →
      evaluate more e = evaluate limit e) := by
  have hends : limit < e.height → ∃ before node, FirstEntered limit (e.visits 0) before node ∧
      EndsAt limit before node e.value (e.valueWithin limit limit) :=
    fun h => e.exists_endsAt limit h (Nat.zero_add limit).symm
  simp only [evaluate_eq]
  refine ⟨fun h => Expr.valueWithin_eq_value h limit, hends, fun x hx => ?_, ?_⟩
  · refine Nat.not_lt.mp fun h => ?_
    obtain ⟨before, node, -, hend⟩ := hends h
    obtain ⟨err, herr⟩ := hend.exists_error
    rw [hx] at herr
    cases herr
  · exact fun more hmore h => Expr.valueWithin_of_le (h limit) hmore more

end Calculator
